import Dataflow.Graph.Transfer
import Dataflow.Proofs.Graph

/-!
# Taking the outputs of a node

* `Node.Marked` says that a node differs from another one in what was read on its output side only;
* `Graph.marked_takeUnread`: taking unread outputs leaves such a node behind;
* `Graph.mem_takeUnread`: every unread output that is asked for is taken, with the value it holds.
-/

namespace Dataflow

namespace Node

/-- Some ports of the output side were read. -/
structure Marked (n n' : Node) : Prop where
  evolves : ∀ s, n.Evolves s s n'
  memory : n'.memory = n.memory
  portIds : n'.portIds = n.portIds
  outputIds : ∀ i ∈ n.outputIds, i ∈ n'.outputIds
  triggers : n'.triggers = n.triggers
  portAt? : ∀ slot, slot.isOutput = false → n'.portAt? slot = n.portAt? slot

theorem Marked.refl (n : Node) : n.Marked n :=
  ⟨fun s => .refl s n, rfl, rfl, fun _ h => h, rfl, fun _ _ => rfl⟩

theorem Marked.trans {n n' n'' : Node} (h : n.Marked n') (h' : n'.Marked n'') : n.Marked n'' where
  evolves s := (h.evolves s).trans (h'.evolves s)
  memory := h'.memory.trans h.memory
  portIds := h'.portIds.trans h.portIds
  outputIds i hi := h'.outputIds i (h.outputIds i hi)
  triggers := h'.triggers.trans h.triggers
  portAt? slot hs := (h'.portAt? slot hs).trans (h.portAt? slot hs)

/-- Reading one port of the output side. -/
theorem marked_read {n : Node} {id : PortId} {c : Port} (hn : n.Ordered) (hd : n.portIds.Nodup)
    (hout : id ∈ n.outputIds) (hc : n.port? id = some c) :
    n.Marked ((n.replacePort? id c.read.2).getD n) ∧
      ∀ slot top r, n.portAt? slot = some top → r ∈ top.flatten → r.id ≠ id →
        ∃ top' r', ((n.replacePort? id c.read.2).getD n).portAt? slot = some top' ∧ r' ∈ top'.flatten ∧
          r'.id = r.id ∧ r'.data = r.data ∧ r'.hasNewData = r.hasNewData := by
  cases hr : n.replacePort? id c.read.2 with
  | none => exact ⟨Marked.refl n, fun slot top r htop hr _ => ⟨top, r, htop, hr, rfl, rfl, rfl⟩⟩
  | some n' =>
    rw [Option.getD_some]
    obtain ⟨slot, top, top', htop, rfl, hexchange⟩ := replacePort?_edit hn hd hc hr
    have hedit : Port.Edit (fun r => r) id (fun x x' => x' = x.read.2) top top' :=
      hexchange.imp fun x x' ⟨hx, hx'⟩ => hx.symm ▸ hx'
    have htopIds := hedit.mem_ids
    have hids : top'.ids = top.ids := hedit.ids_eq fun x x' h => h ▸ Port.ids_read x
    have hsound : Port.Every Port.Sound top → Port.Every Port.Sound top' := fun h =>
      (hedit.sound_exchange (fun x x' hx hs => ⟨hx ▸ Port.sound_read hs, hx ▸ rfl⟩) h).1
    have hlegal : ∀ side, Port.Every (Port.Legal side) top → Port.Every (Port.Legal side) top' := fun side =>
      hedit.every (fun _ => rfl) (fun r es hr hne => ⟨hr.direction, hr.typed, hr.counted, fun hc =>
        absurd (hr.bare hc) hne⟩) fun x x' hx hl => hx ▸ Port.legal_read hl
    obtain ⟨slot₂, top₂, hslot₂, htop₂, hin₂⟩ := (mem_outputIds hn).1 hout
    obtain rfl := slot_unique hn hd htop₂ htop hin₂ htopIds
    have hat : ∀ slot', (n.setPort slot₂ top').portAt? slot' = if slot₂ = slot' then some top' else n.portAt? slot' :=
      fun slot' => portAt?_setPort ..
    refine ⟨⟨fun s => evolves_setPort htop hsound (hlegal _) (hids ▸ Supply.Renews.refl s _), setPort_memory .., ?_,
      fun i hi => ?_, triggers_setPort hslot₂, fun slot' hs => ?_⟩, fun slot' top₃ r htop₃ hr hne => ?_⟩
    · obtain ⟨before, after, hsplit, hset⟩ := portIds_setPort hn slot₂
      rw [hset, hids, hsplit, htop, Option.elim_some]
    · obtain ⟨slot', q, hs, hq, hi⟩ := (mem_outputIds hn).1 hi
      refine (mem_outputIds hn.setPort).2 ?_
      by_cases heq : slot₂ = slot'
      · subst heq
        obtain rfl : q = top := Option.some.inj (hq.symm.trans htop)
        exact ⟨slot₂, top', hs, by rw [hat, if_pos rfl], hids ▸ hi⟩
      · exact ⟨slot', q, hs, by rw [hat, if_neg heq]; exact hq, hi⟩
    · rw [hat, if_neg (fun e => by rw [← e, hslot₂] at hs; cases hs)]
    · by_cases heq : slot₂ = slot'
      · subst heq
        obtain rfl : top₃ = top := Option.some.inj (htop₃.symm.trans htop)
        obtain ⟨r', hr', hsame⟩ := hedit.flatten_other hr hne
        exact ⟨top', r', by rw [hat, if_pos rfl], hr', hsame⟩
      · exact ⟨top₃, r, by rw [hat, if_neg heq]; exact htop₃, hr, rfl, rfl, rfl⟩

end Node

namespace Graph

theorem marked_takeUnread {ports : List PortId} {n : Node} (hn : n.Ordered) (hd : n.portIds.Nodup)
    (hout : ∀ p ∈ ports, p ∈ n.outputIds) : n.Marked (takeUnread ports n).2 := by
  induction ports generalizing n with
  | nil => exact Node.Marked.refl n
  | cons port rest ih =>
    obtain ⟨hport, hrest⟩ := List.forall_mem_cons.1 hout
    unfold takeUnread
    split
    · exact ih hn hd hrest
    · rename_i c hc
      split_ifs
      · obtain ⟨hm, -⟩ := Node.marked_read hn hd hport hc
        have hlater := ih ((hm.evolves ⟨0⟩).ordered hn) (hm.portIds ▸ hd) fun p hp => hm.outputIds p (hrest p hp)
        exact hm.trans hlater
      · exact ih hn hd hrest

/-- Every unread output that is asked for is taken, with the value it holds. -/
theorem mem_takeUnread {ports : List PortId} {n : Node} (hn : n.Ordered) (hd : n.portIds.Nodup)
    (hout : ∀ p ∈ ports, p ∈ n.outputIds) {slot : Slot} {top c : Port} (htop : n.portAt? slot = some top)
    (hc : c ∈ top.flatten) (hport : c.id ∈ ports) (hnew : c.hasNewData = true) :
    (c.id, c.data) ∈ (takeUnread ports n).1 := by
  induction ports generalizing n top c with
  | nil => exact absurd hport List.not_mem_nil
  | cons port rest ih =>
    obtain ⟨hfirst, hrest⟩ := List.forall_mem_cons.1 hout
    by_cases heq : c.id = port
    · -- The look-up finds this very port.
      have hfound : n.port? port = some c := by
        have hin : port ∈ top.ids := Port.mem_ids_iff.2 ⟨c, hc, heq⟩
        obtain ⟨d, hd'⟩ := Option.isSome_iff_exists.1
          (Node.port?_isSome.2 ((Node.mem_portIds hn).2 ⟨slot, top, htop, hin⟩))
        obtain ⟨slot₁, top₁, htop₁, hfind⟩ := Node.port?_eq_some hn hd'
        obtain ⟨hmem, hdid⟩ := Port.find?_some_mem hfind
        have hin₁ : port ∈ top₁.ids := Port.mem_ids_iff.2 ⟨d, hmem, hdid⟩
        obtain rfl := Node.slot_unique hn hd htop₁ htop hin₁ hin
        obtain rfl : top₁ = top := Option.some.inj (htop₁.symm.trans htop)
        have hthis := (Port.find?_eq_some_iff (Node.nodup_ids hn hd htop)).2 ⟨hc, heq⟩
        rw [hd', Option.some.inj (hfind.symm.trans hthis)]
      rw [takeUnread, hfound]
      simp only [hnew, if_true]
      exact List.mem_cons.2 (Or.inl (by rw [heq]; rfl))
    · have hlater : c.id ∈ rest := (List.mem_cons.1 hport).resolve_left heq
      unfold takeUnread
      split
      · exact ih hn hd hrest htop hc hlater hnew
      · rename_i d hd'
        split_ifs
        · obtain ⟨hm, hothers⟩ := Node.marked_read hn hd hfirst hd'
          obtain ⟨top', c', htop', hc', hid, hdata, hnew'⟩ := hothers slot top c htop hc heq
          have htaken := ih ((hm.evolves ⟨0⟩).ordered hn) (hm.portIds ▸ hd) (fun p hp => hm.outputIds p (hrest p hp))
            htop' hc' (hid ▸ hlater) (hnew' ▸ hnew)
          rw [hid, hdata] at htaken
          exact List.mem_cons_of_mem _ htaken
        · exact ih hn hd hrest htop hc hlater hnew

end Graph

end Dataflow
