import Dataflow.Proofs.Run.Moves
import Dataflow.Proofs.Run.Ports

/-!
# How outputs are moved

The outputs of a node are offered right after they were taken. In a run that goes on, no offer is refused.

* `Graph.convert_of_write`: a port stores a value as converted to its type;
* `Graph.mem_transfers_deliver`: an offer that is not passed over becomes a transfer, if none is refused;
* `Run.Leads.along`: values are offered along edges only;
* `Run.Leads.moved`: in a run that is not over, all that was taken was offered;
* `Run.executor_propagateFrom`: the transfers are published.
-/

namespace Dataflow

/-- Acts by which outputs are moved. -/
def Act.isMove : Act → Bool
  | .take _ | .offer _ | .publish .. => true
  | _ => false

namespace Graph

/-! ### Stored values -/

/-- A port stores a value as converted to its type. -/
theorem convert_of_write {g g' : Graph} (hg : g.Identified) {p : PortId} {v w : Value} {b : Port}
    (hw : g.write p v = .ok (w, g')) (hb : g.port? p = some b) : v.convert b.dataType = .ok w := by
  obtain ⟨owner, n, n', s', howner, hn, hwrite, -⟩ := write_eq_ok hw
  obtain ⟨slot, top, top', htop, hat, -⟩ := Node.write_eq_ok hwrite
  obtain ⟨id, m, hid, hm, hbp⟩ := port?_eq_some hb
  obtain rfl : owner = id := Option.some.inj (howner.symm.trans hid)
  obtain rfl : n = m := Option.some.inj (hn.symm.trans hm)
  -- The port that is written to is the one that the look-up finds.
  obtain ⟨slot', q, hq, hfind⟩ := Node.port?_eq_some (hg.ordered hn) hbp
  obtain ⟨hbq, hbid⟩ := Port.find?_some_mem hfind
  have hedit := (Port.edit_of_writeAt hat).and_mem
  obtain ⟨c, c', hc, hct, hcid⟩ := hedit.changed
  have hin : p ∈ top.ids := Port.mem_ids_iff.2 ⟨c, hct, hcid⟩
  have hin' : p ∈ q.ids := Port.mem_ids_iff.2 ⟨b, hbq, hbid⟩
  obtain rfl := Node.slot_unique (hg.ordered hn) (hg.distinct hn) htop hq hin hin'
  obtain rfl : top = q := Option.some.inj (htop.symm.trans hq)
  have hthis := (Port.find?_eq_some_iff (Node.nodup_ids (hg.ordered hn) (hg.distinct hn) htop)).2 ⟨hct, hcid⟩
  obtain rfl : c = b := Option.some.inj (hthis.symm.trans hfind)
  rcases Port.write_eq_ok hc with ⟨rfl, rfl, -, -⟩ | ⟨-, hconvert, -, -⟩
  · rfl
  · exact hconvert

/-! ### Offers that are not refused -/

theorem subset_transfers_deliver (offers : List Offer) (d : Delivery) :
    d.transfers ⊆ (deliver offers d).transfers := by
  induction offers generalizing d with
  | nil => exact List.Subset.refl _
  | cons o rest ih =>
    unfold deliver
    split_ifs
    · exact ih d
    · split
      · exact List.Subset.refl _
      · refine List.Subset.trans ?_ (ih _)
        exact List.subset_append_left _ _

/-- If no offer is refused, all are made. -/
theorem offering_eq {offers : List Offer} {d : Delivery} (h : (deliver offers d).failure = none) :
    offering offers d.graph = offers.map .offer := by
  induction offers generalizing d with
  | nil => rfl
  | cons o rest ih =>
    unfold deliver at h
    unfold offering
    rw [List.map_cons]
    congr 1
    by_cases hs : d.graph.skips o.edge = true
    · have hanswer : d.graph.answer? o = none := by rw [answer?, if_pos hs]
      rw [if_pos hs] at h
      simp only [hanswer, enact, ih h]
    · have hanswer : d.graph.answer? o = some (d.graph.write o.edge.target o.value) := by rw [answer?, if_neg hs]
      rw [if_neg hs] at h
      cases hw : d.graph.write o.edge.target o.value with
      | error e =>
        rw [hw] at h
        cases h
      | ok result =>
        obtain ⟨stored, g'⟩ := result
        rw [hw] at h hanswer
        simp only [hanswer, enact]
        exact ih h

/-- An offer that is not passed over becomes a transfer of the value as stored. -/
theorem mem_transfers_deliver {earlier later : List Offer} {o : Offer} {d : Delivery}
    (h : (deliver (earlier ++ o :: later) d).failure = none)
    (hs : (d.graph.replay (earlier.map .offer)).skips o.edge = false) :
    ∃ w g', (d.graph.replay (earlier.map .offer)).write o.edge.target o.value = .ok (w, g') ∧
      ⟨o.edge.source, o.edge.target, w⟩ ∈ (deliver (earlier ++ o :: later) d).transfers := by
  induction earlier generalizing d with
  | nil =>
    rw [List.nil_append] at h ⊢
    unfold deliver at h ⊢
    rw [List.map_nil, replay_nil] at hs ⊢
    rw [if_neg (by rw [hs]; decide)] at h ⊢
    cases hw : d.graph.write o.edge.target o.value with
    | error e =>
      rw [hw] at h
      cases h
    | ok result =>
      obtain ⟨stored, g'⟩ := result
      exact ⟨stored, g', rfl, subset_transfers_deliver later _ (List.mem_append_right _ List.mem_cons_self)⟩
  | cons o' rest ih =>
    rw [List.cons_append] at h ⊢
    rw [List.map_cons, replay_cons] at hs ⊢
    unfold deliver at h ⊢
    by_cases hs' : d.graph.skips o'.edge = true
    · have hanswer : d.graph.answer? o' = none := by rw [answer?, if_pos hs']
      simp only [enact, hanswer] at hs ⊢
      rw [if_pos hs'] at h ⊢
      exact ih h hs
    · have hanswer : d.graph.answer? o' = some (d.graph.write o'.edge.target o'.value) := by
        rw [answer?, if_neg hs']
      rw [if_neg hs'] at h ⊢
      cases hw : d.graph.write o'.edge.target o'.value with
      | error e =>
        rw [hw] at h
        cases h
      | ok result =>
        obtain ⟨stored, g'⟩ := result
        rw [hw] at h hanswer
        simp only [enact, hanswer] at hs ⊢
        exact ih h hs

/-- Values are offered along edges. -/
theorem mem_offers {g : Graph} {values : List (PortId × Value)} {o : Offer} :
    o ∈ g.offers values ↔ (o.edge.source, o.value) ∈ values ∧ o.edge.target ∈ g.outgoing o.edge.source := by
  simp only [offers, List.mem_flatMap, List.mem_map]
  constructor
  · rintro ⟨⟨source, v⟩, hv, target, htarget, rfl⟩
    exact ⟨hv, htarget⟩
  · rintro ⟨hv, htarget⟩
    exact ⟨(o.edge.source, o.value), hv, o.edge.target, htarget, rfl⟩

theorem mem_offering {offers : List Offer} {g : Graph} {act : Act} (h : act ∈ offering offers g) :
    ∃ o ∈ offers, act = .offer o := by
  induction offers generalizing g with
  | nil => exact absurd h List.not_mem_nil
  | cons o rest ih =>
    unfold offering at h
    rcases List.mem_cons.1 h with rfl | h
    · exact ⟨o, List.mem_cons_self, rfl⟩
    · split at h
      · exact absurd h List.not_mem_nil
      · obtain ⟨o', ho', rfl⟩ := ih h
        exact ⟨o', List.mem_cons_of_mem _ ho', rfl⟩

/-- The outputs of a node are taken first, then they are offered, and the transfers are published at last. -/
theorem moving_eq (g : Graph) (id : NodeId) :
    ∃ acts, g.moving id = .take id :: acts ∧ ∀ act ∈ acts,
      (∃ o ∈ (g.take id).offers (g.taken id), act = .offer o) ∨ ∃ transfers, act = .publish id transfers := by
  refine ⟨_, rfl, fun act hact => ?_⟩
  rcases List.mem_append.1 hact with hact | hact
  · exact Or.inl (mem_offering hact)
  · split_ifs at hact
    · exact absurd hact List.not_mem_nil
    · exact Or.inr ⟨_, List.mem_singleton.1 hact⟩

end Graph

namespace Run

/-- Outputs are moved in steps of their own. A step after which the run goes on has no refused offer. -/
theorem Moves.moving {r : Run} {acts : List Act} {p : Phase} (h : Moves r acts p) :
    (∀ act ∈ acts, act.isMove = false) ∨ ∃ id depth work origins, acts = r.graph.moving id ∧
      r.phase = .propagating ⟨.propagate id depth :: work, origins⟩ ∧
        (p.isOver = false → (r.graph.transferOutputs id).failure = none) := by
  have hmemories : ∀ (node : NodeId) (memories : List Memory), ∀ act ∈ memories.map (Act.remember node),
      act.isMove = false := by
    intro node memories act hact
    obtain ⟨memory, -, rfl⟩ := List.mem_map.1 hact
    rfl
  have hcarried : ∀ {node depth agenda g acts p}, Carried node depth agenda g acts p →
      ∀ act ∈ acts, act.isMove = false := by
    intro node depth agenda g acts p hcarry act hact
    cases hcarry with
    | asleep | broken => exact hmemories _ _ act hact
    | failed | settled =>
      rcases List.mem_append.1 hact with hact | hact
      · exact hmemories _ _ act hact
      · simp only [List.mem_cons, List.not_mem_nil, or_false] at hact
        rcases hact with rfl | rfl <;> rfl
  cases h with
  | wait | turn | report | skip | next | finish => exact Or.inl fun act hact => absurd hact List.not_mem_nil
  | begin =>
    refine Or.inl fun act hact => ?_
    obtain ⟨a, rfl⟩ := mem_preparing hact
    rfl
  | run => exact Or.inl (hmemories _ _)
  | settle =>
    refine Or.inl fun act hact => ?_
    rw [List.mem_singleton.1 hact]
    rfl
  | pass =>
    refine Or.inl fun act hact => ?_
    obtain ⟨id, -, rfl⟩ := List.mem_map.1 hact
    rfl
  | move hp hok => exact Or.inr ⟨_, _, _, _, rfl, hp, fun _ => hok⟩
  | relay _ _ _ _ hcarry => exact Or.inl (List.forall_mem_cons.2 ⟨rfl, hcarried hcarry⟩)
  | resume _ hcarry => exact Or.inl (hcarried hcarry)
  | giveUp h =>
    rcases h.acts_eq with ⟨ids, rfl⟩ | ⟨id, depth, work, origins, hp, rfl⟩
    · refine Or.inl fun act hact => ?_
      obtain ⟨id, -, rfl⟩ := List.mem_map.1 hact
      rfl
    · exact Or.inr ⟨id, depth, work, origins, rfl, hp, fun h => by cases h⟩

/-- A run that is over stays over. -/
theorem Moves.isOver {r : Run} {acts : List Act} {p : Phase} (h : Moves r acts p) (hr : r.phase.isOver = true) :
    p.isOver = true := by
  cases h with
  | wait => exact hr
  | report | giveUp => rfl
  | turn hp _ =>
    rw [Phase.isOver_of_isIdle hp] at hr
    cases hr
  | begin hp | run hp | settle hp | pass hp | move hp | skip hp | relay hp | resume hp | next hp | finish hp =>
    rw [hp] at hr
    cases hr

/-- Values are offered along edges only. -/
theorem Leads.along {r r' : Run} {acts : List Act} (hg : r.graph.Identified) (h : Leads r acts r') {o : Offer}
    (ho : .offer o ∈ acts) : o.edge.target ∈ r.graph.outgoing o.edge.source := by
  induction h with
  | refl => exact absurd ho List.not_mem_nil
  | @step r₁ r₂ acts s hlead hs ih =>
    rcases List.mem_append.1 ho with ho | ho
    · exact ih ho
    · have hg₁ := hlead.identified hg
      rcases (step_moves hg₁.isNamed hs).moving with hnone | ⟨id, _, _, _, hacts, -, -⟩
      · cases hnone _ ho
      · obtain ⟨rest, hmoving, hrest⟩ := r₁.graph.moving_eq id
        rw [hacts, hmoving] at ho
        rcases hrest _ ((List.mem_cons.1 ho).resolve_left (by simp)) with ⟨o', ho', heq⟩ | ⟨_, heq⟩ <;> cases heq
        have htarget := (Graph.mem_offers.1 ho').2
        rwa [show r₁.graph.take id = r₁.graph.enact (.take id) from rfl, Graph.outgoing_enact, hlead.graph hg,
          Graph.outgoing_replay] at htarget

/-- In a run that is not over, all that was taken from a node was offered, and no offer was refused. -/
theorem Leads.moved {r r' : Run} {acts before later : List Act} {id : NodeId} (hg : r.graph.Identified)
    (h : Leads r acts r') (hover : r'.phase.isOver = false) (hacts : acts = before ++ .take id :: later) :
    ∃ r₁ depth work origins rest, Leads r before r₁ ∧
      r₁.phase = .propagating ⟨.propagate id depth :: work, origins⟩ ∧
      .take id :: later = r₁.graph.moving id ++ rest ∧ (r₁.graph.transferOutputs id).failure = none := by
  induction h generalizing later with
  | refl => exact absurd hacts (by simp)
  | @step r₁ r₂ acts s hlead hs ih =>
    have hm := step_moves (hlead.identified hg).isNamed hs
    have hover' : r₁.phase.isOver = false := by
      by_contra hr
      rw [hm.isOver (by simpa using hr)] at hover
      cases hover
    rcases split_append hacts with ⟨rest, hbefore, rfl⟩ | ⟨first, rfl, hstep⟩
    · obtain ⟨r₀, depth, work, origins, rest', hlead₀, hp, hmoving, hok⟩ := ih hover' hbefore
      refine ⟨r₀, depth, work, origins, rest' ++ r₁.acts s, hlead₀, hp, ?_, hok⟩
      rw [← List.append_assoc, ← hmoving]
      rfl
    · -- The outputs are taken in the last step, which moves nothing else.
      have hmem : .take id ∈ r₁.acts s := by rw [hstep]; exact List.mem_append_right _ List.mem_cons_self
      rcases hm.moving with hnone | ⟨id', depth, work, origins, hmoves, hp, hok⟩
      · cases hnone _ hmem
      · obtain ⟨rest, hmoving, hrest⟩ := r₁.graph.moving_eq id'
        rw [hmoves, hmoving] at hstep
        rcases List.cons_eq_append_iff.1 hstep with ⟨rfl, heq⟩ | ⟨first', rfl, heq⟩
        · obtain ⟨hid, rfl⟩ := List.cons.inj heq
          cases hid
          rw [List.append_nil]
          exact ⟨r₁, depth, work, origins, [], hlead, hp, by rw [List.append_nil, hmoving], hok hover⟩
        · have hin : .take id ∈ rest := by rw [heq]; exact List.mem_append_right _ List.mem_cons_self
          rcases hrest _ hin with ⟨_, -, h⟩ | ⟨_, h⟩ <;> cases h

/-- The step in which the outputs of a node are moved. -/
theorem drive_moving {r : Run} {id : NodeId} {depth : Nat} {work : List Work} {origins : List NodeId}
    (hp : r.phase = .propagating ⟨.propagate id depth :: work, origins⟩) :
    r.step? .drive = some (r.propagateFrom id depth ⟨work, origins⟩) ∧ r.acts .drive = r.graph.moving id := by
  constructor
  · simp only [step?, drive?, hp, propagateNext]
  · simp only [acts, driving, hp]

/-- What was transferred is published. -/
theorem executor_propagateFrom (r : Run) {id : NodeId} (depth : Nat) (agenda : Agenda)
    (h : (r.graph.transferOutputs id).transfers ≠ []) :
    (r.propagateFrom id depth agenda).executor =
      r.executor.publish (.dataPropagated id (r.graph.transferOutputs id).transfers) := by
  unfold propagateFrom
  dsimp only
  rw [if_neg (by simpa using h)]
  split <;> rfl

end Run

end Dataflow
