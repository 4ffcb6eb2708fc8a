import Dataflow.Proofs.Graph.Transfer
import Dataflow.Proofs.Port.Renaming

/-!
# Nodes under other identifiers

What a node does does not depend on the identifiers of its element ports.

* `Node.rename` gives the ports of a node other identifiers, and most functions of nodes commute with that;
* `Node.port?_view`, `Node.replacePort?_view` and `Graph.takeUnread_view` look up ports by identifiers that were handed out,
  which are told from all others;
* `Node.complete_view` and `Node.write_view`: nodes that look alike still do after the same was written to them.
-/

namespace Dataflow

open Keyed

namespace Node

/-- A node whose ports have other identifiers. -/
def rename (f : PortId → PortId) (n : Node) : Node :=
  { n with
    execIn := n.execIn.rename f
    execOut := n.execOut.rename f
    inputs := mapValues (Port.rename f) n.inputs
    outputs := mapValues (Port.rename f) n.outputs
    controlInputs := mapValues (Port.rename f) n.controlInputs
    controlOutputs := mapValues (Port.rename f) n.controlOutputs }

section Rename

variable (f : PortId → PortId) (n : Node)

theorem ports_rename : (n.rename f).ports = n.ports.map (Port.rename f) := by
  simp [ports, rename]

theorem triggers_rename : (n.rename f).triggers = n.triggers.map (Port.rename f) := by
  simp [triggers, rename]

theorem outputSide_rename : (n.rename f).outputSide = n.outputSide.map (Port.rename f) := by
  simp [outputSide, rename]

theorem slots_rename : (n.rename f).slots = n.slots := by
  simp [slots, rename]

/-- The identifiers of some ports. -/
theorem flatMap_ids_rename (ports : List Port) : (ports.map (Port.rename f)).flatMap Port.ids = (ports.flatMap Port.ids).map f := by
  rw [List.flatMap_map, List.map_flatMap]
  exact List.flatMap_congr fun p _ => p.ids_rename f

theorem portIds_rename : (n.rename f).portIds = n.portIds.map f := by
  rw [portIds, ports_rename, flatMap_ids_rename, portIds]

theorem triggerIds_rename : (n.rename f).triggerIds = n.triggerIds.map f := by
  rw [triggerIds, triggers_rename, flatMap_ids_rename, triggerIds]

theorem outputIds_rename : (n.rename f).outputIds = n.outputIds.map f := by
  rw [outputIds, outputSide_rename, flatMap_ids_rename, outputIds]

theorem portAt?_rename (slot : Slot) : (n.rename f).portAt? slot = (n.portAt? slot).map (Port.rename f) := by
  cases slot <;> simp [portAt?, rename]

theorem setPort_rename (slot : Slot) (p : Port) :
    (n.setPort slot p).rename f = (n.rename f).setPort slot (p.rename f) := by
  cases slot <;> simp [setPort, rename, mapValues_insert]

theorem prepare_rename : (n.rename f).prepare = (n.prepare.1, n.prepare.2.rename f) := by
  have hvalues : ∀ group : Keyed Port, mapValues (fun p => p.read.1) (mapValues (Port.rename f) group) =
      mapValues (fun p => p.read.1) group := by
    intro group
    rw [mapValues, mapValues, mapValues, List.map_map]
    exact List.map_congr_left fun e _ => by rw [Function.comp_apply, Port.read_rename]
  have hread : mapValues (fun p => p.read.2) (mapValues (Port.rename f) n.inputs) =
      mapValues (Port.rename f) (mapValues (fun p => p.read.2) n.inputs) := by
    rw [mapValues, mapValues, mapValues, mapValues, List.map_map, List.map_map]
    exact List.map_congr_left fun e _ => by rw [Function.comp_apply, Port.read_rename]; rfl
  refine Prod.ext (congrArg₂ Prepared.mk (hvalues _) (hvalues _)) ?_
  simp only [prepare, rename, hread, Port.read_rename]

theorem clearInputs_rename : (n.rename f).clearInputs = n.clearInputs.rename f := by
  have hclear : mapValues Port.clear (mapValues (Port.rename f) n.inputs) =
      mapValues (Port.rename f) (mapValues Port.clear n.inputs) := by
    rw [mapValues, mapValues, mapValues, mapValues, List.map_map, List.map_map]
    exact List.map_congr_left fun e _ => by rw [Function.comp_apply, Port.clear_rename]; rfl
  simp only [clearInputs, rename, hclear, Port.clear_rename]

end Rename

/-! ### Looking up and exchanging -/

section Known

variable {s : Supply} {target : PortId} (h : s.Used target) (n : Node)

include h

theorem port?_view : (n.rename s.view).port? target = (n.port? target).map (Port.rename s.view) := by
  have hlist : ∀ ports : List Port, (ports.map (Port.rename s.view)).findSome? (Port.find? target) =
      (ports.findSome? (Port.find? target)).map (Port.rename s.view) := by
    intro ports
    induction ports with
    | nil => rfl
    | cons p rest ih =>
      rw [List.map_cons, List.findSome?_cons, List.findSome?_cons, Port.find?_view h, ih]
      cases p.find? target <;> rfl
  rw [port?, ports_rename, hlist, port?]

theorem locate?_view : (n.rename s.view).locate? target = n.locate? target := by
  rw [locate?, slots_rename, locate?]
  congr 1
  funext slot
  rw [portAt?_rename, Option.any_map]
  congr 1
  funext p
  exact Port.hasId_view h p

theorem replacePort?_view (p : Port) :
    (n.rename s.view).replacePort? target (p.rename s.view) = (n.replacePort? target p).map (rename s.view) := by
  unfold replacePort?
  rw [locate?_view h]
  cases n.locate? target with
  | none => rfl
  | some slot =>
    simp only [Option.bind_eq_bind, Option.bind_some, portAt?_rename]
    cases n.portAt? slot with
    | none => rfl
    | some top =>
      simp only [Option.map_some, Option.bind_some, Port.replace?_view h]
      cases Port.replace? target p top with
      | none => rfl
      | some top' => exact congrArg some (setPort_rename ..).symm

end Known

/-- What readiness sees of the ports that are connected. -/
theorem readiness_view {s : Supply} {connected : List PortId} (h : ∀ p ∈ connected, s.Used p) (n : Node) :
    (n.rename s.view).readiness connected = n.readiness connected := by
  have hseen : ∀ p, connected.contains (s.view p) = connected.contains p := by
    intro p
    rw [Bool.eq_iff_iff, List.contains_iff_mem, List.contains_iff_mem]
    constructor
    · intro hp
      rwa [← (Supply.view_eq_iff (h _ hp)).1 rfl] at hp
    · intro hp
      rwa [Supply.view_of_used (h p hp)]
  have hfed : (((n.rename s.view).triggers.flatMap Port.flatten).filter fun p => connected.contains p.id) =
      ((n.triggers.flatMap Port.flatten).filter fun p => connected.contains p.id).map (Port.rename s.view) := by
    have hflatten : (n.rename s.view).triggers.flatMap Port.flatten = (n.triggers.flatMap Port.flatten).map (Port.rename s.view) := by
      rw [triggers_rename, List.flatMap_map, List.map_flatMap]
      exact List.flatMap_congr fun p _ => p.flatten_rename _
    rw [hflatten, List.filter_map]
    congr 2
    funext p
    rw [Function.comp_apply, Port.rename_id, hseen]
  unfold readiness
  rw [hfed]
  simp only [List.isEmpty_map, List.all_map, List.any_map, Function.comp_def, Port.hasData_rename]
  rfl

/-! ### Writing -/

section View

variable {s t t' : Supply} {n m : Node}

theorem writeNamed_view (values : NamedValues) {group group' : Keyed Port} (ht : s.next ≤ t.next) (ht' : s.next ≤ t'.next)
    (h : mapValues (Port.rename s.view) group = mapValues (Port.rename s.view) group') :
    (writeNamed values group t).1 = (writeNamed values group' t').1 ∧
      mapValues (Port.rename s.view) (writeNamed values group t).2.1 =
        mapValues (Port.rename s.view) (writeNamed values group' t').2.1 ∧
      t.next ≤ (writeNamed values group t).2.2.next := by
  induction values generalizing group group' t t' with
  | nil => exact ⟨rfl, h, le_rfl⟩
  | cons entry rest ih =>
    obtain ⟨name, v⟩ := entry
    have hfind := congrArg (Keyed.find? name) h
    rw [find?_mapValues, find?_mapValues] at hfind
    unfold writeNamed
    cases hp : Keyed.find? name group with
    | none =>
      rw [hp, Option.map_none] at hfind
      rw [Option.map_eq_none_iff.1 hfind.symm]
      exact ⟨rfl, h, le_rfl⟩
    | some p =>
      rw [hp, Option.map_some] at hfind
      obtain ⟨q, hq, hpq⟩ := Option.map_eq_some_iff.1 hfind.symm
      have hwrite := Port.write_view v ht ht' hpq.symm
      rw [hq]
      cases hw : p.write v t with
      | error e =>
        rw [hw] at hwrite
        cases hw' : q.write v t' with
        | error e' =>
          rw [hw'] at hwrite
          cases hwrite
          simp only [hw, hw']
          exact ⟨trivial, h, le_rfl⟩
        | ok r' => rw [hw'] at hwrite; cases hwrite
      | ok r =>
        rw [hw] at hwrite
        cases hw' : q.write v t' with
        | error e' => rw [hw'] at hwrite; cases hwrite
        | ok r' =>
          obtain ⟨w, p', t₁⟩ := r
          obtain ⟨w', q', t₁'⟩ := r'
          rw [hw'] at hwrite
          obtain ⟨-, hpq'⟩ := Prod.mk.inj (Except.ok.inj hwrite)
          have hle := (Port.renews_write hw).le
          have hle' := (Port.renews_write hw').le
          have hinsert : mapValues (Port.rename s.view) (Keyed.insert name p' group) =
              mapValues (Port.rename s.view) (Keyed.insert name q' group') := by
            rw [mapValues_insert, mapValues_insert, h]
            exact congrArg (fun c => Keyed.insert name c _) hpq'
          obtain ⟨herror, hgroup, hlast⟩ := ih (ht.trans hle) (ht'.trans hle') hinsert
          simp only [hw, hw']
          exact ⟨herror, hgroup, hle.trans hlast⟩

/-- An output shows in the same way on nodes that look alike. -/
theorem writeOutput_view (o : Output) (ht : s.next ≤ t.next) (ht' : s.next ≤ t'.next) (h : n.rename s.view = m.rename s.view) :
    (n.writeOutput o t).1 = (m.writeOutput o t').1 ∧
      (n.writeOutput o t).2.1.rename s.view = (m.writeOutput o t').2.1.rename s.view := by
  obtain ⟨herror, hgroup, hle⟩ := writeNamed_view o.outputs ht ht' (congrArg Node.outputs h)
  have hle' := (writeNamed_view o.outputs ht' ht (congrArg Node.outputs h).symm).2.2
  unfold writeOutput
  rcases hw : writeNamed o.outputs n.outputs t with ⟨e, outputs, t₁⟩
  rcases hw' : writeNamed o.outputs m.outputs t' with ⟨e', outputs', t₁'⟩
  rw [hw, hw'] at herror hgroup
  rw [hw] at hle
  rw [hw'] at hle'
  obtain rfl : e = e' := herror
  have hfirst : ({ n with outputs } : Node).rename s.view = ({ m with outputs := outputs' } : Node).rename s.view :=
    congrArg₂ (fun (k : Node) es => { k with outputs := es }) h hgroup
  cases e with
  | some e => exact ⟨rfl, hfirst⟩
  | none =>
    obtain ⟨herror, hgroup, hle₁⟩ := writeNamed_view o.controls (ht.trans hle) (ht'.trans hle') (congrArg Node.controlOutputs h)
    have hle₁' := (writeNamed_view o.controls (ht'.trans hle') (ht.trans hle) (congrArg Node.controlOutputs h).symm).2.2
    dsimp only
    rcases hw₁ : writeNamed o.controls n.controlOutputs t₁ with ⟨e, controls, t₂⟩
    rcases hw₁' : writeNamed o.controls m.controlOutputs t₁' with ⟨e', controls', t₂'⟩
    rw [hw₁, hw₁'] at herror hgroup
    rw [hw₁] at hle₁
    rw [hw₁'] at hle₁'
    obtain rfl : e = e' := herror
    have hsecond : ({ n with outputs, controlOutputs := controls } : Node).rename s.view =
        ({ m with outputs := outputs', controlOutputs := controls' } : Node).rename s.view :=
      congrArg₂ (fun (k : Node) es => { k with controlOutputs := es }) hfirst hgroup
    cases e with
    | some e => exact ⟨rfl, hsecond⟩
    | none =>
      have hexec : n.execOut.rename s.view = m.execOut.rename s.view := congrArg Node.execOut h
      -- The trigger takes `null` in any case.
      obtain ⟨id, es, hm, hid, -⟩ := Port.rename_eq_rename.1 hexec
      refine ⟨rfl, congrArg₂ (fun (k : Node) p => { k with execOut := p }) hsecond ?_⟩
      rw [hm]
      exact Port.rename_eq_rename.2 ⟨id, [], rfl, hid, rfl⟩

/-- **The end of an activation shows in the same way on nodes that look alike.** -/
theorem complete_view (result : Except NodeError Output) (ht : s.next ≤ t.next) (ht' : s.next ≤ t'.next)
    (h : n.rename s.view = m.rename s.view) :
    (n.complete result t).1 = (m.complete result t').1 ∧
      (n.complete result t).2.1.rename s.view = (m.complete result t').2.1.rename s.view := by
  cases result with
  | error e => exact ⟨rfl, congrArg (fun k : Node => k.failWith e) h⟩
  | ok o =>
    obtain ⟨herror, hnode⟩ := writeOutput_view o ht ht' h
    unfold complete
    rcases hw : n.writeOutput o t with ⟨e, n', t₁⟩
    rcases hw' : m.writeOutput o t' with ⟨e', m', t₁'⟩
    rw [hw, hw'] at herror hnode
    obtain rfl : e = e' := herror
    dsimp only at hnode ⊢
    simp only [hw, hw']
    cases e with
    | some e => exact ⟨rfl, congrArg (fun k : Node => k.failWith e) hnode⟩
    | none => exact ⟨rfl, congrArg (fun k : Node => { k with status := .success }) hnode⟩

/-- A write to a port that is told from all others shows in the same way on nodes that look alike. -/
theorem write_view {target : PortId} (htarget : s.Used target) (v : Value) (ht : s.next ≤ t.next) (ht' : s.next ≤ t'.next)
    (h : n.rename s.view = m.rename s.view) :
    (n.write target v t).map (Except.map (Port.shown (rename s.view))) =
      (m.write target v t').map (Except.map (Port.shown (rename s.view))) := by
  have hlocate : n.locate? target = m.locate? target := by
    rw [← locate?_view htarget, h, locate?_view htarget]
  unfold write
  rw [hlocate]
  cases m.locate? target with
  | none => rfl
  | some slot =>
    have hslot : (n.portAt? slot).map (Port.rename s.view) = (m.portAt? slot).map (Port.rename s.view) := by
      rw [← portAt?_rename, h, portAt?_rename]
    simp only [Option.bind_eq_bind, Option.bind_some]
    cases hp : n.portAt? slot with
    | none =>
      rw [hp, Option.map_none] at hslot
      rw [Option.map_eq_none_iff.1 hslot.symm]
      rfl
    | some p =>
      rw [hp, Option.map_some] at hslot
      obtain ⟨q, hq, hpq⟩ := Option.map_eq_some_iff.1 hslot.symm
      rw [hq]
      have hset : ∀ a b : Port, a.rename s.view = b.rename s.view →
          (n.setPort slot a).rename s.view = (m.setPort slot b).rename s.view := fun a b hab => by
        rw [setPort_rename, setPort_rename, h, hab]
      have hwrite := Port.shown?_congr (Port.writeAt_view htarget v ht ht' hpq.symm) (n.setPort slot) (m.setPort slot) hset
      have hpure : ∀ (x : Option (Except ConversionError (Value × Port × Supply))) (up : Port → Node),
          (x.bind fun r => some (r.map fun r => (r.1, up r.2.1, r.2.2))) = x.map (Except.map fun r => (r.1, up r.2.1, r.2.2)) :=
        fun x up => by cases x <;> rfl
      simp only [Option.bind_some, Option.pure_def]
      rw [hpure, hpure]
      exact hwrite

end View

/-! ### From what shows to the identifiers -/

/-- Of two nodes that look alike, the second is the first under other identifiers. -/
theorem eq_rename_of_view {f σ : PortId → PortId} {n m : Node} (h : n.rename f = m.rename f) (hids : n.portIds.map σ = m.portIds) :
    m = n.rename σ := by
  have hports : ∀ k : Node, k.portIds = ((((k.execIn.ids ++ k.inputs.flatMap fun e => e.2.ids) ++
      k.controlInputs.flatMap fun e => e.2.ids) ++ k.execOut.ids) ++ k.outputs.flatMap fun e => e.2.ids) ++
        k.controlOutputs.flatMap fun e => e.2.ids := by
    intro k
    simp [portIds, ports, values, List.flatMap_map]
  have hexecIn : n.execIn.rename f = m.execIn.rename f := congrArg Node.execIn h
  have hinputs : mapValues (Port.rename f) n.inputs = mapValues (Port.rename f) m.inputs := congrArg Node.inputs h
  have hcontrolInputs : mapValues (Port.rename f) n.controlInputs = mapValues (Port.rename f) m.controlInputs :=
    congrArg Node.controlInputs h
  have hexecOut : n.execOut.rename f = m.execOut.rename f := congrArg Node.execOut h
  have houtputs : mapValues (Port.rename f) n.outputs = mapValues (Port.rename f) m.outputs := congrArg Node.outputs h
  have hcontrolOutputs : mapValues (Port.rename f) n.controlOutputs = mapValues (Port.rename f) m.controlOutputs :=
    congrArg Node.controlOutputs h
  rw [hports, hports] at hids
  simp only [List.map_append] at hids
  obtain ⟨hids, h₆⟩ := List.append_inj' hids (Port.length_idsAll hcontrolOutputs)
  obtain ⟨hids, h₅⟩ := List.append_inj' hids (Port.length_idsAll houtputs)
  obtain ⟨hids, h₄⟩ := List.append_inj' hids (Port.length_ids hexecOut)
  obtain ⟨hids, h₃⟩ := List.append_inj' hids (Port.length_idsAll hcontrolInputs)
  obtain ⟨h₁, h₂⟩ := List.append_inj' hids (Port.length_idsAll hinputs)
  have hgroup : ∀ {group group' : Keyed Port}, mapValues (Port.rename f) group = mapValues (Port.rename f) group' →
      (group.flatMap fun e => e.2.ids).map σ = group'.flatMap (fun e => e.2.ids) → group' = mapValues (Port.rename σ) group :=
    fun hsame hids => Port.eq_renameAll_of_view (fun _ _ _ => Port.eq_rename_of_view) hsame hids
  rw [rename, ← Port.eq_rename_of_view hexecIn h₁, ← Port.eq_rename_of_view hexecOut h₄, ← hgroup hinputs h₂,
    ← hgroup houtputs h₅, ← hgroup hcontrolInputs h₃, ← hgroup hcontrolOutputs h₆]
  -- All else is the same already.
  exact (congrArg (fun k : Node => { k with
    execIn := m.execIn
    execOut := m.execOut
    inputs := m.inputs
    outputs := m.outputs
    controlInputs := m.controlInputs
    controlOutputs := m.controlOutputs }) h).symm

end Node

namespace Graph

/-- The same unread outputs are taken from nodes that look alike. -/
theorem takeUnread_view {s : Supply} {ports : List PortId} (h : ∀ p ∈ ports, s.Used p) (n : Node) :
    takeUnread ports (n.rename s.view) = ((takeUnread ports n).1, (takeUnread ports n).2.rename s.view) := by
  induction ports generalizing n with
  | nil => rfl
  | cons port rest ih =>
    obtain ⟨hport, hrest⟩ := List.forall_mem_cons.1 h
    rw [takeUnread, takeUnread, Node.port?_view hport]
    cases n.port? port with
    | none => exact ih hrest n
    | some p =>
      simp only [Option.map_some, Port.hasNewData_rename, Port.read_rename]
      split_ifs
      · have hreplace : ((n.rename s.view).replacePort? port (p.read.2.rename s.view)).getD (n.rename s.view) =
            ((n.replacePort? port p.read.2).getD n).rename s.view := by
          rw [Node.replacePort?_view hport]
          cases n.replacePort? port p.read.2 <;> rfl
        rw [hreplace, ih hrest]
      · exact ih hrest n

end Graph

end Dataflow
