import Dataflow.Proofs.Node.Renaming

/-!
# Ports in their places

A node is what it is apart from its ports, and the ports in its places. What is done to the port in one place does not matter
to the others.

* `Node.shell` is a node without its ports, and `Node.ext_places`: nodes are equal that are equal without them and have the same
  ports in all places;
* `Node.locate?_eq` and `Node.port?_eq`: an identifier is looked up in the only place that has it;
* `Node.write_top`: a write to a top-level port stays in its place;
* `Graph.takeUnread_congr`: outputs are taken in the same way from nodes that have the same output side.
-/

namespace Dataflow

open Keyed

namespace Node

variable {n n' : Node} {slot : Slot} {id : PortId} {top : Port}

/-! ### A node and its ports -/

/-- A node without its ports. -/
def shell (n : Node) : Node :=
  { n with
    execIn := default, execOut := default, inputs := [], outputs := [], controlInputs := [], controlOutputs := [] }

theorem shell_setPort (n : Node) (slot : Slot) (p : Port) : (n.setPort slot p).shell = n.shell := by
  cases slot <;> rfl

theorem Ordered.rename (hn : n.Ordered) (f : PortId → PortId) : (n.rename f).Ordered where
  inputs := ascending_mapValues.2 hn.inputs
  controlInputs := ascending_mapValues.2 hn.controlInputs
  outputs := ascending_mapValues.2 hn.outputs
  controlOutputs := ascending_mapValues.2 hn.controlOutputs

/-- Nodes are equal that are equal without their ports and have the same ports in all places. -/
theorem ext_places (hn : n.Ordered) (hn' : n'.Ordered) (hshell : n'.shell = n.shell)
    (hports : ∀ slot, n'.portAt? slot = n.portAt? slot) : n' = n := by
  have hexecIn : n'.execIn = n.execIn := Option.some.inj (hports .execIn)
  have hexecOut : n'.execOut = n.execOut := Option.some.inj (hports .execOut)
  have hinputs : n'.inputs = n.inputs := hn'.inputs.ext hn.inputs fun name => hports (.input name)
  have houtputs : n'.outputs = n.outputs := hn'.outputs.ext hn.outputs fun name => hports (.output name)
  have hcontrolInputs : n'.controlInputs = n.controlInputs :=
    hn'.controlInputs.ext hn.controlInputs fun name => hports (.controlInput name)
  have hcontrolOutputs : n'.controlOutputs = n.controlOutputs :=
    hn'.controlOutputs.ext hn.controlOutputs fun name => hports (.controlOutput name)
  cases n
  cases n'
  simp only [shell, mk.injEq] at hshell
  simp_all

/-! ### Looking up an identifier -/

theorem slots_eq (n : Node) : n.slots = n.entries.map Prod.fst := by
  simp [slots, entries, placed, keys, Function.comp_def]

section LookUp

variable (hn : n.Ordered) (hd : n.portIds.Nodup) (htop : n.portAt? slot = some top) (hid : id ∈ top.ids)

include hn hd htop hid

/-- The place of an identifier is the one that has it. -/
theorem locate?_eq : n.locate? id = some slot := by
  have hhas : (n.portAt? slot).any (Port.hasId id) = true := by
    rw [htop, Option.any_some, Port.hasId, List.contains_iff_mem]
    exact hid
  have hslot : slot ∈ n.slots := by
    rw [slots_eq]
    exact List.mem_map_of_mem (f := Prod.fst) ((mem_entries hn).2 htop)
  have hsome : (n.slots.find? fun slot' => (n.portAt? slot').any (Port.hasId id)).isSome :=
    List.find?_isSome.2 ⟨slot, hslot, hhas⟩
  obtain ⟨slot', hslot'⟩ := Option.isSome_iff_exists.1 hsome
  have hat : (n.portAt? slot').any (Port.hasId id) = true :=
    List.find?_some (p := fun slot' => (n.portAt? slot').any (Port.hasId id)) hslot'
  obtain ⟨top', htop', hid'⟩ := (Option.any_eq_true ..).1 hat
  rw [Port.hasId, List.contains_iff_mem] at hid'
  rw [locate?, hslot', slot_unique hn hd htop' htop hid' hid]

/-- The port with an identifier is below the place that has it. -/
theorem port?_eq : n.port? id = Port.find? id top := by
  obtain ⟨c, hc⟩ := Option.isSome_iff_exists.1 (port?_isSome.2 ((mem_portIds hn).2 ⟨slot, top, htop, hid⟩))
  obtain ⟨slot', top', htop', hfind⟩ := port?_eq_some hn hc
  obtain ⟨hmem, hcid⟩ := Port.find?_some_mem hfind
  have hid' : id ∈ top'.ids := Port.mem_ids_iff.2 ⟨c, hmem, hcid⟩
  obtain rfl := slot_unique hn hd htop' htop hid' hid
  obtain rfl : top' = top := Option.some.inj (htop'.symm.trans htop)
  rw [hc, hfind]

theorem replacePort?_eq (new : Port) : n.replacePort? id new = (Port.replace? id new top).map (n.setPort slot) := by
  rw [replacePort?, locate?_eq hn hd htop hid]
  simp only [Option.bind_eq_bind, Option.bind_some, htop]
  cases Port.replace? id new top <;> rfl

end LookUp

/-- A write to a top-level port stays in its place. -/
theorem write_top (hn : n.Ordered) (hd : n.portIds.Nodup) (htop : n.portAt? slot = some top) (v : Value) (s : Supply) :
    n.write top.id v s = some ((top.write v s).map fun r => (r.1, n.setPort slot r.2.1, r.2.2)) := by
  have hself : top.writeAt top.id v s = some (top.write v s) := by rw [Port.writeAt_eq, if_pos rfl]
  rw [write, locate?_eq hn hd htop (Port.id_mem_ids top)]
  simp only [Option.bind_eq_bind, Option.bind_some, htop, hself, Option.pure_def]

/-! ### The output side -/

/-- Nodes that have the same ports on the output side. -/
def SameOutputs (n n' : Node) : Prop :=
  ∀ slot, slot.isOutput = true → n'.portAt? slot = n.portAt? slot

theorem SameOutputs.outputIds (h : n.SameOutputs n') (hn : n.Ordered) (hn' : n'.Ordered) : n'.outputIds = n.outputIds := by
  have hexecOut : n'.execOut = n.execOut := Option.some.inj (h .execOut rfl)
  have houtputs : n'.outputs = n.outputs := hn'.outputs.ext hn.outputs fun name => h (.output name) rfl
  have hcontrols : n'.controlOutputs = n.controlOutputs :=
    hn'.controlOutputs.ext hn.controlOutputs fun name => h (.controlOutput name) rfl
  rw [Node.outputIds, outputSide, hexecOut, houtputs, hcontrols, Node.outputIds, outputSide]

/-- Look-ups on the same output side find the same ports. -/
theorem SameOutputs.port?_eq (h : n.SameOutputs n') (hn : n.Ordered) (hn' : n'.Ordered) (hd : n.portIds.Nodup)
    (hd' : n'.portIds.Nodup) (hid : id ∈ n.outputIds) : n'.port? id = n.port? id := by
  obtain ⟨slot, top, hs, htop, hin⟩ := (mem_outputIds hn).1 hid
  rw [Node.port?_eq hn hd htop hin, Node.port?_eq hn' hd' ((h slot hs).trans htop) hin]

theorem SameOutputs.setPort (h : n.SameOutputs n') (slot : Slot) (p : Port) :
    (n.setPort slot p).SameOutputs (n'.setPort slot p) := by
  intro slot' hs
  rw [portAt?_setPort, portAt?_setPort, h slot' hs]

end Node

namespace Graph

theorem shell_takeUnread (ports : List PortId) (n : Node) : (takeUnread ports n).2.shell = n.shell := by
  induction ports generalizing n with
  | nil => rfl
  | cons p rest ih =>
    unfold takeUnread
    split
    · exact ih n
    · rename_i port _
      split_ifs
      · refine (ih _).trans ?_
        cases hr : n.replacePort? p port.read.2 with
        | none => rfl
        | some n' =>
          obtain ⟨slot, -, top, -, -, rfl⟩ := Node.replacePort?_eq_some hr
          exact n.shell_setPort slot top
      · exact ih n

/-- Outputs are taken in the same way from nodes that have the same output side. -/
theorem takeUnread_congr {ports : List PortId} {n n' : Node} (h : n.SameOutputs n') (hn : n.Ordered) (hn' : n'.Ordered)
    (hd : n.portIds.Nodup) (hd' : n'.portIds.Nodup) (hout : ∀ p ∈ ports, p ∈ n.outputIds) :
    (takeUnread ports n').1 = (takeUnread ports n).1 ∧ (takeUnread ports n).2.SameOutputs (takeUnread ports n').2 := by
  induction ports generalizing n n' with
  | nil => exact ⟨rfl, h⟩
  | cons port rest ih =>
    obtain ⟨hport, hrest⟩ := List.forall_mem_cons.1 hout
    obtain ⟨place, top, hplace, htop, hin⟩ := (Node.mem_outputIds hn).1 hport
    have htop' : n'.portAt? place = some top := (h place hplace).trans htop
    have hfind := Node.port?_eq hn hd htop hin
    have hfind' := Node.port?_eq hn' hd' htop' hin
    rw [takeUnread, takeUnread, hfind, hfind']
    cases hc : Port.find? port top with
    | none => exact ih h hn hn' hd hd' hrest
    | some c =>
      dsimp only
      split_ifs with hnew
      · -- The port is exchanged in the same place.
        have hmarked := (Node.marked_read hn hd hport (hfind.trans hc)).1
        have hmarked' := (Node.marked_read hn' hd' (h.outputIds hn hn' ▸ hport) (hfind'.trans hc)).1
        have hsame : ((n.replacePort? port c.read.2).getD n).SameOutputs ((n'.replacePort? port c.read.2).getD n') := by
          rw [Node.replacePort?_eq hn hd htop hin, Node.replacePort?_eq hn' hd' htop' hin]
          cases Port.replace? port c.read.2 top with
          | none => exact h
          | some new => exact h.setPort place new
        obtain ⟨hvalues, hlater⟩ := ih hsame ((hmarked.evolves ⟨0⟩).ordered hn) ((hmarked'.evolves ⟨0⟩).ordered hn')
          (hmarked.portIds ▸ hd) (hmarked'.portIds ▸ hd') fun p hp => hmarked.outputIds p (hrest p hp)
        exact ⟨congrArg ((port, c.read.1) :: ·) hvalues, hlater⟩
      · exact ih h hn hn' hd hd' hrest

end Graph

end Dataflow
