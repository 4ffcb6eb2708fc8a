import Dataflow.Proofs.Run.Turns

/-!
# An output is written up to the first value that is refused

The values of an output are written one after the other, each to the port of its name. A value may be refused, because there is
no such port or because it cannot be converted. Then those before it stay written, and those behind it are not looked at.

* `Port.Overwritten` says what a write makes of a port, and `Port.refusal?` why a value is refused under a name;
* `Overwrites` says that just the ports under some keys were written; `WrittenUpTo` says moreover where the writing stopped;
* `Node.writtenUpTo_writeNamed` and `Node.writeOutput_writtenUpTo`: the loop over one group of ports, and over a whole output;
* `Node.Completion` says what is left of a node when an activation has ended, and `Node.completes` that it is so.
-/

namespace Dataflow

open Keyed

/-- The name that the port in a place goes by. -/
def Slot.portName : Slot → String
  | execIn | execOut => Node.triggerName
  | input name | output name | controlInput name | controlOutput name => name

/-- An output has each name once on either side, in ascending order. -/
structure Output.Ordered (o : Output) : Prop where
  outputs : Ascending o.outputs
  controls : Ascending o.controls

namespace Port

variable {p p' : Port} {v w : Value} {s s' : Supply}

/-- What a write makes of a port: it holds the value as converted and counts one write more, and the element ports of a
container hold the elements of that value. -/
structure Overwritten (v : Value) (p p' : Port) : Prop where
  stores : ∃ w, v.convert p.dataType = .ok w ∧ p.Stores w p'
  mirrors : p'.isContainer = true → ∀ key, (Keyed.find? key p'.elements).map data = Keyed.find? key p'.data.elements

theorem overwritten_write (h : p.write v s = .ok (w, p', s')) : p.Overwritten v p' := by
  rcases write_eq_ok h with ⟨rfl, rfl, rfl, -⟩ | ⟨-, hw, rfl, -⟩
  · exact ⟨⟨.null, rfl, rfl, rfl, rfl, rfl⟩, fun _ _ => rfl⟩
  · refine ⟨⟨w, hw, ?_, place_data .., ?_, ?_⟩, fun hc key => ?_⟩
    · simp [bump, face]
    · simp [bump]
    · simp [bump]
    · have hbump : p.bump.isContainer = true := by rwa [isContainer, place_dataType] at hc
      rw [place_container hbump]
      exact find?_placeFields p.bump w.elements s key

/-- Why a value is refused under a name, given the port that is there. -/
def refusal? (name : String) (port? : Option Port) (v : Value) : Option NodeError :=
  match port? with
  | none => some (.unknownPort name)
  | some p =>
    match v.convert p.dataType with
    | .ok _ => none
    | .error e => some (.conversion name e)

theorem refusal?_eq_none {name : String} {port? : Option Port} :
    refusal? name port? v = none ↔ ∃ p w, port? = some p ∧ v.convert p.dataType = .ok w := by
  cases port? with
  | none => simp [refusal?]
  | some p => cases hv : v.convert p.dataType <;> simp [refusal?, hv]

end Port

/-! ### Writing under several keys -/

section Keys

variable {κ : Type} {name : κ → String} {values values' : List (κ × Value)} {look look' look'' : κ → Option Port}
  {refused : Option NodeError}

/-- Under each of the given keys a port was written with the value there; the ports under other keys are the same. -/
structure Overwrites (values : List (κ × Value)) (look look' : κ → Option Port) : Prop where
  written : ∀ e ∈ values, ∃ p p', look e.1 = some p ∧ look' e.1 = some p' ∧ p.Overwritten e.2 p'
  beside : ∀ key, key ∉ values.map Prod.fst → look' key = look key

/-- The values were written one after the other: all of them, or those before the first that is refused. -/
inductive WrittenUpTo (name : κ → String) (look look' : κ → Option Port) :
    List (κ × Value) → Option NodeError → Prop
  | all {values : List (κ × Value)} (h : Overwrites values look look')
      (hnone : ∀ e ∈ values, Port.refusal? (name e.1) (look e.1) e.2 = none) : WrittenUpTo name look look' values none
  | stopped {done rest : List (κ × Value)} {entry : κ × Value} {error : NodeError} (h : Overwrites done look look')
      (hnone : ∀ e ∈ done, Port.refusal? (name e.1) (look e.1) e.2 = none)
      (herror : Port.refusal? (name entry.1) (look entry.1) entry.2 = some error) :
      WrittenUpTo name look look' (done ++ entry :: rest) (some error)

theorem Overwrites.refl (look : κ → Option Port) : Overwrites [] look look :=
  ⟨fun _ he => absurd he List.not_mem_nil, fun _ _ => rfl⟩

theorem WrittenUpTo.overwrites (h : WrittenUpTo name look look' values none) : Overwrites values look look' := by
  cases h with
  | all h _ => exact h

theorem WrittenUpTo.none_refused (h : WrittenUpTo name look look' values none) :
    ∀ e ∈ values, Port.refusal? (name e.1) (look e.1) e.2 = none := by
  cases h with
  | all _ hnone => exact hnone

/-- What comes after a value that is refused is not looked at. -/
theorem WrittenUpTo.extend {error : NodeError} (h : WrittenUpTo name look look' values (some error))
    (values' : List (κ × Value)) : WrittenUpTo name look look' (values ++ values') (some error) := by
  cases h with
  | stopped h hnone herror =>
    rw [List.append_assoc]
    exact .stopped h hnone herror

theorem WrittenUpTo.halted {entry : κ × Value} {rest : List (κ × Value)} {error : NodeError}
    (h : Port.refusal? (name entry.1) (look entry.1) entry.2 = some error) :
    WrittenUpTo name look look (entry :: rest) (some error) := by
  have hstopped : WrittenUpTo name look look ([] ++ entry :: rest) (some error) :=
    .stopped (.refl look) (fun _ he => absurd he List.not_mem_nil) h
  exact hstopped

/-- One value is written. -/
theorem WrittenUpTo.write {key : κ} {v w : Value} {p p' : Port} {s s' : Supply} (h : look key = some p)
    (h' : look' key = some p') (hw : p.write v s = .ok (w, p', s'))
    (hother : ∀ other, key ≠ other → look' other = look other) : WrittenUpTo name look look' [(key, v)] none := by
  have hover := Port.overwritten_write hw
  obtain ⟨w', hconvert, -⟩ := hover.stores
  refine .all ⟨List.forall_mem_singleton.2 ⟨p, p', h, h', hover⟩, fun other hkey => ?_⟩ ?_
  · exact hother other fun heq => hkey (List.mem_singleton.2 heq.symm)
  · exact List.forall_mem_singleton.2 (Port.refusal?_eq_none.2 ⟨p, w', h, hconvert⟩)

/-- First some keys, then others. -/
theorem Overwrites.append (h : Overwrites values look look') (h' : Overwrites values' look' look'')
    (hapart : (values.map Prod.fst).Disjoint (values'.map Prod.fst)) : Overwrites (values ++ values') look look'' where
  written := List.forall_mem_append.2 ⟨fun e he => by
      rw [h'.beside e.1 (hapart (List.mem_map_of_mem he))]
      exact h.written e he, fun e he => by
      rw [← h.beside e.1 fun hin => hapart hin (List.mem_map_of_mem he)]
      exact h'.written e he⟩
  beside key hkey := by
    rw [List.map_append, List.mem_append, not_or] at hkey
    rw [h'.beside key hkey.2, h.beside key hkey.1]

/-- What was written first does not matter to what comes after it under other keys. -/
theorem WrittenUpTo.append (h : WrittenUpTo name look look' values none) (h' : WrittenUpTo name look' look'' values' refused)
    (hapart : (values.map Prod.fst).Disjoint (values'.map Prod.fst)) :
    WrittenUpTo name look look'' (values ++ values') refused := by
  have hsame : ∀ e ∈ values', look e.1 = look' e.1 := fun e he =>
    (h.overwrites.beside e.1 fun hin => hapart hin (List.mem_map_of_mem he)).symm
  cases h' with
  | all hall hnone =>
    refine .all (h.overwrites.append hall hapart) (List.forall_mem_append.2 ⟨h.none_refused, fun e he => ?_⟩)
    rw [hsame e he]
    exact hnone e he
  | @stopped done rest entry error hdone hnone herror =>
    have hsub : done ⊆ done ++ entry :: rest := List.subset_append_left ..
    rw [← List.append_assoc]
    refine .stopped (h.overwrites.append hdone fun key hkey hin => hapart hkey (List.map_subset _ hsub hin))
      (List.forall_mem_append.2 ⟨h.none_refused, fun e he => ?_⟩) ?_
    · rw [hsame e (hsub he)]
      exact hnone e he
    · rw [hsame entry (List.mem_append_right _ List.mem_cons_self)]
      exact herror

end Keys

/-- What is written in one group is written in its places of the node. -/
theorem WrittenUpTo.places {values : NamedValues} {group group' : Keyed Port} {refused : Option NodeError}
    (h : WrittenUpTo (fun name => name) (Keyed.find? · group) (Keyed.find? · group') values refused)
    (n n' : Node) (place : String → Slot) (hname : ∀ name, (place name).portName = name)
    (hat : ∀ name, n.portAt? (place name) = Keyed.find? name group)
    (hat' : ∀ name, n'.portAt? (place name) = Keyed.find? name group')
    (hother : ∀ slot, (∀ name, slot ≠ place name) → n'.portAt? slot = n.portAt? slot) :
    WrittenUpTo Slot.portName n.portAt? n'.portAt? (values.map fun e => (place e.1, e.2)) refused := by
  have hplaces : ∀ {values : NamedValues}, Overwrites values (Keyed.find? · group) (Keyed.find? · group') →
      Overwrites (values.map fun e => (place e.1, e.2)) n.portAt? n'.portAt? := fun {values} h => by
    refine ⟨List.forall_mem_map.2 fun e he => ?_, fun slot hslot => ?_⟩
    · rw [hat, hat']
      exact h.written e he
    · by_cases hplace : ∃ name, slot = place name
      · obtain ⟨name, rfl⟩ := hplace
        rw [hat, hat']
        refine h.beside name fun hin => hslot ?_
        rw [List.map_map]
        obtain ⟨e, he, rfl⟩ := List.mem_map.1 hin
        exact List.mem_map_of_mem he
      · exact hother slot (not_exists.1 hplace)
  cases h with
  | all h hnone =>
    refine .all (hplaces h) (List.forall_mem_map.2 fun e he => ?_)
    rw [hname, hat]
    exact hnone e he
  | stopped h hnone herror =>
    rw [List.map_append, List.map_cons]
    refine .stopped (hplaces h) (List.forall_mem_map.2 fun e he => ?_) ?_
    · rw [hname, hat]
      exact hnone e he
    · rw [hname, hat]
      exact herror

namespace Node

variable {n m : Node} {o : Output} {s : Supply}

/-- The loop over the values for one group of ports. -/
theorem writtenUpTo_writeNamed {values : NamedValues} (hn : (keys values).Nodup) (group : Keyed Port) (s : Supply) :
    WrittenUpTo (fun name => name) (Keyed.find? · group) (Keyed.find? · (writeNamed values group s).2.1) values
      (writeNamed values group s).1 := by
  induction values generalizing group s with
  | nil => exact .all (.refl _) fun _ he => absurd he List.not_mem_nil
  | cons entry rest ih =>
    obtain ⟨name, v⟩ := entry
    obtain ⟨hnew, hrest⟩ := List.nodup_cons.1 hn
    cases hp : Keyed.find? name group with
    | none =>
      simp only [writeNamed, hp]
      exact .halted (by simp only [hp, Port.refusal?])
    | some p =>
      cases hw : p.write v s with
      | error e =>
        simp only [writeNamed, hp, hw]
        exact .halted (by simp only [hp, Port.refusal?, (Port.write_eq_error.1 hw).2])
      | ok written =>
        obtain ⟨w, p', s'⟩ := written
        have hfirst : WrittenUpTo (fun name => name) (Keyed.find? · group) (Keyed.find? · (Keyed.insert name p' group))
            [(name, v)] none :=
          .write hp (find?_insert_self name p' group) hw fun other hne => find?_insert_of_ne hne p' group
        simp only [writeNamed, hp, hw]
        exact hfirst.append (ih hrest (Keyed.insert name p' group) s') (List.singleton_disjoint.2 hnew)

/-! ### A whole output -/

theorem execOut_notMem_values (o : Output) : Slot.execOut ∉ o.values.map Prod.fst := by
  simp [Output.values]

/-- An output is written up to the first value that is refused; if none is, the trigger is signalled at last. Nothing but ports
of the output side is touched. -/
theorem writeOutput_writtenUpTo (ho : o.Ordered) (n : Node) (s : Supply) :
    (∃ execOut outputs controlOutputs, (n.writeOutput o s).2.1 = { n with execOut, outputs, controlOutputs }) ∧
      ((n.writeOutput o s).1 = none →
        WrittenUpTo Slot.portName n.portAt? (n.writeOutput o s).2.1.portAt? (o.values ++ [(.execOut, .null)]) none) ∧
      ∀ e, (n.writeOutput o s).1 = some e →
        WrittenUpTo Slot.portName n.portAt? (n.writeOutput o s).2.1.portAt? o.values (some e) := by
  have hapart : ((o.outputs.map fun e => (Slot.output e.1, e.2)).map Prod.fst).Disjoint
      ((o.controls.map fun e => (Slot.controlOutput e.1, e.2)).map Prod.fst) := fun slot hslot hslot' => by
    simp only [List.map_map, List.mem_map, Function.comp_apply] at hslot hslot'
    obtain ⟨e, -, rfl⟩ := hslot
    obtain ⟨e', -, heq⟩ := hslot'
    cases heq
  have hlast : (o.values.map Prod.fst).Disjoint [Slot.execOut] := List.disjoint_singleton.2 (execOut_notMem_values o)
  have houtputs := writtenUpTo_writeNamed ho.outputs.nodup n.outputs s
  rcases hr : writeNamed o.outputs n.outputs s with ⟨refused, outputs, s₁⟩
  rw [hr] at houtputs
  replace houtputs := houtputs.places n { n with outputs } Slot.output (fun _ => rfl) (fun _ => rfl)
    (fun _ => rfl) fun slot hslot => by cases slot <;> first | rfl | exact absurd rfl (hslot _)
  cases refused with
  | some e =>
    simp only [writeOutput, hr]
    exact ⟨⟨n.execOut, outputs, n.controlOutputs, rfl⟩, fun h => (by cases h), fun _ h => h ▸ houtputs.extend _⟩
  | none =>
    have hcontrols := writtenUpTo_writeNamed ho.controls.nodup n.controlOutputs s₁
    rcases hr' : writeNamed o.controls n.controlOutputs s₁ with ⟨refused', controlOutputs, s₂⟩
    rw [hr'] at hcontrols
    replace hcontrols := hcontrols.places { n with outputs } { n with outputs, controlOutputs } Slot.controlOutput
      (fun _ => rfl) (fun _ => rfl) (fun _ => rfl) fun slot hslot => by
        cases slot <;> first | rfl | exact absurd rfl (hslot _)
    have hvalues := houtputs.append hcontrols hapart
    cases refused' with
    | some e =>
      simp only [writeOutput, hr, hr']
      exact ⟨⟨n.execOut, outputs, controlOutputs, rfl⟩, fun h => (by cases h), fun _ h => h ▸ hvalues⟩
    | none =>
      have hexec : n.execOut.write .null s₂ =
          .ok (.null, { n.execOut with data := .null, version := n.execOut.version + 1, elements := [] }, s₂) := rfl
      simp only [writeOutput, hr, hr', hexec]
      refine ⟨⟨_, outputs, controlOutputs, rfl⟩, fun _ => hvalues.append (.write rfl rfl hexec fun slot hslot => ?_) hlast,
        fun _ h => (by cases h)⟩
      cases slot <;> first | rfl | exact absurd rfl hslot

/-! ### Whole activations -/

/-- What is left of a node when its activation has ended with a result, and what is answered then. -/
structure Completion (n : Node) (result : Except NodeError Output) (answer : Except NodeError Unit) (n' : Node) : Prop where
  /-- It succeeds if the result is an output, and each value has a port of its name and can be converted to its type. -/
  answers : answer = .ok () ↔ ∃ o, result = .ok o ∧
    ∀ e ∈ o.values, ∃ p w, n.portAt? e.1 = some p ∧ e.2.convert p.dataType = .ok w
  /-- Then the values were written to just these ports, and the trigger was signalled. -/
  succeeded : ∀ o, result = .ok o → answer = .ok () →
    Overwrites (o.values ++ [(.execOut, .null)]) n.portAt? n'.portAt? ∧ n'.status = .success
  /-- Else just the values before the first that is refused were written, and the trigger was not signalled. -/
  failed : ∀ error, answer = .error error → n'.status = .failed ∧ n'.lastError = some error.message ∧ n'.execOut = n.execOut ∧
    (result = .error error ∧ Overwrites [] n.portAt? n'.portAt? ∨
      ∃ o done entry rest, result = .ok o ∧ o.values = done ++ entry :: rest ∧
        (∀ e ∈ done, Port.refusal? e.1.portName (n.portAt? e.1) e.2 = none) ∧
        Port.refusal? entry.1.portName (n.portAt? entry.1) entry.2 = some error ∧ Overwrites done n.portAt? n'.portAt?)
  /-- Nothing else of the node changes. -/
  kept : ∃ status lastError execOut outputs controlOutputs,
    n' = { n with status, lastError, execOut, outputs, controlOutputs }

/-- An activation that failed by itself writes nothing. -/
theorem completion_failed (n : Node) (error : NodeError) : n.Completion (.error error) (.error error) (n.failWith error) where
  answers := ⟨fun h => (by cases h), fun ⟨_, h, _⟩ => (by cases h)⟩
  succeeded _ h := (by cases h)
  failed error' h := by
    cases h
    exact ⟨rfl, rfl, rfl, Or.inl ⟨rfl, .refl _⟩⟩
  kept := ⟨.failed, some error.message, n.execOut, n.outputs, n.controlOutputs, rfl⟩

section Written

variable (hkept : ∃ execOut outputs controlOutputs, m = { n with execOut, outputs, controlOutputs })
include hkept

/-- All of the output was written. -/
theorem completion_written
    (h : WrittenUpTo Slot.portName n.portAt? m.portAt? (o.values ++ [(.execOut, .null)]) none) :
    n.Completion (.ok o) (.ok ()) { m with status := .success } where
  answers := ⟨fun _ => ⟨o, rfl, fun e he =>
    Port.refusal?_eq_none.1 (h.none_refused e (List.mem_append_left _ he))⟩, fun _ => rfl⟩
  succeeded o' ho' _ := by
    cases ho'
    exact ⟨h.overwrites, rfl⟩
  failed _ h := (by cases h)
  kept := by
    obtain ⟨execOut, outputs, controlOutputs, rfl⟩ := hkept
    exact ⟨.success, n.lastError, execOut, outputs, controlOutputs, rfl⟩

/-- A value of the output was refused. -/
theorem completion_refused {error : NodeError}
    (h : WrittenUpTo Slot.portName n.portAt? m.portAt? o.values (some error)) :
    n.Completion (.ok o) (.error error) (m.failWith error) := by
  generalize hvalues : o.values = values at h
  cases h with
  | @stopped done rest entry _ hdone hnone herror =>
    refine ⟨⟨fun h => (by cases h), fun ⟨o', ho', htakes⟩ => ?_⟩, fun _ _ h => (by cases h), fun error' h => ?_, ?_⟩
    · cases ho'
      have hentry := htakes entry (hvalues ▸ List.mem_append_right _ List.mem_cons_self)
      rw [Port.refusal?_eq_none.2 hentry] at herror
      cases herror
    · cases h
      have hexec : Slot.execOut ∉ done.map Prod.fst := fun hin =>
        execOut_notMem_values o (hvalues ▸ List.map_subset _ (List.subset_append_left ..) hin)
      refine ⟨rfl, rfl, Option.some.inj (hdone.beside .execOut hexec), Or.inr ?_⟩
      exact ⟨o, done, entry, rest, rfl, hvalues, hnone, herror, hdone⟩
    · obtain ⟨execOut, outputs, controlOutputs, rfl⟩ := hkept
      exact ⟨.failed, some error.message, execOut, outputs, controlOutputs, rfl⟩

end Written

/-- **To complete an activation is to write all of its output, or a part up to the first value that is refused.** -/
theorem completes (n : Node) (result : Except NodeError Output) (s : Supply) (hordered : ∀ o, result = .ok o → o.Ordered) :
    n.Completion result (n.complete result s).1 (n.complete result s).2.1 := by
  cases result with
  | error e => exact n.completion_failed e
  | ok o =>
    obtain ⟨hkept, hall, hstopped⟩ := writeOutput_writtenUpTo (hordered o rfl) n s
    rcases hr : n.writeOutput o s with ⟨refused, m, s'⟩
    rw [hr] at hkept hall hstopped
    cases refused with
    | none =>
      have hcomplete : n.complete (.ok o) s = (.ok (), { m with status := .success }, s') := by simp only [complete, hr]
      rw [hcomplete]
      exact completion_written hkept (hall rfl)
    | some error =>
      have hcomplete : n.complete (.ok o) s = (.error error, m.failWith error, s') := by simp only [complete, hr]
      rw [hcomplete]
      exact completion_refused hkept (hstopped error rfl)

/-- A node that reports some items, their total, and a level. -/
def report : Node × Supply :=
  create ⟨1⟩ "report"
    { typeId := "report"
      ports := [.output "items" .array, .output "total" .integer, .controlOutput "level" .integer]
      activate := fun _ _ => .done .empty } [] ⟨2⟩

/-- A report whose total is no number. -/
def muddled : Output :=
  ⟨[("items", .array [.integer 1, .null]), ("total", .string "many")], [("level", .integer 3)]⟩

/-- The total of a report is refused: the items were written, and their element ports made, but neither the level nor the
trigger. -/
theorem completes_muddled : ∃ n', (report.1.complete (.ok muddled) report.2).2.1 = n' ∧ muddled.Ordered ∧
    report.1.Completion (.ok muddled) (.error (.conversion "total" (.parse "many" .integer))) n' ∧
    (n'.portAt? (.output "items")).map (fun p => (p.version, Keyed.mapValues Port.data p.elements)) =
      some (1, [("0", .integer 1), ("1", .null)]) ∧
    (n'.portAt? (.controlOutput "level")).map Port.version = some 0 ∧ n'.execOut.version = 0 := by
  have hordered : muddled.Ordered := ⟨by decide, by decide⟩
  refine ⟨_, rfl, hordered, ?_, rfl, rfl, rfl⟩
  exact completes report.1 (.ok muddled) report.2 fun o h => by cases h; exact hordered

end Node

end Dataflow
