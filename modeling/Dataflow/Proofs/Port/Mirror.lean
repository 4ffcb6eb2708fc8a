import Dataflow.Proofs.Port.Legal

/-!
# Ports mirror their values

The element ports of a container are a second copy of its value. `Port.Operation` lists what can be done to a port
after it was made, and `Port.operateAll` does one thing after the other, in any order.

* `Port.Mirror p` says what a port and its element ports have to do with each other, value by value;
* `Port.sound_operate`: no operation, accepted or refused, gives up what a port keeps to;
* `Port.mirror_operateAll`: after any operations, a port mirrors its value, and so does every port below it.
-/

namespace Dataflow.Port

open Keyed

/-! ### Operations -/

/-- What can be done to a port. -/
inductive Operation where
  | write (v : Value)
  | writeAt (target : PortId) (v : Value)
  | read
  | clear
  | setDataType (t : DataType)

/-- The port after a write: the one that was there before, if the write was refused. -/
def afterWrite {ε : Type} (old : Port × Supply) : Except ε (Value × Port × Supply) → Port × Supply
  | .ok (_, new) => new
  | .error _ => old

/-- Do something to a port. A write that is refused, or that goes to no port of the tree, does nothing. -/
def operate : Operation → Port × Supply → Port × Supply
  | .write v, (p, s) => afterWrite (p, s) (p.write v s)
  | .writeAt target v, (p, s) => ((p.writeAt target v s).map (afterWrite (p, s))).getD (p, s)
  | .read, (p, s) => (p.read.2, s)
  | .clear, (p, s) => (p.clear, s)
  | .setDataType t, (p, s) => p.setDataType t s

/-- Do one thing after the other. -/
def operateAll (operations : List Operation) (start : Port × Supply) : Port × Supply :=
  operations.foldl (fun state operation => operate operation state) start

/-! ### One operation -/

section Step

variable {p : Port}

theorem sound_setDataType (t : DataType) (s : Supply) (hp : Every Sound p) : Every Sound (p.setDataType t s).1 := by
  rcases setDataType_cases p t s with h | ⟨v, es, hes, hbare, hv, h⟩ | h <;> rw [h]
  · exact hp
  · exact sound_place (p := { p with dataType := t, elements := es }) (Value.fits_convert hv) hp.self.counted hbare
      (fun e he => hp.element (hes.subset he)) s
  · rw [clear_eq]
    exact every_sound_bare le_rfl (Value.fits_null t) rfl fun _ => rfl

/-- What holds after everything that an operation may come to holds after the operation. A write may come to three things:
there is no such port, or it refuses the value, or it was written. -/
theorem operate_cases {P : Port × Supply → Prop} {s : Supply} (nothing : P (p, s))
    (written : ∀ {v w p' s'}, p.write v s = .ok (w, p', s') → P (p', s'))
    (writtenAt : ∀ {target v w p' s'}, p.writeAt target v s = some (.ok (w, p', s')) → P (p', s'))
    (read : P (p.read.2, s)) (cleared : P (p.clear, s)) (typed : ∀ t, P (p.setDataType t s)) (operation : Operation) :
    P (operate operation (p, s)) := by
  cases operation with
  | write v =>
    rw [operate]
    cases h : p.write v s with
    | error e => exact nothing
    | ok result => exact written h
  | writeAt target v =>
    rw [operate]
    cases h : p.writeAt target v s with
    | none => exact nothing
    | some outcome =>
      cases outcome with
      | error e => exact nothing
      | ok result => exact writtenAt h
  | read => exact read
  | clear => exact cleared
  | setDataType t => exact typed t

theorem sound_operate (operation : Operation) (s : Supply) (hp : Every Sound p) :
    Every Sound (operate operation (p, s)).1 :=
  operate_cases (P := fun state => Every Sound state.1) hp (fun h => sound_write h hp) (fun h => sound_writeAt h hp)
    (sound_read hp) (sound_clear hp) (fun t => sound_setDataType t s hp) operation

end Step

/-! ### Any operations -/

theorem sound_operateAll (operations : List Operation) {p : Port} (s : Supply) (hp : Every Sound p) :
    Every Sound (operateAll operations (p, s)).1 := by
  induction operations generalizing p s with
  | nil => exact hp
  | cons operation rest ih => exact ih (operate operation (p, s)).2 (sound_operate operation s hp)

/-- A port and its element ports agree: they have the keys of an array, `0` to `n - 1`, or those of an object, each
key once, and each of them stores the element under its key. Below an empty container, all that is left is empty. -/
structure Mirror (p : Port) : Prop where
  counted : p.lastRead ≤ p.version
  bare : p.dataType ≠ .array → p.dataType ≠ .object → p.elements = []
  typed : p.data = .null ∨ p.dataType = .null ∨ p.data.dataType = p.dataType
  distinct : (keys p.elements).Nodup
  items : p.dataType = .array → ∀ items, p.data = .array items →
    (∀ key, key ∈ keys p.elements ↔ ∃ i < items.length, key = indexKey i) ∧
      ∀ i v, items[i]? = some v → ∃ e, (indexKey i, e) ∈ p.elements ∧ e.data = v
  fields : p.dataType = .object → ∀ fields, p.data = .object fields →
    (∀ key, key ∈ keys p.elements ↔ key ∈ keys fields) ∧
      ∀ key v, Keyed.find? key fields = some v → ∃ e, (key, e) ∈ p.elements ∧ e.data = v
  emptied : p.data = .null → ∀ e ∈ p.elements, e.2.data = .null

namespace Sound

variable {p : Port}

/-- A container that holds a value has element ports under the keys of the value. -/
theorem mem_keys (hp : p.Sound) (hc : p.isContainer = true) (hd : p.data ≠ .null) (key : String) :
    key ∈ keys p.elements ↔ key ∈ keys p.data.elements := by
  rw [← Keyed.find?_isSome, ← Keyed.find?_isSome, ← hp.mirrors hc hd key, Option.isSome_map]

/-- The element port under a key of the value stores the element. -/
theorem element_of_find? (hp : p.Sound) (hc : p.isContainer = true) (hd : p.data ≠ .null) {key : String} {v : Value}
    (h : Keyed.find? key p.data.elements = some v) : ∃ e, (key, e) ∈ p.elements ∧ e.data = v := by
  rw [← hp.mirrors hc hd key] at h
  obtain ⟨e, he, hv⟩ := Option.map_eq_some_iff.1 h
  exact ⟨e, mem_of_find? he, hv⟩

theorem mirror (hp : p.Sound) : p.Mirror where
  counted := hp.counted
  bare ha ho := by
    refine hp.bare (Bool.eq_false_iff.2 fun hc => ?_)
    exact (isContainer_iff.1 hc).elim ha ho
  typed := hp.typed
  distinct := hp.nodup
  items ht items hv := by
    have hc : p.isContainer = true := isContainer_iff.2 (Or.inl ht)
    have hd : p.data ≠ .null := by rw [hv]; exact fun e => Value.noConfusion e
    refine ⟨fun key => ?_, fun i v hi => ?_⟩
    · rw [hp.mem_keys hc hd, hv, Value.elements, Value.mem_keys_numbered]
      simp only [Nat.zero_add, eq_comm]
    · apply hp.element_of_find? hc hd
      rw [hv, Value.elements, ← hi, ← Value.find?_numbered items 0 i, Nat.zero_add]
  fields ht fields hv := by
    have hc : p.isContainer = true := isContainer_iff.2 (Or.inr ht)
    have hd : p.data ≠ .null := by rw [hv]; exact fun e => Value.noConfusion e
    refine ⟨fun key => ?_, fun key v hkey => ?_⟩
    · rw [hp.mem_keys hc hd, hv, Value.elements]
    · exact hp.element_of_find? hc hd (by rw [hv]; exact hkey)
  emptied := hp.emptied

end Sound

/-- Whatever is done to a port after it was made, the port and every port below it mirror their values. -/
theorem mirror_operateAll (operations : List Operation) (id : PortId) (name : String) (direction : Direction)
    (kind : PortKind) (t : DataType) (s : Supply) :
    Every Mirror (operateAll operations (new id name direction kind t, s)).1 := by
  intro q hq
  exact (sound_operateAll operations s (sound_new id name direction kind t) q hq).mirror

end Dataflow.Port
