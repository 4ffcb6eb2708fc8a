import Dataflow.Proofs.Port.Sound

/-!
# What an element port shows

The value of an element port is seen through the containers above it.

* `Value.at?` is the part of a value at a path of keys;
* `Port.shown?` is the port at a path, if every container on the way holds a value;
* `Port.at?_of_shown?`: the value of a sound port has at a path what the port shown there holds;
* `Port.Edit.shown?_target`: a write to an element port is shown at its path;
* `Port.Edit.shown?_other`: what is shown elsewhere stays.
-/

namespace Dataflow

/-- The part of a value at a path of keys. -/
def Value.at? : List String → Value → Option Value
  | [], v => some v
  | key :: path, v => (Keyed.find? key v.elements).bind (at? path)

namespace Port

open Keyed

/-- The port at a path, if every container on the way holds a value. -/
def shown? : List String → Port → Option Port
  | [], p => some p
  | key :: path, p => if p.data = .null then none else (Keyed.find? key p.elements).bind (shown? path)

theorem shown?_cons_eq_some {key : String} {path : List String} {p c : Port} :
    shown? (key :: path) p = some c ↔
      p.data ≠ .null ∧ ∃ e, Keyed.find? key p.elements = some e ∧ shown? path e = some c := by
  rw [shown?]
  split_ifs with h
  · simp [h]
  · simp [h, Option.bind_eq_some_iff]

theorem atPath?_cons_eq_some {key : String} {path : List String} {p c : Port} :
    atPath? (key :: path) p = some c ↔
      ∃ e, Keyed.find? key p.elements = some e ∧ atPath? path e = some c := by
  rw [atPath?_cons, Option.bind_eq_some_iff]

theorem atPath?_of_shown? {path : List String} {p c : Port} (h : shown? path p = some c) :
    atPath? path p = some c := by
  induction path generalizing p with
  | nil => exact h
  | cons key path ih =>
    obtain ⟨-, e, he, hc⟩ := shown?_cons_eq_some.1 h
    exact atPath?_cons_eq_some.2 ⟨e, he, ih hc⟩

theorem at?_of_shown? {path : List String} {p c : Port} (hp : Every Sound p) (h : shown? path p = some c) :
    p.data.at? path = some c.data := by
  induction path generalizing p with
  | nil => cases h; rfl
  | cons key path ih =>
    obtain ⟨hd, e, he, hc⟩ := shown?_cons_eq_some.1 h
    have hmem := mem_of_find? he
    have hkey := hp.self.mirrors (hp.self.isContainer hmem) hd key
    rw [Value.at?, ← hkey, he]
    exact ih (hp.element hmem) hc

/-- What a value has at the path of a port is what the port holds. -/
theorem eq_data_of_at? {path : List String} {p c : Port} {w : Value} (hp : Every Sound p)
    (h : atPath? path p = some c) (hw : p.data.at? path = some w) : w = c.data := by
  induction path generalizing p with
  | nil => cases h; cases hw; rfl
  | cons key path ih =>
    obtain ⟨e, he, hc⟩ := atPath?_cons_eq_some.1 h
    have hmem := mem_of_find? he
    by_cases hd : p.data = .null
    · rw [hd, Value.at?] at hw
      exact absurd hw (by simp)
    · have hkey := hp.self.mirrors (hp.self.isContainer hmem) hd key
      rw [Value.at?, ← hkey, he] at hw
      exact ih (hp.element hmem) hc hw

theorem atPath?_clear (path : List String) (p : Port) : atPath? path p.clear = (atPath? path p).map clear := by
  induction path generalizing p with
  | nil => rfl
  | cons key path ih =>
    rw [atPath?_cons, atPath?_cons, clear_elements, find?_mapValues]
    cases Keyed.find? key p.elements with
    | none => rfl
    | some e => exact ih e

/-! ### Paths and changes -/

section Changes

variable {up : Port → Port} {id : PortId} {R : Port → Port → Prop} {p q c : Port} {path : List String}

/-- A port that neither contains the port with an identifier nor lies in it. -/
def Apart (id : PortId) (c p : Port) : Prop :=
  id ∉ c.ids ∧ ∀ t ∈ p.flatten, t.id = id → c.id ∉ t.ids

theorem Apart.element {e : String × Port} (h : Apart id c p) (he : e ∈ p.elements) : Apart id c e.2 :=
  ⟨h.1, fun t ht => h.2 t (mem_flatten.2 (Or.inr ⟨e, he, ht⟩))⟩

theorem Edit.atPath?_other (h : Edit up id R p q) (hes : ∀ r, (up r).elements = r.elements)
    (hp : Every Sound p) (hc : atPath? path p = some c) (ha : Apart id c p) : atPath? path q = some c := by
  induction h generalizing path with
  | @here p q hid _ =>
    have hin : c.id ∈ p.ids := mem_ids_iff.2 ⟨c, mem_flatten_of_atPath? hc, rfl⟩
    exact absurd hin (ha.2 p (self_mem_flatten p) hid)
  | @inside p e e' before after key hid hsplit hbefore hedit ih =>
    have hmem : (key, e) ∈ p.elements := by rw [hsplit]; exact List.mem_append_right _ List.mem_cons_self
    cases path with
    | nil =>
      cases hc
      exact absurd (Edit.inside hid hsplit hbefore hedit).mem_ids ha.1
    | cons k path =>
      obtain ⟨x, hx, hc⟩ := atPath?_cons_eq_some.1 hc
      have hn := hp.self.nodup
      refine atPath?_cons_eq_some.2 ?_
      rw [hes]
      dsimp only
      rw [hsplit] at hn hx
      rcases find?_exchanged e' hn hx with ⟨rfl, hx'⟩ | hx'
      · exact ⟨e', hx', ih (hp.element hmem) hc (ha.element hmem)⟩
      · exact ⟨x, hx', hc⟩

theorem Edit.shown?_other (h : Edit fold id R p q) (hp : Every Sound p) (hc : shown? path p = some c)
    (ha : Apart id c p) : shown? path q = some c := by
  induction h generalizing path with
  | @here p q hid _ =>
    have hin : c.id ∈ p.ids := mem_ids_iff.2 ⟨c, mem_flatten_of_atPath? (atPath?_of_shown? hc), rfl⟩
    exact absurd hin (ha.2 p (self_mem_flatten p) hid)
  | @inside p e e' before after key hid hsplit hbefore hedit ih =>
    have hmem : (key, e) ∈ p.elements := by rw [hsplit]; exact List.mem_append_right _ List.mem_cons_self
    cases path with
    | nil =>
      cases hc
      exact absurd (Edit.inside hid hsplit hbefore hedit).mem_ids ha.1
    | cons k path =>
      obtain ⟨-, x, hx, hc⟩ := shown?_cons_eq_some.1 hc
      have hn := hp.self.nodup
      refine shown?_cons_eq_some.2 ⟨fold_data_ne_null (hp.self.isContainer hmem), ?_⟩
      rw [fold_elements]
      dsimp only
      rw [hsplit] at hn hx
      rcases find?_exchanged e' hn hx with ⟨rfl, hx'⟩ | hx'
      · exact ⟨e', hx', ih (hp.element hmem) hc (ha.element hmem)⟩
      · exact ⟨x, hx', hc⟩

/-- The port that was changed is shown. -/
theorem Edit.shown?_target (h : Edit fold id R p q) (hp : Every Sound p) :
    ∃ path c c', shown? path q = some c' ∧ c.id = id ∧ R c c' := by
  induction h with
  | @here p q hid hR => exact ⟨[], p, q, rfl, hid, hR⟩
  | @inside p e e' before after key hid hsplit hbefore hedit ih =>
    have hmem : (key, e) ∈ p.elements := by rw [hsplit]; exact List.mem_append_right _ List.mem_cons_self
    obtain ⟨path, c, c', hshown, hcid, hR⟩ := ih (hp.element hmem)
    refine ⟨key :: path, c, c', shown?_cons_eq_some.2 ⟨?_, e', ?_, hshown⟩, hcid, hR⟩
    · exact fold_data_ne_null (hp.self.isContainer hmem)
    · have hn := hp.self.nodup
      rw [fold_elements]
      dsimp only
      rw [hsplit] at hn
      rw [find?_exchange hn, if_pos rfl]

end Changes

end Port

end Dataflow
