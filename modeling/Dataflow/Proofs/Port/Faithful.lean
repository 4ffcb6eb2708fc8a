import Dataflow.Proofs.Port.Sound

/-!
# Containers that mirror their values

A container holds its value and its element ports side by side. A write to an element port makes the whole value of the
container anew from its element ports, whatever the value was.

* `Port.Faithful` says that a container with a value has the element ports of the value, and nothing else. It is the part
  of `Port.Sound` that can be seen from the values;
* `Port.faithful_write`: a write makes a tree faithful again;
* `Port.ChangesAlong` says that nothing but the elements on a path has changed, in all containers above its end;
* `Port.Edit.changesAlong`: so it is after a write to an element port of a faithful tree, which is faithful again if no
  array above the port was empty.
-/

namespace Dataflow.Port

open Keyed

/-- A port holds a value of its type, and its element ports have keys of their own. If it is a container with a value,
they have the keys of the value and hold its elements. -/
structure Faithful (p : Port) : Prop where
  typed : p.data.Fits p.dataType
  distinct : (keys p.elements).Nodup
  elements : p.isContainer = true → p.data ≠ .null →
    ∀ key, (Keyed.find? key p.elements).map data = Keyed.find? key p.data.elements

theorem Sound.faithful {p : Port} (hp : p.Sound) : p.Faithful :=
  ⟨hp.typed, hp.nodup, hp.mirrors⟩

/-- A container that holds a value holds one of its type. -/
theorem dataType_of_fits {p : Port} (hp : p.data.Fits p.dataType) (hc : p.isContainer = true) (hd : p.data ≠ .null) :
    p.data.dataType = p.dataType := by
  refine (hp.resolve_left hd).resolve_left fun hnull => ?_
  rw [isContainer, hnull] at hc
  cases hc

/-- An array with a value has the element ports of an array. -/
theorem Faithful.numbered {p : Port} (hp : p.Faithful) (ht : p.dataType = .array) (hd : p.data ≠ .null) :
    Numbered p.elements := by
  have hc : p.isContainer = true := isContainer_iff.2 (Or.inl ht)
  have htype := (dataType_of_fits hp.typed hc hd).trans ht
  obtain ⟨items, hitems⟩ : ∃ items, p.data = .array items := by
    cases hv : p.data <;> rw [hv] at htype <;> cases htype
    exact ⟨_, rfl⟩
  have hmem : ∀ key, key ∈ keys p.elements ↔ key ∈ keys (Value.numbered 0 items) := fun key => by
    rw [← Keyed.find?_isSome, ← Keyed.find?_isSome, ← Option.isSome_map (f := data), hp.elements hc hd, hitems,
      Value.elements]
  have hlen : p.elements.length = items.length := by
    have hperm := (List.perm_ext_iff_of_nodup hp.distinct (nodup_keys_numbered items 0)).2 hmem
    simpa only [keys, List.length_map, Value.length_numbered] using hperm.length_eq
  intro key
  rw [hmem, Value.mem_keys_numbered, hlen]
  simp only [Nat.zero_add]

/-! ### Writing to the port itself -/

theorem nodup_elementFor {parent : Port} (hes : ∀ e ∈ parent.elements, Every Faithful e.2) (key : String) (t : DataType)
    (s : Supply) : (keys (elementFor parent key t s).1.elements).Nodup := by
  cases h : Keyed.find? key parent.elements with
  | none =>
    rw [elementFor_of_none h]
    exact List.nodup_nil
  | some c =>
    rw [elementFor_of_some h]
    dsimp only
    split_ifs
    · exact List.nodup_nil
    · exact (hes _ (mem_of_find? h)).self.distinct

/-- A container that stores a value of its type gets the element ports of the value. -/
theorem faithful_place {v : Value} {p : Port} (hf : v.Fits p.dataType) (hn : (keys p.elements).Nodup)
    (hes : ∀ e ∈ p.elements, Every Faithful e.2) (s : Supply) : Every Faithful (place v p s).1 := by
  induction v using Value.induction generalizing p s with
  | step v ih =>
    cases hp : p.isContainer with
    | false =>
      rw [place_scalar hp]
      refine every_iff.2 ⟨⟨hf, hn, fun hc => ?_⟩, hes⟩
      exact absurd hc (by simpa [Port.isContainer] using hp)
    | true =>
      rw [place_container hp]
      refine every_iff.2 ⟨⟨hf, (ascending_placeFields p _ s).nodup, fun _ _ => find?_placeFields p v.elements s⟩,
        fun e he => ?_⟩
      obtain ⟨w, s', hw, heq⟩ := mem_placeFields he
      have hfits : w.Fits (elementFor p e.1 w.dataType s').1.bump.dataType := by
        rw [show (elementFor p e.1 w.dataType s').1.bump.dataType = w.dataType from elementFor_dataType ..]
        exact w.fits_dataType
      have hbelow : ∀ e' ∈ (elementFor p e.1 w.dataType s').1.elements, Every Faithful e'.2 := fun e' he' => by
        obtain ⟨c, hc, he'⟩ := mem_elements_elementFor he'
        exact (hes _ hc).element he'
      rw [heq]
      exact ih _ hw hfits (nodup_elementFor hes e.1 w.dataType s') hbelow _

theorem faithful_write {v w : Value} {p p' : Port} {s s' : Supply} (h : p.write v s = .ok (w, p', s'))
    (hp : Every Faithful p) : Every Faithful p' := by
  rcases write_eq_ok h with ⟨-, -, rfl, -⟩ | ⟨-, hw, rfl, -⟩
  · refine every_iff.2 ⟨⟨Value.fits_null _, List.nodup_nil, fun _ hd => absurd rfl hd⟩, fun e he => ?_⟩
    exact absurd he List.not_mem_nil
  · exact faithful_place (p := p.bump) (Value.fits_convert hw) hp.self.distinct (fun e he => hp.element he) s

/-! ### Writing below a container -/

/-- A container that is made from its element ports has the elements that they hold. -/
theorem elements_fold {p : Port} (hc : p.isContainer = true) (hn : (keys p.elements).Nodup)
    (hk : p.dataType = .array → Numbered p.elements) :
    (fold p).data.dataType = p.dataType ∧
      ∀ key, Keyed.find? key (fold p).data.elements = (Keyed.find? key p.elements).map data := by
  unfold fold
  rcases isContainer_iff.1 hc with h | h <;> rw [h]
  · exact ⟨rfl, find?_elements_foldedItems hn (hk h)⟩
  · exact ⟨rfl, find?_elements_foldedFields p.elements⟩

/-- Between `p` and `q`, nothing but the element on the path changes in the value of any container above its end: a
container keeps its type and all of its elements but for the one that the path leads to. -/
def ChangesAlong (path : List String) (p q : Port) : Prop :=
  ∀ above key below, path = above ++ key :: below → ∀ c, p.atPath? above = some c → c.isContainer = true →
    c.data ≠ .null → ∃ c' e, q.atPath? above = some c' ∧ Keyed.find? key c'.elements = some e ∧
      c'.data.dataType = c.data.dataType ∧
      ∀ k, Keyed.find? k c'.data.elements = if k = key then some e.data else Keyed.find? k c.data.elements

/-- Every array that a path leads through has a value. -/
def FilledAlong (path : List String) (p : Port) : Prop :=
  ∀ above key below, path = above ++ key :: below → ∀ c, p.atPath? above = some c → c.dataType = .array →
    c.data ≠ .null

section Exchange

variable {p c : Port} (c' : Port) {before after : List (String × Port)} {key : String}

/-- What an exchanged element port leaves of the others. -/
theorem find?_elements_exchange (hn : (keys p.elements).Nodup) (hes : p.elements = before ++ (key, c) :: after)
    (k : String) : Keyed.find? k (fold { p with elements := before ++ (key, c') :: after }).elements =
      if k = key then some c' else Keyed.find? k p.elements := by
  rw [fold_elements, hes]
  exact find?_exchange (hes ▸ hn) k

/-- A container of which one element port was exchanged takes its value over, and keeps all other elements. -/
theorem Faithful.exchange (hp : p.Faithful) (hes : p.elements = before ++ (key, c) :: after) (hc : p.isContainer = true)
    (hd : p.dataType = .array → p.data ≠ .null) :
    let q := fold { p with elements := before ++ (key, c') :: after }
    q.data.dataType = p.dataType ∧ (keys q.elements).Nodup ∧
      ∀ k, Keyed.find? k q.data.elements = (Keyed.find? k q.elements).map data := by
  have hkeys : keys (before ++ (key, c') :: after) = keys p.elements := by rw [hes, keys_exchange]
  have hnumbered : p.dataType = .array → Numbered (before ++ (key, c') :: after) := fun ht =>
    numbered_exchange (hes ▸ hp.numbered ht (hd ht))
  obtain ⟨htype, helements⟩ := elements_fold (p := { p with elements := before ++ (key, c') :: after }) hc
    (hkeys ▸ hp.distinct) hnumbered
  refine ⟨htype, ?_, fun k => ?_⟩
  · rw [fold_elements]
    exact hkeys ▸ hp.distinct
  · rw [fold_elements, helements]

theorem Faithful.fold (hp : p.Faithful) (hes : p.elements = before ++ (key, c) :: after)
    (hd : p.dataType = .array → p.data ≠ .null) :
    (fold { p with elements := before ++ (key, c') :: after }).Faithful := by
  by_cases hc : p.isContainer = true
  · obtain ⟨htype, hn, helements⟩ := hp.exchange c' hes hc hd
    exact ⟨Or.inr (Or.inr (by rw [htype, fold_dataType])), hn, fun _ _ k => (helements k).symm⟩
  · have hfold : Port.fold { p with elements := before ++ (key, c') :: after } =
        { p with elements := before ++ (key, c') :: after } := by
      unfold Port.fold
      split
      · rename_i ht
        exact absurd (isContainer_iff.2 (Or.inl ht)) hc
      · rename_i ht
        exact absurd (isContainer_iff.2 (Or.inr ht)) hc
      · rfl
    rw [hfold]
    refine ⟨hp.typed, ?_, fun h => absurd h hc⟩
    rw [keys_exchange (c := c), ← hes]
    exact hp.distinct

end Exchange

/-- **In a faithful tree, a change of one port changes one element of each container above it.** If no array above it
was empty, the tree is faithful again as soon as the changed port is. -/
theorem Edit.changesAlong {id : PortId} {R : Port → Port → Prop} {p q : Port} (h : Edit fold id R p q)
    (hp : Every Faithful p) :
    ∃ path c c', p.atPath? path = some c ∧ c.id = id ∧ q.atPath? path = some c' ∧ R c c' ∧ ChangesAlong path p q ∧
      (FilledAlong path p → Every Faithful c' → Every Faithful q) := by
  induction h with
  | @here p q hid hR =>
    exact ⟨[], p, q, rfl, hid, rfl, hR, fun above key below heq => absurd heq (by simp), fun _ hq => hq⟩
  | @inside p c c' before after key hid hes _ _ ih =>
    have hmem : (key, c) ∈ p.elements := by rw [hes]; exact List.mem_append_right _ List.mem_cons_self
    obtain ⟨path, x, x', hx, hxid, hx', hR, halong, hfaithful⟩ := ih (hp.element hmem)
    have hc : Keyed.find? key p.elements = some c := find?_of_mem hp.self.distinct hmem
    have hfind := find?_elements_exchange c' hp.self.distinct hes
    set q : Port := Port.fold { p with elements := before ++ (key, c') :: after } with hq
    have hc' : Keyed.find? key q.elements = some c' := by rw [hfind, if_pos rfl]
    refine ⟨key :: path, x, x', ?_, hxid, ?_, hR, fun above k below heq y hy hcont hd => ?_, fun hfilled hx'' => ?_⟩
    · rw [atPath?_cons, hc, Option.bind_some, hx]
    · rw [atPath?_cons, hc', Option.bind_some, hx']
    · cases above with
      | nil =>
        -- the container itself, made anew from its element ports
        obtain ⟨rfl, rfl⟩ := List.cons.inj heq
        obtain rfl : p = y := Option.some.inj hy
        obtain ⟨htype, -, helements⟩ := hp.self.exchange c' hes hcont fun _ => hd
        refine ⟨q, c', rfl, hc', htype.trans (dataType_of_fits hp.self.typed hcont hd).symm, fun k => ?_⟩
        rw [helements, hfind, ← hp.self.elements hcont hd]
        split_ifs <;> rfl
      | cons first above =>
        obtain ⟨rfl, hpath⟩ := List.cons.inj heq
        rw [atPath?_cons, hc, Option.bind_some] at hy
        obtain ⟨y', e, hy', hrest⟩ := halong above k below hpath y hy hcont hd
        exact ⟨y', e, by rw [atPath?_cons, hc', Option.bind_some, hy'], hrest⟩
    · have hbelow : Every Faithful c' := hfaithful (fun above k below heq y hy =>
        hfilled (key :: above) k below (congrArg _ heq) y (by rw [atPath?_cons, hc, Option.bind_some, hy])) hx''
      refine every_iff.2 ⟨hp.self.fold c' hes (hfilled [] key path rfl p rfl), fun e he => ?_⟩
      rw [hq, fold_elements] at he
      rcases List.mem_append.1 he with he | he
      · exact hp.element (hes ▸ List.mem_append_left _ he)
      · rcases List.mem_cons.1 he with rfl | he
        · exact hbelow
        · exact hp.element (hes ▸ List.mem_append_right _ (List.mem_cons_of_mem _ he))

end Dataflow.Port
