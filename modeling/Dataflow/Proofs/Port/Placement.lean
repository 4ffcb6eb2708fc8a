import Dataflow.Proofs.Port.Tree

/-!
# Storing a value

* `Value.induction`: what passes from the elements of a value to the value holds of every value;
* `Port.place_eq` and `Port.placeFields_cons`: storing, one level at a time;
* `Port.mem_placeFields`: every element port after storing has taken an element of the value;
* `Port.find?_placeFields`: the element ports have exactly the keys of the value, and its elements;
* `Supply.Renews` says that a list of identifiers changes by dropping some and drawing others from a
  supply; `Port.renews_place` says so of storing.
-/

namespace Dataflow

open Keyed

section Induction

variable {motive : Value → Prop}

mutual
theorem Value.induction_aux (step : ∀ v : Value, (∀ e ∈ v.elements, motive e.2) → motive v) (v : Value) :
    motive v := by
  cases v with
  | array items => exact step _ (induction_items step items 0)
  | object fields => exact step _ (induction_fields step fields)
  | _ => exact step _ fun e he => absurd he List.not_mem_nil
termination_by structural v

theorem Value.induction_items (step : ∀ v : Value, (∀ e ∈ v.elements, motive e.2) → motive v)
    (items : List Value) (i : Nat) : ∀ e ∈ Value.numbered i items, motive e.2 := by
  cases items with
  | nil => exact fun e he => absurd he List.not_mem_nil
  | cons v vs =>
    intro e he
    rcases List.mem_cons.1 he with rfl | he
    · exact induction_aux step v
    · exact induction_items step vs (i + 1) e he
termination_by structural items

theorem Value.induction_fields (step : ∀ v : Value, (∀ e ∈ v.elements, motive e.2) → motive v)
    (fields : List (String × Value)) : ∀ e ∈ fields, motive e.2 := by
  cases fields with
  | nil => exact fun e he => absurd he List.not_mem_nil
  | cons entry vs =>
    obtain ⟨key, v⟩ := entry
    intro e he
    rcases List.mem_cons.1 he with rfl | he
    · exact induction_aux step v
    · exact induction_fields step vs e he
termination_by structural fields
end

/-- What holds of a value whenever it holds of its elements holds of every value. -/
@[elab_as_elim]
theorem Value.induction (v : Value) (step : ∀ v : Value, (∀ e ∈ v.elements, motive e.2) → motive v) :
    motive v :=
  Value.induction_aux step v

end Induction

namespace Port

/-! ### Storing, one level at a time -/

@[simp] theorem placeFields_nil (parent : Port) (s : Supply) : placeFields parent [] s = ([], s) := rfl

/-- The element port for a value, after the value was stored. -/
def placedFor (parent : Port) (key : String) (v : Value) (s : Supply) : Port × Supply :=
  let q := elementFor parent key v.dataType s
  place v q.1.bump q.2

theorem placeFields_cons (parent : Port) (key : String) (v : Value) (rest : List (String × Value))
    (s : Supply) :
    placeFields parent ((key, v) :: rest) s =
      (insert key (placedFor parent key v s).1 (placeFields parent rest (placedFor parent key v s).2).1,
        (placeFields parent rest (placedFor parent key v s).2).2) := rfl

theorem placeItems_eq (parent : Port) (i : Nat) (items : List Value) (s : Supply) :
    placeItems parent i items s = placeFields parent (Value.numbered i items) s := by
  induction items generalizing i s with
  | nil => rfl
  | cons v vs ih => simp only [placeItems, ih, Value.numbered, placeFields]

theorem place_eq (v : Value) (p : Port) (s : Supply) :
    place v p s =
      if p.isContainer then
        ({ p with data := v, elements := (placeFields p v.elements s).1 }, (placeFields p v.elements s).2)
      else ({ p with data := v }, s) := by
  cases v <;> simp only [place, placeItems_eq, Value.elements, placeFields_nil] <;> split <;> rfl

theorem place_container {p : Port} (h : p.isContainer = true) (v : Value) (s : Supply) :
    place v p s =
      ({ p with data := v, elements := (placeFields p v.elements s).1 }, (placeFields p v.elements s).2) := by
  rw [place_eq, if_pos h]

theorem place_scalar {p : Port} (h : p.isContainer = false) (v : Value) (s : Supply) :
    place v p s = ({ p with data := v }, s) := by
  rw [place_eq, if_neg (by simp [h])]

section Unchanged

variable (v : Value) (p : Port) (s : Supply)

@[simp] theorem place_id : (place v p s).1.id = p.id := by rw [place_eq]; split <;> rfl

@[simp] theorem place_direction : (place v p s).1.direction = p.direction := by rw [place_eq]; split <;> rfl

@[simp] theorem place_dataType : (place v p s).1.dataType = p.dataType := by rw [place_eq]; split <;> rfl

@[simp] theorem place_version : (place v p s).1.version = p.version := by rw [place_eq]; split <;> rfl

@[simp] theorem place_lastRead : (place v p s).1.lastRead = p.lastRead := by rw [place_eq]; split <;> rfl

@[simp] theorem place_data : (place v p s).1.data = v := by rw [place_eq]; split <;> rfl

end Unchanged

theorem elementFor_of_some {parent c : Port} {key : String} (h : Keyed.find? key parent.elements = some c)
    (t : DataType) (s : Supply) :
    elementFor parent key t s =
      ({ c with
          dataType := t
          elements := if c.dataType ≠ t ∧ !t.isContainer then [] else c.elements }, s) := by
  simp [elementFor, h]

theorem elementFor_of_none {parent : Port} {key : String} (h : Keyed.find? key parent.elements = none)
    (t : DataType) (s : Supply) :
    elementFor parent key t s = (new ⟨s.next⟩ key parent.direction parent.kind t, ⟨s.next + 1⟩) := by
  simp [elementFor, h, make, Supply.draw]

theorem elementFor_dataType (parent : Port) (key : String) (t : DataType) (s : Supply) :
    (elementFor parent key t s).1.dataType = t := by
  cases h : Keyed.find? key parent.elements with
  | none => rw [elementFor_of_none h]; rfl
  | some c => rw [elementFor_of_some h]

theorem elementFor_counted {parent : Port} (hes : ∀ e ∈ parent.elements, e.2.lastRead ≤ e.2.version) (key : String)
    (t : DataType) (s : Supply) : (elementFor parent key t s).1.lastRead ≤ (elementFor parent key t s).1.version := by
  cases h : Keyed.find? key parent.elements with
  | none => rw [elementFor_of_none h]; exact le_rfl
  | some c => rw [elementFor_of_some h]; exact hes _ (mem_of_find? h)

/-- A port that takes a type without elements drops those it has. -/
theorem elementFor_bare {parent : Port} (hes : ∀ e ∈ parent.elements, e.2.isContainer = false → e.2.elements = [])
    {key : String} {t : DataType} {s : Supply} (ht : (elementFor parent key t s).1.isContainer = false) :
    (elementFor parent key t s).1.elements = [] := by
  rw [Port.isContainer, elementFor_dataType] at ht
  cases h : Keyed.find? key parent.elements with
  | none => rw [elementFor_of_none h]; rfl
  | some c =>
    rw [elementFor_of_some h]
    by_cases hct : c.dataType = t
    · have hbare : c.elements = [] := hes _ (mem_of_find? h) (by rw [Port.isContainer, hct]; exact ht)
      simp [hct, hbare]
    · simp [hct, ht]

/-- A port that takes another type gets no new elements. -/
theorem mem_elements_elementFor {parent : Port} {key : String} {t : DataType} {s : Supply} {e : String × Port}
    (he : e ∈ (elementFor parent key t s).1.elements) : ∃ c, (key, c) ∈ parent.elements ∧ e ∈ c.elements := by
  cases h : Keyed.find? key parent.elements with
  | none =>
    rw [elementFor_of_none h] at he
    exact absurd he List.not_mem_nil
  | some c =>
    rw [elementFor_of_some h] at he
    dsimp only at he
    split_ifs at he
    · exact absurd he List.not_mem_nil
    · exact ⟨c, mem_of_find? h, he⟩

theorem mem_placeFields {parent : Port} {es : List (String × Value)} {s : Supply} {e : String × Port}
    (h : e ∈ (placeFields parent es s).1) :
    ∃ v s', (e.1, v) ∈ es ∧ e.2 = (placedFor parent e.1 v s').1 := by
  induction es generalizing s with
  | nil => simp at h
  | cons entry rest ih =>
    obtain ⟨key, v⟩ := entry
    rw [placeFields_cons] at h
    rcases mem_insert h with rfl | h
    · exact ⟨v, s, List.mem_cons_self, rfl⟩
    · obtain ⟨w, s', hw, he⟩ := ih h
      exact ⟨w, s', List.mem_cons_of_mem _ hw, he⟩

theorem ascending_placeFields (parent : Port) (es : List (String × Value)) (s : Supply) :
    Ascending (placeFields parent es s).1 := by
  induction es generalizing s with
  | nil => simp
  | cons entry rest ih => exact (ih _).insert

theorem find?_placeFields (parent : Port) (es : List (String × Value)) (s : Supply) (key : String) :
    (Keyed.find? key (placeFields parent es s).1).map Port.data = Keyed.find? key es := by
  induction es generalizing s with
  | nil => rfl
  | cons entry rest ih =>
    obtain ⟨k, v⟩ := entry
    rw [placeFields_cons, find?_cons]
    split_ifs with h
    · subst h; simp [placedFor]
    · rw [find?_insert_of_ne h]; exact ih _

theorem mem_keys_placeFields {parent : Port} {es : List (String × Value)} {s : Supply} {key : String} :
    key ∈ keys (placeFields parent es s).1 ↔ key ∈ keys es := by
  rw [← Keyed.find?_isSome, ← Keyed.find?_isSome, ← find?_placeFields parent es s, Option.isSome_map]

end Port

/-! ### Identifiers from a supply -/

/-- From one list of identifiers to the next some are dropped, and those that are new come from the
supply. -/
structure Supply.Renews (s : Supply) (ids : List Id) (s' : Supply) (ids' : List Id) : Prop where
  le : s.next ≤ s'.next
  mem : ∀ i ∈ ids', i ∈ ids ∨ s.next ≤ i.value ∧ i.value < s'.next
  nodup : ids.Nodup → (∀ i ∈ ids, s.Used i) → ids'.Nodup

namespace Supply

variable {s s' s'' : Supply} {ids ids' ids'' : List Id}

theorem Used.mono {i : Id} (h : s.Used i) (hle : s.next ≤ s'.next) : s'.Used i :=
  lt_of_lt_of_le h hle

theorem Renews.refl (s : Supply) (ids : List Id) : s.Renews ids s ids :=
  ⟨le_rfl, fun _ h => Or.inl h, fun h _ => h⟩

theorem Renews.of_sublist (h : ids'.Sublist ids) : s.Renews ids s ids' :=
  ⟨le_rfl, fun _ hi => Or.inl (h.subset hi), fun hn _ => hn.sublist h⟩

theorem Renews.used (h : s.Renews ids s' ids') (hu : ∀ i ∈ ids, s.Used i) : ∀ i ∈ ids', s'.Used i := by
  intro i hi
  rcases h.mem i hi with hi | hi
  · exact (hu i hi).mono h.le
  · exact hi.2

theorem Renews.trans (h : s.Renews ids s' ids') (h' : s'.Renews ids' s'' ids'') : s.Renews ids s'' ids'' where
  le := h.le.trans h'.le
  mem i hi := by
    rcases h'.mem i hi with hi | hi
    · exact (h.mem i hi).imp_right fun hi => ⟨hi.1, lt_of_lt_of_le hi.2 h'.le⟩
    · exact Or.inr ⟨h.le.trans hi.1, hi.2⟩
  nodup hn hu := h'.nodup (h.nodup hn hu) (h.used hu)

/-- The identifiers before and after those that change stay. -/
theorem Renews.append (h : s.Renews ids s' ids') (before after : List Id) :
    s.Renews (before ++ ids ++ after) s' (before ++ ids' ++ after) where
  le := h.le
  mem i hi := by
    simp only [List.mem_append] at hi ⊢
    rcases hi with (hi | hi) | hi
    · exact Or.inl (Or.inl (Or.inl hi))
    · exact (h.mem i hi).imp_left fun hi => Or.inl (Or.inr hi)
    · exact Or.inl (Or.inr hi)
  nodup hn hu := by
    have hstays : ∀ i ∈ ids', (∀ j ∈ before ++ after, s.Used j) → i ∈ before ++ after → i ∈ ids := by
      intro i hi hu hmem
      rcases h.mem i hi with hi | hi
      · exact hi
      · exact absurd (hu i hmem) (not_lt.2 hi.1)
    have husedIds : ∀ i ∈ ids, s.Used i := fun i hi => hu i (by simp [hi])
    have husedRest : ∀ i ∈ before ++ after, s.Used i := fun i hi => hu i (by
      rcases List.mem_append.1 hi with hi | hi <;> simp [hi])
    rw [List.append_assoc, List.nodup_append', List.nodup_append'] at hn ⊢
    obtain ⟨hb, ⟨hi, ha, hia⟩, hdis⟩ := hn
    refine ⟨hb, ⟨h.nodup hi husedIds, ha, ?_⟩, ?_⟩
    · intro i hi hm
      exact hia (hstays i hi husedRest (List.mem_append_right _ hm)) hm
    · intro i hm hi
      rcases List.mem_append.1 hi with hi | hi
      · exact hdis hm (List.mem_append_left _ (hstays i hi husedRest (List.mem_append_left _ hm)))
      · exact hdis hm (List.mem_append_right _ hi)

theorem Renews.widen {t t' : Supply} (h : s.Renews ids s' ids') (hle : t.next ≤ s.next)
    (hle' : s'.next ≤ t'.next) : t.Renews ids t' ids' where
  le := (hle.trans h.le).trans hle'
  mem i hi := (h.mem i hi).imp_right fun hi => ⟨hle.trans hi.1, lt_of_lt_of_le hi.2 hle'⟩
  nodup hn hu := h.nodup hn fun i hi => (hu i hi).mono hle

end Supply

namespace Port

@[simp] theorem ids_bump (p : Port) : p.bump.ids = p.ids := by rw [ids_eq, ids_eq p]; rfl

@[simp] theorem ids_new (id : PortId) (name : String) (direction : Direction) (kind : PortKind)
    (t : DataType) : (new id name direction kind t).ids = [id] := by
  rw [ids_eq]; rfl

theorem ids_with (p : Port) (t : DataType) (es : List (String × Port)) :
    ({ p with dataType := t, elements := es } : Port).ids = p.id :: es.flatMap fun e => e.2.ids :=
  ids_eq _

theorem renews_elementFor (parent : Port) (key : String) (t : DataType) (s : Supply) :
    s.Renews ((Keyed.find? key parent.elements).elim [] ids) (elementFor parent key t s).2
      (elementFor parent key t s).1.ids := by
  cases h : Keyed.find? key parent.elements with
  | some c =>
    rw [elementFor_of_some h]
    refine Supply.Renews.of_sublist ?_
    rw [ids_with, Option.elim_some, ids_eq c]
    refine List.Sublist.cons_cons _ ?_
    split_ifs
    · exact List.nil_sublist _
    · exact List.Sublist.refl _
  | none =>
    rw [elementFor_of_none h]
    refine ⟨Nat.le_succ _, fun i hi => Or.inr ?_, fun _ _ => by simp⟩
    rw [ids_new, List.mem_singleton] at hi
    subst hi
    exact ⟨le_rfl, Nat.lt_succ_self _⟩

theorem disjoint_elements {es : List (String × Port)} (hn : (es.flatMap fun e => e.2.ids).Nodup)
    {key key' : String} {c c' : Port} (h : Keyed.find? key es = some c)
    (h' : Keyed.find? key' es = some c') (hne : key ≠ key') : c.ids.Disjoint c'.ids := by
  have hpair := (List.nodup_flatMap.1 hn).2
  have hsymm : Std.Symm (Function.onFun List.Disjoint fun e : String × Port => e.2.ids) :=
    ⟨fun _ _ hd => hd.symm⟩
  exact hpair.forall (mem_of_find? h) (mem_of_find? h') fun e => hne (congrArg Prod.fst e)

/-- Element ports that take the place of others: under each key, the identifiers give way to others. -/
structure Rebuilt (old : List (String × Port)) (s s' : Supply) (new : List (String × Port)) : Prop where
  le : s.next ≤ s'.next
  ascending : Ascending new
  renews : ∀ e ∈ new, s.Renews ((Keyed.find? e.1 old).elim [] ids) s' e.2.ids
  disjoint : (old.flatMap fun e => e.2.ids).Nodup → (∀ i ∈ old.flatMap fun e => e.2.ids, s.Used i) →
    ∀ e ∈ new, ∀ e' ∈ new, e.1 ≠ e'.1 → e.2.ids.Disjoint e'.2.ids

theorem Rebuilt.insert {old new : List (String × Port)} {s s₁ s' : Supply} {key : String} {p : Port}
    (hp : s.Renews ((Keyed.find? key old).elim [] ids) s₁ p.ids) (h : Rebuilt old s₁ s' new) :
    Rebuilt old s s' (Keyed.insert key p new) where
  le := hp.le.trans h.le
  ascending := h.ascending.insert
  renews e he := by
    rcases mem_insert he with rfl | he
    · exact hp.widen le_rfl h.le
    · exact (h.renews e he).widen hp.le le_rfl
  disjoint hn hu := by
    -- An identifier shared by two keys would be an old one under both, or would be drawn twice.
    have holder : ∀ {k : String} {i : PortId}, i ∈ (Keyed.find? k old).elim [] ids →
        i ∈ old.flatMap fun e => e.2.ids := by
      intro k i hi
      cases hk : Keyed.find? k old with
      | none => simp [hk] at hi
      | some c => exact List.mem_flatMap.2 ⟨_, mem_of_find? hk, by simpa [hk] using hi⟩
    have hfirst : ∀ e ∈ new, key ≠ e.1 → p.ids.Disjoint e.2.ids := by
      intro e he hne i hi hie
      rcases hp.mem i hi with hi | hi <;> rcases (h.renews e he).mem i hie with hie | hie
      · cases hk : Keyed.find? key old with
        | none => simp [hk] at hi
        | some c =>
          cases hk' : Keyed.find? e.1 old with
          | none => simp [hk'] at hie
          | some c' =>
            exact disjoint_elements hn hk hk' hne (by simpa [hk] using hi) (by simpa [hk'] using hie)
      · exact absurd (hu i (holder hi)) (not_lt.2 (hp.le.trans hie.1))
      · exact absurd (hu i (holder hie)) (not_lt.2 hi.1)
      · exact absurd hi.2 (not_lt.2 hie.1)
    intro e he e' he' hne
    rcases mem_insert he with rfl | he <;> rcases mem_insert he' with rfl | he'
    · exact absurd rfl hne
    · exact hfirst e' he' hne
    · exact (hfirst e he (Ne.symm hne)).symm
    · exact h.disjoint hn (fun i hi => (hu i hi).mono hp.le) e he e' he' hne

theorem Rebuilt.renews_all {old new : List (String × Port)} {s s' : Supply} (h : Rebuilt old s s' new) :
    s.Renews (old.flatMap fun e => e.2.ids) s' (new.flatMap fun e => e.2.ids) where
  le := h.le
  mem i hi := by
    obtain ⟨e, he, hie⟩ := List.mem_flatMap.1 hi
    refine ((h.renews e he).mem i hie).imp_left fun hie => ?_
    cases hk : Keyed.find? e.1 old with
    | none => simp [hk] at hie
    | some c => exact List.mem_flatMap.2 ⟨_, mem_of_find? hk, by simpa [hk] using hie⟩
  nodup hn hu := by
    refine List.nodup_flatMap.2 ⟨fun e he => (h.renews e he).nodup ?_ fun i hi => hu i ?_, ?_⟩
    · cases hk : Keyed.find? e.1 old with
      | none => simp
      | some c => exact (List.nodup_flatMap.1 hn).1 _ (mem_of_find? hk)
    · cases hk : Keyed.find? e.1 old with
      | none => simp [hk] at hi
      | some c => exact List.mem_flatMap.2 ⟨_, mem_of_find? hk, by simpa [hk] using hi⟩
    · have hkeys := List.pairwise_map.1 h.ascending.nodup
      exact hkeys.imp_of_mem fun he he' hne => h.disjoint hn hu _ he _ he' hne

theorem rebuilt_placeFields (parent : Port) {es : List (String × Value)}
    (hes : ∀ e ∈ es, ∀ (p : Port) (s : Supply), s.Renews p.ids (place e.2 p s).2 (place e.2 p s).1.ids)
    (s : Supply) :
    Rebuilt parent.elements s (placeFields parent es s).2 (placeFields parent es s).1 := by
  induction es generalizing s with
  | nil => exact ⟨le_rfl, ascending_nil, by simp, by simp⟩
  | cons entry rest ih =>
    obtain ⟨key, v⟩ := entry
    have hplaced : s.Renews ((Keyed.find? key parent.elements).elim [] ids) (placedFor parent key v s).2
        (placedFor parent key v s).1.ids := by
      refine (renews_elementFor parent key v.dataType s).trans ?_
      have hv := hes _ List.mem_cons_self (elementFor parent key v.dataType s).1.bump
        (elementFor parent key v.dataType s).2
      rwa [ids_bump] at hv
    exact (ih (fun e he => hes e (List.mem_cons_of_mem _ he)) _).insert hplaced

/-- Storing a value keeps or drops identifiers, and draws those of new element ports. -/
theorem renews_place (v : Value) (p : Port) (s : Supply) :
    s.Renews p.ids (place v p s).2 (place v p s).1.ids := by
  induction v using Value.induction generalizing p s with
  | step v ih =>
    cases hc : p.isContainer with
    | false =>
      rw [place_scalar hc, ids_eq p, ids_eq]
      exact Supply.Renews.refl s _
    | true =>
      rw [place_container hc, ids_eq p, ids_eq]
      have h := (rebuilt_placeFields p ih s).renews_all.append [p.id] []
      simpa using h

end Port

end Dataflow
