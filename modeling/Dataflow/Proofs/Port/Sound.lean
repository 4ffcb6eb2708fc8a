import Dataflow.Proofs.Port.Edit

/-!
# What every port keeps to

`Port.Sound p` says that a port holds a value of its type, and that the element ports of a container
mirror it: they have the keys of the value and hold its elements. An emptied container may keep element
ports, which are empty as well.

* `Port.sound_place`, `Port.sound_write`, `Port.sound_writeAt`, `Port.sound_clear` and
  `Port.Edit.sound_exchange` preserve this for a port and everything below it;
* `Value.fits_convert`: a converted value has the type that was asked for.
-/

namespace Dataflow

open Keyed

/-! ### Values of a type -/

/-- Whether a port of type `t` may hold a value: `null` fits every type, and every value fits `null`. -/
def Value.Fits (v : Value) (t : DataType) : Prop :=
  v = .null ∨ t = .null ∨ v.dataType = t

theorem Value.fits_null (t : DataType) : Value.null.Fits t := Or.inl rfl

theorem Value.fits_dataType (v : Value) : v.Fits v.dataType := Or.inr (Or.inr rfl)

theorem Value.dataType_truncate {x : Binary64} {w : Value} (h : truncate x = .ok w) : w.dataType = .integer := by
  unfold truncate at h
  split at h
  · cases h
  · split at h
    · cases h; rfl
    · cases h

theorem Value.dataType_convertText {s : String} {t : DataType} {w : Value} (h : convertText s t = .ok w)
    (ht : t ≠ .null) : w.dataType = t := by
  cases t with
  | string => cases h; rfl
  | null => exact absurd rfl ht
  | number =>
    simp only [convertText, textToNumber] at h
    split at h
    · split_ifs at h; cases h; rfl
    · cases h
  | integer =>
    simp only [convertText, textToInteger] at h
    split at h
    · cases h; rfl
    · split at h
      · split_ifs at h; exact dataType_truncate h
      · cases h
  | boolean =>
    simp only [convertText, textToBoolean] at h
    split_ifs at h <;> cases h <;> rfl
  | array =>
    simp only [convertText, textToContainer] at h
    split at h
    · cases h
    · split_ifs at h with hv
      cases h; exact hv
  | object =>
    simp only [convertText, textToContainer] at h
    split at h
    · cases h
    · split_ifs at h with hv
      cases h; exact hv

theorem Value.dataType_convertContainer {v w : Value} {t : DataType} (h : convertContainer v t = .ok w)
    (ht : t ≠ .null) : w.dataType = t := by
  unfold convertContainer at h
  split_ifs at h with h1 h2
  · cases h
    exact (h1.resolve_right ht).symm
  · cases h
    exact h2.symm

theorem Value.dataType_convert {v w : Value} {t : DataType} (h : v.convert t = .ok w) (hv : v ≠ .null)
    (ht : t ≠ .null) : w.dataType = t := by
  cases v with
  | null => exact absurd rfl hv
  | string s => exact dataType_convertText h ht
  | number x =>
    cases t with
    | number =>
      obtain ⟨y, -, rfl⟩ := Except.map_eq_ok.1 h
      rfl
    | integer => exact dataType_truncate h
    | null => exact absurd rfl ht
    | boolean | string => cases h; rfl
    | array | object => cases h
  | integer i =>
    cases t with
    | null => exact absurd rfl ht
    | array | object => cases h
    | _ => cases h; rfl
  | boolean b =>
    cases t with
    | null => exact absurd rfl ht
    | array | object => cases h
    | _ => cases h; rfl
  | array items => exact dataType_convertContainer h ht
  | object fields => exact dataType_convertContainer h ht

theorem Value.fits_convert {v w : Value} {t : DataType} (h : v.convert t = .ok w) : w.Fits t := by
  by_cases hv : v = .null
  · subst hv
    cases h
    exact fits_null t
  · by_cases ht : t = .null
    · exact Or.inr (Or.inl ht)
    · exact Or.inr (Or.inr (dataType_convert h hv ht))

namespace Port

/-- What a port keeps to, given its element ports. -/
structure Sound (p : Port) : Prop where
  counted : p.lastRead ≤ p.version
  typed : p.data.Fits p.dataType
  bare : p.isContainer = false → p.elements = []
  ascending : Ascending p.elements
  numbered : p.dataType = .array → Numbered p.elements
  mirrors : p.isContainer = true → p.data ≠ .null →
    ∀ key, (Keyed.find? key p.elements).map data = Keyed.find? key p.data.elements
  emptied : p.data = .null → ∀ e ∈ p.elements, e.2.data = .null

theorem numbered_nil : Numbered [] := by simp [Numbered]

theorem Sound.nodup {p : Port} (h : p.Sound) : (keys p.elements).Nodup := h.ascending.nodup

theorem isContainer_iff {p : Port} : p.isContainer = true ↔ p.dataType = .array ∨ p.dataType = .object := by
  unfold isContainer
  cases p.dataType <;> simp [DataType.isContainer]

theorem Sound.isContainer {p : Port} (h : p.Sound) {e : String × Port} (he : e ∈ p.elements) :
    p.isContainer = true := by
  by_contra hc
  rw [h.bare (by simpa using hc)] at he
  exact List.not_mem_nil he

theorem every_sound_bare {p : Port} (hc : p.lastRead ≤ p.version) (hf : p.data.Fits p.dataType)
    (hes : p.elements = []) (ht : p.isContainer = true → p.data = .null) : Every Sound p := by
  refine every_iff.2 ⟨⟨hc, hf, fun _ => hes, by simp [hes], fun _ => hes ▸ numbered_nil, ?_, by simp [hes]⟩,
    by simp [hes]⟩
  exact fun hp hd => absurd (ht hp) hd

theorem sound_new (id : PortId) (name : String) (direction : Direction) (kind : PortKind) (t : DataType) :
    Every Sound (new id name direction kind t) :=
  every_sound_bare le_rfl (Value.fits_null t) rfl fun _ => rfl

/-! ### Storing -/

theorem nodup_keys_numbered (items : List Value) (start : Nat) :
    (keys (Value.numbered start items)).Nodup := by
  induction items generalizing start with
  | nil => simp [Value.numbered]
  | cons v vs ih =>
    rw [Value.numbered, keys_cons, List.nodup_cons]
    refine ⟨fun hm => ?_, ih _⟩
    obtain ⟨i, -, hi⟩ := Value.mem_keys_numbered.1 hm
    have := indexKey_injective hi
    omega

theorem numbered_placeFields (p : Port) (items : List Value) (s : Supply) :
    Numbered (placeFields p (Value.numbered 0 items) s).1 := by
  have hperm : (keys (placeFields p (Value.numbered 0 items) s).1).Perm (keys (Value.numbered 0 items)) :=
    (List.perm_ext_iff_of_nodup (ascending_placeFields p _ s).nodup (nodup_keys_numbered items 0)).2
      fun _ => mem_keys_placeFields
  have hlen : (placeFields p (Value.numbered 0 items) s).1.length = items.length := by
    have := hperm.length_eq
    rwa [keys, List.length_map, keys, List.length_map, Value.length_numbered] at this
  intro key
  rw [mem_keys_placeFields, Value.mem_keys_numbered, hlen]
  simp only [Nat.zero_add]

theorem elementFor_elements_sound {parent : Port} (h : ∀ e ∈ parent.elements, Every Sound e.2)
    (key : String) (t : DataType) (s : Supply) :
    let q := (elementFor parent key t s).1
    q.dataType = t ∧ q.lastRead ≤ q.version ∧ (q.isContainer = false → q.elements = []) ∧
      ∀ e ∈ q.elements, Every Sound e.2 := by
  refine ⟨elementFor_dataType .., elementFor_counted (fun e he => (h e he).self.counted) .., ?_, fun e he => ?_⟩
  · exact elementFor_bare fun e he => (h e he).self.bare
  · obtain ⟨c, hc, he⟩ := mem_elements_elementFor he
    exact (h _ hc).element he

/-- Storing a value of the type of a port makes the port and everything below it sound. -/
theorem sound_place {v : Value} {p : Port} (hf : v.Fits p.dataType) (hc : p.lastRead ≤ p.version)
    (hbare : p.isContainer = false → p.elements = []) (hes : ∀ e ∈ p.elements, Every Sound e.2)
    (s : Supply) : Every Sound (place v p s).1 := by
  induction v using Value.induction generalizing p s with
  | step v ih =>
    cases hp : p.isContainer with
    | false =>
      rw [place_scalar hp]
      refine every_sound_bare hc hf (hbare hp) fun ht => ?_
      exact absurd ht (by simpa [Port.isContainer] using hp)
    | true =>
      rw [place_container hp]
      refine every_iff.2 ⟨⟨hc, hf, fun h => ?_, ascending_placeFields p _ s, fun ht => ?_, fun _ _ => ?_,
        fun hd => ?_⟩, fun e he => ?_⟩
      · exact absurd hp (by simpa [Port.isContainer] using h)
      · replace ht : p.dataType = .array := ht
        rcases hf with rfl | hn | hv
        · exact numbered_nil
        · rw [hn] at ht; cases ht
        · rw [ht] at hv
          cases v <;> first | exact numbered_placeFields p _ s | cases hv
      · exact find?_placeFields p v.elements s
      · replace hd : v = .null := hd
        subst hd
        simp
      · obtain ⟨w, s', hw, heq⟩ := mem_placeFields he
        obtain ⟨ht, hcount, hb, hsub⟩ := elementFor_elements_sound hes e.1 w.dataType s'
        rw [heq]
        have hfits : w.Fits (elementFor p e.1 w.dataType s').1.bump.dataType := by
          rw [show (elementFor p e.1 w.dataType s').1.bump.dataType = w.dataType from ht]
          exact w.fits_dataType
        exact ih _ hw hfits (Nat.le_succ_of_le hcount) hb hsub _

theorem sound_write {v w : Value} {p p' : Port} {s s' : Supply} (h : p.write v s = .ok (w, p', s'))
    (hp : Every Sound p) : Every Sound p' := by
  have hcount : p.lastRead ≤ p.version + 1 := Nat.le_succ_of_le hp.self.counted
  rcases write_eq_ok h with ⟨-, -, rfl, -⟩ | ⟨-, hw, rfl, -⟩
  · exact every_sound_bare hcount (Value.fits_null _) rfl fun _ => rfl
  · exact sound_place (p := p.bump) (Value.fits_convert hw) hcount hp.self.bare
      (fun e he => hp.element he) s

/-! ### Writing to an element port -/

theorem keys_exchange {key : String} {c c' : Port} {before after : List (String × Port)} :
    keys (before ++ (key, c') :: after) = keys (before ++ (key, c) :: after) := by
  simp [keys]

theorem ascending_exchange {key : String} {c c' : Port} {before after : List (String × Port)}
    (h : Ascending (before ++ (key, c) :: after)) : Ascending (before ++ (key, c') :: after) := by
  unfold Ascending at h ⊢
  rwa [keys_exchange (c := c)]

theorem find?_exchange {key : String} {c c' : Port} {before after : List (String × Port)}
    (hn : (keys (before ++ (key, c) :: after)).Nodup) (k : String) :
    Keyed.find? k (before ++ (key, c') :: after) =
      if k = key then some c' else Keyed.find? k (before ++ (key, c) :: after) := by
  induction before with
  | nil =>
    by_cases h : key = k
    · subst h; simp
    · simp [h, Ne.symm h]
  | cons entry rest ih =>
    obtain ⟨k₁, b⟩ := entry
    obtain ⟨hk₁, hrest⟩ := List.nodup_cons.1 hn
    rw [List.cons_append, List.cons_append, find?_cons, find?_cons, ih hrest]
    by_cases h : k₁ = k
    · subst h
      have hne : k₁ ≠ key := fun e => hk₁ (e ▸ mem_keys_of_mem (List.mem_append_right _ List.mem_cons_self))
      simp [hne]
    · simp [h]

/-- After an exchange, a key has the port that it had before, or the new one in place of it. -/
theorem find?_exchanged {key k : String} {x c : Port} (c' : Port) {before after : List (String × Port)}
    (hn : (keys (before ++ (key, c) :: after)).Nodup) (hx : Keyed.find? k (before ++ (key, c) :: after) = some x) :
    (x = c ∧ Keyed.find? k (before ++ (key, c') :: after) = some c') ∨
      Keyed.find? k (before ++ (key, c') :: after) = some x := by
  rw [find?_exchange hn]
  by_cases hk : k = key
  · subst hk
    rw [find?_of_mem hn (List.mem_append_right _ List.mem_cons_self)] at hx
    exact Or.inl ⟨(Option.some.inj hx).symm, if_pos rfl⟩
  · exact Or.inr ((if_neg hk).trans hx)

theorem numbered_exchange {key : String} {c c' : Port} {before after : List (String × Port)}
    (h : Numbered (before ++ (key, c) :: after)) : Numbered (before ++ (key, c') :: after) := by
  intro k
  rw [keys_exchange (c := c), h k]
  simp only [List.length_append, List.length_cons]

theorem fold_data_ne_null {p : Port} (h : p.isContainer = true) : (fold p).data ≠ .null := by
  unfold fold
  rcases isContainer_iff.1 h with h | h <;> rw [h] <;> exact fun e => Value.noConfusion e

/-- Folding makes a container mirror its element ports again. -/
theorem sound_fold {p : Port} (hp : p.isContainer = true) (hc : p.lastRead ≤ p.version)
    (ha : Ascending p.elements) (hn : p.dataType = .array → Numbered p.elements) : (fold p).Sound where
  counted := by
    unfold fold
    split
    · exact Nat.le_succ_of_le hc
    · exact Nat.le_succ_of_le hc
    · exact hc
  typed := by
    unfold fold
    rcases isContainer_iff.1 hp with h | h <;> rw [h] <;> exact Or.inr (Or.inr rfl)
  bare h := absurd hp (by simpa [Port.isContainer] using h)
  ascending := by rw [fold_elements]; exact ha
  numbered h := by rw [fold_elements]; exact hn (by rwa [fold_dataType] at h)
  mirrors _ _ key := by
    rw [fold_elements]
    unfold fold
    rcases isContainer_iff.1 hp with h | h <;> rw [h]
    · exact (find?_elements_foldedItems ha.nodup (hn h) key).symm
    · exact (find?_elements_foldedFields _ key).symm
  emptied h := absurd h (fold_data_ne_null hp)

theorem Edit.sound_fold {id : PortId} {R : Port → Port → Prop} {p q : Port} (h : Edit fold id R p q)
    (hR : ∀ c c', R c c' → Every Sound c → Every Sound c') (hp : Every Sound p) : Every Sound q := by
  induction h with
  | here _ h => exact hR _ _ h hp
  | @inside p c c' before after key _ hes _ _ ih =>
    have hmem : (key, c) ∈ p.elements := by rw [hes]; exact List.mem_append_right _ List.mem_cons_self
    have hs := hp.self
    refine every_iff.2 ⟨Port.sound_fold (hs.isContainer hmem) hs.counted ?_ fun ht => ?_, fun e he => ?_⟩
    · exact ascending_exchange (hes ▸ hs.ascending)
    · exact numbered_exchange (hes ▸ hs.numbered ht)
    · rw [fold_elements] at he
      rcases List.mem_append.1 he with he | he
      · exact hp.element (hes ▸ List.mem_append_left _ he)
      · rcases List.mem_cons.1 he with rfl | he
        · exact ih (hp.element hmem)
        · exact hp.element (hes ▸ List.mem_append_right _ (List.mem_cons_of_mem _ he))

theorem sound_writeAt {id : PortId} {v w : Value} {p p' : Port} {s s' : Supply}
    (h : p.writeAt id v s = some (.ok (w, p', s'))) (hp : Every Sound p) : Every Sound p' :=
  (edit_of_writeAt h).sound_fold (fun _ _ hw hc => sound_write hw hc) hp

/-! ### Exchanging and clearing -/

theorem Edit.sound_exchange {id : PortId} {R : Port → Port → Prop} {p q : Port}
    (h : Edit (fun r => r) id R p q)
    (hR : ∀ c c', R c c' → Every Sound c → Every Sound c' ∧ c'.data = c.data) (hp : Every Sound p) :
    Every Sound q ∧ q.data = p.data := by
  induction h with
  | here _ h => exact hR _ _ h hp
  | @inside p c c' before after key _ hes _ _ ih =>
    have hmem : (key, c) ∈ p.elements := by rw [hes]; exact List.mem_append_right _ List.mem_cons_self
    have hs := hp.self
    obtain ⟨hc', hdata⟩ := ih (hp.element hmem)
    refine ⟨every_iff.2 ⟨⟨hs.counted, hs.typed, fun hb => ?_, ?_, fun ht => ?_, fun hb hd k => ?_,
      fun hd e he => ?_⟩, fun e he => ?_⟩, rfl⟩
    · exact absurd (hs.isContainer hmem) (by simpa [Port.isContainer] using hb)
    · exact ascending_exchange (hes ▸ hs.ascending)
    · exact numbered_exchange (hes ▸ hs.numbered ht)
    · have hn := hs.nodup
      rw [← hs.mirrors hb hd k]
      simp only [hes] at hn ⊢
      rw [find?_exchange hn k]
      split_ifs with hk
      · subst hk
        rw [find?_of_mem hn (List.mem_append_right _ List.mem_cons_self)]
        exact congrArg some hdata
      · rfl
    · rcases List.mem_append.1 he with he | he
      · exact hs.emptied hd e (hes ▸ List.mem_append_left _ he)
      · rcases List.mem_cons.1 he with rfl | he
        · exact hdata.trans (hs.emptied hd _ hmem)
        · exact hs.emptied hd e (hes ▸ List.mem_append_right _ (List.mem_cons_of_mem _ he))
    · rcases List.mem_append.1 he with he | he
      · exact hp.element (hes ▸ List.mem_append_left _ he)
      · rcases List.mem_cons.1 he with rfl | he
        · exact hc'
        · exact hp.element (hes ▸ List.mem_append_right _ (List.mem_cons_of_mem _ he))

theorem sound_read {p : Port} (hp : Every Sound p) : Every Sound p.read.2 := by
  obtain ⟨hs, hes⟩ := every_iff.1 hp
  exact every_iff.2 ⟨⟨le_rfl, hs.typed, hs.bare, hs.ascending, hs.numbered, hs.mirrors, hs.emptied⟩, hes⟩

theorem sound_clear {p : Port} (hp : Every Sound p) : Every Sound p.clear := by
  intro q hq
  rw [flatten_clear] at hq
  obtain ⟨r, hr, rfl⟩ := List.mem_map.1 hq
  have hs := hp r hr
  refine ⟨?_, ?_, fun hb => ?_, ?_, fun ht key => ?_, fun _ hd => ?_, fun _ e he => ?_⟩
  · rw [clear_lastRead, clear_version]
  · rw [clear_data]; exact Value.fits_null _
  · rw [clear_elements, hs.bare (by rwa [isContainer, clear_dataType] at hb)]; rfl
  · rw [clear_elements, ascending_mapValues]; exact hs.ascending
  · have hnum := hs.numbered (by rwa [clear_dataType] at ht) key
    rw [clear_elements, keys_mapValues, hnum, mapValues, List.length_map]
  · exact absurd (clear_data r) hd
  · rw [clear_elements] at he
    obtain ⟨e, -, rfl⟩ := List.mem_map.1 he
    exact clear_data _

end Port

end Dataflow
