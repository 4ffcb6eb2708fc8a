import Dataflow.Proofs.Port.Sound

/-!
# Sides, types and counts

* `Port.Legal side p` says that a port is on a side of its node, holds a value of its type, and was not read more
  often than it was written. Unlike `Port.Sound`, this survives a change of the type of an element port, which its
  container does not notice;
* `Port.legal_write`, `Port.legal_writeAt`, `Port.legal_read`, `Port.legal_clear` and `Port.legal_setDataType`
  preserve it for a whole tree;
* `Port.unread_write`: after a write, the port and everything below it are unread;
* `Port.renews_setDataType`: what a change of type does to the identifiers.
-/

namespace Dataflow.Port

open Keyed

/-- A port on a side of its node, which holds a value of its type. -/
structure Legal (side : Direction) (p : Port) : Prop where
  direction : p.direction = side
  typed : p.data.Fits p.dataType
  counted : p.lastRead ≤ p.version
  bare : p.isContainer = false → p.elements = []

section Legal

variable {side : Direction} {p : Port} {v w : Value} {s s' : Supply}

theorem legal_new (id : PortId) (name : String) (side : Direction) (kind : PortKind) (t : DataType) :
    Every (Legal side) (new id name side kind t) :=
  every_iff.2 ⟨⟨rfl, Value.fits_null t, le_rfl, fun _ => rfl⟩, fun _ he => absurd he List.not_mem_nil⟩

theorem legal_read (hp : Every (Legal side) p) : Every (Legal side) p.read.2 :=
  every_iff.2 ⟨⟨hp.self.direction, hp.self.typed, le_rfl, hp.self.bare⟩, fun _ he => hp.element he⟩

theorem legal_clear (hp : Every (Legal side) p) : Every (Legal side) p.clear := by
  intro q hq
  rw [flatten_clear] at hq
  obtain ⟨r, hr, rfl⟩ := List.mem_map.1 hq
  have hlegal := hp r hr
  refine ⟨?_, ?_, ?_, fun hc => ?_⟩
  · rw [clear_direction]; exact hlegal.direction
  · rw [clear_data]; exact Value.fits_null _
  · rw [clear_lastRead, clear_version]
  · rw [isContainer, clear_dataType] at hc
    rw [clear_elements, hlegal.bare hc]
    rfl

theorem legal_elementFor {parent : Port} (hd : parent.direction = side)
    (hes : ∀ e ∈ parent.elements, Every (Legal side) e.2) (key : String) (t : DataType) (s : Supply) :
    let q := (elementFor parent key t s).1
    q.direction = side ∧ q.dataType = t ∧ q.lastRead ≤ q.version ∧ (q.isContainer = false → q.elements = []) ∧
      ∀ e ∈ q.elements, Every (Legal side) e.2 := by
  refine ⟨?_, elementFor_dataType .., elementFor_counted (fun e he => (hes e he).self.counted) .., ?_, fun e he => ?_⟩
  · cases h : Keyed.find? key parent.elements with
    | none => rw [elementFor_of_none h]; exact hd
    | some c => rw [elementFor_of_some h]; exact (hes _ (mem_of_find? h)).self.direction
  · exact elementFor_bare fun e he => (hes e he).self.bare
  · obtain ⟨c, hc, he⟩ := mem_elements_elementFor he
    exact (hes _ hc).element he

/-- Storing a value of the type of a port makes the port and everything below it legal. -/
theorem legal_place (hd : p.direction = side) (hf : v.Fits p.dataType) (hc : p.lastRead ≤ p.version)
    (hbare : p.isContainer = false → p.elements = []) (hes : ∀ e ∈ p.elements, Every (Legal side) e.2)
    (s : Supply) : Every (Legal side) (place v p s).1 := by
  induction v using Value.induction generalizing p s with
  | step v ih =>
    cases hp : p.isContainer with
    | false =>
      rw [place_scalar hp]
      exact every_iff.2 ⟨⟨hd, hf, hc, hbare⟩, hes⟩
    | true =>
      rw [place_container hp]
      refine every_iff.2 ⟨⟨hd, hf, hc, fun h => ?_⟩, fun e he => ?_⟩
      · exact absurd hp (by simpa [Port.isContainer] using h)
      obtain ⟨w, s', hw, heq⟩ := mem_placeFields he
      obtain ⟨hdir, ht, hcount, hb, hsub⟩ := legal_elementFor hd hes e.1 w.dataType s'
      have hfits : w.Fits (elementFor p e.1 w.dataType s').1.bump.dataType := by
        rw [show (elementFor p e.1 w.dataType s').1.bump.dataType = w.dataType from ht]
        exact Value.fits_dataType w
      rw [heq]
      exact ih _ hw (p := (elementFor p e.1 w.dataType s').1.bump) hdir hfits (Nat.le_succ_of_le hcount) hb hsub _

theorem legal_write {p' : Port} (h : p.write v s = .ok (w, p', s')) (hp : Every (Legal side) p) :
    Every (Legal side) p' := by
  have hcount : p.lastRead ≤ p.version + 1 := Nat.le_succ_of_le hp.self.counted
  rcases write_eq_ok h with ⟨-, -, rfl, -⟩ | ⟨-, hw, rfl, -⟩
  · exact every_iff.2 ⟨⟨hp.self.direction, Value.fits_null _, hcount, fun _ => rfl⟩,
      fun e he => absurd he List.not_mem_nil⟩
  · exact legal_place (p := p.bump) hp.self.direction (Value.fits_convert hw) hcount hp.self.bare
      (fun e he => hp.element he) s

/-- Storing a value counts as a write for everything below a port. -/
theorem unread_place (hnew : p.hasNewData = true)
    (hbare : p.isContainer = false → p.elements = []) (hd : p.direction = side)
    (hes : ∀ e ∈ p.elements, Every (Legal side) e.2) (s : Supply) : Every (fun q => q.hasNewData = true) (place v p s).1 := by
  induction v using Value.induction generalizing p s with
  | step v ih =>
    cases hp : p.isContainer with
    | false =>
      rw [place_scalar hp]
      refine every_iff.2 ⟨hnew, fun e he => ?_⟩
      rw [show p.elements = [] from hbare hp] at he
      exact absurd he List.not_mem_nil
    | true =>
      rw [place_container hp]
      refine every_iff.2 ⟨hnew, fun e he => ?_⟩
      obtain ⟨w, s', hw, heq⟩ := mem_placeFields he
      obtain ⟨hdir, -, hcount, hb, hsub⟩ := legal_elementFor hd hes e.1 w.dataType s'
      have hbumped : (elementFor p e.1 w.dataType s').1.bump.hasNewData = true :=
        decide_eq_true (Nat.lt_succ_of_le hcount)
      rw [heq]
      exact ih _ hw hbumped hb hdir hsub _

theorem unread_write {p' : Port} (h : p.write v s = .ok (w, p', s'))
    (hp : Every (Legal side) p) : Every (fun q => q.hasNewData = true) p' := by
  have hnew : p.lastRead < p.version + 1 := Nat.lt_succ_of_le hp.self.counted
  rcases write_eq_ok h with ⟨-, -, rfl, -⟩ | ⟨-, -, rfl, -⟩
  · exact every_iff.2 ⟨decide_eq_true hnew, fun e he => absurd he List.not_mem_nil⟩
  · exact unread_place (p := p.bump) (decide_eq_true hnew) hp.self.bare hp.self.direction
      (fun e he => hp.element he) s

/-- A container that has element ports stays legal when it is rebuilt from others. -/
theorem legal_fold (hp : p.Legal side) (hne : p.elements ≠ []) (es : List (String × Port)) :
    (fold { p with elements := es }).Legal side := by
  refine ⟨?_, ?_, ?_, fun hc => ?_⟩
  · rw [fold_direction]; exact hp.direction
  · unfold fold
    split <;> rename_i ht
    · exact Or.inr (Or.inr ht.symm)
    · exact Or.inr (Or.inr ht.symm)
    · exact hp.typed
  · unfold fold
    split
    · exact Nat.le_succ_of_le hp.counted
    · exact Nat.le_succ_of_le hp.counted
    · exact hp.counted
  · rw [isContainer, fold_dataType] at hc
    exact absurd (hp.bare hc) hne

theorem Edit.every {up : Port → Port} {id : PortId} {R : Port → Port → Prop} {P : Port → Prop} {p q : Port}
    (h : Edit up id R p q) (hes : ∀ r, (up r).elements = r.elements)
    (hup : ∀ r es, P r → r.elements ≠ [] → P (up { r with elements := es })) (hR : ∀ c c', R c c' → Every P c → Every P c')
    (hp : Every P p) : Every P q := by
  induction h with
  | here _ h => exact hR _ _ h hp
  | @inside p c c' before after key _ hsplit _ _ ih =>
    have hmem : (key, c) ∈ p.elements := by rw [hsplit]; exact List.mem_append_right _ List.mem_cons_self
    refine every_iff.2 ⟨hup p _ hp.self (List.ne_nil_of_mem hmem), fun e he => ?_⟩
    rw [hes] at he
    rcases List.mem_append.1 he with he | he
    · exact hp.element (hsplit ▸ List.mem_append_left _ he)
    · rcases List.mem_cons.1 he with rfl | he
      · exact ih (hp.element hmem)
      · exact hp.element (hsplit ▸ List.mem_append_right _ (List.mem_cons_of_mem _ he))

theorem legal_writeAt {id : PortId} {p' : Port} (h : p.writeAt id v s = some (.ok (w, p', s')))
    (hp : Every (Legal side) p) : Every (Legal side) p' :=
  (edit_of_writeAt h).every fold_elements (fun _ es hr hne => legal_fold hr hne es) (fun _ _ hw hc => legal_write hw hc) hp

end Legal

/-! ### Changing the type -/

section SetDataType

variable (p : Port) (t : DataType) (s : Supply)

theorem setDataType_cases :
    p.setDataType t s = (p, s) ∨
      (∃ v es, es.Sublist p.elements ∧ (t.isContainer = false → es = []) ∧ p.data.convert t = .ok v ∧
        p.setDataType t s = place v { p with dataType := t, elements := es } s) ∨
      p.setDataType t s = (clear { p with dataType := t, elements := [] }, s) := by
  unfold setDataType
  split_ifs with ht hc
  · exact Or.inl rfl
  · dsimp only
    split
    · rename_i v hv
      exact Or.inr (Or.inl ⟨v, p.elements, List.Sublist.refl _, fun h => absurd hc (by simp [h]), hv, rfl⟩)
    · exact Or.inr (Or.inr rfl)
  · dsimp only
    split
    · rename_i v hv
      exact Or.inr (Or.inl ⟨v, [], List.nil_sublist _, fun _ => rfl, hv, rfl⟩)
    · exact Or.inr (Or.inr rfl)

theorem renews_setDataType : s.Renews p.ids (p.setDataType t s).2 (p.setDataType t s).1.ids := by
  have hsub : ∀ {es : List (String × Port)}, es.Sublist p.elements →
      ({ p with dataType := t, elements := es } : Port).ids.Sublist p.ids := by
    intro es hes
    rw [ids_eq p, ids_with]
    exact (List.Sublist.flatMap hes _).cons_cons _
  rcases setDataType_cases p t s with h | ⟨v, es, hes, -, -, h⟩ | h <;> rw [h]
  · exact Supply.Renews.refl s _
  · exact (Supply.Renews.of_sublist (hsub hes)).trans (renews_place v _ s)
  · rw [ids_clear]
    exact Supply.Renews.of_sublist (hsub (List.nil_sublist _))

theorem legal_setDataType {side : Direction} (hp : Every (Legal side) p) :
    Every (Legal side) (p.setDataType t s).1 := by
  rcases setDataType_cases p t s with h | ⟨v, es, hes, hbare, hv, h⟩ | h <;> rw [h]
  · exact hp
  · exact legal_place (p := { p with dataType := t, elements := es }) hp.self.direction (Value.fits_convert hv)
      hp.self.counted hbare (fun e he => hp.element (hes.subset he)) s
  · refine every_iff.2 ⟨⟨?_, ?_, ?_, fun _ => ?_⟩, fun e he => ?_⟩
    · rw [clear_direction]; exact hp.self.direction
    · rw [clear_data]; exact Value.fits_null _
    · rw [clear_lastRead, clear_version]
    · rw [clear_elements]; rfl
    · rw [clear_elements] at he
      exact absurd he List.not_mem_nil

end SetDataType

end Dataflow.Port
