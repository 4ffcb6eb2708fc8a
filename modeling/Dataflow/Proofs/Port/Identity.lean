import Dataflow.Proofs.Port.Mirror
import Dataflow.Proofs.Port.Paths

/-!
# What a container write keeps and what it forgets

After a write, the element ports of a container are those of its value. A key that was there before keeps its port, so
that its identifier stays; everything else about the tree depends on the value alone.

* `Port.Labelled` says that element ports are named for their keys and are on the side of their container;
* `Port.shape` is a port without identifiers and counts; `Port.shape_write` says that after a write it has no history;
* `Port.origin_place`: an element port has the identifier that was at its path, or a new one;
* `Port.Carried` says that a path is there before and after a write, with containers on the way;
* `Port.Retains` says which identifiers a write keeps, draws and drops;
* `Port.identity_write`: all this for a port of a tree after any operations.
-/

namespace Dataflow.Port

open Keyed

/-! ### Names, sides and kinds -/

/-- Element ports are named for their keys, and take side and kind from their container. -/
def Labelled (p : Port) : Prop :=
  ∀ e ∈ p.elements, e.2.name = e.1 ∧ e.2.direction = p.direction ∧ e.2.kind = p.kind

section Labels

variable {p p' : Port} {v w : Value} {s s' : Supply}

@[simp] theorem place_name (v : Value) (p : Port) (s : Supply) : (place v p s).1.name = p.name := by
  rw [place_eq]; split <;> rfl

@[simp] theorem place_kind (v : Value) (p : Port) (s : Supply) : (place v p s).1.kind = p.kind := by
  rw [place_eq]; split <;> rfl

@[simp] theorem fold_name (p : Port) : (fold p).name = p.name := by unfold fold; split <;> rfl

@[simp] theorem fold_kind (p : Port) : (fold p).kind = p.kind := by unfold fold; split <;> rfl

@[simp] theorem clear_name (p : Port) : p.clear.name = p.name := by rw [clear_eq]

@[simp] theorem clear_kind (p : Port) : p.clear.kind = p.kind := by rw [clear_eq]

theorem elementFor_label (hp : p.Labelled) (key : String) (t : DataType) (s : Supply) :
    let q := (elementFor p key t s).1
    q.name = key ∧ q.direction = p.direction ∧ q.kind = p.kind := by
  cases h : Keyed.find? key p.elements with
  | none => rw [elementFor_of_none h]; exact ⟨rfl, rfl, rfl⟩
  | some c => rw [elementFor_of_some h]; exact hp _ (mem_of_find? h)

/-- The element port for a value takes its labels from the container, and so do the ports below it. -/
theorem labelled_elementFor (hes : ∀ e ∈ p.elements, Every Labelled e.2) (key : String) (t : DataType) (s : Supply) :
    (elementFor p key t s).1.Labelled ∧ ∀ e ∈ (elementFor p key t s).1.elements, Every Labelled e.2 := by
  cases h : Keyed.find? key p.elements with
  | none =>
    rw [elementFor_of_none h]
    exact ⟨fun e he => absurd he List.not_mem_nil, fun e he => absurd he List.not_mem_nil⟩
  | some c =>
    have hc := hes _ (mem_of_find? h)
    rw [elementFor_of_some h]
    dsimp only
    split_ifs
    · exact ⟨fun e he => absurd he List.not_mem_nil, fun e he => absurd he List.not_mem_nil⟩
    · exact ⟨hc.self, fun e he => hc.element he⟩

theorem labelled_place (hp : p.Labelled) (hes : ∀ e ∈ p.elements, Every Labelled e.2) (v : Value) (s : Supply) :
    Every Labelled (place v p s).1 := by
  induction v using Value.induction generalizing p s with
  | step v ih =>
    cases hc : p.isContainer with
    | false =>
      rw [place_scalar hc]
      exact every_iff.2 ⟨hp, hes⟩
    | true =>
      rw [place_container hc]
      refine every_iff.2 ⟨fun e he => ?_, fun e he => ?_⟩
      · obtain ⟨w, s', -, heq⟩ := mem_placeFields he
        rw [heq, placedFor]
        dsimp only
        rw [place_name, place_direction, place_kind]
        exact elementFor_label hp e.1 w.dataType s'
      · obtain ⟨w, s', hw, heq⟩ := mem_placeFields he
        obtain ⟨hself, hbelow⟩ := labelled_elementFor hes e.1 w.dataType s'
        rw [heq]
        exact ih _ hw (p := (elementFor p e.1 w.dataType s').1.bump) hself hbelow _

theorem labelled_bare (h : p.elements = []) : Every Labelled p := by
  refine every_iff.2 ⟨fun e he => ?_, fun e he => ?_⟩ <;> rw [h] at he <;> exact absurd he List.not_mem_nil

theorem labelled_write (h : p.write v s = .ok (w, p', s')) (hp : Every Labelled p) : Every Labelled p' := by
  rcases write_eq_ok h with ⟨-, -, rfl, -⟩ | ⟨-, -, rfl, -⟩
  · exact labelled_bare rfl
  · exact labelled_place (p := p.bump) hp.self (fun e he => hp.element he) w s

theorem write_label (h : p.write v s = .ok (w, p', s')) :
    p'.name = p.name ∧ p'.direction = p.direction ∧ p'.kind = p.kind := by
  rcases write_eq_ok h with ⟨-, -, rfl, -⟩ | ⟨-, -, rfl, -⟩
  · exact ⟨rfl, rfl, rfl⟩
  · rw [place_name, place_direction, place_kind]
    exact ⟨rfl, rfl, rfl⟩

/-- A port that is changed keeps its labels, and so does every container above it. -/
theorem Edit.labelled {id : PortId} {R : Port → Port → Prop} {p q : Port} (h : Edit fold id R p q)
    (hR : ∀ c c', R c c' → Every Labelled c →
      Every Labelled c' ∧ c'.name = c.name ∧ c'.direction = c.direction ∧ c'.kind = c.kind)
    (hp : Every Labelled p) :
    Every Labelled q ∧ q.name = p.name ∧ q.direction = p.direction ∧ q.kind = p.kind := by
  induction h with
  | here _ h => exact hR _ _ h hp
  | @inside p c c' before after key _ hes _ _ ih =>
    have hmem : (key, c) ∈ p.elements := by rw [hes]; exact List.mem_append_right _ List.mem_cons_self
    obtain ⟨hc', hname, hdirection, hkind⟩ := ih (hp.element hmem)
    have hothers : ∀ e ∈ before ++ (key, c') :: after, e = (key, c') ∨ e ∈ p.elements := fun e he => by
      rw [hes]
      simp only [List.mem_append, List.mem_cons] at he ⊢
      tauto
    refine ⟨every_iff.2 ⟨fun e he => ?_, fun e he => ?_⟩, fold_name _, fold_direction _, fold_kind _⟩
    · rw [fold_elements] at he
      rw [fold_direction, fold_kind]
      rcases hothers e he with rfl | he
      · rw [hname, hdirection, hkind]
        exact hp.self _ hmem
      · exact hp.self e he
    · rw [fold_elements] at he
      rcases hothers e he with rfl | he
      · exact hc'
      · exact hp.element he

theorem labelled_clear (hp : Every Labelled p) : Every Labelled p.clear := by
  intro q hq
  rw [flatten_clear] at hq
  obtain ⟨r, hr, rfl⟩ := List.mem_map.1 hq
  intro e he
  rw [clear_elements] at he
  obtain ⟨old, hold, rfl⟩ := List.mem_map.1 he
  rw [clear_name, clear_direction, clear_kind, clear_direction, clear_kind]
  exact hp r hr old hold

theorem labelled_setDataType (t : DataType) (s : Supply) (hp : Every Labelled p) :
    Every Labelled (p.setDataType t s).1 := by
  rcases setDataType_cases p t s with h | ⟨v, es, hes, -, -, h⟩ | h <;> rw [h]
  · exact hp
  · exact labelled_place (p := { p with dataType := t, elements := es }) (fun e he => hp.self e (hes.subset he))
      (fun e he => hp.element (hes.subset he)) v s
  · exact labelled_clear (labelled_bare rfl)

theorem labelled_operate (operation : Operation) (s : Supply) (hp : Every Labelled p) :
    Every Labelled (operate operation (p, s)).1 := by
  refine operate_cases (P := fun state => Every Labelled state.1) hp (fun h => labelled_write h hp) (fun h => ?_) ?_
    (labelled_clear hp) (fun t => labelled_setDataType t s hp) operation
  · exact ((edit_of_writeAt h).labelled (fun c c' hw hc => ⟨labelled_write hw hc, write_label hw⟩) hp).1
  · exact every_iff.2 ⟨hp.self, fun e he => hp.element he⟩

theorem labelled_operateAll (operations : List Operation) {p : Port} (s : Supply) (hp : Every Labelled p) :
    Every Labelled (operateAll operations (p, s)).1 := by
  induction operations generalizing p s with
  | nil => exact hp
  | cons operation rest ih => exact ih (operate operation (p, s)).2 (labelled_operate operation s hp)

end Labels

/-! ### The shape of a tree -/

mutual
/-- A port without identifiers and counts: names, types and values, here and below. -/
def shape : Port → Port
  | ⟨_, name, direction, kind, dataType, data, _, _, elements⟩ =>
    ⟨Id.nil, name, direction, kind, dataType, data, 0, 0, shapeAll elements⟩
termination_by structural p => p

/-- The shapes of element ports. -/
def shapeAll : List (String × Port) → List (String × Port)
  | [] => []
  | (key, p) :: rest => (key, shape p) :: shapeAll rest
termination_by structural ps => ps
end

theorem shapeAll_eq (es : List (String × Port)) : shapeAll es = mapValues shape es := by
  induction es with
  | nil => rfl
  | cons entry rest ih => rw [shapeAll, ih]; rfl

theorem shape_eq (p : Port) :
    p.shape = { p with id := Id.nil, version := 0, lastRead := 0, elements := mapValues shape p.elements } := by
  obtain ⟨id, name, direction, kind, dataType, data, version, lastRead, elements⟩ := p
  rw [shape, shapeAll_eq]

/-- Two ports of one name, side, kind and type, whose element ports are labelled. They have none if they are no
containers, and may differ in everything else. -/
structure Alike (p q : Port) : Prop where
  name : p.name = q.name
  direction : p.direction = q.direction
  kind : p.kind = q.kind
  dataType : p.dataType = q.dataType
  bare : p.isContainer = false → p.elements = [] ∧ q.elements = []
  labelled : p.Labelled ∧ q.Labelled
  below : (∀ e ∈ p.elements, Every Labelled e.2 ∧ Every Sound e.2) ∧ ∀ e ∈ q.elements, Every Labelled e.2 ∧ Every Sound e.2

theorem Alike.isContainer {p q : Port} (h : Alike p q) : p.isContainer = q.isContainer :=
  congrArg DataType.isContainer h.dataType

/-- The element ports that two such ports have for a value are of the same kind again. -/
theorem Alike.elementFor {p q : Port} (h : Alike p q) (key : String) (t : DataType) (s s₂ : Supply) :
    Alike (elementFor p key t s).1.bump (elementFor q key t s₂).1.bump := by
  obtain ⟨hname, hdirection, hkind⟩ := elementFor_label h.labelled.1 key t s
  obtain ⟨hname₂, hdirection₂, hkind₂⟩ := elementFor_label h.labelled.2 key t s₂
  have hl := labelled_elementFor (fun e he => (h.below.1 e he).1) key t s
  have hl₂ := labelled_elementFor (fun e he => (h.below.2 e he).1) key t s₂
  obtain ⟨ht, -, hb, hs⟩ := elementFor_elements_sound (fun e he => (h.below.1 e he).2) key t s
  obtain ⟨ht₂, -, hb₂, hs₂⟩ := elementFor_elements_sound (fun e he => (h.below.2 e he).2) key t s₂
  exact {
    name := hname.trans hname₂.symm
    direction := hdirection.trans (h.direction.trans hdirection₂.symm)
    kind := hkind.trans (h.kind.trans hkind₂.symm)
    dataType := ht.trans ht₂.symm
    bare := fun hc => ⟨hb hc, hb₂ (by
      rw [Port.isContainer, ht₂]
      rwa [Port.isContainer, show (Port.elementFor p key t s).1.bump.dataType = t from ht] at hc)⟩
    labelled := ⟨hl.1, hl₂.1⟩
    below := ⟨fun e he => ⟨hl.2 e he, hs e he⟩, fun e he => ⟨hl₂.2 e he, hs₂ e he⟩⟩ }

/-- Storing a value leaves nothing of what was there before, but for identifiers and counts. -/
theorem shape_place {p q : Port} (h : Alike p q) (v : Value) (s s₂ : Supply) :
    (place v p s).1.shape = (place v q s₂).1.shape := by
  induction v using Value.induction generalizing p q s s₂ with
  | step v ih =>
    have hfields : ∀ es : List (String × Value), (∀ e ∈ es, e ∈ v.elements) → ∀ s s₂,
        mapValues shape (placeFields p es s).1 = mapValues shape (placeFields q es s₂).1 := by
      intro es hes
      induction es with
      | nil => exact fun _ _ => rfl
      | cons entry rest ihrest =>
        obtain ⟨key, w⟩ := entry
        intro s s₂
        have hw := ih (key, w) (hes _ List.mem_cons_self) (h.elementFor key w.dataType s s₂)
          (elementFor p key w.dataType s).2 (elementFor q key w.dataType s₂).2
        rw [placeFields_cons, placeFields_cons, mapValues_insert, mapValues_insert,
          ihrest fun e he => hes e (List.mem_cons_of_mem _ he)]
        exact congrArg (fun c => insert key c _) hw
    cases hc : p.isContainer with
    | false =>
      obtain ⟨hp, hq⟩ := h.bare hc
      rw [place_scalar hc, place_scalar (h.isContainer ▸ hc), shape_eq, shape_eq]
      simp only [h.name, h.direction, h.kind, h.dataType, hp, hq]
    | true =>
      rw [place_container hc, place_container (h.isContainer ▸ hc), shape_eq, shape_eq]
      simp only [h.name, h.direction, h.kind, h.dataType, hfields v.elements (fun _ he => he) s s₂]

/-- After a write, a port has the shape of a new port of its name and type that got the same write. -/
theorem shape_write {v w : Value} {p p' : Port} {s s' : Supply} (h : p.write v s = .ok (w, p', s')) (hv : v ≠ .null)
    (hp : Every Sound p) (hl : Every Labelled p) (id : PortId) (s₂ : Supply) :
    ∃ q s₂', (new id p.name p.direction p.kind p.dataType).write v s₂ = .ok (w, q, s₂') ∧ p'.shape = q.shape := by
  rcases write_eq_ok h with ⟨rfl, -⟩ | ⟨-, hw, rfl, -⟩
  · exact absurd rfl hv
  · set q := new id p.name p.direction p.kind p.dataType with hq
    refine ⟨(store w q s₂).1, (store w q s₂).2, ?_, shape_place (q := q.bump) ?_ w s s₂⟩
    · have hnull : v.isNull = false := by cases v <;> first | rfl | exact absurd rfl hv
      rw [write, hnull, show q.dataType = p.dataType from rfl, hw]
      rfl
    · exact {
        name := rfl
        direction := rfl
        kind := rfl
        dataType := rfl
        bare := fun hc => ⟨hp.self.bare hc, rfl⟩
        labelled := ⟨hl.self, fun e he => absurd he List.not_mem_nil⟩
        below := ⟨fun e he => ⟨hl.element he, hp.element he⟩, fun e he => absurd he List.not_mem_nil⟩ }

/-! ### Where an identifier comes from -/

theorem le_placedFor (p : Port) (key : String) (v : Value) (s : Supply) : s.next ≤ (placedFor p key v s).2.next :=
  (renews_elementFor p key v.dataType s).le.trans (renews_place v _ _).le

/-- An element port was made for an element of the value, with a supply from which others may have drawn before. -/
theorem mem_placeFields_of_le {parent : Port} {es : List (String × Value)} {s : Supply} {e : String × Port}
    (h : e ∈ (placeFields parent es s).1) :
    ∃ v s', (e.1, v) ∈ es ∧ s.next ≤ s'.next ∧ e.2 = (placedFor parent e.1 v s').1 := by
  induction es generalizing s with
  | nil => exact absurd h List.not_mem_nil
  | cons entry rest ih =>
    obtain ⟨key, v⟩ := entry
    rw [placeFields_cons] at h
    rcases mem_insert h with rfl | h
    · exact ⟨v, s, List.mem_cons_self, le_rfl, rfl⟩
    · obtain ⟨w, s', hw, hle, he⟩ := ih h
      exact ⟨w, s', List.mem_cons_of_mem _ hw, (le_placedFor parent key v s).trans hle, he⟩

/-- After a value was stored, every port of the tree has the identifier of the port that was at its path; if there was
none, it has one that came from the supply. -/
theorem origin_place {path : List String} {p c' : Port} {v : Value} {s : Supply}
    (h : (place v p s).1.atPath? path = some c') :
    (∃ c, p.atPath? path = some c ∧ c'.id = c.id) ∨ p.atPath? path = none ∧ s.next ≤ c'.id.value := by
  induction v using Value.induction generalizing path p s with
  | step v ih =>
    cases path with
    | nil =>
      cases h
      exact Or.inl ⟨p, rfl, place_id ..⟩
    | cons key path =>
      obtain ⟨x, hx, hc'⟩ := atPath?_cons_eq_some.1 h
      cases hc : p.isContainer with
      | false =>
        rw [place_scalar hc] at hx
        exact Or.inl ⟨c', atPath?_cons_eq_some.2 ⟨x, hx, hc'⟩, rfl⟩
      | true =>
        rw [place_container hc] at hx
        obtain ⟨w, s', hw, hle, hmade⟩ := mem_placeFields_of_le (mem_of_find? hx)
        dsimp only at hw hmade
        rw [hmade, placedFor] at hc'
        cases hfind : Keyed.find? key p.elements with
        | none =>
          -- the element port is new, and so is everything below it
          rw [elementFor_of_none hfind] at hc'
          refine Or.inr ⟨by rw [atPath?_cons, hfind, Option.bind_none], ?_⟩
          have hmem := mem_ids_iff.2 ⟨c', mem_flatten_of_atPath? hc', rfl⟩
          rcases (renews_place w _ _).mem _ hmem with hi | hi
          · rw [ids_bump, ids_new, List.mem_singleton] at hi
            rw [hi]
            exact hle
          · exact hle.trans ((Nat.le_succ _).trans hi.1)
        | some e =>
          rw [elementFor_of_some hfind] at hc'
          rw [atPath?_cons, hfind, Option.bind_some]
          cases path with
          | nil =>
            cases hc'
            exact Or.inl ⟨e, rfl, place_id ..⟩
          | cons k rest =>
            by_cases hdropped : e.dataType ≠ w.dataType ∧ (!w.dataType.isContainer) = true
            · -- a port that is no container any more has nothing below it
              have hscalar : (bump { e with dataType := w.dataType, elements := [] }).isContainer = false := by
                have := hdropped.2
                rwa [Bool.not_eq_true'] at this
              rw [if_pos hdropped, place_scalar hscalar] at hc'
              obtain ⟨y, hy, -⟩ := atPath?_cons_eq_some.1 hc'
              cases hy
            · rw [if_neg hdropped] at hc'
              exact (ih (key, w) hw hc').imp_right fun hnew => ⟨hnew.1, hle.trans hnew.2⟩

/-! ### Identifiers after any operations -/

/-- An operation keeps or drops identifiers, and draws those of new element ports. -/
theorem renews_operate (operation : Operation) (p : Port) (s : Supply) :
    s.Renews p.ids (operate operation (p, s)).2 (operate operation (p, s)).1.ids := by
  refine operate_cases (P := fun state => s.Renews p.ids state.2 state.1.ids) (.refl s p.ids) (fun h => renews_write h)
    (fun h => renews_writeAt h) ?_ ?_ (fun t => renews_setDataType p t s) operation
  · exact (ids_read p).symm ▸ .refl s p.ids
  · exact (ids_clear p).symm ▸ .refl s p.ids

theorem renews_operateAll (operations : List Operation) (p : Port) (s : Supply) :
    s.Renews p.ids (operateAll operations (p, s)).2 (operateAll operations (p, s)).1.ids := by
  induction operations generalizing p s with
  | nil => exact Supply.Renews.refl s p.ids
  | cons operation rest ih => exact (renews_operate operation p s).trans (ih _ _)

theorem ids_sublist {p q : Port} (h : q ∈ p.flatten) : q.ids.Sublist p.ids := by
  induction p using Port.induction with
  | step p ih =>
    rcases mem_flatten.1 h with rfl | ⟨e, he, hq⟩
    · exact List.Sublist.refl _
    · rw [ids_eq p]
      refine List.Sublist.cons _ ((ih e he hq).trans ?_)
      obtain ⟨before, after, hes⟩ := List.append_of_mem he
      rw [hes, List.flatMap_append, List.flatMap_cons]
      exact (List.sublist_append_left _ _).trans (List.sublist_append_right _ _)

/-- In a tree with distinct identifiers, no two paths lead to one identifier. -/
theorem eq_of_atPath? {path path' : List String} {p c c' : Port} (hn : p.ids.Nodup) (h : p.atPath? path = some c)
    (h' : p.atPath? path' = some c') (hid : c.id = c'.id) : path = path' := by
  -- an identifier below a port is not that of the port
  have hbelow : ∀ {q x : Port} {k : String} {rest : List String}, q.ids.Nodup → q.atPath? (k :: rest) = some x →
      x.id ≠ q.id := fun {q x k rest} hq hx heq => by
    obtain ⟨e, he, hx⟩ := atPath?_cons_eq_some.1 hx
    exact id_notMem_ids hq (mem_of_find? he) (mem_ids_iff.2 ⟨x, mem_flatten_of_atPath? hx, heq⟩)
  induction path generalizing path' p with
  | nil =>
    cases h
    cases path' with
    | nil => rfl
    | cons k rest => exact absurd hid.symm (hbelow hn h')
  | cons key path ih =>
    cases path' with
    | nil =>
      cases h'
      exact absurd hid (hbelow hn h)
    | cons key' path' =>
      obtain ⟨e, he, hc⟩ := atPath?_cons_eq_some.1 h
      obtain ⟨e', he', hc'⟩ := atPath?_cons_eq_some.1 h'
      have hids : e.ids.Nodup :=
        hn.sublist (ids_sublist (mem_flatten.2 (Or.inr ⟨_, mem_of_find? he, self_mem_flatten e⟩)))
      rw [ids_eq] at hn
      by_cases hk : key = key'
      · subst hk
        obtain rfl : e = e' := Option.some.inj (he.symm.trans he')
        rw [ih hids hc hc']
      · have hdisjoint := disjoint_elements (List.nodup_cons.1 hn).2 he he' hk
        refine absurd (mem_ids_iff.2 ⟨c', mem_flatten_of_atPath? hc', rfl⟩) (hdisjoint ?_)
        exact mem_ids_iff.2 ⟨c, mem_flatten_of_atPath? hc, hid⟩

/-! ### A write -/

/-- A path that is there in both trees, and leads through containers only in both. -/
def Carried (path : List String) (p p' : Port) : Prop :=
  (p.atPath? path).isSome ∧ (p'.atPath? path).isSome ∧
    ∀ above key below, path = above ++ key :: below →
      (∃ c, p.atPath? above = some c ∧ c.isContainer = true) ∧ ∃ c', p'.atPath? above = some c' ∧ c'.isContainer = true

/-- What becomes of the identifiers of a tree, all of which are known: the port at a path that was carried over keeps its
identifier, any other port has one that was not known, and those of the paths that are gone are not found any more. -/
structure Retains (known : List PortId) (p p' : Port) : Prop where
  kept : ∀ path, Carried path p p' → (p'.atPath? path).map id = (p.atPath? path).map id
  drawn : ∀ path c', p'.atPath? path = some c' → ¬ Carried path p p' → c'.id ∉ known
  dropped : ∀ path c, p.atPath? path = some c → p'.atPath? path = none → p'.find? c.id = none
  distinct : p'.ids.Nodup

theorem isContainer_of_atPath? {p c : Port} (hp : Every Sound p) {above below : List String} {key : String}
    (h : p.atPath? (above ++ key :: below) = some c) : ∃ x, p.atPath? above = some x ∧ x.isContainer = true := by
  induction above generalizing p with
  | nil =>
    obtain ⟨e, he, -⟩ := atPath?_cons_eq_some.1 h
    exact ⟨p, rfl, hp.self.isContainer (mem_of_find? he)⟩
  | cons k above ih =>
    obtain ⟨e, he, hc⟩ := atPath?_cons_eq_some.1 h
    obtain ⟨x, hx, hcontainer⟩ := ih (hp.element (mem_of_find? he)) hc
    exact ⟨x, atPath?_cons_eq_some.2 ⟨e, he, hx⟩, hcontainer⟩

theorem carried_iff {p p' : Port} (hp : Every Sound p) (hp' : Every Sound p') {path : List String} :
    Carried path p p' ↔ (p.atPath? path).isSome ∧ (p'.atPath? path).isSome := by
  refine ⟨fun h => ⟨h.1, h.2.1⟩, fun ⟨h, h'⟩ => ⟨h, h', fun above key below heq => ?_⟩⟩
  obtain ⟨c, hc⟩ := Option.isSome_iff_exists.1 h
  obtain ⟨c', hc'⟩ := Option.isSome_iff_exists.1 h'
  subst heq
  exact ⟨isContainer_of_atPath? hp hc, isContainer_of_atPath? hp' hc'⟩

/-- After a write, every port below the one that was written has an identifier that was at its path, or a new one. -/
theorem origin_write {v w : Value} {p p' c' : Port} {s s' : Supply} (h : p.write v s = .ok (w, p', s'))
    {path : List String} (hc' : p'.atPath? path = some c') :
    (∃ c, p.atPath? path = some c ∧ c'.id = c.id) ∨ p.atPath? path = none ∧ s.next ≤ c'.id.value := by
  cases path with
  | nil =>
    cases hc'
    exact Or.inl ⟨p, rfl, write_id h⟩
  | cons key path =>
    rcases write_eq_ok h with ⟨-, -, rfl, -⟩ | ⟨-, -, rfl, -⟩
    · cases hc'
    · exact origin_place (p := p.bump) hc'

theorem retains_write {known : List PortId} {v w : Value} {p p' : Port} {s s' : Supply}
    (h : p.write v s = .ok (w, p', s')) (hp : Every Sound p) (hn : p.ids.Nodup)
    (hids : ∀ i ∈ p.ids, i ∈ known) (hused : ∀ i ∈ known, s.Used i) : Retains known p p' := by
  have hp' := sound_write h hp
  refine ⟨fun path hcarried => ?_, fun path c' hc' hcarried hknown => ?_, fun path c hc hnone => ?_, ?_⟩
  · obtain ⟨c, hc⟩ := Option.isSome_iff_exists.1 hcarried.1
    obtain ⟨c', hc'⟩ := Option.isSome_iff_exists.1 hcarried.2.1
    rcases origin_write h hc' with ⟨x, hx, hid⟩ | ⟨hx, -⟩
    · rw [hc', hx, Option.map_some, Option.map_some, hid]
    · rw [hc] at hx
      cases hx
  · rcases origin_write h hc' with ⟨c, hc, -⟩ | ⟨-, hnew⟩
    · refine hcarried ((carried_iff hp hp').2 ⟨?_, ?_⟩)
      · rw [hc]; rfl
      · rw [hc']; rfl
    · exact absurd (hused _ hknown) (not_lt.2 hnew)
  · rw [← Option.not_isSome_iff_eq_none, find?_isSome]
    intro hmem
    obtain ⟨c', hc', hid⟩ := mem_ids_iff.1 hmem
    obtain ⟨path', hpath'⟩ := exists_atPath?_of_mem_flatten (hp'.imp fun _ hr => hr.nodup) hc'
    rcases origin_write h hpath' with ⟨x, hx, hxid⟩ | ⟨-, hnew⟩
    · -- the same identifier was at both paths, so that the paths are the same
      obtain rfl := eq_of_atPath? hn hc hx (hid.symm.trans hxid)
      rw [hpath'] at hnone
      cases hnone
    · have hknown := hids c.id (mem_ids_iff.2 ⟨c, mem_flatten_of_atPath? hc, rfl⟩)
      rw [hid] at hnew
      exact absurd (hused _ hknown) (not_lt.2 hnew)
  · exact (renews_write h).nodup hn fun i hi => hused i (hids i hi)

/-- **A write keeps the identity of element ports, and no history.** Whatever was done to a port with an identifier that
will not be drawn, an accepted write to it or to a port of its tree keeps the identifiers of the paths that are carried
over, draws identifiers that the tree did not have for all others, and never shows those of paths that are gone. Names,
types, values and keys of the whole tree are those of a new port that got the same write. To clear a port keeps every
identifier where it is. -/
theorem identity_write {operations : List Operation} {id : PortId} {name : String} {direction : Direction}
    {kind : PortKind} {t : DataType} {s₀ s : Supply} {p : Port}
    (hreached : operateAll operations (new id name direction kind t, s₀) = (p, s)) (hid : s₀.Used id) :
    (∀ q ∈ p.flatten, ∀ v w q' s', v ≠ .null → q.write v s = .ok (w, q', s') →
      Retains p.ids q q' ∧ ∀ i s₂, ∃ r s₂',
        (new i q.name q.direction q.kind q.dataType).write v s₂ = .ok (w, r, s₂') ∧ q'.shape = r.shape) ∧
    p.clear.ids = p.ids ∧ ∀ path, (p.clear.atPath? path).map Port.id = (p.atPath? path).map Port.id := by
  have hp : Every Sound p := by
    have hsound := sound_operateAll operations s₀ (sound_new id name direction kind t)
    rwa [hreached] at hsound
  have hlabelled : Every Labelled p := by
    have hall := labelled_operateAll operations s₀ (labelled_bare (p := new id name direction kind t) rfl)
    rwa [hreached] at hall
  have hrenews : s₀.Renews [id] s p.ids := by
    have hall := renews_operateAll operations (new id name direction kind t) s₀
    rwa [hreached, ids_new] at hall
  have hstart : ∀ i ∈ [id], s₀.Used i := fun i hi => List.mem_singleton.1 hi ▸ hid
  have hn : p.ids.Nodup := hrenews.nodup (List.nodup_singleton id) hstart
  refine ⟨fun q hq v w q' s' hv h => ⟨?_, fun i s₂ => ?_⟩, ids_clear p, fun path => ?_⟩
  · have hsublist := ids_sublist hq
    exact retains_write h (hp.of_mem hq) (hn.sublist hsublist) (fun i hi => hsublist.subset hi) (hrenews.used hstart)
  · exact shape_write h hv (hp.of_mem hq) (hlabelled.of_mem hq) i s₂
  · rw [atPath?_clear, Option.map_map]
    exact congrArg (fun f => (p.atPath? path).map f) (funext clear_id)

/-- A record with a list in it. -/
def listed : Value :=
  .object [("a", .array [.integer 1, .integer 2]), ("b", .integer 3)]

/-- The record with an object in place of the list, which shares one key with it, and with another second field. -/
def relisted : Value :=
  .object [("a", .object [("0", .string "x"), ("k", .boolean true)]), ("c", .null)]

/-- The field and the shared key below it keep their identifiers; of the others, two are dropped and two are drawn. -/
theorem identity_write_relisted : ∃ p s q' s',
    operateAll [.write listed] (new ⟨0⟩ "record" .output .data .object, ⟨1⟩) = (p, s) ∧ Supply.Used ⟨1⟩ ⟨0⟩ ∧
    relisted ≠ .null ∧ p.ids = [⟨0⟩, ⟨1⟩, ⟨2⟩, ⟨3⟩, ⟨4⟩] ∧ p.write relisted s = .ok (relisted, q', s') ∧
    q'.ids = [⟨0⟩, ⟨1⟩, ⟨2⟩, ⟨5⟩, ⟨6⟩] ∧ Retains p.ids p q' := by
  obtain ⟨p, s, q', s', hreached, hids, hwrite, hids'⟩ : ∃ p s q' s',
      operateAll [.write listed] (new ⟨0⟩ "record" .output .data .object, ⟨1⟩) = (p, s) ∧
      p.ids = [⟨0⟩, ⟨1⟩, ⟨2⟩, ⟨3⟩, ⟨4⟩] ∧ p.write relisted s = .ok (relisted, q', s') ∧
      q'.ids = [⟨0⟩, ⟨1⟩, ⟨2⟩, ⟨5⟩, ⟨6⟩] := ⟨_, _, _, _, rfl, rfl, rfl, rfl⟩
  have hused : Supply.Used ⟨1⟩ ⟨0⟩ := Nat.zero_lt_one
  have hnull : relisted ≠ .null := by decide
  have hall := (identity_write hreached hused).1 p (self_mem_flatten p) relisted relisted q' s' hnull hwrite
  exact ⟨p, s, q', s', hreached, hused, hnull, hids, hwrite, hids', hall.1⟩

end Dataflow.Port
