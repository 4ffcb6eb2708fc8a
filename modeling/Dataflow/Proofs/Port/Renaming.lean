import Dataflow.Proofs.Port.Edit

/-!
# Ports under other identifiers

What a port takes and gives does not depend on the identifiers of its element ports. Those that are drawn from a supply
may be any.

* `Port.rename` gives a port and everything below it other identifiers;
* `Supply.view` is an identifier as it looks to those who know a supply: all that were not handed out look alike;
* `Port.place_view`, `Port.write_view` and `Port.writeAt_view`: ports that look alike still do after the same was written to
  them, whichever supply new identifiers are drawn from;
* `Port.eq_rename_of_view`: of two ports that look alike, one is the other under other identifiers.
-/

namespace Dataflow

open Keyed

namespace Supply

variable {s : Supply} {id target : Id}

/-- An identifier as it looks to those who know the supply: all that were not handed out look alike. -/
def view (s : Supply) (id : Id) : Id :=
  ⟨min id.value s.next⟩

theorem view_of_used (h : s.Used id) : s.view id = id := by
  rw [view, min_eq_left (le_of_lt h)]

theorem view_of_le (h : s.next ≤ id.value) : s.view id = ⟨s.next⟩ := by
  rw [view, min_eq_right h]

/-- All identifiers that are drawn later look alike. -/
theorem view_drawn {t : Supply} (h : s.next ≤ t.next) : s.view ⟨t.next⟩ = ⟨s.next⟩ :=
  view_of_le h

/-- An identifier that was handed out is told from all others. -/
theorem view_eq_iff (h : s.Used target) : s.view id = target ↔ id = target := by
  constructor
  · intro he
    by_cases hu : s.Used id
    · rwa [view_of_used hu] at he
    · rw [view_of_le (not_lt.1 hu)] at he
      subst he
      exact absurd h (lt_irrefl s.next)
  · rintro rfl
    exact view_of_used h

theorem used_of_view_eq {id' : Id} (he : s.view id = s.view id') (h : s.Used id) : id' = id := by
  rw [view_of_used h] at he
  exact (view_eq_iff h).1 he.symm

/-- A search for identifiers that were handed out does not notice the others. -/
theorem filter_view {F : Id → Bool} (hF : ∀ id, F id = true → s.Used id) (ids : List Id) :
    (ids.map s.view).filter F = ids.filter F := by
  induction ids with
  | nil => rfl
  | cons id rest ih =>
    by_cases hu : s.Used id
    · rw [List.map_cons, view_of_used hu, List.filter_cons, List.filter_cons, ih]
    · have hid : ¬F id = true := fun h => hu (hF id h)
      have hview : ¬F (s.view id) = true := fun h => by
        rw [view_of_le (not_lt.1 hu)] at h
        exact absurd (hF _ h) (lt_irrefl s.next)
      rw [List.map_cons, List.filter_cons_of_neg hview, List.filter_cons_of_neg hid, ih]

/-- Identifiers that look alike one by one are exchanged by a renaming of those that came later. -/
theorem exists_perm {ids ids' : List Id} (hn : ids.Nodup) (hn' : ids'.Nodup)
    (h : ids'.map s.view = ids.map s.view) :
    ∃ σ : Equiv.Perm Id, (∀ id, s.Used id → σ id = id) ∧ ids.map σ = ids' := by
  induction ids generalizing ids' with
  | nil => exact ⟨.refl Id, fun _ _ => rfl, (List.map_eq_nil_iff.1 h).symm⟩
  | cons a ids ih =>
    cases ids' with
    | nil => cases h
    | cons a' ids' =>
      obtain ⟨ha, h⟩ := List.cons.inj h
      obtain ⟨hnot, hn⟩ := List.nodup_cons.1 hn
      obtain ⟨hnot', hn'⟩ := List.nodup_cons.1 hn'
      obtain ⟨σ, hfixes, rfl⟩ := ih hn hn' h
      refine ⟨σ.trans (Equiv.swap (σ a) a'), fun id hid => ?_, ?_⟩
      · rw [Equiv.trans_apply, hfixes id hid]
        by_cases hu : s.Used a
        · -- An identifier that was handed out is its own counterpart.
          rw [hfixes a hu, used_of_view_eq ha.symm hu, Equiv.swap_self]
          rfl
        · have hne : id ≠ σ a := by
            intro he
            have hself : σ id = σ a := (hfixes id hid).trans he
            exact hu (σ.injective hself ▸ hid)
          have hne' : id ≠ a' := by
            rintro rfl
            exact hu (used_of_view_eq ha hid ▸ hid)
          exact Equiv.swap_apply_of_ne_of_ne hne hne'
      · rw [List.map_cons, Equiv.trans_apply, Equiv.swap_apply_left]
        refine congrArg (a' :: ·) (List.map_congr_left fun b hb => ?_)
        have hne : σ b ≠ σ a := fun he => hnot (σ.injective he ▸ hb)
        have hne' : σ b ≠ a' := fun he => hnot' (he ▸ List.mem_map_of_mem hb)
        exact Equiv.swap_apply_of_ne_of_ne hne hne'

end Supply

namespace Port

/-! ### Other identifiers -/

mutual
/-- A port with other identifiers, for itself and for everything below it. -/
def rename (f : PortId → PortId) : Port → Port
  | ⟨id, name, direction, kind, dataType, data, version, lastRead, elements⟩ =>
    ⟨f id, name, direction, kind, dataType, data, version, lastRead, renameAll f elements⟩
termination_by structural p => p

/-- Element ports with other identifiers. -/
def renameAll (f : PortId → PortId) : List (String × Port) → List (String × Port)
  | [] => []
  | (key, p) :: rest => (key, rename f p) :: renameAll f rest
termination_by structural ps => ps
end

section Rename

variable (f : PortId → PortId) (p : Port)

theorem renameAll_eq (es : List (String × Port)) : renameAll f es = mapValues (rename f) es := by
  induction es with
  | nil => rfl
  | cons entry rest ih => rw [renameAll, ih]; rfl

theorem rename_eq : p.rename f = { p with id := f p.id, elements := mapValues (rename f) p.elements } := by
  obtain ⟨id, name, direction, kind, dataType, data, version, lastRead, elements⟩ := p
  rw [rename, renameAll_eq]

@[simp] theorem rename_id : (p.rename f).id = f p.id := by rw [rename_eq]

@[simp] theorem rename_data : (p.rename f).data = p.data := by rw [rename_eq]

@[simp] theorem rename_dataType : (p.rename f).dataType = p.dataType := by rw [rename_eq]

@[simp] theorem rename_elements : (p.rename f).elements = mapValues (rename f) p.elements := by rw [rename_eq]

@[simp] theorem hasData_rename : (p.rename f).hasData = p.hasData := by rw [rename_eq]; rfl

@[simp] theorem hasNewData_rename : (p.rename f).hasNewData = p.hasNewData := by rw [rename_eq]; rfl

@[simp] theorem read_rename : (p.rename f).read = (p.read.1, p.read.2.rename f) := by
  rw [rename_eq, rename_eq f p.read.2]
  rfl

theorem flatten_rename : (p.rename f).flatten = p.flatten.map (rename f) := by
  induction p using Port.induction with
  | step p ih =>
    rw [flatten_eq, flatten_eq p, List.map_cons, List.map_flatMap, rename_elements, mapValues, List.flatMap_map]
    congr 1
    exact List.flatMap_congr fun e he => ih e he

theorem ids_rename : (p.rename f).ids = p.ids.map f := by
  rw [ids_eq_map_flatten, flatten_rename, ids_eq_map_flatten, List.map_map, List.map_map]
  exact List.map_congr_left fun q _ => q.rename_id f

theorem clear_rename : (p.rename f).clear = p.clear.rename f := by
  induction p using Port.induction with
  | step p ih =>
    have hes : mapValues clear (mapValues (rename f) p.elements) = mapValues (rename f) (mapValues clear p.elements) := by
      rw [mapValues, mapValues, mapValues, mapValues, List.map_map, List.map_map]
      exact List.map_congr_left fun e he => by rw [Function.comp_apply, ih e he]; rfl
    rw [clear_eq, clear_eq p, rename_eq, rename_eq f { p with data := _, version := _, lastRead := _, elements := _ }, hes]

end Rename

/-- Ports that become one under other identifiers have all but identifiers in common. -/
theorem rename_eq_rename {f : PortId → PortId} {p q : Port} : p.rename f = q.rename f ↔
    ∃ id es, q = { p with id := id, elements := es } ∧ f id = f p.id ∧
      mapValues (rename f) es = mapValues (rename f) p.elements := by
  constructor
  · intro h
    obtain ⟨id, name, direction, kind, dataType, data, version, lastRead, elements⟩ := p
    obtain ⟨id', name', direction', kind', dataType', data', version', lastRead', elements'⟩ := q
    simp only [rename_eq, Port.mk.injEq] at h
    obtain ⟨hid, rfl, rfl, rfl, rfl, rfl, rfl, rfl, hes⟩ := h
    exact ⟨id', elements', rfl, hid.symm, hes.symm⟩
  · rintro ⟨id, es, rfl, hid, hes⟩
    rw [rename_eq, rename_eq f { p with id := id, elements := es }, hid, hes]

/-! ### Looking up and exchanging -/

section Known

variable {s : Supply} {target : PortId} (h : s.Used target)

include h

theorem find?_view (p : Port) : (p.rename s.view).find? target = (p.find? target).map (rename s.view) := by
  rw [find?, flatten_rename, List.find?_map, find?]
  congr 2
  funext q
  simp [Supply.view_eq_iff h]

theorem hasId_view (p : Port) : hasId target (p.rename s.view) = hasId target p := by
  rw [Bool.eq_iff_iff, hasId_iff, hasId_iff, ids_rename, List.mem_map]
  constructor
  · rintro ⟨id, hid, he⟩
    rwa [(Supply.view_eq_iff h).1 he] at hid
  · exact fun hid => ⟨target, hid, Supply.view_of_used h⟩

theorem replace?_view (new p : Port) :
    replace? target (new.rename s.view) (p.rename s.view) = (replace? target new p).map (rename s.view) := by
  induction p using Port.induction with
  | step p ih =>
    have hlist : ∀ es : List (String × Port),
        (∀ e ∈ es, replace? target (new.rename s.view) (e.2.rename s.view) = (replace? target new e.2).map (rename s.view)) →
        replaceIn? target (new.rename s.view) (mapValues (rename s.view) es) =
          (replaceIn? target new es).map (mapValues (rename s.view)) := by
      intro es hes
      induction es with
      | nil => rfl
      | cons entry rest ihl =>
        obtain ⟨key, q⟩ := entry
        obtain ⟨hq, hrest⟩ := List.forall_mem_cons.1 hes
        rw [show mapValues (rename s.view) ((key, q) :: rest) = (key, q.rename s.view) :: mapValues (rename s.view) rest from rfl,
          replaceIn?, replaceIn?, hq]
        cases replace? target new q with
        | some c => rfl
        | none => simp only [Option.map_none, ihl hrest, Option.map_map]; rfl
    rw [replace?_eq, replace?_eq target new p, rename_id, rename_elements, hlist p.elements ih]
    simp only [Supply.view_eq_iff h]
    split_ifs
    · rfl
    · rw [Option.map_map, Option.map_map]
      congr 1
      funext es
      simp [rename_eq]

end Known

/-! ### Writing -/

/-- What shows of a value as stored and of the place where it was stored. -/
def shown {α β : Type} (view : α → β) (r : Value × α × Supply) : Value × β :=
  (r.1, view r.2.1)

/-- What is done to a place after the value was stored shows, as far as it shows before. -/
theorem shown_congr {ε α α' β β' : Type} {view : α → β} {view' : α' → β'} {x y : Except ε (Value × α × Supply)}
    (h : x.map (shown view) = y.map (shown view)) (up up' : α → α') (hup : ∀ a b, view a = view b → view' (up a) = view' (up' b)) :
    (x.map fun r => (r.1, up r.2.1, r.2.2)).map (shown view') = (y.map fun r => (r.1, up' r.2.1, r.2.2)).map (shown view') := by
  cases x with
  | error e =>
    cases y with
    | error e' => exact congrArg Except.error (Except.error.inj h)
    | ok r' => cases h
  | ok r =>
    cases y with
    | error e' => cases h
    | ok r' =>
      obtain ⟨hvalue, hplace⟩ := Prod.mk.inj (Except.ok.inj h)
      exact congrArg Except.ok (Prod.ext hvalue (hup _ _ hplace))

/-- The same where there may be no such place. -/
theorem shown?_congr {ε α α' β β' : Type} {view : α → β} {view' : α' → β'} {x y : Option (Except ε (Value × α × Supply))}
    (h : x.map (Except.map (shown view)) = y.map (Except.map (shown view))) (up up' : α → α')
    (hup : ∀ a b, view a = view b → view' (up a) = view' (up' b)) :
    (x.map (Except.map fun r => (r.1, up r.2.1, r.2.2))).map (Except.map (shown view')) =
      (y.map (Except.map fun r => (r.1, up' r.2.1, r.2.2))).map (Except.map (shown view')) := by
  cases x with
  | none => rw [Option.map_eq_none_iff.1 h.symm]; rfl
  | some x =>
    obtain ⟨y, rfl, hy⟩ := Option.map_eq_some_iff.1 h.symm
    exact congrArg some (shown_congr hy.symm up up' hup)

section View

variable {s : Supply} {p q : Port} {t t' : Supply}

theorem bump_view (h : p.rename s.view = q.rename s.view) : p.bump.rename s.view = q.bump.rename s.view := by
  obtain ⟨id, es, rfl, hid, hes⟩ := rename_eq_rename.1 h
  exact rename_eq_rename.2 ⟨id, es, rfl, hid, hes⟩

theorem elementFor_view (ht : s.next ≤ t.next) (ht' : s.next ≤ t'.next) (h : p.rename s.view = q.rename s.view)
    (key : String) (dataType : DataType) :
    (elementFor p key dataType t).1.rename s.view = (elementFor q key dataType t').1.rename s.view := by
  obtain ⟨id, es, rfl, -, hes⟩ := rename_eq_rename.1 h
  have hfind := congrArg (Keyed.find? key) hes
  rw [find?_mapValues, find?_mapValues] at hfind
  cases hp : Keyed.find? key p.elements with
  | none =>
    rw [hp, Option.map_none, Option.map_eq_none_iff] at hfind
    rw [elementFor_of_none hp, elementFor_of_none hfind]
    exact rename_eq_rename.2 ⟨⟨t'.next⟩, [], rfl, (Supply.view_drawn ht').trans (Supply.view_drawn ht).symm, rfl⟩
  | some c =>
    rw [hp, Option.map_some] at hfind
    obtain ⟨c', hc', hcc'⟩ := Option.map_eq_some_iff.1 hfind
    obtain ⟨id', es', rfl, hid', hes'⟩ := rename_eq_rename.1 hcc'.symm
    rw [elementFor_of_some hp, elementFor_of_some hc']
    refine rename_eq_rename.2 ⟨id', _, rfl, hid', ?_⟩
    dsimp only
    split_ifs
    · rfl
    · exact hes'

theorem placeFields_view {es : List (String × Value)}
    (hes : ∀ e ∈ es, ∀ (p q : Port) (t t' : Supply), s.next ≤ t.next → s.next ≤ t'.next → p.rename s.view = q.rename s.view →
      (place e.2 p t).1.rename s.view = (place e.2 q t').1.rename s.view)
    (ht : s.next ≤ t.next) (ht' : s.next ≤ t'.next) (h : p.rename s.view = q.rename s.view) :
    mapValues (rename s.view) (placeFields p es t).1 = mapValues (rename s.view) (placeFields q es t').1 := by
  induction es generalizing t t' with
  | nil => rfl
  | cons entry rest ih =>
    obtain ⟨key, v⟩ := entry
    obtain ⟨hv, hrest⟩ := List.forall_mem_cons.1 hes
    have hle : ∀ (r : Port) (u : Supply), u.next ≤ (placedFor r key v u).2.next := fun r u =>
      (renews_elementFor r key v.dataType u).le.trans (renews_place v _ _).le
    rw [placeFields_cons, placeFields_cons, mapValues_insert, mapValues_insert,
      ih hrest (ht.trans (hle p t)) (ht'.trans (hle q t'))]
    refine congrArg₂ (Keyed.insert key) ?_ rfl
    exact hv _ _ _ _ (ht.trans (renews_elementFor ..).le) (ht'.trans (renews_elementFor ..).le)
      (bump_view (elementFor_view ht ht' h key v.dataType))

/-- Storing shows what showed before, and the value. -/
theorem place_view (v : Value) (ht : s.next ≤ t.next) (ht' : s.next ≤ t'.next) (h : p.rename s.view = q.rename s.view) :
    (place v p t).1.rename s.view = (place v q t').1.rename s.view := by
  induction v using Value.induction generalizing p q t t' with
  | step v ih =>
    have hfields := placeFields_view (fun e he p q t t' ht ht' h => ih e he ht ht' h) ht ht' h
    obtain ⟨id, es, rfl, hid, hes⟩ := rename_eq_rename.1 h
    have hcontainer : ({ p with id := id, elements := es } : Port).isContainer = p.isContainer := rfl
    rw [place_eq, place_eq v { p with id := id, elements := es }, hcontainer]
    split_ifs
    · exact rename_eq_rename.2 ⟨id, _, rfl, hid, hfields.symm⟩
    · exact rename_eq_rename.2 ⟨id, es, rfl, hid, hes⟩

theorem write_view (v : Value) (ht : s.next ≤ t.next) (ht' : s.next ≤ t'.next) (h : p.rename s.view = q.rename s.view) :
    (p.write v t).map (shown (rename s.view)) = (q.write v t').map (shown (rename s.view)) := by
  have hbump := bump_view h
  obtain ⟨id, es, rfl, hid, hes⟩ := rename_eq_rename.1 h
  unfold write
  split_ifs
  · exact congrArg Except.ok (Prod.ext rfl (rename_eq_rename.2 ⟨id, [], rfl, hid, rfl⟩))
  · cases v.convert p.dataType with
    | error e => rfl
    | ok w => exact congrArg Except.ok (Prod.ext rfl (place_view w ht ht' hbump))

theorem fold_view (h : p.rename s.view = q.rename s.view) : (fold p).rename s.view = (fold q).rename s.view := by
  obtain ⟨id, es, rfl, hid, hes⟩ := rename_eq_rename.1 h
  -- Folding sees the keys of the element ports and their values.
  have hdata : mapValues data es = mapValues data p.elements := by
    have hview : ∀ l : List (String × Port), mapValues data (mapValues (rename s.view) l) = mapValues data l := by
      intro l
      rw [mapValues, mapValues, mapValues, List.map_map]
      exact List.map_congr_left fun e _ => by rw [Function.comp_apply, rename_data]
    rw [← hview, hes, hview]
  have hitems : foldedItems es = foldedItems p.elements := by
    have hfolded : ∀ l : List (String × Port), foldedItems l = (((mapValues data l).filterMap fun e =>
        (index? (mapValues data l).length e.1).map fun index => (index, e.2)).foldr insertIndexed []).map Prod.snd := by
      intro l
      rw [foldedItems, mapValues, List.filterMap_map, List.length_map]
      rfl
    rw [hfolded, hfolded, hdata]
  have hfields : foldedFields es = foldedFields p.elements := hdata
  refine rename_eq_rename.2 ⟨id, es, ?_, hid.trans (congrArg s.view p.fold_id.symm), by rw [hes, fold_elements]⟩
  unfold fold
  cases ht : p.dataType <;> simp only [hitems, hfields, ht]

/-- **A write shows what showed before, and the value.** Which identifiers are drawn for new element ports does not show. -/
theorem writeAt_view {target : PortId} (htarget : s.Used target) (v : Value) (ht : s.next ≤ t.next) (ht' : s.next ≤ t'.next)
    (h : p.rename s.view = q.rename s.view) :
    (writeAt target v p t).map (Except.map (shown (rename s.view))) =
      (writeAt target v q t').map (Except.map (shown (rename s.view))) := by
  induction p using Port.induction generalizing q with
  | step p ih =>
    have hlist : ∀ es es' : List (String × Port), (∀ e ∈ es, ∀ q : Port, e.2.rename s.view = q.rename s.view →
          (writeAt target v e.2 t).map (Except.map (shown (rename s.view))) =
            (writeAt target v q t').map (Except.map (shown (rename s.view)))) →
        mapValues (rename s.view) es = mapValues (rename s.view) es' →
        (writeIn target v es t).map (Except.map (shown (mapValues (rename s.view)))) =
          (writeIn target v es' t').map (Except.map (shown (mapValues (rename s.view)))) := by
      intro es es' hes hsame
      induction mapValues_eq_mapValues.1 hsame with
      | nil => rfl
      | @cons entry entry' rest rest' hentry htail ihl =>
        obtain ⟨key, c⟩ := entry
        obtain ⟨key', c'⟩ := entry'
        obtain ⟨rfl, hcc'⟩ : key = key' ∧ c.rename s.view = c'.rename s.view := hentry
        obtain ⟨hc, hrest⟩ := List.forall_mem_cons.1 hes
        have hfirst := hc c' hcc'
        have hsame' := mapValues_eq_mapValues.2 htail
        rw [writeIn, writeIn]
        cases hw : writeAt target v c t with
        | some x =>
          rw [hw, Option.map_some] at hfirst
          obtain ⟨y, hw', hy⟩ := Option.map_eq_some_iff.1 hfirst.symm
          rw [hw']
          refine congrArg some (shown_congr hy.symm (fun c => (key, c) :: rest) (fun c => (key, c) :: rest') fun a b hab => ?_)
          exact congrArg₂ List.cons (congrArg (Prod.mk key) hab) hsame'
        | none =>
          rw [hw, Option.map_none] at hfirst
          rw [Option.map_eq_none_iff.1 hfirst.symm]
          refine shown?_congr (ihl hrest hsame') ((key, c) :: ·) ((key, c') :: ·) fun a b hab => ?_
          exact congrArg₂ List.cons (congrArg (Prod.mk key) hcc') hab
    obtain ⟨id, es, rfl, hid, hes⟩ := rename_eq_rename.1 h
    have hhere : id = target ↔ p.id = target := by
      rw [← Supply.view_eq_iff htarget, hid, Supply.view_eq_iff htarget]
    rw [writeAt_eq, writeAt_eq target v { p with id := id, elements := es }]
    simp only [hhere]
    split_ifs
    · exact congrArg some (write_view v ht ht' h)
    · refine shown?_congr (hlist p.elements es ih hes.symm) (fun es => fold { p with elements := es })
        (fun es => fold { p with id := id, elements := es }) fun a b hab => fold_view ?_
      exact rename_eq_rename.2 ⟨id, b, rfl, hid, hab.symm⟩

end View

/-! ### From what shows to the identifiers -/

section Renamed

variable {f σ : PortId → PortId}

/-- Ports that look alike have equally many identifiers. -/
theorem length_ids {p q : Port} (h : p.rename f = q.rename f) : (p.ids.map σ).length = q.ids.length := by
  have hids := congrArg (fun r => r.ids.length) h
  simpa only [ids_rename, List.length_map] using hids

theorem length_idsAll {es es' : List (String × Port)} (h : mapValues (rename f) es = mapValues (rename f) es') :
    ((es.flatMap fun e => e.2.ids).map σ).length = (es'.flatMap fun e => e.2.ids).length := by
  induction mapValues_eq_mapValues.1 h with
  | nil => rfl
  | cons hentry htail ih =>
    rw [List.flatMap_cons, List.flatMap_cons, List.map_append, List.length_append, List.length_append, length_ids hentry.2,
      ih (mapValues_eq_mapValues.2 htail)]

theorem eq_renameAll_of_view {es es' : List (String × Port)}
    (hes : ∀ e ∈ es, ∀ q : Port, e.2.rename f = q.rename f → e.2.ids.map σ = q.ids → q = e.2.rename σ)
    (h : mapValues (rename f) es = mapValues (rename f) es')
    (hids : (es.flatMap fun e => e.2.ids).map σ = es'.flatMap fun e => e.2.ids) : es' = mapValues (rename σ) es := by
  induction mapValues_eq_mapValues.1 h with
  | nil => rfl
  | @cons entry entry' rest rest' hentry htail ih =>
    obtain ⟨key, c⟩ := entry
    obtain ⟨key', c'⟩ := entry'
    obtain ⟨rfl, hcc'⟩ : key = key' ∧ c.rename f = c'.rename f := hentry
    obtain ⟨hc, hrest⟩ := List.forall_mem_cons.1 hes
    rw [List.flatMap_cons, List.flatMap_cons, List.map_append] at hids
    obtain ⟨hfirst, hlater⟩ := List.append_inj hids (length_ids hcc')
    rw [ih hrest (mapValues_eq_mapValues.2 htail) hlater, hc c' hcc' hfirst]
    rfl

/-- Of two ports that look alike, the second is the first under other identifiers. -/
theorem eq_rename_of_view {p q : Port} (h : p.rename f = q.rename f) (hids : p.ids.map σ = q.ids) : q = p.rename σ := by
  induction p using Port.induction generalizing q with
  | step p ih =>
    obtain ⟨id, es, rfl, -, hes⟩ := rename_eq_rename.1 h
    rw [ids_eq, ids_eq, List.map_cons] at hids
    obtain ⟨hid, hinside⟩ := List.cons.inj hids
    rw [rename_eq, hid, ← eq_renameAll_of_view (fun e he q h hids => ih e he h hids) hes.symm hinside]

end Renamed

end Port

end Dataflow
