import Dataflow.Proofs.Port.Placement

/-!
# Changing one port of a tree

`Port.Edit up id R p q` says that `q` comes from `p` by changing the first port with identifier `id` in a
way that `R` allows, and then each container above it by `up`.

* `Port.write_eq_ok`: what a write does to the port itself;
* `Port.edit_of_writeAt`: a write to an element port is such a change, with `fold` above it;
* `Port.edit_of_replace?`: an exchange is one that leaves the containers above as they are;
* `Port.writeAt_isSome`, `Port.replace?_isSome`: both find every identifier of the tree;
* `Port.Edit.renews`: the identifiers of the tree change only where the port changes.
-/

namespace Dataflow.Port

open Keyed

/-- The first port with an identifier changes by `R`, and each container above it by `up` afterwards. -/
inductive Edit (up : Port → Port) (id : PortId) (R : Port → Port → Prop) : Port → Port → Prop
  | here {p q : Port} (hid : p.id = id) (hR : R p q) : Edit up id R p q
  | inside {p c c' : Port} {before after : List (String × Port)} {key : String} (hid : p.id ≠ id)
      (hes : p.elements = before ++ (key, c) :: after) (hbefore : ∀ e ∈ before, id ∉ e.2.ids)
      (hc : Edit up id R c c') :
      Edit up id R p (up { p with elements := before ++ (key, c') :: after })

/-! ### Writing -/

/-- A write empties the port, or stores the value as converted to the type of the port. -/
theorem write_eq_ok {v w : Value} {p p' : Port} {s s' : Supply} (h : p.write v s = .ok (w, p', s')) :
    v = .null ∧ w = .null ∧ p' = { p with data := .null, version := p.version + 1, elements := [] } ∧ s' = s ∨
      v ≠ .null ∧ v.convert p.dataType = .ok w ∧ p' = (place w p.bump s).1 ∧ s' = (place w p.bump s).2 := by
  unfold write at h
  split_ifs at h with hv
  · refine Or.inl ⟨?_, by simpa [eq_comm] using h⟩
    cases v <;> first | rfl | cases hv
  · obtain ⟨w₁, hw, heq⟩ := Except.map_eq_ok.1 h
    obtain ⟨rfl, hpair⟩ := Prod.mk.inj heq
    refine Or.inr ⟨fun e => hv (e ▸ rfl), hw, ?_, ?_⟩
    · exact (congrArg Prod.fst hpair).symm
    · exact (congrArg Prod.snd hpair).symm

theorem write_id {v w : Value} {p p' : Port} {s s' : Supply} (h : p.write v s = .ok (w, p', s')) :
    p'.id = p.id := by
  rcases write_eq_ok h with ⟨-, -, rfl, -⟩ | ⟨-, -, rfl, -⟩
  · rfl
  · rw [place_id]; rfl

theorem write_data {v w : Value} {p p' : Port} {s s' : Supply} (h : p.write v s = .ok (w, p', s')) :
    p'.data = w := by
  rcases write_eq_ok h with ⟨-, rfl, rfl, -⟩ | ⟨-, -, rfl, -⟩
  · rfl
  · exact place_data ..

/-- Writing keeps or drops identifiers, and draws those of new element ports. -/
theorem renews_write {v w : Value} {p p' : Port} {s s' : Supply} (h : p.write v s = .ok (w, p', s')) :
    s.Renews p.ids s' p'.ids := by
  rcases write_eq_ok h with ⟨-, -, rfl, rfl⟩ | ⟨-, -, rfl, rfl⟩
  · refine Supply.Renews.of_sublist ?_
    rw [ids_eq p, ids_eq]
    exact List.Sublist.cons_cons _ (List.nil_sublist _)
  · have hplace := renews_place w p.bump s
    rwa [ids_bump] at hplace

theorem writeAt_eq (id : PortId) (v : Value) (p : Port) (s : Supply) :
    writeAt id v p s =
      if p.id = id then some (p.write v s)
      else (writeIn id v p.elements s).map fun result =>
        result.map fun r => (r.1, fold { p with elements := r.2.1 }, r.2.2) := by
  obtain ⟨i, name, direction, kind, dataType, data, version, lastRead, elements⟩ := p
  rw [writeAt]

theorem writeIn_eq_none {id : PortId} {v : Value} {es : List (String × Port)} {s : Supply} :
    writeIn id v es s = none ↔ ∀ e ∈ es, writeAt id v e.2 s = none := by
  induction es with
  | nil => simp [writeIn]
  | cons entry rest ih =>
    obtain ⟨key, p⟩ := entry
    rw [writeIn, List.forall_mem_cons]
    cases writeAt id v p s with
    | some r => simp
    | none => simp [ih]

theorem writeAt_eq_none {id : PortId} {v : Value} {p : Port} {s : Supply} :
    writeAt id v p s = none ↔ id ∉ p.ids := by
  induction p using Port.induction with
  | step p ih =>
    rw [writeAt_eq, mem_ids, not_or]
    split_ifs with h
    · simp [h]
    · rw [Option.map_eq_none_iff, writeIn_eq_none]
      simp only [not_exists, not_and]
      exact ⟨fun hall => ⟨fun e => h e.symm, fun e he => (ih e he).1 (hall e he)⟩,
        fun hall e he => (ih e he).2 (hall.2 e he)⟩

theorem writeAt_isSome {id : PortId} {v : Value} {p : Port} {s : Supply} :
    (writeAt id v p s).isSome ↔ id ∈ p.ids := by
  rw [Option.isSome_iff_ne_none, ne_eq, writeAt_eq_none, not_not]

theorem writeIn_eq_ok {id : PortId} {v w : Value} {es es' : List (String × Port)} {s s' : Supply}
    (h : writeIn id v es s = some (.ok (w, es', s'))) :
    ∃ before key c c' after, es = before ++ (key, c) :: after ∧ es' = before ++ (key, c') :: after ∧
      (∀ e ∈ before, id ∉ e.2.ids) ∧ writeAt id v c s = some (.ok (w, c', s')) := by
  induction es generalizing es' with
  | nil => simp [writeIn] at h
  | cons entry rest ih =>
    obtain ⟨key, p⟩ := entry
    rw [writeIn] at h
    cases hp : writeAt id v p s with
    | some r =>
      simp only [hp, Option.some.injEq] at h
      cases r with
      | error e => exact absurd h (by simp [Except.map])
      | ok r =>
        obtain ⟨w₁, c', s₁⟩ := r
        simp only [Except.map, Except.ok.injEq, Prod.mk.injEq] at h
        obtain ⟨rfl, rfl, rfl⟩ := h
        exact ⟨[], key, p, c', rest, rfl, rfl, by simp, hp⟩
    | none =>
      simp only [hp, Option.map_eq_some_iff] at h
      obtain ⟨r, hr, h⟩ := h
      cases r with
      | error e => exact absurd h (by simp [Except.map])
      | ok r =>
        obtain ⟨w₁, es₁, s₁⟩ := r
        simp only [Except.map, Except.ok.injEq, Prod.mk.injEq] at h
        obtain ⟨rfl, rfl, rfl⟩ := h
        obtain ⟨before, k, c, c', after, rfl, rfl, hbefore, hc⟩ := ih hr
        refine ⟨(key, p) :: before, k, c, c', after, rfl, rfl, ?_, hc⟩
        exact List.forall_mem_cons.2 ⟨writeAt_eq_none.1 hp, hbefore⟩

theorem edit_of_writeAt {id : PortId} {v w : Value} {p p' : Port} {s s' : Supply}
    (h : p.writeAt id v s = some (.ok (w, p', s'))) :
    Edit fold id (fun c c' => c.write v s = .ok (w, c', s')) p p' := by
  induction p using Port.induction generalizing p' with
  | step p ih =>
    rw [writeAt_eq] at h
    split_ifs at h with hid
    · exact .here hid (Option.some.inj h)
    · obtain ⟨r, hr, h⟩ := Option.map_eq_some_iff.1 h
      cases r with
      | error e => exact absurd h (by simp [Except.map])
      | ok r =>
        obtain ⟨w₁, es₁, s₁⟩ := r
        simp only [Except.map, Except.ok.injEq, Prod.mk.injEq] at h
        obtain ⟨rfl, rfl, rfl⟩ := h
        obtain ⟨before, key, c, c', after, hes, rfl, hbefore, hc⟩ := writeIn_eq_ok hr
        have hmem : (key, c) ∈ p.elements := by rw [hes]; exact List.mem_append_right _ List.mem_cons_self
        exact .inside hid hes hbefore (ih (key, c) hmem hc)

/-! ### Exchanging -/

theorem replace?_eq (id : PortId) (new p : Port) :
    replace? id new p =
      if p.id = id then some new
      else (replaceIn? id new p.elements).map fun es => { p with elements := es } := by
  obtain ⟨i, name, direction, kind, dataType, data, version, lastRead, elements⟩ := p
  rw [replace?]

theorem replaceIn?_eq_some {id : PortId} {new : Port} {es es' : List (String × Port)}
    (h : replaceIn? id new es = some es') :
    ∃ before key c c' after, es = before ++ (key, c) :: after ∧ es' = before ++ (key, c') :: after ∧
      (∀ e ∈ before, replace? id new e.2 = none) ∧ replace? id new c = some c' := by
  induction es generalizing es' with
  | nil => simp [replaceIn?] at h
  | cons entry rest ih =>
    obtain ⟨key, p⟩ := entry
    rw [replaceIn?] at h
    cases hp : replace? id new p with
    | some c' =>
      simp only [hp, Option.some.injEq] at h
      exact ⟨[], key, p, c', rest, rfl, h.symm, by simp, hp⟩
    | none =>
      simp only [hp, Option.map_eq_some_iff] at h
      obtain ⟨es₁, hes₁, rfl⟩ := h
      obtain ⟨before, k, c, c', after, rfl, rfl, hbefore, hc⟩ := ih hes₁
      exact ⟨(key, p) :: before, k, c, c', after, rfl, rfl, List.forall_mem_cons.2 ⟨hp, hbefore⟩, hc⟩

theorem replace?_isSome {id : PortId} {new p : Port} : (replace? id new p).isSome ↔ id ∈ p.ids := by
  induction p using Port.induction with
  | step p ih =>
    rw [replace?_eq, mem_ids]
    split_ifs with h
    · simp [h]
    · have hlist : ∀ es : List (String × Port), (∀ e ∈ es, (replace? id new e.2).isSome ↔ id ∈ e.2.ids) →
          ((replaceIn? id new es).isSome ↔ ∃ e ∈ es, id ∈ e.2.ids) := by
        intro es hes
        induction es with
        | nil => simp [replaceIn?]
        | cons entry rest ihl =>
          obtain ⟨key, q⟩ := entry
          obtain ⟨hq, hrest⟩ := List.forall_mem_cons.1 hes
          rw [replaceIn?]
          simp only [List.mem_cons, exists_eq_or_imp]
          cases hr : replace? id new q with
          | some c => simp [← hq, hr]
          | none => simp [← hq, hr, ihl hrest]
      rw [Option.isSome_map, hlist p.elements ih]
      simp [Ne.symm h]

theorem edit_of_replace? {id : PortId} {new p p' : Port} (h : replace? id new p = some p') :
    Edit (fun q => q) id (fun _ c' => c' = new) p p' := by
  induction p using Port.induction generalizing p' with
  | step p ih =>
    rw [replace?_eq] at h
    split_ifs at h with hid
    · exact .here hid (Option.some.inj h).symm
    · obtain ⟨es, hes, rfl⟩ := Option.map_eq_some_iff.1 h
      obtain ⟨before, key, c, c', after, hsplit, rfl, hbefore, hc⟩ := replaceIn?_eq_some hes
      have hmem : (key, c) ∈ p.elements := by rw [hsplit]; exact List.mem_append_right _ List.mem_cons_self
      refine @Edit.inside (fun q => q) id _ _ _ _ _ _ _ hid hsplit (fun e he hin => ?_) (ih (key, c) hmem hc)
      have hsome : (replace? id new e.2).isSome := replace?_isSome.2 hin
      rw [hbefore e he] at hsome
      exact absurd hsome Bool.false_ne_true

/-! ### What a change leaves as it is -/

@[simp] theorem fold_id (p : Port) : (fold p).id = p.id := by unfold fold; split <;> rfl

@[simp] theorem fold_elements (p : Port) : (fold p).elements = p.elements := by unfold fold; split <;> rfl

@[simp] theorem fold_dataType (p : Port) : (fold p).dataType = p.dataType := by unfold fold; split <;> rfl

@[simp] theorem fold_direction (p : Port) : (fold p).direction = p.direction := by unfold fold; split <;> rfl

@[simp] theorem fold_lastRead (p : Port) : (fold p).lastRead = p.lastRead := by unfold fold; split <;> rfl

section Facts

variable {up : Port → Port} {id : PortId} {R : Port → Port → Prop} {p q : Port}

theorem Edit.imp {R' : Port → Port → Prop} (h : Edit up id R p q) (hR : ∀ c c', R c c' → R' c c') :
    Edit up id R' p q := by
  induction h with
  | here hid h => exact .here hid (hR _ _ h)
  | inside hid hes hbefore _ ih => exact .inside hid hes hbefore ih

theorem Edit.mem_ids (h : Edit up id R p q) : id ∈ p.ids := by
  induction h with
  | here hid _ => exact hid ▸ id_mem_ids _
  | @inside p c _ _ _ key _ hes _ _ ih =>
    have hmem : (key, c) ∈ p.elements := by rw [hes]; exact List.mem_append_right _ List.mem_cons_self
    exact Port.mem_ids.2 (Or.inr ⟨_, hmem, ih⟩)

theorem Edit.mem_ids_after (h : Edit up id R p q)
    (hes : ∀ r, (up r).elements = r.elements) (hR : ∀ c c', R c c' → c'.id = c.id) : id ∈ q.ids := by
  induction h with
  | @here p q hpid h => exact hpid ▸ hR p q h ▸ id_mem_ids q
  | @inside p c c' before after key _ _ _ _ ih =>
    refine Port.mem_ids.2 (Or.inr ⟨(key, c'), ?_, ih⟩)
    rw [hes]
    exact List.mem_append_right _ List.mem_cons_self

/-- The port that changed is one of the tree afterwards. -/
theorem Edit.mem_flatten_after (h : Edit up id R p q) (hes : ∀ r, (up r).elements = r.elements) :
    ∃ c c', R c c' ∧ c.id = id ∧ c' ∈ q.flatten := by
  induction h with
  | @here p q hid hR => exact ⟨p, q, hR, hid, self_mem_flatten q⟩
  | @inside p c c' before after key _ _ _ _ ih =>
    obtain ⟨x, x', hR, hid, hx⟩ := ih
    refine ⟨x, x', hR, hid, mem_flatten.2 (Or.inr ⟨(key, c'), ?_, hx⟩)⟩
    rw [hes]
    exact List.mem_append_right _ List.mem_cons_self

/-- The port that changes is one of the tree. -/
theorem Edit.and_mem (h : Edit up id R p q) :
    Edit up id (fun c c' => R c c' ∧ c ∈ p.flatten ∧ c.id = id) p q := by
  induction h with
  | @here p q hid h => exact .here hid ⟨h, self_mem_flatten p, hid⟩
  | @inside p c _ _ _ key hid hes hbefore _ ih =>
    have hmem : (key, c) ∈ p.elements := by rw [hes]; exact List.mem_append_right _ List.mem_cons_self
    refine .inside hid hes hbefore (ih.imp fun x x' ⟨hR, hx, hxid⟩ => ⟨hR, ?_, hxid⟩)
    exact mem_flatten.2 (Or.inr ⟨_, hmem, hx⟩)

theorem Edit.changed (h : Edit up id R p q) : ∃ c c', R c c' := by
  induction h with
  | here _ h => exact ⟨_, _, h⟩
  | inside _ _ _ _ ih => exact ih

theorem ids_split {p c : Port} {before after : List (String × Port)} {key : String}
    (hes : p.elements = before ++ (key, c) :: after) :
    p.ids = (p.id :: before.flatMap fun e => e.2.ids) ++ c.ids ++ after.flatMap fun e => e.2.ids := by
  rw [ids_eq, hes]
  simp only [List.flatMap_append, List.flatMap_cons, List.cons_append, List.append_assoc]

/-- The identifiers of a tree change only where its port changes. -/
theorem Edit.renews {s s' : Supply} (hid : ∀ r, (up r).id = r.id) (hes : ∀ r, (up r).elements = r.elements)
    (hR : ∀ c c', R c c' → s.Renews c.ids s' c'.ids) (h : Edit up id R p q) : s.Renews p.ids s' q.ids := by
  induction h with
  | here _ h => exact hR _ _ h
  | @inside p c c' before after key _ hsplit _ _ ih =>
    have hq : (up { p with elements := before ++ (key, c') :: after }).elements
        = before ++ (key, c') :: after := hes _
    rw [ids_split hsplit, ids_split hq, hid]
    exact ih.append _ _

theorem Edit.ids_eq (h : Edit (fun r => r) id R p q) (hR : ∀ c c', R c c' → c'.ids = c.ids) : q.ids = p.ids := by
  induction h with
  | here _ h => exact hR _ _ h
  | @inside p c c' before after key _ hsplit _ _ ih =>
    have hq : ({ p with elements := before ++ (key, c') :: after } : Port).elements
        = before ++ (key, c') :: after := rfl
    rw [ids_split hsplit, ids_split hq, ih]

end Facts

@[simp] theorem ids_read (p : Port) : p.read.2.ids = p.ids := by
  rw [ids_eq, ids_eq p]; rfl

/-- To read a port of a tree leaves all others as they are, but for their element ports. -/
theorem Edit.flatten_other {id : PortId} {p q r : Port} (h : Edit (fun r => r) id (fun c c' => c' = c.read.2) p q)
    (hr : r ∈ p.flatten) (hne : r.id ≠ id) :
    ∃ r' ∈ q.flatten, r'.id = r.id ∧ r'.data = r.data ∧ r'.hasNewData = r.hasNewData := by
  induction h with
  | @here p q hid heq =>
    rcases mem_flatten.1 hr with rfl | ⟨e, he, hre⟩
    · exact absurd hid hne
    · exact ⟨r, heq ▸ mem_flatten.2 (Or.inr ⟨e, he, hre⟩), rfl, rfl, rfl⟩
  | @inside p c c' before after key _ hes _ _ ih =>
    rcases mem_flatten.1 hr with rfl | ⟨e, he, hre⟩
    · exact ⟨_, self_mem_flatten _, rfl, rfl, rfl⟩
    · rw [hes] at he
      rcases List.mem_append.1 he with he | he
      · exact ⟨r, mem_flatten.2 (Or.inr ⟨e, List.mem_append_left _ he, hre⟩), rfl, rfl, rfl⟩
      · rcases List.mem_cons.1 he with rfl | he
        · obtain ⟨r', hr', hsame⟩ := ih hre
          refine ⟨r', mem_flatten.2 (Or.inr ⟨(key, c'), ?_, hr'⟩), hsame⟩
          exact List.mem_append_right _ List.mem_cons_self
        · refine ⟨r, mem_flatten.2 (Or.inr ⟨e, ?_, hre⟩), rfl, rfl, rfl⟩
          exact List.mem_append_right _ (List.mem_cons_of_mem _ he)

theorem renews_writeAt {id : PortId} {v w : Value} {p p' : Port} {s s' : Supply}
    (h : p.writeAt id v s = some (.ok (w, p', s'))) : s.Renews p.ids s' p'.ids :=
  (edit_of_writeAt h).renews fold_id fold_elements fun _ _ hw => renews_write hw

end Dataflow.Port
