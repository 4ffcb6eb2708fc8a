import Dataflow.Proofs.Port.Faithful
import Dataflow.Proofs.Port.Mirror

/-!
# One element of a nested container

A write to an element port exchanges one element in the value of every container above it, and leaves the rest of the
tree alone. A refused write leaves all of it alone.

* `Value.Replaced key x v w` says that `w` is the array or object `v` with `x` as its element under `key`;
* `Port.former` is the value that a container goes by when one of its elements is written: an emptied container counts
  as the collection of all its elements, each of them `null`;
* `Port.replaced_fold`: one level, where the text order of the keys of an array gives way to the order of its indexes;
* `Port.WrittenAlong` says for a whole tree what became of the ports on a path, and that all others stayed;
* `Port.outcome_writeAt`: the write is accepted or refused by the port with the identifier, and by nothing above it;
* `Port.lens_writeAt`: all this after any operations.
-/

namespace Dataflow

open Keyed

/-- `w` is the array or object `v` with `x` in the place of the element under `key`. The fields of the new object are in
ascending order. -/
inductive Value.Replaced (key : String) (x : Value) : Value → Value → Prop
  | item {items : List Value} {i : Nat} (hkey : key = Port.indexKey i) (hi : i < items.length) :
      Replaced key x (.array items) (.array (items.set i x))
  | field {fields fields' : Keyed Value} (hkey : key ∈ keys fields) (hascending : Ascending fields')
      (hfind : ∀ k, find? k fields' = if k = key then some x else find? k fields) :
      Replaced key x (.object fields) (.object fields')

namespace Port

/-- The value that a container goes by when an element is written: if it holds `null`, the collection of all its
elements, each of them `null`. -/
def former (p : Port) : Value :=
  match p.data, p.dataType with
  | .null, .array => .array (List.replicate p.elements.length .null)
  | .null, .object => .object (mapValues (fun _ => .null) p.elements)
  | v, _ => v

theorem former_of_ne_null {p : Port} (h : p.data ≠ .null) : p.former = p.data := by
  unfold former
  split
  · rename_i hnull _
    exact absurd hnull h
  · rename_i hnull _
    exact absurd hnull h
  · rfl

/-! ### One level -/

section Level

variable {p c : Port} (c' : Port) {before after : List (String × Port)} {key : String}

/-- The items of an array are the values of its element ports; in an emptied array these are all `null`. -/
theorem former_array (hp : p.Sound) (ht : p.dataType = .array) : p.former = .array (foldedItems p.elements) := by
  have hc : p.isContainer = true := isContainer_iff.2 (Or.inl ht)
  have hnumbered := hp.numbered ht
  by_cases hd : p.data = .null
  · have hnull : ∀ i, itemAt p.elements i = .null := fun i => by
      unfold itemAt
      cases hfind : Keyed.find? (indexKey i) p.elements with
      | none => rfl
      | some e => exact hp.emptied hd _ (mem_of_find? hfind)
    have hitems : foldedItems p.elements = List.replicate p.elements.length .null := by
      rw [foldedItems_eq hp.nodup hnumbered, List.eq_replicate_iff]
      simp [hnull]
    rw [hitems, former, hd, ht]
  · have htype := (dataType_of_fits hp.typed hc hd).trans ht
    obtain ⟨items, hitems⟩ : ∃ items, p.data = .array items := by
      cases hv : p.data <;> rw [hv] at htype <;> cases htype
      exact ⟨_, rfl⟩
    rw [former_of_ne_null hd, hitems]
    congr 1
    -- under the key of every index, both arrays have what the element port there holds
    refine List.ext_getElem? fun i => ?_
    rw [← Value.find?_numbered items 0 i, ← Value.find?_numbered (foldedItems p.elements) 0 i, Nat.zero_add]
    have hmirror := hp.mirrors hc hd (indexKey i)
    rw [hitems] at hmirror
    exact hmirror.symm.trans (find?_elements_foldedItems hp.nodup hnumbered _).symm

/-- The fields of an object hold the values of its element ports; in an emptied object these are all `null`. -/
theorem former_object (hp : p.Sound) (ht : p.dataType = .object) :
    ∃ fields, p.former = .object fields ∧ ∀ k, Keyed.find? k fields = (Keyed.find? k p.elements).map data := by
  have hc : p.isContainer = true := isContainer_iff.2 (Or.inr ht)
  by_cases hd : p.data = .null
  · refine ⟨mapValues (fun _ => .null) p.elements, by rw [former, hd, ht], fun k => ?_⟩
    rw [find?_mapValues]
    cases hfind : Keyed.find? k p.elements with
    | none => rfl
    | some e => exact congrArg some (hp.emptied hd _ (mem_of_find? hfind)).symm
  · have htype := (dataType_of_fits hp.typed hc hd).trans ht
    obtain ⟨fields, hfields⟩ : ∃ fields, p.data = .object fields := by
      cases hv : p.data <;> rw [hv] at htype <;> cases htype
      exact ⟨_, rfl⟩
    refine ⟨fields, by rw [former_of_ne_null hd, hfields], fun k => ?_⟩
    rw [hp.mirrors hc hd k, hfields, Value.elements]

/-- The port under the key of an index takes the place of that index, wherever its key comes in the order of the keys. -/
theorem foldedItems_exchange {i : Nat} (hn : (keys (before ++ (indexKey i, c) :: after)).Nodup)
    (hk : Numbered (before ++ (indexKey i, c) :: after)) :
    foldedItems (before ++ (indexKey i, c') :: after) =
      (foldedItems (before ++ (indexKey i, c) :: after)).set i c'.data := by
  have hn' : (keys (before ++ (indexKey i, c') :: after)).Nodup := by rwa [keys_exchange (c := c)]
  have hitem : ∀ j, itemAt (before ++ (indexKey i, c') :: after) j =
      if j = i then c'.data else itemAt (before ++ (indexKey i, c) :: after) j := fun j => by
    rw [itemAt, find?_exchange hn]
    by_cases hj : j = i
    · rw [if_pos (congrArg indexKey hj), if_pos hj, Option.map_some, Option.getD_some]
    · rw [if_neg fun h => hj (indexKey_injective h), if_neg hj, itemAt]
  rw [foldedItems_eq hn hk, foldedItems_eq hn' (numbered_exchange hk)]
  refine List.ext_getElem (by simp) fun j hj hj' => ?_
  rw [List.getElem_set, List.getElem_map, List.getElem_map, List.getElem_range, List.getElem_range, hitem]
  exact if_congr eq_comm rfl rfl

/-- A container takes over what one of its element ports holds, and counts a write. -/
theorem replaced_fold (hp : p.Sound) (hes : p.elements = before ++ (key, c) :: after) :
    ∃ d, fold { p with elements := before ++ (key, c') :: after } =
        { p with data := d, version := p.version + 1, elements := before ++ (key, c') :: after } ∧
      Value.Replaced key c'.data p.former d := by
  have hmem : (key, c) ∈ p.elements := by rw [hes]; exact List.mem_append_right _ List.mem_cons_self
  have hn := hp.nodup
  rcases isContainer_iff.1 (hp.isContainer hmem) with ht | ht
  · refine ⟨.array (foldedItems (before ++ (key, c') :: after)), by simp only [fold, ht], ?_⟩
    have hnumbered := hp.numbered ht
    obtain ⟨i, hi, rfl⟩ := (hnumbered key).1 (mem_keys_of_mem hmem)
    rw [former_array hp ht]
    have hlength : (foldedItems p.elements).length = p.elements.length := by
      rw [foldedItems_eq hn hnumbered, List.length_map, List.length_range]
    rw [hes] at hn hnumbered
    rw [foldedItems_exchange c' hn hnumbered, ← hes]
    exact .item rfl (hlength ▸ hi)
  · refine ⟨.object (foldedFields (before ++ (key, c') :: after)), by simp only [fold, ht], ?_⟩
    obtain ⟨fields, hformer, hfind⟩ := former_object hp ht
    rw [hformer]
    refine .field ?_ ?_ fun k => ?_
    · rw [← Keyed.find?_isSome, hfind, Option.isSome_map, Keyed.find?_isSome]
      exact mem_keys_of_mem hmem
    · exact ascending_mapValues.2 (ascending_exchange (hes ▸ hp.ascending))
    · have hfolded := find?_elements_foldedFields (before ++ (key, c') :: after) k
      rw [Value.elements] at hfolded
      rw [hes] at hn
      rw [hfolded, find?_exchange hn, hfind, hes]
      split_ifs <;> rfl

end Level

/-! ### A whole path -/

/-- What a write leaves of a tree: `c` at the end of the path became `c'`; every container above it has exchanged the
element on the path and counts one write more; all ports beside the path are as they were. -/
structure WrittenAlong (path : List String) (c c' p p' : Port) : Prop where
  found : p.atPath? path = some c
  stored : p'.atPath? path = some c'
  folded : ∀ above key below, path = above ++ key :: below → ∃ q e d es, p.atPath? above = some q ∧
    p'.atPath? above = some { q with data := d, version := q.version + 1, elements := es } ∧
    keys es = keys q.elements ∧ p'.atPath? (above ++ [key]) = some e ∧ Value.Replaced key e.data q.former d
  beside : ∀ other, ¬ other <+: path → ¬ path <+: other → p'.atPath? other = p.atPath? other

theorem WrittenAlong.refl {c c' : Port} : WrittenAlong [] c c' c c' where
  found := rfl
  stored := rfl
  folded above key below heq := absurd heq (by simp)
  beside other _ h := absurd List.nil_prefix h

/-- One container more above the port. -/
theorem WrittenAlong.cons {path : List String} {x x' p c c' : Port} {before after : List (String × Port)} {key : String}
    (h : WrittenAlong path x x' c c') (hp : p.Sound) (hes : p.elements = before ++ (key, c) :: after) :
    WrittenAlong (key :: path) x x' p (fold { p with elements := before ++ (key, c') :: after }) := by
  have hn := hp.nodup
  obtain ⟨d, hfold, hreplaced⟩ := replaced_fold c' hp hes
  have hfind : ∀ k, Keyed.find? k (before ++ (key, c') :: after) =
      if k = key then some c' else Keyed.find? k p.elements := by
    rw [hes] at hn ⊢
    exact find?_exchange hn
  have hc : Keyed.find? key p.elements = some c :=
    find?_of_mem hn (by rw [hes]; exact List.mem_append_right _ List.mem_cons_self)
  have hbelow : ∀ other, (fold { p with elements := before ++ (key, c') :: after }).atPath? (key :: other) =
      c'.atPath? other := fun other => by rw [atPath?_cons, fold_elements, hfind, if_pos rfl, Option.bind_some]
  refine ⟨?_, ?_, fun above k below heq => ?_, fun other hother hpath => ?_⟩
  · rw [atPath?_cons, hc]
    exact h.found
  · rw [hbelow]
    exact h.stored
  · cases above with
    | nil =>
      obtain ⟨rfl, rfl⟩ := List.cons.inj heq
      refine ⟨p, c', d, _, rfl, congrArg some hfold, ?_, ?_, hreplaced⟩
      · rw [hes, keys_exchange]
      · rw [List.nil_append, hbelow, atPath?_nil]
    | cons first above =>
      obtain ⟨rfl, hrest⟩ := List.cons.inj heq
      obtain ⟨q, e, d', es, hq, hq', hkeys, he, hd⟩ := h.folded above k below hrest
      refine ⟨q, e, d', es, ?_, ?_, hkeys, ?_, hd⟩
      · rw [atPath?_cons, hc]
        exact hq
      · rw [hbelow, hq']
      · rw [List.cons_append, hbelow, he]
  · cases other with
    | nil => exact absurd List.nil_prefix hother
    | cons k other =>
      by_cases hk : k = key
      · subst hk
        rw [hbelow, atPath?_cons, hc, Option.bind_some]
        refine h.beside other (fun hpre => hother ?_) (fun hpre => hpath ?_)
        · exact (List.prefix_cons_inj k).2 hpre
        · exact (List.prefix_cons_inj k).2 hpre
      · rw [atPath?_cons, fold_elements, hfind, if_neg hk, atPath?_cons]

/-- A change that is folded into a sound tree is one along a path. -/
theorem Edit.writtenAlong {id : PortId} {R : Port → Port → Prop} {p q : Port} (h : Edit fold id R p q)
    (hp : Every Sound p) : ∃ path c c', c.id = id ∧ R c c' ∧ WrittenAlong path c c' p q := by
  induction h with
  | @here p q hid hR => exact ⟨[], p, q, hid, hR, .refl⟩
  | @inside p c c' before after key hid hes _ _ ih =>
    have hmem : (key, c) ∈ p.elements := by rw [hes]; exact List.mem_append_right _ List.mem_cons_self
    obtain ⟨path, x, x', hx, hR, halong⟩ := ih (hp.element hmem)
    exact ⟨key :: path, x, x', hx, hR, halong.cons hp.self hes⟩

/-! ### Accepted or refused -/

/-- What a write answers: the value as stored and the supply that is left, or an error. -/
def outcome {α : Type} (result : Except ConversionError (Value × α × Supply)) : Except ConversionError (Value × Supply) :=
  result.map fun (w, _, s) => (w, s)

theorem outcome_map {α β : Type} (result : Except ConversionError (Value × α × Supply)) (f : α → β) :
    outcome (result.map fun r => (r.1, f r.2.1, r.2.2)) = outcome result := by
  cases result <;> rfl

/-- Writing to a tree is answered by the port with the identifier. -/
theorem outcome_writeAt (id : PortId) (v : Value) (s : Supply) (p : Port) :
    (p.writeAt id v s).map outcome = (p.find? id).map fun c => outcome (c.write v s) := by
  induction p using Port.induction with
  | step p ih =>
    rw [writeAt_eq, Port.find?, flatten_eq, List.find?_cons]
    by_cases hid : p.id = id
    · simp only [hid, if_true, decide_true, Option.map_some]
    · simp only [hid, if_false, decide_false, Option.map_map]
      have hin : (writeIn id v p.elements s).map outcome =
          ((p.elements.flatMap fun e => e.2.flatten).find? fun c => decide (c.id = id)).map
            fun c => outcome (c.write v s) := by
        generalize p.elements = es at ih
        induction es with
        | nil => rfl
        | cons entry rest ihrest =>
          obtain ⟨key, c⟩ := entry
          have hc := ih _ List.mem_cons_self
          have hrest := ihrest fun e he => ih e (List.mem_cons_of_mem _ he)
          rw [writeIn, List.flatMap_cons, List.find?_append]
          rw [Port.find?] at hc
          cases hat : c.writeAt id v s with
          | some result =>
            rw [hat] at hc
            obtain ⟨x, hx, hout⟩ := Option.map_eq_some_iff.1 hc.symm
            simp only [hx, Option.map_some, Option.some_or, hout]
            exact congrArg some (outcome_map result fun c : Port => (key, c) :: rest)
          | none =>
            rw [hat] at hc
            rw [Option.map_eq_none_iff.1 hc.symm, Option.none_or, ← hrest, Option.map_map]
            exact congrArg (fun f => Option.map f (writeIn id v rest s)) (funext fun result => outcome_map result ((key, c) :: ·))
      rw [← hin]
      exact congrArg (fun f => Option.map f (writeIn id v p.elements s)) (funext fun result =>
        outcome_map result fun es => fold { p with elements := es })

/-- An accepted write is counted. -/
theorem write_version {p p' : Port} {v w : Value} {s s' : Supply} (h : p.write v s = .ok (w, p', s')) :
    p'.version = p.version + 1 := by
  rcases write_eq_ok h with ⟨-, -, rfl, -⟩ | ⟨-, -, rfl, -⟩
  · rfl
  · rw [place_version]
    rfl

/-! ### After any operations -/

/-- **An element write is a lens.** Whatever was done to a port before, if its tree has distinct identifiers, a write to
a port of the tree finds the port exactly if its identifier is there. If the port refuses the value, the tree stays.
Else the port stores the value as converted, every container above it has its former value with the one element on the
path exchanged, all of them count one write more, and every port beside the path is as it was. -/
theorem lens_writeAt {operations : List Operation} {id : PortId} {name : String} {direction : Direction}
    {kind : PortKind} {t : DataType} {s₀ s : Supply} {p : Port}
    (hreached : operateAll operations (new id name direction kind t, s₀) = (p, s)) (hn : p.ids.Nodup)
    (target : PortId) (v : Value) :
    (p.writeAt target v s = none ↔ target ∉ p.ids) ∧
    (∀ error, p.writeAt target v s = some (.error error) →
      operate (.writeAt target v) (p, s) = (p, s) ∧ ∃ c, p.find? target = some c ∧ c.write v s = .error error) ∧
    (∀ w p' s', p.writeAt target v s = some (.ok (w, p', s')) →
      operate (.writeAt target v) (p, s) = (p', s') ∧ ∃ path c c', p.find? target = some c ∧
        c.write v s = .ok (w, c', s') ∧ c'.id = target ∧ c'.data = w ∧ c'.version = c.version + 1 ∧
        WrittenAlong path c c' p p') := by
  have hp : Every Sound p := by
    have hsound := sound_operateAll operations s₀ (sound_new id name direction kind t)
    rwa [hreached] at hsound
  refine ⟨writeAt_eq_none, fun error h => ⟨?_, ?_⟩, fun w p' s' h => ⟨?_, ?_⟩⟩
  · simp only [operate, h, Option.map_some, Option.getD_some, afterWrite]
  · have hanswer := outcome_writeAt target v s p
    rw [h] at hanswer
    obtain ⟨c, hc, hout⟩ := Option.map_eq_some_iff.1 hanswer.symm
    refine ⟨c, hc, ?_⟩
    cases hwrite : c.write v s <;> rw [hwrite] at hout <;> cases hout
    rfl
  · simp only [operate, h, Option.map_some, Option.getD_some, afterWrite]
  · obtain ⟨path, c, c', hid, hwrite, halong⟩ := (edit_of_writeAt h).writtenAlong hp
    refine ⟨path, c, c', ?_, hwrite, (write_id hwrite).trans hid, write_data hwrite, write_version hwrite, halong⟩
    exact (find?_eq_some_iff hn).2 ⟨mem_flatten_of_atPath? halong.found, hid⟩

/-- What was done to an array of eleven items, the last of them an object: it was written and emptied. -/
def wiped : List Operation :=
  [.write (.array (List.replicate 10 (.integer 7) ++ [.object [("x", .integer 1)]])), .clear]

/-- The field of the last item is written: the array has eleven items again, ten of them `null`. -/
theorem lens_writeAt_emptied : ∃ p s p' s',
    operateAll wiped (new ⟨0⟩ "items" .input .data .array, ⟨1⟩) = (p, s) ∧ p.ids.Nodup ∧
      p.writeAt ⟨12⟩ (.integer 5) s = some (.ok (.integer 5, p', s')) ∧
      p'.data = .array (List.replicate 10 .null ++ [.object [("x", .integer 5)]]) ∧
      ∃ path c c', p.find? ⟨12⟩ = some c ∧ c'.data = .integer 5 ∧ WrittenAlong path c c' p p' := by
  obtain ⟨p, s, p', s', hreached, hn, hwrite, hdata⟩ : ∃ p s p' s',
      operateAll wiped (new ⟨0⟩ "items" .input .data .array, ⟨1⟩) = (p, s) ∧ p.ids.Nodup ∧
        p.writeAt ⟨12⟩ (.integer 5) s = some (.ok (.integer 5, p', s')) ∧
        p'.data = .array (List.replicate 10 .null ++ [.object [("x", .integer 5)]]) :=
    ⟨_, _, _, _, rfl, by decide, rfl, rfl⟩
  obtain ⟨-, path, c, c', hc, -, -, hstored, -, halong⟩ := (lens_writeAt hreached hn ⟨12⟩ (.integer 5)).2.2 _ _ _ hwrite
  exact ⟨p, s, p', s', hreached, hn, hwrite, hdata, path, c, c', hc, hstored, halong⟩

end Port

end Dataflow
