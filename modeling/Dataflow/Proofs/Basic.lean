import Dataflow.Keyed
import Dataflow.Table
import Mathlib.Data.List.Nodup
import Mathlib.Data.List.Basic
import Mathlib.Data.String.Basic
import Mathlib.Tactic

/-!
# Look-up in keyed lists and in tables

* what `Keyed.insert` and `Keyed.mapValues` do to the keys, the entries and look-up;
* an ascending list has each key once, so that membership and look-up agree;
* `Table.Proper` says that a table has each key once; look-up after filtering such a table;
* `Except.map_eq_ok`, `Except.bind_eq_ok`: what a successful chain of steps went through.
-/

namespace Dataflow

namespace Keyed

variable {α β : Type}

@[simp] theorem keys_nil : keys ([] : Keyed α) = [] := rfl

@[simp] theorem keys_cons (k : String) (a : α) (rest : Keyed α) :
    keys ((k, a) :: rest) = k :: keys rest := rfl

theorem mem_of_find? {key : String} {a : α} {entries : Keyed α} (h : find? key entries = some a) :
    (key, a) ∈ entries := by
  induction entries with
  | nil => simp at h
  | cons entry rest ih =>
    obtain ⟨k, b⟩ := entry
    rw [find?_cons] at h
    split_ifs at h with hk
    · cases h; subst hk; exact List.mem_cons_self
    · exact List.mem_cons_of_mem _ (ih h)

theorem mem_keys_of_mem {key : String} {a : α} {entries : Keyed α} (h : (key, a) ∈ entries) :
    key ∈ keys entries :=
  List.mem_map.2 ⟨_, h, rfl⟩

theorem find?_eq_none {key : String} {entries : Keyed α} :
    find? key entries = none ↔ key ∉ keys entries := by
  induction entries with
  | nil => simp
  | cons entry rest ih =>
    obtain ⟨k, b⟩ := entry
    by_cases hk : k = key
    · simp [hk]
    · simp [hk, ih, Ne.symm hk]

theorem find?_isSome {key : String} {entries : Keyed α} :
    (find? key entries).isSome ↔ key ∈ keys entries := by
  rw [Option.isSome_iff_ne_none, ne_eq, find?_eq_none, not_not]

instance (entries : Keyed α) : Decidable (Ascending entries) :=
  inferInstanceAs (Decidable (List.Pairwise _ _))

@[simp] theorem ascending_nil : Ascending ([] : Keyed α) := List.Pairwise.nil

theorem ascending_cons {k : String} {a : α} {rest : Keyed α} :
    Ascending ((k, a) :: rest) ↔ (∀ key ∈ keys rest, k < key) ∧ Ascending rest :=
  List.pairwise_cons

theorem Ascending.nodup {entries : Keyed α} (h : Ascending entries) : (keys entries).Nodup :=
  List.Pairwise.imp (fun hlt => ne_of_lt hlt) h

theorem find?_of_mem {key : String} {a : α} {entries : Keyed α} (hk : (keys entries).Nodup)
    (h : (key, a) ∈ entries) : find? key entries = some a := by
  induction entries with
  | nil => simp at h
  | cons entry rest ih =>
    obtain ⟨k, b⟩ := entry
    rw [keys_cons, List.nodup_cons] at hk
    rcases List.mem_cons.1 h with h | h
    · cases h; simp
    · have hne : k ≠ key := fun e => hk.1 (e ▸ mem_keys_of_mem h)
      rw [find?_cons, if_neg hne]
      exact ih hk.2 h

theorem length_eq_of_keys {entries entries' : Keyed α} (h : keys entries = keys entries') :
    entries.length = entries'.length := by
  simpa [keys] using congrArg List.length h

/-- An ascending list is what look-up finds in it. -/
theorem Ascending.ext {a b : Keyed α} (ha : Ascending a) (hb : Ascending b) (h : ∀ key, find? key a = find? key b) :
    a = b := by
  have hle : ∀ {c d : Keyed α}, Ascending c → (∀ key, find? key c = find? key d) → ∀ e ∈ c, e ∈ d :=
    fun hc heq e he => mem_of_find? ((heq e.1).symm.trans (find?_of_mem hc.nodup he))
  have hpairs : ∀ {c : Keyed α}, Ascending c → c.Pairwise fun e e' => e.1 < e'.1 := fun hc => List.pairwise_map.1 hc
  have hperm : a.Perm b := (List.perm_ext_iff_of_nodup ha.nodup.of_map hb.nodup.of_map).2
    fun e => ⟨hle ha h e, hle hb (fun key => (h key).symm) e⟩
  exact hperm.eq_of_pairwise (fun _ _ _ _ hlt hgt => absurd hgt (lt_asymm hlt)) (hpairs ha) (hpairs hb)

/-! ### Changing all values -/

@[simp] theorem keys_mapValues (f : α → β) (entries : Keyed α) :
    keys (mapValues f entries) = keys entries := by
  simp [keys, mapValues]

@[simp] theorem values_mapValues (f : α → β) (entries : Keyed α) :
    values (mapValues f entries) = (values entries).map f := by
  simp [values, mapValues]

@[simp] theorem ascending_mapValues {f : α → β} {entries : Keyed α} :
    Ascending (mapValues f entries) ↔ Ascending entries := by
  simp [Ascending]

theorem mapValues_eq_mapValues {f : α → β} {entries entries' : Keyed α} : mapValues f entries = mapValues f entries' ↔
    List.Forall₂ (fun e e' => e.1 = e'.1 ∧ f e.2 = f e'.2) entries entries' := by
  rw [← List.forall₂_eq_eq_eq, mapValues, mapValues, List.forall₂_map_left_iff, List.forall₂_map_right_iff]
  simp only [Prod.mk.injEq]

theorem mapValues_insert (f : α → β) (key : String) (a : α) (entries : Keyed α) :
    mapValues f (insert key a entries) = insert key (f a) (mapValues f entries) := by
  induction entries with
  | nil => rfl
  | cons entry rest ih =>
    obtain ⟨k, b⟩ := entry
    simp only [mapValues, insert, List.map_cons] at ih ⊢
    split_ifs
    · rfl
    · rfl
    · rw [List.map_cons, ih]

@[simp] theorem find?_mapValues (key : String) (f : α → β) (entries : Keyed α) :
    find? key (mapValues f entries) = (find? key entries).map f := by
  induction entries with
  | nil => rfl
  | cons entry rest ih =>
    obtain ⟨k, b⟩ := entry
    change (if k = key then some (f b) else find? key (mapValues f rest)) = _
    by_cases hk : k = key <;> simp [hk, ih]

/-! ### Writing under a key -/

theorem mem_insert {key : String} {a : α} {entries : Keyed α} {entry : String × α}
    (h : entry ∈ insert key a entries) : entry = (key, a) ∨ entry ∈ entries := by
  induction entries with
  | nil => exact Or.inl (by simpa [insert] using h)
  | cons first rest ih =>
    obtain ⟨k, b⟩ := first
    unfold insert at h
    split_ifs at h with h1 h2
    · rcases List.mem_cons.1 h with h | h
      · exact Or.inl h
      · exact Or.inr (List.mem_cons_of_mem _ h)
    · exact List.mem_cons.1 h
    · rcases List.mem_cons.1 h with h | h
      · exact Or.inr (h ▸ List.mem_cons_self)
      · exact (ih h).imp_right (List.mem_cons_of_mem _)

theorem mem_keys_insert {key other : String} {a : α} {entries : Keyed α} :
    other ∈ keys (insert key a entries) ↔ other = key ∨ other ∈ keys entries := by
  by_cases h : key = other
  · subst h
    rw [← find?_isSome]; simp
  · rw [← find?_isSome, find?_insert_of_ne h, find?_isSome]
    simp [Ne.symm h]

theorem Ascending.insert {key : String} {a : α} {entries : Keyed α} (h : Ascending entries) :
    Ascending (insert key a entries) := by
  induction entries with
  | nil => simp [Keyed.insert, ascending_cons]
  | cons entry rest ih =>
    obtain ⟨k, b⟩ := entry
    obtain ⟨hk, hr⟩ := ascending_cons.1 h
    unfold Keyed.insert
    split_ifs with h1 h2
    · exact ascending_cons.2 ⟨h1 ▸ hk, hr⟩
    · refine ascending_cons.2 ⟨fun other ho => ?_, h⟩
      rcases List.mem_cons.1 ho with ho | ho
      · exact ho ▸ h2
      · exact lt_trans h2 (hk other ho)
    · refine ascending_cons.2 ⟨fun other ho => ?_, ih hr⟩
      rcases mem_keys_insert.1 ho with ho | ho
      · exact ho ▸ lt_of_le_of_ne (not_lt.1 h2) h1
      · exact hk other ho

/-- Writing under a key changes one entry or adds one, and leaves the order of the others as it is. -/
theorem insert_split {entries : Keyed α} (ha : Ascending entries) (key : String) :
    ∃ before after, entries = before ++ ((find? key entries).map (key, ·)).toList ++ after ∧
      ∀ a, insert key a entries = before ++ (key, a) :: after := by
  induction entries with
  | nil => exact ⟨[], [], rfl, fun _ => rfl⟩
  | cons entry rest ih =>
    obtain ⟨k, c⟩ := entry
    obtain ⟨hlt, hr⟩ := ascending_cons.1 ha
    by_cases hk : k = key
    · subst hk
      exact ⟨[], rest, by simp, fun a => by simp [insert]⟩
    · by_cases hlt' : key < k
      · have hnone : find? key rest = none :=
          find?_eq_none.2 fun hm => lt_asymm hlt' (hlt key hm)
        exact ⟨[], (k, c) :: rest, by simp [hk, hnone], fun a => by simp [insert, hk, hlt']⟩
      · obtain ⟨before, after, hsplit, hins⟩ := ih hr
        refine ⟨(k, c) :: before, after, ?_, fun a => by simp [insert, hk, hlt', hins]⟩
        rw [find?_cons, if_neg hk, List.cons_append, List.cons_append, ← hsplit]

theorem insert_last {key : String} {entries : Keyed α} (h : ∀ k ∈ keys entries, k < key) (a : α) :
    insert key a entries = entries ++ [(key, a)] := by
  induction entries with
  | nil => rfl
  | cons entry rest ih =>
    obtain ⟨k, b⟩ := entry
    have hk : k < key := h k List.mem_cons_self
    rw [insert, if_neg (ne_of_lt hk), if_neg (lt_asymm hk), ih fun k' hk' => h k' (List.mem_cons_of_mem _ hk')]
    rfl

theorem foldl_insert (done : Keyed α) {pairs : List (String × α)} (h : Ascending (done ++ pairs)) :
    pairs.foldl (fun entries pair => insert pair.1 pair.2 entries) done = done ++ pairs := by
  induction pairs generalizing done with
  | nil => rw [List.foldl_nil, List.append_nil]
  | cons pair rest ih =>
    obtain ⟨key, a⟩ := pair
    have hlast : ∀ k ∈ keys done, k < key := by
      rw [Ascending, keys, List.map_append] at h
      exact fun k hk => (List.pairwise_append.1 h).2.2 k hk key List.mem_cons_self
    rw [List.foldl_cons, insert_last hlast, ih _ (by rwa [List.append_assoc]), List.append_assoc, List.singleton_append]

/-- Pairs in ascending order are what writing them one after the other gives. -/
theorem ofList_of_ascending {pairs : List (String × α)} (h : Ascending pairs) : ofList pairs = pairs :=
  foldl_insert [] h

end Keyed

namespace Table

variable {κ α : Type} [DecidableEq κ]

/-- Each key of a table occurs once. -/
def Proper (table : Table κ α) : Prop :=
  (table.map Prod.fst).Nodup

theorem mem_of_find? {key : κ} {a : α} {table : Table κ α} (h : find? key table = some a) :
    (key, a) ∈ table := by
  induction table with
  | nil => simp at h
  | cons entry rest ih =>
    obtain ⟨k, b⟩ := entry
    rw [find?_cons] at h
    split_ifs at h with hk
    · cases h; subst hk; exact List.mem_cons_self
    · exact List.mem_cons_of_mem _ (ih h)

theorem find?_eq_none {key : κ} {table : Table κ α} :
    find? key table = none ↔ key ∉ table.map Prod.fst := by
  induction table with
  | nil => simp
  | cons entry rest ih =>
    obtain ⟨k, b⟩ := entry
    by_cases hk : k = key
    · simp [hk]
    · rw [find?_cons, if_neg hk, ih, List.map_cons, List.mem_cons, not_or]
      exact ⟨fun h => ⟨Ne.symm hk, h⟩, fun h => h.2⟩

theorem Proper.find?_of_mem {key : κ} {a : α} {table : Table κ α} (hp : Proper table)
    (h : (key, a) ∈ table) : find? key table = some a := by
  induction table with
  | nil => simp at h
  | cons entry rest ih =>
    obtain ⟨k, b⟩ := entry
    have hp' := List.nodup_cons.1 hp
    rcases List.mem_cons.1 h with h | h
    · cases h; simp
    · have hne : k ≠ key := fun e => hp'.1 (e ▸ List.mem_map.2 ⟨_, h, rfl⟩)
      rw [find?_cons, if_neg hne]
      exact ih hp'.2 h

theorem Proper.find?_filter {table : Table κ α} (hp : Proper table) (keep : α → Bool) (key : κ) :
    find? key (table.filter fun entry => keep entry.2) = (find? key table).filter keep := by
  induction table with
  | nil => rfl
  | cons entry rest ih =>
    obtain ⟨k, b⟩ := entry
    have hp' := List.nodup_cons.1 hp
    by_cases hk : k = key
    · subst hk
      have hrest : find? k (rest.filter fun entry => keep entry.2) = none := by
        rw [ih hp'.2, find?_eq_none.2 hp'.1]; rfl
      cases hb : keep b <;> simp [hb, hrest, Option.filter]
    · cases hb : keep b <;> simp [hb, hk, ih hp'.2]

omit [DecidableEq κ] in
theorem Proper.filter {table : Table κ α} (hp : Proper table) (keep : κ × α → Bool) :
    Proper (table.filter keep) :=
  List.Nodup.sublist (List.Sublist.map _ List.filter_sublist) hp

theorem mem_keys_set {key other : κ} {a : α} {table : Table κ α} :
    other ∈ (set key a table).map Prod.fst ↔ other = key ∨ other ∈ table.map Prod.fst := by
  induction table with
  | nil => simp [set]
  | cons entry rest ih =>
    obtain ⟨k, b⟩ := entry
    by_cases hk : k = key
    · simp [set, hk]
    · simp only [set, hk, if_false, List.map_cons, List.mem_cons, ih]
      tauto

theorem Proper.set {key : κ} {a : α} {table : Table κ α} (hp : Proper table) :
    Proper (set key a table) := by
  induction table with
  | nil => simp [Table.set, Proper]
  | cons entry rest ih =>
    obtain ⟨k, b⟩ := entry
    have hp' := List.nodup_cons.1 hp
    by_cases hk : k = key
    · subst hk
      simp only [Table.set, if_true]
      exact hp
    · simp only [Table.set, hk, if_false]
      refine List.nodup_cons.2 ⟨fun hm => ?_, ih hp'.2⟩
      rcases mem_keys_set.1 hm with hm | hm
      · exact hk hm
      · exact hp'.1 hm

theorem find?_set (key other : κ) (a : α) (table : Table κ α) :
    find? other (set key a table) = if key = other then some a else find? other table := by
  split_ifs with h
  · subst h; simp
  · exact find?_set_of_ne h a table

theorem find?_erase (key other : κ) (table : Table κ α) :
    find? other (erase key table) = if key = other then none else find? other table := by
  split_ifs with h
  · subst h; simp
  · exact find?_erase_of_ne h table

@[simp] theorem set_set (key : κ) (a b : α) (table : Table κ α) :
    set key b (set key a table) = set key b table := by
  induction table with
  | nil => simp [set]
  | cons entry rest ih =>
    obtain ⟨k, c⟩ := entry
    by_cases hk : k = key <;> simp [set, hk, ih]

theorem set_of_find? {key : κ} {a : α} {table : Table κ α} (h : find? key table = some a) :
    set key a table = table := by
  induction table with
  | nil => simp at h
  | cons entry rest ih =>
    obtain ⟨k, b⟩ := entry
    by_cases hk : k = key
    · subst hk; simp_all [set]
    · simp_all [set]

@[simp] theorem erase_set (key : κ) (a : α) (table : Table κ α) : erase key (set key a table) = erase key table := by
  induction table with
  | nil => simp [set, erase]
  | cons entry rest ih =>
    obtain ⟨k, b⟩ := entry
    by_cases hk : k = key <;> simp [set, erase, hk, ih]

theorem erase_of_find? {key : κ} {table : Table κ α} (h : find? key table = none) : erase key table = table := by
  induction table with
  | nil => rfl
  | cons entry rest ih =>
    obtain ⟨k, b⟩ := entry
    by_cases hk : k = key
    · simp [hk] at h
    · simp [erase, hk, ih (by simpa [hk] using h)]

theorem find?_append (key : κ) (a b : Table κ α) : find? key (a ++ b) = (find? key a).or (find? key b) := by
  induction a with
  | nil => rfl
  | cons entry rest ih =>
    obtain ⟨k, c⟩ := entry
    by_cases hk : k = key <;> simp [hk, ih]

/-- A keyed list as a table, with its keys renamed. -/
theorem find?_map_keyed {f : String → κ} (hf : Function.Injective f) (key : String) (entries : Keyed α) :
    find? (f key) (entries.map fun e => (f e.1, e.2)) = Keyed.find? key entries := by
  induction entries with
  | nil => rfl
  | cons entry rest ih =>
    obtain ⟨k, a⟩ := entry
    rw [List.map_cons, find?_cons, Keyed.find?_cons, ih]
    simp [hf.eq_iff]

theorem find?_map_keyed_of_ne {f : String → κ} {key : κ} (hf : ∀ k, f k ≠ key) (entries : Keyed α) :
    find? key (entries.map fun e => (f e.1, e.2)) = none := by
  rw [find?_eq_none]
  simp [hf]

end Table

section Lists

/-- An item of two lists, one behind the other, stands in the first or in the second. -/
theorem split_append {α : Type} {list list' before after : List α} {a : α}
    (h : list ++ list' = before ++ a :: after) :
    (∃ rest, list = before ++ a :: rest ∧ after = rest ++ list') ∨
      ∃ first, before = list ++ first ∧ list' = first ++ a :: after := by
  rcases List.append_eq_append_iff.1 h with ⟨first, hbefore, hlist⟩ | ⟨rest, hlist, hafter⟩
  · exact Or.inr ⟨first, hbefore, hlist⟩
  · rcases List.cons_eq_append_iff.1 hafter with ⟨rfl, hlist'⟩ | ⟨rest', rfl, rfl⟩
    · exact Or.inr ⟨[], by rw [hlist, List.append_nil, List.append_nil], hlist'⟩
    · exact Or.inl ⟨rest', hlist, rfl⟩

variable {α : Type} [DecidableEq α]

theorem filter_ne_of_notMem {a : α} {list : List α} (h : a ∉ list) : list.filter (· ≠ a) = list :=
  List.filter_eq_self.2 fun _ hb => decide_eq_true (ne_of_mem_of_not_mem hb h)

/-- An element that was put at the end is taken out again. -/
theorem filter_ne_append {a : α} {list : List α} (h : a ∉ list) : (list ++ [a]).filter (· ≠ a) = list := by
  rw [List.filter_append, filter_ne_of_notMem h]
  simp

theorem mem_insertNew {a b : α} {list : List α} : b ∈ insertNew a list ↔ b = a ∨ b ∈ list := by
  unfold insertNew
  split_ifs with h
  · exact ⟨Or.inr, fun hb => hb.elim (fun e => e ▸ h) id⟩
  · rw [List.mem_append, List.mem_singleton, or_comm]

theorem nodup_insertNew {a : α} {list : List α} (h : list.Nodup) : (insertNew a list).Nodup := by
  unfold insertNew
  split_ifs with ha
  · exact h
  · exact List.nodup_append.2 ⟨h, List.nodup_singleton a, fun b hb c hc e =>
      ha (by rw [← List.mem_singleton.1 hc, ← e]; exact hb)⟩

end Lists

end Dataflow

section Results

variable {ε α β : Type}

theorem Except.map_eq_ok {f : α → β} {x : Except ε α} {b : β} : x.map f = .ok b ↔ ∃ a, x = .ok a ∧ f a = b := by
  cases x <;> simp [Except.map]

theorem Except.bind_eq_ok {f : α → Except ε β} {x : Except ε α} {b : β} :
    (x >>= f) = .ok b ↔ ∃ a, x = .ok a ∧ f a = .ok b := by
  cases x <;> simp [bind, Except.bind]

theorem Except.toOption_eq_some {x : Except ε α} {a : α} : x.toOption = some a ↔ x = .ok a := by
  cases x <;> simp [Except.toOption]

end Results
