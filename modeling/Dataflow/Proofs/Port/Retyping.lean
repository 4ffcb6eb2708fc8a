import Dataflow.Proofs.Port.Identity
import Dataflow.Proofs.Port.Lens

/-!
# Changing the type of an element port

A change of type converts the value of a port, or clears it. It does so in place: the containers above an element port
keep the value that they had, and are made anew from their element ports only by the next write below them.

* `Port.Keeps` says that a change of type keeps the value;
* `Port.Tidy` is what the element ports of every port keep to, whatever types were changed; `Port.tidy_setDataType` and
  `Port.tidy_writeAt` preserve it;
* `Port.Truthful` says that a container holds what its element ports hold;
* `Port.ChangedAlong` says for a whole tree what became of the ports on a path, and that all others stayed;
* `Port.ChangedAlong.truthfulAlong_iff`: which containers are truthful after a change of type;
* `Port.ChangedAlong.elements_written`: what a container holds after a write to one of its element ports.
-/

namespace Dataflow.Port

open Keyed

/-! ### The port itself -/

section SetDataType

variable (p : Port) (t : DataType) (s : Supply)

@[simp] theorem setDataType_id : (p.setDataType t s).1.id = p.id := by
  rcases setDataType_cases p t s with h | ⟨v, es, -, -, -, h⟩ | h <;> rw [h]
  · rw [place_id]
  · rw [clear_id]

@[simp] theorem setDataType_dataType : (p.setDataType t s).1.dataType = t := by
  unfold setDataType
  split_ifs with h
  · exact h
  all_goals
    dsimp only
    split
    · rw [place_dataType]
    · rw [clear_dataType]

/-- A change of type does not touch the value of a port: it has the type already, or the value is one of the type. -/
def Keeps (p : Port) (t : DataType) : Prop :=
  p.dataType = t ∨ p.data.convert t = .ok p.data

theorem data_setDataType : (p.setDataType t s).1.data = p.data ↔ p.Keeps t := by
  unfold setDataType Keeps
  split_ifs with h
  · exact ⟨fun _ => Or.inl h, fun _ => rfl⟩
  all_goals
    dsimp only
    cases hv : p.data.convert t with
    | ok v => simp [h]
    | error err =>
      have hne : p.data ≠ .null := by
        rintro hnull
        rw [hnull] at hv
        cases hv
      simp [h, hne.symm]

end SetDataType

/-! ### Tidy ports -/

/-- The element ports of a port are in the order of their keys, those of an array have the keys of its indexes, and only
containers have any. -/
structure Tidy (p : Port) : Prop where
  ascending : Ascending p.elements
  numbered : p.dataType = .array → Numbered p.elements
  bare : p.isContainer = false → p.elements = []

theorem Sound.tidy {p : Port} (hp : p.Sound) : p.Tidy :=
  ⟨hp.ascending, hp.numbered, hp.bare⟩

theorem Tidy.isContainer {p : Port} (hp : p.Tidy) {e : String × Port} (he : e ∈ p.elements) : p.isContainer = true := by
  by_contra hc
  rw [hp.bare (by simpa using hc)] at he
  exact List.not_mem_nil he

theorem every_tidy_bare {p : Port} (h : p.elements = []) : Every Tidy p :=
  every_iff.2 ⟨⟨by simp [h], fun _ => h ▸ numbered_nil, fun _ => h⟩, by simp [h]⟩

theorem tidy_place {v : Value} {p : Port} (hf : v.Fits p.dataType) (hbare : p.isContainer = false → p.elements = [])
    (hes : ∀ e ∈ p.elements, Every Tidy e.2) (s : Supply) : Every Tidy (place v p s).1 := by
  induction v using Value.induction generalizing p s with
  | step v ih =>
    cases hp : p.isContainer with
    | false =>
      rw [place_scalar hp]
      exact every_tidy_bare (hbare hp)
    | true =>
      rw [place_container hp]
      refine every_iff.2 ⟨⟨ascending_placeFields p _ s, fun ht => ?_, fun h => ?_⟩, fun e he => ?_⟩
      · replace ht : p.dataType = .array := ht
        rcases hf with rfl | hn | hv
        · exact numbered_nil
        · rw [hn] at ht; cases ht
        · rw [ht] at hv
          cases v <;> first | exact numbered_placeFields p _ s | cases hv
      · exact absurd hp (by simpa [Port.isContainer] using h)
      · obtain ⟨w, s', hw, heq⟩ := mem_placeFields he
        have hfits : w.Fits (elementFor p e.1 w.dataType s').1.bump.dataType := by
          rw [show (elementFor p e.1 w.dataType s').1.bump.dataType = w.dataType from elementFor_dataType ..]
          exact w.fits_dataType
        rw [heq]
        refine ih _ hw hfits (fun ht => ?_) (fun e' he' => ?_) _
        · exact elementFor_bare (fun c hc => (hes c hc).self.bare) ht
        · obtain ⟨c, hc, he'⟩ := mem_elements_elementFor he'
          exact (hes _ hc).element he'

theorem tidy_write {v w : Value} {p p' : Port} {s s' : Supply} (h : p.write v s = .ok (w, p', s'))
    (hp : Every Tidy p) : Every Tidy p' := by
  rcases write_eq_ok h with ⟨-, -, rfl, -⟩ | ⟨-, hw, rfl, -⟩
  · exact every_tidy_bare rfl
  · exact tidy_place (p := p.bump) (Value.fits_convert hw) hp.self.bare (fun e he => hp.element he) s

theorem tidy_setDataType {p : Port} (t : DataType) (s : Supply) (hp : Every Tidy p) :
    Every Tidy (p.setDataType t s).1 := by
  rcases setDataType_cases p t s with h | ⟨v, es, hes, hbare, hv, h⟩ | h <;> rw [h]
  · exact hp
  · exact tidy_place (p := { p with dataType := t, elements := es }) (Value.fits_convert hv) hbare
      (fun e he => hp.element (hes.subset he)) s
  · exact every_tidy_bare (by rw [clear_elements]; rfl)

theorem Tidy.exchange {p c c' : Port} {before after : List (String × Port)} {key : String} (hp : p.Tidy)
    (hes : p.elements = before ++ (key, c) :: after) :
    ({ p with elements := before ++ (key, c') :: after } : Port).Tidy where
  ascending := ascending_exchange (hes ▸ hp.ascending)
  numbered ht := numbered_exchange (hes ▸ hp.numbered ht)
  bare hc := by
    have hnil := hp.bare hc
    rw [hes] at hnil
    exact absurd hnil (by simp)

theorem Edit.tidy {up : Port → Port} {id : PortId} {R : Port → Port → Prop} {p q : Port} (h : Edit up id R p q)
    (hes : ∀ r, (up r).elements = r.elements) (htype : ∀ r, (up r).dataType = r.dataType)
    (hR : ∀ c c', R c c' → Every Tidy c → Every Tidy c') (hp : Every Tidy p) : Every Tidy q := by
  induction h with
  | here _ hc => exact hR _ _ hc hp
  | @inside p c c' before after key _ hsplit _ _ ih =>
    have hmem : (key, c) ∈ p.elements := by rw [hsplit]; exact List.mem_append_right _ List.mem_cons_self
    have hself : ({ p with elements := before ++ (key, c') :: after } : Port).Tidy := hp.self.exchange hsplit
    refine every_iff.2 ⟨⟨?_, fun ht => ?_, fun hc => ?_⟩, fun e he => ?_⟩
    · rw [hes]
      exact hself.ascending
    · rw [hes]
      exact hself.numbered (by rwa [htype] at ht)
    · rw [hes]
      exact hself.bare (by rwa [Port.isContainer, htype] at hc)
    · rw [hes] at he
      rcases List.mem_append.1 he with he | he
      · exact hp.element (hsplit ▸ List.mem_append_left _ he)
      · rcases List.mem_cons.1 he with rfl | he
        · exact ih (hp.element hmem)
        · exact hp.element (hsplit ▸ List.mem_append_right _ (List.mem_cons_of_mem _ he))

theorem tidy_writeAt {id : PortId} {v w : Value} {p p' : Port} {s s' : Supply}
    (h : p.writeAt id v s = some (.ok (w, p', s'))) (hp : Every Tidy p) : Every Tidy p' :=
  (edit_of_writeAt h).tidy fold_elements fold_dataType (fun _ _ hw hc => tidy_write hw hc) hp

/-! ### A whole path -/

/-- What a change of one port does to a tree: `c` at the end of the path became `c'`; every container above it has
exchanged the element port on the path and then changed by `up`; all ports beside the path are as they were. -/
structure ChangedAlong (up : Port → Port) (path : List String) (c c' p p' : Port) : Prop where
  found : p.atPath? path = some c
  stored : p'.atPath? path = some c'
  above : ∀ above key below, path = above ++ key :: below → ∃ q e es, p.atPath? above = some q ∧
    p'.atPath? above = some (up { q with elements := es }) ∧ p'.atPath? (above ++ [key]) = some e ∧
    keys es = keys q.elements ∧ ∀ k, Keyed.find? k es = if k = key then some e else Keyed.find? k q.elements
  beside : ∀ other, ¬ other <+: path → ¬ path <+: other → p'.atPath? other = p.atPath? other

/-- One container more above the port. -/
theorem ChangedAlong.cons {up : Port → Port} {path : List String} {x x' p c c' : Port}
    {before after : List (String × Port)} {key : String} (h : ChangedAlong up path x x' c c')
    (hup : ∀ r, (up r).elements = r.elements) (hn : (keys p.elements).Nodup)
    (hes : p.elements = before ++ (key, c) :: after) :
    ChangedAlong up (key :: path) x x' p (up { p with elements := before ++ (key, c') :: after }) := by
  have hfind : ∀ k, Keyed.find? k (before ++ (key, c') :: after) =
      if k = key then some c' else Keyed.find? k p.elements := by
    rw [hes] at hn ⊢
    exact find?_exchange hn
  have hc : Keyed.find? key p.elements = some c :=
    find?_of_mem hn (by rw [hes]; exact List.mem_append_right _ List.mem_cons_self)
  have hbelow : ∀ other, (up { p with elements := before ++ (key, c') :: after }).atPath? (key :: other) =
      c'.atPath? other := fun other => by rw [atPath?_cons, hup, hfind, if_pos rfl, Option.bind_some]
  refine ⟨?_, ?_, fun above k below heq => ?_, fun other hother hpath => ?_⟩
  · rw [atPath?_cons, hc]
    exact h.found
  · rw [hbelow]
    exact h.stored
  · cases above with
    | nil =>
      obtain ⟨rfl, rfl⟩ := List.cons.inj heq
      refine ⟨p, c', _, rfl, rfl, ?_, ?_, hfind⟩
      · rw [List.nil_append, hbelow, atPath?_nil]
      · rw [hes, keys_exchange]
    | cons first above =>
      obtain ⟨rfl, hrest⟩ := List.cons.inj heq
      obtain ⟨q, e, es, hq, hq', he, hkeys, hfind'⟩ := h.above above k below hrest
      refine ⟨q, e, es, ?_, ?_, ?_, hkeys, hfind'⟩
      · rw [atPath?_cons, hc]
        exact hq
      · rw [hbelow, hq']
      · rw [List.cons_append, hbelow, he]
  · cases other with
    | nil => exact absurd List.nil_prefix hother
    | cons k other =>
      by_cases hk : k = key
      · subst hk
        rw [hbelow, atPath?_cons, hc, Option.bind_some]
        refine h.beside other (fun hpre => hother ?_) (fun hpre => hpath ?_)
        · exact (List.prefix_cons_inj k).2 hpre
        · exact (List.prefix_cons_inj k).2 hpre
      · rw [atPath?_cons, hup, hfind, if_neg hk, atPath?_cons]

/-- A change of one port of a tree is one along a path. -/
theorem Edit.changedAlong {up : Port → Port} {id : PortId} {R : Port → Port → Prop} {p q : Port}
    (h : Edit up id R p q) (hup : ∀ r, (up r).elements = r.elements) (hp : Every Tidy p) :
    ∃ path c c', c.id = id ∧ R c c' ∧ ChangedAlong up path c c' p q := by
  induction h with
  | @here p q hid hR =>
    exact ⟨[], p, q, hid, hR, rfl, rfl, fun above key below heq => absurd heq (by simp),
      fun other _ h => absurd List.nil_prefix h⟩
  | @inside p c c' before after key hid hes _ _ ih =>
    have hmem : (key, c) ∈ p.elements := by rw [hes]; exact List.mem_append_right _ List.mem_cons_self
    obtain ⟨path, x, x', hx, hR, halong⟩ := ih (hp.element hmem)
    exact ⟨key :: path, x, x', hx, hR, halong.cons hup hp.self.ascending.nodup hes⟩

/-- In a tree with distinct identifiers, the path is the one that leads to the port. -/
theorem Edit.changedAlong_of_atPath? {up : Port → Port} {R : Port → Port → Prop} {p q c : Port} {path : List String}
    (h : Edit up c.id R p q) (hup : ∀ r, (up r).elements = r.elements) (hp : Every Tidy p) (hn : p.ids.Nodup)
    (hc : p.atPath? path = some c) : ∃ c', R c c' ∧ ChangedAlong up path c c' p q := by
  obtain ⟨path', x, x', hid, hR, halong⟩ := h.changedAlong hup hp
  obtain rfl := eq_of_atPath? hn halong.found hc hid
  obtain rfl : x = c := Option.some.inj (halong.found.symm.trans hc)
  exact ⟨x', hR, halong⟩

/-! ### Truthful containers -/

/-- What a container holds under a key is what its element port holds. A container that was emptied counts as the
collection of all its elements, each of them `null`. -/
def AgreesAt (p : Port) (key : String) : Prop :=
  (Keyed.find? key p.elements).map data = Keyed.find? key p.former.elements

/-- A container holds the collection of what its element ports hold. -/
def Truthful (p : Port) : Prop :=
  ∀ key, p.AgreesAt key

/-- All containers on a path are truthful. -/
def TruthfulAlong (path : List String) (p : Port) : Prop :=
  ∀ above q, above <+: path → p.atPath? above = some q → q.Truthful

theorem former_exchange {p : Port} {es : List (String × Port)} (h : keys es = keys p.elements) :
    ({ p with elements := es } : Port).former = p.former := by
  have hnull : ∀ entries : List (String × Port),
      mapValues (fun _ => Value.null) entries = (keys entries).map fun k => (k, Value.null) := fun entries => by
    simp [mapValues, keys]
  simp only [former, length_eq_of_keys h, hnull, h]

/-- One container whose element port under a key was exchanged. -/
theorem agreesAt_exchange {p e : Port} {es : List (String × Port)} {key : String} (hkeys : keys es = keys p.elements)
    (hfind : ∀ k, Keyed.find? k es = if k = key then some e else Keyed.find? k p.elements) (k : String) :
    ({ p with elements := es } : Port).AgreesAt k ↔
      if k = key then Keyed.find? key p.former.elements = some e.data else p.AgreesAt k := by
  unfold AgreesAt
  rw [former_exchange hkeys, hfind]
  split_ifs with hk
  · rw [hk, Option.map_some, eq_comm]
  · exact Iff.rfl

theorem atPath?_append (above below : List String) (p : Port) :
    p.atPath? (above ++ below) = (p.atPath? above).bind (atPath? below) := by
  induction above generalizing p with
  | nil => rfl
  | cons key above ih =>
    rw [List.cons_append, atPath?_cons, atPath?_cons, Option.bind_assoc]
    exact Option.bind_congr fun c _ => ih c

theorem atPath?_concat (above : List String) (key : String) (p : Port) :
    p.atPath? (above ++ [key]) = (p.atPath? above).bind fun q => Keyed.find? key q.elements := by
  rw [atPath?_append]
  refine Option.bind_congr fun q _ => ?_
  cases h : Keyed.find? key q.elements <;> simp [h]

section Retyped

variable {path above : List String} {key : String} {e e' p p' c q : Port}

/-- What an exchange that is not folded into the containers leaves of them: they keep what they hold, and the one element
port that holds something else is the port itself. -/
theorem ChangedAlong.agreesAt (h : ChangedAlong (fun r => r) (path ++ [key]) e e' p p') (hc : p.atPath? path = some c)
    (habove : above <+: path) (hq : p.atPath? above = some q) :
    ∃ q', p'.atPath? above = some q' ∧ q'.former = q.former ∧ ∀ k, q'.AgreesAt k ↔
      if above = path ∧ k = key then Keyed.find? key c.former.elements = some e'.data else q.AgreesAt k := by
  obtain ⟨rest, rfl⟩ := habove
  cases rest with
  | nil =>
    rw [List.append_nil] at h hc
    obtain ⟨q₁, x, es, hq₁, hq', hx, hkeys, hfind⟩ := h.above above key [] rfl
    obtain rfl : q = c := Option.some.inj (hq.symm.trans hc)
    obtain rfl : q = q₁ := Option.some.inj (hq.symm.trans hq₁)
    obtain rfl : x = e' := Option.some.inj (hx.symm.trans h.stored)
    refine ⟨_, hq', former_exchange hkeys, fun k => (agreesAt_exchange hkeys hfind k).trans ?_⟩
    simp
  | cons k₀ below =>
    have hpath : above ++ k₀ :: below ++ [key] = above ++ k₀ :: (below ++ [key]) := by simp
    obtain ⟨q₁, x, es, hq₁, hq', hx, hkeys, hfind⟩ := h.above above k₀ (below ++ [key]) hpath
    obtain rfl : q = q₁ := Option.some.inj (hq.symm.trans hq₁)
    -- the container below has exchanged an element port as well, and holds what it held
    obtain ⟨k₁, below', hnext⟩ := List.exists_cons_of_ne_nil (l := below ++ [key]) (by simp)
    obtain ⟨y, -, fs, hy, hy', -, -, -⟩ := h.above (above ++ [k₀]) k₁ below' (by rw [hpath, hnext]; simp)
    have hdata : x.data = y.data := by rw [Option.some.inj (hx.symm.trans hy')]
    have hold : Keyed.find? k₀ q.elements = some y := by
      rwa [atPath?_concat, hq, Option.bind_some] at hy
    have hne : above ≠ above ++ k₀ :: below := fun heq => by simpa using congrArg List.length heq
    refine ⟨_, hq', former_exchange hkeys, fun k => (agreesAt_exchange hkeys hfind k).trans ?_⟩
    by_cases hk : k = k₀
    · rw [if_pos hk, if_neg fun hand => hne hand.1, hk, AgreesAt, hold, Option.map_some, hdata, eq_comm]
    · rw [if_neg hk, if_neg fun hand => hne hand.1]

/-- **Which containers are truthful after an exchange that is not folded into them.** The container of the port is, if
it holds what the port holds now and agrees with its other element ports; the containers above it are, if they were
before. -/
theorem ChangedAlong.truthfulAlong_iff (h : ChangedAlong (fun r => r) (path ++ [key]) e e' p p')
    (hc : p.atPath? path = some c) :
    TruthfulAlong path p' ↔
      (∀ above q k, above <+: path → p.atPath? above = some q → ¬ (above = path ∧ k = key) → q.AgreesAt k) ∧
        Keyed.find? key c.former.elements = some e'.data := by
  constructor
  · refine fun htruth => ⟨fun above q k habove hq hne => ?_, ?_⟩
    · obtain ⟨q', hq', -, hiff⟩ := h.agreesAt hc habove hq
      have hagrees := (hiff k).1 (htruth above q' habove hq' k)
      rwa [if_neg hne] at hagrees
    · obtain ⟨q', hq', -, hiff⟩ := h.agreesAt hc List.prefix_rfl hc
      have hagrees := (hiff key).1 (htruth path q' List.prefix_rfl hq' key)
      rwa [if_pos ⟨rfl, rfl⟩] at hagrees
  · rintro ⟨hothers, hown⟩ above q' habove hq' k
    have hsome : ∃ q, p.atPath? above = some q := by
      obtain ⟨rest, rfl⟩ := habove
      rw [atPath?_append] at hc
      obtain ⟨q, hq, -⟩ := Option.bind_eq_some_iff.1 hc
      exact ⟨q, hq⟩
    obtain ⟨q, hq⟩ := hsome
    obtain ⟨q₁, hq₁, -, hiff⟩ := h.agreesAt hc habove hq
    obtain rfl : q' = q₁ := Option.some.inj (hq'.symm.trans hq₁)
    refine (hiff k).2 ?_
    split_ifs with hand
    · exact hown
    · exact hothers above q k habove hq hand

/-- What a container holds after a write to an element port: what all of its element ports hold by then, whatever it held
before. -/
theorem ChangedAlong.elements_written (h : ChangedAlong fold (path ++ [key]) e e' p p') (hp : Every Tidy p)
    (hc : p.atPath? path = some c) : ∃ c', p'.atPath? path = some c' ∧
      ∀ k, Keyed.find? k c'.data.elements = if k = key then some e'.data else (Keyed.find? k c.elements).map data := by
  obtain ⟨q, x, es, hq, hq', hx, hkeys, hfind⟩ := h.above path key [] rfl
  obtain rfl : q = c := Option.some.inj (hq.symm.trans hc)
  obtain rfl : x = e' := Option.some.inj (hx.symm.trans h.stored)
  have htidy : q.Tidy := (hp.of_mem (mem_flatten_of_atPath? hc)).self
  have hfound := h.found
  rw [atPath?_concat, hc, Option.bind_some] at hfound
  have hnumbered : q.dataType = .array → Numbered es := fun ht k => by
    rw [hkeys, htidy.numbered ht, length_eq_of_keys hkeys]
  obtain ⟨-, helements⟩ := elements_fold (p := { q with elements := es }) (htidy.isContainer (mem_of_find? hfound))
    (hkeys ▸ htidy.ascending.nodup) hnumbered
  refine ⟨_, hq', fun k => ?_⟩
  rw [helements, hfind]
  split_ifs <;> rfl

end Retyped

end Dataflow.Port
