import Dataflow.Proofs.Graph.Retyping

/-!
# Looking again at the edges of a node

A change of type may make edges unfit, or fit again, and a write may take an end of an edge away. The edges at the ports
of a node are looked at again together with all edges that lack an end. An edge may be looked at several times: from
each of its ends, and because it lacks one.

* `Graph.Misfit` says that an edge lacks an end, or that the types of its ends do not fit;
* `Graph.Concerns` says that an edge is looked at again; `Graph.Indexed.mem_edgesToCheck`: these are the edges found by
  the indexes;
* `Graph.mem_markEdges_iff`: an edge that was looked at has a flag if it does not fit, however often it was looked at;
* `Graph.Revalidated` says what became of the flags, and that nothing else changed;
* `Graph.Reached.revalidated`: so it is after a check of a node, and after a change of the type of a port.
-/

namespace Dataflow

namespace Graph

/-! ### The edges that are looked at -/

/-- An end of an edge is missing, or the types of its ends do not fit. -/
def Misfit (g : Graph) (e : Edge) : Prop :=
  g.port? e.source = none ∨ g.port? e.target = none ∨
    ∃ p q, g.port? e.source = some p ∧ g.port? e.target = some q ∧ p.dataType.flowsInto q.dataType = false

/-- An edge of the graph is at a port of a node, or lacks an end. -/
def Concerns (g : Graph) (n : Node) (e : Edge) : Prop :=
  e ∈ g.edges ∧ (n.Touches e ∨ g.port? e.source = none ∨ g.port? e.target = none)

theorem fits_eq_false_iff {g : Graph} {e : Edge} : g.fits e = false ↔ g.Misfit e := by
  unfold fits Misfit
  cases g.port? e.source with
  | none => simp
  | some p =>
    cases g.port? e.target with
    | none => simp
    | some q => simp [Port.canConnect]

/-- The indexes lead to all edges at the ports of a node. -/
theorem Indexed.mem_edgesToCheck {g : Graph} (hg : g.Indexed) {n : Node} {e : Edge} :
    e ∈ g.edgesToCheck n ↔ g.Concerns n e := by
  have hout : ∀ p, e ∈ (g.outgoing p).map (Edge.mk p) ↔ e ∈ g.edges ∧ e.source = p := by
    intro p
    rw [hg.out, List.mem_map]
    constructor
    · rintro ⟨q, hq, rfl⟩
      exact ⟨Edge.mem_targetsOf.1 hq, rfl⟩
    · rintro ⟨he, rfl⟩
      exact ⟨e.target, Edge.mem_targetsOf.2 he, rfl⟩
  have hin : ∀ p, e ∈ (g.incoming p).map (fun source => ⟨source, p⟩) ↔ e ∈ g.edges ∧ e.target = p := by
    intro p
    rw [hg.into, List.mem_map]
    constructor
    · rintro ⟨q, hq, rfl⟩
      exact ⟨Edge.mem_sourcesOf.1 hq, rfl⟩
    · rintro ⟨he, rfl⟩
      exact ⟨e.source, Edge.mem_sourcesOf.2 he, rfl⟩
  simp only [Graph.edgesToCheck, List.mem_append, List.mem_flatMap, List.mem_filter, hout, hin, isStranded,
    Bool.or_eq_true, Option.isNone_iff_eq_none, Concerns, Node.Touches]
  constructor
  · rintro (⟨p, hp, ⟨he, rfl⟩ | ⟨he, rfl⟩⟩ | ⟨he, hstranded⟩)
    · exact ⟨he, Or.inl (Or.inl hp)⟩
    · exact ⟨he, Or.inl (Or.inr hp)⟩
    · exact ⟨he, Or.inr hstranded⟩
  · rintro ⟨he, (hp | hp) | hstranded⟩
    · exact Or.inl ⟨_, hp, Or.inl ⟨he, rfl⟩⟩
    · exact Or.inl ⟨_, hp, Or.inr ⟨he, rfl⟩⟩
    · exact Or.inr ⟨he, hstranded⟩

/-- An edge that was looked at has a flag if and only if it does not fit; the others keep theirs. -/
theorem mem_markEdges_iff {g : Graph} {es : List Edge} {e : Edge} :
    e ∈ g.markEdges es ↔ (e ∈ es ∧ g.Misfit e) ∨ (e ∉ es ∧ e ∈ g.flagged) := by
  rw [← fits_eq_false_iff]
  unfold markEdges
  -- The flags change edge by edge, while the graph in which the edges are looked at stays.
  generalize g.flagged = flagged
  induction es generalizing flagged with
  | nil => simp
  | cons first rest ih =>
    rw [List.foldl_cons, ih, List.mem_cons]
    cases hfits : g.fits first with
    | true =>
      simp only [if_true, List.mem_filter, decide_eq_true_eq]
      by_cases heq : e = first
      · simp [heq, hfits]
      · simp [heq]
    | false =>
      simp only [Bool.false_eq_true, if_false, mem_insertNew]
      by_cases heq : e = first
      · simp [heq, hfits, em]
      · simp [heq]

/-! ### The flags afterwards -/

/-- The edges that concern a node were looked at again, and those in `es` were found not to fit: the flags of these edges
say whether they fit, and nothing else changed. -/
structure Revalidated (g : Graph) (n : Node) (es : List Edge) (g' : Graph) : Prop where
  flagged : ∀ e, g.Concerns n e → (e ∈ g'.flagged ↔ g.Misfit e)
  listed : ∀ e, e ∈ es ↔ g.Concerns n e ∧ e ∈ g'.flagged
  once : es.Nodup
  others : ∀ e, ¬ g.Concerns n e → (e ∈ g'.flagged ↔ e ∈ g.flagged)
  rest : g' = { g with flagged := g'.flagged }

/-- **A check of a node tells exactly which of its edges fit.** -/
theorem Indexed.checkEdges_revalidated {g : Graph} (hg : g.Indexed) {id : NodeId} {n : Node} (hn : g.node? id = some n) :
    ∃ es g', g.checkEdges id = .ok (es, g') ∧ g.Revalidated n es g' := by
  have hmarked : ∀ e, e ∈ g.markEdges (g.edgesToCheck n) ↔
      (g.Concerns n e ∧ g.Misfit e) ∨ (¬ g.Concerns n e ∧ e ∈ g.flagged) := fun e => by
    rw [mem_markEdges_iff, hg.mem_edgesToCheck]
  obtain ⟨honce, hfound⟩ := foldl_insertNew ((g.edgesToCheck n).filter fun e => !g.fits e) [] List.nodup_nil
  have hok : g.checkEdges id = .ok (((g.edgesToCheck n).filter fun e => !g.fits e).foldl
      (fun found e => insertNew e found) [], { g with flagged := g.markEdges (g.edgesToCheck n) }) := by
    simp only [Graph.checkEdges, hn]
  have hflagged : ∀ e, g.Concerns n e → (e ∈ g.markEdges (g.edgesToCheck n) ↔ g.Misfit e) := fun e he => by
    simp [hmarked, he]
  refine ⟨_, _, hok, hflagged, fun e => ?_, honce, fun e he => ?_, rfl⟩
  · rw [hfound, List.mem_filter, hg.mem_edgesToCheck, Bool.not_eq_true', fits_eq_false_iff]
    simp only [List.not_mem_nil, false_or]
    exact and_congr_right fun he => (hflagged e he).symm
  · simp [hmarked, he]

/-- **The edges of a node are looked at again, and nothing else is.** Every edge at a port of the node, and every edge
that lacks an end, has a flag if and only if it does not fit; the result lists those that do not fit, each once. The
other flags stay, and so does the rest of the graph. The same holds after a change of the type of a port, for the node as
it is then. -/
theorem Reached.revalidated {g : Graph} (hg : g.Reached) {id : NodeId} {n : Node} (hn : g.node? id = some n) :
    (∃ es g', g.checkEdges id = .ok (es, g') ∧ g.Revalidated n es g') ∧
    ∀ p ∈ n.portIds, ∀ t, ∃ n' h es g', g.Retyped p t n n' h ∧ g.setPortType p t = .ok (es, g') ∧
      h.Revalidated n' es g' := by
  refine ⟨hg.indexed.checkEdges_revalidated hn, fun p hp t => ?_⟩
  obtain ⟨n', h, hretyped, hindexed, hset⟩ := hg.setPortType_eq hn hp t
  have hself := (hretyped.nodes id).trans (if_pos (hg.regular.named hn))
  obtain ⟨es, g', hok, hrevalidated⟩ := hindexed.checkEdges_revalidated hself
  exact ⟨n', h, es, g', hretyped, hset.trans hok, hrevalidated⟩

/-- An edge that lost its source is found by a check of the node that the source belonged to; and it is found after the
type of its target was changed to one that it does not fit. -/
theorem revalidated_picked :
    (∃ n es g', dropped.Reached ∧ dropped.node? ⟨1⟩ = some n ∧ dropped.checkEdges ⟨1⟩ = .ok (es, g') ∧
      dropped.Revalidated n es g' ∧ dropped.flagged = [] ∧ es = [⟨⟨11⟩, ⟨9⟩⟩] ∧ ⟨⟨11⟩, ⟨9⟩⟩ ∈ g'.flagged) ∧
    ∃ n n' h es g', picked.Reached ∧ picked.node? ⟨2⟩ = some n ∧ picked.Retyped ⟨9⟩ .array n n' h ∧
      picked.setPortType ⟨9⟩ .array = .ok (es, g') ∧ h.Revalidated n' es g' ∧ es = [⟨⟨11⟩, ⟨9⟩⟩] := by
  obtain ⟨past, hhistory⟩ := history_dropped
  have hdropped := hhistory.reached
  have hpicked : picked.Reached := by
    cases hhistory with
    | edit hg _ => exact hg.reached
  obtain ⟨n, hn⟩ := Option.isSome_iff_exists.1 (show (dropped.node? ⟨1⟩).isSome by decide +kernel)
  obtain ⟨m, hm, hport⟩ := (Option.any_eq_true _ _).1
    (show (picked.node? ⟨2⟩).any (fun n => n.portIds.contains ⟨9⟩) = true by decide +kernel)
  have hchecked : (dropped.checkEdges ⟨1⟩).toOption.map Prod.fst = some [⟨⟨11⟩, ⟨9⟩⟩] := by decide +kernel
  have hretyped : (picked.setPortType ⟨9⟩ .array).toOption.map Prod.fst = some [⟨⟨11⟩, ⟨9⟩⟩] := by decide +kernel
  obtain ⟨⟨es, g', hok, hrevalidated⟩, -⟩ := Reached.revalidated hdropped hn
  obtain ⟨-, hall⟩ := Reached.revalidated hpicked hm
  obtain ⟨n', h, es', h', hchange, hok', hrevalidated'⟩ := hall ⟨9⟩ (List.contains_iff_mem.1 hport) .array
  rw [hok] at hchecked
  rw [hok'] at hretyped
  obtain rfl : es = [⟨⟨11⟩, ⟨9⟩⟩] := Option.some.inj hchecked
  obtain rfl : es' = [⟨⟨11⟩, ⟨9⟩⟩] := Option.some.inj hretyped
  exact ⟨⟨n, _, g', hdropped, hn, hok, hrevalidated, by decide +kernel, rfl,
      ((hrevalidated.listed _).1 (List.mem_singleton.2 rfl)).2⟩,
    m, n', h, _, h', hpicked, hm, hchange, hok', hrevalidated', rfl⟩

end Graph

end Dataflow
