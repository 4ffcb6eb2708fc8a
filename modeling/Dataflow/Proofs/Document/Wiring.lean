import Dataflow.Proofs.Document.RoundTrip
import Dataflow.Proofs.Graph.Indexes

/-!
# The edges of a loaded graph

The edges of a document are added one after the other: one whose ends fit by `Graph.addEdge`, which refuses it the
second time, and one whose ends do not fit by `Graph.linkFlagged`, which never refuses.

* `Graph.Spans` says that an edge leads from an output to an input, both of them there;
* `Graph.Wired g es` says that `es` are the edges of `g`, and that all indexes of edges agree with them;
* `GraphDocument.addEdges_cons_eq_ok`: what it takes to add one edge;
* `GraphDocument.addEdges_isOk`: what it takes to add them all;
* `GraphDocument.restore_edges`: a loaded graph is wired by the edges of its document, and they are distinct if and only
  if no edge that does not fit is repeated.
-/

namespace Dataflow

/-! ### Scanning edges that are repeated -/

/-- Edges are distinct if and only if no port occurs twice in the answer of a scan, if the two ends tell edges apart. -/
theorem Edge.nodup_iff_scan {here there : Edge → PortId}
    (hends : ∀ e e', here e = here e' → there e = there e' → e = e') {edges : List Edge} :
    edges.Nodup ↔ ∀ p, (scan here there p edges).Nodup := by
  constructor
  · intro h p
    refine (h.filter _).map_on fun e he e' he' hthere => hends e e' ?_ hthere
    have hhere : here e = p := by simpa using (List.mem_filter.1 he).2
    have hhere' : here e' = p := by simpa using (List.mem_filter.1 he').2
    rw [hhere, hhere']
  · intro h
    refine List.nodup_iff_sublist.2 fun e hsub => ?_
    -- an edge that is there twice is found twice from its end
    have htwice : [there e, there e].Sublist (scan here there (here e) edges) := by
      simpa [scan] using (hsub.filter fun e' => here e' = here e).map there
    exact List.nodup_iff_sublist.1 (h (here e)) _ htwice

namespace Graph

/-- Both ends of an edge are there, and it leads from an output to an input. -/
def Spans (g : Graph) (e : Edge) : Prop :=
  ∃ a b, g.port? e.source = some a ∧ g.port? e.target = some b ∧ a.direction = .output ∧ b.direction = .input

/-- An edge is added if its ends are there and fit, unless it is there already. -/
theorem addEdge_eq_ok_iff {g g' : Graph} {e : Edge} :
    g.addEdge e.source e.target = .ok g' ↔ g.Spans e ∧ g.fits e = true ∧ e ∉ g.edgeSet ∧ g' = g.link e := by
  constructor
  · intro h
    obtain ⟨a, b, ha, hb, hout, hin, hc, hnew, rfl⟩ := addEdge_eq_ok h
    exact ⟨⟨a, b, ha, hb, hout, hin⟩, by simp only [fits, ha, hb, hc], hnew, rfl⟩
  · rintro ⟨⟨a, b, ha, hb, hout, hin⟩, hfits, hnew, rfl⟩
    have hdir : ¬ (a.direction ≠ .output ∨ b.direction ≠ .input) := by simp [hout, hin]
    have hc : a.canConnect b = true := by simpa only [fits, ha, hb] using hfits
    have hset : g.edgeSet.contains e = false := by simpa using hnew
    unfold addEdge
    simp only [ha, hb, if_neg hdir, hc, hset]
    rfl

/-- An edge is refused for its types if its ends are there and do not fit, also if it is there already. -/
theorem addEdge_incompatible_iff {g : Graph} {e : Edge} :
    (∃ e' t t', g.addEdge e.source e.target = .error (.incompatibleEdge e' t t')) ↔ g.Spans e ∧ g.fits e = false := by
  constructor
  · rintro ⟨e', t, t', h⟩
    refine ⟨?_, (GraphDocument.incompatible_of_addEdge h).2⟩
    unfold addEdge at h
    cases ha : g.port? e.source with
    | none =>
      simp only [ha] at h
      cases h
    | some a =>
      cases hb : g.port? e.target with
      | none =>
        simp only [ha, hb] at h
        cases h
      | some b =>
        simp only [ha, hb] at h
        by_cases hdir : a.direction ≠ .output ∨ b.direction ≠ .input
        · rw [if_pos hdir] at h
          cases h
        · push Not at hdir
          exact ⟨a, b, ha, hb, hdir⟩
  · rintro ⟨⟨a, b, ha, hb, hout, hin⟩, hfits⟩
    have hdir : ¬ (a.direction ≠ .output ∨ b.direction ≠ .input) := by simp [hout, hin]
    have hc : a.canConnect b = false := by simpa only [fits, ha, hb] using hfits
    unfold addEdge
    simp only [ha, hb, if_neg hdir, hc]
    exact ⟨e, a.dataType, b.dataType, rfl⟩

/-- The edges of a graph are `es`. All indexes of edges agree with the list, each edge leads from an output to an input,
and those with a flag are those whose ends do not fit. -/
structure Wired (g : Graph) (es : List Edge) : Prop where
  edges : g.edges = es
  edgeSet : ∀ e, e ∈ g.edgeSet ↔ e ∈ es
  distinct : g.edgeSet.Nodup
  outgoing : ∀ p, g.outgoing p = Edge.targetsOf p es
  incoming : ∀ p, g.incoming p = Edge.sourcesOf p es
  spans : ∀ e ∈ es, g.Spans e
  flagged : ∀ e, e ∈ g.flagged ↔ e ∈ es ∧ g.fits e = false
  flags : g.flagged.Nodup

namespace Wired

variable {g : Graph} {es : List Edge} {e : Edge}

theorem empty (s : Supply) : (Graph.empty s).Wired [] where
  edges := rfl
  edgeSet _ := Iff.rfl
  distinct := List.nodup_nil
  outgoing _ := rfl
  incoming _ := rfl
  spans _ he := absurd he List.not_mem_nil
  flagged _ := ⟨fun he => absurd he List.not_mem_nil, fun he => absurd he.1 List.not_mem_nil⟩
  flags := List.nodup_nil

theorem indexed (hg : g.Wired es) : g.Indexed where
  out p := by rw [hg.outgoing, hg.edges]
  into p := by rw [hg.incoming, hg.edges]
  flags e he := by rw [hg.edges]; exact ((hg.flagged e).1 he).1

/-- A node without edges is added. -/
theorem addNode {g' : Graph} {n : Node} {s : Supply} (hg : g.Wired [])
    (h : ({ g with supply := s } : Graph).addNode n = .ok g') : g'.Wired [] := by
  obtain ⟨-, rfl⟩ := addNode_eq_ok h
  exact {
    edges := hg.edges, edgeSet := hg.edgeSet, distinct := hg.distinct, outgoing := hg.outgoing, incoming := hg.incoming
    flags := hg.flags
    spans := fun e he => absurd he List.not_mem_nil
    flagged := fun e => ⟨fun he => ⟨((hg.flagged e).1 he).1, absurd ((hg.flagged e).1 he).1 List.not_mem_nil⟩,
      fun he => absurd he.1 List.not_mem_nil⟩ }

/-- An edge is added. The flags are told apart: they have to be those of the edges that do not fit. -/
theorem extend {flags : List Edge} (hg : g.Wired es) (hspans : g.Spans e) (hnodup : flags.Nodup)
    (hflags : ∀ e', e' ∈ flags ↔ e' ∈ es ++ [e] ∧ g.fits e' = false) :
    ({ g.link e with flagged := flags } : Graph).Wired (es ++ [e]) where
  edges := congrArg (· ++ [e]) hg.edges
  edgeSet e' := by
    change e' ∈ insertNew e g.edgeSet ↔ _
    rw [mem_insertNew, hg.edgeSet, List.mem_append, List.mem_singleton, or_comm]
  distinct := nodup_insertNew hg.distinct
  outgoing p := by
    change (g.link e).outgoing p = _
    rw [(hg.indexed.link e).out, ← hg.edges]
    rfl
  incoming p := by
    change (g.link e).incoming p = _
    rw [(hg.indexed.link e).into, ← hg.edges]
    rfl
  spans e' he' := by
    rcases List.mem_append.1 he' with he' | he'
    · exact hg.spans e' he'
    · exact List.mem_singleton.1 he' ▸ hspans
  flagged := hflags
  flags := hnodup

/-- An edge whose ends fit is added, and no flag. -/
theorem link (hg : g.Wired es) (hspans : g.Spans e) (hfits : g.fits e = true) : (g.link e).Wired (es ++ [e]) := by
  refine hg.extend hspans hg.flags fun e' => ?_
  rw [hg.flagged, List.mem_append, List.mem_singleton, or_and_right]
  refine ⟨Or.inl, fun h => h.resolve_right ?_⟩
  rintro ⟨rfl, hmisfit⟩
  exact absurd hfits (by rw [hmisfit]; exact Bool.false_ne_true)

/-- An edge whose ends do not fit is added with a flag. -/
theorem linkFlagged (hg : g.Wired es) (hspans : g.Spans e) (hfits : g.fits e = false) :
    (g.linkFlagged e).Wired (es ++ [e]) := by
  refine hg.extend hspans (nodup_insertNew hg.flags) fun e' => ?_
  change e' ∈ insertNew e g.flagged ↔ _
  rw [mem_insertNew, hg.flagged, List.mem_append, List.mem_singleton, or_and_right, or_comm]
  refine or_congr_right ⟨?_, And.left⟩
  rintro rfl
  exact ⟨rfl, hfits⟩

end Wired

end Graph

namespace GraphDocument

/-! ### One edge after the other -/

/-- What it takes to add the first of several edges. One that fits has to be new; one that does not fit need not be. -/
theorem addEdges_cons_eq_ok {e : Edge} {rest : List Edge} {g g' : Graph} : addEdges (e :: rest) g = .ok g' ↔
    g.Spans e ∧ (g.fits e = true ∧ e ∉ g.edgeSet ∧ addEdges rest (g.link e) = .ok g' ∨
      g.fits e = false ∧ addEdges rest (g.linkFlagged e) = .ok g') := by
  rw [addEdges]
  constructor
  · intro h
    split at h
    · rename_i hadd
      obtain ⟨hspans, hfits, hnew, rfl⟩ := Graph.addEdge_eq_ok_iff.1 hadd
      exact ⟨hspans, Or.inl ⟨hfits, hnew, h⟩⟩
    · rename_i hadd
      obtain ⟨hspans, hfits⟩ := Graph.addEdge_incompatible_iff.1 ⟨_, _, _, hadd⟩
      exact ⟨hspans, Or.inr ⟨hfits, h⟩⟩
    · cases h
  · rintro ⟨hspans, ⟨hfits, hnew, h⟩ | ⟨hfits, h⟩⟩
    · simp only [Graph.addEdge_eq_ok_iff.2 ⟨hspans, hfits, hnew, rfl⟩, h]
    · obtain ⟨e', t, t', hadd⟩ := Graph.addEdge_incompatible_iff.2 ⟨hspans, hfits⟩
      simp only [hadd, h]

/-- **Which edges are added**: each leads from an output to an input, and each that fits is there once. -/
theorem addEdges_isOk {es : List Edge} {g : Graph} : (∃ g', addEdges es g = .ok g') ↔
    (∀ e ∈ es, g.Spans e) ∧ ∀ e ∈ es, g.fits e = true → e ∉ g.edgeSet ∧ es.count e = 1 := by
  induction es generalizing g with
  | nil => simp [addEdges]
  | cons e rest ih =>
    -- the set of edges is the same with and without a flag, and the ports stay as they are
    have hnext : ∀ g₁ : Graph, g₁.edgeSet = insertNew e g.edgeSet → g₁.port? = g.port? →
        ((∃ g', addEdges rest g₁ = .ok g') ↔ (∀ e' ∈ rest, g.Spans e') ∧
          ∀ e' ∈ rest, g.fits e' = true → e' ≠ e ∧ e' ∉ g.edgeSet ∧ rest.count e' = 1) := by
      intro g₁ hset hports
      rw [ih]
      simp only [Graph.Spans, Graph.fits, hports, hset, mem_insertNew, not_or, and_assoc]
    simp only [addEdges_cons_eq_ok, exists_and_left, exists_or, List.forall_mem_cons, and_assoc]
    rw [hnext (g.link e) rfl rfl, hnext (g.linkFlagged e) rfl rfl]
    refine and_congr_right fun _ => ?_
    have hcount : ∀ e' ∈ rest, e' ≠ e → (e :: rest).count e' = rest.count e' := fun e' _ hne =>
      List.count_cons_of_ne hne.symm
    cases hfits : g.fits e with
    | true =>
      simp only [true_and, Bool.true_eq_false, false_and, or_false, forall_const, List.count_cons_self,
        Nat.add_eq_right, List.count_eq_zero]
      constructor
      · rintro ⟨hnew, hspans, hrest⟩
        refine ⟨hspans, ⟨hnew, fun he => (hrest e he hfits).1 rfl⟩, fun e' he' hfits' => ?_⟩
        obtain ⟨hne, hnew', hone⟩ := hrest e' he' hfits'
        exact ⟨hnew', (hcount e' he' hne).trans hone⟩
      · rintro ⟨hspans, ⟨hnew, hone⟩, hrest⟩
        refine ⟨hnew, hspans, fun e' he' hfits' => ?_⟩
        have hne : e' ≠ e := fun heq => hone (heq ▸ he')
        obtain ⟨hnew', hone'⟩ := hrest e' he' hfits'
        exact ⟨hne, hnew', (hcount e' he' hne).symm.trans hone'⟩
    | false =>
      have hne : ∀ e' ∈ rest, g.fits e' = true → e' ≠ e := by
        rintro e' - hfits' rfl
        rw [hfits] at hfits'
        cases hfits'
      simp only [Bool.false_eq_true, false_and, true_and, false_or, IsEmpty.forall_iff]
      refine and_congr_right fun _ => forall₂_congr fun e' he' => forall_congr' fun hfits' => ?_
      rw [hcount e' he' (hne e' he' hfits')]
      exact and_iff_right (hne e' he' hfits')

/-- What edges leave behind. -/
theorem wired_addEdges {es done : List Edge} {g g' : Graph} (hg : g.Wired done) (h : addEdges es g = .ok g') :
    g'.Wired (done ++ es) := by
  induction es generalizing done g with
  | nil =>
    cases h
    rwa [List.append_nil]
  | cons e rest ih =>
    rw [List.append_cons]
    obtain ⟨hspans, ⟨hfits, -, hrest⟩ | ⟨hfits, hrest⟩⟩ := addEdges_cons_eq_ok.1 h
    · exact ih (hg.link hspans hfits) hrest
    · exact ih (hg.linkFlagged hspans hfits) hrest

theorem wired_addNodes {resolver : Resolver} {ds : List NodeDocument} {g g' : Graph} (hg : g.Wired [])
    (h : addNodes resolver ds g = .ok g') : g'.Wired [] := by
  induction ds generalizing g with
  | nil =>
    cases h
    exact hg
  | cons d rest ih =>
    obtain ⟨⟨n, s⟩, -, h⟩ := Except.bind_eq_ok.1 h
    obtain ⟨m, -, h⟩ := Except.bind_eq_ok.1 h
    obtain ⟨g₁, hadd, h⟩ := Except.bind_eq_ok.1 h
    exact ih (hg.addNode hadd) h

/-! ### A loaded graph -/

/-- **The edges of a loaded graph.** A document is loaded if and only if its nodes are, each of its edges leads from an
output to an input, and each edge that fits is there once. The graph is wired by the edges of the document. No edge is
there twice, and no port is told twice what it is connected to, if and only if no edge with a flag is repeated. -/
theorem restore_edges (d : GraphDocument) (resolver : Resolver) (s : Supply) :
    ((∃ g, d.restore resolver s = .ok g) ↔ ∃ g₁, addNodes resolver d.nodes (.empty s) = .ok g₁ ∧
        (∀ e ∈ d.edges, g₁.Spans e) ∧ ∀ e ∈ d.edges, g₁.fits e = true → d.edges.count e = 1) ∧
      ∀ g, d.restore resolver s = .ok g → g.Wired d.edges ∧
        (g.edges.Nodup ↔ ∀ e ∈ g.flagged, d.edges.count e = 1) ∧
        (g.edges.Nodup ↔ ∀ p, (g.outgoing p).Nodup) ∧ (g.edges.Nodup ↔ ∀ p, (g.incoming p).Nodup) := by
  have hsteps : ∀ g, d.restore resolver s = .ok g ↔
      ∃ g₁, addNodes resolver d.nodes (.empty s) = .ok g₁ ∧ addEdges d.edges g₁ = .ok g := fun g => Except.bind_eq_ok
  constructor
  · simp only [hsteps]
    rw [exists_comm]
    refine exists_congr fun g₁ => ?_
    rw [exists_and_left]
    refine and_congr_right fun hnodes => ?_
    have hnone : ∀ e, e ∉ g₁.edgeSet := fun e he =>
      absurd (((wired_addNodes (Graph.Wired.empty s) hnodes).edgeSet e).1 he) List.not_mem_nil
    rw [addEdges_isOk]
    simp only [hnone, not_false_eq_true, true_and]
  · intro g h
    obtain ⟨g₁, hnodes, hrest⟩ := (hsteps g).1 h
    have hnone := wired_addNodes (Graph.Wired.empty s) hnodes
    have hwired : g.Wired d.edges := wired_addEdges hnone hrest
    obtain ⟨-, -, hports, -, -⟩ := addEdges_eq_ok hrest
    have honce := (addEdges_isOk.1 ⟨g, hrest⟩).2
    refine ⟨hwired, ?_, ?_, ?_⟩
    · rw [hwired.edges, List.nodup_iff_count_eq_one]
      refine ⟨fun hall e he => hall e ((hwired.flagged e).1 he).1, fun hflagged e he => ?_⟩
      -- an edge that fits is there once anyway
      by_cases hfits : g.fits e = true
      · rw [Graph.fits, hports, ← Graph.fits] at hfits
        exact (honce e he hfits).2
      · exact hflagged e ((hwired.flagged e).2 ⟨he, Bool.eq_false_iff.2 hfits⟩)
    · simp only [hwired.edges, hwired.outgoing]
      exact Edge.nodup_iff_scan Edge.eq_of_ends
    · simp only [hwired.edges, hwired.incoming]
      exact Edge.nodup_iff_scan fun e e' ht hs => Edge.eq_of_ends e e' hs ht

/-! ### A document that repeats an edge -/

/-- The document of a graph with an edge that does not fit, and the edge once more. -/
def repeated : GraphDocument :=
  { ofGraph Graph.retyped with edges := [⟨⟨7⟩, ⟨5⟩⟩, ⟨⟨7⟩, ⟨5⟩⟩] }

/-- The document is loaded, and the edge is there twice. -/
theorem restore_repeated : ∃ g, repeated.restore Graph.pickingRegistry.construct ⟨8⟩ = .ok g ∧
    g.edges = [⟨⟨7⟩, ⟨5⟩⟩, ⟨⟨7⟩, ⟨5⟩⟩] ∧ g.outgoing ⟨7⟩ = [⟨5⟩, ⟨5⟩] ∧ (⟨⟨7⟩, ⟨5⟩⟩ : Edge) ∈ g.flagged ∧
    ¬ g.edges.Nodup := by
  obtain ⟨g, hg⟩ : ∃ g, repeated.restore Graph.pickingRegistry.construct ⟨8⟩ = .ok g := ⟨_, rfl⟩
  obtain ⟨hwired, hnodup, -, -⟩ := (restore_edges repeated _ _).2 g hg
  have hflagged : (⟨⟨7⟩, ⟨5⟩⟩ : Edge) ∈ g.flagged := by
    have hflags : (repeated.restore Graph.pickingRegistry.construct ⟨8⟩).toOption.map Graph.flagged =
        some [⟨⟨7⟩, ⟨5⟩⟩] := rfl
    rw [hg] at hflags
    rw [Option.some.inj hflags]
    exact List.mem_singleton_self _
  refine ⟨g, hg, hwired.edges, hwired.outgoing ⟨7⟩, hflagged, fun h => ?_⟩
  exact absurd (hnodup.1 h _ hflagged) (by decide)

end GraphDocument

end Dataflow
