import Dataflow.Proofs.Document.Wiring
import Dataflow.Proofs.Run.Reached

/-!
# Taking back an edge

An edge is entered in the list of edges, in the set of edges and in the indexes of both its ends, and it is taken out
of all of them and out of the flags.

* `Graph.connect` adds an edge to the graph that is a state, so that a refusal says what is left of it;
* `Graph.Connectable` says what it takes to add an edge; `Graph.connect_of_not_connectable`: otherwise nothing changes;
* `Graph.Appended` says what a graph is to which an edge was added, and `Graph.Moved` one in which an edge went to the
  end of the lists;
* `Graph.remove_enter`, `Graph.unlink_link`: what is entered is taken out again, and nothing else;
* `Graph.Reached.removeEdge_undoes`: an edge that is added and removed leaves no trace.
-/

namespace Dataflow.Graph

/-! ### Adding an edge to a state -/

/-- Connect two ports of the graph that is the state. An error leaves the state as it is where the error is thrown. -/
def connect (source target : PortId) : ExceptT GraphError (StateM Graph) Unit := do
  let g ← get
  let some p := g.port? source | throw (.portNotFound source)
  let some q := g.port? target | throw (.portNotFound target)
  let e : Edge := ⟨source, target⟩
  if p.direction ≠ .output ∨ q.direction ≠ .input then throw (.invalidDirection e)
  if !p.canConnect q then throw (.incompatibleEdge e p.dataType q.dataType)
  if g.edgeSet.contains e then throw (.duplicateEdge e)
  modify (·.link e)

/-- With a state or without, an edge is added in the same way. -/
theorem connect_run (g : Graph) (a b : PortId) : (connect a b).run g =
    match g.addEdge a b with
    | .ok g' => (.ok (), g')
    | .error err => (.error err, g) := by
  have hget : ∀ f : Graph → ExceptT GraphError (StateM Graph) Unit, (get >>= f).run g = (f g).run g := fun _ => rfl
  rw [connect, hget, addEdge]
  cases hp : g.port? a with
  | none => rfl
  | some p =>
    cases hq : g.port? b with
    | none => rfl
    | some q =>
      by_cases hdir : p.direction ≠ .output ∨ q.direction ≠ .input
      · simp only [if_pos hdir]
        rfl
      · cases hc : p.canConnect q <;> cases hset : g.edgeSet.contains ⟨a, b⟩ <;>
          simp only [if_neg hdir, hc, hset] <;> rfl

/-- Both ends of an edge are there, it leads from an output to an input, their types fit, and it is new. -/
def Connectable (g : Graph) (e : Edge) : Prop :=
  ∃ p q, g.port? e.source = some p ∧ g.port? e.target = some q ∧ p.direction = .output ∧ q.direction = .input ∧
    p.dataType.flowsInto q.dataType = true ∧ e ∉ g.edges

/-- An edge is added if and only if it is connectable. -/
theorem Regular.addEdge_eq_ok_iff_connectable {g g' : Graph} (hg : g.Regular) {a b : PortId} :
    g.addEdge a b = .ok g' ↔ g.Connectable ⟨a, b⟩ ∧ g' = g.link ⟨a, b⟩ := by
  constructor
  · intro h
    obtain ⟨p, q, hp, hq, hout, hin, hfits, hnew, hlink⟩ := addEdge_eq_ok h
    exact ⟨⟨p, q, hp, hq, hout, hin, hfits, fun he => hnew (hg.inSet.2 he)⟩, hlink⟩
  · rintro ⟨⟨p, q, hp, hq, hout, hin, hfits, hnew⟩, hlink⟩
    have hspans : g.Spans ⟨a, b⟩ := ⟨p, q, hp, hq, hout, hin⟩
    refine addEdge_eq_ok_iff.2 ⟨hspans, ?_, fun he => hnew (hg.inSet.1 he), hlink⟩
    simp only [fits, hp, hq]
    exact hfits

/-- An edge that is not connectable is refused, and the graph stays as it is. -/
theorem Regular.connect_of_not_connectable {g : Graph} (hg : g.Regular) {a b : PortId} (h : ¬ g.Connectable ⟨a, b⟩) :
    ∃ err, g.addEdge a b = .error err ∧ (connect a b).run g = (.error err, g) := by
  cases hadd : g.addEdge a b with
  | ok g' => exact absurd (hg.addEdge_eq_ok_iff_connectable.1 hadd).1 h
  | error err => exact ⟨err, rfl, by rw [connect_run, hadd]⟩

/-! ### Where an edge stands -/

section Index

variable {index : Table PortId (List PortId)} {p q r : PortId}

theorem find?_remove_of_ne (h : p ≠ r) : Table.find? r (remove p q index) = Table.find? r index := by
  unfold remove
  split
  · rfl
  · dsimp only
    split_ifs
    · exact Table.find?_erase_of_ne h index
    · exact Table.find?_set_of_ne h _ index

/-- A neighbour that is entered is the last one, and other ports keep their neighbours. -/
theorem find?_enter_last : Table.find? r (enter p q index) =
    if r = p then some ((Table.find? r index).getD [] ++ [q]) else Table.find? r index := by
  rw [enter, Table.find?_set]
  by_cases h : r = p
  · simp [h]
  · simp [h, Ne.symm h]

/-- So is one that is removed and entered again. -/
theorem find?_enter_remove : Table.find? r (enter p q (remove p q index)) =
    if r = p then some (((Table.find? r index).getD []).filter (· ≠ q) ++ [q]) else Table.find? r index := by
  rw [find?_enter_last, find?_remove]
  split_ifs with h h'
  · rfl
  · exact absurd h.symm h'
  · exact find?_remove_of_ne (Ne.symm h)

/-- A neighbour that was not there is entered and removed again; with it goes the entry that was made for it. -/
theorem remove_enter (hfilled : Filled index) (hnew : q ∉ (Table.find? p index).getD []) :
    remove p q (enter p q index) = index := by
  unfold remove enter
  rw [Table.find?_set_self]
  dsimp only
  rw [filter_ne_append hnew]
  cases hp : Table.find? p index with
  | none => exact (Table.erase_set ..).trans (Table.erase_of_find? hp)
  | some left =>
    have hne : left.isEmpty = false := by
      rw [List.isEmpty_eq_false_iff]
      exact fun hnil => hfilled p (hnil ▸ hp)
    simp only [Option.getD_some, hne, Table.set_set]
    exact Table.set_of_find? hp

end Index

/-- To a graph an edge was added: it is the last one in the list and at both its ends, and it has no flag. -/
structure Appended (g : Graph) (e : Edge) (g' : Graph) : Prop where
  edges : g'.edges = g.edges ++ [e]
  edgeSet : ∀ e', e' ∈ g'.edgeSet ↔ e' = e ∨ e' ∈ g.edgeSet
  outEdges : ∀ p, Table.find? p g'.outEdges =
    if p = e.source then some (g.outgoing p ++ [e.target]) else Table.find? p g.outEdges
  inEdges : ∀ p, Table.find? p g'.inEdges =
    if p = e.target then some (g.incoming p ++ [e.source]) else Table.find? p g.inEdges
  unflagged : e ∉ g'.flagged
  rest : g' = { g with edges := g'.edges, edgeSet := g'.edgeSet, outEdges := g'.outEdges, inEdges := g'.inEdges }

/-- An edge of a graph went to the end of the list and of the lists at both its ends, and it lost its flag if it had
one. -/
structure Moved (g : Graph) (e : Edge) (g' : Graph) : Prop where
  edges : g'.edges = g.edges.filter (· ≠ e) ++ [e]
  edgeSet : ∀ e', e' ∈ g'.edgeSet ↔ e' ∈ g.edgeSet
  outEdges : ∀ p, Table.find? p g'.outEdges =
    if p = e.source then some ((g.outgoing p).filter (· ≠ e.target) ++ [e.target]) else Table.find? p g.outEdges
  inEdges : ∀ p, Table.find? p g'.inEdges =
    if p = e.target then some ((g.incoming p).filter (· ≠ e.source) ++ [e.source]) else Table.find? p g.inEdges
  flagged : g'.flagged = g.flagged.filter (· ≠ e)
  rest : g' = { g with
    edges := g'.edges, edgeSet := g'.edgeSet, outEdges := g'.outEdges, inEdges := g'.inEdges, flagged := g'.flagged }

theorem Indexed.appended_link {g : Graph} (hg : g.Indexed) {e : Edge} (hnew : e ∉ g.edges) : g.Appended e (g.link e) where
  edges := rfl
  edgeSet _ := mem_insertNew
  outEdges _ := find?_enter_last
  inEdges _ := find?_enter_last
  unflagged h := hnew (hg.flags e h)
  rest := rfl

theorem moved_link_unlink {g : Graph} {e : Edge} (he : e ∈ g.edgeSet) : g.Moved e ((g.unlink e).link e) where
  edges := rfl
  edgeSet e' := by
    change e' ∈ insertNew e (g.edgeSet.filter (· ≠ e)) ↔ _
    rw [mem_insertNew, List.mem_filter, decide_eq_true_eq]
    by_cases heq : e' = e
    · simp [heq, he]
    · simp [heq]
  outEdges _ := find?_enter_remove
  inEdges _ := find?_enter_remove
  flagged := rfl
  rest := rfl

/-- An edge that was not there is added and taken out again. -/
theorem Reached.unlink_link {g : Graph} (hg : g.Reached) {e : Edge} (hnew : e ∉ g.edges) : (g.link e).unlink e = g := by
  have hagrees := hg.indexes_agree
  have hset : e ∉ g.edgeSet := fun he => hnew ((hagrees.edgeSet e).1 he)
  have hflagged : e ∉ g.flagged := fun he => hset (hagrees.flagged e he)
  have hout : e.target ∉ g.outgoing e.source := by
    rw [hagrees.outgoing]
    exact fun he => hnew (Edge.mem_targetsOf.1 he)
  have hin : e.source ∉ g.incoming e.target := by
    rw [hagrees.incoming]
    exact fun he => hnew (Edge.mem_sourcesOf.1 he)
  unfold unlink link
  dsimp only
  rw [filter_ne_append hnew, insertNew, if_neg hset, filter_ne_append hset, filter_ne_of_notMem hflagged,
    remove_enter hg.filled.2 hout, remove_enter hg.filled.1 hin]

theorem removeEdge_of_mem {g : Graph} {a b : PortId} (h : ⟨a, b⟩ ∈ g.edgeSet) :
    g.removeEdge a b = (true, g.unlink ⟨a, b⟩) := by
  simp [Graph.removeEdge, h]

/-! ### Adding and removing -/

/-- **An edge that is added and removed leaves no trace.** An edge is added if and only if it is connectable; if it is
not, the graph is as it was. An edge that was added stands at the end of all lists, and when it is removed, the graph is
the one before. An edge that is removed and added again has only moved to the end of the lists, and it has lost its
flag. -/
theorem Reached.removeEdge_undoes {g : Graph} (hg : g.Reached) (a b : PortId) :
    ((∃ g', g.addEdge a b = .ok g') ↔ g.Connectable ⟨a, b⟩) ∧
    (¬ g.Connectable ⟨a, b⟩ → ∃ err, g.addEdge a b = .error err ∧ (connect a b).run g = (.error err, g)) ∧
    (∀ g', g.addEdge a b = .ok g' →
      (connect a b).run g = (.ok (), g') ∧ g.Appended ⟨a, b⟩ g' ∧ g'.removeEdge a b = (true, g)) ∧
    (⟨a, b⟩ ∈ g.edges → ∃ g₁, g.removeEdge a b = (true, g₁) ∧
      ∀ g₂, g₁.addEdge a b = .ok g₂ → g.Moved ⟨a, b⟩ g₂) := by
  have hreg := hg.regular
  refine ⟨?_, hreg.connect_of_not_connectable, fun g' h => ?_, fun he => ?_⟩
  · constructor
    · rintro ⟨g', h⟩
      exact (hreg.addEdge_eq_ok_iff_connectable.1 h).1
    · exact fun h => ⟨_, hreg.addEdge_eq_ok_iff_connectable.2 ⟨h, rfl⟩⟩
  · obtain ⟨⟨_, _, -, -, -, -, -, hnew⟩, rfl⟩ := hreg.addEdge_eq_ok_iff_connectable.1 h
    have hmem : ⟨a, b⟩ ∈ (g.link ⟨a, b⟩).edgeSet := mem_insertNew.2 (Or.inl rfl)
    refine ⟨by rw [connect_run, h], hg.indexed.appended_link hnew, ?_⟩
    rw [removeEdge_of_mem hmem, hg.unlink_link hnew]
  · have hset := hreg.inSet.2 he
    refine ⟨_, removeEdge_of_mem hset, fun g₂ h => ?_⟩
    obtain ⟨-, -, -, -, -, -, -, -, rfl⟩ := addEdge_eq_ok h
    exact moved_link_unlink hset

/-- The edge between a source and its relay is removed and added again. -/
theorem removeEdge_undoes_signal : signalPair.Reached ∧ ∃ g₁ g₂, signalPair.removeEdge ⟨4⟩ ⟨5⟩ = (true, g₁) ∧
    g₁.addEdge ⟨4⟩ ⟨5⟩ = .ok g₂ ∧ signalPair.Moved ⟨⟨4⟩, ⟨5⟩⟩ g₂ ∧ g₂.removeEdge ⟨4⟩ ⟨5⟩ = (true, g₁) := by
  have hreached := built_signalPair.reached
  obtain ⟨-, -, -, hmoved⟩ := Reached.removeEdge_undoes hreached ⟨4⟩ ⟨5⟩
  obtain ⟨g₁, hremoved, hagain⟩ := hmoved (by decide)
  have hg₁ : g₁ = (signalPair.removeEdge ⟨4⟩ ⟨5⟩).2 := by rw [hremoved]
  obtain ⟨g₂, hadded⟩ : ∃ g₂, g₁.addEdge ⟨4⟩ ⟨5⟩ = .ok g₂ := hg₁ ▸ ⟨_, rfl⟩
  have hreached₁ : g₁.Reached := hg₁ ▸ .removeEdge hreached ⟨4⟩ ⟨5⟩
  obtain ⟨-, -, hundone, -⟩ := Reached.removeEdge_undoes hreached₁ ⟨4⟩ ⟨5⟩
  exact ⟨hreached, g₁, g₂, hremoved, hadded, hagain g₂ hadded, (hundone g₂ hadded).2.2⟩

end Dataflow.Graph
