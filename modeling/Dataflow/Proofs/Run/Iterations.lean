import Dataflow.Proofs.Run.Endings

/-!
# Within an iteration

* `Run.Steady` says that two states of a run count the same iterations and the same sources that have fired;
* `Run.steady_step`: only a step at a boundary between iterations changes these, and `Run.boundary_step` says how;
* `Run.Within` says that steps lead from one state to another in one iteration.
-/

namespace Dataflow.Run

/-! ### Scanning -/

/-- The scan finds the nodes that join, in their order: that a source has fired matters to no other node. -/
theorem collectReady_eq {g : Graph} {nodes : List Node} (hn : (nodes.map Node.id).Nodup) (fired : List NodeId) :
    (collectReady g nodes fired).1 = (nodes.filter (joins g fired)).map Node.id := by
  induction nodes generalizing fired with
  | nil => rfl
  | cons n rest ih =>
    obtain ⟨hnew, hrest⟩ := List.nodup_cons.1 hn
    have hothers : rest.filter (joins g (insertNew n.id fired)) = rest.filter (joins g fired) := by
      refine List.filter_congr fun m hm => ?_
      have hne : m.id ≠ n.id := fun e => hnew (e ▸ List.mem_map_of_mem hm)
      have hsame : (insertNew n.id fired).contains m.id = fired.contains m.id := by
        rw [Bool.eq_iff_iff, List.contains_iff_mem, List.contains_iff_mem, mem_insertNew, or_iff_right hne]
      unfold joins
      rw [hsame]
    unfold collectReady
    by_cases hj : joins g fired n = true
    · rw [if_pos hj, List.filter_cons_of_pos hj, List.map_cons]
      split_ifs
      · rw [← hothers]
        exact congrArg (n.id :: ·) (ih hrest _)
      · exact congrArg (n.id :: ·) (ih hrest _)
    · rw [if_neg hj, List.filter_cons_of_neg hj]
      exact ih hrest fired

/-! ### What stays within an iteration -/

/-- Two states count the same iterations, and the same sources that have fired. -/
structure Steady (r r' : Run) : Prop where
  iteration : r'.iteration = r.iteration
  fired : r'.firedSources = r.firedSources

section Steady

variable {r r' r'' : Run}

theorem Steady.trans (h : r.Steady r') (h' : r'.Steady r'') : r.Steady r'' :=
  ⟨h'.iteration.trans h.iteration, h'.fired.trans h.fired⟩

theorem steady_perform (node : NodeId) (script : Script) (r : Run) : r.Steady (perform node script r).2 := by
  rw [perform_eq]
  exact ⟨rfl, rfl⟩

theorem steady_complete (r : Run) (id : NodeId) (startedAt : Nat) (result : Except NodeError Output) :
    r.Steady (r.complete id startedAt result).2 := by
  rw [complete_eq]
  exact ⟨rfl, rfl⟩

theorem steady_afterRelay (task : Task) (depth : Nat) (agenda : Agenda) (stop : Stop) (r : Run) :
    r.Steady (afterRelay task depth agenda stop r) := by
  cases stop with
  | finished result =>
    have hcomplete := r.steady_complete task.node task.startedAt result
    unfold afterRelay
    rcases hc : r.complete task.node task.startedAt result with ⟨completed, r'⟩
    rw [hc] at hcomplete
    simp only [hc]
    cases completed with
    | ok => exact ⟨hcomplete.iteration, hcomplete.fired⟩
    | error e => exact ⟨hcomplete.iteration, hcomplete.fired⟩
  | panicked message => exact ⟨rfl, rfl⟩
  | asleep ms rest => exact ⟨rfl, rfl⟩

theorem steady_carry (r : Run) (task : Task) (depth : Nat) (agenda : Agenda) : r.Steady (r.carry task depth agenda) :=
  (steady_perform ..).trans (steady_afterRelay ..)

theorem steady_propagateFrom (r : Run) (id : NodeId) (depth : Nat) (agenda : Agenda) :
    r.Steady (r.propagateFrom id depth agenda) := by
  unfold propagateFrom
  dsimp only
  split_ifs <;> split <;> exact ⟨rfl, rfl⟩

theorem Drives.steady {acts : List Act} {deeds : List Deed} (h : r.Drives acts deeds r') (hp : r.phase ≠ .boundary) :
    r.Steady r' := by
  cases h with
  | desist hboundary | begin hboundary | park hboundary | lose hboundary => exact absurd hboundary hp
  | abandon =>
    rw [abandon_eq]
    exact ⟨rfl, rfl⟩
  | @settle _ f =>
    have hcomplete := r.steady_complete f.node f.startedAt f.result
    exact ⟨hcomplete.iteration, hcomplete.fired⟩
  | pass =>
    rw [pass_eq]
    exact ⟨rfl, rfl⟩
  | move => exact steady_propagateFrom ..
  | @relay _ n =>
    have hlaunch : r.Steady (r.launch n).2 := ⟨rfl, rfl⟩
    exact hlaunch.trans (steady_carry ..)
  | resume => exact steady_carry ..
  | _ => exact ⟨rfl, rfl⟩

/-- **Only a step at a boundary between iterations begins another one.** -/
theorem steady_step {s : Signal} (hp : r.phase ≠ .boundary) (h : r.step? s = some r') : r.Steady r' := by
  cases s with
  | drive => exact (drives_of_drive? h).steady hp
  | run node =>
    obtain ⟨batch, task, batch', -, -, rfl, -⟩ := runNode_turned h
    have hperform := steady_perform task.node task.script r
    exact ⟨hperform.iteration, hperform.fired⟩
  | wake node =>
    obtain ⟨batch, batch', -, rfl, -⟩ := wakeNode_turned h
    exact ⟨rfl, rfl⟩
  | control call =>
    cases h
    exact ⟨rfl, rfl⟩
  | pass ms =>
    cases h
    exact ⟨rfl, rfl⟩

end Steady

/-- What a step at a boundary makes of these. -/
theorem boundary_step {r r' : Run} {s : Signal} (hp : r.phase = .boundary) (h : r.step? s = some r') :
    (r.Steady r' ∧ r'.phase.isIdle = true) ∨ (r'.iteration = r.iteration ∧ r'.phase.isOver = true) ∨
      ∃ batch, r'.phase = .activating batch ∧ batch.ready = (collectReady r.graph r.graph.nodeList r.firedSources).1 ∧
        batch.ready ≠ [] ∧ r'.iteration = r.iteration + 1 ∧
        r'.firedSources = (collectReady r.graph r.graph.nodeList r.firedSources).2 := by
  have hidle : r.phase.isIdle = true := by rw [hp]; rfl
  have hbegin : (r.beginIteration.iteration = r.iteration ∧ r.beginIteration.phase.isOver = true) ∨
      ∃ batch, r.beginIteration.phase = .activating batch ∧
        batch.ready = (collectReady r.graph r.graph.nodeList r.firedSources).1 ∧ batch.ready ≠ [] ∧
        r.beginIteration.iteration = r.iteration + 1 ∧
        r.beginIteration.firedSources = (collectReady r.graph r.graph.nodeList r.firedSources).2 := by
    unfold beginIteration
    rcases collectReady r.graph r.graph.nodeList r.firedSources with ⟨ready, fired⟩
    dsimp only
    split_ifs with hempty
    · exact Or.inl ⟨rfl, rfl⟩
    · rw [spawn_eq]
      exact Or.inr ⟨_, rfl, rfl, fun hnil => hempty (List.isEmpty_iff.2 hnil), rfl, rfl⟩
  cases s with
  | drive =>
    simp only [step?, drive?, hp, Option.some.injEq] at h
    subst h
    unfold atBoundary
    split_ifs
    · exact Or.inr (Or.inl ⟨rfl, rfl⟩)
    · split
      · exact Or.inr hbegin
      · exact Or.inr hbegin
      · exact Or.inl ⟨⟨rfl, rfl⟩, rfl⟩
      · exact Or.inr (Or.inl ⟨rfl, rfl⟩)
  | run node => simp only [step?, runNode?, hp, reduceCtorEq] at h
  | wake node => simp only [step?, wakeNode?, hp, reduceCtorEq] at h
  | control call =>
    cases h
    exact Or.inl ⟨⟨rfl, rfl⟩, hidle⟩
  | pass ms =>
    cases h
    exact Or.inl ⟨⟨rfl, rfl⟩, hidle⟩

/-- Steps lead from one state to another in one iteration. -/
structure Within (r : Run) (acts : List Act) (r' : Run) : Prop where
  leads : Leads r acts r'
  same : r'.iteration = r.iteration

theorem Within.refl (r : Run) : r.Within [] r :=
  ⟨.refl r, rfl⟩

theorem Within.step {r r' r'' : Run} {acts : List Act} {s : Signal} (h : r.Within acts r') (hp : r'.phase ≠ .boundary)
    (hs : r'.step? s = some r'') : r.Within (acts ++ r'.acts s) r'' :=
  ⟨h.leads.step hs, (steady_step hp hs).iteration.trans h.same⟩

end Dataflow.Run
