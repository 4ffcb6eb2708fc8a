import Dataflow.Proofs.Run.Reached
import Dataflow.Proofs.Run.Unattended

/-!
# Graphs without cycles go quiet

Without cycles, what a node puts out moves upwards only, so that there is an end to it if no behavior makes up work of
its own.

* `Run.Ends` says that a run comes to its end, whatever is next and however much time passes in between, and `Run.Comes`
  says in the same sense that it comes to some state;
* `Run.Comes.of_fair`, `Run.Ends.over_of_fair`: then every endless sequence of steps that is fair to the run gets there;
* `Run.acyclic_ends`: in a graph without cycles, a run at full speed comes to its end, within as many iterations as
  there are nodes.
-/

namespace Dataflow.Run

/-! ### Runs that come to their end -/

/-- As long as no call is made, the run comes to its end with a report of some kind, after finitely many steps. Time may
pass before each of them, and each of them may be any that can come then. Until the end, there always is one that can come
after some time, and can still come later. -/
inductive Ends (P : ExecutionResult → Prop) : Run → Prop
  | ended {r : Run} {result : ExecutionResult} (hp : r.phase = .over result) (h : P result) : Ends P r
  | onward {r : Run} (hcan : ∃ s, s.goesOn = true ∧ ∃ ms₀, ∀ ms ≥ ms₀, ((r.wait ms).step? s).isSome)
      (hall : ∀ ms s r', s.goesOn = true → Deed.Silent ((r.wait ms).deeds s) → (r.wait ms).step? s = some r' → Ends P r') :
      Ends P r

/-- As long as no call is made, the run comes to a state of some kind, after finitely many steps, in the same sense. -/
inductive Comes (P : Run → Prop) : Run → Prop
  | here {r : Run} (h : P r) : Comes P r
  | onward {r : Run} (hcan : ∃ s, s.goesOn = true ∧ ∃ ms₀, ∀ ms ≥ ms₀, ((r.wait ms).step? s).isSome)
      (hall : ∀ ms s r', s.goesOn = true → Deed.Silent ((r.wait ms).deeds s) → (r.wait ms).step? s = some r' → Comes P r') :
      Comes P r

theorem Comes.mono {P Q : Run → Prop} {r : Run} (h : r.Comes P) (himp : ∀ r, P r → Q r) : r.Comes Q := by
  induction h with
  | here hP => exact .here (himp _ hP)
  | onward hcan _ ih => exact .onward hcan ih

theorem Ends.comes {P : ExecutionResult → Prop} {r : Run} (h : r.Ends P) :
    r.Comes fun r => ∃ result, r.phase = .over result ∧ P result := by
  induction h with
  | ended hp hP => exact .here ⟨_, hp, hP⟩
  | onward hcan _ ih => exact .onward hcan ih

/-- An endless sequence of steps without calls. If the run can go on after some time, and then still can, it does go on at
some time. -/
structure Fair (states : Nat → Run) (signals : Nat → Signal) : Prop where
  steps : ∀ i, (states i).step? (signals i) = some (states (i + 1))
  silent : ∀ i, Deed.Silent ((states i).deeds (signals i))
  fair : ∀ i s, s.goesOn = true → (∃ ms₀, ∀ ms ≥ ms₀, (((states i).wait ms).step? s).isSome) →
    ∃ j ≥ i, (signals j).goesOn = true

section Fair

variable {states : Nat → Run} {signals : Nat → Signal} {P : ExecutionResult → Prop}

theorem Fair.drop (h : Fair states signals) (n : Nat) : Fair (fun i => states (n + i)) fun i => signals (n + i) where
  steps i := h.steps (n + i)
  silent i := h.silent (n + i)
  fair i s hgo hcan := by
    obtain ⟨j, hj, hgo'⟩ := h.fair (n + i) s hgo hcan
    exact ⟨j - n, by omega, by rwa [show n + (j - n) = j by omega]⟩

/-- Until the run goes on, time passes only. -/
theorem Fair.wait (h : Fair states signals) {n : Nat} (hn : ∀ i < n, (signals i).goesOn = false) :
    ∃ ms, states n = (states 0).wait ms := by
  induction n with
  | zero => exact ⟨0, rfl⟩
  | succ n ih =>
    obtain ⟨ms, hms⟩ := ih fun i hi => hn i (Nat.lt_succ_of_lt hi)
    have hstep := h.steps n
    cases hs : signals n with
    | pass ms' =>
      rw [hs, hms] at hstep
      refine ⟨ms + ms', (Option.some.inj hstep).symm.trans ?_⟩
      simp only [Run.wait, Nat.add_assoc]
    | control c =>
      have hsilent := h.silent n
      rw [hs] at hsilent
      exact absurd List.mem_cons_self (hsilent c)
    | drive | run | wake =>
      have hgo := hn n (Nat.lt_succ_self n)
      rw [hs] at hgo
      cases hgo

/-- **A run that comes to a state does so in every fair sequence of steps.** -/
theorem Comes.of_fair {P : Run → Prop} (hcomes : (states 0).Comes P) (h : Fair states signals) : ∃ i, P (states i) := by
  generalize hr : states 0 = r at hcomes
  induction hcomes generalizing states signals with
  | @here r hP => exact ⟨0, by rwa [hr]⟩
  | @onward r hcan _ ih =>
    subst hr
    obtain ⟨s, hgo, hlater⟩ := hcan
    obtain ⟨j, -, hj⟩ := h.fair 0 s hgo hlater
    have hexists : ∃ n, (signals n).goesOn = true := ⟨j, hj⟩
    -- The first step by which the run goes on comes after some time.
    obtain ⟨n, hn, hfirst⟩ : ∃ n, (signals n).goesOn = true ∧ ∀ i < n, (signals i).goesOn = false :=
      ⟨Nat.find hexists, Nat.find_spec hexists, fun i hi => by simpa using Nat.find_min hexists hi⟩
    obtain ⟨ms, hms⟩ := h.wait hfirst
    obtain ⟨i, hP⟩ := ih ms (signals n) (states (n + 1)) hn (hms ▸ h.silent n) (hms ▸ h.steps n) (h.drop (n + 1)) rfl
    exact ⟨n + 1 + i, hP⟩

/-- **A run that comes to its end does so in every fair sequence of steps.** -/
theorem Ends.over_of_fair (hends : (states 0).Ends P) (h : Fair states signals) :
    ∃ i result, (states i).phase = .over result ∧ P result :=
  hends.comes.of_fair h

end Fair

/-! ### Graphs without cycles -/

theorem Phase.eq_over_of_isFinal {p : Phase} (h : p.isFinal = true) : ∃ result, p = .over result := by
  unfold Phase.isFinal at h
  split at h
  · exact ⟨_, rfl⟩
  · cases h

section Acyclic

variable {level : NodeId → Nat} {bound : Nat} {r₀ r r' : Run} {acts : List Act}

/-- A run that ends if nobody steers it, by induction on what is still ahead of it. -/
theorem Unattended.ends (hg : ∀ acts, (r₀.graph.replay acts).Graded level bound) (hp : r₀.phase = .boundary)
    (hzero : r₀.iteration = 0) (hlead : Leads r₀ acts r) (h : r.Unattended) :
    r.Ends fun result => (result.outcome = .completed ∨ ∃ error, result.outcome = .failed error) ∧
      result.iterations ≤ bound := by
  have hid := (hg []).identified
  induction r using (wellFounded_nearer bound fun id => bound - level id).induction generalizing acts with
  | h r ih =>
    have hcount := (hlead.demand hg hp hzero).count
    cases hfinal : r.phase.isFinal with
    | true =>
      obtain ⟨result, hphase⟩ := Phase.eq_over_of_isFinal hfinal
      have hsturdy := h.sturdy
      rw [hphase] at hsturdy
      refine .ended hphase ⟨?_, hsturdy.2 ▸ hcount⟩
      cases ho : result.outcome with
      | completed => exact Or.inl rfl
      | cancelled => exact absurd ho hsturdy.1
      | failed error => exact Or.inr ⟨error, rfl⟩
    | false =>
      refine .onward (h.can_go_on hfinal) fun ms s r' hgo hsilent hs => ?_
      have hwait : Leads r₀ (acts ++ r.acts (.pass ms)) (r.wait ms) := hlead.step rfl
      have hgraded : (r.wait ms).graph.Graded level bound := by
        rw [hwait.graph hid]
        exact hg _
      have hnext := hwait.step hs
      have hstrides := (h.wait ms).strides hgraded.identified (fun id relay hrelay => hgraded.lower hrelay)
        (hnext.demand hg hp hzero).count hgo hsilent hs
      exact ih r' hstrides.nearer hnext ((h.wait ms).step hgraded.identified hfinal hsilent hs hstrides)

/-- **Graphs without cycles go quiet.** If the behaviors of a graph without cycles do not break down, do not refire and
never report pending work, then a run at full speed in which no call is made comes to its end, completed or failed, after
at most as many iterations as there are nodes. This does not depend on the values that the ports hold at the start. -/
theorem acyclic_ends {x : Executor} {g : Graph} {context : Context} {now : Nat} {r : Run} (hg : g.Identified)
    (ha : g.Agrees) (hproper : Table.Proper g.owners) (hacyclic : g.Acyclic) (hpassive : g.Behaves Behavior.Passive)
    (hunbroken : g.Behaves Behavior.Unbroken) (hstart : start x g context .continuous now = .ok r) :
    r.Ends fun result => (result.outcome = .completed ∨ ∃ error, result.outcome = .failed error) ∧
      result.iterations ≤ g.order.length := by
  obtain ⟨level, hlevels⟩ := hacyclic.exists_levels hg
  obtain ⟨hp, hgraph⟩ := start_eq hstart
  obtain ⟨-, hstate, -, -, hcancelled, hstepping⟩ := start_executor hstart
  have hdrawn : ({ g with supply := g.supply.draw.2 } : Graph).Identified := hg.draw (Nat.le_succ _)
  have howned := ha.isOwned hproper
  have hgraded : ∀ acts, (r.graph.replay acts).Graded level g.order.length := by
    intro acts
    rw [hgraph, ← Graph.replay_append]
    exact Graph.Levels.graded (g := { g with supply := g.supply.draw.2 }) ⟨hlevels.bounded, hlevels.ascends⟩ hdrawn
      ⟨howned.proper, howned.owned⟩ (fun p q hq => ha.mem_outgoing.1 hq) hpassive _
  refine Unattended.ends hgraded hp (start_iteration hstart) (.refl r)
    ⟨?_, fun _ => ⟨hstate, hcancelled, hstepping⟩, ?_⟩
  · rw [hgraph]
    exact Graph.Behaves.replay (g := { g with supply := g.supply.draw.2 }) hdrawn hunbroken _
  · rw [hp]
    trivial

end Acyclic

/-- The source triggers the relay, which triggers nothing. -/
theorem acyclic_signalPair : Graph.signalPair.Acyclic := by
  have hagrees := Graph.built_signalPair.reached.indexes_agree
  have hjoined : ∀ {id id' : NodeId}, Graph.signalPair.Joined id id' → id = ⟨1⟩ ∧ id' = ⟨2⟩ := by
    rintro id id' ⟨n, n', e, hn, hn', he, hsource, htarget⟩
    obtain rfl : e = ⟨⟨4⟩, ⟨5⟩⟩ := List.mem_singleton.1 (show e ∈ [⟨⟨4⟩, ⟨5⟩⟩] from he)
    have howner : Graph.signalPair.ownerOf? ⟨4⟩ = some id := (hagrees.owner _ _).2 ⟨n, hn, hsource⟩
    have howner' : Graph.signalPair.ownerOf? ⟨5⟩ = some id' := (hagrees.owner _ _).2 ⟨n', hn', htarget⟩
    exact ⟨(Option.some.inj howner).symm, (Option.some.inj howner').symm⟩
  intro id h
  obtain ⟨_, hfirst, -⟩ := Relation.TransGen.head'_iff.1 h
  obtain ⟨_, -, hlast⟩ := Relation.TransGen.tail'_iff.1 h
  have hsame := (hjoined hfirst).1.symm.trans (hjoined hlast).2
  cases hsame

theorem acyclic_ends_signal : signalStart.Ends fun result =>
    (result.outcome = .completed ∨ ∃ error, result.outcome = .failed error) ∧ result.iterations ≤ 2 := by
  have hgraph := Graph.built_signalPair.regular
  have hagrees := Graph.built_signalPair.reached.indexes_agree
  have hpassive : Graph.signalPair.Behaves Behavior.Passive := by
    intro id n hn
    rw [Graph.node?_signalPair] at hn
    split_ifs at hn <;> cases hn <;> exact ⟨rfl, fun _ => rfl⟩
  have hunbroken : Graph.signalPair.Behaves Behavior.Unbroken := by
    intro id n hn
    rw [Graph.node?_signalPair] at hn
    split_ifs at hn <;> cases hn <;> exact fun _ _ => .finish
  exact acyclic_ends hgraph.toIdentified hagrees hgraph.proper acyclic_signalPair hpassive hunbroken start_signal

end Dataflow.Run
