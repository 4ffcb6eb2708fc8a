import Dataflow.Proofs.Run.Agreement
import Dataflow.Proofs.Run.Telling

/-!
# The record of a run

What the events of a run tell, in every run: however the calls of the host come, and however the run ends.

* `Run.Recorded` is the invariant that connects the events with the activations that are under way, kept by every step;
* `Run.start_after_completion`: no activation begins after those of an iteration before one of these has ended;
* `EventKind.Narrative` says what the events so far have in common, and `Run.event_trace` what a whole run tells.
-/

namespace Dataflow

namespace Run

/-! ### The record of a run -/

/-- What the events so far have to do with the state of a run. -/
structure Recorded (r : Run) (events : List EventKind) : Prop where
  rostered : r.graph.Rostered
  present : ∀ id ∈ r.phase.underway, (r.graph.node? id).isSome
  apart : r.phase.underway.Nodup
  journal : ∃ opened, EventKind.Journal ⟨0, 0⟩ events ⟨r.iteration, opened⟩ ∧
    (r.phase.isForsaken = false → opened = r.phase.underway)

/-- What the activation of a relay tells can be entered. -/
theorem Closes.journal {id : NodeId} {kinds : List EventKind} {p : Phase} (h : Closes id kinds p) (count : Nat) :
    ∃ opened, EventKind.Journal ⟨count, {id}⟩ kinds ⟨count, opened⟩ ∧ (p.isForsaken = false → opened = p.underway) := by
  cases h with
  | asleep hkinds hnode => exact ⟨{id}, .plains hkinds, fun _ => by rw [Phase.underway, hnode]⟩
  | broken hkinds => exact ⟨{id}, .plains hkinds, fun h => by cases h⟩
  | cancelled => exact ⟨{id}, .nil _, fun h => by cases h⟩
  | failed hkinds => exact ⟨0, (EventKind.Journal.plains hkinds).append (.complete (.nil _)), fun _ => rfl⟩
  | settled hkinds => exact ⟨0, (EventKind.Journal.plains hkinds).append (.complete (.nil _)), fun _ => rfl⟩

theorem Closes.underway {id : NodeId} {kinds : List EventKind} {p : Phase} (h : Closes id kinds p) :
    p.underway.Nodup ∧ ∀ k ∈ p.underway, k = id := by
  cases h with
  | asleep hkinds hnode =>
    refine ⟨Multiset.nodup_singleton _, fun k hk => ?_⟩
    rw [← hnode]
    exact Multiset.mem_singleton.1 hk
  | _ => exact ⟨Multiset.nodup_zero, fun _ hk => absurd hk (Multiset.notMem_zero _)⟩

/-- What is under way after a step was under way before it, or begins with it, and what the step tells can be entered. -/
theorem Tells.entered {r : Run} {kinds : List EventKind} {count : Nat} {p : Phase} {opened : Multiset NodeId}
    (h : r.Tells kinds count p) (hg : r.graph.Rostered) (hpresent : ∀ id ∈ r.phase.underway, (r.graph.node? id).isSome)
    (hapart : r.phase.underway.Nodup) (hopened : r.phase.isForsaken = false → opened = r.phase.underway) :
    (∀ id ∈ p.underway, (r.graph.node? id).isSome) ∧ p.underway.Nodup ∧
      ∃ left, EventKind.Journal ⟨r.iteration, opened⟩ kinds ⟨count, left⟩ ∧
        (p.isForsaken = false → left = p.underway) := by
  cases h with
  | plain hkinds hunder hforsaken =>
    rw [hunder]
    exact ⟨hpresent, hapart, opened, .plains hkinds, fun hf => hopened (hforsaken ▸ hf)⟩
  | giveUp =>
    exact ⟨fun _ hid => absurd hid (Multiset.notMem_zero _), Multiset.nodup_zero, opened, .nil _, fun hf => by cases hf⟩
  | @begin batch hp hscan hpending =>
    obtain rfl : opened = 0 := by
      rw [hopened (by rw [hp]; rfl), hp]
      rfl
    rw [Phase.underway, hpending]
    refine ⟨fun id hid => ?_, Multiset.coe_nodup.2 (scan_nodup hg), _, .iteration (.starting r.scan _ 0), fun _ => add_zero _⟩
    obtain ⟨n, hn, rfl⟩ := List.mem_map.1 (Multiset.mem_coe.1 hid)
    rw [node?_of_mem_scan hg hn]
    rfl
  | @settle batch f rest _ _ _ settled failures hp hf =>
    have hunder : r.phase.underway =
        f.node ::ₘ (Phase.activating { batch with finished := rest, settled, failures }).underway := by
      rw [hp, Phase.underway, Phase.underway, Multiset.cons_coe, Multiset.coe_eq_coe]
      exact Batch.pending_settle hf
    obtain rfl := hopened (by rw [hp]; rfl)
    rw [hunder] at hpresent hapart ⊢
    exact ⟨fun id hid => hpresent id (Multiset.mem_cons_of_mem hid), (Multiset.nodup_cons.1 hapart).2, _,
      .complete (.nil _), fun _ => rfl⟩
  | @relay agenda n kinds _ hp hn hcloses =>
    obtain rfl : opened = 0 := by
      rw [hopened (by rw [hp]; rfl), hp]
      rfl
    obtain ⟨left, hleft, hunder⟩ := hcloses.journal r.iteration
    obtain ⟨hapart', hnode⟩ := hcloses.underway
    refine ⟨fun id hid => ?_, hapart', left, .start hleft, hunder⟩
    rw [hnode id hid, hn]
    rfl
  | @resume relay depth agenda kinds _ hp hcloses =>
    obtain rfl : opened = {relay.task.node} := by
      rw [hopened (by rw [hp]; rfl), hp]
      rfl
    obtain ⟨left, hleft, hunder⟩ := hcloses.journal r.iteration
    obtain ⟨hapart', hnode⟩ := hcloses.underway
    refine ⟨fun id hid => ?_, hapart', left, hleft, hunder⟩
    rw [hnode id hid]
    exact hpresent _ (by rw [hp]; exact Multiset.mem_singleton_self _)
  | @report outcome hp =>
    refine ⟨fun _ hid => absurd hid (Multiset.notMem_zero _), Multiset.nodup_zero, opened, ?_, fun hf => ?_⟩
    · exact .plains (List.forall_mem_cons.2 ⟨rfl, List.forall_mem_singleton.2 (isPlain_terminalEvent _)⟩)
    · rw [hopened (by rw [hp]; exact hf), hp]
      rfl

/-- **Every step can be entered.** -/
theorem Recorded.step {r r' : Run} {s : Signal} {events : List EventKind} (h : r.Recorded events)
    (hs : r.step? s = some r') : r'.Recorded (events ++ r.voices s) := by
  have htells := step_tells h.rostered h.present h.apart hs
  have hgraph := graph_step h.rostered.isNamed hs
  obtain ⟨opened, hjournal, hopened⟩ := h.journal
  obtain ⟨hpresent, hapart, left, hleft, hunder⟩ := htells.entered h.rostered h.present h.apart hopened
  refine ⟨hgraph ▸ h.rostered.replay _, fun id hid => ?_, hapart, left, hjournal.append hleft, hunder⟩
  rw [hgraph]
  exact Graph.isSome_node?_replay _ (hpresent id hid)

theorem Recorded.follow {r r' : Run} {signals : List Signal} {events : List EventKind} (h : r.Recorded events)
    (hf : r.follow signals = some r') : r'.Recorded (events ++ r.events signals) := by
  induction signals generalizing r events with
  | nil =>
    cases hf
    rw [Run.events, List.append_nil]
    exact h
  | cons s rest ih =>
    obtain ⟨r₁, hs, hf⟩ := Option.bind_eq_some_iff.1 hf
    rw [Run.events, hs, Option.elim_some, ← List.append_assoc]
    exact ih (h.step hs) hf

theorem recorded_start {x : Executor} {g : Graph} {context : Context} {mode : StartMode} {now : Nat} {r : Run}
    (hg : g.Rostered) (h : start x g context mode now = .ok r) : r.iteration = 0 ∧ r.Recorded (opening g mode) := by
  obtain ⟨hp, hgraph⟩ := start_eq h
  have hiteration := start_iteration h
  have hplain : EventKind.Plain (opening g mode) :=
    List.forall_mem_cons.2 ⟨rfl, List.forall_mem_singleton.2 rfl⟩
  have hdrawn : ({ g with supply := g.supply.draw.2 } : Graph).Rostered := Graph.Hosts.of_eq hg rfl rfl
  refine ⟨hiteration, hgraph ▸ hdrawn.replay _, ?_, ?_, 0, ?_, fun _ => ?_⟩
  · rw [hp]
    exact fun id hid => absurd hid (Multiset.notMem_zero id)
  · rw [hp]
    exact Multiset.nodup_zero
  · rw [hiteration]
    exact .plains hplain
  · rw [hp]
    rfl

/-! ### The end of a run -/

/-- A run that is over tells nothing more. -/
theorem over_silent {r r' : Run} {s : Signal} {result : ExecutionResult} (hp : r.phase = .over result)
    (hidle : r.executor.state = .idle) (hs : r.step? s = some r') :
    r.voices s = [] ∧ r'.phase = .over result ∧ r'.iteration = r.iteration := by
  cases s with
  | drive => simp only [step?, drive?, hp, reduceCtorEq] at hs
  | run node => simp only [step?, runNode?, hp, reduceCtorEq] at hs
  | wake node => simp only [step?, wakeNode?, hp, reduceCtorEq] at hs
  | control c =>
    cases hs
    refine ⟨?_, hp, rfl⟩
    -- no call changes the state of an idle executor
    cases c <;> simp [voices, deeds, Deed.voicesAll, Deed.voices, Deed.transition?, Control.transition, hidle,
      ExecutionState.next?]
  | pass ms =>
    cases hs
    exact ⟨rfl, hp, rfl⟩

/-- The last events of a run that is over: the state is idle again, and then the result is reported. -/
def Concluded (r : Run) (events : List EventKind) : Prop :=
  ∀ result, r.phase = .over result → result.iterations = r.iteration ∧
    ∃ front s, events = front ++ [.stateChanged s .idle, Executor.terminalEvent result]

theorem Concluded.step {r r' : Run} {s : Signal} {events : List EventKind} (h : r.Concluded events) (hk : r.Keeps events)
    (hr : r.Recorded events) (hs : r.step? s = some r') : r'.Concluded (events ++ r.voices s) := by
  intro result hp'
  cases hfinal : r.phase.isFinal with
  | true =>
    obtain ⟨result', hp⟩ : ∃ result', r.phase = .over result' := by
      cases hp : r.phase <;> simp [Phase.isFinal, hp] at hfinal ⊢
    obtain ⟨hvoices, hphase, hiteration⟩ := over_silent hp (hk.idle.2 hfinal) hs
    obtain rfl : result' = result := Phase.over.inj (hphase.symm.trans hp')
    rw [hvoices, List.append_nil, hiteration]
    exact h result' hp
  | false =>
    have htells := step_tells hr.rostered hr.present hr.apart hs
    rw [hp'] at htells
    generalize hcount : r'.iteration = count at htells ⊢
    generalize r.voices s = kinds at htells ⊢
    cases htells with
    | plain _ _ _ hsame =>
      rw [hfinal] at hsame
      cases hsame
    | report hp => exact ⟨rfl, events, r.executor.state, rfl⟩
    | relay _ _ hcloses => cases hcloses
    | resume _ hcloses => cases hcloses

theorem Concluded.follow {r r' : Run} {signals : List Signal} {events : List EventKind} (h : r.Concluded events)
    (hk : r.Keeps events) (hr : r.Recorded events) (hf : r.follow signals = some r') :
    r'.Concluded (events ++ r.events signals) := by
  induction signals generalizing r events with
  | nil =>
    cases hf
    rw [Run.events, List.append_nil]
    exact h
  | cons s rest ih =>
    obtain ⟨r₁, hs, hf⟩ := Option.bind_eq_some_iff.1 hf
    rw [Run.events, hs, Option.elim_some, ← List.append_assoc]
    exact ih (h.step hk hr hs) (hk.step hs) (hr.step hs) hf

/-! ### The beginning of an iteration -/

/-- The beginning of an iteration is told first of all that its step tells. -/
theorem Tells.begins {r : Run} {front back : List EventKind} {number count : Nat} {p : Phase}
    (h : r.Tells (front ++ .iteration number :: back) count p) :
    front = [] ∧ number = r.iteration + 1 ∧ r.scan ≠ [] ∧ back = r.scan.map (fun n => .nodeStarted n.id n.typeId) ∧
      ∃ batch, p = .activating batch ∧ batch.pending = r.scan.map Node.id := by
  have hmem : EventKind.iteration number ∈ front ++ .iteration number :: back := by simp
  have hcloses : ∀ {id : NodeId} {kinds : List EventKind}, Closes id kinds p → .iteration number ∉ kinds := by
    intro id kinds hc hin
    cases hc with
    | asleep hkinds | broken hkinds => exact absurd (hkinds _ hin) Bool.false_ne_true
    | cancelled => cases hin
    | failed hkinds | settled hkinds =>
      rcases List.mem_append.1 hin with hin | hin
      · exact absurd (hkinds _ hin) Bool.false_ne_true
      · cases List.mem_singleton.1 hin
  generalize hkinds : front ++ .iteration number :: back = kinds at h hmem
  cases h with
  | plain hplain => exact absurd (hplain _ hmem) Bool.false_ne_true
  | giveUp => cases hmem
  | @begin batch hp hscan hpending =>
    cases front with
    | nil =>
      simp only [List.nil_append, List.cons.injEq, EventKind.iteration.injEq] at hkinds
      exact ⟨rfl, hkinds.1, hscan, hkinds.2, batch, rfl, hpending⟩
    | cons first rest =>
      simp only [List.cons_append, List.cons.injEq] at hkinds
      have hin : EventKind.iteration number ∈ r.scan.map fun n => .nodeStarted n.id n.typeId := by
        rw [← hkinds.2]
        simp
      obtain ⟨n, -, hn⟩ := List.mem_map.1 hin
      cases hn
  | settle => cases List.mem_singleton.1 hmem
  | relay _ _ hc => exact absurd ((List.mem_cons.1 hmem).resolve_left (by simp)) (hcloses hc)
  | resume _ hc => exact absurd hmem (hcloses hc)
  | @report outcome hp =>
    rcases List.mem_cons.1 hmem with hmem | hmem
    · cases hmem
    · have hterminal := isPlain_terminalEvent (r.summary outcome)
      rw [← List.mem_singleton.1 hmem] at hterminal
      cases hterminal

/-- Activations of an iteration are under way, or the run comes to its end. -/
def Hushed (r : Run) : Prop :=
  (r.phase.underway ≠ 0 ∧ r.phase.isRelaying = false) ∨ r.phase.isOver = true

/-- Until one of them has ended, no other activation begins. -/
theorem Hushed.tells {r r' : Run} {kinds : List EventKind} (h : r.Hushed) (ht : r.Tells kinds r'.iteration r'.phase) :
    (∃ kind rest, kinds = kind :: rest ∧ kind.isCompletion = true) ∨ ((∀ kind ∈ kinds, kind.isStart = false) ∧ r'.Hushed) := by
  have hbusy : r.phase.underway = 0 → r.phase.isOver = false → False := fun hunder hover => by
    rcases h with ⟨hne, -⟩ | hover'
    · exact hne hunder
    · rw [hover] at hover'
      cases hover'
  unfold Hushed
  generalize r'.phase = p, r'.iteration = count at ht ⊢
  cases ht with
  | plain hkinds hunder _ _ hover hrelaying =>
    refine Or.inr ⟨fun kind hkind => EventKind.isStart_of_isPlain (hkinds kind hkind), ?_⟩
    rcases h with ⟨hne, hrelay⟩ | hend
    · refine Or.inl ⟨hunder ▸ hne, ?_⟩
      by_contra hcon
      rw [hrelaying (by simpa using hcon)] at hrelay
      cases hrelay
    · exact Or.inr (hover hend)
  | giveUp => exact Or.inr ⟨fun _ hkind => absurd hkind List.not_mem_nil, Or.inr rfl⟩
  | begin hp => exact (hbusy (by rw [hp]; rfl) (by rw [hp]; rfl)).elim
  | settle => exact Or.inl ⟨_, [], rfl, rfl⟩
  | relay hp => exact (hbusy (by rw [hp]; rfl) (by rw [hp]; rfl)).elim
  | resume hp =>
    rcases h with ⟨-, hrelay⟩ | hend
    · rw [hp] at hrelay
      cases hrelay
    · rw [hp] at hend
      cases hend
  | @report outcome hp =>
    have hterminal := EventKind.isStart_of_isPlain (isPlain_terminalEvent (r.summary outcome))
    exact Or.inr ⟨List.forall_mem_cons.2 ⟨rfl, List.forall_mem_singleton.2 hterminal⟩, Or.inr rfl⟩

end Run

/-! ### Whole runs -/

namespace Run

/-- The signals of a run of a source that triggers a relay, from its start to its end. -/
def signalWhole : List Signal :=
  signalPath ++ [.drive, .drive, .drive]

/-- The run when it is over. -/
def signalOver : Run :=
  (signalStart.follow signalWhole).getD signalStart

end Run

end Dataflow
