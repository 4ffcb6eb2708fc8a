import Dataflow.Proofs.Run.Lanes

/-!
# Iterations in a graph of wires

In an iteration of which at most one node puts out a value that is to be moved, the order in which outputs are moved makes no
difference either.

* `Run.unfolds_rest`: a node without a value to be moved is passed over, and `Run.unfolds_return`: an iteration is over when
  all outputs are moved;
* `Run.unfolds_idle`, `Run.unfolds_conveying` and `Run.unfolds_conveying_exceed` take the nodes of a scan together: none of
  them has a value to be moved, or one of them has, whose way is short enough or too long;
* `Run.Iterated` says what an iteration comes to, except for what has come to the ends of the wires;
* `Run.unfolds_silent`, `Run.unfolds_sending` and `Run.unfolds_sending_exceed` are whole iterations.
-/

namespace Dataflow.Run

variable {r r' : Run} {wires ws : List Wire} {limit : Nat} {acts acts' : List Act} {w w' : Wire} {v : Value}
  {origins : List NodeId} {id : NodeId} {turn : NodeId → Memory × Output}

/-! ### From node to node -/

/-- A run has gone on within an iteration, while its graph stayed the same and no activation began. -/
structure Stays (wires : List Wire) (limit : Nat) (r : Run) (acts acts' : List Act) (r' : Run) : Prop where
  passes : r.Passes wires limit r'
  same : r'.graph = r.graph
  received : ∀ id, Act.received id acts' = Act.received id acts

theorem Stays.trans {r'' : Run} {acts'' : List Act} (h : Stays wires limit r acts acts' r')
    (h' : Stays wires limit r' acts' acts'' r'') : Stays wires limit r acts acts'' r'' :=
  ⟨h.passes.trans h'.passes, h'.same.trans h.same, fun id => (h'.received id).trans (h.received id)⟩

/-- A step of the driver without acts, that does not end the run. -/
theorem stays_of_drive {ms : Nat} (hw : r.Wired wires limit) (hp : r.phase ≠ .boundary) (hdriving : (r.wait ms).driving = [])
    (hsilent : Deed.Silent ((r.wait ms).deeds .drive)) (hs : (r.wait ms).step? .drive = some r')
    (hfinal : r'.phase.isFinal = false) : Stays wires limit r acts (acts ++ (r.wait ms).acts .drive) r' := by
  have hwait := hw.wait ms
  have hpasses := hwait.passes hp hsilent hs hfinal
  have hacts : (r.wait ms).acts .drive = [] := hdriving
  refine ⟨⟨hpasses.wired, hpasses.becomes, hpasses.steady.iteration, hpasses.steady.fired⟩, ?_, fun _ => ?_⟩
  · rw [graph_step hwait.graph.toIdentified.isNamed hs, hacts]
    rfl
  · rw [hacts, List.append_nil]

/-- When there is no work left, the next node is that of which the outputs are moved. -/
theorem unfolds_next (hw : r.Wired wires limit) (hp : r.phase = .propagating ⟨[], id :: origins⟩) :
    r.Unfolds (fun acts' r' => r'.phase = .propagating ⟨[.propagate id 0], origins⟩ ∧ Stays wires limit r acts acts' r')
      acts := by
  refine .of_drive (by rw [hp]; rfl) (fun ms => by simp [step?, drive?, wait, hp]) fun ms r' hs hsilent => ?_
  have hstep : (r.wait ms).phase = .propagating ⟨[], id :: origins⟩ := hp
  have hphase : r'.phase = .propagating ⟨[.propagate id 0], origins⟩ := by
    simp only [step?, drive?, hstep, propagateNext, Option.some.injEq] at hs
    rw [← hs]
  exact .here ⟨hphase, stays_of_drive hw (by rw [hp]; exact Phase.noConfusion) (by simp only [driving, hstep]) hsilent hs
    (by rw [hphase]; rfl)⟩

/-- A node without a value to be moved is passed over. -/
theorem unfolds_rest (hw : r.Wired wires limit) (hn : (r.graph.node? id).isSome)
    (hnone : ∀ w ∈ wires, w.source = id → r.graph.sent? w = none) (hp : r.phase = .propagating ⟨[], id :: origins⟩) :
    r.Unfolds (fun acts' r' => r'.phase = .propagating ⟨[], origins⟩ ∧ Stays wires limit r acts acts' r') acts := by
  obtain ⟨n, hn⟩ := Option.isSome_iff_exists.1 hn
  refine (unfolds_next hw hp).bind fun acts₁ r₁ ⟨hphase, hstays⟩ => ?_
  have hidle : r₁.graph.transferOutputs id = ⟨r₁.graph, [], [], none⟩ := by
    rw [hstays.same]
    exact hw.graph.idle hn hnone
  refine passes_move hstays.passes.wired hphase (by rw [hidle]) (by rw [hidle, List.filter_nil, List.map_nil])
    fun acts₂ r₂ hphase₂ hpasses hgraph hacts => ⟨hphase₂, hstays.trans ⟨hpasses, ?_, hacts⟩⟩
  rw [hgraph, hidle]

/-- When the time between two iterations has passed, the run is at the boundary. -/
theorem unfolds_delaying {wakeAt : Nat} (hw : r.Wired wires limit) (hp : r.phase = .delaying wakeAt) :
    r.Unfolds (fun acts' r' => r'.phase = .boundary ∧ Stays wires limit r acts acts' r') acts := by
  refine .onward (hw.running.can_go_on (by rw [hp]; rfl) (by rw [hp]; exact Phase.noConfusion)
    fun _ => by rw [hp]; exact Phase.noConfusion) fun ms s r' hgo hsilent hs => ?_
  have hstep : (r.wait ms).phase = .delaying wakeAt := hp
  cases s with
  | drive =>
    have hphase : r'.phase = .boundary := by
      simp only [step?, drive?, hstep, whileDelaying?, (hw.wait ms).running.cancelled, Bool.false_eq_true, if_false] at hs
      split_ifs at hs
      rw [← Option.some.inj hs]
      rfl
    exact .here ⟨hphase, stays_of_drive hw (by rw [hp]; exact Phase.noConfusion) (by simp only [driving, hstep]) hsilent hs
      (by rw [hphase]; rfl)⟩
  | run node =>
    obtain ⟨batch, task, hb, -⟩ := runNode?_eq_some.1 hs
    cases hstep.symm.trans hb
  | wake node =>
    obtain ⟨batch, sleeper, hb, -⟩ := wakeNode?_eq_some.1 hs
    cases hstep.symm.trans hb
  | control | pass => cases hgo

/-- When all outputs are moved, the iteration is over, after some time if there is a delay. -/
theorem unfolds_return (hw : r.Wired wires limit) (hp : r.phase = .propagating ⟨[], []⟩) :
    r.Unfolds (fun acts' r' => r'.phase = .boundary ∧ Stays wires limit r acts acts' r') acts := by
  refine .of_drive (by rw [hp]; rfl) (fun ms => by simp [step?, drive?, wait, hp]) fun ms r' hs hsilent => ?_
  have hstep : (r.wait ms).phase = .propagating ⟨[], []⟩ := hp
  have hphase : r'.phase = .boundary ∨ ∃ wakeAt, r'.phase = .delaying wakeAt := by
    simp only [step?, drive?, hstep, propagateNext, Option.some.injEq] at hs
    rw [← hs]
    unfold beginDelay
    split
    · exact Or.inr ⟨_, rfl⟩
    · exact Or.inl rfl
  have hstays : Stays wires limit r acts (acts ++ (r.wait ms).acts .drive) r' :=
    stays_of_drive hw (by rw [hp]; exact Phase.noConfusion) (by simp only [driving, hstep]) hsilent hs
      (by rcases hphase with h | ⟨_, h⟩ <;> rw [h] <;> rfl)
  rcases hphase with hphase | ⟨wakeAt, hphase⟩
  · exact .here ⟨hphase, hstays⟩
  · exact (unfolds_delaying hstays.passes.wired hphase).mono fun acts₂ r₂ h => ⟨h.1, hstays.trans h.2⟩

/-! ### All nodes of a scan -/

/-- If no node has a value to be moved, the iteration is over without any change. -/
theorem unfolds_idle (hw : r.Wired wires limit) (hidle : ∀ w ∈ wires, r.graph.sent? w = none)
    (hnodes : ∀ id ∈ origins, (r.graph.node? id).isSome) (hp : r.phase = .propagating ⟨[], origins⟩) :
    r.Unfolds (fun acts' r' => r'.phase = .boundary ∧ Stays wires limit r acts acts' r') acts := by
  induction origins generalizing r acts with
  | nil => exact unfolds_return hw hp
  | cons id rest ih =>
    obtain ⟨hnode, hnodes⟩ := List.forall_mem_cons.1 hnodes
    refine (unfolds_rest hw hnode (fun w hmem _ => hidle w hmem) hp).bind fun acts₁ r₁ ⟨hphase₁, hstays₁⟩ => ?_
    rw [← hstays₁.same] at hidle hnodes
    exact (ih hstays₁.passes.wired hidle hnodes hphase₁).mono fun acts₂ r₂ ⟨hphase₂, hstays₂⟩ =>
      ⟨hphase₂, hstays₁.trans hstays₂⟩

/-- The nodes of a scan before the one that has a value to be moved are passed over. -/
theorem unfolds_reach (hw : r.Wired wires limit) (hothers : ∀ w' ∈ wires, w' ≠ w → r.graph.sent? w' = none)
    (hnodes : ∀ id ∈ origins, (r.graph.node? id).isSome) (hin : w.source ∈ origins)
    (hp : r.phase = .propagating ⟨[], origins⟩) :
    r.Unfolds (fun acts' r' => ∃ rest, rest ⊆ origins ∧ r'.phase = .propagating ⟨[.propagate w.source 0], rest⟩ ∧
      Stays wires limit r acts acts' r') acts := by
  induction origins generalizing r acts with
  | nil => exact absurd hin List.not_mem_nil
  | cons id rest ih =>
    by_cases hid : id = w.source
    · subst hid
      exact (unfolds_next hw hp).mono fun acts₁ r₁ h => ⟨rest, List.subset_cons_self .., h⟩
    · obtain ⟨hnode, hnodes⟩ := List.forall_mem_cons.1 hnodes
      refine (unfolds_rest hw hnode (fun w' hmem hsource => hothers w' hmem fun heq => hid (hsource ▸ heq ▸ rfl)) hp).bind
        fun acts₁ r₁ ⟨hphase₁, hstays₁⟩ => ?_
      rw [← hstays₁.same] at hothers hnodes
      refine (ih hstays₁.passes.wired hothers hnodes ((List.mem_cons.1 hin).resolve_left (Ne.symm hid)) hphase₁).mono
        fun acts₂ r₂ ⟨rest', hrest, hphase₂, hstays₂⟩ => ⟨rest', fun _ h => List.mem_cons_of_mem _ (hrest h), hphase₂, ?_⟩
      exact hstays₁.trans hstays₂

section Conveying

variable (hw : r.Wired wires limit) (hmem : w :: ws ⊆ wires) (hchain : (w :: ws).IsChain r.graph.Relayed)
  (hsent : r.graph.sent? w = some v) (hothers : ∀ w' ∈ wires, w' ≠ w → r.graph.sent? w' = none)
  (hnodes : ∀ id ∈ origins, (r.graph.node? id).isSome) (hin : w.source ∈ origins)
  (hp : r.phase = .propagating ⟨[], origins⟩)

include hw hmem hchain hsent hothers hnodes hin hp

/-- If one node has a value to be moved, it goes all the way, and the iteration is over. -/
theorem unfolds_conveying (hlands : r.graph.Lands (ws.getLastD w) v) (hlimit : ws.length ≤ limit) :
    r.Unfolds (fun acts' r' => r'.phase = .boundary ∧ r.Passes wires limit r' ∧ r.graph.Conveys wires w ws v r'.graph ∧
      ∀ id, id ∉ ws.map Wire.source → Act.received id acts' = Act.received id acts) acts := by
  refine (unfolds_reach hw hothers hnodes hin hp).bind fun acts₁ r₁ ⟨rest, hrest, hphase₁, hstays₁⟩ => ?_
  rw [← hstays₁.same] at hchain hsent hlands
  refine (unfolds_lane hstays₁.passes.wired hmem hchain hlands hsent (by omega) hphase₁).bind fun acts₂ r₂ h => ?_
  obtain ⟨hphase₂, hpasses₂, hconveys, hacts₂⟩ := h
  have hidle : ∀ w' ∈ wires, r₂.graph.sent? w' = none := fun w' hw' => by
    rw [hconveys.sent w' hw', hstays₁.same]
    split_ifs with hlane
    · rfl
    · exact hothers w' hw' fun heq => hlane (heq ▸ List.mem_cons_self)
  have hnodes₂ : ∀ id ∈ rest, (r₂.graph.node? id).isSome := fun id hid => by
    obtain ⟨n, hn⟩ := Option.isSome_iff_exists.1 (hnodes id (hrest hid))
    obtain ⟨n', hn', -⟩ := (hstays₁.passes.trans hpasses₂).becomes.members id n hn
    rw [hn']
    rfl
  refine (unfolds_idle hpasses₂.wired hidle hnodes₂ hphase₂).mono fun acts₃ r₃ ⟨hphase₃, hstays₃⟩ => ?_
  refine ⟨hphase₃, (hstays₁.passes.trans hpasses₂).trans hstays₃.passes, ?_, fun id hid => ?_⟩
  · rwa [hstays₃.same, ← hstays₁.same]
  · rw [hstays₃.received, hacts₂ id hid, hstays₁.received]

/-- If its way is too long, the run fails. -/
theorem unfolds_conveying_exceed (hexceeds : ws[limit]? = some w') :
    r.Unfolds (fun acts' r' => r'.IsOver (.failed (r.graph.depthFailure limit w'.source)) r.iteration ∧
      ∀ id, id ∉ ws.map Wire.source → Act.received id acts' = Act.received id acts) acts := by
  refine (unfolds_reach hw hothers hnodes hin hp).bind fun acts₁ r₁ ⟨rest, hrest, hphase₁, hstays₁⟩ => ?_
  rw [← hstays₁.same] at hchain hsent
  refine (unfolds_lane_exceed hstays₁.passes.wired hmem hchain hsent (Nat.zero_le limit) hexceeds hphase₁).mono
    fun acts₂ r₂ ⟨hover, hacts₂⟩ => ⟨?_, fun id hid => ?_⟩
  · rwa [hstays₁.same, hstays₁.passes.steady.iteration] at hover
  · rw [hacts₂ id hid, hstays₁.received]

end Conveying

/-! ### Whole iterations -/

/-- What an iteration comes to, except for what has come to the ends of the wires. The relays of some way that a value has gone
are left out. -/
structure Iterated (turn : NodeId → Memory × Output) (wires ws : List Wire) (limit : Nat) (r : Run) (acts acts' : List Act)
    (r' : Run) : Prop where
  phase : r'.phase = .boundary
  wired : r'.Wired wires limit
  becomes : r.graph.Becomes r'.graph
  iteration : r'.iteration = r.iteration + 1
  fired : ∀ id, id ∈ r'.firedSources ↔
    id ∈ r.firedSources ∨ r.graph.wants r.firedSources id = true ∧ r.graph.connectedInputs id = []
  idle : ∀ w ∈ wires, r'.graph.sent? w = none
  memory : ∀ id, (r.graph.node? id).isSome → r'.graph.memory? id =
    if r.graph.wants r.firedSources id = true then some (turn id).1 else r.graph.memory? id
  received : ∀ id n, r.graph.node? id = some n → id ∉ ws.map Wire.source → Act.received id acts' =
    Act.received id acts ++ if r.graph.wants r.firedSources id = true then [n.prepare.1.inputs] else []

namespace Round

variable {ids : List NodeId} {acts₁ : List Act} {r₁ : Run} (h : Round turn wires limit r acts ids acts₁ r₁)

include h

/-- The nodes of the scan are there. -/
theorem present : ∀ id ∈ ids, (r₁.graph.node? id).isSome := by
  intro id hid
  have hwants := (h.ready id).1 hid
  unfold Graph.wants at hwants
  obtain ⟨n, hn, -⟩ := (Option.any_eq_true _ _).1 hwants
  obtain ⟨n', hn', -⟩ := h.becomes.members id n hn
  rw [hn']
  rfl

theorem received? (hg : r.graph.WiredBy wires) (hmem : w ∈ wires) : r₁.graph.received? w =
    if r.graph.wants r.firedSources w.target = true then none else r.graph.received? w := by
  rw [h.turned.received? hg hmem]
  exact if_congr (h.ready _) rfl rfl

/-- An iteration of which the outputs are moved. -/
theorem iterated (hphase : r'.phase = .boundary) (hpasses : r₁.Passes wires limit r')
    (hidle : ∀ w ∈ wires, r'.graph.sent? w = none) (hmemory : ∀ id, r'.graph.memory? id = r₁.graph.memory? id)
    (hreceived : ∀ id, id ∉ ws.map Wire.source → Act.received id acts' = Act.received id acts₁) :
    Iterated turn wires ws limit r acts acts' r' where
  phase := hphase
  wired := hpasses.wired
  becomes := h.becomes.trans hpasses.becomes
  iteration := by rw [hpasses.steady.iteration, h.iteration]
  fired id := by rw [hpasses.steady.fired, h.fired, h.ready]
  idle := hidle
  memory id hn := by
    rw [hmemory, h.turned.memory? hn]
    exact if_congr (h.ready id) rfl rfl
  received id n hn hid := by
    rw [hreceived id hid, h.received id n hn]
    exact congrArg _ (if_congr (h.ready id) rfl rfl)

end Round

section Iterations

variable (hw : r.Wired wires limit) (hp : r.phase = .boundary) (hidle : ∀ w ∈ wires, r.graph.sent? w = none)
  (hturn : ∀ id n, r.graph.wants r.firedSources id = true → r.graph.node? id = some n → n.Yields (turn id).1 (turn id).2)

include hw hp hidle hturn

/-- **An iteration in which no value is put out that is to be moved.** -/
theorem unfolds_silent (hsome : ∃ id, r.graph.wants r.firedSources id = true)
    (hnone : ∀ w ∈ wires, r.graph.wants r.firedSources w.source = true → w.output ∉ Keyed.keys (turn w.source).2.outputs) :
    r.Unfolds (fun acts' r' => Iterated turn wires [] limit r acts acts' r' ∧ ∀ w ∈ wires, r'.graph.received? w =
      if r.graph.wants r.firedSources w.target = true then none else r.graph.received? w) acts := by
  refine (unfolds_round hw hp hsome hturn).bind fun acts₁ r₁ ⟨ids, h⟩ => ?_
  have hidle₁ : ∀ w ∈ wires, r₁.graph.sent? w = none := fun w hmem => by
    rw [h.turned.sent_kept hw.graph hmem fun hid => hnone w hmem ((h.ready _).1 hid), hidle w hmem]
  refine (unfolds_idle h.wired hidle₁ h.present h.phase).mono fun acts₂ r₂ ⟨hphase, hstays⟩ => ⟨?_, fun w hmem => ?_⟩
  · exact h.iterated hphase hstays.passes (hstays.same ▸ hidle₁) (fun _ => by rw [hstays.same]) fun id _ => hstays.received id
  · rw [hstays.same, h.received? hw.graph hmem]

section Sending

variable (hmem : w :: ws ⊆ wires) (hchain : (w :: ws).IsChain r.graph.Relayed)
  (hwants : r.graph.wants r.firedSources w.source = true) (hv : (w.output, v) ∈ (turn w.source).2.outputs)
  (hothers : ∀ w' ∈ wires, w' ≠ w → r.graph.wants r.firedSources w'.source = true →
    w'.output ∉ Keyed.keys (turn w'.source).2.outputs)

include hmem hchain hwants hv hothers

/-- **An iteration in which one value is put out that is to be moved**, and goes all the way. -/
theorem unfolds_sending (hlands : r.graph.Lands (ws.getLastD w) v) (hlimit : ws.length ≤ limit) :
    r.Unfolds (fun acts' r' => Iterated turn wires ws limit r acts acts' r' ∧ ∀ w' ∈ wires, r'.graph.received? w' =
      if w' = ws.getLastD w then some v else if w' ∈ w :: ws then none
      else if r.graph.wants r.firedSources w'.target = true then none else r.graph.received? w') acts := by
  have hmem₁ := hmem List.mem_cons_self
  refine (unfolds_round hw hp ⟨_, hwants⟩ hturn).bind fun acts₁ r₁ ⟨ids, h⟩ => ?_
  have hin := (h.ready _).2 hwants
  have hothers₁ : ∀ w' ∈ wires, w' ≠ w → r₁.graph.sent? w' = none := fun w' hmem' hne => by
    rw [h.turned.sent_kept hw.graph hmem' fun hid => hothers w' hmem' hne ((h.ready _).1 hid), hidle w' hmem']
  have hlaid : (r.graph.edge? (ws.getLastD w)).isSome := by
    obtain ⟨e, -, hends⟩ := hw.graph.laid _ (hmem (List.getLastD_mem_cons ..))
    rw [hends]
    rfl
  refine (unfolds_conveying h.wired hmem (hchain.imp fun _ _ hrelayed => hrelayed.becomes h.becomes)
    (h.turned.sent_written hw.graph hmem₁ hin hv) hothers₁ h.present hin h.phase (hlands.becomes h.becomes hlaid) hlimit).mono
    fun acts₂ r₂ ⟨hphase, hpasses, hconveys, hacts⟩ => ⟨?_, fun w' hmem' => ?_⟩
  · refine h.iterated hphase hpasses (fun w' hmem' => ?_) hconveys.memory hacts
    rw [hconveys.sent w' hmem']
    split_ifs with hlane
    · rfl
    · exact hothers₁ w' hmem' fun heq => hlane (heq ▸ List.mem_cons_self)
  · rw [hconveys.received w' hmem', h.received? hw.graph hmem']

/-- **If its way is too long, the run fails.** -/
theorem unfolds_sending_exceed (hexceeds : ws[limit]? = some w') :
    r.Unfolds (fun acts' r' => r'.IsOver (.failed (r.graph.depthFailure limit w'.source)) (r.iteration + 1) ∧
      ∀ id n, r.graph.node? id = some n → id ∉ ws.map Wire.source → Act.received id acts' =
        Act.received id acts ++ if r.graph.wants r.firedSources id = true then [n.prepare.1.inputs] else []) acts := by
  have hmem₁ := hmem List.mem_cons_self
  refine (unfolds_round hw hp ⟨_, hwants⟩ hturn).bind fun acts₁ r₁ ⟨ids, h⟩ => ?_
  have hin := (h.ready _).2 hwants
  have hothers₁ : ∀ w' ∈ wires, w' ≠ w → r₁.graph.sent? w' = none := fun w' hmem' hne => by
    rw [h.turned.sent_kept hw.graph hmem' fun hid => hothers w' hmem' hne ((h.ready _).1 hid), hidle w' hmem']
  obtain ⟨n, hn⟩ := hw.graph.exists_source (hmem (List.mem_cons_of_mem _ (List.mem_of_getElem? hexceeds)))
  refine (unfolds_conveying_exceed h.wired hmem (hchain.imp fun _ _ hrelayed => hrelayed.becomes h.becomes)
    (h.turned.sent_written hw.graph hmem₁ hin hv) hothers₁ h.present hin h.phase hexceeds).mono
    fun acts₂ r₂ ⟨hover, hacts⟩ => ⟨?_, fun id m hm hid => ?_⟩
  · rwa [h.becomes.depthFailure hn, h.iteration] at hover
  · rw [hacts id hid, h.received id m hm]
    exact congrArg _ (if_congr (h.ready id) rfl rfl)

end Sending

end Iterations

end Dataflow.Run
