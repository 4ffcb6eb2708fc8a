import Dataflow.Proofs.Standard.RelayLines

/-!
# An array that is taken apart and logged

* `Graph.IsDistribution` says that a graph consists of a constant, a node that takes its array apart, some relays and a node
  that logs;
* `Run.Distributes` says what waits in it between two iterations: the array, the elements that are left of it, and the one that
  is logged next;
* `Run.Distributes.unfolds_emit` and `Run.Distributes.unfolds_drain`: an iteration emits an element and logs the one before it,
  as long as there are any left;
* `Run.distribution`: all elements are logged in order, one after the other.
-/

namespace Dataflow

open Standard

namespace Standard

/-- The wire along which the array comes. -/
def arrayWire (source each : Node) : Wire :=
  ⟨source.id, "value", each.id, "items"⟩

end Standard

namespace Graph

variable {g : Graph} {source each log : Node} {relays : List Node} {xs : List Value}

/-- A graph at rest of a constant, which is not emitted again, a node that takes it apart, and a node that logs the elements,
with a line of relays in between. -/
structure IsDistribution (g : Graph) (source each : Node) (relays : List Node) (log : Node) (xs : List Value) : Prop where
  comprises : g.Comprises (source :: each :: (relays ++ [log])) (arrayWire source each :: lineWires each "item" relays log)
  source : source.Performs (constantBehavior (.array xs) false)
  each : each.Performs distributeBehavior
  relays : ∀ relay ∈ relays, relay.Performs relayBehavior
  log : log.Performs logBehavior

section IsDistribution

variable (h : g.IsDistribution source each relays log xs)

include h

/-- The nodes have identifiers of their own. -/
theorem IsDistribution.apart : source.id ≠ each.id ∧ source.id ∉ (relays ++ [log]).map Node.id ∧
    each.id ∉ (relays ++ [log]).map Node.id ∧ log.id ∉ relays.map Node.id := by
  have hnodup := h.comprises.apart
  rw [List.map_cons, List.map_cons, List.nodup_cons, List.nodup_cons, List.mem_cons, not_or, List.map_append,
    List.nodup_append] at hnodup
  obtain ⟨⟨hne, hsource⟩, heach, -, -, hlog⟩ := hnodup
  refine ⟨hne, by rwa [List.map_append], by rwa [List.map_append], fun hmem => ?_⟩
  exact hlog _ hmem _ (List.mem_singleton_self log.id) rfl

/-- No wire leads to the constant. -/
theorem IsDistribution.unfed : ∀ w ∈ arrayWire source each :: lineWires each "item" relays log, w.target ≠ source.id := by
  obtain ⟨hne, hsource, -, -⟩ := h.apart
  refine List.forall_mem_cons.2 ⟨Ne.symm hne, fun w hw hid => hsource ?_⟩
  exact map_target_lineWires each "item" relays log ▸ hid ▸ List.mem_map_of_mem hw

/-- No wire begins at the node that logs. -/
theorem IsDistribution.last :
    log.id ∉ (arrayWire source each :: lineWires each "item" relays log).map Wire.source := by
  obtain ⟨-, hsource, heach, hlog⟩ := h.apart
  have hmem : log.id ∈ (relays ++ [log]).map Node.id := List.mem_map_of_mem (by simp)
  rw [List.map_cons, map_source_lineWires, List.map_cons, List.mem_cons, List.mem_cons, not_or, not_or]
  exact ⟨fun (hid : log.id = source.id) => hsource (hid ▸ hmem), fun hid => heach (hid ▸ hmem), hlog⟩

/-- The array comes along a wire of its own. -/
theorem IsDistribution.arrayWire_notMem : arrayWire source each ∉ lineWires each "item" relays log := fun hmem =>
  h.apart.2.2.1 (map_target_lineWires each "item" relays log ▸ List.mem_map_of_mem (f := Wire.target) hmem)

end IsDistribution

end Graph

namespace Run

variable {g : Graph} {source each log : Node} {relays : List Node} {xs : List Value} {r r' : Run} {limit : Nat}
  {acts acts' : List Act} {items : Option (List Value)} {waiting : List Value} {message : Option Value}

/-- What waits between two iterations while an array is distributed: the array if it has come and was not taken apart yet, the
elements that are left of it, and the one that is logged next. -/
structure Distributes (g : Graph) (source each : Node) (relays : List Node) (log : Node) (limit : Nat)
    (items : Option (List Value)) (waiting : List Value) (message : Option Value) (r : Run) : Prop where
  stands : r.Stands g (arrayWire source each :: lineWires each "item" relays log) limit
  fired : source.id ∈ r.firedSources
  items : r.graph.received? (arrayWire source each) = items.map .array
  waiting : r.graph.memory? each.id = some waiting
  came : ∀ w ∈ lineWires each "item" relays log,
    r.graph.received? w = if w = lineEnd each "item" relays log then message else none

/-- What the activations of an iteration come to: an element is emitted, and another one is logged. -/
def distributed (each : Node) (g : Graph) (waiting : List Value) (message : Option Value) (id : NodeId) : Memory × Output :=
  if id = each.id then emission waiting else puts g "message" (message.getD .null) id

/-- Nothing is left to be taken apart. -/
theorem not_busy_iff : ¬(waiting ≠ [] ∨ items.isSome = true) ↔ waiting = [] ∧ items = none := by
  rw [not_or, not_not, Bool.not_eq_true, Option.isSome_eq_false_iff, Option.isNone_iff_eq_none]

section Distributes

variable (h : g.IsDistribution source each relays log xs)
  (hr : r.Distributes g source each relays log limit items waiting message)

include h hr

/-- The nodes that take part in the next iteration. -/
theorem Distributes.wants {id : NodeId} : r.graph.wants r.firedSources id = true ↔
    id = each.id ∧ (waiting ≠ [] ∨ items.isSome = true) ∨ id = log.id ∧ message.isSome = true := by
  obtain ⟨htarget, -, hend⟩ := lineEnd_ends each "item" relays log
  have hdistributes : r.graph.wants r.firedSources each.id = true ↔ waiting ≠ [] ∨ items.isSome = true := by
    rw [hr.stands.wants_fed h.comprises (by simp) h.each List.mem_cons_self rfl, hr.waiting, hr.items, Option.isSome_map]
    simp [distributeBehavior]
  have hcame : ∀ n ∈ relays ++ [log], ∀ w ∈ lineWires each "item" relays log, w.target = n.id →
      (r.graph.wants r.firedSources n.id = true ↔ (r.graph.received? w).isSome = true) := fun n hn w hw =>
    hr.stands.wants_came h.comprises h.relays h.log hn (List.mem_cons_of_mem _ (List.mem_cons_of_mem _ hn))
      (List.mem_cons_of_mem _ hw)
  constructor
  · intro hwants
    obtain ⟨n, hn, rfl⟩ := hr.stands.exists_node h.comprises hwants
    rcases List.mem_cons.1 hn with rfl | hn'
    · exact absurd hr.fired ((hr.stands.wants_unfed h.comprises hn h.source h.unfed (fun _ => rfl) rfl).1 hwants)
    rcases List.mem_cons.1 hn' with rfl | hn'
    · exact Or.inl ⟨rfl, hdistributes.1 hwants⟩
    · obtain ⟨w, hw, hid⟩ := List.mem_map.1 (map_target_lineWires each "item" relays log ▸ List.mem_map_of_mem hn')
      have hsome := (hcame n hn' w hw hid).1 hwants
      rw [hr.came w hw] at hsome
      split_ifs at hsome with heq
      · exact Or.inr ⟨hid.symm.trans (heq ▸ htarget), hsome⟩
      · cases hsome
  · rintro (⟨rfl, hbusy⟩ | ⟨rfl, hsome⟩)
    · exact hdistributes.2 hbusy
    · refine (hcame log (by simp) _ hend htarget).2 ?_
      rwa [hr.came _ hend, if_pos rfl]

/-- What the activations of the next iteration come to. -/
theorem Distributes.yields {id : NodeId} {n : Node} (hid : r.graph.wants r.firedSources id = true)
    (hn : r.graph.node? id = some n) :
    n.Yields (distributed each r.graph (waiting ++ items.getD []) message id).1
      (distributed each r.graph (waiting ++ items.getD []) message id).2 := by
  obtain ⟨-, -, heach, -⟩ := h.apart
  rw [distributed]
  rcases (hr.wants h).1 hid with ⟨rfl, -⟩ | ⟨rfl, hsome⟩
  · rw [if_pos rfl]
    obtain ⟨n', hn', hbecomes⟩ := hr.stands.node? h.comprises (n := each) (by simp)
    obtain rfl : n = n' := Option.some.inj (hn.symm.trans hn')
    have hmemory : n.memory = waiting := by
      have hwaiting := hr.waiting
      rwa [Graph.memory?, hn, Option.map_some, Option.some.injEq] at hwaiting
    have hitems : n.held? (.input "items") = items.map .array := by
      have hitems := hr.items
      rwa [Graph.received?, arrayWire, Graph.portIn?_of_node? hn] at hitems
    rw [← hmemory]
    exact yields_distribute (h.each.becomes hbecomes) (hr.stands.wired.graph.declared hn)
      (hr.stands.wired.graph.ordered hn) hitems
  · obtain ⟨v, rfl⟩ := Option.isSome_iff_exists.1 hsome
    obtain ⟨htarget, hinput, hend⟩ := lineEnd_ends each "item" relays log
    have hne : log.id ≠ each.id := fun heq => heach (heq ▸ List.mem_map_of_mem (by simp))
    rw [if_neg hne]
    have hcame := (hr.came _ hend).trans (if_pos rfl)
    exact yields_puts hn (hr.stands.logs h.comprises (by simp) h.log htarget hinput hcame hn).1

/-- What waits after an iteration in which the array was taken apart and the element that was there was logged. -/
theorem Distributes.next {turn : NodeId → Memory × Output} {ws : List Wire} (message' : Option Value)
    (hiterated : Iterated turn (arrayWire source each :: lineWires each "item" relays log) ws limit r acts acts' r')
    (hturn : (turn each.id).1 = (emission (waiting ++ items.getD [])).1) (hlog : log.id ∉ ws.map Wire.source)
    (hitems : r'.graph.received? (arrayWire source each) = none)
    (hcame : ∀ w ∈ lineWires each "item" relays log,
      r'.graph.received? w = if w = lineEnd each "item" relays log then message' else none) :
    r'.Distributes g source each relays log limit none (emission (waiting ++ items.getD [])).1 message' ∧
      r'.iteration = r.iteration + 1 ∧
        Act.received log.id acts' = Act.received log.id acts ++ message.toList.map fun v => [("message", v)] := by
  refine ⟨⟨hiterated.stands hr.stands, (hiterated.fired _).2 (Or.inl hr.fired), hitems, ?_, hcame⟩, hiterated.iteration, ?_⟩
  · obtain ⟨n, hn, -⟩ := hr.stands.node? h.comprises (n := each) (by simp)
    rw [hiterated.memory each.id (by rw [hn]; rfl), hturn]
    split_ifs with hwants
    · rfl
    · -- nothing was taken apart since nothing was left
      obtain ⟨rfl, rfl⟩ := not_busy_iff.1 fun hbusy => hwants ((hr.wants h).2 (Or.inl ⟨rfl, hbusy⟩))
      exact hr.waiting
  · obtain ⟨n, hn, -⟩ := hr.stands.node? h.comprises (n := log) (by simp)
    obtain ⟨htarget, hinput, hend⟩ := lineEnd_ends each "item" relays log
    rw [hiterated.received log.id n hn hlog]
    cases message with
    | none =>
      have hne : log.id ≠ each.id := fun heq => h.apart.2.2.1 (heq ▸ List.mem_map_of_mem (by simp))
      rw [if_neg fun hwants => ((hr.wants h).1 hwants).elim (fun hid => hne hid.1) fun hsome => Bool.noConfusion hsome.2]
      rfl
    | some v =>
      rw [if_pos ((hr.wants h).2 (Or.inr ⟨rfl, rfl⟩)),
        (hr.stands.logs h.comprises (by simp) h.log htarget hinput ((hr.came _ hend).trans (if_pos rfl)) hn).2]
      rfl

theorem Distributes.wants_each {item : Value} {rest : List Value} (hleft : waiting ++ items.getD [] = item :: rest) :
    r.graph.wants r.firedSources each.id = true := by
  refine (hr.wants h).2 (Or.inl ⟨rfl, ?_⟩)
  by_contra hidle
  obtain ⟨rfl, rfl⟩ := not_busy_iff.1 hidle
  cases hleft

/-- The element that is emitted goes along the line that begins at the node, and nothing goes along another wire. -/
theorem Distributes.others {w : Wire} (hw : w ∈ lineWires each "item" relays log) (hbegin : w.source = each.id) :
    ∀ w' ∈ arrayWire source each :: lineWires each "item" relays log, w' ≠ w →
      r.graph.wants r.firedSources w'.source = true →
        w'.output ∉ Keyed.keys (distributed each r.graph (waiting ++ items.getD []) message w'.source).2.outputs := by
  intro w' hw' hother hwants
  rcases (hr.wants h).1 hwants with ⟨hid, -⟩ | ⟨hid, -⟩
  · have hsame := hr.stands.wired.graph.eq_of_source (List.mem_cons_of_mem _ hw) hw' (hid.trans hbegin.symm)
    exact absurd hsame hother
  · exact absurd (hid ▸ List.mem_map_of_mem hw') h.last

/-- **As long as elements are left, an iteration emits the first of them** and logs the one before it. -/
theorem Distributes.unfolds_emit {item : Value} {rest : List Value} (hleft : waiting ++ items.getD [] = item :: rest)
    (hlimit : relays.length ≤ limit) :
    r.Unfolds (fun acts' r' => r'.Distributes g source each relays log limit none rest (some item) ∧
      r'.iteration = r.iteration + 1 ∧
        Act.received log.id acts' = Act.received log.id acts ++ message.toList.map fun v => [("message", v)]) acts := by
  obtain ⟨w, ws, hline, hbegin, houtput, hrelays, hlength, hend, hchain, hlands⟩ :=
    hr.stands.exists_lane h.comprises each "item" (fun relay hrelay => by simp [hrelay]) h.relays (by simp) h.log
  have hmem : w :: ws ⊆ arrayWire source each :: lineWires each "item" relays log := fun w' hw' =>
    List.mem_cons_of_mem _ (hline ▸ hw')
  have hdistributes := hr.wants_each h hleft
  have hput : (w.output, item) ∈ (distributed each r.graph (waiting ++ items.getD []) message w.source).2.outputs := by
    rw [distributed, if_pos hbegin, hleft, houtput]
    exact List.mem_singleton_self _
  have hothers := hr.others h (hline ▸ List.mem_cons_self) hbegin
  refine (unfolds_sending hr.stands.wired hr.stands.phase hr.stands.idle (fun id n => hr.yields h) hmem hchain
    (hbegin ▸ hdistributes) hput hothers (hlands item) (hlength ▸ hlimit)).mono fun acts' r' ⟨hiterated, hcame⟩ => ?_
  have hlast : ws.getLastD w ∈ lineWires each "item" relays log := hline ▸ List.getLastD_mem_cons ..
  have hnext := hr.next h (some item) hiterated (by rw [distributed, if_pos rfl]) (hrelays ▸ h.apart.2.2.2) ?_ fun w' hw' => ?_
  · rwa [hleft] at hnext
  · have hne : arrayWire source each ≠ ws.getLastD w := fun heq => h.arrayWire_notMem (heq ▸ hlast)
    have hnot : arrayWire source each ∉ w :: ws := hline ▸ h.arrayWire_notMem
    rw [hcame _ List.mem_cons_self, if_neg hne, if_neg hnot]
    exact if_pos hdistributes
  · rw [hcame w' (List.mem_cons_of_mem _ hw'), hend]
    exact if_congr Iff.rfl rfl (if_pos (hline ▸ hw'))

/-- **When no element is left, the last one is logged.** -/
theorem Distributes.unfolds_drain (hleft : waiting ++ items.getD [] = [])
    (hbusy : items.isSome = true ∨ message.isSome = true) :
    r.Unfolds (fun acts' r' => r'.Distributes g source each relays log limit none [] none ∧
      r'.iteration = r.iteration + 1 ∧
        Act.received log.id acts' = Act.received log.id acts ++ message.toList.map fun v => [("message", v)]) acts := by
  have hnone : ∀ w ∈ arrayWire source each :: lineWires each "item" relays log, r.graph.wants r.firedSources w.source = true →
      w.output ∉ Keyed.keys (distributed each r.graph (waiting ++ items.getD []) message w.source).2.outputs := by
    intro w hw hwants
    rcases (hr.wants h).1 hwants with ⟨hid, -⟩ | ⟨hid, -⟩
    · rw [distributed, if_pos hid, hleft]
      exact List.not_mem_nil
    · exact absurd (hid ▸ List.mem_map_of_mem hw) h.last
  have hsome : ∃ id, r.graph.wants r.firedSources id = true := by
    rcases hbusy with hitems | hmessage
    · exact ⟨each.id, (hr.wants h).2 (Or.inl ⟨rfl, Or.inr hitems⟩)⟩
    · exact ⟨log.id, (hr.wants h).2 (Or.inr ⟨rfl, hmessage⟩)⟩
  refine (unfolds_silent hr.stands.wired hr.stands.phase hr.stands.idle (fun id n => hr.yields h) hsome hnone).mono
    fun acts' r' ⟨hiterated, hcame⟩ => ?_
  have hnext := hr.next h none hiterated (by rw [distributed, if_pos rfl]) List.not_mem_nil ?_ fun w hw => ?_
  · rwa [hleft] at hnext
  · rw [hcame _ List.mem_cons_self]
    split_ifs with hwants
    · rfl
    · cases items with
      | none => exact hr.items
      | some items => exact absurd ((hr.wants h).2 (Or.inl ⟨rfl, Or.inr rfl⟩)) hwants
  · rw [hcame w (List.mem_cons_of_mem _ hw), hr.came w hw, ite_self]
    split_ifs with hwants heq
    · rfl
    · cases message with
      | none => rfl
      | some v => exact absurd ((hr.wants h).2 (Or.inr ⟨heq ▸ (lineEnd_ends each "item" relays log).1, rfl⟩)) hwants
    · rfl

end Distributes

/-- When nothing waits any more, the run is over. -/
theorem Distributes.unfolds_end (h : g.IsDistribution source each relays log xs)
    (hr : r.Distributes g source each relays log limit none [] none) :
    r.Unfolds (fun acts' r' => r'.IsOver .completed r.iteration ∧ acts' = acts) acts := by
  refine unfolds_quiet hr.stands.wired hr.stands.phase fun id => ?_
  rw [← Bool.not_eq_true, hr.wants h]
  simp

/-- **All elements that are left are emitted one by one**, and each of them is logged in the iteration after. -/
theorem Distributes.unfolds_all (h : g.IsDistribution source each relays log xs) (hlimit : relays.length ≤ limit)
    {left : List Value} (hr : r.Distributes g source each relays log limit items waiting message)
    (hleft : waiting ++ items.getD [] = left) (hbusy : items.isSome = true ∨ message.isSome = true) :
    r.Unfolds (fun acts' r' => r'.IsOver .completed (r.iteration + left.length + 1) ∧ Act.received log.id acts' =
      Act.received log.id acts ++ (message.toList ++ left).map fun v => [("message", v)]) acts := by
  -- by induction on the elements that are left, with the one that is logged next beside them
  induction left generalizing r acts items waiting message with
  | nil =>
    refine (hr.unfolds_drain h hleft hbusy).bind fun acts₁ r₁ ⟨hr₁, hiteration₁, hacts₁⟩ => ?_
    refine (hr₁.unfolds_end h).mono fun acts₂ r₂ ⟨hover, hsame⟩ => ⟨?_, ?_⟩
    · rwa [hiteration₁] at hover
    · rw [hsame, hacts₁, List.append_nil]
  | cons item rest ih =>
    refine (hr.unfolds_emit h hleft hlimit).bind fun acts₁ r₁ ⟨hr₁, hiteration₁, hacts₁⟩ => ?_
    refine (ih hr₁ (List.append_nil rest) (Or.inr rfl)).mono fun acts₂ r₂ ⟨hover, hacts₂⟩ => ⟨?_, ?_⟩
    · rwa [hiteration₁, show r.iteration + 1 + rest.length + 1 = r.iteration + (item :: rest).length + 1 by
        rw [List.length_cons]; omega] at hover
    · rw [hacts₂, hacts₁, List.append_assoc, ← List.map_append]
      rfl

/-! ### Whole runs -/

section Start

variable (h : g.IsDistribution source each relays log xs)
  (hr : r.Stands g (arrayWire source each :: lineWires each "item" relays log) limit) (hfired : r.firedSources = [])
  (hblank : r.graph.memory? each.id = some [])
  (hempty : ∀ w ∈ arrayWire source each :: lineWires each "item" relays log, r.graph.received? w = none)

include h hr hfired hblank hempty

theorem wants_distribution {id : NodeId} : r.graph.wants r.firedSources id = true ↔ id = source.id := by
  constructor
  · intro hwants
    obtain ⟨n, hn, rfl⟩ := hr.exists_node h.comprises hwants
    rcases List.mem_cons.1 hn with rfl | hn'
    · rfl
    rcases List.mem_cons.1 hn' with rfl | hn'
    · rw [hr.wants_fed h.comprises hn h.each List.mem_cons_self rfl, hblank, hempty _ List.mem_cons_self] at hwants
      simp [distributeBehavior] at hwants
    · obtain ⟨w, hw, hid⟩ := List.mem_map.1 (map_target_lineWires each "item" relays log ▸ List.mem_map_of_mem hn')
      rw [hr.wants_came h.comprises h.relays h.log hn' hn (List.mem_cons_of_mem _ hw) hid,
        hempty w (List.mem_cons_of_mem _ hw)] at hwants
      cases hwants
  · rintro rfl
    rw [hr.wants_unfed h.comprises List.mem_cons_self h.source h.unfed (fun _ => rfl) rfl, hfired]
    exact List.not_mem_nil

/-- **The first iteration** emits the array. -/
theorem unfolds_array :
    r.Unfolds (fun acts' r' => r'.Distributes g source each relays log limit (some xs) [] none ∧
      r'.iteration = r.iteration + 1 ∧ Act.received log.id acts' = Act.received log.id acts) acts := by
  have hlands : r.graph.Lands (arrayWire source each) (.array xs) := by
    obtain ⟨n, hn, hbecomes⟩ := hr.node? h.comprises (n := each) (by simp)
    have hperforms := h.each.becomes hbecomes
    refine ⟨n, hn, by rw [Node.isDirectThrough, hperforms.behavior]; rfl, fun q hq => ?_⟩
    rw [hperforms.typed (.input "items" .array) List.mem_cons_self q hq]
    exact Value.convert_own fun _ heq => by cases heq
  have hlane : [arrayWire source each] ⊆ arrayWire source each :: lineWires each "item" relays log :=
    List.cons_subset.2 ⟨List.mem_cons_self, List.nil_subset _⟩
  refine (hr.unfolds_alone h.comprises List.mem_cons_self h.source (Value.convert_own fun _ heq => by cases heq)
    (fun _ => wants_distribution h hr hfired hblank hempty) hlane (.singleton _) rfl rfl h.unfed hempty hlands
    (Nat.zero_le _)).mono fun acts' r' h' => ?_
  obtain ⟨hstands, hiteration, hfired', hmemory, hreceived, hcame⟩ := h'
  obtain ⟨hne, hsource, -, -⟩ := h.apart
  refine ⟨⟨hstands, hfired', ?_, ?_, fun w hw => ?_⟩, hiteration, ?_⟩
  · rw [hcame _ List.mem_cons_self, List.getLastD_nil, if_pos rfl]
    rfl
  · rw [hmemory each (by simp) (Ne.symm hne), hblank]
  · have hother : w ≠ arrayWire source each := fun heq => h.arrayWire_notMem (heq ▸ hw)
    rw [hcame w (List.mem_cons_of_mem _ hw), List.getLastD_nil, if_neg hother, ite_self]
  · exact hreceived log (by simp) (fun heq => hsource (heq ▸ List.mem_map_of_mem (by simp))) List.not_mem_nil

end Start

/-- **An array is distributed element by element.** The run is completed after two iterations more than there are elements, and
the elements are logged one after the other, in order. The relays in between are to be no more than the limit allows: if there
is one, then a limit of one is enough. -/
theorem distribution {x : Executor} {context : Context} {now : Nat} {r₀ : Run}
    (h : g.IsDistribution source each relays log xs) (hlimit : relays.length ≤ x.config.maxRelayDepth)
    (hstart : start x g context .continuous now = .ok r₀) :
    r₀.Unfolds (fun acts r => r.IsOver .completed (xs.length + 2) ∧
      Act.received log.id acts = xs.map fun v => [("message", v)]) [] := by
  have hsources : ((arrayWire source each :: lineWires each "item" relays log).map Wire.source).Nodup := by
    rw [List.map_cons, map_source_lineWires]
    exact h.comprises.apart.sublist ((((List.sublist_append_left relays [log]).cons_cons each).cons_cons source).map Node.id)
  have htargets : ((arrayWire source each :: lineWires each "item" relays log).map Wire.target).Nodup := by
    rw [List.map_cons, map_target_lineWires]
    exact h.comprises.apart.sublist ((List.sublist_cons_self source (each :: (relays ++ [log]))).map Node.id)
  obtain ⟨hr, hiteration, hfired, hblank, hempty⟩ := stands_start h.comprises hsources htargets hstart
  refine (unfolds_array h hr hfired (hblank each (by simp)) hempty).bind fun acts₁ r₁ ⟨hr₁, hiteration₁, hacts₁⟩ => ?_
  have hleft : [] ++ (some xs).getD [] = xs := rfl
  refine (hr₁.unfolds_all h hlimit hleft (Or.inl rfl)).mono fun acts₂ r₂ ⟨hover, hacts₂⟩ => ⟨?_, ?_⟩
  · rwa [hiteration₁, hiteration, show 0 + 1 + xs.length + 1 = xs.length + 2 by omega] at hover
  · rw [hacts₂, hacts₁]
    rfl

end Run

/-! ### An array with one relay -/

namespace Standard

/-- A constant that is an array. -/
def arrayNode : Node × Supply :=
  Node.create ⟨1⟩ "array" (constantBehavior (.array [.null, .integer 7]) false) [("value", .array [.null, .integer 7])] ⟨5⟩

/-- A node that takes it apart. -/
def eachNode : Node × Supply :=
  Node.create ⟨2⟩ "each" distributeBehavior [] arrayNode.2

/-- A relay for its elements. -/
def itemRelay : Node × Supply :=
  Node.create ⟨3⟩ "relay" relayBehavior [] eachNode.2

/-- A node that logs them. -/
def itemLog : Node × Supply :=
  Node.create ⟨4⟩ "log" logBehavior [] itemRelay.2

end Standard

namespace Graph

/-- The four nodes, connected. -/
def parted? : Except GraphError Graph := do
  let g ← ({ empty ⟨5⟩ with supply := arrayNode.2 } : Graph).addNode arrayNode.1
  let g ← ({ g with supply := eachNode.2 } : Graph).addNode eachNode.1
  let g ← ({ g with supply := itemRelay.2 } : Graph).addNode itemRelay.1
  let g ← ({ g with supply := itemLog.2 } : Graph).addNode itemLog.1
  let g ← g.addEdge ⟨7⟩ ⟨10⟩
  let g ← g.addEdge ⟨11⟩ ⟨15⟩
  g.addEdge ⟨16⟩ ⟨19⟩

/-- The graph that they make up. -/
def parted : Graph :=
  parted?.toOption.getD (empty ⟨0⟩)

theorem built_parted : parted.Built := by
  have h : parted? = .ok parted := rfl
  obtain ⟨g₁, h₁, h⟩ := Except.bind_eq_ok.1 h
  obtain ⟨g₂, h₂, h⟩ := Except.bind_eq_ok.1 h
  obtain ⟨g₃, h₃, h⟩ := Except.bind_eq_ok.1 h
  obtain ⟨g₄, h₄, h⟩ := Except.bind_eq_ok.1 h
  obtain ⟨g₅, h₅, h⟩ := Except.bind_eq_ok.1 h
  obtain ⟨g₆, h₆, h⟩ := Except.bind_eq_ok.1 h
  have harray := Built.create_next ⟨.empty ⟨5⟩, rfl⟩ h₁
  have heach := Built.create_next harray h₂
  have hrelay := Built.create_next heach h₃
  exact .addEdge (.addEdge (.addEdge (Built.create_next hrelay h₄).1 h₅) h₆) h

theorem isDistribution_parted :
    parted.IsDistribution arrayNode.1 eachNode.1 [itemRelay.1] itemLog.1 [.null, .integer 7] where
  comprises := {
    reached := built_parted.reached
    members := .of_eq rfl
    joined := .of_eq rfl
    fit := rfl
    blank := by decide +kernel
    quiet := by decide +kernel }
  source := performs_construct (s := ⟨5⟩) rfl (behavior_constant [("value", .array [.null, .integer 7])])
    (List.nodup_singleton _) rfl
  each := performs_construct (s := arrayNode.2) rfl (behavior_distribute []) (by decide) rfl
  relays := List.forall_mem_singleton.2
    (performs_construct (s := eachNode.2) rfl (behavior_relay []) (by decide) rfl)
  log := performs_construct (s := itemRelay.2) rfl (behavior_log []) (by decide) rfl

end Graph

namespace Run

/-- The start of a run of the four nodes. -/
def partedStart : Run :=
  (start (limited 1) Graph.parted default .continuous 0).toOption.getD signalStart

theorem distribution_parted : partedStart.Unfolds (fun acts r => r.IsOver .completed 4 ∧
    Act.received ⟨4⟩ acts = [[("message", .null)], [("message", .integer 7)]]) [] := by
  have hstart : start (limited 1) Graph.parted default .continuous 0 = .ok partedStart := rfl
  exact distribution Graph.isDistribution_parted (by decide) hstart

end Run

end Dataflow
