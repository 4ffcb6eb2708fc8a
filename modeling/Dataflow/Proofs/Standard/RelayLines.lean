import Dataflow.Proofs.Standard.Circuits

/-!
# A constant that is logged through a line of relays

* `Standard.line` are the wires from a node through some relays to a node that logs;
* `Standard.relayed_line`: each of them follows the one before it at a relay;
* `Run.line_limit`: the value of a constant arrives if the relays are not more than the limit of the depth allows, and the run
  fails at the first relay that is one too many otherwise;
* `Run.not_unfolds_nan`: a number that is not finite does not arrive.
-/

namespace Dataflow

namespace Standard

/-- The wires from an output through relays, one after the other, to a node that logs. -/
def line (source : NodeId) (output : String) : List NodeId → NodeId → List Wire
  | [], log => [⟨source, output, log, "message"⟩]
  | relay :: rest, log => ⟨source, output, relay, "in"⟩ :: line relay "out" rest log

/-- The last of them. -/
def lineLast (source : NodeId) (output : String) : List NodeId → NodeId → Wire
  | [], log => ⟨source, output, log, "message"⟩
  | relay :: rest, log => lineLast relay "out" rest log

section Line

variable (source : NodeId) (output : String) (relays : List NodeId) (log : NodeId)

theorem map_source_line : (line source output relays log).map Wire.source = source :: relays := by
  induction relays generalizing source output with
  | nil => rfl
  | cons relay rest ih => rw [line, List.map_cons, ih]

theorem map_target_line : (line source output relays log).map Wire.target = relays ++ [log] := by
  induction relays generalizing source output with
  | nil => rfl
  | cons relay rest ih => rw [line, List.map_cons, ih, List.cons_append]

theorem lineLast_ends : (lineLast source output relays log).target = log ∧
    (lineLast source output relays log).input = "message" ∧
      lineLast source output relays log ∈ line source output relays log := by
  induction relays generalizing source output with
  | nil => exact ⟨rfl, rfl, List.mem_singleton_self _⟩
  | cons relay rest ih =>
    obtain ⟨htarget, hinput, hmem⟩ := ih relay "out"
    exact ⟨htarget, hinput, List.mem_cons_of_mem _ hmem⟩

/-- The first wire of a line and those that follow. -/
theorem exists_line : ∃ w ws, line source output relays log = w :: ws ∧ w.source = source ∧ w.output = output ∧
    ws.map Wire.source = relays ∧ ws.getLastD w = lineLast source output relays log := by
  induction relays generalizing source output with
  | nil => exact ⟨_, [], rfl, rfl, rfl, rfl, rfl⟩
  | cons relay rest ih =>
    obtain ⟨w, ws, hline, -, -, -, hlast⟩ := ih relay "out"
    refine ⟨⟨source, output, relay, "in"⟩, w :: ws, by rw [line, hline], rfl, rfl, ?_, ?_⟩
    · rw [← hline, map_source_line]
    · rwa [List.getLastD_cons]

theorem relayed_line {g : Graph} (h : ∀ relay ∈ relays, ∃ n, g.node? relay = some n ∧ n.Relays "in" "out") :
    (line source output relays log).IsChain g.Relayed := by
  induction relays generalizing source output with
  | nil => exact .singleton _
  | cons relay rest ih =>
    obtain ⟨hrelay, hrest⟩ := List.forall_mem_cons.1 h
    have hchain := ih relay "out" hrest
    obtain ⟨w, ws, hline, hsource, houtput, -⟩ := exists_line relay "out" rest log
    rw [hline] at hchain
    rw [line, hline]
    exact hchain.cons_cons ⟨hsource, houtput.symm ▸ hrelay⟩

end Line

/-- The wires from an output of a node through relays to a node that logs. -/
def lineWires (source : Node) (output : String) (relays : List Node) (log : Node) : List Wire :=
  line source.id output (relays.map Node.id) log.id

/-- The last of them. -/
def lineEnd (source : Node) (output : String) (relays : List Node) (log : Node) : Wire :=
  lineLast source.id output (relays.map Node.id) log.id

section LineWires

variable (source : Node) (output : String) (relays : List Node) (log : Node)

theorem lineEnd_ends : (lineEnd source output relays log).target = log.id ∧
    (lineEnd source output relays log).input = "message" ∧
      lineEnd source output relays log ∈ lineWires source output relays log :=
  lineLast_ends ..

theorem map_source_lineWires :
    (lineWires source output relays log).map Wire.source = (source :: relays).map Node.id :=
  map_source_line ..

theorem map_target_lineWires :
    (lineWires source output relays log).map Wire.target = (relays ++ [log]).map Node.id := by
  rw [lineWires, map_target_line, List.map_append, List.map_singleton]

end LineWires

end Standard

open Standard

namespace Graph

variable {g : Graph} {source log : Node} {relays : List Node} {v : Value}

/-- A graph at rest of a constant, which is not emitted again, and a node that logs it, with a line of relays in between. -/
structure IsLine (g : Graph) (source : Node) (relays : List Node) (log : Node) (v : Value) : Prop where
  comprises : g.Comprises (source :: (relays ++ [log])) (lineWires source "value" relays log)
  source : source.Performs (constantBehavior v false)
  relays : ∀ relay ∈ relays, relay.Performs relayBehavior
  log : log.Performs logBehavior

section IsLine

variable (h : g.IsLine source relays log v)

include h

theorem IsLine.apart :
    source.id ∉ (relays ++ [log]).map Node.id ∧ (relays.map Node.id).Nodup ∧ log.id ∉ relays.map Node.id := by
  have hnodup := h.comprises.apart
  rw [List.map_cons, List.nodup_cons, List.map_append, List.nodup_append] at hnodup
  obtain ⟨hsource, hrelays, -, hlog⟩ := hnodup
  refine ⟨by rwa [List.map_append], hrelays, fun hmem => ?_⟩
  exact hlog _ hmem _ (List.mem_singleton_self log.id) rfl

theorem IsLine.ne : log.id ≠ source.id := fun hid => h.apart.1 (hid ▸ List.mem_map_of_mem (by simp))

/-- No wire leads to the constant. -/
theorem IsLine.unfed : ∀ w ∈ lineWires source "value" relays log, w.target ≠ source.id := fun _ hw hid =>
  h.apart.1 (map_target_lineWires source "value" relays log ▸ hid ▸ List.mem_map_of_mem hw)

/-- No wire begins at the node that logs. -/
theorem IsLine.last : log.id ∉ (lineWires source "value" relays log).map Wire.source := by
  obtain ⟨hsource, -, hrelays⟩ := h.apart
  rw [map_source_lineWires, List.map_cons, List.mem_cons, not_or]
  exact ⟨fun hid => hsource (hid ▸ List.mem_map_of_mem (List.mem_append_right _ (List.mem_singleton_self log))), hrelays⟩

end IsLine

end Graph

namespace Run

variable {g : Graph} {source log : Node} {relays : List Node} {v : Value} {r : Run} {limit : Nat} {acts : List Act}

section Stands

variable {nodes : List Node} {wires : List Wire} (hr : r.Stands g wires limit) (hg : g.Comprises nodes wires)

include hr hg

/-- A line of relays passes on what comes. -/
theorem Stands.relayed (source : NodeId) (output : String) (log : NodeId) (hmem : relays ⊆ nodes)
    (hrelays : ∀ relay ∈ relays, relay.Performs relayBehavior) :
    (line source output (relays.map Node.id) log).IsChain r.graph.Relayed := by
  refine relayed_line _ _ _ _ (List.forall_mem_map.2 fun relay hrelay => ?_)
  obtain ⟨n, hn, hbecomes⟩ := hr.node? hg (hmem hrelay)
  exact ⟨n, hn, relays_through ((hrelays relay hrelay).becomes hbecomes) (hr.wired.graph.declared hn)⟩

/-- A relay or a node that logs takes part in a scan if something has come. -/
theorem Stands.wants_came (hrelays : ∀ relay ∈ relays, relay.Performs relayBehavior) (hlogs : log.Performs logBehavior)
    {n : Node} (hline : n ∈ relays ++ [log]) (hn : n ∈ nodes) {w : Wire} (hw : w ∈ wires) (hid : w.target = n.id) :
    r.graph.wants r.firedSources n.id = true ↔ (r.graph.received? w).isSome = true := by
  obtain ⟨b, hb, hpending⟩ : ∃ b, n.Performs b ∧ ∀ m, b.hasPendingWork m = false := by
    rcases List.mem_append.1 hline with hrelay | hlast
    · exact ⟨_, hrelays n hrelay, fun _ => rfl⟩
    · exact ⟨_, List.mem_singleton.1 hlast ▸ hlogs, fun _ => rfl⟩
  rw [hr.wants_fed hg hn hb hw hid]
  refine or_iff_right fun hany => ?_
  obtain ⟨m, -, hm⟩ := (Option.any_eq_true _ _).1 hany
  rw [hpending] at hm
  cases hm

/-- A node that logs takes any value. -/
theorem Stands.lands (hlog : log ∈ nodes) (hlogs : log.Performs logBehavior) {w : Wire} (htarget : w.target = log.id)
    (hinput : w.input = "message") (v : Value) : r.graph.Lands w v := by
  obtain ⟨n, hn, hbecomes⟩ := hr.node? hg hlog
  have hperforms := hlogs.becomes hbecomes
  refine ⟨n, htarget ▸ hn, by rw [Node.isDirectThrough, hperforms.behavior]; rfl, fun q hq => ?_⟩
  exact Value.convert_null (Or.inr (hperforms.typed (.input "message" .null) List.mem_cons_self q (hinput ▸ hq)))

/-- A line is a way that any value can go, with a wire for each of its relays after the first one. -/
theorem Stands.exists_lane (source : Node) (output : String) (hmem : relays ⊆ nodes)
    (hrelays : ∀ relay ∈ relays, relay.Performs relayBehavior) (hlog : log ∈ nodes) (hlogs : log.Performs logBehavior) :
    ∃ w ws, lineWires source output relays log = w :: ws ∧ w.source = source.id ∧ w.output = output ∧
      ws.map Wire.source = relays.map Node.id ∧ ws.length = relays.length ∧
        ws.getLastD w = lineEnd source output relays log ∧ (w :: ws).IsChain r.graph.Relayed ∧
          ∀ v, r.graph.Lands (ws.getLastD w) v := by
  obtain ⟨w, ws, hline, hsource, houtput, hmap, hend⟩ := exists_line source.id output (relays.map Node.id) log.id
  obtain ⟨htarget, hinput, -⟩ := lineEnd_ends source output relays log
  have hlength : ws.length = relays.length := by
    rw [← List.length_map Wire.source, hmap, List.length_map]
  have hchain := hr.relayed hg source.id output log.id hmem hrelays
  refine ⟨w, ws, hline, hsource, houtput, hmap, hlength, hend, hline ▸ hchain, fun v => ?_⟩
  exact hr.lands hg hlog hlogs (hend ▸ htarget) (hend ▸ hinput) v

/-- When a value has come, it is logged. -/
theorem Stands.logs (hlog : log ∈ nodes) (hlogs : log.Performs logBehavior) {w : Wire} (htarget : w.target = log.id)
    (hinput : w.input = "message") (hv : r.graph.received? w = some v) {n : Node} (hn : r.graph.node? log.id = some n) :
    n.Yields n.memory (.single "message" v) ∧ n.prepare.1.inputs = [("message", v)] := by
  obtain ⟨n', hn', hbecomes⟩ := hr.node? hg hlog
  obtain rfl : n = n' := Option.some.inj (hn.symm.trans hn')
  have hperforms := hlogs.becomes hbecomes
  have hdeclared := hr.wired.graph.declared hn
  have hordered := hr.wired.graph.ordered hn
  have hheld : n.held? (.input "message") = some v := by
    rwa [Graph.received?, htarget, hinput, Graph.portIn?_of_node? hn] at hv
  obtain ⟨p, hinputs⟩ := hperforms.inputs_eq hdeclared hordered "message" rfl
  refine ⟨yields_log hperforms hdeclared hordered hheld, ?_⟩
  rw [Node.inputs_prepare hinputs, hheld, Option.getD_some]

end Stands

section Line

variable (h : g.IsLine source relays log v) (hr : r.Stands g (lineWires source "value" relays log) limit)

include h hr

/-- The nodes that take part in the next iteration: the constant if it has not fired, and those to which something has come. -/
theorem wants_line {id : NodeId} : r.graph.wants r.firedSources id = true ↔
    id = source.id ∧ source.id ∉ r.firedSources ∨
      ∃ w ∈ lineWires source "value" relays log, w.target = id ∧ (r.graph.received? w).isSome = true := by
  have hunfed := hr.wants_unfed h.comprises List.mem_cons_self h.source h.unfed (fun _ => rfl) rfl
  have hfed : ∀ n ∈ relays ++ [log], ∀ w ∈ lineWires source "value" relays log, w.target = n.id →
      (r.graph.wants r.firedSources n.id = true ↔ (r.graph.received? w).isSome = true) := fun n hn _ =>
    hr.wants_came h.comprises h.relays h.log hn (List.mem_cons_of_mem _ hn)
  constructor
  · intro hwants
    obtain ⟨n, hn, rfl⟩ := hr.exists_node h.comprises hwants
    rcases List.mem_cons.1 hn with rfl | hn
    · exact Or.inl ⟨rfl, hunfed.1 hwants⟩
    · obtain ⟨w, hw, hid⟩ := List.mem_map.1 (map_target_lineWires source "value" relays log ▸ List.mem_map_of_mem hn)
      exact Or.inr ⟨w, hw, hid, (hfed n hn w hw hid).1 hwants⟩
  · rintro (⟨rfl, hnot⟩ | ⟨w, hw, rfl, hsome⟩)
    · exact hunfed.2 hnot
    · obtain ⟨n, hn, hid⟩ := List.mem_map.1 (map_target_lineWires source "value" relays log ▸ List.mem_map_of_mem hw)
      rw [← hid]
      exact (hfed n hn w hw hid.symm).2 hsome

/-! ### The first iteration -/

section First

variable (hv : v.convert v.dataType = .ok v) (hfired : r.firedSources = [])
  (hempty : ∀ w ∈ lineWires source "value" relays log, r.graph.received? w = none)

include hfired hempty

theorem wants_line_first {id : NodeId} : r.graph.wants r.firedSources id = true ↔ id = source.id := by
  rw [wants_line h hr, hfired]
  refine ⟨fun hcases => hcases.elim And.left fun hcame => ?_, fun hid => Or.inl ⟨hid, List.not_mem_nil⟩⟩
  obtain ⟨w, hw, -, hsome⟩ := hcame
  rw [hempty w hw] at hsome
  cases hsome

include hv

/-- **The first iteration of a line of relays that are not too many.** The value of the constant comes to the node that logs. -/
theorem unfolds_line_first (hlimit : relays.length ≤ limit) :
    r.Unfolds (fun acts' r' => r'.Stands g (lineWires source "value" relays log) limit ∧
      r'.iteration = r.iteration + 1 ∧ source.id ∈ r'.firedSources ∧ Act.received log.id acts' = Act.received log.id acts ∧
        ∀ w ∈ lineWires source "value" relays log,
          r'.graph.received? w = if w = lineEnd source "value" relays log then some v else none) acts := by
  obtain ⟨w, ws, hline, hbegin, houtput, hrelays, hlength, hend, hchain, hlands⟩ :=
    hr.exists_lane h.comprises source "value" (fun relay hrelay => by simp [hrelay]) h.relays (by simp) h.log
  have hlane : w :: ws ⊆ lineWires source "value" relays log := fun w' hw' => hline ▸ hw'
  refine (hr.unfolds_alone h.comprises List.mem_cons_self h.source hv (fun _ => wants_line_first h hr hfired hempty) hlane
    hchain hbegin houtput h.unfed hempty (hlands v) (hlength ▸ hlimit)).mono fun acts' r' h' => ?_
  obtain ⟨hstands, hiteration, hfired', -, hreceived, hcame⟩ := h'
  exact ⟨hstands, hiteration, hfired', hreceived log (by simp) h.ne (hrelays ▸ h.apart.2.2), hend ▸ hcame⟩

/-- **The first iteration of a line of too many relays.** It fails at the relay after as many as are allowed. -/
theorem unfolds_line_exceed {relay : Node} (hrelay : relays[limit]? = some relay) :
    r.Unfolds (fun acts' r' => r'.IsOver (.failed (r.graph.depthFailure limit relay.id)) (r.iteration + 1) ∧
      Act.received log.id acts' = Act.received log.id acts) acts := by
  obtain ⟨w, ws, hline, hbegin, houtput, hrelays, -, -, hchain, -⟩ :=
    hr.exists_lane h.comprises source "value" (fun relay hrelay => by simp [hrelay]) h.relays (by simp) h.log
  have hlane : w :: ws ⊆ lineWires source "value" relays log := fun w' hw' => hline ▸ hw'
  obtain ⟨w', hexceeds, hid⟩ : ∃ w', ws[limit]? = some w' ∧ w'.source = relay.id := by
    have hsources := congrArg (·[limit]?) hrelays
    rw [List.getElem?_map, List.getElem?_map, hrelay] at hsources
    exact Option.map_eq_some_iff.1 hsources
  refine (hr.unfolds_alone_exceed h.comprises List.mem_cons_self h.source hv (fun _ => wants_line_first h hr hfired hempty)
    hlane hchain hbegin houtput hexceeds).mono fun acts' r' h' => ⟨hid ▸ h'.1, ?_⟩
  exact h'.2 log (by simp) h.ne (hrelays ▸ h.apart.2.2)

end First

/-! ### The second iteration -/

section Second

variable (hfired : source.id ∈ r.firedSources)
  (hcame : ∀ w ∈ lineWires source "value" relays log,
    r.graph.received? w = if w = lineEnd source "value" relays log then some v else none)

include hfired hcame

theorem wants_line_second {id : NodeId} : r.graph.wants r.firedSources id = true ↔ id = log.id := by
  obtain ⟨htarget, -, hlast⟩ := lineEnd_ends source "value" relays log
  rw [wants_line h hr]
  constructor
  · rintro (⟨-, hnot⟩ | ⟨w, hw, rfl, hsome⟩)
    · exact absurd hfired hnot
    · rw [hcame w hw] at hsome
      split_ifs at hsome with heq
      · rw [heq, htarget]
      · cases hsome
  · intro hid
    exact Or.inr ⟨_, hlast, htarget.trans hid.symm, by rw [hcame _ hlast, if_pos rfl]; rfl⟩

/-- **The second iteration of a line.** The value is logged. -/
theorem unfolds_line_second :
    r.Unfolds (fun acts' r' => r'.Stands g (lineWires source "value" relays log) limit ∧ r'.iteration = r.iteration + 1 ∧
      source.id ∈ r'.firedSources ∧ (∀ w' ∈ lineWires source "value" relays log, r'.graph.received? w' = none) ∧
        Act.received log.id acts' = Act.received log.id acts ++ [[("message", v)]]) acts := by
  have hwants : ∀ id, r.graph.wants r.firedSources id = true ↔ id = log.id := fun id =>
    wants_line_second h hr hfired hcame
  obtain ⟨htarget, hinput, hend⟩ := lineEnd_ends source "value" relays log
  have hlast : log ∈ source :: (relays ++ [log]) :=
    List.mem_cons_of_mem _ (List.mem_append_right _ (List.mem_singleton_self log))
  obtain ⟨n, hn, -⟩ := hr.node? h.comprises hlast
  obtain ⟨hlogs, hinputs⟩ := hr.logs h.comprises hlast h.log htarget hinput ((hcame _ hend).trans (if_pos rfl)) hn
  have hyields : ∀ id m, r.graph.wants r.firedSources id = true → r.graph.node? id = some m →
      m.Yields (puts r.graph "message" v id).1 (puts r.graph "message" v id).2 := fun id m hid hm => by
    obtain rfl := (hwants id).1 hid
    exact yields_puts hm (Option.some.inj (hn.symm.trans hm) ▸ hlogs)
  have hnone : ∀ w' ∈ lineWires source "value" relays log, r.graph.wants r.firedSources w'.source = true →
      w'.output ∉ Keyed.keys (puts r.graph "message" v w'.source).2.outputs := fun w' hw' hid => by
    exact absurd ((hwants _).1 hid ▸ List.mem_map_of_mem hw') h.last
  refine (unfolds_silent hr.wired hr.phase hr.idle hyields ⟨_, (hwants _).2 rfl⟩ hnone).mono
    fun acts' r' ⟨hiterated, hempty⟩ => ?_
  refine ⟨hiterated.stands hr, hiterated.iteration, (hiterated.fired _).2 (Or.inl hfired), fun w' hw' => ?_, ?_⟩
  · rw [hempty w' hw', hcame w' hw']
    split_ifs with hid heq
    · rfl
    · exact absurd ((hwants _).2 (heq ▸ htarget)) hid
    · rfl
  · rw [hiterated.received log.id n hn List.not_mem_nil, if_pos ((hwants _).2 rfl), hinputs]

end Second

/-- **When the value is logged, the run is over.** -/
theorem unfolds_line_end (hfired : source.id ∈ r.firedSources)
    (hempty : ∀ w ∈ lineWires source "value" relays log, r.graph.received? w = none) :
    r.Unfolds (fun acts' r' => r'.IsOver .completed r.iteration ∧ acts' = acts) acts := by
  refine unfolds_quiet hr.wired hr.phase fun id => ?_
  rw [← Bool.not_eq_true, wants_line h hr]
  rintro (⟨-, hnot⟩ | ⟨w, hw, -, hsome⟩)
  · exact hnot hfired
  · rw [hempty w hw] at hsome
    cases hsome

end Line

/-! ### Whole runs -/

/-- **The limit of the depth is exact on a line of relays.** If the relays are not more than the limit, then the run is
completed after two iterations, and the value of the constant is logged once. If they are more, then the run fails in the
first iteration, at the relay after as many as are allowed, and nothing is logged. -/
theorem line_limit {x : Executor} {context : Context} {now : Nat} {r₀ : Run} (h : g.IsLine source relays log v)
    (hv : ∀ y, v = .number y → y.isFinite = true) (hstart : start x g context .continuous now = .ok r₀) :
    (relays.length ≤ x.config.maxRelayDepth → r₀.Unfolds (fun acts r =>
      r.IsOver .completed 2 ∧ Act.received log.id acts = [[("message", v)]]) []) ∧
      ∀ hlong : x.config.maxRelayDepth < relays.length, r₀.Unfolds (fun acts r =>
        r.IsOver (.failed (relays[x.config.maxRelayDepth].label ++ ": " ++
          ("direct-through relay depth limit of " ++ toString x.config.maxRelayDepth ++ " exceeded"))) 1 ∧
            Act.received log.id acts = []) [] := by
  have hsources : ((lineWires source "value" relays log).map Wire.source).Nodup := by
    rw [map_source_lineWires]
    exact h.comprises.apart.sublist (((List.sublist_append_left relays [log]).cons_cons source).map Node.id)
  have htargets : ((lineWires source "value" relays log).map Wire.target).Nodup := by
    rw [map_target_lineWires]
    exact h.comprises.apart.sublist ((List.sublist_cons_self source (relays ++ [log])).map Node.id)
  obtain ⟨hr, hiteration, hfired, -, hempty⟩ := stands_start h.comprises hsources htargets hstart
  have hown := Value.convert_own hv
  refine ⟨fun hshort => ?_, fun hlong => ?_⟩
  · refine (unfolds_line_first h hr hown hfired hempty hshort).bind fun acts₁ r₁ ⟨hr₁, hiteration₁, hfired₁, hacts₁, hcame⟩ => ?_
    refine (unfolds_line_second h hr₁ hfired₁ hcame).bind fun acts₂ r₂ h₂ => ?_
    obtain ⟨hr₂, hiteration₂, hfired₂, hempty₂, hacts₂⟩ := h₂
    refine (unfolds_line_end h hr₂ hfired₂ hempty₂).mono fun acts₃ r₃ ⟨hover, hsame⟩ => ⟨?_, ?_⟩
    · rwa [hiteration₂, hiteration₁, hiteration] at hover
    · rw [hsame, hacts₂, hacts₁]
      rfl
  · refine (unfolds_line_exceed h hr hown hfired hempty (List.getElem?_eq_getElem hlong)).mono fun acts r ⟨hover, hacts⟩ => ⟨?_, hacts⟩
    obtain ⟨n, hn, hbecomes⟩ := hr.node? h.comprises
      (List.mem_cons_of_mem _ (List.mem_append_left _ (List.getElem_mem hlong)))
    have hlabel : r₀.graph.labelOf relays[x.config.maxRelayDepth].id = relays[x.config.maxRelayDepth].label := by
      simp only [Graph.labelOf, hn, hbecomes.label]
    rwa [Graph.depthFailure, Graph.failureLine, hlabel, hiteration] at hover

/-! ### One relay -/

end Run

namespace Standard

variable (v : Value)

/-- A constant, which is not emitted again. -/
def constantNode : Node × Supply :=
  Node.create ⟨1⟩ "constant" (constantBehavior v false) [("value", v)] ⟨4⟩

/-- A relay for its value. -/
def relayNode : Node × Supply :=
  Node.create ⟨2⟩ "relay" relayBehavior [] (constantNode v).2

/-- A node that logs it. -/
def logNode : Node × Supply :=
  Node.create ⟨3⟩ "log" logBehavior [] (relayNode v).2

end Standard

namespace Graph

/-- The constant, the relay and the node that logs, connected. -/
def relayed? (v : Value) : Except GraphError Graph := do
  let g ← ({ empty ⟨4⟩ with supply := (constantNode v).2 } : Graph).addNode (constantNode v).1
  let g ← ({ g with supply := (relayNode v).2 } : Graph).addNode (relayNode v).1
  let g ← ({ g with supply := (logNode v).2 } : Graph).addNode (logNode v).1
  let g ← g.addEdge ⟨6⟩ ⟨9⟩
  g.addEdge ⟨10⟩ ⟨13⟩

/-- The graph that they make up. -/
def relayed (v : Value) : Graph :=
  (relayed? v).toOption.getD (empty ⟨0⟩)

section Relayed

variable {v : Value} (hv : v = .integer 7 ∨ v = .number .nan)

include hv

theorem built_relayed : (relayed v).Built := by
  have h : relayed? v = .ok (relayed v) := by rcases hv with rfl | rfl <;> rfl
  obtain ⟨g₁, h₁, h⟩ := Except.bind_eq_ok.1 h
  obtain ⟨g₂, h₂, h⟩ := Except.bind_eq_ok.1 h
  obtain ⟨g₃, h₃, h⟩ := Except.bind_eq_ok.1 h
  obtain ⟨g₄, h₄, h⟩ := Except.bind_eq_ok.1 h
  have hconstant := Built.create_next ⟨.empty ⟨4⟩, rfl⟩ h₁
  have hrelay := Built.create_next hconstant h₂
  exact .addEdge (.addEdge (Built.create_next hrelay h₃).1 h₄) h

theorem isLine_relayed : (relayed v).IsLine (constantNode v).1 [(relayNode v).1] (logNode v).1 v where
  comprises := {
    reached := (built_relayed hv).reached
    members := .of_eq (by rcases hv with rfl | rfl <;> rfl)
    joined := .of_eq (by rcases hv with rfl | rfl <;> rfl)
    fit := by rcases hv with rfl | rfl <;> rfl
    blank := by rcases hv with rfl | rfl <;> decide +kernel
    quiet := by rcases hv with rfl | rfl <;> decide +kernel }
  source := performs_construct (s := ⟨4⟩) rfl (behavior_constant [("value", v)]) (List.nodup_singleton _) rfl
  relays := List.forall_mem_singleton.2
    (performs_construct (s := (constantNode v).2) rfl (behavior_relay []) (by decide) rfl)
  log := performs_construct (s := (relayNode v).2) rfl (behavior_log []) (by decide) rfl

end Relayed

end Graph

namespace Run

/-- An executor that allows chains of so many relays. -/
def limited (limit : Nat) : Executor :=
  .create { ExecutorConfig.standard with maxRelayDepth := limit }

/-- The start of a run of the constant, the relay and the node that logs. -/
def relayedStart (v : Value) (limit : Nat) : Run :=
  (start (limited limit) (Graph.relayed v) default .continuous 0).toOption.getD signalStart

theorem line_limit_relayed :
    (relayedStart (.integer 7) 1).Unfolds (fun acts r =>
      r.IsOver .completed 2 ∧ Act.received ⟨3⟩ acts = [[("message", .integer 7)]]) [] ∧
    (relayedStart (.integer 7) 0).Unfolds (fun acts r =>
      r.IsOver (.failed "relay: direct-through relay depth limit of 0 exceeded") 1 ∧ Act.received ⟨3⟩ acts = []) [] := by
  have h := Graph.isLine_relayed (Or.inl rfl)
  have hv : ∀ y, Value.integer 7 = .number y → y.isFinite = true := fun y heq => by cases heq
  have hone : start (limited 1) (Graph.relayed (.integer 7)) default .continuous 0 = .ok (relayedStart (.integer 7) 1) := rfl
  have hzero : start (limited 0) (Graph.relayed (.integer 7)) default .continuous 0 = .ok (relayedStart (.integer 7) 0) := rfl
  exact ⟨(line_limit h hv hone).1 (by decide), (line_limit h hv hzero).2 (by decide)⟩

/-- Where the run gets if the constant is not a number that can be stored. -/
def nanEnd : Run :=
  ((relayedStart (.number .nan) 1).follow [.drive, .run ⟨1⟩, .drive, .drive, .drive]).getD signalStart

/-- The run of a constant that is no finite number does not come to the same end as others: its output refuses the value, and
the run fails in the first iteration. -/
theorem not_unfolds_nan :
    (Graph.relayed (.number .nan)).IsLine (constantNode (.number .nan)).1 [(relayNode (.number .nan)).1]
      (logNode (.number .nan)).1 (.number .nan) ∧
    start (limited 1) (Graph.relayed (.number .nan)) default .continuous 0 = .ok (relayedStart (.number .nan) 1) ∧
    ¬(relayedStart (.number .nan) 1).Unfolds (fun acts r =>
      r.IsOver .completed 2 ∧ Act.received ⟨3⟩ acts = [[("message", .number .nan)]]) [] := by
  refine ⟨Graph.isLine_relayed (Or.inr rfl), rfl, fun h => ?_⟩
  have hgoes : (relayedStart (.number .nan) 1).goesBy [.drive, .run ⟨1⟩, .drive, .drive, .drive] = true := by decide +kernel
  have hfollow : (relayedStart (.number .nan) 1).follow [.drive, .run ⟨1⟩, .drive, .drive, .drive] = some nanEnd := rfl
  obtain ⟨result, hp, hone⟩ : ∃ result, nanEnd.phase = .over result ∧ result.iterations = 1 := ⟨_, rfl, rfl⟩
  have hfinal : nanEnd.phase.isFinal = true := by rw [hp]; rfl
  obtain ⟨⟨result', hp', -, htwo⟩, -⟩ :=
    h.of_follow (fun acts r ⟨⟨_, hover, _⟩, _⟩ => by rw [hover]; rfl) hgoes hfollow hfinal
  cases hp.symm.trans hp'
  cases hone.symm.trans htwo

end Run

end Dataflow
