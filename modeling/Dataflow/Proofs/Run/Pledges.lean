import Dataflow.Proofs.Run.Endings
import Dataflow.Proofs.Run.Marks

/-!
# Activations that are settled in advance

While the activations of an iteration are under way, what each of them will come to is settled already if its script is
determined. A graph in which each node remembers now what it will remember then does not change while the activations
take turns.

* `Pledge` is an activation under way, of which the ending is settled; `Graph.fulfilled` is a graph whose nodes remember
  what they will remember when some pledges are fulfilled;
* `Graph.Hosts` says that each node is stored once, under its identifier, and that all behaviors have a property; it
  stays, whatever happens to the graph in a run;
* `Graph.fulfilled_setNode_eq`, `Graph.fulfilled_settle`: the fulfilled graph does not change when an activation goes
  on, and when one is settled it changes as the graph itself does.
-/

namespace Dataflow

/-! ### Tables, entry by entry -/

section Tables

variable {κ α β : Type} [DecidableEq κ]

/-- The order of the entries does not matter to look-up. -/
theorem Table.find?_perm {table table' : Table κ α} (h : table.Perm table') (hp : Proper table) (key : κ) :
    find? key table = find? key table' := by
  cases hfind : find? key table with
  | none =>
    rw [find?_eq_none, (h.map Prod.fst).mem_iff, ← find?_eq_none] at hfind
    exact hfind.symm
  | some a =>
    have hp' : Proper table' := (h.map Prod.fst).nodup hp
    exact (hp'.find?_of_mem (h.mem_iff.1 (mem_of_find? hfind))).symm

/-- Change what is entered under each key. -/
def Table.change (f : κ → α → β) (table : Table κ α) : Table κ β :=
  table.map fun e => (e.1, f e.1 e.2)

theorem Table.find?_change (f : κ → α → β) (key : κ) (table : Table κ α) :
    find? key (change f table) = (find? key table).map (f key) := by
  induction table with
  | nil => rfl
  | cons entry rest ih =>
    obtain ⟨k, a⟩ := entry
    by_cases hk : k = key
    · subst hk
      simp [change]
    · simpa [change, hk] using ih

theorem Table.change_set (f : κ → α → β) (key : κ) (a : α) (table : Table κ α) :
    change f (set key a table) = set key (f key a) (change f table) := by
  induction table with
  | nil => rfl
  | cons entry rest ih =>
    obtain ⟨k, b⟩ := entry
    by_cases hk : k = key
    · simp [set, change, hk]
    · simpa [set, change, hk] using ih

/-- Two changes that agree on all keys but one, where something else is entered that makes up for it. -/
theorem Table.change_set_eq {f f' : κ → α → β} {key : κ} {a b : α} {table : Table κ α} (hp : Proper table)
    (hfind : find? key table = some b) (hkey : f key a = f' key b) (hother : ∀ k, k ≠ key → f k = f' k) :
    change f (set key a table) = change f' table := by
  induction table with
  | nil => cases hfind
  | cons entry rest ih =>
    obtain ⟨k, c⟩ := entry
    obtain ⟨hk, hrest⟩ := List.nodup_cons.1 hp
    by_cases he : k = key
    · subst he
      have hb : c = b := by simpa using hfind
      subst hb
      -- The key stands here only, so that the changes agree on all that follows.
      have hsame : change f rest = change f' rest := by
        refine List.map_congr_left fun e he => ?_
        rw [hother e.1 fun e' => hk (List.mem_map.2 ⟨e, he, e'⟩)]
      simp only [change] at hsame
      simp [set, change, hkey, hsame]
    · have hfind' : find? key rest = some b := by simpa [he] using hfind
      have ih' := ih hrest hfind'
      simp only [change] at ih'
      simp [set, change, he, hother k he, ih']

omit [DecidableEq κ] in
theorem Table.change_congr {f f' : κ → α → β} {table : Table κ α} (h : ∀ k, f k = f' k) : change f table = change f' table := by
  rw [show f = f' from funext h]

end Tables

/-! ### Pledges -/

/-- An activation under way: its place in the scan, and what is left of its script. -/
structure Pledge where
  node : NodeId
  index : Nat
  script : Script

/-- What is left of an activation. -/
def Task.pledge (t : Task) : Pledge :=
  ⟨t.node, t.index, t.script⟩

/-- The result that an activation will have. -/
def Pledge.result (p : Pledge) : Except NodeError Output :=
  match p.script.halt with
  | .finished result => result
  | .panicked message => .error (Run.panicError p.index message)

/-- What a node is pledged to. -/
def pledgeOf? (id : NodeId) (pledges : List Pledge) : Option Pledge :=
  Table.find? id (pledges.map fun p => (p.node, p))

theorem pledgeOf?_cons (id : NodeId) (p : Pledge) (pledges : List Pledge) :
    pledgeOf? id (p :: pledges) = if p.node = id then some p else pledgeOf? id pledges := rfl

theorem pledgeOf?_eq_none {id : NodeId} {pledges : List Pledge} :
    pledgeOf? id pledges = none ↔ id ∉ pledges.map Pledge.node := by
  rw [pledgeOf?, Table.find?_eq_none, List.map_map]
  rfl

/-- The order of the pledges does not matter. -/
theorem pledgeOf?_perm {pledges pledges' : List Pledge} (h : pledges.Perm pledges')
    (hn : (pledges.map Pledge.node).Nodup) (id : NodeId) : pledgeOf? id pledges = pledgeOf? id pledges' := by
  refine Table.find?_perm (h.map _) ?_ id
  rw [Table.Proper, List.map_map]
  exact hn

namespace Graph

/-! ### Graphs with pledges -/

/-- A node as it will be when a pledge of it is fulfilled. -/
def fulfil (pledges : List Pledge) (id : NodeId) (n : Node) : Node :=
  match pledgeOf? id pledges with
  | some p => { n with memory := p.script.memory n.memory }
  | none => n

/-- A graph whose nodes remember what they will remember when some pledges are fulfilled. -/
def fulfilled (g : Graph) (pledges : List Pledge) : Graph :=
  { g with nodes := Table.change (fulfil pledges) g.nodes }

/-- Each node is stored once, under its identifier, and all behaviors have a property. -/
structure Hosts (P : Behavior → Prop) (g : Graph) : Prop where
  order : g.order.Nodup
  proper : Table.Proper g.nodes
  named : ∀ {id : NodeId} {n : Node}, g.node? id = some n → n.id = id
  behaves : ∀ {id : NodeId} {n : Node}, g.node? id = some n → P n.behavior

section Fulfil

variable {g : Graph} {pledges : List Pledge} {id : NodeId} {n : Node}

theorem fulfil_of_none (h : pledgeOf? id pledges = none) : fulfil pledges id n = n := by
  rw [fulfil, h]

theorem fulfil_of_some {p : Pledge} (h : pledgeOf? id pledges = some p) :
    fulfil pledges id n = { n with memory := p.script.memory n.memory } := by
  rw [fulfil, h]

theorem fulfil_eq (pledges : List Pledge) (id : NodeId) (n : Node) : ∃ memory, fulfil pledges id n = { n with memory } := by
  unfold fulfil
  split
  · exact ⟨_, rfl⟩
  · exact ⟨n.memory, rfl⟩

theorem node?_fulfilled (g : Graph) (pledges : List Pledge) (id : NodeId) :
    (g.fulfilled pledges).node? id = (g.node? id).map (fulfil pledges id) :=
  Table.find?_change _ id g.nodes

theorem node?_fulfilled_of_none (h : pledgeOf? id pledges = none) : (g.fulfilled pledges).node? id = g.node? id := by
  rw [node?_fulfilled]
  cases g.node? id with
  | none => rfl
  | some n => rw [Option.map_some, fulfil_of_none h]

@[simp] theorem fulfilled_nil (g : Graph) : g.fulfilled [] = g := by
  have hsame : Table.change (fulfil []) g.nodes = g.nodes := by
    simp [Table.change, fulfil, pledgeOf?]
  unfold fulfilled
  rw [hsame]

theorem fulfilled_congr {pledges' : List Pledge} (h : ∀ id, pledgeOf? id pledges = pledgeOf? id pledges') :
    g.fulfilled pledges = g.fulfilled pledges' := by
  have hsame : ∀ id, fulfil pledges id = fulfil pledges' id := by
    intro id
    unfold fulfil
    rw [h id]
  rw [fulfilled, Table.change_congr hsame, fulfilled]

theorem fulfilled_setNode (g : Graph) (n : Node) (pledges : List Pledge) :
    (g.setNode n).fulfilled pledges = (g.fulfilled pledges).setNode (fulfil pledges n.id n) := by
  obtain ⟨memory, hf⟩ := fulfil_eq pledges n.id n
  unfold fulfilled setNode
  simp only [Table.change_set, hf]

/-- A node gets nearer to its pledge. -/
theorem fulfilled_setNode_eq {P : Behavior → Prop} (hg : g.Hosts P) {n' : Node} {pledges' : List Pledge} (hid : n'.id = id)
    (hn : g.node? id = some n) (hnode : fulfil pledges' id n' = fulfil pledges id n)
    (hother : ∀ k, k ≠ id → pledgeOf? k pledges' = pledgeOf? k pledges) :
    (g.setNode n').fulfilled pledges' = g.fulfilled pledges := by
  have hsame : ∀ k, k ≠ id → fulfil pledges' k = fulfil pledges k := by
    intro k hk
    unfold fulfil
    rw [hother k hk]
  unfold fulfilled setNode
  rw [hid, Table.change_set_eq hg.proper hn hnode hsame]

/-- One pledge is fulfilled as if its node remembered the end of it. -/
theorem fulfilled_singleton {P : Behavior → Prop} (hg : g.Hosts P) {p : Pledge} (hn : g.node? p.node = some n) :
    g.fulfilled [p] = g.setNode { n with memory := p.script.memory n.memory } := by
  have hid : n.id = p.node := hg.named hn
  have hsome : pledgeOf? p.node [p] = some p := by rw [pledgeOf?_cons, if_pos rfl]
  have hset : (g.setNode { n with memory := p.script.memory n.memory }).fulfilled [] = g.fulfilled [p] := by
    refine fulfilled_setNode_eq hg hid hn (fulfil_of_some hsome).symm fun k hk => ?_
    rw [pledgeOf?_cons, if_neg (Ne.symm hk)]
  rw [← hset, fulfilled_nil]

theorem fulfilled_reindex (g : Graph) (id : NodeId) (pledges : List Pledge) :
    (g.reindex id).fulfilled pledges = (g.fulfilled pledges).reindex id := by
  unfold reindex
  rw [node?_fulfilled]
  cases g.node? id with
  | none => rfl
  | some n =>
    obtain ⟨memory, hf⟩ := fulfil_eq pledges id n
    rw [Option.map_some, hf]
    rfl

/-- The pledges of other nodes do not matter to the end of an activation. -/
theorem fulfilled_settle {P : Behavior → Prop} (hg : g.Hosts P) (hid : pledgeOf? id pledges = none)
    (result : Except NodeError Output) : (g.settle id result).fulfilled pledges = (g.fulfilled pledges).settle id result := by
  unfold settle
  rw [node?_fulfilled_of_none hid]
  cases hn : g.node? id with
  | none => rfl
  | some n =>
    dsimp only
    have hsame := (n.evolves_complete result g.supply).id
    -- The node that is settled has no pledge left to fulfil.
    have hfulfil : fulfil pledges (n.complete result g.supply).2.1.id (n.complete result g.supply).2.1 =
        (n.complete result g.supply).2.1 := by
      rw [hsame, hg.named hn]
      exact fulfil_of_none hid
    have hset := fulfilled_setNode g (n.complete result g.supply).2.1 pledges
    rw [hfulfil] at hset
    rw [fulfilled_reindex]
    unfold evolve
    congr 1
    simp only [fulfilled, setNode] at hset ⊢
    simp_all

/-- The end of an activation does not touch other nodes. -/
theorem node?_settle_of_ne {P : Behavior → Prop} (hg : g.Hosts P) {k : NodeId} (hk : id ≠ k) (result : Except NodeError Output) :
    (g.settle id result).node? k = g.node? k := by
  unfold settle
  cases hn : g.node? id with
  | none => rfl
  | some n =>
    rw [node?_reindex, node?_evolve, (n.evolves_complete result g.supply).id, hg.named hn, if_neg hk]

theorem completion_fulfilled (hid : pledgeOf? id pledges = none) (result : Except NodeError Output) :
    (g.fulfilled pledges).completion id result = g.completion id result := by
  unfold completion
  rw [node?_fulfilled_of_none hid]
  rfl

theorem completed_fulfilled (hid : pledgeOf? id pledges = none) (result : Except NodeError Output) (duration : Nat) :
    Run.completed (g.fulfilled pledges) id result duration = Run.completed g id result duration := by
  unfold Run.completed
  rw [node?_fulfilled_of_none hid]
  rfl

end Fulfil

/-! ### Nodes in their places -/

namespace Hosts

variable {P : Behavior → Prop} {g : Graph}

theorem setNode (hg : g.Hosts P) {n m : Node} (hm : g.node? n.id = some m) (hb : n.behavior = m.behavior) :
    (g.setNode n).Hosts P where
  order := hg.order
  proper := hg.proper.set
  named {id n'} h := by
    rw [node?_setNode] at h
    split_ifs at h with heq
    · cases h; exact heq
    · exact hg.named h
  behaves {id n'} h := by
    rw [node?_setNode] at h
    split_ifs at h
    · cases h
      rw [hb]
      exact hg.behaves hm
    · exact hg.behaves h

/-- A node remembers something else. -/
theorem remember (hg : g.Hosts P) {id : NodeId} {n : Node} (hn : g.node? id = some n) (memory : Memory) :
    (g.setNode { n with memory }).Hosts P := by
  have hid : n.id = id := hg.named hn
  subst hid
  exact hg.setNode (m := n) hn rfl

theorem node?_remember (hg : g.Hosts P) {id : NodeId} {n : Node} (hn : g.node? id = some n) (memory : Memory) (k : NodeId) :
    (g.setNode { n with memory }).node? k = if id = k then some { n with memory } else g.node? k := by
  have hid : n.id = id := hg.named hn
  subst hid
  exact node?_setNode ..

/-- Owners and identifiers for new ports do not matter. -/
theorem of_eq (hg : g.Hosts P) {g' : Graph} (horder : g'.order = g.order) (hnodes : g'.nodes = g.nodes) : g'.Hosts P := by
  have hnode : ∀ id, g'.node? id = g.node? id := fun id => by rw [node?, hnodes, node?]
  exact ⟨horder ▸ hg.order, hnodes ▸ hg.proper, fun h => hg.named (hnode _ ▸ h), fun h => hg.behaves (hnode _ ▸ h)⟩

theorem reindex (hg : g.Hosts P) (id : NodeId) : (g.reindex id).Hosts P :=
  hg.of_eq (by rw [reindex_order]) (by rw [reindex_nodes])

theorem evolve (hg : g.Hosts P) {n n' : Node} {id : NodeId} {s s' : Supply} (hn : g.node? id = some n)
    (h : n.Renews s s' n') : (g.evolve n' s').Hosts P := by
  have hid : n'.id = id := h.id.trans (hg.named hn)
  exact (hg.setNode (by rw [hid]; exact hn) h.behavior).of_eq rfl rfl

theorem modifyNode (hg : g.Hosts P) (id : NodeId) {f : Node → Node} (hid : ∀ n, (f n).id = n.id)
    (hb : ∀ n, (f n).behavior = n.behavior) : (g.modifyNode id f).Hosts P := by
  unfold Graph.modifyNode
  cases hn : g.node? id with
  | none => exact hg
  | some n => exact hg.setNode (by rw [hid, hg.named hn]; exact hn) (hb n)

theorem settle (hg : g.Hosts P) (id : NodeId) (result : Except NodeError Output) : (g.settle id result).Hosts P := by
  unfold Graph.settle
  cases hn : g.node? id with
  | none => exact hg
  | some n => exact (hg.evolve hn (n.evolves_complete result g.supply).toRenews).reindex id

theorem clear (hg : g.Hosts P) (id : NodeId) : (g.enact (.clear id)).Hosts P :=
  (hg.modifyNode id (f := Node.clearInputs) (fun _ => rfl) fun _ => rfl).reindex id

theorem write (hg : g.Hosts P) {p : PortId} {v w : Value} {g' : Graph} (h : g.write p v = .ok (w, g')) : g'.Hosts P := by
  obtain ⟨owner, n, n', s', -, hn, hw, rfl⟩ := write_eq_ok h
  exact (hg.evolve hn (Node.evolves_write hw).toRenews).reindex owner

theorem deliver (offers : List Offer) {d : Delivery} (hd : d.graph.Hosts P) : (deliver offers d).graph.Hosts P := by
  induction offers generalizing d with
  | nil => exact hd
  | cons o rest ih =>
    unfold Graph.deliver
    split_ifs
    · exact ih hd
    · split
      · exact hd
      · rename_i hw
        exact ih (hd.write hw)

theorem transferOutputs (hg : g.Hosts P) (id : NodeId) : (g.transferOutputs id).graph.Hosts P := by
  unfold Graph.transferOutputs
  cases hn : g.node? id with
  | none => exact hg
  | some n =>
    have hkept := kept_takeUnread (g.feedingPorts n) n
    exact deliver _ (hg.setNode (by rw [hkept.id, hg.named hn]; exact hn) hkept.behavior)

theorem isNamed (hg : g.Hosts P) : g.Named :=
  fun _ _ h => hg.named h

/-- No act takes a node from its place, or gives it another behavior. -/
theorem enact (hg : g.Hosts P) (act : Act) : (g.enact act).Hosts P := by
  cases act with
  | prepare a => exact hg.modifyNode a.node (f := fun n => n.prepare.2) (fun _ => rfl) fun _ => rfl
  | remember id memory => exact hg.modifyNode id (f := fun n => { n with memory }) (fun _ => rfl) fun _ => rfl
  | settle id result => exact hg.settle id result
  | reset id => exact hg.modifyNode id (f := Node.resetStatus) (fun _ => rfl) fun _ => rfl
  | clear id => exact hg.clear id
  | take id =>
    change (g.take id).Hosts P
    unfold take
    cases hn : g.node? id with
    | none => exact hg
    | some n =>
      have hkept := kept_takeUnread (g.feedingPorts n) n
      exact hg.setNode (by rw [hkept.id, hg.named hn]; exact hn) hkept.behavior
  | offer o =>
    unfold Graph.enact
    dsimp only
    split
    · rename_i hanswer
      unfold answer? at hanswer
      split_ifs at hanswer
      exact hg.write (Option.some.inj hanswer)
    · exact hg
  | publish => exact hg

theorem replay (hg : g.Hosts P) (acts : List Act) : (g.replay acts).Hosts P := by
  induction acts generalizing g with
  | nil => exact hg
  | cons act acts ih => exact ih (hg.enact act)

end Hosts

end Graph

end Dataflow
