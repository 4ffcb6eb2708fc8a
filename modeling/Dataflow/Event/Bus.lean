import Dataflow.Event

/-!
# The event bus

A bus keeps its latest events for its subscribers. A subscription is a place in the stream of events;
one that falls behind goes on with the oldest event that is still kept.

* `EventBus.publish` adds an event, `subscribe` and `unsubscribe` keep count of the subscribers;
* `Emitter.emit` publishes a message of a node;
* `EventBus.poll` looks at the stream once: there is the next event, or some events were forgotten, or there is none;
* `EventBus.receive?` looks until there is an event or none, `drain` takes all events that are left.
-/

namespace Dataflow

/-- A bus that keeps its latest `capacity` events. `published` counts all events, `kept` are the latest
ones, oldest first. -/
structure EventBus where
  capacity : Nat
  published : Nat
  kept : List Event
  subscribers : Nat
  deriving Repr, Inhabited

/-- A place in the stream: the number of events before the next one to receive. -/
structure Subscription where
  position : Nat
  deriving DecidableEq, Repr, Inhabited

namespace EventBus

/-- A bus without events that keeps at least `capacity` of them, rounded up to a power of two. -/
def create (capacity : Nat) : EventBus :=
  { capacity := (max capacity 1).nextPowerOfTwo, published := 0, kept := [], subscribers := 0 }

/-- The number of events that are no longer kept. -/
def forgotten (bus : EventBus) : Nat :=
  bus.published - bus.kept.length

/-- Publish an event; the oldest one is forgotten if there are too many. -/
def publish (bus : EventBus) (event : Event) : EventBus :=
  let kept := bus.kept ++ [event]
  { bus with published := bus.published + 1, kept := kept.drop (kept.length - bus.capacity) }

/-- A subscription to all events from now on. -/
def subscribe (bus : EventBus) : Subscription × EventBus :=
  (⟨bus.published⟩, { bus with subscribers := bus.subscribers + 1 })

/-- Give up a subscription. -/
def unsubscribe (bus : EventBus) : EventBus :=
  { bus with subscribers := bus.subscribers - 1 }

/-- What a subscription finds when it looks at the stream. -/
inductive Poll where
  | event (event : Event)
  /-- Some events were forgotten before they were received. -/
  | lagged (skipped : Nat)
  | empty
  deriving DecidableEq, Repr, Inhabited

/-- Look at the stream once. A subscription that has fallen behind is told so, and goes on with the oldest event that is
still kept. -/
def poll (bus : EventBus) (s : Subscription) : Poll × Subscription :=
  if s.position < bus.forgotten then (.lagged (bus.forgotten - s.position), ⟨bus.forgotten⟩)
  else match bus.kept[s.position - bus.forgotten]? with
    | some event => (.event event, ⟨s.position + 1⟩)
    | none => (.empty, s)

theorem lt_of_poll_lagged {bus : EventBus} {s s' : Subscription} {skipped : Nat} (h : bus.poll s = (.lagged skipped, s')) :
    s.position < bus.forgotten ∧ s' = ⟨bus.forgotten⟩ := by
  unfold poll at h
  split at h
  · cases h
    exact ⟨by assumption, rfl⟩
  · split at h <;> cases h

theorem lt_of_poll_event {bus : EventBus} {s s' : Subscription} {event : Event} (h : bus.poll s = (.event event, s')) :
    s.position < bus.forgotten + bus.kept.length ∧ s' = ⟨s.position + 1⟩ := by
  unfold poll at h
  split at h
  · cases h
  · split at h
    · rename_i hevent
      have hlt := (List.getElem?_eq_some_iff.1 hevent).1
      cases h
      exact ⟨by omega, rfl⟩
    · cases h

/-- The next event of a subscription, if there is one. Events that were forgotten are passed over. -/
def receive? (bus : EventBus) (s : Subscription) : Option Event × Subscription :=
  match _h : bus.poll s with
  | (.event event, s') => (some event, s')
  | (.lagged _, s') => bus.receive? s'
  | (.empty, s') => (none, s')
termination_by bus.forgotten - s.position
decreasing_by
  obtain ⟨hlt, rfl⟩ := lt_of_poll_lagged _h
  simp only
  omega

theorem lt_of_receive {bus : EventBus} {s s' : Subscription} {event : Event} (h : bus.receive? s = (some event, s')) :
    s.position < s'.position ∧ s.position < bus.forgotten + bus.kept.length := by
  unfold receive? at h
  split at h
  · rename_i hpoll
    obtain ⟨hlt, rfl⟩ := lt_of_poll_event hpoll
    cases h
    exact ⟨Nat.lt_succ_self _, hlt⟩
  · rename_i hpoll
    obtain ⟨hlt, rfl⟩ := lt_of_poll_lagged hpoll
    obtain ⟨hlt', -⟩ := lt_of_receive h
    exact ⟨Nat.lt_trans hlt hlt', by omega⟩
  · cases h
termination_by bus.forgotten - s.position

/-- All events that are left for a subscription. -/
def drain (bus : EventBus) (s : Subscription) : List Event × Subscription :=
  match _h : bus.receive? s with
  | (none, s') => ([], s')
  | (some event, s') =>
    let (events, s) := bus.drain s'
    (event :: events, s)
termination_by bus.forgotten + bus.kept.length - s.position
decreasing_by
  obtain ⟨hlt, hlt'⟩ := lt_of_receive _h
  omega

end EventBus

/-- What a node publishes with: it signs its messages with its execution and its identifier. -/
structure Emitter where
  executionId : ExecutionId
  node : NodeId
  deriving DecidableEq, Repr, Inhabited

/-- Publish a message. -/
def Emitter.emit (emitter : Emitter) (message : NodeEvent) (bus : EventBus) : EventBus :=
  bus.publish ⟨emitter.executionId, .nodeEvent emitter.node message⟩

end Dataflow
