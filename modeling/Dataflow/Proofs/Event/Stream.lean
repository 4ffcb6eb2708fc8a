import Dataflow.Event.Bus
import Mathlib.Data.List.Infix
import Mathlib.Logic.Function.Basic

/-!
# What subscriptions receive

All subscriptions share one bus, which forgets old events while a slow subscription has not got to them yet.

* `recent c` are those of some events that fewer than `c` newer ones follow, and `EventBus.Holds` says that a bus keeps these
  of the stream;
* `EventBus.Awaits` says which events a subscription has not got to yet, and `Awaits.poll`, `Awaits.receive` and
  `Awaits.drain` what it takes of them;
* `Exchange` is a bus with its subscriptions, `Traffic` what may happen there, one thing after the other, and `Reading` a way
  to take events;
* `Exchange.step_awaits`: what happens to the events that a subscription has not got to;
* `Exchange.event_delivery`: what a subscription receives, whatever else happens on the bus.
-/

namespace Dataflow

/-! ### Recent events -/

/-- Of some events, those that fewer than `c` newer ones follow, when `newer` more come after all of them. -/
def recent (c : Nat) : List Event → Nat → List Event
  | [], _ => []
  | event :: rest, newer => if rest.length + newer < c then event :: recent c rest newer else recent c rest newer

section Recent

variable {c newer : Nat} {events : List Event}

/-- The events that are not recent come first. -/
theorem recent_eq_drop (c : Nat) (events : List Event) (newer : Nat) :
    recent c events newer = events.drop (events.length + newer - c) := by
  induction events with
  | nil => rw [recent, List.drop_nil]
  | cons event rest ih =>
    rw [recent, ih, List.length_cons]
    by_cases h : rest.length + newer < c
    · rw [if_pos h, show rest.length + newer - c = 0 by omega, show rest.length + 1 + newer - c = 0 by omega]
      rfl
    · rw [if_neg h, show rest.length + 1 + newer - c = rest.length + newer - c + 1 by omega, List.drop_succ_cons]

theorem recent_append (c : Nat) (events events' : List Event) (newer : Nat) :
    recent c (events ++ events') newer = recent c events (events'.length + newer) ++ recent c events' newer := by
  induction events with
  | nil => rfl
  | cons event rest ih =>
    rw [List.cons_append, recent, recent, ih, List.length_append, Nat.add_assoc]
    split_ifs
    · rfl
    · rfl

theorem recent_sublist (c : Nat) (events : List Event) (newer : Nat) : (recent c events newer).Sublist events := by
  rw [recent_eq_drop]
  exact List.drop_sublist _ _

theorem length_recent (c : Nat) (events : List Event) : (recent c events 0).length = min c events.length := by
  rw [recent_eq_drop, List.length_drop]
  omega

theorem recent_of_le (h : events.length + newer ≤ c) : recent c events newer = events := by
  rw [recent_eq_drop, Nat.sub_eq_zero_of_le h, List.drop_zero]

end Recent

namespace EventBus

variable {bus : EventBus} {c : Nat} {all unread : List Event} {s : Subscription}

/-! ### What a bus keeps -/

/-- The bus keeps the recent events of the stream. -/
structure Holds (bus : EventBus) (c : Nat) (all : List Event) : Prop where
  capacity : bus.capacity = c
  published : bus.published = all.length
  kept : bus.kept = recent c all 0

theorem holds_create (capacity : Nat) : (create capacity).Holds (max capacity 1).nextPowerOfTwo [] :=
  ⟨rfl, rfl, rfl⟩

theorem Holds.publish (h : bus.Holds c all) (event : Event) : (bus.publish event).Holds c (all ++ [event]) := by
  refine ⟨h.capacity, ?_, ?_⟩
  · show bus.published + 1 = _
    rw [List.length_append, h.published, List.length_singleton]
  · show (bus.kept ++ [event]).drop ((bus.kept ++ [event]).length - bus.capacity) = _
    rw [h.kept, h.capacity, recent_eq_drop, recent_eq_drop, List.length_append, List.length_append, List.length_drop]
    simp only [List.length_singleton, Nat.add_zero]
    rw [← List.drop_append_of_le_length (Nat.sub_le _ _), List.drop_drop]
    congr 1
    omega

theorem Holds.forgotten (h : bus.Holds c all) : bus.forgotten = all.length - c := by
  rw [EventBus.forgotten, h.published, h.kept, length_recent]
  omega

/-! ### What a subscription has not got to -/

/-- A subscription has not got to the latest events of the stream yet: they are unread. -/
def Awaits (bus : EventBus) (c : Nat) (s : Subscription) (unread : List Event) : Prop :=
  ∃ passed, bus.Holds c (passed ++ unread) ∧ s.position = passed.length

theorem Holds.subscribe (h : bus.Holds c all) : bus.subscribe.2.Awaits c bus.subscribe.1 [] := by
  refine ⟨all, ⟨h.capacity, ?_, ?_⟩, h.published⟩
  · rw [List.append_nil]
    exact h.published
  · rw [List.append_nil]
    exact h.kept

theorem Awaits.publish (h : bus.Awaits c s unread) (event : Event) :
    (bus.publish event).Awaits c s (unread ++ [event]) := by
  obtain ⟨passed, hholds, hposition⟩ := h
  refine ⟨passed, ?_, hposition⟩
  rw [← List.append_assoc]
  exact hholds.publish event

/-- A bus that keeps the same events keeps them for its subscriptions. -/
theorem Awaits.congr {bus' : EventBus} (h : bus.Awaits c s unread) (hcapacity : bus'.capacity = bus.capacity)
    (hpublished : bus'.published = bus.published) (hkept : bus'.kept = bus.kept) : bus'.Awaits c s unread := by
  obtain ⟨passed, ⟨h₁, h₂, h₃⟩, hposition⟩ := h
  exact ⟨passed, ⟨hcapacity.trans h₁, hpublished.trans h₂, hkept.trans h₃⟩, hposition⟩

theorem Awaits.backlog (h : bus.Awaits c s unread) : bus.published - s.position = unread.length := by
  obtain ⟨passed, hholds, hposition⟩ := h
  rw [hholds.published, hposition, List.length_append]
  omega

/-- **What one look finds.** A subscription with more unread events than the bus keeps is told so, and skips to those that are
kept; any other one gets the next event. -/
theorem Awaits.poll (h : bus.Awaits c s unread) :
    (c < unread.length ∧ ∃ s', bus.poll s = (.lagged (unread.length - c), s') ∧ bus.Awaits c s' (recent c unread 0)) ∨
      (unread.length ≤ c ∧ ∃ event rest s', unread = event :: rest ∧ bus.poll s = (.event event, s') ∧
        bus.Awaits c s' rest) ∨
      (unread = [] ∧ bus.poll s = (.empty, s)) := by
  obtain ⟨passed, hholds, hposition⟩ := h
  have hforgotten := hholds.forgotten
  rw [List.length_append] at hforgotten
  unfold EventBus.poll
  rw [hforgotten, hposition]
  by_cases hlag : c < unread.length
  · refine Or.inl ⟨hlag, ⟨passed.length + unread.length - c⟩, ?_, ?_⟩
    · rw [if_pos (by omega), show passed.length + unread.length - c - passed.length = unread.length - c by omega]
    · -- The events up to those that are kept count as passed from now on.
      refine ⟨passed ++ unread.take (unread.length - c), ?_, ?_⟩
      · rw [recent_eq_drop, Nat.add_zero, List.append_assoc, List.take_append_drop]
        exact hholds
      · rw [List.length_append, List.length_take]
        simp only
        omega
  · have hkept : bus.kept[passed.length - (passed.length + unread.length - c)]? = unread[0]? := by
      rw [hholds.kept, recent_eq_drop, List.getElem?_drop, List.length_append]
      rw [List.getElem?_append_right (by omega)]
      congr 1
      omega
    rw [if_neg (by omega), hkept]
    cases unread with
    | nil => exact Or.inr (Or.inr ⟨rfl, rfl⟩)
    | cons event rest =>
      refine Or.inr (Or.inl ⟨Nat.not_lt.1 hlag, event, rest, ⟨passed.length + 1⟩, rfl, rfl, passed ++ [event], ?_, ?_⟩)
      · rw [List.append_assoc]
        exact hholds
      · rw [List.length_append, List.length_singleton]

section Turns

variable {s' : Subscription} {event : Event}

theorem receive?_of_event (h : bus.poll s = (.event event, s')) : bus.receive? s = (some event, s') := by
  rw [receive?]
  split <;> simp_all

theorem receive?_of_lagged {skipped : Nat} (h : bus.poll s = (.lagged skipped, s')) : bus.receive? s = bus.receive? s' := by
  rw [receive?]
  split <;> simp_all

theorem receive?_of_empty (h : bus.poll s = (.empty, s')) : bus.receive? s = (none, s') := by
  rw [receive?]
  split <;> simp_all

theorem drain_of_none (h : bus.receive? s = (none, s')) : bus.drain s = ([], s') := by
  rw [drain]
  split <;> simp_all

theorem drain_of_some (h : bus.receive? s = (some event, s')) :
    bus.drain s = (event :: (bus.drain s').1, (bus.drain s').2) := by
  rw [drain]
  split <;> simp_all

end Turns

/-- **What a subscription receives** is the oldest unread event that is recent. -/
theorem Awaits.receive (h : bus.Awaits c s unread) :
    ∃ s', bus.receive? s = ((recent c unread 0).head?, s') ∧ bus.Awaits c s' (recent c unread 0).tail := by
  -- A subscription that does not lag gets its next event, and one that does lag does not after one more look.
  have hlast : ∀ {s unread}, bus.Awaits c s unread → unread.length ≤ c →
      ∃ s', bus.receive? s = (unread.head?, s') ∧ bus.Awaits c s' unread.tail := by
    intro s unread h hle
    rcases h.poll with ⟨hlag, -⟩ | ⟨-, event, rest, s', rfl, hpoll, h'⟩ | ⟨rfl, hpoll⟩
    · omega
    · exact ⟨s', receive?_of_event hpoll, h'⟩
    · exact ⟨s, receive?_of_empty hpoll, h⟩
  rcases h.poll with ⟨hlag, s', hpoll, h'⟩ | ⟨hle, -⟩ | ⟨rfl, -⟩
  · rw [receive?_of_lagged hpoll]
    exact hlast h' (by rw [length_recent]; omega)
  · rw [recent_of_le hle]
    exact hlast h hle
  · exact hlast h (Nat.zero_le c)

/-- **What is left for a subscription** are the unread events that are recent. -/
theorem Awaits.drain (h : bus.Awaits c s unread) :
    ∃ s', bus.drain s = (recent c unread 0, s') ∧ bus.Awaits c s' [] := by
  generalize hkept : recent c unread 0 = events
  induction events generalizing s unread with
  | nil =>
    obtain ⟨s', hreceive, h'⟩ := h.receive
    rw [hkept] at hreceive h'
    exact ⟨s', drain_of_none hreceive, h'⟩
  | cons event rest ih =>
    obtain ⟨s', hreceive, h'⟩ := h.receive
    rw [hkept] at hreceive h'
    have hrest : recent c rest 0 = rest := by
      have hlength := length_recent c unread
      rw [hkept, List.length_cons] at hlength
      exact recent_of_le (by omega)
    obtain ⟨s'', hdrain, h''⟩ := ih h' hrest
    refine ⟨s'', ?_, h''⟩
    rw [drain_of_some hreceive, hdrain]

end EventBus

/-! ### A bus with its subscriptions -/

/-- A way to take events: one look at the stream, the next event if there is one, the next event, or all events that are
left. -/
inductive Reading where
  | look
  | tryReceive
  | receive
  | drain
  deriving DecidableEq, Repr

/-- Something that happens on a bus: an event is published, by the executor or by a node, or a subscription, which has a
number, begins, ends or takes events. -/
inductive Traffic where
  | publish (event : Event)
  | emit (emitter : Emitter) (message : NodeEvent)
  | subscribe (k : Nat)
  | unsubscribe (k : Nat)
  | read (k : Nat) (how : Reading)
  deriving DecidableEq, Repr

/-- What a subscription takes, and its place then. Receiving waits while there is no event. -/
def Reading.take? (bus : EventBus) (s : Subscription) : Reading → Option (List Event × Subscription)
  | .look =>
    match bus.poll s with
    | (.event event, s) => some ([event], s)
    | (_, s) => some ([], s)
  | .tryReceive =>
    let (event, s) := bus.receive? s
    some (event.toList, s)
  | .receive =>
    match bus.receive? s with
    | (some event, s) => some ([event], s)
    | (none, _) => none
  | .drain => some (bus.drain s)

namespace Traffic

/-- The event that is published. -/
def event? : Traffic → Option Event
  | .publish event => some event
  | .emit emitter message => some ⟨emitter.executionId, .nodeEvent emitter.node message⟩
  | _ => none

/-- The events that are published. -/
def emitted (acts : List Traffic) : List Event :=
  acts.filterMap event?

/-- Whether a subscription takes events. -/
def isRead (k : Nat) : Traffic → Bool
  | .read other _ => other = k
  | _ => false

/-- Whether a subscription would notice: an event is published, or the subscription itself does something. -/
def concerns (k : Nat) : Traffic → Bool
  | .publish _ | .emit .. => true
  | .subscribe other | .unsubscribe other | .read other _ => other = k

end Traffic

/-- A bus with its subscriptions. -/
structure Exchange where
  bus : EventBus
  subscription? : Nat → Option Subscription

namespace Exchange

/-- A bus without subscriptions. -/
def create (capacity : Nat) : Exchange :=
  ⟨.create capacity, fun _ => none⟩

/-- What is taken when something happens, and the bus with its subscriptions then; none if it cannot happen now. -/
def step? (x : Exchange) : Traffic → Option (List Event × Exchange)
  | .publish event => some ([], { x with bus := x.bus.publish event })
  | .emit emitter message => some ([], { x with bus := emitter.emit message x.bus })
  | .subscribe k =>
    if (x.subscription? k).isSome then none
    else
      let (s, bus) := x.bus.subscribe
      some ([], ⟨bus, Function.update x.subscription? k (some s)⟩)
  | .unsubscribe k =>
    (x.subscription? k).map fun _ => ([], ⟨x.bus.unsubscribe, Function.update x.subscription? k none⟩)
  | .read k how => do
    let s ← x.subscription? k
    let (events, s) ← how.take? x.bus s
    return (events, { x with subscription? := Function.update x.subscription? k (some s) })

/-- The bus after some things have happened; none if one of them cannot happen. -/
def follow (x : Exchange) : List Traffic → Option Exchange
  | [] => some x
  | act :: rest => (x.step? act).bind fun (_, x) => x.follow rest

/-- What a subscription takes while some things happen. -/
def received (k : Nat) (x : Exchange) : List Traffic → List Event
  | [] => []
  | act :: rest =>
    (x.step? act).elim [] fun (events, x) => (if act.isRead k then events else []) ++ x.received k rest

/-- How many events a subscription has not got to yet. -/
def backlog (x : Exchange) (k : Nat) : Nat :=
  ((x.subscription? k).map fun s => x.bus.published - s.position).getD 0

/-- The events of a stream that a subscription has not got to yet: the latest ones. -/
def unread (x : Exchange) (k : Nat) (stream : List Event) : List Event :=
  stream.drop (stream.length - x.backlog k)

end Exchange

/-- What reading makes of the events that a subscription has not got to yet: it passes over some of them, takes those of them
that fewer than `c` newer ones follow, and leaves the others for later. -/
structure Reading.Takes (how : Reading) (c : Nat) (unread taken left : List Event) : Prop where
  passes : ∃ passed, unread = passed ++ left ∧ taken = recent c passed left.length
  /-- One look gets on, if there is anything. -/
  look : how = .look → taken.length ≤ 1 ∧ (unread ≠ [] → left ≠ unread)
  tryReceive : how = .tryReceive → taken.length = min 1 unread.length
  receive : how = .receive → taken.length = 1
  /-- Nothing is left, and what is taken are the last `c` events, or all of them. -/
  drain : how = .drain → left = [] ∧ taken = unread.drop (unread.length - c)

/-! ### What happens to the events that a subscription has not got to -/

/-- What is taken of some unread events, and what is left of them; none if reading waits. -/
def Reading.outcome? (c : Nat) (unread : List Event) : Reading → Option (List Event × List Event)
  | .look => some (if c < unread.length then ([], recent c unread 0) else (unread.head?.toList, unread.tail))
  | .tryReceive => some ((recent c unread 0).head?.toList, (recent c unread 0).tail)
  | .receive =>
    match recent c unread 0 with
    | event :: rest => some ([event], rest)
    | [] => none
  | .drain => some (recent c unread 0, [])

section Outcome

variable {c : Nat} {unread taken left : List Event} {bus : EventBus} {s : Subscription}

/-- What a subscription takes depends on its unread events only. -/
theorem EventBus.Awaits.take (h : bus.Awaits c s unread) (how : Reading) :
    (how.outcome? c unread = none ∧ how.take? bus s = none) ∨
      ∃ taken left s', how.outcome? c unread = some (taken, left) ∧ how.take? bus s = some (taken, s') ∧
        bus.Awaits c s' left := by
  cases how with
  | look =>
    refine Or.inr ?_
    unfold Reading.outcome? Reading.take?
    rcases h.poll with ⟨hlag, s', hpoll, h'⟩ | ⟨hle, event, rest, s', rfl, hpoll, h'⟩ | ⟨rfl, hpoll⟩
    · rw [hpoll, if_pos hlag]
      exact ⟨_, _, s', rfl, rfl, h'⟩
    · rw [hpoll, if_neg (Nat.not_lt.2 hle)]
      exact ⟨_, _, s', rfl, rfl, h'⟩
    · rw [hpoll, List.length_nil, if_neg (Nat.not_lt_zero c)]
      exact ⟨_, _, s, rfl, rfl, h⟩
  | tryReceive =>
    obtain ⟨s', hreceive, h'⟩ := h.receive
    refine Or.inr ⟨_, _, s', rfl, ?_, h'⟩
    rw [Reading.take?, hreceive]
  | receive =>
    obtain ⟨s', hreceive, h'⟩ := h.receive
    unfold Reading.outcome? Reading.take?
    rw [hreceive]
    cases hrecent : recent c unread 0 with
    | nil => exact Or.inl ⟨rfl, rfl⟩
    | cons event rest =>
      rw [hrecent] at h'
      exact Or.inr ⟨_, _, s', rfl, rfl, h'⟩
  | drain =>
    obtain ⟨s', hdrain, h'⟩ := h.drain
    exact Or.inr ⟨_, _, s', rfl, congrArg some hdrain, h'⟩

/-- What is taken and what is left are the recent events. -/
theorem Reading.recent_of_outcome {how : Reading} (h : how.outcome? c unread = some (taken, left)) :
    recent c unread 0 = taken ++ left := by
  have hsplit : ∀ events : List Event, events.head?.toList ++ events.tail = events := by
    intro events
    cases events with
    | nil => rfl
    | cons => rfl
  cases how with
  | look =>
    unfold outcome? at h
    by_cases hlag : c < unread.length
    · rw [if_pos hlag] at h
      cases h
      rfl
    · rw [if_neg hlag] at h
      cases h
      rw [hsplit]
      exact recent_of_le (Nat.not_lt.1 hlag)
  | tryReceive =>
    cases h
    exact (hsplit _).symm
  | receive =>
    unfold outcome? at h
    cases hrecent : recent c unread 0 with
    | nil =>
      rw [hrecent] at h
      cases h
    | cons event rest =>
      rw [hrecent] at h
      cases h
      rfl
  | drain =>
    cases h
    exact (List.append_nil _).symm

/-- **What reading does.** -/
theorem Reading.takes_of_outcome {how : Reading} (hc : 0 < c) (h : how.outcome? c unread = some (taken, left)) :
    how.Takes c unread taken left := by
  have hrecent := recent_of_outcome h
  have hlength := length_recent c unread
  have hpassed : unread = unread.take (unread.length - c) ++ taken ++ left := by
    rw [List.append_assoc, ← hrecent, recent_eq_drop, Nat.add_zero, List.take_append_drop]
  constructor
  · refine ⟨_, hpassed, ?_⟩
    -- What is left is recent, so that the recent ones of those that are passed over are the rest of the recent ones.
    have hleft : recent c left 0 = left := by
      rw [hrecent, List.length_append] at hlength
      exact recent_of_le (by omega)
    have happend := recent_append c (unread.take (unread.length - c) ++ taken) left 0
    rw [← hpassed, hrecent, hleft, Nat.add_zero] at happend
    exact List.append_cancel_right happend
  · rintro rfl
    unfold outcome? at h
    by_cases hlag : c < unread.length
    · rw [if_pos hlag] at h
      cases h
      refine ⟨Nat.zero_le 1, fun _ heq => ?_⟩
      rw [heq] at hlength
      omega
    · rw [if_neg hlag] at h
      cases h
      cases unread with
      | nil => exact ⟨Nat.zero_le 1, fun hne => absurd rfl hne⟩
      | cons event rest => exact ⟨le_rfl, fun _ => (List.cons_ne_self event rest).symm⟩
  · rintro rfl
    cases h
    cases hcase : recent c unread 0 with
    | nil =>
      rw [hcase, List.length_nil] at hlength
      show 0 = _
      omega
    | cons event rest =>
      rw [hcase, List.length_cons] at hlength
      show 1 = _
      omega
  · rintro rfl
    unfold outcome? at h
    cases hcase : recent c unread 0 with
    | nil =>
      rw [hcase] at h
      cases h
    | cons event rest =>
      rw [hcase] at h
      cases h
      rfl
  · rintro rfl
    cases h
    refine ⟨rfl, ?_⟩
    rw [recent_eq_drop, Nat.add_zero]

end Outcome

namespace Exchange

variable {x x' y : Exchange} {c k : Nat} {act : Traffic} {acts : List Traffic} {unread taken left : List Event}

/-- A subscription has not got to some events yet. -/
def Awaits (x : Exchange) (c k : Nat) (unread : List Event) : Prop :=
  ∃ s, x.subscription? k = some s ∧ x.bus.Awaits c s unread

theorem Awaits.unread_eq {stream : List Event} (h : x.Awaits c k unread) (hsuffix : unread <:+ stream) :
    x.unread k stream = unread := by
  obtain ⟨s, hs, h⟩ := h
  obtain ⟨front, rfl⟩ := hsuffix
  rw [Exchange.unread, backlog, hs, Option.map_some, Option.getD_some, h.backlog, List.length_append,
    Nat.add_sub_cancel, List.drop_left]

/-- What is taken of the unread events of a subscription when something happens, and what is left of them. -/
def outcome? (c k : Nat) (unread : List Event) : Traffic → Option (List Event × List Event)
  | .read other how => if other = k then how.outcome? c unread else some ([], unread)
  | act => some ([], unread ++ act.event?.toList)

/-- **What happens to the events that a subscription has not got to.** What is published is added to them; nothing is taken
away unless the subscription itself reads. -/
theorem step_awaits (h : x.Awaits c k unread) (hk : act ≠ .unsubscribe k) (hs : x.step? act = some (taken, x')) :
    ∃ left, outcome? c k unread act = some (if act.isRead k then taken else [], left) ∧ x'.Awaits c k left := by
  obtain ⟨s, hsome, h⟩ := h
  cases act with
  | publish event =>
    cases hs
    exact ⟨_, rfl, s, hsome, h.publish event⟩
  | emit emitter message =>
    cases hs
    exact ⟨_, rfl, s, hsome, h.publish _⟩
  | subscribe other =>
    dsimp only [step?] at hs
    split_ifs at hs with hfree
    cases hs
    have hne : k ≠ other := by
      rintro rfl
      exact hfree (Option.isSome_of_eq_some hsome)
    refine ⟨_, rfl, s, ?_, ?_⟩
    · show Function.update x.subscription? other _ k = some s
      rw [Function.update_of_ne hne, hsome]
    · rw [show Traffic.event? (.subscribe other) = none from rfl, Option.toList_none, List.append_nil]
      exact h.congr rfl rfl rfl
  | unsubscribe other =>
    obtain ⟨s', -, heq⟩ := Option.map_eq_some_iff.1 hs
    cases heq
    have hne : k ≠ other := fun heq => hk (by rw [heq])
    refine ⟨_, rfl, s, ?_, ?_⟩
    · show Function.update x.subscription? other _ k = some s
      rw [Function.update_of_ne hne, hsome]
    · rw [show Traffic.event? (.unsubscribe other) = none from rfl, Option.toList_none, List.append_nil]
      exact h.congr rfl rfl rfl
  | read other how =>
    obtain ⟨s₁, hs₁, hs⟩ := Option.bind_eq_some_iff.1 hs
    obtain ⟨⟨events, s₂⟩, htake, hs⟩ := Option.bind_eq_some_iff.1 hs
    cases hs
    by_cases hother : other = k
    · subst hother
      obtain rfl : s = s₁ := Option.some.inj (hsome.symm.trans hs₁)
      rcases h.take how with ⟨-, hnone⟩ | ⟨events', left, s', houtcome, htake', h'⟩
      · rw [htake] at hnone
        cases hnone
      · rw [htake] at htake'
        cases htake'
        refine ⟨left, ?_, s₂, ?_, h'⟩
        · rw [outcome?, if_pos rfl, houtcome, Traffic.isRead, decide_eq_true rfl, if_pos rfl]
        · exact Function.update_self ..
    · refine ⟨unread, ?_, s, ?_, h⟩
      · rw [outcome?, if_neg hother, Traffic.isRead, decide_eq_false hother, if_neg Bool.false_ne_true]
      · show Function.update x.subscription? other _ k = some s
        rw [Function.update_of_ne (Ne.symm hother), hsome]

/-- What a subscription can do depends on its unread events only. -/
theorem step_of_outcome (h : x.Awaits c k unread) (hconcerns : act.concerns k = true) (hk : act ≠ .subscribe k)
    (hk' : act ≠ .unsubscribe k) (ho : outcome? c k unread act = some (taken, left)) : (x.step? act).isSome := by
  obtain ⟨s, hsome, h⟩ := h
  cases act with
  | publish | emit => rfl
  | subscribe other =>
    obtain rfl : other = k := of_decide_eq_true hconcerns
    exact absurd rfl hk
  | unsubscribe other =>
    obtain rfl : other = k := of_decide_eq_true hconcerns
    exact absurd rfl hk'
  | read other how =>
    obtain rfl : other = k := of_decide_eq_true hconcerns
    rw [outcome?, if_pos rfl] at ho
    rcases h.take how with ⟨hnone, -⟩ | ⟨events, left', s', -, htake, -⟩
    · rw [ho] at hnone
      cases hnone
    · simp [step?, hsome, htake]

theorem follow_cons (hs : x.step? act = some (taken, x')) (rest : List Traffic) :
    x.follow (act :: rest) = x'.follow rest := by
  rw [follow, hs]
  rfl

theorem follow_append (x : Exchange) (acts acts' : List Traffic) :
    x.follow (acts ++ acts') = (x.follow acts).bind fun x => x.follow acts' := by
  induction acts generalizing x with
  | nil => rfl
  | cons act rest ih =>
    rw [List.cons_append, follow, follow]
    cases x.step? act with
    | none => rfl
    | some result => exact ih result.2

theorem received_cons (hs : x.step? act = some (taken, x')) (rest : List Traffic) :
    x.received k (act :: rest) = (if act.isRead k then taken else []) ++ x'.received k rest := by
  rw [received, hs]
  rfl

theorem emitted_cons (act : Traffic) (acts : List Traffic) :
    Traffic.emitted (act :: acts) = act.event?.toList ++ Traffic.emitted acts := by
  unfold Traffic.emitted
  cases hevent : act.event? with
  | none => rw [List.filterMap_cons_none hevent, Option.toList_none, List.nil_append]
  | some event => rw [List.filterMap_cons_some hevent, Option.toList_some, List.singleton_append]

theorem outcome_of_not_read (hread : act.isRead k = false) :
    outcome? c k unread act = some ([], unread ++ act.event?.toList) := by
  cases act with
  | read other how =>
    have hother : other ≠ k := fun heq => by rw [Traffic.isRead, decide_eq_true heq] at hread; cases hread
    dsimp only [outcome?]
    rw [if_neg hother, show Traffic.event? (.read other how) = none from rfl, Option.toList_none, List.append_nil]
  | _ => rfl

/-- What is taken and what is left is what there was, and what is published, without some of it. -/
theorem outcome_sublist (ho : outcome? c k unread act = some (taken, left)) :
    (taken ++ left).Sublist (unread ++ act.event?.toList) := by
  by_cases hread : act.isRead k = true
  · cases act with
    | read other how =>
      dsimp only [outcome?] at ho
      rw [if_pos (of_decide_eq_true hread)] at ho
      rw [← Reading.recent_of_outcome ho]
      exact (recent_sublist c unread 0).trans (List.sublist_append_left _ _)
    | _ => cases hread
  · rw [outcome_of_not_read (Bool.eq_false_iff.2 hread)] at ho
    cases ho
    exact List.Sublist.refl _

/-- The unread events stay the latest ones of those that there were and those that are published. -/
theorem outcome_suffix (ho : outcome? c k unread act = some (taken, left)) : left <:+ unread ++ act.event?.toList := by
  by_cases hread : act.isRead k = true
  · cases act with
    | read other how =>
      dsimp only [outcome?] at ho
      rw [if_pos (of_decide_eq_true hread)] at ho
      have hrecent := Reading.recent_of_outcome ho
      rw [recent_eq_drop] at hrecent
      rw [show Traffic.event? (.read other how) = none from rfl, Option.toList_none, List.append_nil]
      exact (List.suffix_append taken left).trans (hrecent ▸ List.drop_suffix _ unread)
    | _ => cases hread
  · rw [outcome_of_not_read (Bool.eq_false_iff.2 hread)] at ho
    cases ho
    exact List.suffix_rfl

theorem follow_awaits {stream : List Event} (h : x.Awaits c k unread) (hsuffix : unread <:+ stream)
    (hf : x.follow acts = some x') (hk : .unsubscribe k ∉ acts) :
    ∃ left, x'.Awaits c k left ∧ left <:+ stream ++ Traffic.emitted acts := by
  induction acts generalizing x unread stream with
  | nil =>
    cases hf
    exact ⟨unread, h, by rwa [Traffic.emitted, List.filterMap_nil, List.append_nil]⟩
  | cons act rest ih =>
    obtain ⟨hne, hrest⟩ := not_or.1 (mt List.mem_cons.2 hk)
    obtain ⟨⟨taken, x₁⟩, hs, hf⟩ := Option.bind_eq_some_iff.1 hf
    obtain ⟨left, houtcome, h₁⟩ := step_awaits h (Ne.symm hne) hs
    rw [emitted_cons, ← List.append_assoc]
    refine ih h₁ ?_ hf hrest
    obtain ⟨front, rfl⟩ := hsuffix
    rw [List.append_assoc]
    exact (outcome_suffix houtcome).trans (List.suffix_append front _)

/-- What a subscription receives is among what it has not got to and what is published, in this order. -/
theorem received_sublist (h : x.Awaits c k unread) (hf : x.follow acts = some x') (hk : .unsubscribe k ∉ acts) :
    (x.received k acts).Sublist (unread ++ Traffic.emitted acts) := by
  induction acts generalizing x unread with
  | nil => exact List.nil_sublist _
  | cons act rest ih =>
    obtain ⟨hne, hrest⟩ := not_or.1 (mt List.mem_cons.2 hk)
    obtain ⟨⟨taken, x₁⟩, hs, hf⟩ := Option.bind_eq_some_iff.1 hf
    obtain ⟨left, houtcome, h₁⟩ := step_awaits h (Ne.symm hne) hs
    have hlater := ih h₁ hf hrest
    rw [received_cons hs, emitted_cons, ← List.append_assoc]
    refine (List.Sublist.append_left hlater _).trans ?_
    rw [← List.append_assoc]
    exact (outcome_sublist houtcome).append_right _

/-- **No subscriber affects what another one receives**: two subscriptions on two buses that have not got to the same events
receive the same, whatever happens on the first bus that does not concern them. -/
theorem received_alone (h : x.Awaits c k unread) (h' : y.Awaits c k unread) (hf : x.follow acts = some x')
    (hk : .unsubscribe k ∉ acts) :
    (y.follow (acts.filter (·.concerns k))).isSome ∧
      y.received k (acts.filter (·.concerns k)) = x.received k acts := by
  induction acts generalizing x y unread with
  | nil => exact ⟨rfl, rfl⟩
  | cons act rest ih =>
    obtain ⟨hne, hrest⟩ := not_or.1 (mt List.mem_cons.2 hk)
    obtain ⟨⟨taken, x₁⟩, hs, hf⟩ := Option.bind_eq_some_iff.1 hf
    obtain ⟨left, houtcome, h₁⟩ := step_awaits h (Ne.symm hne) hs
    rw [received_cons hs]
    by_cases hconcerns : act.concerns k = true
    · rw [List.filter_cons_of_pos hconcerns]
      have hsubscribe : act ≠ .subscribe k := by
        rintro rfl
        obtain ⟨s, hsome, -⟩ := h
        simp [step?, hsome] at hs
      have hcan := step_of_outcome h' hconcerns hsubscribe (Ne.symm hne) houtcome
      obtain ⟨⟨taken', y₁⟩, hs'⟩ := Option.isSome_iff_exists.1 hcan
      obtain ⟨left', houtcome', h₁'⟩ := step_awaits h' (Ne.symm hne) hs'
      rw [houtcome] at houtcome'
      obtain ⟨htaken, rfl⟩ := Prod.mk.inj (Option.some.inj houtcome')
      rw [follow_cons hs', received_cons hs', ← htaken]
      obtain ⟨hsome, hsame⟩ := ih h₁ h₁' hf hrest
      exact ⟨hsome, congrArg _ hsame⟩
    · rw [List.filter_cons_of_neg hconcerns]
      have hread : act.isRead k = false := by
        cases act with
        | read other how => exact Bool.eq_false_iff.2 hconcerns
        | _ => rfl
      have hevent : act.event? = none := by
        cases act with
        | publish | emit => exact absurd rfl hconcerns
        | _ => rfl
      have hleft : left = unread := by
        rw [outcome_of_not_read hread, hevent, Option.toList_none, List.append_nil] at houtcome
        exact (Prod.mk.inj (Option.some.inj houtcome)).2.symm
      rw [hread, if_neg Bool.false_ne_true, List.nil_append]
      exact ih (hleft ▸ h₁) h' hf hrest

/-! ### Subscribing -/

theorem step_holds {all : List Event} (h : x.bus.Holds c all) (hs : x.step? act = some (taken, x')) :
    ∃ all', x'.bus.Holds c all' := by
  cases act with
  | publish event =>
    cases hs
    exact ⟨_, h.publish event⟩
  | emit emitter message =>
    cases hs
    exact ⟨_, h.publish _⟩
  | subscribe k =>
    dsimp only [step?] at hs
    split_ifs at hs
    cases hs
    exact ⟨all, h.capacity, h.published, h.kept⟩
  | unsubscribe k =>
    obtain ⟨s, -, heq⟩ := Option.map_eq_some_iff.1 hs
    cases heq
    exact ⟨all, h.capacity, h.published, h.kept⟩
  | read k how =>
    obtain ⟨s, -, hs⟩ := Option.bind_eq_some_iff.1 hs
    obtain ⟨⟨events, s'⟩, -, hs⟩ := Option.bind_eq_some_iff.1 hs
    cases hs
    exact ⟨all, h⟩

theorem follow_holds {all : List Event} (h : x.bus.Holds c all) (hf : x.follow acts = some x') :
    ∃ all', x'.bus.Holds c all' := by
  induction acts generalizing x all with
  | nil =>
    cases hf
    exact ⟨all, h⟩
  | cons act rest ih =>
    obtain ⟨⟨taken, x₁⟩, hs, hf⟩ := Option.bind_eq_some_iff.1 hf
    obtain ⟨all', h'⟩ := step_holds h hs
    exact ih h' hf

/-- A new subscription has got to all events. -/
theorem subscribe_awaits {all : List Event} (h : x.bus.Holds c all) (hs : x.step? (.subscribe k) = some (taken, x')) :
    x'.Awaits c k [] := by
  dsimp only [step?] at hs
  split_ifs at hs
  cases hs
  exact ⟨_, Function.update_self .., h.subscribe⟩

/-- **What subscriptions receive.** Let `c` be the capacity, at least one, rounded up to a power of two. From when a subscription
begins until it ends, what it receives is a subsequence of what is published. Whenever it reads, it passes over some of the
events that it has not got to, of these takes those that fewer than `c` newer ones follow by then, and leaves the others;
nothing else makes it pass over events. And it receives what it would on a bus without any other subscription. -/
theorem event_delivery {capacity : Nat} {before later : List Traffic} {x₀ : Exchange}
    (h₀ : (create capacity).follow before = some x₀) (hs : x₀.step? (.subscribe k) = some (taken, x))
    (hf : x.follow later = some x') (hk : .unsubscribe k ∉ later) :
    (x.received k later).Sublist (Traffic.emitted later) ∧
      (∀ first act rest, later = first ++ act :: rest → ∃ x₁ taken x₂, x.follow first = some x₁ ∧
        x₁.step? act = some (taken, x₂) ∧
        (∀ how, act = .read k how → how.Takes (max capacity 1).nextPowerOfTwo (x₁.unread k (Traffic.emitted first)) taken
          (x₂.unread k (Traffic.emitted first))) ∧
        (act.isRead k = false → x₂.unread k (Traffic.emitted (first ++ [act])) =
          x₁.unread k (Traffic.emitted first) ++ act.event?.toList)) ∧
      ((create capacity).follow (.subscribe k :: later.filter (·.concerns k))).isSome ∧
      (create capacity).received k (.subscribe k :: later.filter (·.concerns k)) = x.received k later := by
  obtain ⟨all, hholds⟩ := follow_holds (EventBus.holds_create capacity) h₀
  have h := subscribe_awaits hholds hs
  refine ⟨received_sublist h hf hk, fun first act rest hlater => ?_, ?_⟩
  · subst hlater
    have hfirst : .unsubscribe k ∉ first := fun hmem => hk (List.mem_append_left _ hmem)
    have hact : act ≠ .unsubscribe k := by
      rintro rfl
      exact hk (List.mem_append_right _ List.mem_cons_self)
    rw [follow_append] at hf
    obtain ⟨x₁, hf₁, hf⟩ := Option.bind_eq_some_iff.1 hf
    obtain ⟨⟨taken₁, x₂⟩, hs₁, -⟩ := Option.bind_eq_some_iff.1 hf
    obtain ⟨unread, h₁, hsuffix⟩ := follow_awaits h (List.nil_suffix (l := [])) hf₁ hfirst
    obtain ⟨left, houtcome, h₂⟩ := step_awaits h₁ hact hs₁
    rw [List.nil_append] at hsuffix
    refine ⟨x₁, taken₁, x₂, hf₁, hs₁, ?_, ?_⟩
    · rintro how rfl
      have hleft : left <:+ unread := by
        have hleft := outcome_suffix houtcome
        rwa [show Traffic.event? (.read k how) = none from rfl, Option.toList_none, List.append_nil] at hleft
      rw [outcome?, if_pos rfl, Traffic.isRead, decide_eq_true rfl, if_pos rfl] at houtcome
      rw [h₁.unread_eq hsuffix, h₂.unread_eq (hleft.trans hsuffix)]
      exact Reading.takes_of_outcome (Nat.pos_of_isPowerOfTwo (Nat.isPowerOfTwo_nextPowerOfTwo _)) houtcome
    · intro hread
      rw [outcome_of_not_read hread] at houtcome
      obtain ⟨-, rfl⟩ := Prod.mk.inj (Option.some.inj houtcome)
      have hstream : Traffic.emitted (first ++ [act]) = Traffic.emitted first ++ act.event?.toList := by
        rw [Traffic.emitted, List.filterMap_append]
        exact congrArg _ (emitted_cons act [] |>.trans (List.append_nil _))
      have hgrown : unread ++ act.event?.toList <:+ Traffic.emitted (first ++ [act]) := by
        obtain ⟨front, hfront⟩ := hsuffix
        exact ⟨front, by rw [hstream, ← hfront, List.append_assoc]⟩
      rw [h₁.unread_eq hsuffix, h₂.unread_eq hgrown]
  · have hs' : (create capacity).step? (.subscribe k) = some ([], _) := rfl
    have h' := subscribe_awaits (EventBus.holds_create capacity) hs'
    rw [follow_cons hs', received_cons hs']
    exact received_alone h h' hf hk

/-! ### A slow subscription -/

/-- An event that is only there to be told from others. -/
def note (number : Nat) : Event :=
  ⟨.nil, .iteration number⟩

/-- A bus that keeps two events, when its second subscription begins. -/
def crowded : Exchange :=
  ((create 2).follow [.subscribe 0, .publish (note 0), .subscribe 1]).getD (create 2)

/-- Three events are published before the second subscription takes any. -/
def bustle : List Traffic :=
  [.publish (note 1), .publish (note 2), .emit ⟨.nil, ⟨5⟩⟩ (.info "three"), .read 0 .tryReceive, .read 1 .tryReceive,
    .publish (note 4), .unsubscribe 0, .read 1 .drain]

/-- The second subscription misses the first of these events, and receives the others. -/
theorem event_delivery_crowded :
    crowded.received 1 bustle = [note 2, ⟨.nil, .nodeEvent ⟨5⟩ (.info "three")⟩, note 4] ∧
      (crowded.received 1 bustle).Sublist (Traffic.emitted bustle) ∧
      (create 2).received 1 (.subscribe 1 :: bustle.filter (·.concerns 1)) = crowded.received 1 bustle := by
  have hbefore : (create 2).follow [.subscribe 0, .publish (note 0)] =
      some (((create 2).follow [.subscribe 0, .publish (note 0)]).getD (create 2)) := rfl
  have hsubscribe : (((create 2).follow [.subscribe 0, .publish (note 0)]).getD (create 2)).step? (.subscribe 1) =
      some ([], crowded) := rfl
  have hlater : (crowded.follow bustle).isSome = true := by decide +kernel
  obtain ⟨x', hf⟩ := Option.isSome_iff_exists.1 hlater
  obtain ⟨hsublist, -, -, halone⟩ := event_delivery hbefore hsubscribe hf (by decide)
  exact ⟨by decide +kernel, hsublist, halone⟩

end Exchange

end Dataflow
