import Mathlib
import Sws.Transition

/-! Notifications over websockets. The player raises one flag; the handler thread of each
connection, which never ends, waits for the flag, sends a snapshot of the player and lowers the flag,
whoever else was waiting for it. Snapshots are numbered by the notifications before them. -/
namespace Sws.Wsocket

/-- Where a thread is in the loop of `player_handler`. -/
inductive HandlerAt
  | idle
  /-- Past `if (update)`, before the snapshot is taken and sent. -/
  | tested
  /-- Before `update = false`. -/
  | sent
  deriving DecidableEq, Repr

/-- A connection with its handler thread. -/
structure Connection where
  live : Bool := true
  /-- Whether it was open at the last `player_update`. -/
  notified : Bool := false
  handler : HandlerAt := .idle
  /-- The notifications before the latest snapshot that was sent to it. -/
  snapshot : Option Nat := none
  deriving DecidableEq, Repr

structure State where
  update : Bool := false
  /-- The number of `player_update` calls. -/
  updates : Nat := 0
  connections : List Connection := []
  deriving DecidableEq, Repr

inductive Action
  | onOpen
  | onClose (i : Nat)
  | playerUpdate
  /-- The next statement of the handler of a connection. -/
  | handle (i : Nat)
  deriving DecidableEq, Repr

namespace Connection

/-- The next statement of `player_handler`. Sending to a closed connection only prints a message. -/
def handle (update : Bool) (updates : Nat) (c : Connection) : Connection :=
  match c.handler with
  | .idle => if update then { c with handler := .tested } else c
  | .tested => { c with handler := .sent, snapshot := if c.live then some updates else c.snapshot }
  | .sent => { c with handler := .idle }

/-- Open now and at the last notification. -/
def Entitled (c : Connection) : Prop := c.live = true ∧ c.notified = true

/-- A snapshot taken at or after the last notification was sent. -/
def Served (updates : Nat) (c : Connection) : Prop := ∃ k, c.snapshot = some k ∧ updates ≤ k

/-- Nothing is owed to the connection, or its handler is about to send. -/
def Settled (updates : Nat) (c : Connection) : Prop :=
  c.Entitled → c.Served updates ∨ c.handler = .tested

@[simp] theorem live_handle (update : Bool) (updates : Nat) (c : Connection) :
    (c.handle update updates).live = c.live := by
  cases state : c.handler <;> simp only [handle, state]
  split <;> rfl

@[simp] theorem notified_handle (update : Bool) (updates : Nat) (c : Connection) :
    (c.handle update updates).notified = c.notified := by
  cases state : c.handler <;> simp only [handle, state]
  split <;> rfl

/-- No statement of its own handler takes anything away from a connection. -/
theorem settled_handle {update : Bool} {updates : Nat} {c : Connection} (settled : c.Settled updates) :
    (c.handle update updates).Settled updates := by
  intro entitled
  have before : c.Entitled := by simpa [Entitled] using entitled
  cases state : c.handler with
  | idle =>
    cases update with
    | false => simpa [handle, state] using settled before
    | true => simp [handle, state]
  | tested => exact .inl ⟨updates, by simp [handle, state, before.1], Nat.le_refl _⟩
  | sent =>
    have served := (settled before).resolve_right (by simp [state])
    left
    simpa [handle, state, Served] using served

end Connection

def step : Steps State Action
  | s, .onOpen => some { s with connections := s.connections ++ [{}] }
  | s, .onClose i =>
    s.connections[i]?.map fun c =>
      { s with connections := s.connections.set i { c with live := false } }
  | s, .playerUpdate => some
      { update := true
        updates := s.updates + 1
        connections := s.connections.map fun c => { c with notified := c.live } }
  | s, .handle i =>
    s.connections[i]?.map fun c =>
      { s with
        update := if c.handler = .sent then false else s.update
        connections := s.connections.set i (c.handle s.update s.updates) }

def initial : State := {}

/-- In a quiet state nothing is owed: with the flag down and every handler outside its loop's body,
each connection open now and at the last notification has been sent a snapshot since. -/
def Delivered (s : State) : Prop :=
  s.update = false → (∀ c ∈ s.connections, c.handler = .idle) →
    ∀ c ∈ s.connections, c.Entitled → c.Served s.updates

/-- A handler that lowers the flag: everybody entitled has been served or is about to be. -/
def Careful (s : State) : Action → Prop
  | .handle i => (∃ c, s.connections[i]? = some c ∧ c.handler = .sent) → s.update = true →
      ∀ c ∈ s.connections, c.Settled s.updates
  | _ => True

/-- While the flag is down, nobody is owed a snapshot that no handler is about to send. -/
def Attended (s : State) : Prop :=
  s.update = false → ∀ c ∈ s.connections, c.Settled s.updates

theorem attended_step (s : State) (a : Action) (t : State) (attended : Attended s)
    (careful : Careful s a) (taken : step s a = some t) : Attended t := by
  cases a with
  | onOpen =>
    cases taken
    intro down c member
    rcases List.mem_append.mp member with old | new
    · exact attended down c old
    · rw [List.mem_singleton.mp new]
      exact fun entitled => absurd entitled.2 (by decide)
  | onClose i =>
    obtain ⟨c, held, rfl⟩ := Option.map_eq_some_iff.mp taken
    intro down d member
    rcases List.mem_or_eq_of_mem_set member with old | rfl
    · exact attended down d old
    · exact fun entitled => absurd entitled.1 Bool.false_ne_true
  | playerUpdate =>
    cases taken
    exact fun down => absurd down Bool.noConfusion
  | handle i =>
    obtain ⟨c, held, rfl⟩ := Option.map_eq_some_iff.mp taken
    intro down
    have settled : ∀ d ∈ s.connections, d.Settled s.updates := by
      cases flag : s.update with
      | false => exact attended flag
      | true =>
        have lowering : c.handler = .sent := by simpa [flag] using down
        exact careful ⟨c, held, lowering⟩ flag
    intro d member
    rcases List.mem_or_eq_of_mem_set member with old | rfl
    · exact settled d old
    · exact Connection.settled_handle (settled c (List.mem_of_getElem? held))

theorem delivered_of_attended {s : State} (attended : Attended s) : Delivered s := by
  intro down quiet c member entitled
  refine (attended down c member entitled).resolve_right ?_
  rw [quiet c member]
  decide

theorem attended_run {actions : List Action} {s : State} (careful : step.Along Careful initial actions)
    (reached : step.run initial actions = some s) : Attended s :=
  Steps.preserved_along attended_step careful reached fun _ _ member => absurd member List.not_mem_nil

/-! ### The condition is exact -/

/-- With the flag down, somebody is owed a snapshot that no handler is about to send. -/
def Lost (s : State) : Prop :=
  s.update = false ∧ ∃ (i : Nat) (c : Connection), s.connections[i]? = some c ∧ ¬ c.Settled s.updates

/-- The steps of handlers. -/
def Action.own : Action → Prop
  | .handle _ => True
  | _ => False

/-- While the flag is down, a handler only finishes what it has begun. -/
theorem settled_of_handle {updates : Nat} {c : Connection}
    (settled : (c.handle false updates).Settled updates) (idle : c.handler ≠ .tested) :
    c.Settled updates := by
  intro entitled
  left
  have after := settled (by simpa [Connection.Entitled] using entitled)
  cases state : c.handler with
  | tested => exact absurd state idle
  | idle => simpa [Connection.handle, state, Connection.Served] using after
  | sent => simpa [Connection.handle, state, Connection.Served] using after

theorem lost_step (s : State) (a : Action) (t : State) (lost : Lost s) (own : a.own)
    (taken : step s a = some t) : Lost t := by
  obtain ⟨down, j, d, owed, unsettled⟩ := lost
  cases a with
  | handle i =>
    obtain ⟨c, held, rfl⟩ := Option.map_eq_some_iff.mp taken
    refine ⟨by simp [down], j, ?_⟩
    by_cases same : i = j
    · subst same
      cases held.symm.trans owed
      have inside := (List.getElem?_eq_some_iff.mp held).1
      refine ⟨_, List.getElem?_set_self inside, fun settled => unsettled ?_⟩
      rw [down] at settled
      exact settled_of_handle settled fun tested => unsettled fun _ => .inr tested
    · exact ⟨d, by rw [List.getElem?_set_ne same, owed], unsettled⟩
  | _ => cases own

/-- How much of its loop's body a handler still has before it. -/
def Connection.ahead (c : Connection) : Nat :=
  match c.handler with
  | .idle => 0
  | .tested => 2
  | .sent => 1

def State.ahead (s : State) : Nat := (s.connections.map Connection.ahead).sum

/-- A handler outside idleness comes closer to it. -/
theorem closer {s : State} (busy : ¬ ∀ c ∈ s.connections, c.handler = .idle) :
    ∃ a t, a.own ∧ step s a = some t ∧ t.ahead < s.ahead := by
  push Not at busy
  obtain ⟨c, member, active⟩ := busy
  obtain ⟨before, after, split⟩ := List.append_of_mem member
  have taken : step s (.handle before.length) = some
      { s with
        update := if c.handler = .sent then false else s.update
        connections := before ++ c.handle s.update s.updates :: after } := by
    simp [step, split]
  refine ⟨.handle before.length, _, trivial, taken, ?_⟩
  have less : (c.handle s.update s.updates).ahead < c.ahead := by
    cases state : c.handler with
    | idle => exact absurd state active
    | tested => simp [Connection.handle, Connection.ahead, state]
    | sent => simp [Connection.handle, Connection.ahead, state]
  simpa [State.ahead, split] using less

/-- A flag lowered too early is never made up for: without another notification the handlers come
to rest, and somebody has not been served. -/
theorem not_delivered_of_lost {s : State} (lost : Lost s) :
    ∃ t, step.Reaches Action.own s t ∧ ¬ Delivered t := by
  obtain ⟨t, reached, still, rest⟩ := Steps.reaches_goal step Action.own Lost
    (fun t => ∀ c ∈ t.connections, c.handler = .idle) State.ahead
    (fun u kept busy => by
      obtain ⟨a, t, own, taken, less⟩ := closer busy
      exact ⟨a, t, own, taken, lost_step u a t kept own taken, less⟩) lost
  refine ⟨t, reached, fun delivered => ?_⟩
  obtain ⟨down, i, c, held, owed⟩ := still
  exact owed fun entitled => .inl (delivered down rest c (List.mem_of_getElem? held) entitled)

/-- An action that is not careful loses a snapshot. -/
theorem lost_of_careless {s t : State} {a : Action} (careless : ¬ Careful s a)
    (taken : step s a = some t) : Lost t := by
  cases a with
  | handle i =>
    simp only [Careful] at careless
    push Not at careless
    obtain ⟨⟨c, held, lowering⟩, -, d, member, unsettled⟩ := careless
    obtain ⟨e, same, rfl⟩ := Option.map_eq_some_iff.mp taken
    cases held.symm.trans same
    obtain ⟨j, inside, rfl⟩ := List.getElem_of_mem member
    refine ⟨by simp [lowering], j, ?_⟩
    by_cases self : i = j
    · subst self
      cases (List.getElem?_eq_getElem inside).symm.trans held
      refine ⟨_, List.getElem?_set_self inside, fun settled => unsettled fun entitled => ?_⟩
      have after := settled (by simpa [Connection.Entitled] using entitled)
      simpa [Connection.handle, lowering, Connection.Served] using after
    · exact ⟨_, by rw [List.getElem?_set_ne self, List.getElem?_eq_getElem inside], unsettled⟩
  | _ => exact absurd trivial careless

/-- **One flag for all connections.** In every run in which a handler lowers the raised flag only
when each connection open now and at the last notification has been sent a snapshot since, or its
handler is about to send one, every state has delivered what it owes. Where a handler lowers the
flag otherwise, the handlers alone lead to a state that has not. -/
theorem notifications_delivered_of_careful {actions : List Action} {s : State}
    (reached : step.run initial actions = some s) :
    (step.Along Careful initial actions → Delivered s) ∧
    ∀ a t, ¬ Careful s a → step s a = some t → ∃ u, step.Reaches Action.own t u ∧ ¬ Delivered u :=
  ⟨fun careful => delivered_of_attended (attended_run careful reached),
    fun _ _ careless taken => not_delivered_of_lost (lost_of_careless careless taken)⟩

theorem single_client_delivered :
    Delivered { updates := 1, connections := [{ notified := true, snapshot := some 1 }] } := by
  have reached : step.run initial [.onOpen, .playerUpdate, .handle 0, .handle 0, .handle 0] =
      some { updates := 1, connections := [{ notified := true, snapshot := some 1 }] } := rfl
  refine (notifications_delivered_of_careful reached).1 ⟨trivial, trivial, ?_, ?_, ?_, trivial⟩
  · rintro ⟨c, held, lowering⟩
    cases held
    cases lowering
  · rintro ⟨c, held, lowering⟩
    cases held
    cases lowering
  · intro _ _ c member
    cases List.mem_singleton.mp member
    exact fun _ => .inl ⟨1, rfl, Nat.le_refl 1⟩

/-- Two clients: the handler of the first serves the first and lowers the flag for both. -/
theorem second_client_not_delivered :
    ¬ ∀ (actions : List Action) (s : State), step.run initial actions = some s → Delivered s := by
  intro all
  have delivered := all [.onOpen, .onOpen, .playerUpdate, .handle 0, .handle 0, .handle 0]
    { updates := 1, connections := [{ notified := true, snapshot := some 1 }, { notified := true }] } rfl
  obtain ⟨k, sent, -⟩ := delivered rfl (by decide) { notified := true } (by decide) ⟨rfl, rfl⟩
  cases sent

end Sws.Wsocket
