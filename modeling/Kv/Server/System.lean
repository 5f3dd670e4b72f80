import Kv.Lib.Transition
import Kv.Protocol.Request.Parser
import Kv.Server.HandleRequest

namespace kv.server

open kv.protocol

/-- Where the service of a connection stands: waiting for `read`, in the drain
    loop, about to execute a request, or about to write an answer. -/
inductive Pc
  | reading
  | draining
  | executing (req : Request)
  | replying (bytes : Bytes)
  | closed
  deriving DecidableEq

@[ext]
structure Connection where
  pc : Pc := .reading
  parser : IncrementalParser := {}
  req : Request := ⟨.Ping, [], []⟩
  deriving DecidableEq

/-- A server with any number of connections over one store. Which reactor owns
    a connection does not matter here: reactors share nothing but the store. -/
structure State (σ : Type) where
  connections : Nat → Connection := fun _ => {}
  store : σ

inductive Label
  | recv (t : Nat) (data : Bytes)
  | hangup (t : Nat)
  | step (t : Nat)

inductive Event
  | received (t : Nat) (data : Bytes)
  | invoked (t : Nat) (req : Request)
  | executed (t : Nat) (req : Request)
  | sent (t : Nat) (bytes : Bytes)
  deriving DecidableEq

/-- A `PING` does not concern the store, so its execution is not an event. -/
def storeEvent (req : Request) (event : Event) : List Event :=
  if req.command = .Ping then [] else [event]

variable {σ : Type} (handle_request : σ → Request → Bytes × σ)

/-- The next statement of `service_client` on a connection. -/
def Connection.step (t : Nat) (self : Connection) (store : σ) : Option (Connection × σ × List Event) :=
  match self.pc with
  | .reading => none
  | .draining =>
    match self.parser.try_parse_request self.req with
    | (.Incomplete, req, parser) => some ({ pc := .reading, parser, req }, store, [])
    | (.Error, req, parser) =>
      some ({ pc := .replying (encode_error_response parser.error_message_), parser, req }, store, [])
    | (.Complete, req, parser) =>
      some ({ pc := .executing req, parser, req }, store, storeEvent req (.invoked t req))
  | .executing req =>
    some ({ self with pc := .replying (handle_request store req).1 }, (handle_request store req).2,
      storeEvent req (.executed t req))
  | .replying bytes => some ({ self with pc := .draining }, store, [.sent t bytes])
  | .closed => none

/-- `read` returned `data`, and every drain loop starts with a fresh request. -/
def Connection.recv (self : Connection) (data : Bytes) : Option Connection :=
  if self.pc = .reading ∧ 0 < data.length ∧ data.length ≤ kReadSize then
    some { pc := .draining, parser := self.parser.feed data, req := ⟨.Ping, [], []⟩ }
  else none

def Connection.hangup (self : Connection) : Option Connection :=
  if self.pc = .reading then some { self with pc := .closed } else none

def State.setConnection (s : State σ) (t : Nat) (connection : Connection) : State σ :=
  { s with connections := Function.update s.connections t connection }

def step (s : State σ) : Label → Option (State σ × List Event)
  | .recv t data =>
    ((s.connections t).recv data).map fun connection => (s.setConnection t connection, [.received t data])
  | .hangup t => (s.connections t).hangup.map fun connection => (s.setConnection t connection, [])
  | .step t =>
    ((s.connections t).step handle_request t s.store).map fun (connection, store, events) =>
      ({ s.setConnection t connection with store }, events)

section Closed

variable {handle_request} {self self' : Connection}

theorem Connection.open_of_step {t : Nat} {store store' : σ} {events : List Event}
    (hstep : self.step handle_request t store = some (self', store', events)) :
    self.pc ≠ .closed ∧ self'.pc ≠ .closed := by
  unfold Connection.step at hstep
  cases hpc : self.pc with
  | reading => simp [hpc] at hstep
  | closed => simp [hpc] at hstep
  | draining =>
    simp only [hpc] at hstep
    split at hstep <;> (obtain ⟨rfl, -⟩ := Prod.mk.inj (Option.some.inj hstep); exact ⟨nofun, nofun⟩)
  | executing req =>
    simp only [hpc] at hstep
    obtain ⟨rfl, -⟩ := Prod.mk.inj (Option.some.inj hstep)
    exact ⟨nofun, nofun⟩
  | replying bytes =>
    simp only [hpc] at hstep
    obtain ⟨rfl, -⟩ := Prod.mk.inj (Option.some.inj hstep)
    exact ⟨nofun, nofun⟩

theorem Connection.open_of_recv {data : Bytes} (hrecv : self.recv data = some self') :
    self.pc ≠ .closed ∧ self'.pc ≠ .closed := by
  unfold Connection.recv at hrecv
  split at hrecv
  · rename_i hready
    obtain rfl := Option.some.inj hrecv
    exact ⟨by simp [hready.1], nofun⟩
  · simp at hrecv

theorem Connection.pc_of_hangup (hhangup : self.hangup = some self') : self'.pc = .closed := by
  unfold Connection.hangup at hhangup
  split at hhangup
  · obtain rfl := Option.some.inj hhangup
    rfl
  · simp at hhangup

/-- A connection is closed by a hang-up, and stays so. -/
theorem pc_closed_iff_of_step {s s' : State σ} {label : Label} {events : List Event}
    (hstep : step handle_request s label = some (s', events)) (t : Nat) :
    (s'.connections t).pc = .closed ↔ (s.connections t).pc = .closed ∨ label = .hangup t := by
  have hset {t' : Nat} {connection : Connection} (hlabel : label ≠ .hangup t)
      (hopen : (s.connections t').pc ≠ .closed ∧ connection.pc ≠ .closed) :
      ((s.setConnection t' connection).connections t).pc = .closed ↔
        (s.connections t).pc = .closed ∨ label = .hangup t := by
    by_cases heq : t = t'
    · subst heq
      simp [State.setConnection, hopen, hlabel]
    · simp [State.setConnection, Function.update_of_ne heq, hlabel]
  cases label with
  | recv t' data =>
    obtain ⟨connection, hrecv, hstate⟩ := Option.map_eq_some_iff.mp hstep
    obtain ⟨rfl, -⟩ := Prod.mk.inj hstate
    exact hset nofun (Connection.open_of_recv hrecv)
  | step t' =>
    obtain ⟨taken, htaken, hstate⟩ := Option.map_eq_some_iff.mp hstep
    obtain ⟨rfl, -⟩ := Prod.mk.inj hstate
    exact hset nofun (Connection.open_of_step htaken)
  | hangup t' =>
    obtain ⟨connection, hhangup, hstate⟩ := Option.map_eq_some_iff.mp hstep
    obtain ⟨rfl, -⟩ := Prod.mk.inj hstate
    by_cases heq : t = t'
    · subst heq
      simp [State.setConnection, Connection.pc_of_hangup hhangup]
    · have hlabel : ¬ t' = t := fun h => heq h.symm
      simp [State.setConnection, Function.update_of_ne heq, hlabel]

end Closed

/-- One `kvserver` over a store that starts out as `empty`. -/
def system (empty : σ) : Transition.System (State σ) Label Event where
  init := { store := empty }
  step := step handle_request

end kv.server
