import Kv.Lib.SwapRemove
import Kv.Server.System

namespace kv.server

open kv.protocol

/-- An entry of `poll_fds_` for a client, and whether the last `poll` reported
    something for it. A connection is known by the number of its acceptance; its
    descriptor may be used again once it is closed. -/
structure PollFd where
  fd : Nat
  revents : Bool := false
  deriving DecidableEq

/-- Where a reactor stands in `run`. A drain reads until the pipe is empty; the
    read after that finds the pipe empty, or takes what has come since. -/
inductive WorkerReactor.Pc
  | polling
  | draining
  | drained
  | accepting
  | registering (fds : List Nat)
  | scanning (i : Nat)
  | serving (i : Nat) (again : Bool)
  deriving DecidableEq

/-- The state of a reactor. The entry of the wakeup pipe in `poll_fds_` is left
    out, so that clients are counted from 0; of the pipe only the number of its
    bytes matters. -/
structure WorkerReactor where
  pc : WorkerReactor.Pc := .polling
  pipe : Nat := 0
  pending_clients_ : List Nat := []
  poll_fds_ : List PollFd := []
  deriving DecidableEq

namespace WorkerReactor

def kDrainSize : Nat := 256

/-- One `read` from the wakeup pipe, which holds something. -/
def drain_wakeup_pipe (self : WorkerReactor) : WorkerReactor :=
  { self with pipe := self.pipe - min kDrainSize self.pipe }

/-- The next statement of the reactor, as long as it serves no client, with the
    clients it registers. -/
def step (self : WorkerReactor) : Option (WorkerReactor × List Nat) :=
  match self.pc with
  | .polling => none
  | .draining =>
    let self := self.drain_wakeup_pipe
    some ({ self with pc := if self.pipe = 0 then .drained else .draining }, [])
  | .drained =>
    if self.pipe = 0 then some ({ self with pc := .accepting }, [])
    else some (self.drain_wakeup_pipe, [])
  | .accepting => some ({ self with pc := .registering self.pending_clients_, pending_clients_ := [] }, [])
  | .registering [] => some ({ self with pc := .scanning 0 }, [])
  | .registering (fd :: fds) =>
    some ({ self with pc := .registering fds, poll_fds_ := self.poll_fds_ ++ [{ fd }] }, [fd])
  | .scanning i =>
    match self.poll_fds_[i]? with
    | none => some ({ self with pc := .polling }, [])
    | some entry => some ({ self with pc := if entry.revents then .serving i true else .scanning (i + 1) }, [])
  | .serving _ _ => none

/-- `poll` returns once something is there to report. -/
def poll (self : WorkerReactor) (ready : Nat → Bool) : Option WorkerReactor :=
  if self.pc = .polling ∧ (0 < self.pipe ∨ ∃ entry ∈ self.poll_fds_, ready entry.fd) then
    some { self with
      pc := if 0 < self.pipe then .draining else .scanning 0
      poll_fds_ := self.poll_fds_.map fun entry => { entry with revents := ready entry.fd } }
  else none

/-- Writing one byte to the wakeup pipe, which is dropped if the pipe is full. -/
def wake (capacity : Nat) (self : WorkerReactor) : WorkerReactor :=
  if self.pipe < capacity then { self with pipe := self.pipe + 1 } else self

/-- The client that the reactor serves, its place in `poll_fds_`, and whether
    `service_client` goes on reading from it. -/
def client (self : WorkerReactor) : Option (Nat × Nat × Bool) :=
  match self.pc with
  | .serving i again => (self.poll_fds_[i]?).map fun entry => (entry.fd, i, again)
  | _ => none

def close_client (self : WorkerReactor) (i : Nat) : WorkerReactor :=
  { self with pc := .scanning i, poll_fds_ := self.poll_fds_.swapRemove i }

/-- The clients between the swap of `pending_clients_` and their registration. -/
def fds (self : WorkerReactor) : List Nat :=
  match self.pc with
  | .registering fds => fds
  | _ => []

theorem client_eq_some {reactor : WorkerReactor} {fd i : Nat} {again : Bool}
    (hclient : reactor.client = some (fd, i, again)) :
    reactor.pc = .serving i again ∧ ∃ entry, reactor.poll_fds_[i]? = some entry ∧ entry.fd = fd := by
  unfold client at hclient
  split at hclient
  · rename_i hpc
    obtain ⟨entry, hentry, heq⟩ := Option.map_eq_some_iff.mp hclient
    obtain ⟨rfl, rfl, rfl⟩ : _ ∧ _ ∧ _ := by simpa using heq
    exact ⟨hpc, entry, hentry, rfl⟩
  · simp at hclient

end WorkerReactor

/-- The whole process: reactors over one store, and the threads that hand
    connections to them. An enqueuer between its push and its write remembers
    the reactor that it has to wake. -/
structure KvServer extends State KVStore where
  reactors : Nat → WorkerReactor := fun _ => {}
  enqueuers : Nat → Option Nat := fun _ => none
  accepted : Nat := 0

namespace KvServer

inductive Label
  | enqueue (e w : Nat)
  | wake (e : Nat)
  | poll (w : Nat) (ready : Nat → Bool)
  | step (w : Nat)
  | read (w : Nat) (data : Bytes)
  | eof (w : Nat)
  | again (w : Nat)

inductive Event
  | client (event : server.Event)
  | enqueued (w fd : Nat)
  | registered (w fd : Nat)
  deriving DecidableEq

def setReactor (self : KvServer) (w : Nat) (reactor : WorkerReactor) : KvServer :=
  { self with reactors := Function.update self.reactors w reactor }

/-- A step of a connection, made by the reactor that serves it. -/
def serve (self : KvServer) (w : Nat) (reactor : WorkerReactor) (label : server.Label) :
    Option (KvServer × List Event) :=
  (server.step KVStore.handle_request self.toState label).map fun (state, events) =>
    ({ self.setReactor w reactor with toState := state }, events.map .client)

def step (capacity : Nat) (self : KvServer) : Label → Option (KvServer × List Event)
  | .enqueue e w =>
    match self.enqueuers e with
    | some _ => none
    | none =>
      let reactor := self.reactors w
      some ({ self.setReactor w { reactor with pending_clients_ := reactor.pending_clients_ ++ [self.accepted] } with
        enqueuers := Function.update self.enqueuers e (some w), accepted := self.accepted + 1 },
        [.enqueued w self.accepted])
  | .wake e =>
    match self.enqueuers e with
    | none => none
    | some w =>
      some ({ self.setReactor w ((self.reactors w).wake capacity) with
        enqueuers := Function.update self.enqueuers e none }, [])
  | .poll w ready => ((self.reactors w).poll ready).map fun reactor => (self.setReactor w reactor, [])
  | .step w =>
    match (self.reactors w).client with
    | none => (self.reactors w).step.map fun (reactor, fds) => (self.setReactor w reactor, fds.map (.registered w))
    | some (fd, i, again) =>
      if (self.connections fd).pc = .reading then
        if again then none else some (self.setReactor w { self.reactors w with pc := .scanning (i + 1) }, [])
      else self.serve w (self.reactors w) (.step fd)
  | .read w data =>
    match (self.reactors w).client with
    | some (fd, i, true) =>
      -- A read that fills the buffer is followed by another one.
      self.serve w { self.reactors w with pc := .serving i (data.length = kReadSize) } (.recv fd data)
    | _ => none
  | .eof w =>
    match (self.reactors w).client with
    | some (fd, i, true) => self.serve w ((self.reactors w).close_client i) (.hangup fd)
    | _ => none
  | .again w =>
    match (self.reactors w).client with
    | some (fd, i, true) =>
      if (self.connections fd).pc = .reading then
        some (self.setReactor w { self.reactors w with pc := .scanning (i + 1) }, [])
      else none
    | _ => none

/-- The process after its start, with wakeup pipes of this capacity. -/
def system (capacity : Nat) : Transition.System KvServer Label Event where
  init := { store := {} }
  step := step capacity

/-- What can happen in the process. -/
inductive Move (capacity : Nat) (s : KvServer) : KvServer → List Event → Prop
  | enqueued {e : Nat} (w : Nat) (hfree : s.enqueuers e = none) :
      Move capacity s
        { s.setReactor w { s.reactors w with pending_clients_ := (s.reactors w).pending_clients_ ++ [s.accepted] } with
          enqueuers := Function.update s.enqueuers e (some w), accepted := s.accepted + 1 }
        [.enqueued w s.accepted]
  | woken {e w : Nat} (hwaking : s.enqueuers e = some w) :
      Move capacity s
        { s.setReactor w ((s.reactors w).wake capacity) with enqueuers := Function.update s.enqueuers e none } []
  | polled {w : Nat} {ready : Nat → Bool} {reactor : WorkerReactor}
    (hpoll : (s.reactors w).poll ready = some reactor) :
      Move capacity s (s.setReactor w reactor) []
  | stepped {w : Nat} {reactor : WorkerReactor} {fds : List Nat} (hclient : (s.reactors w).client = none)
      (hstep : (s.reactors w).step = some (reactor, fds)) :
      Move capacity s (s.setReactor w reactor) (fds.map (.registered w))
  | left {w fd i : Nat} {again : Bool} (hclient : (s.reactors w).client = some (fd, i, again))
      (hreading : (s.connections fd).pc = .reading) :
      Move capacity s (s.setReactor w { s.reactors w with pc := .scanning (i + 1) }) []
  | advanced {w fd i : Nat} {again : Bool} {s' : KvServer} {events : List Event}
      (hclient : (s.reactors w).client = some (fd, i, again)) (hreading : (s.connections fd).pc ≠ .reading)
      (hserve : s.serve w (s.reactors w) (.step fd) = some (s', events)) : Move capacity s s' events
  | received {w fd i : Nat} {data : Bytes} {s' : KvServer} {events : List Event}
      (hclient : (s.reactors w).client = some (fd, i, true))
      (hserve : s.serve w { s.reactors w with pc := .serving i (data.length = kReadSize) } (.recv fd data) =
        some (s', events)) : Move capacity s s' events
  | closed {w fd i : Nat} {s' : KvServer} {events : List Event} (hclient : (s.reactors w).client = some (fd, i, true))
      (hserve : s.serve w ((s.reactors w).close_client i) (.hangup fd) = some (s', events)) : Move capacity s s' events

theorem Move.of_step {capacity : Nat} {s s' : KvServer} {label : Label} {events : List Event}
    (hstep : step capacity s label = some (s', events)) : Move capacity s s' events := by
  cases label with
  | enqueue e w =>
    simp only [step] at hstep
    split at hstep
    · simp at hstep
    · rename_i hfree
      obtain ⟨rfl, rfl⟩ := Prod.mk.inj (Option.some.inj hstep)
      exact .enqueued w hfree
  | wake e =>
    simp only [step] at hstep
    split at hstep
    · simp at hstep
    · rename_i w hwaking
      obtain ⟨rfl, rfl⟩ := Prod.mk.inj (Option.some.inj hstep)
      exact .woken hwaking
  | poll w ready =>
    simp only [step, Option.map_eq_some_iff] at hstep
    obtain ⟨reactor, hpoll, hstate⟩ := hstep
    obtain ⟨rfl, rfl⟩ := Prod.mk.inj hstate
    exact .polled hpoll
  | step w =>
    simp only [step] at hstep
    split at hstep
    · rename_i hclient
      obtain ⟨⟨reactor, fds⟩, htaken, hstate⟩ := Option.map_eq_some_iff.mp hstep
      obtain ⟨rfl, rfl⟩ := Prod.mk.inj hstate
      exact .stepped hclient htaken
    · rename_i fd i again hclient
      split at hstep
      · rename_i hreading
        split at hstep
        · simp at hstep
        · obtain ⟨rfl, rfl⟩ := Prod.mk.inj (Option.some.inj hstep)
          exact .left hclient hreading
      · rename_i hreading
        exact .advanced hclient hreading hstep
  | read w data =>
    simp only [step] at hstep
    split at hstep
    · rename_i fd i hclient
      exact .received hclient hstep
    · simp at hstep
  | eof w =>
    simp only [step] at hstep
    split at hstep
    · rename_i fd i hclient
      exact .closed hclient hstep
    · simp at hstep
  | again w =>
    simp only [step] at hstep
    split at hstep
    · rename_i fd i hclient
      split at hstep
      · rename_i hreading
        obtain ⟨rfl, rfl⟩ := Prod.mk.inj (Option.some.inj hstep)
        exact .left hclient hreading
      · simp at hstep
    · simp at hstep

/-- The connection has been closed, and its entry given up. -/
def Closed (s : KvServer) (fd : Nat) : Prop := (s.connections fd).pc = .closed

instance (s : KvServer) : DecidablePred s.Closed := fun _ => inferInstanceAs (Decidable (_ = _))

theorem serve_eq_some {s s' : KvServer} {w : Nat} {reactor : WorkerReactor} {label : server.Label}
    {events : List Event}
    (hserve : s.serve w reactor label = some (s', events)) :
    ∃ state clients, server.step KVStore.handle_request s.toState label = some (state, clients) ∧
      s' = { s.setReactor w reactor with toState := state } ∧ events = clients.map .client := by
  obtain ⟨⟨state, clients⟩, hstep, hstate⟩ := Option.map_eq_some_iff.mp hserve
  obtain ⟨rfl, rfl⟩ := Prod.mk.inj hstate
  exact ⟨state, clients, hstep, rfl, rfl⟩

/-- A connection is closed by a hang-up, and stays so. -/
theorem closed_iff_of_serve {s s' : KvServer} {w : Nat} {reactor : WorkerReactor} {label : server.Label}
    {events : List Event} (hserve : s.serve w reactor label = some (s', events)) (fd : Nat) :
    s'.Closed fd ↔ s.Closed fd ∨ label = .hangup fd := by
  obtain ⟨state, clients, hstep, rfl, -⟩ := serve_eq_some hserve
  exact pc_closed_iff_of_step hstep fd

end KvServer

end kv.server
