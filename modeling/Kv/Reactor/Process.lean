import Kv.Reactor.System
import Kv.Server.Reactor

namespace kv.process

open kv.protocol kv.reactor

/-- Where a reactor stands in `run`, with the local variables of the function that
    it is in. Indices count the entry of the wakeup pipe, so clients start at 1. -/
inductive Pc
  | polling
  | draining
  | drained
  | accepting
  | registering (fds : List Nat)
  | scanning (i : Nat)
  | serving (i fd : Nat) (again : Bool) (pc : server.Pc) (req : Request)
  deriving DecidableEq

/-- A reactor and the number of bytes in its wakeup pipe. -/
structure Worker where
  table : WorkerReactor
  pc : Pc := .polling
  pipe : Nat := 0

namespace Worker

def drain_wakeup_pipe (self : Worker) : Worker :=
  { self with pipe := self.pipe - min server.WorkerReactor.kDrainSize self.pipe }

/-- The next statement of the reactor, as long as it serves no client, with the
    descriptors it registers. `fcntl` and `setsockopt` succeed. -/
def step (self : Worker) : Option (Worker × List Nat) :=
  match self.pc with
  | .polling => none
  | .draining =>
    let self := self.drain_wakeup_pipe
    some ({ self with pc := if self.pipe = 0 then .drained else .draining }, [])
  | .drained =>
    if self.pipe = 0 then some ({ self with pc := .accepting }, [])
    else some (self.drain_wakeup_pipe, [])
  | .accepting =>
    some ({ self with
      pc := .registering self.table.pending_clients_, table := { self.table with pending_clients_ := [] } }, [])
  | .registering [] => some ({ self with pc := .scanning 1 }, [])
  | .registering (fd :: fds) => some ({ self with pc := .registering fds, table := self.table.register fd }, [fd])
  | .scanning i =>
    match self.table.poll_fds_[i]? with
    | none => some ({ self with pc := .polling }, [])
    | some entry =>
      some ({ self with
        pc := if entry.ready then .serving i entry.fd true .reading ⟨.Ping, [], []⟩ else .scanning (i + 1) }, [])
  | .serving .. => none

/-- `poll` returns once the pipe or a client has something to report. -/
def poll (self : Worker) (revents : Nat → UInt16) : Option Worker :=
  match self.pc, self.table.poll_fds_ with
  | .polling, pipe :: clients =>
    let pipe := { pipe with revents := if 0 < self.pipe then POLLIN else 0 }
    let clients := clients.map fun entry => { entry with revents := revents entry.fd }
    if 0 < self.pipe ∨ clients.any PollFd.ready then
      some { self with
        pc := if pipe.revents &&& POLLIN ≠ 0 then .draining else .scanning 1
        table := { self.table with poll_fds_ := pipe :: clients } }
    else none
  | _, _ => none

def wake (capacity : Nat) (self : Worker) : Worker :=
  if self.pipe < capacity then { self with pipe := self.pipe + 1 } else self

end Worker

/-- The whole process with the descriptors it has open. `crashed` is an exception
    that leaves a reactor's thread. -/
structure Process where
  workers : Nat → Worker
  enqueuers : Nat → Option Nat := fun _ => none
  kernel : Nat → Owner
  store : KVStore := {}
  crashed : Bool := false

inductive Label
  | accept (e w fd : Nat)
  | wake (e : Nat)
  | poll (w : Nat) (revents : Nat → UInt16)
  | step (w : Nat)
  | read (w : Nat) (data : Bytes)
  | eof (w : Nat)
  | again (w : Nat)
  | opened (fd : Nat)
  | closed (fd : Nat)

namespace Process

def setWorker (self : Process) (w : Nat) (worker : Worker) : Process :=
  { self with workers := Function.update self.workers w worker }

def setOwner (self : Process) (fd : Nat) (owner : Owner) : Process :=
  { self with kernel := Function.update self.kernel fd owner }

/-- Where `service_client` has got to: the parser of the descriptor is in the map,
    the rest are local variables. -/
def serve (self : Process) (w i fd : Nat) (again : Bool) (connection : server.Connection) : Process :=
  let table := (self.workers w).table
  self.setWorker w { self.workers w with
    table := { table with parsers_ := Function.update table.parsers_ fd (some connection.parser) }
    pc := .serving i fd again connection.pc connection.req }

/-- What can happen, with the events of a connection under its descriptor. The
    kernel hands out no number that is still open. -/
def step (capacity : Nat) (self : Process) (label : Label) : Option (Process × List server.KvServer.Event) :=
  if self.crashed then none
  else
    match label with
    | .accept e w fd =>
      if self.enqueuers e = none ∧ self.kernel fd = .free then
        let worker := self.workers w
        some ({ (self.setWorker w { worker with table := worker.table.enqueue_client fd }).setOwner fd .client with
          enqueuers := Function.update self.enqueuers e (some w) }, [.enqueued w fd])
      else none
    | .wake e =>
      match self.enqueuers e with
      | none => none
      | some w =>
        some ({ self.setWorker w ((self.workers w).wake capacity) with
          enqueuers := Function.update self.enqueuers e none }, [])
    | .poll w revents => ((self.workers w).poll revents).map fun worker => (self.setWorker w worker, [])
    | .step w =>
      match (self.workers w).pc with
      | .serving i fd again pc req =>
        if pc = .reading then
          if again then none else some (self.setWorker w { self.workers w with pc := .scanning (i + 1) }, [])
        else
          match (self.workers w).table.parsers_ fd with
          | none => none
          | some parser =>
            (server.Connection.step KVStore.handle_request fd ⟨pc, parser, req⟩ self.store).map
              fun (connection, store, events) =>
                ({ self.serve w i fd again connection with store }, events.map .client)
      | _ => (self.workers w).step.map fun (worker, fds) => (self.setWorker w worker, fds.map (.registered w))
    | .read w data =>
      match (self.workers w).pc with
      | .serving i fd true .reading req =>
        -- `parsers_.at(fd)` throws where there is none.
        match (self.workers w).table.parsers_ fd with
        | none => some ({ self with crashed := true }, [])
        | some parser =>
          (server.Connection.recv ⟨.reading, parser, req⟩ data).map fun connection =>
            (self.serve w i fd (data.length = kReadSize) connection, [.client (.received fd data)])
      | _ => none
    | .eof w =>
      match (self.workers w).pc with
      | .serving i fd true .reading _ =>
        some ((self.setWorker w { self.workers w with
          table := (self.workers w).table.close_client i, pc := .scanning i }).setOwner fd .free, [])
      | _ => none
    | .again w =>
      match (self.workers w).pc with
      | .serving i _ true .reading _ => some (self.setWorker w { self.workers w with pc := .scanning (i + 1) }, [])
      | _ => none
    | .opened fd => if self.kernel fd = .free then some (self.setOwner fd .other, []) else none
    | .closed fd => if self.kernel fd = .other then some (self.setOwner fd .free, []) else none

/-- The process after its start: the read end of each reactor's pipe, and the
    numbers in use. -/
def system (capacity : Nat) (pipes : Nat → Nat) (inUse : Nat → Bool) :
    Transition.System Process Label server.KvServer.Event where
  init :=
    { workers := fun w => { table := .create (pipes w) }
      kernel := fun fd => if inUse fd then .other else .free }
  step := step capacity

end Process

end kv.process
