import Kv.Lib.Transition
import Kv.Protocol.Request.Drain
import Kv.Reactor.Table
import Kv.Server.HandleRequest

namespace kv.reactor

open kv.protocol

/-- What a descriptor number stands for in the process. -/
inductive Owner
  | free
  | pipe
  | client
  | other
  deriving DecidableEq

/-- A reactor, the batch that `accept_pending_clients` is registering, and the
    open descriptors of the process. -/
structure State where
  worker : WorkerReactor
  fds : List Nat := []
  kernel : Nat → Owner
  exception : Option Bytes := none

/-- `accepted` is a client of this reactor; `opened` and `closed` are what the
    rest of the process does. -/
inductive Label
  | accepted (fd : Nat)
  | opened (fd : Nat)
  | closed (fd : Nat)
  | poll (revents : Nat → UInt16)
  | swap
  | register
  | read (i : Nat) (data : Bytes)
  | close (i : Nat)

inductive Event
  | accepted (fd : Nat)
  | registered (fd : Nat) (parser : Option IncrementalParser)
  | read (fd : Nat) (data : Bytes) (results : List ParseResult)
  | closed (fd : Nat)
  deriving DecidableEq

def State.setOwner (s : State) (fd : Nat) (owner : Owner) : State :=
  { s with kernel := Function.update s.kernel fd owner }

/-- A read of `service_client` and the drain loop after it. `at` throws where the
    map has no parser; a drain loop that does not end is no step. -/
def State.read (s : State) (fd : Nat) (data : Bytes) : Option (State × List Event) :=
  match s.worker.parsers_ fd with
  | none => some ({ s with exception := some (ascii "unordered_map::at") }, [])
  | some parser =>
    match (parser.feed data).drain ((parser.feed data).buffer_.length + 1) ⟨.Ping, [], []⟩ with
    | none => none
    | some (results, parser) =>
      let parsers := Function.update s.worker.parsers_ fd (some parser)
      some ({ s with worker := { s.worker with parsers_ := parsers } }, [.read fd data results])

/-- What can happen, one statement after the other. The kernel hands out no
    number that is still open; `fcntl` and `setsockopt` succeed. -/
def step (s : State) (label : Label) : Option (State × List Event) :=
  if s.exception.isSome then none
  else
    match label with
    | .accepted fd =>
      if s.kernel fd = .free then
        some ({ s.setOwner fd .client with worker := s.worker.enqueue_client fd }, [.accepted fd])
      else none
    | .opened fd => if s.kernel fd = .free then some (s.setOwner fd .other, []) else none
    | .closed fd => if s.kernel fd = .other then some (s.setOwner fd .free, []) else none
    | .poll revents =>
      let poll_fds := s.worker.poll_fds_.map fun entry => { entry with revents := revents entry.fd }
      some ({ s with worker := { s.worker with poll_fds_ := poll_fds } }, [])
    | .swap =>
      if s.fds = [] then
        some ({ s with worker := { s.worker with pending_clients_ := [] }, fds := s.worker.pending_clients_ }, [])
      else none
    | .register =>
      match s.fds with
      | [] => none
      | fd :: fds =>
        let worker := s.worker.register fd
        some ({ s with worker, fds }, [.registered fd (worker.parsers_ fd)])
    | .read i data =>
      match s.worker.poll_fds_[i]? with
      | none => none
      | some entry => if i ≠ 0 ∧ 0 < data.length ∧ data.length ≤ kReadSize then s.read entry.fd data else none
    | .close i =>
      match s.worker.poll_fds_[i]? with
      | none => none
      | some entry =>
        if i ≠ 0 then
          some ({ s.setOwner entry.fd .free with worker := s.worker.close_client i }, [.closed entry.fd])
        else none

/-- A reactor with this pipe. -/
def system (wakeup_read_fd wakeup_write_fd : Nat) : Transition.System State Label Event where
  init :=
    { worker := .create wakeup_read_fd
      kernel := fun fd => if fd = wakeup_read_fd ∨ fd = wakeup_write_fd then .pipe else .free }
  step := step

end kv.reactor
