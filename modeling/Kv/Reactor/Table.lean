import Kv.Lib.SwapRemove
import Kv.Protocol.Request.Parser

namespace kv.reactor

open kv.protocol

def POLLIN : UInt16 := 0x001
def POLLERR : UInt16 := 0x008
def POLLHUP : UInt16 := 0x010

/-- A `pollfd` of `poll_fds_`. All of them ask for `POLLIN`. -/
structure PollFd where
  fd : Nat
  revents : UInt16 := 0
  deriving DecidableEq, Repr

/-- The condition under which `run` serves a client. -/
def PollFd.ready (self : PollFd) : Bool := self.revents &&& (POLLIN ||| POLLHUP ||| POLLERR) ≠ 0

/-- `std::unordered_map<int, IncrementalParser>`. -/
abbrev Parsers := Nat → Option IncrementalParser

/-- `emplace` leaves the map alone where the key is already there. -/
def Parsers.emplace (self : Parsers) (fd : Nat) (parser : IncrementalParser) : Parsers :=
  match self fd with
  | some _ => self
  | none => Function.update self fd (some parser)

theorem Parsers.emplace_apply (self : Parsers) (fd : Nat) (parser : IncrementalParser) (fd' : Nat) :
    self.emplace fd parser fd' = if fd' = fd then some ((self fd).getD parser) else self fd' := by
  unfold emplace
  cases hheld : self fd with
  | none => simp [Function.update_apply]
  | some held =>
    by_cases hfd : fd' = fd
    · simp [hfd, hheld]
    · simp [hfd]

def Parsers.erase (self : Parsers) (fd : Nat) : Parsers := Function.update self fd none

/-- What a reactor owns. The first entry of `poll_fds_` is that of the wakeup
    pipe. -/
structure WorkerReactor where
  poll_fds_ : List PollFd
  parsers_ : Parsers := fun _ => none
  pending_clients_ : List Nat := []

/-- What the kernel says to the calls that prepare a client socket: the
    `strerror(errno)` of those that fail. -/
structure Sockets where
  fcntl_getfl : Nat → Option Bytes := fun _ => none
  fcntl_setfl : Nat → Option Bytes := fun _ => none
  setsockopt : Nat → Option Bytes := fun _ => none

def throw_errno (what error : Bytes) : Except Bytes Unit := .error (what ++ ascii ": " ++ error)

def set_nonblocking (sockets : Sockets) (fd : Nat) : Except Bytes Unit :=
  match sockets.fcntl_getfl fd with
  | some error => throw_errno (ascii "fcntl(F_GETFL)") error
  | none =>
    match sockets.fcntl_setfl fd with
    | some error => throw_errno (ascii "fcntl(F_SETFL, O_NONBLOCK)") error
    | none => .ok ()

def set_tcp_nodelay (sockets : Sockets) (fd : Nat) : Except Bytes Unit :=
  match sockets.setsockopt fd with
  | some error => throw_errno (ascii "setsockopt(TCP_NODELAY)") error
  | none => .ok ()

namespace WorkerReactor

/-- The constructor, once the pipe is there. -/
def create (wakeup_read_fd : Nat) : WorkerReactor := { poll_fds_ := [{ fd := wakeup_read_fd }] }

def enqueue_client (self : WorkerReactor) (fd : Nat) : WorkerReactor :=
  { self with pending_clients_ := self.pending_clients_ ++ [fd] }

/-- The `push_back` and the `emplace` for a new client. -/
def register (self : WorkerReactor) (fd : Nat) : WorkerReactor :=
  { self with
    poll_fds_ := self.poll_fds_ ++ [{ fd }]
    parsers_ := self.parsers_.emplace fd {} }

@[simp] theorem register_poll_fds (self : WorkerReactor) (fd : Nat) :
    (self.register fd).poll_fds_ = self.poll_fds_ ++ [{ fd := fd }] := rfl

@[simp] theorem register_parsers (self : WorkerReactor) (fd fd' : Nat) :
    (self.register fd).parsers_ fd' = if fd' = fd then some ((self.parsers_ fd).getD {}) else self.parsers_ fd' :=
  Parsers.emplace_apply ..

@[simp] theorem register_pending (self : WorkerReactor) (fd : Nat) :
    (self.register fd).pending_clients_ = self.pending_clients_ := rfl

/-- The loop of `accept_pending_clients` over the batch it has taken. An
    exception leaves the rest of the batch to nobody. -/
def accept_loop (sockets : Sockets) : List Nat → WorkerReactor → Except Bytes Unit × WorkerReactor
  | [], self => (.ok (), self)
  | fd :: fds, self =>
    match set_nonblocking sockets fd with
    | .error what => (.error what, self)
    | .ok _ =>
      match set_tcp_nodelay sockets fd with
      | .error what => (.error what, self)
      | .ok _ => accept_loop sockets fds (self.register fd)

def accept_pending_clients (sockets : Sockets) (self : WorkerReactor) : Except Bytes Unit × WorkerReactor :=
  accept_loop sockets self.pending_clients_ { self with pending_clients_ := [] }

def close_client (self : WorkerReactor) (poll_index : Nat) : WorkerReactor :=
  match self.poll_fds_[poll_index]? with
  | none => self
  | some entry =>
    { self with
      parsers_ := self.parsers_.erase entry.fd
      poll_fds_ := self.poll_fds_.swapRemove poll_index }

/-- The `for` loop of `run`, with the calls of `service_client` that it makes:
    the index of each and the descriptor found there. `service_client` closes
    the client or not; the loop sees that from the size of the table. -/
def sweep_loop (service_client : WorkerReactor → Nat → WorkerReactor) : Nat → Nat → WorkerReactor →
    Option (List (Nat × Nat) × WorkerReactor)
  | 0, _, _ => none
  | fuel + 1, i, self =>
    match self.poll_fds_[i]? with
    | none => some ([], self)
    | some entry =>
      if entry.ready then
        let served := service_client self i
        let next := if served.poll_fds_.length < self.poll_fds_.length then i else i + 1
        (sweep_loop service_client fuel next served).map fun (calls, final) => ((i, entry.fd) :: calls, final)
      else sweep_loop service_client fuel (i + 1) self

/-- One turn of `run`, with the `revents` that `poll` has filled in: nothing in
    it catches an exception. A turn of the loop over the table moves on or
    shortens the table, so the size of the table bounds its turns. -/
def run_turn (sockets : Sockets) (service_client : WorkerReactor → Nat → WorkerReactor) (self : WorkerReactor) :
    Option (Except Bytes Unit × WorkerReactor) :=
  let (outcome, self) :=
    if self.poll_fds_.head?.any fun pipe => pipe.revents &&& POLLIN ≠ 0 then self.accept_pending_clients sockets
    else (.ok (), self)
  match outcome with
  | .error what => some (.error what, self)
  | .ok _ => (sweep_loop service_client self.poll_fds_.length 1 self).map fun (_, final) => (.ok (), final)

end WorkerReactor

end kv.reactor
