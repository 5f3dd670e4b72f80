import Kv.Lib.Transition
import Kv.Router.Exchange
import Kv.Router.Router

namespace kv.router

open kv.protocol

/-- Where a thread stands in the body of the loop over the preference list. -/
inductive Phase
  | check
  | connect
  | forward
  | await (bytes : Bytes)
  | failed
  deriving DecidableEq

/-- The local variables of `route_write` and `route_read`. The node of the
    current iteration is the first one still to do. -/
structure Routing where
  preference_list : List Bytes
  todo : List Bytes
  phase : Phase := .check
  first_success : Option Response := none
  deriving DecidableEq

inductive Pc
  | reading
  | draining
  | routing (r : Routing)
  | replying (bytes : Bytes)
  | closed
  deriving DecidableEq

/-- A cached connection: the incarnation of the node it was opened to, and the
    parser that the node keeps for it. -/
structure BackendConn where
  epoch : Nat
  parser : IncrementalParser := {}
  deriving DecidableEq

/-- A thread in `handle_client`. -/
structure Thread where
  pc : Pc := .reading
  parser : IncrementalParser := {}
  req : Request := ⟨.Ping, [], []⟩
  backend_conns : Bytes → Option BackendConn := fun _ => none

/-- A backend node, which loses its store and its connections in a restart. -/
structure Node where
  up : Bool := true
  epoch : Nat := 0
  store : KVStore := {}

/-- The heartbeat thread: the rest of its sweep, and the ping in progress. -/
inductive Heartbeat
  | sweeping (todo : List NodeAddress)
  | pinging (addr : NodeAddress) (todo : List NodeAddress)
  | marking (addr : NodeAddress) (up : Bool) (todo : List NodeAddress)

/-- What the threads share: the liveness flags and the nodes themselves. -/
structure Shared where
  alive_ : Liveness
  nodes : Bytes → Node := fun _ => {}

structure State where
  threads : Nat → Thread := fun _ => {}
  shared : Shared
  heartbeat : Heartbeat := .sweeping []

inductive Event
  | received (t : Nat) (data : Bytes)
  | invoked (t : Nat) (req : Request)
  | executed (node_id : Bytes) (t : Nat) (req : Request)
  | returned (t : Nat) (req : Request) (resp : Response)
  | sent (t : Nat) (bytes : Bytes)
  | crashed (node_id : Bytes)
  deriving DecidableEq

inductive Label
  | recv (t : Nat) (data : Bytes)
  | hangup (t : Nat)
  | step (t : Nat)
  | lose (t : Nat)
  | heartbeat
  | crash (node_id : Bytes)
  | restart (node_id : Bytes)

def Shared.is_alive (self : Shared) (node_id : Bytes) : Bool := self.alive_.is_alive node_id

def Shared.mark (self : Shared) (node_id : Bytes) (up : Bool) : Shared :=
  { self with alive_ := self.alive_.mark node_id up }

theorem Shared.is_alive_mark (self : Shared) (other : Bytes) (up : Bool) (node_id : Bytes) :
    (self.mark other up).is_alive node_id = if node_id = other then up else self.is_alive node_id :=
  self.alive_.is_alive_mark other up node_id

def Shared.setNode (self : Shared) (node_id : Bytes) (node : Node) : Shared :=
  { self with nodes := Function.update self.nodes node_id node }

@[simp] theorem Shared.mark_nodes (self : Shared) (node_id : Bytes) (up : Bool) :
    (self.mark node_id up).nodes = self.nodes := rfl

@[simp] theorem Shared.setNode_alive (self : Shared) (node_id : Bytes) (node : Node) :
    (self.setNode node_id node).alive_ = self.alive_ := rfl

@[simp] theorem Shared.setNode_nodes (self : Shared) (node_id : Bytes) (node : Node) :
    (self.setNode node_id node).nodes = Function.update self.nodes node_id node := rfl

/-- A connection works while its node is up in the incarnation it leads to. -/
def Shared.connected (self : Shared) (node_id : Bytes) (conn : BackendConn) : Bool :=
  (self.nodes node_id).up && conn.epoch == (self.nodes node_id).epoch

def no_live_replica_error (tried : Nat) : Response :=
  ⟨.Error, [], ascii "no live replica for key (tried " ++ to_string tried ++ ascii ")"⟩

def Thread.routes (self : Thread) (r : Routing) : Thread := { self with pc := .routing r }

def Thread.returns (self : Thread) (resp : Response) : Thread := { self with pc := .replying (encode_response resp) }

def Thread.setConn (self : Thread) (node_id : Bytes) (conn : Option BackendConn) : Thread :=
  { self with backend_conns := Function.update self.backend_conns node_id conn }

section

variable (self : Thread) (r : Routing) (resp : Response) (node_id : Bytes) (conn : Option BackendConn)

@[simp] theorem Thread.routes_pc : (self.routes r).pc = .routing r := rfl
@[simp] theorem Thread.routes_req : (self.routes r).req = self.req := rfl
@[simp] theorem Thread.routes_parser : (self.routes r).parser = self.parser := rfl
@[simp] theorem Thread.routes_conns : (self.routes r).backend_conns = self.backend_conns := rfl
@[simp] theorem Thread.returns_pc : (self.returns resp).pc = .replying (encode_response resp) := rfl
@[simp] theorem Thread.returns_req : (self.returns resp).req = self.req := rfl
@[simp] theorem Thread.returns_parser : (self.returns resp).parser = self.parser := rfl
@[simp] theorem Thread.returns_conns : (self.returns resp).backend_conns = self.backend_conns := rfl
@[simp] theorem Thread.setConn_pc : (self.setConn node_id conn).pc = self.pc := rfl
@[simp] theorem Thread.setConn_req : (self.setConn node_id conn).req = self.req := rfl
@[simp] theorem Thread.setConn_parser : (self.setConn node_id conn).parser = self.parser := rfl
@[simp] theorem Thread.setConn_conns :
    (self.setConn node_id conn).backend_conns = Function.update self.backend_conns node_id conn := rfl

end

/-- `backend_connection`: a cached connection is taken as it is, a new one is
    opened to the address of the node. -/
def Thread.connect (router : Router) (self : Thread) (shared : Shared) (r : Routing) (node_id : Bytes) : Thread :=
  match self.backend_conns node_id with
  | some _ => self.routes { r with phase := .forward }
  | none =>
    match router.find_address node_id with
    | none => self.routes { r with phase := .failed }
    | some addr =>
      if (shared.nodes addr.id).up then
        (self.setConn node_id (some { epoch := (shared.nodes addr.id).epoch })).routes { r with phase := .forward }
      else self.routes { r with phase := .failed }

/-- Writing the request: the node executes it, or the connection is broken. -/
def Thread.forward (t : Nat) (self : Thread) (shared : Shared) (r : Routing) (node_id : Bytes) :
    Option (Thread × Shared × List Event) :=
  match self.backend_conns node_id with
  | none => none
  | some conn =>
    if shared.connected node_id conn then
      match service_client KVStore.handle_request conn.parser (encode_request self.req)
          (shared.nodes node_id).store with
      | none => none
      | some (bytes, parser, store) =>
        some ((self.setConn node_id (some { conn with parser })).routes { r with phase := .await bytes },
          shared.setNode node_id { shared.nodes node_id with store }, [.executed node_id t self.req])
    else some (self.routes { r with phase := .failed }, shared, [])

/-- Reading the reply. `route_read` returns it; `route_write` keeps the first
    one and goes on. -/
def Thread.await (t : Nat) (self : Thread) (r : Routing) (todo : List Bytes) (bytes : Bytes) :
    Option (Thread × List Event) :=
  match receive bytes with
  | (.Incomplete, _) => none
  | (.Error, _) => some (self.routes { r with phase := .failed }, [])
  | (.Complete, resp) =>
    if self.req.command = .Get then some (self.returns resp, [.returned t self.req resp])
    else
      some (self.routes { r with todo, phase := .check, first_success := some (r.first_success.getD resp) }, [])

def Thread.route (router : Router) (t : Nat) (self : Thread) (shared : Shared) (r : Routing) :
    Option (Thread × Shared × List Event) :=
  match r.todo with
  | [] =>
    let resp := r.first_success.getD (no_live_replica_error r.preference_list.length)
    some (self.returns resp, shared, [.returned t self.req resp])
  | node_id :: todo =>
    match r.phase with
    | .check =>
      if shared.is_alive node_id then some (self.routes { r with phase := .connect }, shared, [])
      else some (self.routes { r with todo }, shared, [])
    | .connect => some (self.connect router shared r node_id, shared, [])
    | .forward => self.forward t shared r node_id
    | .await bytes => (self.await t r todo bytes).map fun (thread, events) => (thread, shared, events)
    | .failed =>
      -- `mark_down` and `conns.erase` in the catch block.
      some ((self.setConn node_id none).routes { r with todo, phase := .check }, shared.mark node_id false, [])

/-- The drain loop of `handle_client`. A key without a preference list stops the
    thread: `get_nodes` throws, or does not return. -/
def Thread.dispatch (router : Router) (t : Nat) (self : Thread) : Option (Thread × List Event) :=
  match self.parser.try_parse_request self.req with
  | (.Incomplete, req, parser) => some ({ self with pc := .reading, parser, req }, [])
  | (.Error, req, parser) =>
    some ({ self with pc := .replying (encode_error_response parser.error_message_), parser, req }, [])
  | (.Complete, req, parser) =>
    if req.command = .Ping then some ({ self with pc := .replying encode_pong_response, parser, req }, [])
    else
      match router.preference_list req.key with
      | none => none
      | some nodes =>
        some ({ self with pc := .routing { preference_list := nodes, todo := nodes }, parser, req }, [.invoked t req])

def Thread.step (router : Router) (t : Nat) (self : Thread) (shared : Shared) :
    Option (Thread × Shared × List Event) :=
  match self.pc with
  | .reading => none
  | .draining => (self.dispatch router t).map fun (thread, events) => (thread, shared, events)
  | .routing r => self.route router t shared r
  | .replying bytes => some ({ self with pc := .draining }, shared, [.sent t bytes])
  | .closed => none

def kReadSize : Nat := 4096

def Thread.recv (self : Thread) (data : Bytes) : Option Thread :=
  if self.pc = .reading ∧ 0 < data.length ∧ data.length ≤ kReadSize then
    some { self with pc := .draining, parser := self.parser.feed data, req := ⟨.Ping, [], []⟩ }
  else none

def Thread.hangup (self : Thread) : Option Thread :=
  if self.pc = .reading then some { self with pc := .closed } else none

/-- The node went away after it had executed the request, and its reply with it. -/
def Thread.lose (self : Thread) (shared : Shared) : Option Thread :=
  match self.pc with
  | .routing r =>
    match r.todo, r.phase with
    | node_id :: _, .await _ =>
      match self.backend_conns node_id with
      | none => none
      | some conn => if shared.connected node_id conn then none else some (self.routes { r with phase := .failed })
    | _, _ => none
  | _ => none

/-- `ping_once` to a node: a fresh connection, one `PING`, and its reply. -/
def Node.ping_once (self : Node) : Bool :=
  self.up &&
    match service_client KVStore.handle_request {} (encode_request ⟨.Ping, [], []⟩) self.store with
    | none => false
    | some (bytes, _, _) =>
      match receive bytes with
      | (.Complete, resp) => resp.type = .Pong
      | _ => false

def Heartbeat.step (router : Router) (shared : Shared) : Heartbeat → Heartbeat × Shared
  | .sweeping [] => (.sweeping router.nodes_, shared)
  | .sweeping (addr :: todo) => (.pinging addr todo, shared)
  | .pinging addr todo => (.marking addr (shared.nodes addr.id).ping_once todo, shared)
  | .marking addr up todo => (.sweeping todo, shared.mark addr.id up)

def State.setThread (s : State) (t : Nat) (thread : Thread) : State :=
  { s with threads := Function.update s.threads t thread }

def step (router : Router) (s : State) : Label → Option (State × List Event)
  | .recv t data => ((s.threads t).recv data).map fun thread => (s.setThread t thread, [.received t data])
  | .hangup t => (s.threads t).hangup.map fun thread => (s.setThread t thread, [])
  | .step t =>
    ((s.threads t).step router t s.shared).map fun (thread, shared, events) =>
      ({ s.setThread t thread with shared }, events)
  | .lose t => ((s.threads t).lose s.shared).map fun thread => (s.setThread t thread, [])
  | .heartbeat =>
    let (heartbeat, shared) := s.heartbeat.step router s.shared
    some ({ s with heartbeat, shared }, [])
  | .crash node_id =>
    some ({ s with shared := s.shared.setNode node_id { s.shared.nodes node_id with up := false } },
      [.crashed node_id])
  | .restart node_id =>
    let node : Node := { epoch := (s.shared.nodes node_id).epoch + 1 }
    some ({ s with shared := s.shared.setNode node_id node }, [])

/-- A router in front of its nodes, which start up and empty. -/
def system (router : Router) : Transition.System State Label Event where
  init := { shared := { alive_ := .create router.nodes_ } }
  step := step router

/-- Labels of crash-stop runs: no node ever comes back. -/
def CrashStop : Label → Prop
  | .restart _ => False
  | _ => True

instance : DecidablePred CrashStop
  | .restart _ => isFalse id
  | .recv _ _ | .hangup _ | .step _ | .lose _ | .heartbeat | .crash _ => isTrue trivial

/-- Labels of runs without any failure. -/
def NoFailure : Label → Prop
  | .crash _ => False
  | .restart _ => False
  | _ => True

instance : DecidablePred NoFailure
  | .crash _ | .restart _ => isFalse id
  | .recv _ _ | .hangup _ | .step _ | .lose _ | .heartbeat => isTrue trivial

end kv.router
