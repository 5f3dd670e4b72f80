import Kv.Router.System
import Kv.Server.System

namespace kv.wire

open kv.protocol

/-- A connection from the router to a node: the bytes on their way to the node
    and back, and the node's end. On a broken connection nothing is delivered
    any more that was not on its way before. -/
structure Channel where
  node_id : Bytes := []
  up : Bytes := []
  down : Bytes := []
  broken : Bool := false
  served : server.Connection := {}

/-- Where a thread stands in the body of the loop over the preference list. In
    `send_request` it has written some of the request, or it has fed some of the
    reply to the parser. -/
inductive Phase
  | check
  | connect
  | sending (c : Nat) (sent : Nat)
  | receiving (c : Nat) (parser : ResponseParser) (resp : Response)
  | failed

/-- The local variables of `route_write` and `route_read`. -/
structure Routing where
  preference_list : List Bytes
  todo : List Bytes
  phase : Phase := .check
  first_success : Option Response := none

inductive Pc
  | reading
  | draining
  | routing (r : Routing)
  | replying (bytes : Bytes)
  | closed

/-- The thread in `handle_client`. It caches the numbers of its connections. -/
structure Thread where
  pc : Pc := .reading
  parser : IncrementalParser := {}
  req : Request := ⟨.Ping, [], []⟩
  backend_conns : Bytes → Option Nat := fun _ => none

/-- One thread of the router, its connections to the nodes, and what it shares
    with the other threads: the liveness flags and the stores of the nodes. -/
structure State where
  thread : Thread := {}
  alive_ : Liveness
  channels : Nat → Channel := fun _ => {}
  opened : Nat := 0
  stores : Bytes → KVStore := fun _ => {}

inductive Event
  | received (data : Bytes)
  | invoked (req : Request)
  | transmitted (c : Nat) (req : Request)
  | parsed (c : Nat) (req : Request)
  | rejected (c : Nat)
  | executed (c : Nat) (req : Request) (bytes : Bytes)
  | replied (c : Nat) (bytes : Bytes)
  | answered (c : Nat) (req : Request) (resp : Response)
  | returned (req : Request) (resp : Response)
  | sent (bytes : Bytes)
  deriving DecidableEq

/-- The choices of the environment: what the calls to `read`, `write` and
    `connect` give, what the nodes do at the other end of the connections, when
    connections break and nodes restart, and what other threads do. -/
inductive Label
  | recv (data : Bytes)
  | hangup
  | step
  | connect (accepted : Bool)
  | write (n : Nat)
  | write_error
  | read (n : Nat)
  | read_error
  | serve (c : Nat) (n : Nat)
  | work (c : Nat)
  | close (c : Nat)
  | cut (c : Nat) (up down : Nat)
  | restart (node_id : Bytes)
  | other (node_id : Bytes) (req : Request)
  | flag (node_id : Bytes) (up : Bool)

/-- Bytes that the router writes. -/
def Channel.push (self : Channel) (data : Bytes) : Channel :=
  if self.broken then self else { self with up := self.up ++ data }

/-- A `read` of the node. -/
def Channel.serve (self : Channel) (n : Nat) : Option Channel :=
  (self.served.recv (self.up.take n)).map fun served => { self with served, up := self.up.drop n }

/-- The bytes that a step of the node writes. -/
def replyBytes : server.Pc → Bytes
  | .replying bytes => bytes
  | _ => []

/-- What a step of the node shows. -/
def workEvents (c : Nat) (store : KVStore) (before after : server.Pc) : List Event :=
  match before, after with
  | .draining, .executing req => [.parsed c req]
  | .draining, .replying _ => [.rejected c]
  | .executing req, _ => [.executed c req (store.handle_request req).1]
  | .replying bytes, _ => [.replied c bytes]
  | _, _ => []

/-- The next statement of the node's `service_client` on this connection. -/
def Channel.work (c : Nat) (self : Channel) (store : KVStore) : Option (Channel × KVStore × List Event) :=
  (self.served.step KVStore.handle_request c store).map fun (served, store', _) =>
    ({ self with served, down := if self.broken then self.down else self.down ++ replyBytes self.served.pc }, store',
      workEvents c store self.served.pc served.pc)

/-- The node finds a broken connection at its end. -/
def Channel.close (self : Channel) : Option Channel :=
  if self.broken then self.served.hangup.map fun served => { self with served } else none

/-- The connection breaks, with what is still delivered of the bytes on their way. -/
def Channel.cut (self : Channel) (up down : Nat) : Channel :=
  { self with up := self.up.take up, down := self.down.take down, broken := true }

/-- The node at the other end is gone. -/
def Channel.kill (self : Channel) : Channel :=
  { self with up := [], broken := true, served := { self.served with pc := .closed } }

def State.setChannel (s : State) (c : Nat) (channel : Channel) : State :=
  { s with channels := Function.update s.channels c channel }

def State.setPc (s : State) (pc : Pc) : State := { s with thread := { s.thread with pc } }

/-- `conns.erase`, which closes the connection. -/
def State.erase (s : State) (node_id : Bytes) : State :=
  match s.thread.backend_conns node_id with
  | none => s
  | some c =>
    { s.setChannel c { s.channels c with broken := true } with
      thread := { s.thread with backend_conns := Function.update s.thread.backend_conns node_id none } }

/-- `backend_connection` opens and caches a connection. -/
def State.open (s : State) (node_id : Bytes) : State :=
  { s.setChannel s.opened { node_id } with
    opened := s.opened + 1
    thread := { s.thread with backend_conns := Function.update s.thread.backend_conns node_id (some s.opened) } }

/-- The steps of `route_write` and `route_read` that do not depend on a call. -/
def State.route (s : State) (r : Routing) : Option (State × List Event) :=
  match r.todo with
  | [] =>
    let resp := r.first_success.getD (router.no_live_replica_error r.preference_list.length)
    some (s.setPc (.replying (encode_response resp)), [.returned s.thread.req resp])
  | node_id :: todo =>
    match r.phase with
    | .check =>
      if s.alive_.is_alive node_id then some (s.setPc (.routing { r with phase := .connect }), [])
      else some (s.setPc (.routing { r with todo }), [])
    | .connect =>
      match s.thread.backend_conns node_id with
      | some c => some (s.setPc (.routing { r with phase := .sending c 0 }), [.transmitted c s.thread.req])
      | none => none
    | .sending _ _ => none
    | .receiving _ _ _ => none
    | .failed =>
      -- `mark_down` and `conns.erase` in the catch block.
      some ({ (s.erase node_id).setPc (.routing { r with todo, phase := .check }) with
        alive_ := s.alive_.mark node_id false }, [])

/-- The drain loop of `handle_client`. -/
def State.dispatch (router : Router) (s : State) : Option (State × List Event) :=
  match s.thread.parser.try_parse_request s.thread.req with
  | (.Incomplete, req, parser) => some ({ s with thread := { s.thread with pc := .reading, parser, req } }, [])
  | (.Error, req, parser) =>
    let bytes := encode_error_response parser.error_message_
    some ({ s with thread := { s.thread with pc := .replying bytes, parser, req } }, [])
  | (.Complete, req, parser) =>
    if req.command = .Ping then
      some ({ s with thread := { s.thread with pc := .replying encode_pong_response, parser, req } }, [])
    else
      match router.preference_list req.key with
      | none => none
      | some nodes =>
        let pc := .routing { preference_list := nodes, todo := nodes }
        some ({ s with thread := { s.thread with pc, parser, req } }, [.invoked req])

def State.advance (router : Router) (s : State) : Option (State × List Event) :=
  match s.thread.pc with
  | .reading => none
  | .draining => s.dispatch router
  | .routing r => s.route r
  | .replying bytes => some (s.setPc .draining, [.sent bytes])
  | .closed => none

/-- `connect` and what follows it. -/
def State.connect (router : Router) (s : State) (accepted : Bool) : Option (State × List Event) :=
  match s.thread.pc with
  | .routing r =>
    match r.todo, r.phase with
    | node_id :: _, .connect =>
      match s.thread.backend_conns node_id, router.find_address node_id, accepted with
      | none, some _, true =>
        some ((s.open node_id).setPc (.routing { r with phase := .sending s.opened 0 }),
          [.transmitted s.opened s.thread.req])
      | none, _, _ => some (s.setPc (.routing { r with phase := .failed }), [])
      | some _, _, _ => none
    | _, _ => none
  | _ => none

/-- A `write` in `send_request`, which starts to read after the last byte. -/
def State.write (s : State) (n : Nat) : Option (State × List Event) :=
  match s.thread.pc with
  | .routing r =>
    match r.phase with
    | .sending c sent =>
      let encoded := encode_request s.thread.req
      if 0 < n ∧ sent + n ≤ encoded.length then
        let phase := if sent + n < encoded.length then .sending c (sent + n) else .receiving c {} ⟨.Ok, [], []⟩
        some ((s.setChannel c ((s.channels c).push ((encoded.drop sent).take n))).setPc (.routing { r with phase }),
          [])
      else none
    | _ => none
  | _ => none

def State.write_error (s : State) : Option (State × List Event) :=
  match s.thread.pc with
  | .routing r =>
    match r.phase with
    | .sending _ _ => some (s.setPc (.routing { r with phase := .failed }), [])
    | _ => none
  | _ => none

/-- A `read` in `send_request`, and what is made of the bytes so far. -/
def State.read (s : State) (n : Nat) : Option (State × List Event) :=
  match s.thread.pc with
  | .routing r =>
    match r.todo, r.phase with
    | _ :: todo, .receiving c parser resp =>
      let data := (s.channels c).down.take n
      if 0 < data.length ∧ n ≤ router.kReadSize then
        let s := s.setChannel c { s.channels c with down := (s.channels c).down.drop n }
        match (parser.feed data).try_parse_response resp with
        | (.Incomplete, resp, parser) => some (s.setPc (.routing { r with phase := .receiving c parser resp }), [])
        | (.Error, _, _) => some (s.setPc (.routing { r with phase := .failed }), [])
        | (.Complete, resp, _) =>
          if s.thread.req.command = .Get then
            some (s.setPc (.replying (encode_response resp)),
              [.answered c s.thread.req resp, .returned s.thread.req resp])
          else
            let first_success := some (r.first_success.getD resp)
            some (s.setPc (.routing { r with todo, phase := .check, first_success }), [.answered c s.thread.req resp])
      else none
    | _, _ => none
  | _ => none

def State.read_error (s : State) : Option (State × List Event) :=
  match s.thread.pc with
  | .routing r =>
    match r.phase with
    | .receiving _ _ _ => some (s.setPc (.routing { r with phase := .failed }), [])
    | _ => none
  | _ => none

def State.recv (s : State) (data : Bytes) : Option (State × List Event) :=
  match s.thread.pc with
  | .reading =>
    if 0 < data.length ∧ data.length ≤ router.kReadSize then
      let parser := s.thread.parser.feed data
      some ({ s with thread := { s.thread with pc := .draining, parser, req := ⟨.Ping, [], []⟩ } }, [.received data])
    else none
  | _ => none

def State.hangup (s : State) : Option (State × List Event) :=
  match s.thread.pc with
  | .reading => some (s.setPc .closed, [])
  | _ => none

def step (router : Router) (s : State) : Label → Option (State × List Event)
  | .recv data => s.recv data
  | .hangup => s.hangup
  | .step => s.advance router
  | .connect accepted => s.connect router accepted
  | .write n => s.write n
  | .write_error => s.write_error
  | .read n => s.read n
  | .read_error => s.read_error
  | .serve c n => ((s.channels c).serve n).map fun channel => (s.setChannel c channel, [])
  | .work c =>
    ((s.channels c).work c (s.stores (s.channels c).node_id)).map fun (channel, store, events) =>
      ({ s.setChannel c channel with stores := Function.update s.stores (s.channels c).node_id store }, events)
  | .close c => (s.channels c).close.map fun channel => (s.setChannel c channel, [])
  | .cut c up down => some (s.setChannel c ((s.channels c).cut up down), [])
  | .restart node_id =>
    some ({ s with
      stores := Function.update s.stores node_id {}
      channels := fun c => if (s.channels c).node_id = node_id then (s.channels c).kill else s.channels c }, [])
  | .other node_id req =>
    if req.WellFormed then
      some ({ s with stores := Function.update s.stores node_id ((s.stores node_id).handle_request req).2 }, [])
    else none
  | .flag node_id up => some ({ s with alive_ := s.alive_.mark node_id up }, [])

/-- A thread of the router in front of empty nodes. -/
def system (router : Router) : Transition.System State Label Event where
  init := { alive_ := .create router.nodes_ }
  step := step router

end kv.wire
