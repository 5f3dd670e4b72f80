import Kv.Protocol.Request.RoundTrip
import Kv.Router.FanOut
import Kv.Syscalls

namespace kv.router

open kv.protocol

/-- What a request meets when it is routed: the flags, which other threads change
    in between, and what its calls to the nodes come to. -/
structure World where
  shared : Shared
  backends : Bytes → Backend

/-- The local variables of `handle_client`, the outcomes of the writes to come,
    what has been written, and how many requests have been routed. -/
structure Client where
  parser : IncrementalParser := {}
  backend_conns : Bytes → Option Nat := fun _ => none
  writes : List Syscall
  sent : Bytes := []
  routed : Nat := 0

/-- How `handle_client` ends. An `error` is an exception that leaves it, and with
    it the thread. -/
structure Exit where
  outcome : Except Bytes Unit
  closed : Bool
  sent : Bytes
  deriving DecidableEq

def Client.write_all (self : Client) (data : Bytes) : Except Bytes Unit × Client :=
  match write_loop (fun error => ascii "write failed: " ++ error) self.writes data with
  | (outcome, wire, left) => (outcome, { self with writes := left, sent := self.sent ++ wire })

/-- A routed request, which meets the next world. -/
def Client.forward (worlds : Nat → World) (call : (Bytes → Backend) → Call → Option (Except Bytes Response × Call))
    (self : Client) : Option (Except Bytes Bytes × Client) :=
  match call (worlds self.routed).backends { shared := (worlds self.routed).shared, conns := self.backend_conns } with
  | none => none
  | some (outcome, after) =>
    some (outcome.map encode_response, { self with backend_conns := after.conns, routed := self.routed + 1 })

/-- `response_bytes` of a request. -/
def Client.respond (router : Router) (worlds : Nat → World) (req : Request) (self : Client) :
    Option (Except Bytes Bytes × Client) :=
  match req.command with
  | .Ping => some (.ok encode_pong_response, self)
  | .Get => self.forward worlds fun backends => route_read router backends req
  | _ => self.forward worlds fun backends => route_write router backends req

/-- The inner loop of `handle_client`; `none` is a loop that has not ended yet.
    Nothing in it catches an exception. -/
def drain_client (router : Router) (worlds : Nat → World) :
    Nat → Request → Client → Option (Except Bytes Unit × Client)
  | 0, _, _ => none
  | fuel + 1, req, self =>
    match self.parser.try_parse_request req with
    | (.Incomplete, _, parser) => some (.ok (), { self with parser })
    | (.Error, req, parser) =>
      match { self with parser }.write_all (encode_error_response parser.error_message_) with
      | (.error what, self) => some (.error what, self)
      | (.ok _, self) => drain_client router worlds fuel req self
    | (.Complete, req, parser) =>
      match { self with parser }.respond router worlds req with
      | none => none
      | some (.error what, self) => some (.error what, self)
      | some (.ok response_bytes, self) =>
        match self.write_all response_bytes with
        | (.error what, self) => some (.error what, self)
        | (.ok _, self) => drain_client router worlds fuel req self

/-- `handle_client` on what its reads return, up to the first `n <= 0`. -/
def handle_client (router : Router) (worlds : Nat → World) (fuel : Nat) : List Bytes → Client → Option Exit
  | [], self => some { outcome := .ok (), closed := true, sent := self.sent }
  | data :: reads, self =>
    match drain_client router worlds fuel ⟨.Ping, [], []⟩ { self with parser := self.parser.feed data } with
    | none => none
    | some (.error what, self) => some { outcome := .error what, closed := false, sent := self.sent }
    | some (.ok _, self) => handle_client router worlds fuel reads self

/-- No write to come fails. -/
def Client.Unfailing (self : Client) : Prop := ∀ call ∈ self.writes, call.fails = false

section

variable {router : Router} {worlds : Nat → World}

theorem Client.Unfailing.write_all {self : Client} (h : self.Unfailing) (data : Bytes) :
    (self.write_all data).1 = .ok () ∧ (self.write_all data).2.Unfailing := by
  obtain ⟨left, hloop⟩ := write_loop_complete (fun error => ascii "write failed: " ++ error) h data
  have hsuffix := write_loop_left_suffix (fun error => ascii "write failed: " ++ error) self.writes data
  unfold Client.write_all
  rw [hloop] at hsuffix ⊢
  exact ⟨rfl, fun call hcall => h call (hsuffix.subset hcall)⟩

/-- Over a ring with positions, routing throws nothing, whatever the nodes do. -/
theorem route_ne_error (hring : ¬ router.ring_.ring_.isEmpty) {loop : List Bytes → Call → Option Response × Call}
    {req : Request} {self after : Call} {what : Bytes} : route router loop req self ≠ some (.error what, after) := by
  unfold route ConsistentHashRing.get_nodes
  rw [if_neg hring]
  intro h
  split at h <;> simp_all

/-- A response leaves the writes alone, and over such a ring it always comes. -/
theorem Client.respond_ok (hring : ¬ router.ring_.ring_.isEmpty) {req : Request} {self after : Client}
    {outcome : Except Bytes Bytes} (hrespond : self.respond router worlds req = some (outcome, after)) :
    (∃ bytes, outcome = .ok bytes) ∧ after.writes = self.writes := by
  have hforward (loop : (Bytes → Backend) → List Bytes → Call → Option Response × Call)
      (h : self.forward worlds (fun backends => route router (loop backends) req) = some (outcome, after)) :
      (∃ bytes, outcome = .ok bytes) ∧ after.writes = self.writes := by
    unfold Client.forward at h
    split at h
    · simp at h
    · rename_i result call hcall
      obtain ⟨rfl, rfl⟩ := Prod.mk.inj (Option.some.inj h)
      cases result with
      | error what => exact absurd hcall (route_ne_error hring)
      | ok resp => exact ⟨⟨_, rfl⟩, rfl⟩
  unfold Client.respond at hrespond
  split at hrespond
  · obtain ⟨rfl, rfl⟩ := Prod.mk.inj (Option.some.inj hrespond)
    exact ⟨⟨_, rfl⟩, rfl⟩
  · exact hforward (fun backends => route_read_loop router backends req) hrespond
  · exact hforward (fun backends nodes => route_write_loop router backends req nodes none) hrespond

theorem drain_client_ok (hring : ¬ router.ring_.ring_.isEmpty) {fuel : Nat} {req : Request} {self after : Client}
    {outcome : Except Bytes Unit} (h : self.Unfailing)
    (hdrain : drain_client router worlds fuel req self = some (outcome, after)) :
    outcome = .ok () ∧ after.Unfailing := by
  induction fuel generalizing req self with
  | zero => simp [drain_client] at hdrain
  | succ fuel ih =>
    -- Writing a reply and going on.
    have hwrite {self : Client} (h : self.Unfailing) (data : Bytes) (req : Request)
        (hnext : (match self.write_all data with
          | (.error what, self) => some (.error what, self)
          | (.ok _, self) => drain_client router worlds fuel req self) = some (outcome, after)) :
        outcome = .ok () ∧ after.Unfailing := by
      obtain ⟨hok, hleft⟩ := h.write_all data
      split at hnext
      · rename_i hthrows
        rw [hthrows] at hok
        cases hok
      · rename_i hwritten
        rw [hwritten] at hleft
        exact ih hleft hnext
    rw [drain_client] at hdrain
    split at hdrain
    · obtain ⟨rfl, rfl⟩ := Prod.mk.inj (Option.some.inj hdrain)
      exact ⟨rfl, h⟩
    · exact hwrite (by exact h) _ _ hdrain
    · split at hdrain
      · simp at hdrain
      · rename_i hrespond
        obtain ⟨⟨bytes, hok⟩, _⟩ := Client.respond_ok hring hrespond
        cases hok
      · rename_i hrespond
        obtain ⟨_, hwrites⟩ := Client.respond_ok hring hrespond
        exact hwrite (fun call hcall => h call (hwrites ▸ hcall)) _ _ hdrain

theorem handle_client_ok (hring : ¬ router.ring_.ring_.isEmpty) {fuel : Nat} {reads : List Bytes} {self : Client}
    {exit : Exit}
    (h : self.Unfailing) (hexit : handle_client router worlds fuel reads self = some exit) :
    exit.outcome = .ok () ∧ exit.closed = true := by
  induction reads generalizing self with
  | nil =>
    obtain rfl := Option.some.inj hexit
    exact ⟨rfl, rfl⟩
  | cons data reads ih =>
    rw [handle_client] at hexit
    split at hexit
    · simp at hexit
    · rename_i hdrain
      obtain ⟨hok, _⟩ := drain_client_ok hring (by exact h) hdrain
      cases hok
    · rename_i hdrain
      exact ih (drain_client_ok hring (by exact h) hdrain).2 hexit

/-- A client that keeps sending `PING` brings every failing write about. -/
theorem handle_client_pings (router : Router) (worlds : Nat → World) {before after : List Syscall} {error : Bytes}
    {n : Nat} (hn : before.length < n) (self : Client) (hparser : self.parser.buffer_ = [])
    (hwrites : self.writes = before ++ .fail error :: after) :
    ∃ exit what, handle_client router worlds 2 (List.replicate n (encode_request ⟨.Ping, [], []⟩)) self = some exit ∧
      exit.outcome = .error what := by
  induction n generalizing before self with
  | zero => omega
  | succ n ih =>
    have hwf : (⟨.Ping, [], []⟩ : Request).WellFormed := by decide
    have hpong : encode_pong_response ≠ [] := by decide
    rw [List.replicate_succ, handle_client, drain_client,
      IncrementalParser.try_parse_request_encode_request hparser hwf]
    simp only [Client.respond, Client.write_all, hwrites]
    rcases write_loop_fail (fun error => ascii "write failed: " ++ error) before after error hpong with
      ⟨what, hthrows⟩ | ⟨wire, before', hloop, hless⟩
    · simp only [hthrows]
      exact ⟨_, what, rfl, rfl⟩
    · simp only [hloop, drain_client, IncrementalParser.try_parse_request_empty hparser]
      exact ih (by omega) _ (by exact hparser) rfl

/-- Over an empty ring the first request with a key ends the thread. -/
theorem handle_client_get (worlds : Nat → World) (hring : router.ring_.ring_.isEmpty) (self : Client)
    (hparser : self.parser.buffer_ = []) :
    ∃ exit what, handle_client router worlds 1 [encode_request ⟨.Get, ascii "k", []⟩] self = some exit ∧
      exit.outcome = .error what := by
  have hwf : (⟨.Get, ascii "k", []⟩ : Request).WellFormed := by decide
  have hget : router.ring_.get_nodes fnv1a_hash (ascii "k") router.replication_factor_ =
      some (.error (ascii "ConsistentHashRing::get_nodes: ring has no nodes")) := by
    rw [ConsistentHashRing.get_nodes, if_pos hring]
  rw [handle_client, drain_client, IncrementalParser.try_parse_request_encode_request hparser hwf]
  simp only [Client.respond, Client.forward, route_read, route, hget]
  exact ⟨_, _, rfl, rfl⟩

end

/-- No client can end the process, whatever it sends and whatever the nodes do,
    exactly if the nodes have positions on the ring and no write to the client
    fails. Otherwise some client can. -/
theorem handle_client_returns_iff {nodes : List NodeAddress} (hne : nodes ≠ []) (vnodes replicas : Nat)
    (writes : List Syscall) :
    (∀ (worlds : Nat → World) (reads : List Bytes) (fuel : Nat) (exit : Exit),
      handle_client (Router.create nodes vnodes replicas) worlds fuel reads { writes } = some exit →
        exit.outcome = .ok () ∧ exit.closed = true) ↔
    1 ≤ vnodes ∧ ∀ call ∈ writes, call.fails = false := by
  have hempty : (Router.create nodes vnodes replicas).ring_.ring_.isEmpty ↔ vnodes = 0 := by
    rw [Router.create, ConsistentHashRing.of_nodes_isEmpty_iff]
    simp [hne]
  let world : World := { shared := { alive_ := fun _ => none }, backends := fun _ => ⟨.error [], fun _ => .error []⟩ }
  constructor
  · intro hreturns
    constructor
    · by_contra hvnodes
      obtain ⟨exit, what, hexit, hthrows⟩ :=
        handle_client_get (fun _ => world) (hempty.mpr (by omega)) { writes } rfl
      simp [(hreturns _ _ _ exit hexit).1] at hthrows
    · intro call hcall
      cases call with
      | count n => rfl
      | eintr => rfl
      | fail error =>
        obtain ⟨before, after, hwrites⟩ := List.append_of_mem hcall
        obtain ⟨exit, what, hexit, hthrows⟩ := handle_client_pings (Router.create nodes vnodes replicas)
          (fun _ => world) (Nat.lt_succ_self before.length) { writes } rfl hwrites
        simp [(hreturns _ _ _ exit hexit).1] at hthrows
  · rintro ⟨hvnodes, hwrites⟩ worlds reads fuel exit hexit
    have hring : ¬ (Router.create nodes vnodes replicas).ring_.ring_.isEmpty := fun h => by
      have := hempty.mp h
      omega
    have hunfailing : Client.Unfailing { writes } := hwrites
    exact handle_client_ok hring hunfailing hexit

/-- A read that both nodes fail, a malformed line and a `PING`, answered through
    short and interrupted writes. -/
theorem handle_client_returns_two :
    let nodes : List NodeAddress := [⟨ascii "a", 1⟩, ⟨ascii "b", 1⟩]
    let worlds : Nat → World := fun _ =>
      { shared := { alive_ := fun _ => some true }
        backends := fun _ => ⟨.error (ascii "connect failed"), fun _ => .error []⟩ }
    let reads := [ascii "GET k" ++ LF :: ascii "FOO", LF :: ascii "PING" ++ [LF]]
    let writes : List Syscall := [.count 2, .eintr, .count 0]
    ∃ exit, handle_client (Router.create nodes 1 2) worlds 5 reads { writes } = some exit ∧
      exit.sent = encode_error_response (ascii "no live replica for key (tried 2)") ++
        encode_error_response (ascii "unknown command: FOO") ++ encode_pong_response ∧
      exit.outcome = .ok () ∧ exit.closed = true := by
  intro nodes worlds reads writes
  have hexit : handle_client (Router.create nodes 1 2) worlds 5 reads { writes } =
      some ⟨.ok (), true, encode_error_response (ascii "no live replica for key (tried 2)") ++
        encode_error_response (ascii "unknown command: FOO") ++ encode_pong_response⟩ := by decide +kernel
  exact ⟨_, hexit, rfl,
    (handle_client_returns_iff (by decide : nodes ≠ []) 1 2 writes).mpr ⟨by decide, by decide⟩ worlds reads 5 _ hexit⟩

/-- With `--vnodes 0` a `GET` ends the process, and with any other value a client
    that leaves before its answer does. The socket is not even closed. -/
theorem handle_client_escapes :
    let worlds : Nat → World := fun _ =>
      { shared := { alive_ := fun _ => some true }, backends := fun _ => ⟨.ok 7, fun _ => .ok ⟨.NotFound, [], []⟩⟩ }
    handle_client (Router.create [⟨ascii "a", 1⟩] 0 2) worlds 2 [encode_request ⟨.Get, ascii "k", []⟩]
      { writes := [] } =
      some ⟨.error (ascii "ConsistentHashRing::get_nodes: ring has no nodes"), false, []⟩ ∧
    handle_client (Router.create [⟨ascii "a", 1⟩] 150 2) worlds 2 [encode_request ⟨.Ping, [], []⟩]
        { writes := [.fail (ascii "Broken pipe")] } =
      some ⟨.error (ascii "write failed: Broken pipe"), false, []⟩ := by
  decide +kernel

end kv.router
