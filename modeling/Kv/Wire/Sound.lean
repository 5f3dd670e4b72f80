import Kv.Wire.Log

namespace kv.wire

open kv.protocol Transition Incremental

/-- However the bytes of the request are cut up on their way, a node parses
    them to that request and nothing else. -/
def Reencoded (req : Request) : Prop :=
  ∀ chunks : List Bytes, chunks.flatten = encode_request req → ∀ fuel, chunks.flatten.length < fuel → ∀ out,
    ∃ self, ({} : IncrementalParser).feed_chunks fuel out chunks = some ([.Complete req], self) ∧ self.buffer_ = []

/-- No reply is attributed to the wrong request. Only the request of the client
    is sent, in bytes that a node parses to it. When `send_request` returns a
    reply, the node has, since the request was started on the connection,
    parsed it, executed it and replied to it, each once, and the reply is what
    `handle_request` returned. What `route_read` and `route_write` return is the
    first of these replies, or that there is none. -/
def Attributed (router : Router) (before : List Event) : Event → Prop
  | .invoked req => Reencoded req
  | .transmitted _ req => Reencoded req ∧ ∃ resps, routed before = some (req, resps)
  | .rejected _ => False
  | .answered c req resp => ∃ bytes,
      exchange before c = [.transmitted c req, .parsed c req, .executed c req bytes, .replied c bytes] ∧
      receive bytes = (.Complete, resp) ∧ encode_response resp = bytes ∧ resp.type ≠ .Error
  | .returned req resp => ∃ resps, routed before = some (req, resps) ∧
      (resps.head? = some resp ∨ resps = [] ∧ ∃ ids, router.preference_list req.key = some ids ∧
        resp = kv.router.no_live_replica_error ids.length)
  | _ => True

theorem reencoded_of_wellFormed {req : Request} (hwf : req.WellFormed) : Reencoded req := by
  intro chunks hchunks fuel hfuel out
  have hcut : Cut encode_request [req] chunks.flatten [req] [] [] := by
    constructor
    · rfl
    · simp [hchunks]
    · exact fun _ => rfl
    · simp
  have hfeeds : Feeds requestFormat.decode ({} : IncrementalParser).buffer_ chunks [.Complete req] [] :=
    inverts_encode_request.feeds_cut LineFormat.lawful_decode LineFormat.decode_nil (by simpa using hwf) hcut
  exact IncrementalParser.feed_chunks_of_feeds hfeeds (by simpa using hfuel) out

theorem Event.Work.attributed {c : Nat} {router : Router} {event : Event} (hwork : event.Work c)
    (before : List Event) : Attributed router before event := by
  cases hwork <;> exact trivial

/-- The node that a thread is talking to, until it has the reply or has dropped
    the connection. -/
def Thread.current (self : Thread) : Option Bytes :=
  match self.pc with
  | .routing r =>
    match r.phase with
    | .check => none
    | .connect => none
    | .sending _ _ => r.todo.head?
    | .receiving _ _ _ => r.todo.head?
    | .failed => r.todo.head?
  | _ => none

/-- The connection in use by `send_request`, with how much is written to it and
    what has been read from it. -/
def Thread.exchanging (self : Thread) : Option (Nat × Nat × Bytes) :=
  match self.pc with
  | .routing r =>
    match r.phase with
    | .sending c sent => some (c, sent, [])
    | .receiving c parser _ => some (c, (encode_request self.req).length, parser.buffer_)
    | _ => none
  | _ => none

/-- A request on its way through the preference list. -/
structure RoutingOk (router : Router) (trace : List Event) (req : Request) (r : Routing) : Prop where
  wellFormed : req.WellFormed
  listed : router.preference_list req.key = some r.preference_list
  progress : ∃ resps, routed trace = some (req, resps) ∧ resps.head? = r.first_success
  first : req.command = .Get → r.first_success = none
  fresh : ∀ c parser resp, r.phase = .receiving c parser resp → resp = ⟨.Ok, [], []⟩

/-- A connection on which at most one request is on its way, one that the router
    has parsed. -/
def Channel.Serving (self : Channel) (c : Nat) : Prop :=
  self.Idle ∨ ∃ req sent arrived log, req.WellFormed ∧ Exchange c req sent arrived self log

theorem Channel.Serving.abandon {channel : Channel} {c : Nat} (hserving : channel.Serving c) :
    Channel.Serving { channel with broken := true } c := by
  have hcut : { channel with broken := true } = channel.cut channel.up.length channel.down.length := by
    simp [cut]
  rw [hcut]
  rcases hserving with hidle | ⟨req, sent, arrived, log, hwf, hexchange⟩
  · exact .inl (hidle.cut _ _)
  · exact .inr ⟨req, sent, arrived, log, hwf, hexchange.cut _ _⟩

/-- What holds in every state. -/
structure Sound (router : Router) (trace : List Event) (s : State) : Prop where
  values : ∀ node_id key value, (s.stores node_id).get key = some value → value.length ≤ kMaxValueLen
  cached : ∀ node_id c, s.thread.backend_conns node_id = some c → c < s.opened ∧ (s.channels c).node_id = node_id
  serving : ∀ c, (s.channels c).Serving c
  idle : ∀ node_id c, s.thread.backend_conns node_id = some c → s.thread.current ≠ some node_id → (s.channels c).Idle
  busy : ∀ c sent arrived, s.thread.exchanging = some (c, sent, arrived) →
    (∃ node_id, s.thread.current = some node_id ∧ s.thread.backend_conns node_id = some c) ∧
      Exchange c s.thread.req sent arrived (s.channels c) (exchange trace c)
  routing : ∀ r, s.thread.pc = .routing r → RoutingOk router trace s.thread.req r
  points : Always (Attributed router) trace

variable {router : Router} {trace trace' events : List Event} {s s' : State} {r r' : Routing} {c : Nat}

theorem Thread.exchanging_routing {thread : Thread} {use : Nat × Nat × Bytes} (huse : thread.exchanging = some use) :
    ∃ r, thread.pc = .routing r := by
  unfold exchanging at huse
  split at huse
  · exact ⟨_, ‹_›⟩
  · exact absurd huse (by simp)

theorem Sound.wellFormed_of_exchanging (hsound : Sound router trace s) {use : Nat × Nat × Bytes}
    (huse : s.thread.exchanging = some use) : s.thread.req.WellFormed := by
  obtain ⟨r, hpc⟩ := Thread.exchanging_routing huse
  exact (hsound.routing r hpc).wellFormed

theorem RoutingOk.move {req : Request} (hok : RoutingOk router trace req r)
    (hlist : r'.preference_list = r.preference_list) (hfirst : r'.first_success = r.first_success)
    (hrouted : routed trace' = routed trace)
    (hfresh : ∀ c parser resp, r'.phase = .receiving c parser resp → resp = ⟨.Ok, [], []⟩) :
    RoutingOk router trace' req r' where
  wellFormed := hok.wellFormed
  listed := by rw [hlist, hok.listed]
  progress := by
    rw [hrouted, hfirst]
    exact hok.progress
  first := fun hget => hfirst.trans (hok.first hget)
  fresh := hfresh

theorem State.setChannel_self (s : State) (c : Nat) (channel : Channel) :
    (s.setChannel c channel).channels c = channel := Function.update_self ..

theorem State.setChannel_of_ne (s : State) (channel : Channel) {c' : Nat} (hne : c' ≠ c) :
    (s.setChannel c channel).channels c' = s.channels c' := Function.update_of_ne hne ..

theorem State.setChannel_node_id {channel : Channel} (hnode : channel.node_id = (s.channels c).node_id) (c' : Nat) :
    ((s.setChannel c channel).channels c').node_id = (s.channels c').node_id := by
  by_cases hc : c' = c
  · subst hc
    rw [setChannel_self, hnode]
  · rw [setChannel_of_ne _ _ hc]

theorem Sound.serving_setChannel (hsound : Sound router trace s) {channel : Channel} (hserving : channel.Serving c)
    (c' : Nat) : ((s.setChannel c channel).channels c').Serving c' :=
  (Function.forall_update_iff s.channels fun c channel => channel.Serving c).mpr
    ⟨hserving, fun c' _ => hsound.serving c'⟩ c'

/-- What a node does on one connection. -/
theorem Sound.setChannel (hsound : Sound router trace s) {channel : Channel} {stores : Bytes → KVStore}
    (hnode : channel.node_id = (s.channels c).node_id)
    (hvalues : ∀ node_id key value, (stores node_id).get key = some value → value.length ≤ kMaxValueLen)
    (hidle : (s.channels c).Idle → channel.Idle)
    (hexchange : ∀ req sent arrived log, req.WellFormed → Exchange c req sent arrived (s.channels c) log →
      Exchange c req sent arrived channel (log ++ events))
    (hwork : ∀ event ∈ events, event.Work c) :
    Sound router (trace ++ events) { s.setChannel c channel with stores } where
  values := hvalues
  cached := by
    intro node_id c' hcached
    rw [State.setChannel_node_id hnode]
    exact hsound.cached node_id c' hcached
  serving := hsound.serving_setChannel <|
    (hsound.serving c).imp hidle fun ⟨req, sent, arrived, log, hwf, hold⟩ =>
      ⟨req, sent, arrived, _, hwf, hexchange req sent arrived log hwf hold⟩
  idle := by
    intro node_id c' hcached hcurrent
    have hold := hsound.idle node_id c' hcached hcurrent
    by_cases hc : c' = c
    · subst hc
      rw [State.setChannel_self]
      exact hidle hold
    · rwa [State.setChannel_of_ne _ _ hc]
  busy := by
    intro c' sent arrived hbusy
    obtain ⟨huse, hold⟩ := hsound.busy c' sent arrived hbusy
    refine ⟨huse, ?_⟩
    by_cases hc : c' = c
    · subst hc
      rw [exchange_work hwork, State.setChannel_self]
      exact hexchange _ _ _ _ (hsound.wellFormed_of_exchanging hbusy) hold
    · rwa [exchange_off fun event hmem => (hwork event hmem).not_on hc, State.setChannel_of_ne _ _ hc]
  routing := by
    intro r hpc
    exact (hsound.routing r hpc).move rfl rfl (routed_work hwork trace) (hsound.routing r hpc).fresh
  points := hsound.points.append fun before event hmem => (hwork event hmem).attributed before

/-- A step of the thread that changes no connection. -/
theorem Sound.setThread (hsound : Sound router trace s) {thread : Thread} {alive_ : Liveness}
    (hconns : thread.backend_conns = s.thread.backend_conns)
    (hcurrent : ∀ node_id c, s.thread.backend_conns node_id = some c → s.thread.current = some node_id →
      thread.current = some node_id)
    (hbusy : ∀ c sent arrived, thread.exchanging = some (c, sent, arrived) →
      (∃ node_id, thread.current = some node_id ∧ s.thread.backend_conns node_id = some c) ∧
        Exchange c thread.req sent arrived (s.channels c) (exchange trace' c))
    (hrouting : ∀ r, thread.pc = .routing r → RoutingOk router trace' thread.req r)
    (hpoints : Always (Attributed router) trace') : Sound router trace' { s with thread, alive_ } where
  values := hsound.values
  cached := by
    rw [hconns]
    exact hsound.cached
  serving := hsound.serving
  idle := by
    rw [hconns]
    intro node_id c hcached hother
    exact hsound.idle node_id c hcached fun huse => hother (hcurrent node_id c hcached huse)
  busy := by
    rw [hconns]
    exact hbusy
  routing := hrouting
  points := hpoints

/-- A step of the thread on the connection that it is using, which it may drop. -/
theorem Sound.use (hsound : Sound router trace s) {thread : Thread} {alive_ : Liveness} {channel : Channel}
    {node_id : Bytes} (hcurrent : s.thread.current = some node_id)
    (hcached : s.thread.backend_conns node_id = some c)
    (hconns : ∀ id c', thread.backend_conns id = some c' → s.thread.backend_conns id = some c')
    (hnode : channel.node_id = (s.channels c).node_id) (hserving : channel.Serving c)
    (hidle : thread.backend_conns node_id = some c → thread.current ≠ some node_id → channel.Idle)
    (hbusy : ∀ c' sent arrived, thread.exchanging = some (c', sent, arrived) → c' = c ∧
      thread.current = some node_id ∧ thread.backend_conns node_id = some c ∧
        Exchange c thread.req sent arrived channel (exchange trace' c))
    (hrouting : ∀ r, thread.pc = .routing r → RoutingOk router trace' thread.req r)
    (hpoints : Always (Attributed router) trace') :
    Sound router trace' { s.setChannel c channel with thread, alive_ } where
  values := hsound.values
  cached := by
    intro id c' hid
    rw [State.setChannel_node_id hnode]
    exact hsound.cached id c' (hconns id c' hid)
  serving := hsound.serving_setChannel hserving
  idle := by
    intro id c' hid hother
    have hold := hconns id c' hid
    by_cases hc : c' = c
    · -- A connection is cached under the node it leads to, and no other.
      subst hc
      have hsame : id = node_id := by rw [← (hsound.cached id c' hold).2, (hsound.cached node_id c' hcached).2]
      subst hsame
      rw [State.setChannel_self]
      exact hidle hid hother
    · have hid' : id ≠ node_id := by
        rintro rfl
        exact hc (Option.some.inj (hold.symm.trans hcached))
      rw [State.setChannel_of_ne _ _ hc]
      exact hsound.idle id c' hold (by simpa [hcurrent] using hid'.symm)
  busy := by
    intro c' sent arrived huse
    obtain ⟨rfl, hnow, hkept, hexchange⟩ := hbusy c' sent arrived huse
    rw [State.setChannel_self]
    exact ⟨⟨node_id, hnow, hkept⟩, hexchange⟩
  routing := hrouting
  points := hpoints

end kv.wire
