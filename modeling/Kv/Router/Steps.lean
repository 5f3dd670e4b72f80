import Kv.Router.Consistent

namespace kv.router

open kv.protocol

/-- Everything a thread can do in `route_write` and `route_read`, whatever the
    nodes do. -/
inductive RouteStep (t : Nat) (thread : Thread) (shared : Shared) (r : Routing) :
    Thread → Shared → List Event → Prop
  | exhausted (htodo : r.todo = []) :
      RouteStep t thread shared r
        (thread.returns (r.first_success.getD (no_live_replica_error r.preference_list.length))) shared
        [.returned t thread.req (r.first_success.getD (no_live_replica_error r.preference_list.length))]
  | skipped {node_id : Bytes} {todo : List Bytes} (htodo : r.todo = node_id :: todo) (hphase : r.phase = .check)
      (hdead : shared.is_alive node_id = false) :
      RouteStep t thread shared r (thread.routes { r with todo, phase := .check }) shared []
  | chosen {node_id : Bytes} {todo : List Bytes} (htodo : r.todo = node_id :: todo) (hphase : r.phase = .check) :
      RouteStep t thread shared r (thread.routes { r with phase := .connect }) shared []
  | cached {node_id : Bytes} {todo : List Bytes} {conn : BackendConn} (htodo : r.todo = node_id :: todo)
      (hphase : r.phase = .connect) (hconn : thread.backend_conns node_id = some conn) :
      RouteStep t thread shared r (thread.routes { r with phase := .forward }) shared []
  | opened {node_id : Bytes} {todo : List Bytes} (htodo : r.todo = node_id :: todo) (hphase : r.phase = .connect) :
      RouteStep t thread shared r
        ((thread.setConn node_id (some { epoch := (shared.nodes node_id).epoch })).routes { r with phase := .forward })
        shared []
  | refused {node_id : Bytes} {todo : List Bytes} (htodo : r.todo = node_id :: todo) (hphase : r.phase = .connect)
      (hdown : (shared.nodes node_id).up = false) :
      RouteStep t thread shared r (thread.routes { r with phase := .failed }) shared []
  | broken {node_id : Bytes} {todo : List Bytes} {conn : BackendConn} (htodo : r.todo = node_id :: todo)
      (hphase : r.phase = .forward) (hconn : thread.backend_conns node_id = some conn)
      (hbroken : shared.connected node_id conn = false) :
      RouteStep t thread shared r (thread.routes { r with phase := .failed }) shared []
  | executed {node_id : Bytes} {todo : List Bytes} {conn : BackendConn} {parser : IncrementalParser}
      (htodo : r.todo = node_id :: todo) (hphase : r.phase = .forward)
      (hconn : thread.backend_conns node_id = some conn) (hconnected : shared.connected node_id conn = true)
      (hparser : parser.buffer_ = []) :
      RouteStep t thread shared r
        ((thread.setConn node_id (some { conn with parser })).routes
          { r with phase := .await (reply thread.req ((shared.nodes node_id).store.get thread.req.key)) })
        (shared.setNode node_id
          { shared.nodes node_id with store := ((shared.nodes node_id).store.handle_request thread.req).2 })
        [.executed node_id t thread.req]
  | read {node_id : Bytes} {todo : List Bytes} {bytes : Bytes} {resp : Response} (htodo : r.todo = node_id :: todo)
      (hphase : r.phase = .await bytes) (hencode : encode_response resp = bytes) (htype : resp.type ≠ .Error)
      (hget : thread.req.command = .Get) :
      RouteStep t thread shared r (thread.returns resp) shared [.returned t thread.req resp]
  | wrote {node_id : Bytes} {todo : List Bytes} {bytes : Bytes} {resp : Response} (htodo : r.todo = node_id :: todo)
      (hphase : r.phase = .await bytes) (hencode : encode_response resp = bytes) (htype : resp.type ≠ .Error)
      (hget : thread.req.command ≠ .Get) :
      RouteStep t thread shared r
        (thread.routes { r with todo, phase := .check, first_success := some (r.first_success.getD resp) }) shared []
  | marked {node_id : Bytes} {todo : List Bytes} (htodo : r.todo = node_id :: todo) (hphase : r.phase = .failed) :
      RouteStep t thread shared r ((thread.setConn node_id none).routes { r with todo, phase := .check })
        (shared.mark node_id false) []

/-- Everything a thread can do on its own, whatever the nodes do. -/
inductive ThreadStep (router : Router) (t : Nat) (thread : Thread) (shared : Shared) :
    Thread → Shared → List Event → Prop
  | drained {req : Request} {parser : IncrementalParser} (hpc : thread.pc = .draining)
      (hcall : thread.parser.try_parse_request thread.req = (.Incomplete, req, parser)) :
      ThreadStep router t thread shared { thread with pc := .reading, parser, req } shared []
  | rejected {req : Request} {parser : IncrementalParser} (hpc : thread.pc = .draining)
      (hcall : thread.parser.try_parse_request thread.req = (.Error, req, parser)) :
      ThreadStep router t thread shared
        { thread with pc := .replying (encode_error_response parser.error_message_), parser, req } shared []
  | pinged {req : Request} {parser : IncrementalParser} (hpc : thread.pc = .draining)
      (hcall : thread.parser.try_parse_request thread.req = (.Complete, req, parser)) (hping : req.command = .Ping) :
      ThreadStep router t thread shared { thread with pc := .replying encode_pong_response, parser, req } shared []
  | invoked {req : Request} {parser : IncrementalParser} {nodes : List Bytes} (hpc : thread.pc = .draining)
      (hcall : thread.parser.try_parse_request thread.req = (.Complete, req, parser)) (hping : req.command ≠ .Ping)
      (hlist : router.preference_list req.key = some nodes) :
      ThreadStep router t thread shared
        { thread with pc := .routing { preference_list := nodes, todo := nodes }, parser, req } shared
        [.invoked t req]
  | replied {bytes : Bytes} (hpc : thread.pc = .replying bytes) :
      ThreadStep router t thread shared { thread with pc := .draining } shared [.sent t bytes]
  | routed {r : Routing} {thread' : Thread} {shared' : Shared} {events : List Event} (hpc : thread.pc = .routing r)
      (hstep : RouteStep t thread shared r thread' shared' events) :
      ThreadStep router t thread shared thread' shared' events

variable {router : Router} {t : Nat} {thread thread' : Thread} {shared shared' : Shared} {events : List Event}

theorem RoutingOk.mem_of_todo {nodes : Bytes → Node} {r : Routing} (hr : RoutingOk router nodes thread r)
    {node_id : Bytes} {todo : List Bytes} (htodo : r.todo = node_id :: todo) : node_id ∈ r.preference_list := by
  obtain ⟨visited, hlist⟩ := hr.todo
  rw [hlist, htodo]
  simp

theorem RoutingOk.route_step {nodes : Bytes → Node} {r : Routing} (hr : RoutingOk router nodes thread r)
    (hknown : router.Known)
    (hconns : ∀ node_id conn, thread.backend_conns node_id = some conn → conn.parser.buffer_ = [])
    (hstep : thread.route router t shared r = some (thread', shared', events)) :
    RouteStep t thread shared r thread' shared' events := by
  unfold Thread.route at hstep
  cases htodo : r.todo with
  | nil =>
    simp only [htodo, Option.some.injEq, Prod.mk.injEq] at hstep
    obtain ⟨rfl, rfl, rfl⟩ := hstep
    exact .exhausted htodo
  | cons node_id todo =>
    have hready := hr.phase node_id todo htodo
    cases hphase : r.phase with
    | check =>
      simp only [htodo, hphase] at hstep
      split at hstep
      · obtain ⟨rfl, rfl, rfl⟩ : _ ∧ _ ∧ _ := by simpa only [Option.some.injEq, Prod.mk.injEq] using hstep
        rw [← htodo]
        exact .chosen htodo hphase
      · rename_i hdead
        obtain ⟨rfl, rfl, rfl⟩ : _ ∧ _ ∧ _ := by simpa only [Option.some.injEq, Prod.mk.injEq] using hstep
        exact .skipped htodo hphase (by simpa using hdead)
    | connect =>
      simp only [htodo, hphase, Option.some.injEq, Prod.mk.injEq] at hstep
      obtain ⟨rfl, rfl, rfl⟩ := hstep
      unfold Thread.connect
      cases hconn : thread.backend_conns node_id with
      | some conn => exact .cached htodo hphase hconn
      | none =>
        obtain ⟨addr, hfind⟩ := hknown.find_address hr.listed (hr.mem_of_todo htodo)
        simp only [hfind, Router.find_address_id hfind]
        split
        · exact .opened htodo hphase
        · rename_i hdown
          exact .refused htodo hphase (by simpa using hdown)
    | forward =>
      rw [hphase] at hready
      obtain ⟨conn, hconn⟩ := hready
      obtain ⟨parser, hservice, hparser⟩ := service_client_encode_request KVStore.handle_request
        (hconns node_id conn hconn) hr.wellFormed (shared.nodes node_id).store
      simp only [htodo, hphase, Thread.forward, hconn, hservice, KVStore.handle_request_fst] at hstep
      split at hstep
      · rename_i hconnected
        obtain ⟨rfl, rfl, rfl⟩ : _ ∧ _ ∧ _ := by simpa only [Option.some.injEq, Prod.mk.injEq] using hstep
        rw [← htodo]
        exact .executed htodo hphase hconn hconnected hparser
      · rename_i hbroken
        obtain ⟨rfl, rfl, rfl⟩ : _ ∧ _ ∧ _ := by simpa only [Option.some.injEq, Prod.mk.injEq] using hstep
        rw [← htodo]
        exact .broken htodo hphase hconn (by simpa using hbroken)
    | await bytes =>
      rw [hphase] at hready
      obtain ⟨_, held, rfl, hheld⟩ := hready
      obtain ⟨resp, hreceive, hencode, htype⟩ := receive_reply thread.req hheld
      simp only [htodo, hphase, Thread.await, hreceive, Option.map_eq_some_iff, Prod.exists, Prod.mk.injEq] at hstep
      obtain ⟨_, _, hawait, rfl, rfl, rfl⟩ := hstep
      split at hawait
      · rename_i hget
        obtain ⟨rfl, rfl⟩ : _ ∧ _ := by simpa only [Option.some.injEq, Prod.mk.injEq] using hawait
        exact .read htodo hphase hencode htype hget
      · rename_i hget
        obtain ⟨rfl, rfl⟩ : _ ∧ _ := by simpa only [Option.some.injEq, Prod.mk.injEq] using hawait
        exact .wrote htodo hphase hencode htype hget
    | failed =>
      simp only [htodo, hphase, Option.some.injEq, Prod.mk.injEq] at hstep
      obtain ⟨rfl, rfl, rfl⟩ := hstep
      exact .marked htodo hphase

/-- What a thread does outside of a request does not depend on the nodes. -/
theorem ThreadStep.of_step
    (hroute : ∀ r, thread.pc = .routing r → thread.route router t shared r = some (thread', shared', events) →
      RouteStep t thread shared r thread' shared' events)
    (hstep : thread.step router t shared = some (thread', shared', events)) :
    ThreadStep router t thread shared thread' shared' events := by
  unfold Thread.step at hstep
  cases hpc : thread.pc with
  | reading => simp [hpc] at hstep
  | closed => simp [hpc] at hstep
  | replying bytes =>
    simp only [hpc, Option.some.injEq, Prod.mk.injEq] at hstep
    obtain ⟨rfl, rfl, rfl⟩ := hstep
    exact .replied hpc
  | routing r =>
    simp only [hpc] at hstep
    exact .routed hpc (hroute r hpc hstep)
  | draining =>
    simp only [hpc, Option.map_eq_some_iff, Prod.exists, Prod.mk.injEq] at hstep
    obtain ⟨_, _, hdispatch, rfl, rfl, rfl⟩ := hstep
    unfold Thread.dispatch at hdispatch
    cases hcall : thread.parser.try_parse_request thread.req with
    | mk status out =>
      obtain ⟨req, parser⟩ := out
      cases status with
      | Incomplete =>
        simp only [hcall, Option.some.injEq, Prod.mk.injEq] at hdispatch
        obtain ⟨rfl, rfl⟩ := hdispatch
        exact .drained hpc hcall
      | Error =>
        simp only [hcall, Option.some.injEq, Prod.mk.injEq] at hdispatch
        obtain ⟨rfl, rfl⟩ := hdispatch
        exact .rejected hpc hcall
      | Complete =>
        by_cases hping : req.command = .Ping
        · simp only [hcall, if_pos hping, Option.some.injEq, Prod.mk.injEq] at hdispatch
          obtain ⟨rfl, rfl⟩ := hdispatch
          exact .pinged hpc hcall hping
        · simp only [hcall, if_neg hping] at hdispatch
          cases hlist : router.preference_list req.key with
          | none => simp [hlist] at hdispatch
          | some nodes =>
            simp only [hlist, Option.some.injEq, Prod.mk.injEq] at hdispatch
            obtain ⟨rfl, rfl⟩ := hdispatch
            exact .invoked hpc hcall hping hlist

theorem ThreadStep.route {r : Routing} (hstep : ThreadStep router t thread shared thread' shared' events)
    (hpc : thread.pc = .routing r) : RouteStep t thread shared r thread' shared' events := by
  cases hstep with
  | routed hpc' hroute =>
    obtain rfl := Pc.routing.inj (hpc.symm.trans hpc')
    exact hroute
  | drained hpc' => simp [hpc] at hpc'
  | rejected hpc' => simp [hpc] at hpc'
  | pinged hpc' => simp [hpc] at hpc'
  | invoked hpc' => simp [hpc] at hpc'
  | replied hpc' => simp [hpc] at hpc'

/-- A node that is up answers a ping, and its store is not touched. -/
theorem Node.ping_once_eq (self : Node) : self.ping_once = self.up := by
  obtain ⟨parser, hservice, _⟩ := service_client_encode_request KVStore.handle_request
    (show ({} : IncrementalParser).buffer_ = [] from rfl) (show Request.WellFormed ⟨.Ping, [], []⟩ from ⟨rfl, rfl⟩)
    self.store
  have hreceive : receive encode_pong_response = (.Complete, ⟨.Pong, [], []⟩) := by decide
  have hping : (self.store.handle_request ⟨.Ping, [], []⟩).1 = encode_pong_response := rfl
  simp [ping_once, hservice, hping, hreceive]

/-- Everything that can happen in any run. -/
inductive SystemStep (router : Router) (s : State) : Label → State → List Event → Prop
  | received {t : Nat} {data : Bytes} (hpc : (s.threads t).pc = .reading)
      (hdata : 0 < data.length ∧ data.length ≤ kReadSize) :
      SystemStep router s (.recv t data)
        (s.setThread t
          { s.threads t with
            pc := .draining, parser := (s.threads t).parser.feed data, req := ⟨.Ping, [], []⟩ })
        [.received t data]
  | closed {t : Nat} (hpc : (s.threads t).pc = .reading) :
      SystemStep router s (.hangup t) (s.setThread t { s.threads t with pc := .closed }) []
  | moved {t : Nat} {thread : Thread} {shared : Shared} {events : List Event}
      (hstep : ThreadStep router t (s.threads t) s.shared thread shared events) :
      SystemStep router s (.step t) { s.setThread t thread with shared } events
  | lost {t : Nat} {r : Routing} {node_id : Bytes} {todo : List Bytes} {bytes : Bytes} {conn : BackendConn}
      (hpc : (s.threads t).pc = .routing r) (htodo : r.todo = node_id :: todo) (hphase : r.phase = .await bytes)
      (hconn : (s.threads t).backend_conns node_id = some conn) (hbroken : s.shared.connected node_id conn = false) :
      SystemStep router s (.lose t) (s.setThread t ((s.threads t).routes { r with phase := .failed })) []
  | swept (hheartbeat : s.heartbeat = .sweeping []) :
      SystemStep router s .heartbeat { s with heartbeat := .sweeping router.nodes_ } []
  | pinging {addr : NodeAddress} {todo : List NodeAddress} (hheartbeat : s.heartbeat = .sweeping (addr :: todo)) :
      SystemStep router s .heartbeat { s with heartbeat := .pinging addr todo } []
  | pinged {addr : NodeAddress} {todo : List NodeAddress} (hheartbeat : s.heartbeat = .pinging addr todo) :
      SystemStep router s .heartbeat { s with heartbeat := .marking addr (s.shared.nodes addr.id).up todo } []
  | marked {addr : NodeAddress} {up : Bool} {todo : List NodeAddress}
      (hheartbeat : s.heartbeat = .marking addr up todo) :
      SystemStep router s .heartbeat { s with heartbeat := .sweeping todo, shared := s.shared.mark addr.id up } []
  | crashed {node_id : Bytes} :
      SystemStep router s (.crash node_id)
        { s with shared := s.shared.setNode node_id { s.shared.nodes node_id with up := false } } [.crashed node_id]
  | restarted {node_id : Bytes} :
      SystemStep router s (.restart node_id)
        { s with shared := s.shared.setNode node_id { epoch := (s.shared.nodes node_id).epoch + 1 } } []

theorem SystemStep.of_step {s s' : State} {label : Label}
    (hroute : ∀ t r, (s.threads t).pc = .routing r → ∀ {thread' shared' events},
      (s.threads t).route router t s.shared r = some (thread', shared', events) →
      RouteStep t (s.threads t) s.shared r thread' shared' events)
    (hstep : step router s label = some (s', events)) : SystemStep router s label s' events := by
  cases label with
  | recv t data =>
    simp only [step, Thread.recv, Option.map_eq_some_iff] at hstep
    obtain ⟨_, hrecv, hstate⟩ := hstep
    split at hrecv
    · rename_i hready
      obtain rfl := Option.some.inj hrecv
      obtain ⟨rfl, rfl⟩ := Prod.mk.inj hstate
      exact .received hready.1 hready.2
    · exact absurd hrecv (by simp)
  | hangup t =>
    simp only [step, Thread.hangup, Option.map_eq_some_iff] at hstep
    obtain ⟨_, hhangup, hstate⟩ := hstep
    split at hhangup
    · rename_i hpc
      obtain rfl := Option.some.inj hhangup
      obtain ⟨rfl, rfl⟩ := Prod.mk.inj hstate
      exact .closed hpc
    · exact absurd hhangup (by simp)
  | step t =>
    simp only [step, Option.map_eq_some_iff, Prod.exists] at hstep
    obtain ⟨thread, shared, evs, hthread, hstate⟩ := hstep
    obtain ⟨rfl, rfl⟩ := Prod.mk.inj hstate
    exact .moved (.of_step (fun r hpc => hroute t r hpc) hthread)
  | lose t =>
    simp only [step, Option.map_eq_some_iff] at hstep
    obtain ⟨thread, hlose, hstate⟩ := hstep
    obtain ⟨rfl, rfl⟩ := Prod.mk.inj hstate
    unfold Thread.lose at hlose
    split at hlose
    · rename_i r hpc
      split at hlose
      · rename_i node_id todo bytes htodo hphase
        split at hlose
        · exact absurd hlose (by simp)
        · rename_i conn hconn
          split at hlose
          · exact absurd hlose (by simp)
          · rename_i hbroken
            obtain rfl := Option.some.inj hlose
            exact .lost hpc htodo hphase hconn (by simpa using hbroken)
      · exact absurd hlose (by simp)
    · exact absurd hlose (by simp)
  | heartbeat =>
    simp only [step, Option.some.injEq] at hstep
    obtain ⟨rfl, rfl⟩ := Prod.mk.inj hstep
    cases hheartbeat : s.heartbeat with
    | sweeping todo =>
      cases todo with
      | nil => exact .swept hheartbeat
      | cons addr todo => exact .pinging hheartbeat
    | pinging addr todo =>
      simp only [Heartbeat.step, Node.ping_once_eq]
      exact .pinged hheartbeat
    | marking addr up todo => exact .marked hheartbeat
  | crash node_id =>
    simp only [step, Option.some.injEq] at hstep
    obtain ⟨rfl, rfl⟩ := Prod.mk.inj hstep
    exact .crashed
  | restart node_id =>
    simp only [step, Option.some.injEq] at hstep
    obtain ⟨rfl, rfl⟩ := Prod.mk.inj hstep
    exact .restarted

theorem ThreadOk.thread_step (hknown : router.Known) (hok : ThreadOk router shared.nodes thread)
    (hstep : thread.step router t shared = some (thread', shared', events)) :
    ThreadStep router t thread shared thread' shared' events :=
  .of_step (fun r hpc => (hok.routing r hpc).route_step hknown fun id conn hconn => (hok.conns id conn hconn).2) hstep

theorem Consistent.system_step (hknown : router.Known) {s s' : State} (hok : Consistent router s) {label : Label}
    (hstep : step router s label = some (s', events)) : SystemStep router s label s' events :=
  .of_step (fun t r hpc => ((hok.threads t).routing r hpc).route_step hknown fun id conn hconn =>
    ((hok.threads t).conns id conn hconn).2) hstep

/-- Where no node restarts, a connection is broken only if its node is down. -/
theorem ThreadOk.connected_eq (hok : ThreadOk router shared.nodes thread) {node_id : Bytes} {conn : BackendConn}
    (hconn : thread.backend_conns node_id = some conn) :
    shared.connected node_id conn = (shared.nodes node_id).up := by
  simp [Shared.connected, (hok.conns node_id conn hconn).1]

/-- Each node of the list is visited once. -/
theorem RoutingOk.not_mem_todo {nodes : Bytes → Node} {r : Routing} (hr : RoutingOk router nodes thread r)
    {node_id : Bytes} {todo : List Bytes} (htodo : r.todo = node_id :: todo) : node_id ∉ todo := by
  have hnodup := Router.preference_list_nodup hr.listed
  obtain ⟨visited, hlist⟩ := hr.todo
  rw [hlist, htodo, List.nodup_append] at hnodup
  exact (List.nodup_cons.mp hnodup.2.1).1

end kv.router
