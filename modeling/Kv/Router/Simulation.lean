import Kv.Router.Calm
import Kv.Server.System

namespace kv.router

open kv.protocol Transition

/-- A thread seen as a connection of one server. A request counts as executed
    once its primary has executed it; what the other replicas do is not seen. -/
def Thread.connection (self : Thread) : server.Connection where
  pc :=
    match self.pc with
    | .reading => .reading
    | .draining => .draining
    | .routing r =>
      match r.first_success, r.phase with
      | some resp, _ => .replying (encode_response resp)
      | none, .await bytes => .replying bytes
      | none, _ => .executing self.req
    | .replying bytes => .replying bytes
    | .closed => .closed
  parser := self.parser
  req := self.req

section

variable {self : Thread} {r : Routing} (hpc : self.pc = .routing r)

include hpc

theorem Thread.connection_answered {resp : Response} (hsuccess : r.first_success = some resp) :
    self.connection.pc = .replying (encode_response resp) := by
  simp [connection, hpc, hsuccess]

theorem Thread.connection_await {bytes : Bytes} (hsuccess : r.first_success = none) (hphase : r.phase = .await bytes) :
    self.connection.pc = .replying bytes := by
  simp [connection, hpc, hsuccess, hphase]

theorem Thread.connection_executing (hsuccess : r.first_success = none) (hphase : ∀ bytes, r.phase ≠ .await bytes) :
    self.connection.pc = .executing self.req := by
  cases hcase : r.phase with
  | await bytes => exact absurd hcase (hphase bytes)
  | _ => simp [connection, hpc, hsuccess, hcase]

end

theorem Thread.connection_ext {self other : Thread} (hpc : self.connection.pc = other.connection.pc)
    (hparser : self.parser = other.parser) (hreq : self.req = other.req) : self.connection = other.connection := by
  exact server.Connection.ext hpc hparser hreq

/-- Only an execution shows at the connection. -/
theorem CalmMove.connection_eq {t : Nat} {thread thread' : Thread} {shared shared' : Shared} {r : Routing}
    {events : List Event} (hmove : CalmMove t thread shared r thread' shared' events) (hpc : thread.pc = .routing r)
    (hstraight : r.Straight thread.req) (hevents : ∀ node_id, events ≠ [.executed node_id t thread.req]) :
    thread'.connection = thread.connection := by
  cases hmove with
  | executed => exact absurd rfl (hevents _)
  | answered htodo hsuccess =>
    exact Thread.connection_ext (Thread.connection_answered hpc hsuccess).symm rfl rfl
  | @prepared phase _ hbefore hafter hpc' hreq hparser =>
    refine Thread.connection_ext ?_ hparser hreq
    cases hsuccess : r.first_success with
    | some resp => rw [Thread.connection_answered hpc' hsuccess, Thread.connection_answered hpc hsuccess]
    | none =>
      rw [Thread.connection_executing hpc' hsuccess hafter, Thread.connection_executing hpc hsuccess hbefore, hreq]
  | read htodo hphase hencode hget =>
    subst hencode
    cases hsuccess : r.first_success with
    | some resp => exact absurd hget (hstraight.later resp hsuccess).1
    | none => exact Thread.connection_ext (Thread.connection_await hpc hsuccess hphase).symm rfl rfl
  | wrote htodo hphase hencode hget =>
    subst hencode
    refine Thread.connection_ext ?_ rfl rfl
    rw [Thread.connection_answered (Thread.routes_pc _ _) rfl]
    cases hsuccess : r.first_success with
    | some resp => exact (Thread.connection_answered hpc hsuccess).symm
    | none => exact (Thread.connection_await hpc hsuccess hphase).symm

/-- What shows of an event: the bytes exchanged with the clients, and the
    executions at the primaries. -/
def observe (router : Router) : Event → Option server.Event
  | .received t data => some (.received t data)
  | .invoked t req => some (.invoked t req)
  | .executed node_id t req => if router.primary req.key = some node_id then some (.executed t req) else none
  | .sent t bytes => some (.sent t bytes)
  | .returned _ _ _ => none
  | .crashed _ => none

/-- One server over a plain map. -/
def plainServer : System (server.State PlainMap) server.Label server.Event :=
  server.system PlainMap.handle_request fun _ => none

/-- The router and the server agree on every connection, and the primary of
    each key holds what the server's map does. -/
structure Matches (router : Router) (s : State) (a : server.State PlainMap) : Prop where
  connections : ∀ t, a.connections t = (s.threads t).connection
  store : ∀ key primary, router.primary key = some primary → a.store key = (s.shared.nodes primary).store.get key

variable {router : Router} {s : State} {a : server.State PlainMap} {t : Nat} {thread : Thread} {shared : Shared}

theorem matches_init : Matches router (system router).init plainServer.init where
  connections _ := rfl
  store _ _ _ := rfl

theorem Matches.setConnection (hmatches : Matches router s a) (t : Nat) (thread : Thread) {shared : Shared}
    {store : PlainMap}
    (hstore : ∀ key primary, router.primary key = some primary → store key = (shared.nodes primary).store.get key) :
    Matches router { s.setThread t thread with shared }
      { a.setConnection t thread.connection with store } where
  connections t' := by
    change Function.update a.connections t thread.connection t' = (Function.update s.threads t thread t').connection
    by_cases heq : t' = t
    · subst heq
      rw [Function.update_self, Function.update_self]
    · rw [Function.update_of_ne heq, Function.update_of_ne heq]
      exact hmatches.connections t'
  store := hstore

/-- A step that does not show. -/
theorem Matches.stay (hmatches : Matches router s a) (hconnection : thread.connection = (s.threads t).connection)
    (hstore : ∀ key primary, router.primary key = some primary →
      (shared.nodes primary).store.get key = (s.shared.nodes primary).store.get key) :
    Matches router { s.setThread t thread with shared } a := by
  have hself : a = { a.setConnection t thread.connection with store := a.store } := by
    have hsame : Function.update a.connections t thread.connection = a.connections := by
      rw [hconnection, ← hmatches.connections t, Function.update_eq_self]
    simp [server.State.setConnection, hsame]
  rw [hself]
  apply hmatches.setConnection
  intro key primary hprimary
  rw [hstore key primary hprimary]
  exact hmatches.store key primary hprimary

theorem run_connection {c : server.Connection} {store : PlainMap} {events : List server.Event}
    (hstep : (a.connections t).step PlainMap.handle_request t a.store = some (c, store, events)) :
    Run plainServer (fun _ => True) a events { a.setConnection t c with store } := by
  have hlabel : plainServer.step a (.step t) = some ({ a.setConnection t c with store }, events) := by
    simp [plainServer, server.system, server.step, hstep]
  exact .single trivial hlabel

/-- A step that the server takes too. -/
theorem Matches.follow (hmatches : Matches router s a) (thread : Thread) {store : PlainMap}
    {events : List server.Event}
    (hstep : (s.threads t).connection.step PlainMap.handle_request t a.store =
      some (thread.connection, store, events))
    (hstore : ∀ key primary, router.primary key = some primary → store key = (shared.nodes primary).store.get key) :
    ∃ a', Run plainServer (fun _ => True) a events a' ∧ Matches router { s.setThread t thread with shared } a' := by
  rw [← hmatches.connections t] at hstep
  exact ⟨_, run_connection hstep, hmatches.setConnection t thread hstore⟩

theorem Matches.recv (hmatches : Matches router s a) {data : Bytes}
    (hrecv : (s.threads t).connection.recv data = some thread.connection) :
    ∃ a', Run plainServer (fun _ => True) a [.received t data] a' ∧ Matches router (s.setThread t thread) a' := by
  have hlabel :
      plainServer.step a (.recv t data) = some (a.setConnection t thread.connection, [.received t data]) := by
    simp [plainServer, server.system, server.step, hmatches.connections t, hrecv]
  exact ⟨_, .single trivial hlabel, hmatches.setConnection t thread hmatches.store⟩

theorem Matches.hangup (hmatches : Matches router s a)
    (hhangup : (s.threads t).connection.hangup = some thread.connection) :
    ∃ a', Run plainServer (fun _ => True) a [] a' ∧ Matches router (s.setThread t thread) a' := by
  have hlabel : plainServer.step a (.hangup t) = some (a.setConnection t thread.connection, []) := by
    simp [plainServer, server.system, server.step, hmatches.connections t, hhangup]
  exact ⟨_, .single trivial hlabel, hmatches.setConnection t thread hmatches.store⟩

theorem observe_executed_primary {node_id : Bytes} {req : Request} (hprimary : router.primary req.key = some node_id)
    (t : Nat) : [Event.executed node_id t req].filterMap (observe router) = [.executed t req] := by
  simp [observe, hprimary]

theorem observe_executed_other {node_id : Bytes} {req : Request} (hother : router.primary req.key ≠ some node_id)
    (t : Nat) : [Event.executed node_id t req].filterMap (observe router) = [] := by
  simp [observe, hother]

theorem get_setNode_of_ne {node_id other : Bytes} {node : Node} (key : Bytes) (hne : other ≠ node_id) :
    ((shared.setNode node_id node).nodes other).store.get key = (shared.nodes other).store.get key := by
  rw [Shared.setNode_nodes, Function.update_of_ne hne]

/-- The node of a request is its primary exactly until the primary has answered. -/
theorem Routing.Straight.primary_iff {req : Request} {r : Routing} {node_id : Bytes} {todo : List Bytes}
    (hstraight : r.Straight req) (hlist : router.preference_list req.key = some r.preference_list)
    (htodo : r.todo = node_id :: todo) : router.primary req.key = some node_id ↔ r.first_success = none := by
  cases hsuccess : r.first_success with
  | none =>
    rw [← hstraight.first hsuccess, htodo] at hlist
    simp [Router.primary_eq hlist]
  | some resp =>
    obtain ⟨_, primary, rest, hids, hrest⟩ := hstraight.later resp hsuccess
    have hnodup := Router.preference_list_nodup hlist
    rw [hids] at hlist hnodup
    have hmem : node_id ∈ rest := hrest.subset (by simp [htodo])
    rw [Router.primary_eq hlist]
    simp only [Option.some.injEq, reduceCtorEq, iff_false]
    rintro rfl
    exact (List.nodup_cons.mp hnodup).1 hmem

/-- Executions at the primary are executions of the server, and those at the
    other replicas do not show. -/
theorem Matches.execute (hmatches : Matches router s a) {r : Routing}
    (hr : RoutingOk router s.shared.nodes (s.threads t) r)
    (hstraight : r.Straight (s.threads t).req) (hpc : (s.threads t).pc = .routing r) {node_id : Bytes}
    {todo : List Bytes}
    (htodo : r.todo = node_id :: todo) (hphase : r.phase = .forward)
    (hpc' : thread.pc = .routing { r with
      phase := .await (reply (s.threads t).req ((s.shared.nodes node_id).store.get (s.threads t).req.key)) })
    (hreq : thread.req = (s.threads t).req) (hparser : thread.parser = (s.threads t).parser) :
    ∃ a', Run plainServer (fun _ => True) a
        ([Event.executed node_id t (s.threads t).req].filterMap (observe router)) a' ∧
      Matches router { s.setThread t thread with
        shared := s.shared.setNode node_id { s.shared.nodes node_id with
          store := ((s.shared.nodes node_id).store.handle_request (s.threads t).req).2 } } a' := by
  have hiff := hstraight.primary_iff hr.listed htodo
  cases hsuccess : r.first_success with
  | none =>
    have hprimary := hiff.mpr hsuccess
    have hheld := hmatches.store _ _ hprimary
    rw [observe_executed_primary hprimary]
    apply hmatches.follow thread
    · have hping := hr.command
      simp only [Thread.connection, hpc, hpc', hsuccess, hphase, hreq, hparser, server.Connection.step,
        PlainMap.handle_request, server.storeEvent, if_neg hping, hheld]
      rfl
    · intro key primary hprimary'
      rw [Function.update_apply]
      split
      · rename_i hkey
        subst hkey
        obtain rfl := Option.some.inj (hprimary.symm.trans hprimary')
        rw [Shared.setNode_nodes, Function.update_self, KVStore.get_handle_request, if_pos rfl]
      · rename_i hkey
        rw [hmatches.store key primary hprimary']
        by_cases heq : primary = node_id
        · subst heq
          rw [Shared.setNode_nodes, Function.update_self, KVStore.get_handle_request, if_neg hkey]
        · rw [get_setNode_of_ne key heq]
  | some resp =>
    have hother : router.primary (s.threads t).req.key ≠ some node_id := by simp [hiff, hsuccess]
    rw [observe_executed_other hother]
    refine ⟨a, .nil, hmatches.stay ?_ ?_⟩
    · simp only [Thread.connection, hpc, hpc', hsuccess, hreq, hparser]
    · intro key primary hprimary'
      by_cases heq : primary = node_id
      · subst heq
        have hkey : key ≠ (s.threads t).req.key := by
          rintro rfl
          exact hother hprimary'
        rw [Shared.setNode_nodes, Function.update_self, KVStore.get_handle_request, if_neg hkey]
      · rw [get_setNode_of_ne key heq]

theorem Matches.route (hmatches : Matches router s a) {r : Routing}
    (hr : RoutingOk router s.shared.nodes (s.threads t) r)
    (hstraight : r.Straight (s.threads t).req) (hpc : (s.threads t).pc = .routing r) {events : List Event}
    (hmove : CalmMove t (s.threads t) s.shared r thread shared events) :
    ∃ a', Run plainServer (fun _ => True) a (events.filterMap (observe router)) a' ∧
      Matches router { s.setThread t thread with shared } a' := by
  have hquiet := hmove.connection_eq hpc hstraight
  cases hmove with
  | executed htodo hphase hpc' hreq hparser =>
    exact hmatches.execute hr hstraight hpc htodo hphase hpc' hreq hparser
  | answered => exact ⟨a, .nil, hmatches.stay (hquiet (by simp)) fun _ _ _ => rfl⟩
  | prepared => exact ⟨a, .nil, hmatches.stay (hquiet (by simp)) fun _ _ _ => rfl⟩
  | read => exact ⟨a, .nil, hmatches.stay (hquiet (by simp)) fun _ _ _ => rfl⟩
  | wrote => exact ⟨a, .nil, hmatches.stay (hquiet (by simp)) fun _ _ _ => rfl⟩

theorem Matches.move (hled : router.Led) (hknown : router.Known) (hok : Consistent router s) (hcalm : Calm s)
    (hmatches : Matches router s a) {label : Label} (hlabel : NoFailure label) {s' : State} {events : List Event}
    (hmove : SystemStep router s label s' events) :
    ∃ a', Run plainServer (fun _ => True) a (events.filterMap (observe router)) a' ∧ Matches router s' a' := by
  cases hmove with
  | @received t data hpc hdata =>
    apply hmatches.recv
    simp only [Thread.connection, hpc, server.Connection.recv]
    exact if_pos ⟨trivial, hdata⟩
  | @closed t hpc =>
    apply hmatches.hangup
    simp only [Thread.connection, hpc, server.Connection.hangup]
    exact if_pos trivial
  | lost _ _ _ hconn hbroken => simp [hcalm.connected hok hconn] at hbroken
  | swept => exact ⟨a, .nil, hmatches.connections, hmatches.store⟩
  | pinging => exact ⟨a, .nil, hmatches.connections, hmatches.store⟩
  | pinged => exact ⟨a, .nil, hmatches.connections, hmatches.store⟩
  | marked => exact ⟨a, .nil, hmatches.connections, hmatches.store⟩
  | crashed => exact absurd hlabel (by simp [NoFailure])
  | restarted => exact absurd hlabel (by simp [NoFailure])
  | @moved t thread shared events hmove =>
    cases hmove with
    | drained hpc hcall =>
      apply hmatches.follow _ _ hmatches.store
      simp [Thread.connection, hpc, server.Connection.step, hcall]
    | rejected hpc hcall =>
      apply hmatches.follow _ _ hmatches.store
      simp [Thread.connection, hpc, server.Connection.step, hcall]
    | @pinged req parser hpc hcall hping =>
      -- The server executes the `PING`, which the router answers itself.
      have hparse : (a.connections t).step PlainMap.handle_request t a.store =
          some (⟨.executing req, parser, req⟩, a.store, []) := by
        simp [hmatches.connections t, Thread.connection, hpc, server.Connection.step, hcall, server.storeEvent, hping]
      have hanswer : (⟨.executing req, parser, req⟩ : server.Connection).step PlainMap.handle_request t a.store =
          some (⟨.replying encode_pong_response, parser, req⟩, a.store, []) := by
        simp [server.Connection.step, server.storeEvent, hping, PlainMap.handle_request, reply, result]
      have hfirst := run_connection hparse
      have hsecond := @run_connection { a.setConnection t ⟨.executing req, parser, req⟩ with store := a.store } t
        ⟨.replying encode_pong_response, parser, req⟩ a.store []
        (by simpa [server.State.setConnection] using hanswer)
      refine ⟨_, hfirst.append hsecond, ?_⟩
      simp only [server.State.setConnection, Function.update_idem]
      exact hmatches.setConnection t { s.threads t with pc := .replying encode_pong_response, parser, req }
        hmatches.store
    | invoked hpc hcall hping hlist =>
      apply hmatches.follow _ _ hmatches.store
      simp [Thread.connection, hpc, server.Connection.step, hcall, server.storeEvent, hping, observe]
    | replied hpc =>
      apply hmatches.follow _ _ hmatches.store
      simp [Thread.connection, hpc, server.Connection.step, observe]
    | @routed r _ _ _ hpc hroute =>
      have hmove := hcalm.move hled hknown hok hpc hroute
      exact hmatches.route ((hok.threads t).routing r hpc) (hcalm.straight t r hpc) hpc hmove

end kv.router
