import Kv.Router.CrashStop

namespace kv.router

open kv.protocol Transition

/-- Nodes of which nothing is known. In front of them `RoutingOk` says what a
    request has to do and what it has heard, but not why a forward failed. -/
def anyNodes : Bytes → Node := fun _ => { up := false }

/-- A thread when nodes may restart: its connections may be stale, but none has
    an unfinished request on it. -/
structure ThreadSane (router : Router) (thread : Thread) : Prop where
  conns : ∀ node_id conn, thread.backend_conns node_id = some conn → conn.parser.buffer_ = []
  routing : ∀ r, thread.pc = .routing r → RoutingOk router anyNodes thread r
  success : ∀ r resp, thread.pc = .routing r → r.first_success = some resp → resp.type ≠ .Error

/-- The invariant of all runs. -/
structure Sane (router : Router) (s : State) : Prop where
  threads : ∀ t, ThreadSane router (s.threads t)
  values : ∀ node_id key value, (s.shared.nodes node_id).store.get key = some value → value.length ≤ kMaxValueLen
  known : ∀ addr ∈ router.nodes_, s.shared.alive_ addr.id ≠ none

variable {router : Router} {t : Nat} {thread thread' : Thread} {shared shared' : Shared} {events : List Event}
  {s s' : State} {label : Label}

theorem Sane.step (hknown : router.Known) (hsane : Sane router s) (hstep : step router s label = some (s', events)) :
    SystemStep router s label s' events :=
  .of_step (fun t r hpc => ((hsane.threads t).routing r hpc).route_step hknown (hsane.threads t).conns) hstep

theorem ThreadSane.of_idle (hsane : ThreadSane router thread) (hconns : thread'.backend_conns = thread.backend_conns)
    (hpc : ∀ r, thread'.pc ≠ .routing r) : ThreadSane router thread' where
  conns := hconns ▸ hsane.conns
  routing r hr := absurd hr (hpc r)
  success r _ hr := absurd hr (hpc r)

/-- A thread goes on with its request. -/
theorem ThreadSane.of_routes (hconns : ∀ node_id conn, thread.backend_conns node_id = some conn →
    conn.parser.buffer_ = [])
    {r : Routing} (hpc : thread.pc = .routing r) (hr : RoutingOk router anyNodes thread r)
    (hsuccess : ∀ resp, r.first_success = some resp → resp.type ≠ .Error) : ThreadSane router thread where
  conns := hconns
  routing r' hpc' := by
    obtain rfl := Pc.routing.inj (hpc.symm.trans hpc')
    exact hr
  success r' resp hpc' := by
    obtain rfl := Pc.routing.inj (hpc.symm.trans hpc')
    exact hsuccess resp

theorem ThreadSane.conns_setConn (hsane : ThreadSane router thread) {node_id : Bytes} {conn : Option BackendConn}
    (hconn : ∀ c, conn = some c → c.parser.buffer_ = []) :
    ∀ other c, (thread.setConn node_id conn).backend_conns other = some c → c.parser.buffer_ = [] :=
  (Function.forall_update_iff thread.backend_conns fun _ conn => ∀ c, conn = some c → c.parser.buffer_ = []).mpr
    ⟨hconn, fun other _ => hsane.conns other⟩

theorem RouteStep.sane {r : Routing} (hsane : ThreadSane router thread)
    (hvalues : ∀ node_id key value, (shared.nodes node_id).store.get key = some value → value.length ≤ kMaxValueLen)
    (hpc : thread.pc = .routing r) (hstep : RouteStep t thread shared r thread' shared' events) :
    ThreadSane router thread' := by
  have hr := hsane.routing r hpc
  have hsuccess (resp : Response) := hsane.success r resp hpc
  cases hstep with
  | exhausted => exact hsane.of_idle rfl (by simp)
  | read => exact hsane.of_idle rfl (by simp)
  | skipped htodo => exact .of_routes hsane.conns rfl (hr.pass (by rfl) htodo _) hsuccess
  | chosen htodo => exact .of_routes hsane.conns rfl (hr.enter (by rfl) htodo trivial) hsuccess
  | cached htodo _ hconn => exact .of_routes hsane.conns rfl (hr.enter (by rfl) htodo ⟨_, hconn⟩) hsuccess
  | refused htodo => exact .of_routes hsane.conns rfl (hr.enter (by rfl) htodo rfl) hsuccess
  | broken htodo => exact .of_routes hsane.conns rfl (hr.enter (by rfl) htodo rfl) hsuccess
  | opened htodo =>
    refine .of_routes (hsane.conns_setConn fun c hc => ?_) rfl (hr.enter (by rfl) htodo ⟨_, Function.update_self ..⟩)
      hsuccess
    obtain rfl := Option.some.inj hc
    rfl
  | @executed node_id _ _ _ htodo _ _ _ hparser =>
    refine .of_routes (hsane.conns_setConn fun c hc => ?_) rfl
      (hr.enter (by rfl) htodo ⟨⟨_, Function.update_self ..⟩, _, rfl, hvalues node_id thread.req.key⟩) hsuccess
    obtain rfl := Option.some.inj hc
    exact hparser
  | marked htodo => exact .of_routes (hsane.conns_setConn (by simp)) rfl (hr.pass (by rfl) htodo _) hsuccess
  | @wrote _ _ _ resp htodo _ _ htype =>
    refine .of_routes hsane.conns rfl (hr.pass (by rfl) htodo _) fun resp' hresp => ?_
    obtain rfl := Option.some.inj hresp
    cases hfirst : r.first_success with
    | none => exact htype
    | some first => exact hsuccess first hfirst

theorem ThreadStep.sane (hsane : ThreadSane router thread)
    (hvalues : ∀ node_id key value, (shared.nodes node_id).store.get key = some value → value.length ≤ kMaxValueLen)
    (hstep : ThreadStep router t thread shared thread' shared' events) : ThreadSane router thread' := by
  cases hstep with
  | drained => exact hsane.of_idle rfl (by simp)
  | rejected => exact hsane.of_idle rfl (by simp)
  | pinged => exact hsane.of_idle rfl (by simp)
  | replied => exact hsane.of_idle rfl (by simp)
  | routed hpc hroute => exact hroute.sane hsane hvalues hpc
  | invoked hpc hcall hping hlist =>
    exact .of_routes hsane.conns rfl
      ⟨IncrementalParser.try_parse_request_wellFormed hcall, hping, hlist, ⟨[], rfl⟩, fun _ _ _ => trivial⟩ (by simp)

/-- A thread changes the nodes by the requests they execute, and the flags by
    marking nodes down. -/
theorem ThreadStep.shared_cases (hstep : ThreadStep router t thread shared thread' shared' events) :
    shared' = shared ∨ (∃ node_id, shared' = shared.mark node_id false) ∨
      ∃ node_id, shared' = shared.setNode node_id
        { shared.nodes node_id with store := ((shared.nodes node_id).store.handle_request thread.req).2 } ∧
        ∃ r, thread.pc = .routing r := by
  cases hstep with
  | routed hpc hroute =>
    cases hroute with
    | @executed node_id => exact .inr (.inr ⟨node_id, rfl, _, hpc⟩)
    | @marked node_id => exact .inr (.inl ⟨node_id, rfl⟩)
    | _ => exact .inl rfl
  | _ => exact .inl rfl

theorem Sane.setThread (hsane : Sane router s) (hthread : ThreadSane router thread) :
    Sane router (s.setThread t thread) where
  threads := (Function.forall_update_iff s.threads fun _ thread => ThreadSane router thread).mpr
    ⟨hthread, fun t' _ => hsane.threads t'⟩
  values := hsane.values
  known := hsane.known

theorem Sane.keep (hsane : Sane router s) (hstep : SystemStep router s label s' events) : Sane router s' := by
  cases hstep with
  | @received t => exact hsane.setThread ((hsane.threads t).of_idle rfl (by simp))
  | @closed t => exact hsane.setThread ((hsane.threads t).of_idle rfl (by simp))
  | @lost t r _ _ _ _ hpc htodo =>
    have hthread := hsane.threads t
    have hr :
        RoutingOk router anyNodes ((s.threads t).routes { r with phase := .failed }) { r with phase := .failed } :=
      (hthread.routing r hpc).enter (by rfl) htodo rfl
    exact hsane.setThread (.of_routes hthread.conns rfl hr fun resp => hthread.success r resp hpc)
  | @moved t thread shared _ htaken =>
    have hthread := hsane.setThread (t := t) (htaken.sane (hsane.threads t) hsane.values)
    rcases htaken.shared_cases with rfl | ⟨node_id, rfl⟩ | ⟨node_id, rfl, r, hpc⟩
    · exact hthread
    · exact { hthread with known := fun addr haddr => known_update (hsane.known addr haddr) node_id false }
    · have hset := (((hsane.threads t).routing r hpc).wellFormed).length_value
      exact { hthread with
        values := values_setNode hsane.values node_id fun _ _ =>
          KVStore.length_get_handle_request hset (hsane.values node_id) }
  | swept => exact { hsane with }
  | pinging => exact { hsane with }
  | pinged => exact { hsane with }
  | @marked addr up =>
    exact { hsane with known := fun addr' haddr => known_update (hsane.known addr' haddr) addr.id up }
  | @crashed node_id => exact { hsane with values := values_setNode hsane.values node_id (hsane.values node_id) }
  | @restarted node_id => exact { hsane with values := values_setNode hsane.values node_id (by simp) }

theorem sane_init : Sane router (system router).init where
  threads t := ⟨by simp [system], by simp [system], by simp [system]⟩
  values node_id key value hget := absurd hget (by simp [system])
  known := consistent_init.known

theorem sane_of_run (hknown : router.Known) {P : Label → Prop} {trace : List Event}
    (hrun : Run (system router) P (system router).init trace s) : Sane router s :=
  hrun.invariant (C := fun _ => True) (I := fun _ => Sane router) (fun _ _ _ => trivial) sane_init
    (fun _ _ _ _ _ hsane _ _ hstep => hsane.keep (hsane.step hknown hstep)) trivial

/-- An event of a request of the thread. -/
def Event.ByThread (t : Nat) : Event → Prop
  | .invoked t' _ => t' = t
  | .executed _ t' _ => t' = t
  | .returned t' _ _ => t' = t
  | _ => False

/-- A thread shows no events of the requests of other threads. -/
theorem ThreadStep.byThread {t' : Nat} (hstep : ThreadStep router t thread shared thread' shared' events)
    (hne : t ≠ t') : ∀ event ∈ events, ¬ event.ByThread t' := by
  cases hstep with
  | routed _ hroute => cases hroute <;> simp [Event.ByThread, hne]
  | _ => simp [Event.ByThread, hne]

/-- What a step of the system is to one thread. -/
inductive View (router : Router) (t : Nat) (s s' : State) (events : List Event) : Prop
  | unchanged (hthread : s'.threads t = s.threads t) (hevents : ∀ event ∈ events, ¬ event.ByThread t)
  | told (hconns : (s'.threads t).backend_conns = (s.threads t).backend_conns) (hpc : (s.threads t).pc = .reading)
      (hpc' : ∀ r, (s'.threads t).pc ≠ .routing r) (hevents : ∀ event ∈ events, ¬ event.ByThread t)
  | moved (hstep : ThreadStep router t (s.threads t) s.shared (s'.threads t) s'.shared events)
  | lost {r : Routing} {node_id : Bytes} {todo : List Bytes} {bytes : Bytes} {conn : BackendConn}
      (hpc : (s.threads t).pc = .routing r) (htodo : r.todo = node_id :: todo) (hphase : r.phase = .await bytes)
      (hconn : (s.threads t).backend_conns node_id = some conn) (hbroken : s.shared.connected node_id conn = false)
      (hthread : s'.threads t = (s.threads t).routes { r with phase := .failed }) (hevents : events = [])

theorem SystemStep.view (hstep : SystemStep router s label s' events) (t : Nat) : View router t s s' events := by
  have hself {thread : Thread} : (s.setThread t thread).threads t = thread := Function.update_self ..
  have hother {t' : Nat} {thread : Thread} (hne : t ≠ t') : (s.setThread t' thread).threads t = s.threads t :=
    Function.update_of_ne hne ..
  cases hstep with
  | @received t' data hpc =>
    by_cases heq : t = t'
    · subst heq
      exact .told (by rw [hself]) hpc (by simp [hself]) (by simp [Event.ByThread])
    · exact .unchanged (hother heq) (by simp [Event.ByThread])
  | @closed t' hpc =>
    by_cases heq : t = t'
    · subst heq
      exact .told (by rw [hself]) hpc (by simp [hself]) (by simp)
    · exact .unchanged (hother heq) (by simp)
  | @moved t' thread shared _ htaken =>
    by_cases heq : t = t'
    · subst heq
      have hthread : ({ s.setThread t thread with shared } : State).threads t = thread := hself
      exact .moved (by rwa [hthread])
    · exact .unchanged (hother heq) (htaken.byThread (Ne.symm heq))
  | @lost t' r _ _ _ _ hpc htodo hphase hconn hbroken =>
    by_cases heq : t = t'
    · subst heq
      exact .lost hpc htodo hphase hconn hbroken hself rfl
    · exact .unchanged (hother heq) (by simp)
  | _ => exact .unchanged rfl (by simp [Event.ByThread])

end kv.router
