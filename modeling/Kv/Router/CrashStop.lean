import Kv.Router.Steps

namespace kv.router

open kv.protocol Transition

variable {router : Router} {t : Nat} {thread thread' : Thread} {shared shared' : Shared} {events : List Event}

/-- Going on with the same request, further down the list or in another phase. -/
theorem RoutingOk.next {nodes nodes' : Bytes → Node} {r r' : Routing} (hr : RoutingOk router nodes thread r)
    (hreq : thread'.req = thread.req) (hlist : r'.preference_list = r.preference_list)
    (htodo : r'.todo = r.todo ∨ ∃ node_id, r.todo = node_id :: r'.todo)
    (hphase : ∀ node_id todo, r'.todo = node_id :: todo → PhaseOk nodes' thread' node_id r'.phase) :
    RoutingOk router nodes' thread' r' where
  wellFormed := hreq ▸ hr.wellFormed
  command := hreq ▸ hr.command
  listed := by rw [hreq, hlist, hr.listed]
  todo := by
    obtain ⟨visited, hsplit⟩ := hr.todo
    rcases htodo with hsame | ⟨node_id, hnext⟩
    · exact ⟨visited, by rw [hlist, hsame, hsplit]⟩
    · exact ⟨visited ++ [node_id], by rw [hlist, hsplit, hnext, List.append_assoc, List.singleton_append]⟩
  phase := hphase

/-- Another phase for the same node. -/
theorem RoutingOk.enter {nodes nodes' : Bytes → Node} {r : Routing} (hr : RoutingOk router nodes thread r)
    (hreq : thread'.req = thread.req) {node_id : Bytes} {todo : List Bytes} (htodo : r.todo = node_id :: todo)
    {phase : Phase} (hphase : PhaseOk nodes' thread' node_id phase) :
    RoutingOk router nodes' thread' { r with phase } := by
  refine hr.next hreq rfl (.inl rfl) fun node_id' todo' htodo' => ?_
  obtain ⟨rfl, _⟩ := List.cons.inj (htodo.symm.trans htodo')
  exact hphase

/-- The loop goes on with the next node. -/
theorem RoutingOk.pass {nodes nodes' : Bytes → Node} {r : Routing} (hr : RoutingOk router nodes thread r)
    (hreq : thread'.req = thread.req) {node_id : Bytes} {todo : List Bytes} (htodo : r.todo = node_id :: todo)
    (first_success : Option Response) :
    RoutingOk router nodes' thread' { r with todo, phase := .check, first_success } :=
  hr.next hreq rfl (.inr ⟨node_id, htodo⟩) fun _ _ _ => trivial

theorem RoutingOk.phase_of {nodes : Bytes → Node} {r : Routing} (hr : RoutingOk router nodes thread r)
    {node_id : Bytes} {todo : List Bytes} (htodo : r.todo = node_id :: todo) {phase : Phase}
    (hphase : r.phase = phase) :
    PhaseOk nodes thread node_id phase :=
  hphase ▸ hr.phase node_id todo htodo

theorem ThreadOk.of_conns {nodes : Bytes → Node} (hok : ThreadOk router nodes thread)
    (hconns : thread'.backend_conns = thread.backend_conns)
    (hrouting : ∀ r, thread'.pc = .routing r → RoutingOk router nodes thread' r) : ThreadOk router nodes thread' where
  conns := by
    rw [hconns]
    exact hok.conns
  routing := hrouting

theorem ThreadOk.of_routing {nodes : Bytes → Node} {r : Routing}
    (hconns : ∀ node_id conn, thread.backend_conns node_id = some conn →
      conn.epoch = (nodes node_id).epoch ∧ conn.parser.buffer_ = [])
    (hpc : thread.pc = .routing r) (hr : RoutingOk router nodes thread r) : ThreadOk router nodes thread where
  conns := hconns
  routing r' hpc' := by
    obtain rfl := Pc.routing.inj (hpc.symm.trans hpc')
    exact hr

theorem ThreadOk.conns_setConn {nodes : Bytes → Node} (hok : ThreadOk router nodes thread) {node_id : Bytes}
    {conn : Option BackendConn}
    (hconn : ∀ c, conn = some c → c.epoch = (nodes node_id).epoch ∧ c.parser.buffer_ = []) {other : Bytes}
    {c : BackendConn} (hother : (thread.setConn node_id conn).backend_conns other = some c) :
    c.epoch = (nodes other).epoch ∧ c.parser.buffer_ = [] := by
  rw [Thread.setConn_conns] at hother
  by_cases heq : other = node_id
  · subst heq
    rw [Function.update_self] at hother
    exact hconn c hother
  · rw [Function.update_of_ne heq] at hother
    exact hok.conns other c hother

theorem RouteStep.ages {r : Routing} (hmove : RouteStep t thread shared r thread' shared' events) :
    Ages shared.nodes shared'.nodes := by
  cases hmove with
  | executed => exact Ages.setNode rfl id
  | _ => exact Ages.refl _

theorem RouteStep.threadOk {r : Routing} (hok : ThreadOk router shared.nodes thread)
    (hvalues : ∀ node_id key value, (shared.nodes node_id).store.get key = some value → value.length ≤ kMaxValueLen)
    (hpc : thread.pc = .routing r) (hmove : RouteStep t thread shared r thread' shared' events) :
    ThreadOk router shared'.nodes thread' := by
  have hr := hok.routing r hpc
  cases hmove with
  | exhausted => exact hok.of_conns rfl (by simp)
  | read => exact hok.of_conns rfl (by simp)
  | skipped htodo => exact .of_routing hok.conns rfl (hr.pass (by rfl) htodo _)
  | wrote htodo => exact .of_routing hok.conns rfl (hr.pass (by rfl) htodo _)
  | chosen htodo => exact .of_routing hok.conns rfl (hr.enter (by rfl) htodo trivial)
  | cached htodo hphase hconn => exact .of_routing hok.conns rfl (hr.enter (by rfl) htodo ⟨_, hconn⟩)
  | refused htodo hphase hdown => exact .of_routing hok.conns rfl (hr.enter (by rfl) htodo hdown)
  | broken htodo hphase hconn hbroken =>
    rw [hok.connected_eq hconn] at hbroken
    exact .of_routing hok.conns rfl (hr.enter (by rfl) htodo hbroken)
  | opened htodo =>
    refine .of_routing (fun other c hother => hok.conns_setConn (fun c hc => ?_) hother) rfl
      (hr.enter (by rfl) htodo ⟨_, Function.update_self ..⟩)
    obtain rfl := Option.some.inj hc
    exact ⟨rfl, rfl⟩
  | marked htodo =>
    exact .of_routing (fun other c hother => hok.conns_setConn (by simp) hother) rfl (hr.pass (by rfl) htodo _)
  | @executed node_id _ conn parser htodo hphase hconn hup hparser =>
    have hages : Ages shared.nodes (shared.setNode node_id { shared.nodes node_id with
      store := ((shared.nodes node_id).store.handle_request thread.req).2 }).nodes := Ages.setNode rfl id
    refine ThreadOk.mono hages (.of_routing (fun other c hother => hok.conns_setConn (fun c hc => ?_) hother) rfl
      (hr.enter (by rfl) htodo ⟨⟨_, Function.update_self ..⟩, _, rfl, hvalues node_id thread.req.key⟩))
    obtain rfl := Option.some.inj hc
    exact ⟨(hok.conns _ conn hconn).1, hparser⟩

theorem ThreadStep.ages (hmove : ThreadStep router t thread shared thread' shared' events) :
    Ages shared.nodes shared'.nodes := by
  cases hmove with
  | routed _ hmove => exact hmove.ages
  | _ => exact Ages.refl _

theorem ThreadStep.threadOk (hok : ThreadOk router shared.nodes thread)
    (hvalues : ∀ node_id key value, (shared.nodes node_id).store.get key = some value → value.length ≤ kMaxValueLen)
    (hmove : ThreadStep router t thread shared thread' shared' events) : ThreadOk router shared'.nodes thread' := by
  cases hmove with
  | drained => exact hok.of_conns rfl (by simp)
  | rejected => exact hok.of_conns rfl (by simp)
  | pinged => exact hok.of_conns rfl (by simp)
  | replied => exact hok.of_conns rfl (by simp)
  | routed hpc hmove => exact hmove.threadOk hok hvalues hpc
  | invoked hpc hcall hping hlist =>
    exact .of_routing hok.conns rfl
      ⟨IncrementalParser.try_parse_request_wellFormed hcall, hping, hlist, ⟨[], rfl⟩, fun _ _ _ => trivial⟩

theorem setThread_threads (s : State) (t : Nat) (thread : Thread) :
    (s.setThread t thread).threads = Function.update s.threads t thread := rfl

/-- One thread changes, and the others see the nodes age. -/
theorem threadOk_update {s : State} {nodes : Bytes → Node}
    (hthreads : ∀ t, ThreadOk router s.shared.nodes (s.threads t)) (hages : Ages s.shared.nodes nodes)
    (hthread : ThreadOk router nodes thread) (t' : Nat) :
    ThreadOk router nodes ((s.setThread t thread).threads t') :=
  (Function.forall_update_iff s.threads fun _ thread => ThreadOk router nodes thread).mpr
    ⟨hthread, fun t' _ => (hthreads t').mono hages⟩ t'

theorem values_setNode
    (hvalues : ∀ node_id key value, (shared.nodes node_id).store.get key = some value → value.length ≤ kMaxValueLen)
    (node_id : Bytes) {node : Node} (hnode : ∀ key value, node.store.get key = some value →
      value.length ≤ kMaxValueLen) :
    ∀ id key value, ((shared.setNode node_id node).nodes id).store.get key = some value →
      value.length ≤ kMaxValueLen :=
  (Function.forall_update_iff shared.nodes fun _ node =>
    ∀ key value, node.store.get key = some value → value.length ≤ kMaxValueLen).mpr ⟨hnode, fun id _ => hvalues id⟩

theorem ThreadStep.values (hok : ThreadOk router shared.nodes thread)
    (hvalues : ∀ node_id key value, (shared.nodes node_id).store.get key = some value → value.length ≤ kMaxValueLen)
    (hmove : ThreadStep router t thread shared thread' shared' events) :
    ∀ node_id key value, (shared'.nodes node_id).store.get key = some value → value.length ≤ kMaxValueLen := by
  cases hmove with
  | routed hpc hmove =>
    cases hmove with
    | @executed node_id =>
      have hset : thread.req.command = .Set → thread.req.value.length ≤ kMaxValueLen :=
        (hok.routing _ hpc).wellFormed.length_value
      exact values_setNode hvalues node_id fun _ _ => KVStore.length_get_handle_request hset (hvalues node_id)
    | _ => exact hvalues
  | _ => exact hvalues

/-- A thread only ever flags a node down that it found down. -/
theorem ThreadStep.alive (hok : ThreadOk router shared.nodes thread)
    (hmove : ThreadStep router t thread shared thread' shared' events) :
    shared'.alive_ = shared.alive_ ∨ ∃ node_id, (shared.nodes node_id).up = false ∧
      shared'.alive_ = Function.update shared.alive_ node_id (some false) := by
  cases hmove with
  | routed hpc hmove =>
    cases hmove with
    | @marked node_id todo htodo hphase => exact .inr ⟨node_id, (hok.routing _ hpc).phase_of htodo hphase, rfl⟩
    | _ => exact .inl rfl
  | _ => exact .inl rfl

theorem flags_update {alive_ : Liveness} {nodes : Bytes → Node}
    (hflags : ∀ id, alive_ id = some false → (nodes id).up = false) {node_id : Bytes} {up : Bool}
    (hup : up = false → (nodes node_id).up = false) {id : Bytes}
    (hid : Function.update alive_ node_id (some up) id = some false) : (nodes id).up = false :=
  (Function.forall_update_iff alive_ fun id flag => flag = some false → (nodes id).up = false).mpr
    ⟨fun hflag => hup (Option.some.inj hflag), fun id _ => hflags id⟩ id hid

theorem known_update {alive_ : Liveness} {id : Bytes} (hknown : alive_ id ≠ none) (node_id : Bytes)
    (up : Bool) : Function.update alive_ node_id (some up) id ≠ none := by
  by_cases heq : id = node_id
  · subst heq
    simp
  · rwa [Function.update_of_ne heq]

theorem consistent_init : Consistent router (system router).init where
  threads t := ⟨by simp [system], by simp [system]⟩
  values node_id key value hget := absurd hget (by simp [system])
  flags node_id hflag := by
    simp only [system, Liveness.create] at hflag
    split at hflag <;> simp at hflag
  known addr haddr := by
    have hmem : addr.id ∈ router.nodes_.map NodeAddress.id := List.mem_map_of_mem haddr
    simp only [system, Liveness.create, if_pos (List.contains_iff_mem.mpr hmem)]
    simp
  heartbeat addr todo hheartbeat := absurd hheartbeat (by simp [system])

/-- The invariant is kept by every step of a crash-stop run. -/
theorem Consistent.keep {s s' : State} {label : Label} (hok : Consistent router s) (hlabel : CrashStop label)
    (hmove : SystemStep router s label s' events) : Consistent router s' := by
  cases hmove with
  | @received t =>
    exact { hok with
      threads := threadOk_update hok.threads (Ages.refl _) ((hok.threads t).of_conns rfl (by simp)) }
  | @closed t =>
    exact { hok with
      threads := threadOk_update hok.threads (Ages.refl _) ((hok.threads t).of_conns rfl (by simp)) }
  | @lost t r node_id todo bytes conn hpc htodo hphase hconn hbroken =>
    rw [(hok.threads t).connected_eq hconn] at hbroken
    have hthread : ThreadOk router s.shared.nodes ((s.threads t).routes { r with phase := .failed }) :=
      .of_routing (hok.threads t).conns rfl (((hok.threads t).routing r hpc).enter (by rfl) htodo hbroken)
    exact { hok with threads := threadOk_update hok.threads (Ages.refl _) hthread }
  | @moved t thread shared events hmove =>
    have hages := hmove.ages
    constructor
    · exact threadOk_update hok.threads hages (hmove.threadOk (hok.threads t) hok.values)
    · exact hmove.values (hok.threads t) hok.values
    · intro id hid
      apply (hages id).2
      rcases hmove.alive (hok.threads t) with hsame | ⟨node_id, hdown, hmark⟩
      · exact hok.flags id (hsame ▸ hid)
      · exact flags_update hok.flags (fun _ => hdown) (hmark ▸ hid)
    · intro addr haddr
      rcases hmove.alive (hok.threads t) with hsame | ⟨node_id, _, hmark⟩
      · exact hsame ▸ hok.known addr haddr
      · exact hmark ▸ known_update (hok.known addr haddr) node_id false
    · intro addr todo hheartbeat
      exact (hages addr.id).2 (hok.heartbeat addr todo hheartbeat)
  | swept => exact { hok with heartbeat := by simp }
  | pinging => exact { hok with heartbeat := by simp }
  | pinged =>
    refine { hok with heartbeat := fun addr todo hheartbeat => ?_ }
    obtain ⟨rfl, hup, _⟩ := Heartbeat.marking.inj hheartbeat
    exact hup
  | @marked addr up todo hheartbeat =>
    constructor
    · exact hok.threads
    · exact hok.values
    · intro id hid
      refine flags_update hok.flags (fun hup => ?_) hid
      subst hup
      exact hok.heartbeat addr todo hheartbeat
    · intro other hother
      exact known_update (hok.known other hother) addr.id up
    · simp
  | @crashed node_id =>
    have hages : Ages s.shared.nodes
        (s.shared.setNode node_id { s.shared.nodes node_id with up := false }).nodes := Ages.setNode rfl fun _ => rfl
    constructor
    · exact fun t => (hok.threads t).mono hages
    · exact values_setNode hok.values node_id (hok.values node_id)
    · exact fun id hid => (hages id).2 (hok.flags id hid)
    · exact hok.known
    · exact fun addr todo hheartbeat => (hages addr.id).2 (hok.heartbeat addr todo hheartbeat)
  | restarted => exact absurd hlabel (by simp [CrashStop])

/-- Every crash-stop run goes from one consistent state to the next, so its
    invariants are proved step by step. -/
theorem run_invariant (hknown : router.Known) {P : Label → Prop} (hP : ∀ label, P label → CrashStop label)
    {C : List Event → Prop} {I : List Event → State → Prop}
    (hclosed : ∀ trace events, C (trace ++ events) → C trace) (hinit : I [] (system router).init)
    (hkeep : ∀ trace s label s' events, Consistent router s → I trace s → P label → C (trace ++ events) →
      SystemStep router s label s' events → I (trace ++ events) s')
    {trace : List Event} {s : State} (hrun : Run (system router) P (system router).init trace s) (htrace : C trace) :
    Consistent router s ∧ I trace s := by
  refine hrun.invariant (I := fun trace s => Consistent router s ∧ I trace s) hclosed
    ⟨consistent_init, hinit⟩ ?_ htrace
  rintro trace s label s' events ⟨hok, hI⟩ hlabel hC hstep
  have hmove := hok.system_step hknown hstep
  exact ⟨hok.keep (hP label hlabel) hmove, hkeep trace s label s' events hok hI hlabel hC hmove⟩

end kv.router
