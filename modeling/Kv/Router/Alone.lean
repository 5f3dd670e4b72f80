import Kv.Router.FanOut
import Kv.Router.Restarts

namespace kv.router

open kv.protocol Transition

/-- A thread and what it shares, with nobody else running from here on. -/
def alone (router : Router) (t : Nat) (s : State) : System (Thread × Shared) Unit Event where
  init := (s.threads t, s.shared)
  step state _ := (state.1.step router t state.2).map fun moved => ((moved.1, moved.2.1), moved.2.2)

/-- A request over the connection that the thread has, or else over a new one,
    reaches the node. -/
def Shared.reaches (self : Shared) (conns : Bytes → Option BackendConn) (node_id : Bytes) : Bool :=
  self.connected node_id ((conns node_id).getD { epoch := (self.nodes node_id).epoch })

/-- The nodes as a thread with these connections finds them. A socket is known
    by the incarnation of the node that it leads to. -/
def Shared.backend (self : Shared) (conns : Bytes → Option BackendConn) (node_id : Bytes) : Backend where
  connect_to := if (self.nodes node_id).up then .ok (self.nodes node_id).epoch else .error (ascii "connect_to")
  send_request req :=
    if self.reaches conns node_id then .ok (receive (reply req ((self.nodes node_id).store.get req.key))).2
    else .error (ascii "send_request")

/-- The call that a thread is about to make. -/
def Thread.call (self : Thread) (shared : Shared) : Call where
  shared := shared
  conns id := (self.backend_conns id).map BackendConn.epoch

variable {router : Router} {t : Nat} {s : State} {thread thread' : Thread} {shared shared' : Shared}
  {events : List Event} {r : Routing} {node_id : Bytes} {todo : List Bytes}

theorem run_alone_single (hstep : thread.step router t shared = some (thread', shared', events)) :
    Run (alone router t s) (fun _ => True) (thread, shared) events (thread', shared') :=
  .single (show True from trivial) (show (alone router t s).step (thread, shared) () = _ by simp [alone, hstep])

/-- What a thread does alone is a run of the system in which no other moves. -/
theorem run_of_alone
    (hrun : Run (alone router t s) (fun _ => True) (alone router t s).init events (thread', shared')) :
    Run (system router) (fun label => label = .step t) s events { s.setThread t thread' with shared := shared' } := by
  let embed (state : Thread × Shared) : State := { s.setThread t state.1 with shared := state.2 }
  have hstart : s = embed (alone router t s).init := by simp [embed, alone, State.setThread]
  have hsimulated : ∃ final, Run (system router) (fun label => label = .step t) s (events.filterMap some) final ∧
      final = embed (thread', shared') := by
    refine hrun.simulate (R := fun state s' => s' = embed state) ?_ hstart
    intro state s' _ next events hstate _ hstep
    obtain ⟨moved, hmoved, hnext⟩ := Option.map_eq_some_iff.mp hstep
    obtain ⟨rfl, rfl⟩ := Prod.mk.inj hnext
    refine ⟨embed (moved.1, moved.2.1), .single rfl ?_, rfl⟩
    simp [hstate, embed, system, step, State.setThread, hmoved]
  obtain ⟨final, hsystem, rfl⟩ := hsimulated
  simpa using hsystem

/-- The steps to an alive node that the request reaches: the node executes it. -/
theorem run_reached (hpc : thread.pc = .routing r) (htodo : r.todo = node_id :: todo) (hphase : r.phase = .check)
    (halive : shared.is_alive node_id = true) {addr : NodeAddress} (haddr : router.find_address node_id = some addr)
    (hwf : thread.req.WellFormed)
    (hquiet : ∀ conn, thread.backend_conns node_id = some conn → conn.parser.buffer_ = [])
    (hreaches : shared.reaches thread.backend_conns node_id = true) :
    ∃ conn, conn.epoch = (shared.nodes node_id).epoch ∧ conn.parser.buffer_ = [] ∧
      Run (alone router t s) (fun _ => True) (thread, shared) [.executed node_id t thread.req]
        ((thread.setConn node_id (some conn)).routes
          { r with phase := .await (reply thread.req ((shared.nodes node_id).store.get thread.req.key)) },
        shared.setNode node_id
          { shared.nodes node_id with store := ((shared.nodes node_id).store.handle_request thread.req).2 }) := by
  have hid := Router.find_address_id haddr
  have hchosen : Run (alone router t s) (fun _ => True) (thread, shared) []
      (thread.routes { r with phase := .connect }, shared) :=
    run_alone_single (by simp [Thread.step, hpc, Thread.route, htodo, hphase, halive])
  -- A cached connection is taken as it is, a new one is opened.
  obtain ⟨conn, hepoch, hbuffer, hconnected, hready⟩ :
      ∃ conn : BackendConn, conn.epoch = (shared.nodes node_id).epoch ∧
      conn.parser.buffer_ = [] ∧ shared.connected node_id conn = true ∧
      Run (alone router t s) (fun _ => True) (thread.routes { r with phase := .connect }, shared) []
        ((thread.setConn node_id (some conn)).routes { r with phase := .forward }, shared) := by
    unfold Shared.reaches at hreaches
    cases hconn : thread.backend_conns node_id with
    | some conn =>
      rw [hconn, Option.getD_some] at hreaches
      have hepoch : conn.epoch = (shared.nodes node_id).epoch := by
        simp only [Shared.connected, Bool.and_eq_true, beq_iff_eq] at hreaches
        exact hreaches.2
      have hsame : thread.setConn node_id (some conn) = thread := by
        simp [Thread.setConn, ← hconn]
      refine ⟨conn, hepoch, hquiet conn hconn, hreaches, ?_⟩
      rw [hsame]
      exact run_alone_single (by simp [Thread.step, Thread.route, htodo, Thread.connect, hconn, Thread.routes])
    | none =>
      rw [hconn, Option.getD_none] at hreaches
      have hup : (shared.nodes node_id).up = true := by
        simp only [Shared.connected, Bool.and_eq_true] at hreaches
        exact hreaches.1
      refine ⟨{ epoch := (shared.nodes node_id).epoch }, rfl, rfl, hreaches, ?_⟩
      exact run_alone_single (by
        simp [Thread.step, Thread.route, htodo, Thread.connect, hconn, haddr, hid, hup, Thread.routes, Thread.setConn])
  obtain ⟨parser, hservice, hparser⟩ := service_client_encode_request KVStore.handle_request hbuffer hwf
    (shared.nodes node_id).store
  refine ⟨{ conn with parser }, hepoch, hparser, ?_⟩
  have hexecuted : Run (alone router t s) (fun _ => True)
      ((thread.setConn node_id (some conn)).routes { r with phase := .forward }, shared)
      [.executed node_id t thread.req]
      ((thread.setConn node_id (some { conn with parser })).routes
        { r with phase := .await (reply thread.req ((shared.nodes node_id).store.get thread.req.key)) },
      shared.setNode node_id
        { shared.nodes node_id with store := ((shared.nodes node_id).store.handle_request thread.req).2 }) :=
    run_alone_single (by
      simp [Thread.step, Thread.route, htodo, Thread.forward, hconnected, hservice, KVStore.handle_request_fst,
        Thread.routes, Thread.setConn])
  exact (hchosen.append hready).append hexecuted

/-- The steps to an alive node that the request does not reach: the thread gives
    the node up, whether it cannot connect or has a connection that is broken. -/
theorem run_not_reached (hpc : thread.pc = .routing r) (htodo : r.todo = node_id :: todo) (hphase : r.phase = .check)
    (halive : shared.is_alive node_id = true) {addr : NodeAddress} (haddr : router.find_address node_id = some addr)
    (hreaches : shared.reaches thread.backend_conns node_id = false) :
    Run (alone router t s) (fun _ => True) (thread, shared) []
      ((thread.setConn node_id none).routes { r with todo, phase := .check }, shared.mark node_id false) := by
  have hid := Router.find_address_id haddr
  have hchosen : Run (alone router t s) (fun _ => True) (thread, shared) []
      (thread.routes { r with phase := .connect }, shared) :=
    run_alone_single (by simp [Thread.step, hpc, Thread.route, htodo, hphase, halive])
  have hfailed : Run (alone router t s) (fun _ => True) (thread.routes { r with phase := .connect }, shared) []
      (thread.routes { r with phase := .failed }, shared) := by
    unfold Shared.reaches at hreaches
    cases hconn : thread.backend_conns node_id with
    | some conn =>
      rw [hconn, Option.getD_some] at hreaches
      have hready : Run (alone router t s) (fun _ => True) (thread.routes { r with phase := .connect }, shared) []
          (thread.routes { r with phase := .forward }, shared) :=
        run_alone_single (by simp [Thread.step, Thread.route, htodo, Thread.connect, hconn, Thread.routes])
      exact hready.append (run_alone_single (by
        simp [Thread.step, Thread.route, htodo, Thread.forward, hconn, hreaches, Thread.routes]))
    | none =>
      rw [hconn, Option.getD_none] at hreaches
      have hdown : (shared.nodes node_id).up = false := by simpa [Shared.connected] using hreaches
      exact run_alone_single (by
        simp [Thread.step, Thread.route, htodo, Thread.connect, hconn, haddr, hid, hdown, Thread.routes])
  have hmarked : Run (alone router t s) (fun _ => True) (thread.routes { r with phase := .failed }, shared) []
      ((thread.setConn node_id none).routes { r with todo, phase := .check }, shared.mark node_id false) :=
    run_alone_single (by simp [Thread.step, Thread.route, htodo, Thread.routes, Thread.setConn])
  exact (hchosen.append hfailed).append hmarked

/-- The thread and the call that is computed for it, with the nodes of `todo`
    not visited yet. -/
structure Agree (start : Shared) (conns : Bytes → Option BackendConn) (todo : List Bytes) (thread : Thread)
    (shared : Shared) (call : Call) : Prop where
  flags : shared.alive_ = call.shared.alive_
  sockets : ∀ id, (thread.backend_conns id).map BackendConn.epoch = call.conns id
  quiet : ∀ id conn, thread.backend_conns id = some conn → conn.parser.buffer_ = []
  untouched : ∀ id ∈ todo, shared.nodes id = start.nodes id ∧ thread.backend_conns id = conns id

variable {start : Shared} {conns : Bytes → Option BackendConn} {call : Call} {req : Request}

theorem Agree.is_alive (hagree : Agree start conns todo thread shared call) (id : Bytes) :
    call.shared.is_alive id = shared.is_alive id := by
  rw [Shared.is_alive, Shared.is_alive, hagree.flags]

theorem Agree.reaches (hagree : Agree start conns todo thread shared call) (hmem : node_id ∈ todo) :
    shared.reaches thread.backend_conns node_id = start.reaches conns node_id := by
  obtain ⟨hnode, hconn⟩ := hagree.untouched node_id hmem
  simp only [Shared.reaches, Shared.connected, hnode, hconn]

/-- A node answers if and only if the request reaches it. -/
theorem Agree.answer (hagree : Agree start conns todo thread shared call) (hmem : node_id ∈ todo) (req : Request) :
    call.answer (start.backend conns) req node_id =
      if start.reaches conns node_id then
        some ((start.nodes node_id).epoch, (receive (reply req ((start.nodes node_id).store.get req.key))).2)
      else none := by
  obtain ⟨hnode, hconn⟩ := hagree.untouched node_id hmem
  have hsocket := hagree.sockets node_id
  rw [hconn] at hsocket
  cases hcached : conns node_id with
  | some conn =>
    rw [hcached, Option.map_some] at hsocket
    cases hreaches : start.reaches conns node_id with
    | false => simp [Call.answer, Backend.answer, ← hsocket, Shared.backend, hreaches]
    | true =>
      have hepoch : conn.epoch = (start.nodes node_id).epoch := by
        simp only [Shared.reaches, hcached, Option.getD_some, Shared.connected, Bool.and_eq_true,
          beq_iff_eq] at hreaches
        exact hreaches.2
      simp [Call.answer, Backend.answer, ← hsocket, Shared.backend, hreaches, hepoch]
  | none =>
    rw [hcached, Option.map_none] at hsocket
    have hreaches : start.reaches conns node_id = (start.nodes node_id).up := by
      simp [Shared.reaches, hcached, Shared.connected]
    cases hup : (start.nodes node_id).up <;>
      simp [Call.answer, Backend.answer, ← hsocket, Shared.backend, hreaches, hup]

theorem Agree.skip (hagree : Agree start conns (node_id :: todo) thread shared call) (r : Routing) :
    Agree start conns todo (thread.routes r) shared call where
  flags := hagree.flags
  sockets := hagree.sockets
  quiet := hagree.quiet
  untouched id hid := hagree.untouched id (List.mem_cons_of_mem _ hid)

/-- The turn of a node that the request reaches. -/
theorem Agree.reached (hagree : Agree start conns (node_id :: todo) thread shared call) (hnew : node_id ∉ todo)
    (hreaches : start.reaches conns node_id = true) {conn : BackendConn}
    (hepoch : conn.epoch = (shared.nodes node_id).epoch) (hbuffer : conn.parser.buffer_ = []) (req : Request)
    (node : Node) (r : Routing) :
    Agree start conns todo ((thread.setConn node_id (some conn)).routes r) (shared.setNode node_id node)
      (call.visit (start.backend conns) req node_id) := by
  have hne {id : Bytes} (hid : id ∈ todo) : id ≠ node_id := fun heq => hnew (heq ▸ hid)
  have hnode := (hagree.untouched node_id List.mem_cons_self).1
  unfold Call.visit
  rw [hagree.answer List.mem_cons_self, if_pos hreaches]
  refine ⟨hagree.flags, fun id => ?_, fun id conn' hconn' => ?_, fun id hid => ?_⟩
  · by_cases hid : id = node_id
    · subst hid
      simp [hepoch, hnode]
    · simp [Function.update_of_ne hid, hagree.sockets]
  · by_cases hid : id = node_id
    · subst hid
      obtain rfl : conn = conn' := by simpa using hconn'
      exact hbuffer
    · exact hagree.quiet id conn' (by simpa [Function.update_of_ne hid] using hconn')
  · obtain ⟨hsame, hconn⟩ := hagree.untouched id (List.mem_cons_of_mem _ hid)
    simp [Function.update_of_ne (hne hid), hsame, hconn]

/-- The turn of a node that the request does not reach. -/
theorem Agree.not_reached (hagree : Agree start conns (node_id :: todo) thread shared call) (hnew : node_id ∉ todo)
    (hreaches : start.reaches conns node_id = false) (r : Routing) :
    Agree start conns todo ((thread.setConn node_id none).routes r) (shared.mark node_id false)
      (call.visit (start.backend conns) req node_id) := by
  have hne {id : Bytes} (hid : id ∈ todo) : id ≠ node_id := fun heq => hnew (heq ▸ hid)
  unfold Call.visit
  rw [hagree.answer List.mem_cons_self, if_neg (by simp [hreaches])]
  refine ⟨?_, fun id => ?_, fun id conn hconn => ?_, fun id hid => ?_⟩
  · simp [Call.give_up, Shared.mark, hagree.flags]
  · by_cases hid : id = node_id
    · subst hid
      simp [Call.give_up]
    · simp [Call.give_up, Function.update_of_ne hid, hagree.sockets]
  · by_cases hid : id = node_id
    · subst hid
      simp at hconn
    · exact hagree.quiet id conn (by simpa [Function.update_of_ne hid] using hconn)
  · obtain ⟨hsame, hconn⟩ := hagree.untouched id (List.mem_cons_of_mem _ hid)
    simp [Function.update_of_ne (hne hid), hsame, hconn]

/-- Alone, the thread goes on to return this response, and leaves flags and
    connections as the call does. The nodes that the call contacts and that the
    request reaches execute it, in this order. -/
def Finishes (router : Router) (t : Nat) (s : State) (start : Shared) (conns : Bytes → Option BackendConn)
    (req : Request)
    (state : Thread × Shared) (call : Call) (resp : Response) (after : Call) : Prop :=
  ∃ thread shared more, after.contacted = call.contacted ++ more ∧
    Run (alone router t s) (fun _ => True) state
      ((more.filter (start.reaches conns)).map (fun id => .executed id t req) ++ [.returned t req resp])
      (thread, shared) ∧
    thread.pc = .replying (encode_response resp) ∧ Agree start conns [] thread shared after

variable {resp : Response} {after : Call} {state : Thread × Shared}

theorem visit_contacted (backends : Bytes → Backend) (req : Request) (call : Call) (node_id : Bytes) :
    (call.visit backends req node_id).contacted = call.contacted ++ [node_id] := by
  unfold Call.visit
  split <;> rfl

theorem Finishes.of_run (hrun : Run (alone router t s) (fun _ => True) (thread, shared) [] state)
    (hdone : Finishes router t s start conns req state call resp after) :
    Finishes router t s start conns req (thread, shared) call resp after := by
  obtain ⟨thread', shared', more, hmore, hrest, hpc, hagree⟩ := hdone
  exact ⟨thread', shared', more, hmore, hrun.append hrest, hpc, hagree⟩

theorem Finishes.of_visit
    (hrun : Run (alone router t s) (fun _ => True) (thread, shared)
      (([node_id].filter (start.reaches conns)).map fun id => .executed id t req) state)
    (hdone : Finishes router t s start conns req state (call.visit (start.backend conns) req node_id) resp after) :
    Finishes router t s start conns req (thread, shared) call resp after := by
  obtain ⟨thread', shared', more, hmore, hrest, hpc, hagree⟩ := hdone
  refine ⟨thread', shared', node_id :: more, ?_, ?_, hpc, hagree⟩
  · rw [hmore, visit_contacted, List.append_assoc, List.singleton_append]
  · rw [← List.singleton_append, List.filter_append, List.map_append, List.append_assoc]
    exact hrun.append hrest

/-- The list is exhausted. -/
theorem finishes_exhausted (hagree : Agree start conns [] thread shared call) (hpc : thread.pc = .routing r)
    (htodo : r.todo = []) (hreq : thread.req = req) :
    Finishes router t s start conns req (thread, shared) call
      (r.first_success.getD (no_live_replica_error r.preference_list.length)) call := by
  refine ⟨thread.returns _, shared, [], by simp, run_alone_single ?_, rfl, { hagree with }⟩
  simp [Thread.step, hpc, Thread.route, htodo, hreq]

/-- What a loop over the rest of the list rests on. -/
structure Ready (router : Router) (start : Shared) (req : Request) (todo : List Bytes) : Prop where
  nodup : todo.Nodup
  known : ∀ id ∈ todo, ∃ addr, router.find_address id = some addr
  wellFormed : req.WellFormed
  values : ∀ id value, (start.nodes id).store.get req.key = some value → value.length ≤ kMaxValueLen

theorem Ready.tail (hready : Ready router start req (node_id :: todo)) : Ready router start req todo where
  nodup := (List.nodup_cons.mp hready.nodup).2
  known id hid := hready.known id (List.mem_cons_of_mem _ hid)
  wellFormed := hready.wellFormed
  values := hready.values

/-- Up to the reply of a node that the request reaches. -/
theorem Ready.run_reached (hready : Ready router start req (node_id :: todo))
    (hagree : Agree start conns (node_id :: todo) thread shared call) (hpc : thread.pc = .routing r)
    (htodo : r.todo = node_id :: todo) (hphase : r.phase = .check) (hreq : thread.req = req)
    (halive : shared.is_alive node_id = true) (hreached : start.reaches conns node_id = true) :
    ∃ waiting shared', waiting.pc = .routing
        { r with phase := .await (reply req ((start.nodes node_id).store.get req.key)) } ∧ waiting.req = req ∧
      Run (alone router t s) (fun _ => True) (thread, shared)
        (([node_id].filter (start.reaches conns)).map fun id => .executed id t req) (waiting, shared') ∧
      ∀ pc, Agree start conns todo { waiting with pc } shared' (call.visit (start.backend conns) req node_id) := by
  obtain ⟨addr, haddr⟩ := hready.known node_id List.mem_cons_self
  have hnode := (hagree.untouched node_id List.mem_cons_self).1
  have hnew := (List.nodup_cons.mp hready.nodup).1
  obtain ⟨conn, hepoch, hbuffer, hrun⟩ := kv.router.run_reached (t := t) (s := s) hpc htodo hphase halive haddr
    (hreq ▸ hready.wellFormed) (hagree.quiet node_id) ((hagree.reaches List.mem_cons_self).trans hreached)
  rw [hreq, hnode] at hrun
  let node : Node := { start.nodes node_id with store := ((start.nodes node_id).store.handle_request req).2 }
  let next : Routing := { r with phase := .await (reply req ((start.nodes node_id).store.get req.key)) }
  refine ⟨(thread.setConn node_id (some conn)).routes next, shared.setNode node_id node, rfl, hreq, ?_, fun pc => ?_⟩
  · rw [List.filter_cons_of_pos hreached]
    exact hrun
  · exact { hagree.reached hnew hreached hepoch hbuffer req node next with }

theorem finishes_route_write_loop (todo : List Bytes) (hready : Ready router start req todo)
    (hget : req.command ≠ .Get)
    (hagree : Agree start conns todo thread shared call) (hpc : thread.pc = .routing r) (htodo : r.todo = todo)
    (hphase : r.phase = .check) (hreq : thread.req = req) :
    ∃ success after, route_write_loop router (start.backend conns) req todo r.first_success call = (success, after) ∧
      Finishes router t s start conns req (thread, shared) call
        (success.getD (no_live_replica_error r.preference_list.length)) after := by
  induction todo generalizing thread shared r call with
  | nil => exact ⟨r.first_success, call, rfl, finishes_exhausted hagree hpc htodo hreq⟩
  | cons node_id todo ih =>
    have hnew := (List.nodup_cons.mp hready.nodup).1
    obtain ⟨addr, haddr⟩ := hready.known node_id List.mem_cons_self
    have hanswer := hagree.answer List.mem_cons_self req
    have hreaches := hagree.reaches List.mem_cons_self
    rw [route_write_loop, hagree.is_alive]
    cases halive : shared.is_alive node_id with
    | false =>
      obtain ⟨success, after, hloop, hdone⟩ :=
        ih (r := { r with todo, phase := .check }) hready.tail (hagree.skip _) rfl
        rfl rfl hreq
      refine ⟨success, after, hloop, .of_run (run_alone_single ?_) hdone⟩
      simp [Thread.step, hpc, Thread.route, htodo, hphase, halive]
    | true =>
      rw [if_pos rfl]
      cases hreached : start.reaches conns node_id with
      | true =>
        obtain ⟨resp, hreceive, -⟩ := receive_reply req (hready.values node_id)
        rw [if_pos hreached, hreceive] at hanswer
        obtain ⟨waiting, shared', hwaiting, hreq', hrun, hvisited⟩ :=
          hready.run_reached (t := t) (s := s) hagree hpc htodo
          hphase hreq halive hreached
        let next : Routing := { r with todo, phase := .check, first_success := some (r.first_success.getD resp) }
        have hagree' :
            Agree start conns todo (waiting.routes next) shared' (call.visit (start.backend conns) req node_id) :=
          hvisited (.routing next)
        obtain ⟨success, after, hloop, hdone⟩ := ih hready.tail hagree' rfl rfl rfl hreq'
        refine ⟨success, after, ?_, .of_visit hrun (.of_run (run_alone_single ?_) hdone)⟩
        · rw [contact_of_answer haddr hanswer]
          exact hloop
        · simp [Thread.step, hwaiting, Thread.route, htodo, Thread.await, hreq', hreceive, hget, next, Thread.routes]
      | false =>
        rw [if_neg (by simp [hreached])] at hanswer
        obtain ⟨what, failed, hcontact, hfailed⟩ := contact_of_no_answer haddr hanswer
        obtain ⟨success, after, hloop, hdone⟩ := ih (r := { r with todo, phase := .check }) hready.tail
          (hagree.not_reached hnew hreached _) rfl rfl rfl hreq
        refine ⟨success, after, ?_, .of_visit ?_ hdone⟩
        · rw [hcontact]
          simp only [hfailed]
          exact hloop
        · rw [List.filter_cons_of_neg (by simp [hreached])]
          exact run_not_reached hpc htodo hphase halive haddr (hreaches.trans hreached)

theorem finishes_route_read_loop (todo : List Bytes) (hready : Ready router start req todo) (hget : req.command = .Get)
    (hagree : Agree start conns todo thread shared call) (hpc : thread.pc = .routing r) (htodo : r.todo = todo)
    (hphase : r.phase = .check) (hfirst : r.first_success = none) (hreq : thread.req = req) :
    ∃ success after, route_read_loop router (start.backend conns) req todo call = (success, after) ∧
      Finishes router t s start conns req (thread, shared) call
        (success.getD (no_live_replica_error r.preference_list.length)) after := by
  induction todo generalizing thread shared r call with
  | nil =>
    refine ⟨none, call, rfl, ?_⟩
    rw [← hfirst]
    exact finishes_exhausted hagree hpc htodo hreq
  | cons node_id todo ih =>
    have hnew := (List.nodup_cons.mp hready.nodup).1
    obtain ⟨addr, haddr⟩ := hready.known node_id List.mem_cons_self
    have hanswer := hagree.answer List.mem_cons_self req
    have hreaches := hagree.reaches List.mem_cons_self
    rw [route_read_loop, hagree.is_alive]
    cases halive : shared.is_alive node_id with
    | false =>
      obtain ⟨success, after, hloop, hdone⟩ :=
        ih (r := { r with todo, phase := .check }) hready.tail (hagree.skip _) rfl
        rfl rfl hfirst hreq
      refine ⟨success, after, hloop, .of_run (run_alone_single ?_) hdone⟩
      simp [Thread.step, hpc, Thread.route, htodo, hphase, halive]
    | true =>
      rw [if_pos rfl]
      cases hreached : start.reaches conns node_id with
      | true =>
        obtain ⟨resp, hreceive, -⟩ := receive_reply req (hready.values node_id)
        rw [if_pos hreached, hreceive] at hanswer
        obtain ⟨waiting, shared', hwaiting, hreq', hrun, hvisited⟩ :=
          hready.run_reached (t := t) (s := s) hagree hpc htodo
          hphase hreq halive hreached
        refine ⟨some resp, call.visit (start.backend conns) req node_id, ?_, .of_visit hrun ?_⟩
        · rw [contact_of_answer haddr hanswer]
        · -- The first reply is returned at once.
          refine ⟨waiting.returns resp, shared', [], by simp, run_alone_single ?_, rfl,
            { hvisited (.replying (encode_response resp)) with untouched := by simp }⟩
          simp [Thread.step, hwaiting, Thread.route, htodo, Thread.await, hreq', hreceive, hget]
      | false =>
        rw [if_neg (by simp [hreached])] at hanswer
        obtain ⟨what, failed, hcontact, hfailed⟩ := contact_of_no_answer haddr hanswer
        obtain ⟨success, after, hloop, hdone⟩ := ih (r := { r with todo, phase := .check }) hready.tail
          (hagree.not_reached hnew hreached _) rfl rfl rfl hfirst hreq
        refine ⟨success, after, ?_, .of_visit ?_ hdone⟩
        · rw [hcontact]
          simp only [hfailed]
          exact hloop
        · rw [List.filter_cons_of_neg (by simp [hreached])]
          exact run_not_reached hpc htodo hphase halive haddr (hreaches.trans hreached)

/-- `route_read` for `GET`, and `route_write` for the rest, as in `handle_client`. -/
def route_request (router : Router) (backends : Bytes → Backend) (req : Request) (call : Call) :
    Option (Except Bytes Response × Call) :=
  if req.command = .Get then route_read router backends req call else route_write router backends req call

/-- The steps of a thread refine the functions. From any state that a router can
    be in, a thread that has just taken up a request and that nobody disturbs
    computes `route_read` or `route_write`: it returns the same response, leaves
    the same flags and connections, and has the request executed by the nodes
    that are contacted and can be reached. -/
theorem alone_refines_route {nodes : List NodeAddress} {vnodes replicas : Nat} {trace : List Event} {s : State}
    (hreach : Run (system (Router.create nodes vnodes replicas)) (fun _ => True)
      (system (Router.create nodes vnodes replicas)).init trace s) {t : Nat} {ids : List Bytes}
    (hpc : (s.threads t).pc = .routing { preference_list := ids, todo := ids }) :
    let router := Router.create nodes vnodes replicas
    let thread := s.threads t
    ∃ resp after final,
      route_request router (s.shared.backend thread.backend_conns) thread.req (thread.call s.shared) =
        some (.ok resp, after) ∧
      Run (system router) (fun label => label = .step t) s
        ((after.contacted.filter (s.shared.reaches thread.backend_conns)).map (fun id => .executed id t thread.req) ++
          [.returned t thread.req resp]) final ∧
      (final.threads t).pc = .replying (encode_response resp) ∧ final.shared.alive_ = after.shared.alive_ ∧
      (∀ id, ((final.threads t).backend_conns id).map BackendConn.epoch = after.conns id) ∧
      ∀ t', t' ≠ t → final.threads t' = s.threads t' := by
  intro router thread
  have hsane := sane_of_run Router.known_create hreach
  have hr := (hsane.threads t).routing _ hpc
  have hready : Ready router s.shared thread.req ids :=
    ⟨Router.preference_list_nodup hr.listed, fun id hid => Router.known_create.find_address hr.listed hid,
      hr.wellFormed, fun id => hsane.values id thread.req.key⟩
  have hagree : Agree s.shared thread.backend_conns ids thread s.shared (thread.call s.shared) :=
    ⟨rfl, fun _ => rfl, (hsane.threads t).conns, fun _ _ => ⟨rfl, rfl⟩⟩
  obtain ⟨success, after, hcall, thread', shared', more, hmore, hrun, hpc', hagree'⟩ : ∃ success after,
      route_request router (s.shared.backend thread.backend_conns) thread.req (thread.call s.shared) =
        some (.ok (Option.getD success (no_live_replica_error ids.length)), after) ∧
      Finishes router t s s.shared thread.backend_conns thread.req (thread, s.shared) (thread.call s.shared)
        (success.getD (no_live_replica_error ids.length)) after := by
    have hget := Router.preference_list_eq_some_iff.mp hr.listed
    by_cases hcommand : thread.req.command = .Get
    · obtain ⟨success, after, hloop, hdone⟩ := finishes_route_read_loop ids hready hcommand hagree hpc rfl rfl rfl rfl
      refine ⟨success, after, ?_, hdone⟩
      rw [route_request, if_pos hcommand, route_read, route, hget]
      simp only [hloop]
    · obtain ⟨success, after, hloop, hdone⟩ := finishes_route_write_loop ids hready hcommand hagree hpc rfl rfl rfl
      refine ⟨success, after, ?_, hdone⟩
      rw [route_request, if_neg hcommand, route_write, route, hget]
      simp only [hloop]
  rw [Thread.call, List.nil_append] at hmore
  rw [← hmore] at hrun
  have hself : (s.setThread t thread').threads t = thread' := Function.update_self ..
  refine ⟨_, after, _, hcall, run_of_alone hrun, ?_, hagree'.flags, ?_, ?_⟩
  · change ((s.setThread t thread').threads t).pc = _
    rw [hself, hpc']
  · intro id
    change (((s.setThread t thread').threads t).backend_conns id).map _ = _
    rw [hself, hagree'.sockets]
  · intro t' hne
    exact Function.update_of_ne hne ..

/-- A write that finds its first node crashed, with nobody having noticed. -/
theorem alone_refines_route_example :
    let router := Router.create [⟨ascii "a", 1⟩, ⟨ascii "b", 1⟩] 1 2
    let req : Request := ⟨.Set, ascii "k", ascii "v"⟩
    ∃ trace s resp after final, Run (system router) (fun _ => True) (system router).init trace s ∧
      (s.shared.nodes (ascii "a:1")).up = false ∧ s.shared.is_alive (ascii "a:1") = true ∧ (s.threads 0).req = req ∧
      route_request router (s.shared.backend (s.threads 0).backend_conns) req ((s.threads 0).call s.shared) =
        some (.ok resp, after) ∧
      ∃ events, Run (system router) (fun label => label = .step 0) s events final ∧
        (final.threads 0).pc = .replying (encode_response resp) := by
  intro router req
  let ids := [ascii "a:1", ascii "b:1"]
  let check (s : State) (_ : List (Transition.Step State Label Event)) (_ : State) : Bool :=
    (s.threads 0).pc = .routing { preference_list := ids, todo := ids } && (s.threads 0).req = req &&
      !(s.shared.nodes (ascii "a:1")).up && s.shared.is_alive (ascii "a:1")
  obtain ⟨trace, s, _, _, hreach, -, hcheck⟩ : ∃ trace s log final,
      Run (system router) (fun _ => True) (system router).init trace s ∧
      Run (system router).logged NoFailure s log final ∧ check s log final := by
    refine Run.exists_phases_of_exec [Label.crash (ascii "a:1"), .recv 0 (encode_request req), .step 0] [] check
      (fun _ _ => trivial) (by simp) ?_
    decide +kernel
  simp only [check, Bool.and_eq_true, decide_eq_true_eq, Bool.not_eq_true'] at hcheck
  obtain ⟨⟨⟨hpc, hreq⟩, hdown⟩, halive⟩ := hcheck
  obtain ⟨resp, after, final, hroute, hrun, hreplying, -⟩ := alone_refines_route hreach hpc
  rw [hreq] at hroute
  exact ⟨trace, s, resp, after, final, hreach, hdown, halive, hreq, hroute, _, hrun, hreplying⟩

end kv.router
