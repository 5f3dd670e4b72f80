import Kv.Router.CrashStop
import Kv.Wire.Attribution

namespace kv.wire

open kv.protocol Transition

/-- Labels of runs in which no call fails and no other thread is at work. -/
def Undisturbed : Label → Prop
  | .recv _ => True
  | .hangup => True
  | .step => True
  | .connect accepted => accepted = true
  | .write _ => True
  | .read _ => True
  | .serve _ _ => True
  | .work _ => True
  | _ => False

def Event.reply : Event → Option Bytes
  | .executed _ _ bytes => some bytes
  | _ => none

/-- What the node has made of the request that was last started on a connection. -/
def reported (trace : List Event) (c : Nat) : Option Bytes := (exchange trace c).findSome? Event.reply

/-- At the router's level a request is forwarded in one step, when the node
    executes it, and its reply arrives in one step, with the last byte of it. -/
def Phase.abstract (reported : Nat → Option Bytes) : Phase → kv.router.Phase
  | .check => .check
  | .connect => .connect
  | .sending c _ => (reported c).elim .forward .await
  | .receiving c _ _ => (reported c).elim .forward .await
  | .failed => .failed

def Routing.abstract (reported : Nat → Option Bytes) (self : Routing) : kv.router.Routing where
  preference_list := self.preference_list
  todo := self.todo
  phase := self.phase.abstract reported
  first_success := self.first_success

def Pc.abstract (reported : Nat → Option Bytes) : Pc → kv.router.Pc
  | .reading => .reading
  | .draining => .draining
  | .routing r => .routing (r.abstract reported)
  | .replying bytes => .replying bytes
  | .closed => .closed

/-- One thread at both levels. -/
structure Abstracts (trace : List Event) (thread : Thread) (thread' : kv.router.Thread) : Prop where
  pc : thread'.pc = thread.pc.abstract (reported trace)
  parser : thread'.parser = thread.parser
  req : thread'.req = thread.req
  conns : ∀ id, thread'.backend_conns id = none ↔ thread.backend_conns id = none

/-- The state of an undisturbed run at both levels. Every connection is whole,
    and idle but for the one in use. -/
structure Refines (trace : List Event) (s : State) (a : kv.router.State) : Prop where
  whole : ∀ c, (s.channels c).broken = false
  spare : ∀ c, (∀ sent arrived, s.thread.exchanging ≠ some (c, sent, arrived)) → (s.channels c).Idle
  running : ∀ r, s.thread.pc = .routing r → r.phase ≠ .failed
  alive : a.shared.alive_ = s.alive_
  nodes : ∀ id, a.shared.nodes id = { store := s.stores id }
  thread : Abstracts trace s.thread (a.threads 0)

/-- What the client sees, at either level. -/
def observe : Event → Option kv.router.Event
  | .received data => some (.received 0 data)
  | .invoked req => some (.invoked 0 req)
  | .returned req resp => some (.returned 0 req resp)
  | .sent bytes => some (.sent 0 bytes)
  | _ => none

def visible : kv.router.Event → Option kv.router.Event
  | .executed _ _ _ => none
  | .crashed _ => none
  | event => some event

/-- A step is a run of the router, with the same sight for the client. -/
def Simulated (router : Router) (trace events : List Event) (s : State) (a : kv.router.State) : Prop :=
  ∃ events' a', Run (kv.router.system router) kv.router.NoFailure a events' a' ∧
    events'.filterMap visible = events.filterMap observe ∧ Refines (trace ++ events) s a'

variable {router : Router} {trace trace' events : List Event} {s s' : State} {a a' : kv.router.State}
    {r : Routing} {c : Nat}

theorem reported_transmitted (trace : List Event) (c : Nat) (req : Request) :
    reported (trace ++ [.transmitted c req]) c = none := by
  rw [reported, exchange_transmitted]
  rfl

theorem reported_work (hwork : ∀ event ∈ events, event.Work c) (trace : List Event) :
    reported (trace ++ events) c = (reported trace c).or (events.findSome? Event.reply) := by
  rw [reported, exchange_work hwork, List.findSome?_append]
  rfl

theorem simulated_stay (hevents : events.filterMap observe = []) (hrefines : Refines (trace ++ events) s' a) :
    Simulated router trace events s' a :=
  ⟨[], a, .nil, hevents.symm, hrefines⟩

theorem simulated_step {label : kv.router.Label} {events' : List kv.router.Event} (hlabel : kv.router.NoFailure label)
    (hstep : kv.router.step router a label = some (a', events'))
    (hevents : events'.filterMap visible = events.filterMap observe) (hrefines : Refines (trace ++ events) s' a') :
    Simulated router trace events s' a :=
  ⟨events', a', .single hlabel hstep, hevents, hrefines⟩

theorem simulated_follow {thread : kv.router.Thread} {shared : kv.router.Shared} {events' : List kv.router.Event}
    (hstep : (a.threads 0).step router 0 a.shared = some (thread, shared, events'))
    (hevents : events'.filterMap visible = events.filterMap observe)
    (hrefines : Refines (trace ++ events) s' { a.setThread 0 thread with shared }) :
    Simulated router trace events s' a := by
  have hlabel : kv.router.NoFailure (.step 0) := trivial
  refine simulated_step hlabel ?_ hevents hrefines
  rw [kv.router.step, hstep, Option.map_some]

theorem Abstracts.setPc {thread : Thread} {thread' : kv.router.Thread}
    (habs : Abstracts trace thread thread') {pc : Pc}
    {pc' : kv.router.Pc} (hpc : pc' = pc.abstract (reported trace')) :
    Abstracts trace' { thread with pc } { thread' with pc := pc' } where
  pc := hpc
  parser := habs.parser
  req := habs.req
  conns := habs.conns

/-- A step of the thread while no connection is in use. -/
theorem Refines.setThread (hrefines : Refines trace s a) {thread : Thread} {thread' : kv.router.Thread}
    (hfree : s.thread.exchanging = none) (hrunning : ∀ r, thread.pc = .routing r → r.phase ≠ .failed)
    (hthread : Abstracts trace' thread thread') : Refines trace' { s with thread } (a.setThread 0 thread') where
  whole := hrefines.whole
  spare c _ := hrefines.spare c (by simp [hfree])
  running := hrunning
  alive := hrefines.alive
  nodes := hrefines.nodes
  thread := by
    rw [kv.router.setThread_threads, Function.update_self]
    exact hthread

theorem Thread.exchanging_of_pc {thread : Thread} (hpc : ∀ r, thread.pc ≠ .routing r) : thread.exchanging = none := by
  unfold exchanging
  split
  · exact absurd ‹_› (hpc _)
  · rfl

theorem Refines.step_eq (hrefines : Refines trace s a) (hpc : s.thread.pc = .routing r) :
    (a.threads 0).step router 0 a.shared = (a.threads 0).route router 0 a.shared (r.abstract (reported trace)) := by
  rw [kv.router.Thread.step, hrefines.thread.pc, hpc]
  rfl

/-- The body of the router's loop. -/
theorem route_cons (self : kv.router.Thread) (shared : kv.router.Shared) {r : kv.router.Routing} {node_id : Bytes}
    {todo : List Bytes} (htodo : r.todo = node_id :: todo) :
    self.route router 0 shared r =
      match r.phase with
      | .check =>
        if shared.is_alive node_id then some (self.routes { r with phase := .connect }, shared, [])
        else some (self.routes { r with todo }, shared, [])
      | .connect => some (self.connect router shared r node_id, shared, [])
      | .forward => self.forward 0 shared r node_id
      | .await bytes => (self.await 0 r todo bytes).map fun (thread, events) => (thread, shared, events)
      | .failed =>
        some ((self.setConn node_id none).routes { r with todo, phase := .check }, shared.mark node_id false, []) := by
  unfold kv.router.Thread.route
  split
  · rename_i hnil
    exact absurd (hnil.symm.trans htodo) (by simp)
  · rename_i hcons
    obtain ⟨rfl, rfl⟩ := List.cons.inj (hcons.symm.trans htodo)
    rfl

theorem Refines.is_alive (hrefines : Refines trace s a) (node_id : Bytes) :
    a.shared.is_alive node_id = s.alive_.is_alive node_id := by
  rw [kv.router.Shared.is_alive, hrefines.alive]

theorem setThread_setThread (a : kv.router.State) (thread thread' : kv.router.Thread) :
    (a.setThread 0 thread).setThread 0 thread' = a.setThread 0 thread' := by
  simp [kv.router.State.setThread]

theorem setThread_same (a : kv.router.State) : a.setThread 0 (a.threads 0) = a := by
  simp [kv.router.State.setThread]

/-- Both levels open a connection. -/
theorem Refines.open (hrefines : Refines trace s a) (hpc : s.thread.pc = .routing r) (hphase : r.phase = .connect)
    (node_id : Bytes) (conn : kv.router.BackendConn) :
    Refines trace (s.open node_id) (a.setThread 0 ((a.threads 0).setConn node_id (some conn))) where
  whole := (Function.forall_update_iff s.channels fun _ channel => channel.broken = false).mpr
    ⟨rfl, fun c _ => hrefines.whole c⟩
  spare c _ := by
    have hfree := Thread.exchanging_none hpc (.inr (.inl hphase))
    exact (Function.forall_update_iff s.channels fun _ channel => channel.Idle).mpr
      ⟨⟨.inl rfl, rfl, rfl, rfl⟩, fun c _ => hrefines.spare c (by simp [hfree])⟩ c
  running := hrefines.running
  alive := hrefines.alive
  nodes := hrefines.nodes
  thread := by
    rw [kv.router.setThread_threads, Function.update_self]
    refine ⟨hrefines.thread.pc, hrefines.thread.parser, hrefines.thread.req, fun id => ?_⟩
    by_cases hid : id = node_id
    · subst hid
      simp [State.open]
    · simpa [State.open, hid] using hrefines.thread.conns id

/-- A step on the connection in use. -/
theorem Refines.use (hrefines : Refines trace s a) {sent : Nat} {arrived : Bytes}
    (huse : s.thread.exchanging = some (c, sent, arrived)) {thread : Thread} {channel : Channel}
    {thread' : kv.router.Thread} (hwhole : channel.broken = false)
    (hidle : channel.Idle ∨ ∃ sent arrived, thread.exchanging = some (c, sent, arrived))
    (hrunning : ∀ r, thread.pc = .routing r → r.phase ≠ .failed) (hthread : Abstracts trace' thread thread') :
    Refines trace' { s.setChannel c channel with thread } (a.setThread 0 thread') where
  whole := (Function.forall_update_iff s.channels fun _ channel => channel.broken = false).mpr
    ⟨hwhole, fun c _ => hrefines.whole c⟩
  spare c' hspare := by
    by_cases hc : c' = c
    · subst hc
      rw [State.setChannel_self]
      rcases hidle with hidle | ⟨sent', arrived', hbusy⟩
      · exact hidle
      · exact absurd hbusy (hspare sent' arrived')
    · rw [State.setChannel_of_ne _ _ hc]
      refine hrefines.spare c' fun sent' arrived' hbusy => hc ?_
      exact (congrArg Prod.fst (Option.some.inj (huse.symm.trans hbusy))).symm
  running := hrunning
  alive := hrefines.alive
  nodes := hrefines.nodes
  thread := by
    rw [kv.router.setThread_threads, Function.update_self]
    exact hthread

theorem Channel.push_broken (channel : Channel) (data : Bytes) : (channel.push data).broken = channel.broken := by
  unfold push
  split <;> rfl

/-- What the thread does depends on its own connection alone. -/
theorem Abstracts.log {thread : Thread} {thread' : kv.router.Thread} (habs : Abstracts trace thread thread')
    (hreported : ∀ c sent arrived, thread.exchanging = some (c, sent, arrived) →
      reported trace' c = reported trace c) :
    Abstracts trace' thread thread' where
  pc := by
    rw [habs.pc]
    cases hpc : thread.pc with
    | routing r =>
      cases hphase : r.phase with
      | sending c sent =>
        have hsame := hreported c sent [] (by simp [Thread.exchanging, hpc, hphase])
        simp [Pc.abstract, Routing.abstract, hphase, Phase.abstract, hsame]
      | receiving c parser resp =>
        have hsame := hreported c (encode_request thread.req).length parser.buffer_
          (by simp [Thread.exchanging, hpc, hphase])
        simp [Pc.abstract, Routing.abstract, hphase, Phase.abstract, hsame]
      | check => simp [Pc.abstract, Routing.abstract, hphase, Phase.abstract]
      | connect => simp [Pc.abstract, Routing.abstract, hphase, Phase.abstract]
      | failed => simp [Pc.abstract, Routing.abstract, hphase, Phase.abstract]
    | _ => rfl
  parser := habs.parser
  req := habs.req
  conns := habs.conns

/-- A step of the node at the other end of a connection. -/
theorem Refines.setChannel (hrefines : Refines trace s a) {channel : Channel} {stores : Bytes → KVStore}
    (hwhole : channel.broken = false)
    (hidle : (∀ sent arrived, s.thread.exchanging ≠ some (c, sent, arrived)) → channel.Idle)
    (halive : a'.shared.alive_ = s.alive_) (hnodes : ∀ id, a'.shared.nodes id = { store := stores id })
    (hthread : Abstracts trace' s.thread (a'.threads 0)) :
    Refines trace' { s.setChannel c channel with stores } a' where
  whole := (Function.forall_update_iff s.channels fun _ channel => channel.broken = false).mpr
    ⟨hwhole, fun c _ => hrefines.whole c⟩
  spare c' hspare := by
    by_cases hc : c' = c
    · subst hc
      rw [State.setChannel_self]
      exact hidle hspare
    · rw [State.setChannel_of_ne _ _ hc]
      exact hrefines.spare c' hspare
  running := hrefines.running
  alive := halive
  nodes := hnodes
  thread := hthread

theorem WorkMove.broken {channel channel' : Channel} {store store' : KVStore}
    (hmove : WorkMove c channel store channel' store' events) : channel'.broken = channel.broken := by
  cases hmove <;> rfl

/-- A node that is about to execute a request has just parsed it. -/
theorem Exchange.executing {req req' : Request} {sent : Nat} {arrived : Bytes} {channel : Channel} {log : List Event}
    (hexchange : Exchange c req sent arrived channel log) (hpc : channel.served.pc = .executing req') :
    req' = req ∧ log = [.transmitted c req, .parsed c req] := by
  cases hexchange with
  | sending hidle => simp [hpc] at hidle
  | parsed hbusy => exact ⟨server.Pc.executing.inj (hpc.symm.trans hbusy), rfl⟩
  | executed _ hbusy => simp [hpc] at hbusy
  | replied _ hquiet => simp [Channel.Quiet, hpc] at hquiet
  | lost hclosed => simp [hpc] at hclosed

theorem Thread.exchanging_phase {thread : Thread} {sent : Nat} {arrived : Bytes} (hpc : thread.pc = .routing r)
    (huse : thread.exchanging = some (c, sent, arrived)) :
    thread.current = r.todo.head? ∧ ∀ reported, r.phase.abstract reported = (reported c).elim .forward .await := by
  cases hphase : r.phase <;> simp [exchanging, hpc, hphase] at huse
  · simp [current, hpc, hphase, Phase.abstract, huse.1]
  · simp [current, hpc, hphase, Phase.abstract, huse.1]

theorem observe_work (hwork : ∀ event ∈ events, event.Work c) : events.filterMap observe = [] := by
  rw [List.filterMap_eq_nil_iff]
  intro event hmem
  cases hwork event hmem <;> rfl

end kv.wire
