import Kv.Router.Errors

namespace kv.router

open kv.protocol Transition

/-- The thread gives up on the node: a forward to it has failed, and the catch
    block marks it down. -/
def givesUp (t : Nat) (node_id : Bytes) (step : Taken) : Bool :=
  match step.label with
  | .step t' => t' = t ∧ markedDown step = some node_id
  | _ => false

/-- The heartbeat thread writes down what its ping to the node has found. -/
def writesVerdict (node_id : Bytes) (step : Taken) : Bool :=
  match step.label, step.before.heartbeat with
  | .heartbeat, .marking addr _ _ => addr.id = node_id
  | _, _ => false

/-- A thread that has nothing left of earlier incarnations of a node: no
    connection, and no failed forward to account for. -/
structure Fresh (epoch : Nat) (node_id : Bytes) (thread : Thread) : Prop where
  conns : ∀ conn, thread.backend_conns node_id = some conn → conn.epoch = epoch
  phase : ∀ r todo, thread.pc = .routing r → r.todo = node_id :: todo → r.phase ≠ .failed

variable {router : Router} {t : Nat} {thread thread' : Thread} {shared shared' : Shared} {events : List Event}
  {s s' : State} {label : Label} {r : Routing} {node_id : Bytes} {epoch : Nat} {log : List Taken}

theorem Fresh.of_idle (hfresh : Fresh epoch node_id thread) (hconns : thread'.backend_conns = thread.backend_conns)
    (hpc : ∀ r, thread'.pc ≠ .routing r) : Fresh epoch node_id thread' where
  conns := hconns ▸ hfresh.conns
  phase r _ hr := absurd hr (hpc r)

theorem Fresh.of_routes (hconns : ∀ conn, thread.backend_conns node_id = some conn → conn.epoch = epoch)
    (hpc : thread.pc = .routing r) (hphase : ∀ todo, r.todo = node_id :: todo → r.phase ≠ .failed) :
    Fresh epoch node_id thread where
  conns := hconns
  phase r' todo hpc' := by
    obtain rfl := Pc.routing.inj (hpc.symm.trans hpc')
    exact hphase todo

theorem Fresh.conns_setConn (hfresh : Fresh epoch node_id thread) {other : Bytes} {new : Option BackendConn}
    (hnew : other = node_id → ∀ conn, new = some conn → conn.epoch = epoch) :
    ∀ conn, (thread.setConn other new).backend_conns node_id = some conn → conn.epoch = epoch := by
  intro conn hconn
  by_cases heq : node_id = other
  · subst heq
    exact hnew rfl conn (by simpa using hconn)
  · exact hfresh.conns conn (by simpa [Function.update_of_ne heq] using hconn)

/-- In front of a node that stays up, a fresh thread stays fresh: its connection
    is to the incarnation that runs, so nothing it does there fails. -/
theorem RouteStep.fresh (hfresh : Fresh epoch node_id thread)
    (hup : (shared.nodes node_id).up = true) (hepoch : (shared.nodes node_id).epoch = epoch)
    (hstep : RouteStep t thread shared r thread' shared' events) : Fresh epoch node_id thread' := by
  cases hstep with
  | exhausted => exact hfresh.of_idle rfl (by simp)
  | read => exact hfresh.of_idle rfl (by simp)
  | skipped => exact .of_routes hfresh.conns rfl (by simp)
  | chosen => exact .of_routes hfresh.conns rfl (by simp)
  | cached => exact .of_routes hfresh.conns rfl (by simp)
  | wrote => exact .of_routes hfresh.conns rfl (by simp)
  | marked => exact .of_routes (hfresh.conns_setConn (by simp)) rfl (by simp)
  | @opened other =>
    refine .of_routes (hfresh.conns_setConn ?_) rfl (by simp)
    rintro rfl conn hconn
    obtain rfl := Option.some.inj hconn
    exact hepoch
  | @executed other _ conn _ _ _ hconn =>
    refine .of_routes (hfresh.conns_setConn ?_) rfl (by simp)
    rintro rfl conn' hconn'
    obtain rfl := Option.some.inj hconn'
    exact hfresh.conns conn hconn
  | @refused other todo htodo _ hdown =>
    refine .of_routes hfresh.conns rfl fun todo' htodo' => ?_
    obtain ⟨rfl, -⟩ := List.cons.inj (htodo.symm.trans htodo')
    simp [hup] at hdown
  | @broken other todo conn htodo _ hconn hbroken =>
    refine .of_routes hfresh.conns rfl fun todo' htodo' => ?_
    obtain ⟨rfl, -⟩ := List.cons.inj (htodo.symm.trans htodo')
    simp [Shared.connected, hup, hepoch, hfresh.conns conn hconn] at hbroken

theorem ThreadStep.fresh (hfresh : Fresh epoch node_id thread) (hup : (shared.nodes node_id).up = true)
    (hepoch : (shared.nodes node_id).epoch = epoch)
    (hstep : ThreadStep router t thread shared thread' shared' events) : Fresh epoch node_id thread' := by
  cases hstep with
  | drained => exact hfresh.of_idle rfl (by simp)
  | rejected => exact hfresh.of_idle rfl (by simp)
  | pinged => exact hfresh.of_idle rfl (by simp)
  | replied => exact hfresh.of_idle rfl (by simp)
  | invoked => exact .of_routes hfresh.conns rfl (by simp)
  | routed _ hroute => exact hroute.fresh hfresh hup hepoch

/-- Without crashes and restarts a node stays as it is, apart from its store. -/
theorem SystemStep.node_kept (hlabel : NoFailure label) (hstep : SystemStep router s label s' events)
    (node_id : Bytes) :
    (s'.shared.nodes node_id).up = (s.shared.nodes node_id).up ∧
      (s'.shared.nodes node_id).epoch = (s.shared.nodes node_id).epoch := by
  cases hstep with
  | moved htaken =>
    rcases htaken.shared_cases with rfl | ⟨other, rfl⟩ | ⟨other, rfl, -⟩
    · exact ⟨rfl, rfl⟩
    · exact ⟨rfl, rfl⟩
    · by_cases heq : node_id = other
      · subst heq
        simp
      · simp [Function.update_of_ne heq]
  | crashed => exact hlabel.elim
  | restarted => exact hlabel.elim
  | _ => exact ⟨rfl, rfl⟩

theorem SystemStep.fresh (hfresh : Fresh epoch node_id (s.threads t)) (hup : (s.shared.nodes node_id).up = true)
    (hepoch : (s.shared.nodes node_id).epoch = epoch) (hstep : SystemStep router s label s' events) :
    Fresh epoch node_id (s'.threads t) := by
  cases hstep.view t with
  | unchanged hthread =>
    rw [hthread]
    exact hfresh
  | told hconns _ hpc' => exact hfresh.of_idle hconns hpc'
  | moved htaken => exact htaken.fresh hfresh hup hepoch
  | @lost r other todo bytes conn hpc htodo _ hconn hbroken hthread =>
    rw [hthread]
    refine .of_routes hfresh.conns rfl fun todo' htodo' => ?_
    obtain ⟨rfl, -⟩ := List.cons.inj (htodo.symm.trans htodo')
    simp [Shared.connected, hup, hepoch, hfresh.conns conn hconn] at hbroken

/-- After a failed forward there is only the catch block. -/
theorem RouteStep.of_failed {todo : List Bytes} (htodo : r.todo = node_id :: todo) (hphase : r.phase = .failed)
    (hstep : RouteStep t thread shared r thread' shared' events) :
    thread' = (thread.setConn node_id none).routes { r with todo, phase := .check } ∧
      shared' = shared.mark node_id false := by
  cases hstep with
  | marked htodo' =>
    obtain ⟨rfl, rfl⟩ := List.cons.inj (htodo.symm.trans htodo')
    exact ⟨rfl, rfl⟩
  | exhausted htodo' => simp [htodo] at htodo'
  | skipped _ hphase' => simp [hphase] at hphase'
  | chosen _ hphase' => simp [hphase] at hphase'
  | cached _ hphase' => simp [hphase] at hphase'
  | opened _ hphase' => simp [hphase] at hphase'
  | refused _ hphase' => simp [hphase] at hphase'
  | broken _ hphase' => simp [hphase] at hphase'
  | executed _ hphase' => simp [hphase] at hphase'
  | read _ hphase' => simp [hphase] at hphase'
  | wrote _ hphase' => simp [hphase] at hphase'

theorem givesUp_cases {step : Taken} (hgives : givesUp t node_id step) :
    ∃ r todo, step.label = .step t ∧ (step.before.threads t).pc = .routing r ∧ r.todo = node_id :: todo ∧
      r.phase = .failed := by
  unfold givesUp at hgives
  split at hgives
  · rename_i t' hlabel
    obtain ⟨rfl, hmarks⟩ : t' = t ∧ markedDown step = some node_id := by simpa using hgives
    obtain ⟨t'', r, todo, hlabel', hpc, htodo, hphase⟩ := markedDown_cases hmarks
    obtain rfl := Label.step.inj (hlabel.symm.trans hlabel')
    exact ⟨r, todo, hlabel, hpc, htodo, hphase⟩
  · simp at hgives

/-- A thread that has given up on a node has dropped its connection to it. -/
theorem fresh_of_givesUp (hstep : SystemStep router s label s' events)
    (hgives : givesUp t node_id ⟨s, label, events, s'⟩) (epoch : Nat) : Fresh epoch node_id (s'.threads t) := by
  obtain ⟨r, todo, rfl, hpc, htodo, hphase⟩ := givesUp_cases hgives
  cases hstep with
  | moved htaken =>
    obtain ⟨rfl, rfl⟩ := (htaken.route hpc).of_failed htodo hphase
    change Fresh epoch node_id (Function.update s.threads t _ t)
    rw [Function.update_self]
    exact .of_routes (by simp) rfl (by simp)

theorem Fresh.not_givesUp (hfresh : Fresh epoch node_id (s.threads t)) :
    givesUp t node_id ⟨s, label, events, s'⟩ = false := by
  rw [Bool.eq_false_iff]
  intro hgives
  obtain ⟨r, todo, -, hpc, htodo, hphase⟩ := givesUp_cases hgives
  exact hfresh.phase r todo hpc htodo hphase

/-- Healing. From any state that a router can be in, and for as long as no node
    crashes or restarts, each client's thread gives up at most once on a node
    that is up. -/
theorem gives_up_at_most_once {nodes : List NodeAddress} {vnodes replicas : Nat} {trace : List Event}
    {start final : State} {log : List Taken}
    (hreach : Run (system (Router.create nodes vnodes replicas)) (fun _ => True)
      (system (Router.create nodes vnodes replicas)).init trace start)
    (hrun : Run (system (Router.create nodes vnodes replicas)).logged NoFailure start log final) {node_id : Bytes}
    (hup : (start.shared.nodes node_id).up = true) (t : Nat) :
    log.countP (givesUp t node_id) ≤ 1 := by
  let router := Router.create nodes vnodes replicas
  let epoch := (start.shared.nodes node_id).epoch
  suffices hinv : (Sane router final ∧ (final.shared.nodes node_id).up = true ∧
      (final.shared.nodes node_id).epoch = epoch) ∧
      (log.countP (givesUp t node_id) = 0 ∨
        log.countP (givesUp t node_id) = 1 ∧ Fresh epoch node_id (final.threads t)) by omega
  refine hrun.logged_invariant (G := fun _ => True) (I := fun log s =>
    (Sane router s ∧ (s.shared.nodes node_id).up = true ∧ (s.shared.nodes node_id).epoch = epoch) ∧
      (log.countP (givesUp t node_id) = 0 ∨
        log.countP (givesUp t node_id) = 1 ∧ Fresh epoch node_id (s.threads t)))
    ⟨⟨sane_of_run Router.known_create hreach, hup, rfl⟩, .inl rfl⟩ ?_ fun _ _ => trivial
  rintro log s label s' events ⟨⟨hsane, hup, hepoch⟩, hcount⟩ hlabel - htaken
  have hstep := hsane.step Router.known_create htaken
  obtain ⟨hup', hepoch'⟩ := hstep.node_kept hlabel node_id
  refine ⟨⟨hsane.keep hstep, hup'.trans hup, hepoch'.trans hepoch⟩, ?_⟩
  rw [List.countP_append, List.countP_singleton]
  rcases hcount with hnone | ⟨hone, hfresh⟩
  · by_cases hgives : givesUp t node_id ⟨s, label, events, s'⟩
    · exact .inr ⟨by rw [if_pos hgives, hnone], fresh_of_givesUp hstep hgives epoch⟩
    · exact .inl (by rw [if_neg hgives, hnone])
  · exact .inr ⟨by rw [hfresh.not_givesUp, hone]; rfl, hstep.fresh hfresh hup hepoch⟩

/-- The thread has a connection from before a restart, and learns of it when it
    uses the connection. -/
theorem gives_up_at_most_once_example :
    let router := Router.create [⟨ascii "a", 1⟩] 1 1
    ∃ trace start log final,
      Run (system router) (fun _ => True) (system router).init trace start ∧
      Run (system router).logged NoFailure start log final ∧ (start.shared.nodes (ascii "a:1")).up = true ∧
      0 < log.countP (givesUp 0 (ascii "a:1")) ∧ log.countP (givesUp 0 (ascii "a:1")) ≤ 1 := by
  intro router
  let get := Label.recv 0 (ascii "GET k" ++ [LF])
  let check (start : State) (log : List Taken) (_ : State) : Bool :=
    (start.shared.nodes (ascii "a:1")).up && 0 < log.countP (givesUp 0 (ascii "a:1"))
  obtain ⟨trace, start, log, final, hreach, hrun, hcheck⟩ : ∃ trace start log final,
      Run (system router) (fun _ => True) (system router).init trace start ∧
      Run (system router).logged NoFailure start log final ∧ check start log final := by
    refine Run.exists_phases_of_exec ([get] ++ List.replicate 7 (Label.step 0) ++
      [Label.crash (ascii "a:1"), .restart (ascii "a:1")]) ([get] ++ List.replicate 8 (Label.step 0) ++
      List.replicate 4 Label.heartbeat ++ [get] ++ List.replicate 6 (Label.step 0)) check (fun _ _ => trivial)
      (by decide) ?_
    decide +kernel
  simp only [check, Bool.and_eq_true, decide_eq_true_eq] at hcheck
  exact ⟨trace, start, log, final, hreach, hrun, hcheck.1, hcheck.2, gives_up_at_most_once hreach hrun hcheck.1 0⟩

/-- Who writes the flag of a node: the heartbeat, or a thread that gives up on
    the node. -/
theorem SystemStep.flag (hstep : SystemStep router s label s' events) (node_id : Bytes) :
    s'.shared.is_alive node_id = s.shared.is_alive node_id ∨
      (markedDown ⟨s, label, events, s'⟩ = some node_id ∧ s'.shared.is_alive node_id = false) ∨
      ∃ addr up todo, s.heartbeat = .marking addr up todo ∧ addr.id = node_id ∧ s'.shared.is_alive node_id = up := by
  cases hstep with
  | moved htaken =>
    cases htaken with
    | routed hpc hroute =>
      cases hroute with
      | @marked other todo htodo hphase =>
        by_cases heq : node_id = other
        · subst heq
          exact .inr (.inl ⟨by simp [markedDown, hpc, hphase, htodo], (Shared.is_alive_mark ..).trans (if_pos rfl)⟩)
        · exact .inl ((Shared.is_alive_mark ..).trans (if_neg heq))
      | _ => exact .inl rfl
    | _ => exact .inl rfl
  | @marked addr up todo hheartbeat =>
    by_cases heq : node_id = addr.id
    · exact .inr (.inr ⟨addr, up, todo, hheartbeat, heq.symm, (Shared.is_alive_mark ..).trans (if_pos heq)⟩)
    · exact .inl ((Shared.is_alive_mark ..).trans (if_neg heq))
  | _ => exact .inl rfl

/-- Where a verdict of the heartbeat comes from: it stood before, or a ping has
    just ended. -/
theorem SystemStep.verdict {addr : NodeAddress} {up : Bool} {todo : List NodeAddress}
    (hstep : SystemStep router s label s' events) (hmarking : s'.heartbeat = .marking addr up todo) :
    (s.heartbeat = .marking addr up todo ∧ label ≠ .heartbeat) ∨
      (s.heartbeat = .pinging addr todo ∧ up = (s.shared.nodes addr.id).up) := by
  cases hstep with
  | pinged hheartbeat =>
    obtain ⟨rfl, rfl, rfl⟩ := Heartbeat.marking.inj hmarking
    exact .inr ⟨hheartbeat, rfl⟩
  | swept => simp at hmarking
  | pinging => simp at hmarking
  | marked => simp at hmarking
  | _ => exact .inl ⟨hmarking, by simp⟩

theorem startsPing_cases {step : Taken} (hstart : startsPing node_id step) :
    step.label = .heartbeat ∧ ∃ addr todo, step.before.heartbeat = .sweeping (addr :: todo) ∧ addr.id = node_id := by
  unfold startsPing at hstart
  split at hstart
  · rename_i addr todo hlabel hheartbeat
    exact ⟨hlabel, addr, todo, hheartbeat, by simpa using hstart⟩
  · simp at hstart

theorem writesVerdict_cases {step : Taken} (hwrites : writesVerdict node_id step) :
    step.label = .heartbeat ∧ ∃ addr up todo, step.before.heartbeat = .marking addr up todo ∧ addr.id = node_id := by
  unfold writesVerdict at hwrites
  split at hwrites
  · rename_i addr up todo hlabel hheartbeat
    exact ⟨hlabel, addr, up, todo, hheartbeat, by simpa using hwrites⟩
  · simp at hwrites

/-- The heartbeat has started a ping to the node and written down what it found,
    and no thread has given up on the node since, unless it is down. -/
def Judged (node_id : Bytes) (up : Bool) (log : List Taken) : Prop :=
  ∃ earlier first between mark later, log = earlier ++ first :: between ++ mark :: later ∧ startsPing node_id first ∧
    writesVerdict node_id mark ∧ (up = true → ∀ step ∈ later, markedDown step ≠ some node_id)

/-- The invariant of the detector while the node stays as it is. -/
structure Tracks (node_id : Bytes) (up : Bool) (log : List Taken) (s : State) : Prop where
  node : (s.shared.nodes node_id).up = up
  verdict : (∃ first ∈ log, startsPing node_id first) →
    ∀ addr verdict todo, s.heartbeat = .marking addr verdict todo → addr.id = node_id → verdict = up
  flag : Judged node_id up log → s.shared.is_alive node_id = up

theorem Tracks.step {up : Bool} (htracks : Tracks node_id up log s) (hlabel : NoFailure label)
    (hstep : SystemStep router s label s' events) : Tracks node_id up (log ++ [⟨s, label, events, s'⟩]) s' where
  node := (hstep.node_kept hlabel node_id).1.trans htracks.node
  verdict := by
    rintro ⟨first, hmem, hstart⟩ addr verdict todo hmarking haddr
    rcases hstep.verdict hmarking with ⟨hbefore, hother⟩ | ⟨-, hverdict⟩
    · rcases List.mem_append.mp hmem with hold | hnew
      · exact htracks.verdict ⟨first, hold, hstart⟩ addr verdict todo hbefore haddr
      · rw [List.mem_singleton.mp hnew] at hstart
        exact absurd (startsPing_cases hstart).1 hother
    · rw [hverdict, haddr, htracks.node]
  flag := by
    rintro ⟨earlier, first, between, mark, later, hsplit, hstart, hmark, hlater⟩
    rcases snoc_eq_append_cons hsplit with ⟨-, rfl, rfl⟩ | ⟨later', rfl, hold⟩
    · obtain ⟨rfl, addr, verdict, todo, hheartbeat, haddr⟩ := writesVerdict_cases hmark
      have hverdict := htracks.verdict ⟨first, by simp, hstart⟩ addr verdict todo hheartbeat haddr
      cases hstep with
      | marked hheartbeat' =>
        obtain ⟨rfl, rfl, rfl⟩ := Heartbeat.marking.inj (hheartbeat.symm.trans hheartbeat')
        rw [← haddr, ← hverdict]
        exact (Shared.is_alive_mark ..).trans (if_pos rfl)
      | swept hheartbeat' => exact absurd (hheartbeat.symm.trans hheartbeat') (by simp)
      | pinging hheartbeat' => exact absurd (hheartbeat.symm.trans hheartbeat') (by simp)
      | pinged hheartbeat' => exact absurd (hheartbeat.symm.trans hheartbeat') (by simp)
    · have hbefore := htracks.flag ⟨earlier, first, between, mark, later', hold, hstart, hmark,
        fun hup step hmem => hlater hup step (List.mem_append_left _ hmem)⟩
      rcases hstep.flag node_id with hsame | ⟨hmarks, hflag⟩ | ⟨addr, verdict, todo, hheartbeat, haddr, hflag⟩
      · exact hsame.trans hbefore
      · rw [hflag]
        cases up with
        | false => rfl
        | true => exact absurd hmarks (hlater rfl _ (by simp))
      · rw [hflag]
        exact htracks.verdict ⟨first, by simp [hold], hstart⟩ addr verdict todo hheartbeat haddr

/-- The flags become right. From any state that a router can be in, and for as
    long as no node crashes or restarts: once the heartbeat has started a ping to
    a node and written down what it found, the flag of the node says whether it
    is up, until a thread gives up on the node. -/
theorem flag_right_after_ping {nodes : List NodeAddress} {vnodes replicas : Nat} {trace : List Event}
    {start final : State} {log : List Taken}
    (hreach : Run (system (Router.create nodes vnodes replicas)) (fun _ => True)
      (system (Router.create nodes vnodes replicas)).init trace start)
    (hrun : Run (system (Router.create nodes vnodes replicas)).logged NoFailure start log final) {node_id : Bytes}
    (hjudged : Judged node_id (start.shared.nodes node_id).up log) :
    (final.shared.nodes node_id).up = (start.shared.nodes node_id).up ∧
      final.shared.is_alive node_id = (final.shared.nodes node_id).up := by
  let router := Router.create nodes vnodes replicas
  let up := (start.shared.nodes node_id).up
  have htracks : Sane router final ∧ Tracks node_id up log final := by
    refine hrun.logged_invariant (G := fun _ => True) (I := fun log s => Sane router s ∧ Tracks node_id up log s) ?_ ?_
      fun _ _ => trivial
    · refine ⟨sane_of_run Router.known_create hreach, rfl, by simp, ?_⟩
      rintro ⟨earlier, first, between, mark, later, hsplit, -⟩
      simp at hsplit
    · rintro log s label s' events ⟨hsane, htracks⟩ hlabel - htaken
      have hstep := hsane.step Router.known_create htaken
      exact ⟨hsane.keep hstep, htracks.step hlabel hstep⟩
  exact ⟨htracks.2.node, (htracks.2.flag hjudged).trans htracks.2.node.symm⟩

/-- A node has crashed, and a sweep of the heartbeat finds out. -/
theorem flag_right_after_ping_example :
    let router := Router.create [⟨ascii "a", 1⟩] 1 1
    ∃ trace start log final,
      Run (system router) (fun _ => True) (system router).init trace start ∧
      Run (system router).logged NoFailure start log final ∧ (start.shared.nodes (ascii "a:1")).up = false ∧
      start.shared.is_alive (ascii "a:1") = true ∧ Judged (ascii "a:1") false log ∧
      final.shared.is_alive (ascii "a:1") = (final.shared.nodes (ascii "a:1")).up := by
  intro router
  let check (start : State) (log : List Taken) (_ : State) : Bool :=
    !(start.shared.nodes (ascii "a:1")).up && start.shared.is_alive (ascii "a:1") && log.length = 4 &&
      log[1]?.any (startsPing (ascii "a:1")) && log[3]?.any (writesVerdict (ascii "a:1"))
  obtain ⟨trace, start, log, final, hreach, hrun, hcheck⟩ : ∃ trace start log final,
      Run (system router) (fun _ => True) (system router).init trace start ∧
      Run (system router).logged NoFailure start log final ∧ check start log final := by
    refine Run.exists_phases_of_exec [Label.crash (ascii "a:1")] (List.replicate 4 Label.heartbeat) check
      (fun _ _ => trivial) (by decide) ?_
    decide +kernel
  simp only [check, Bool.and_eq_true, Bool.not_eq_true', decide_eq_true_eq] at hcheck
  obtain ⟨⟨⟨⟨hdown, halive⟩, hlength⟩, hstart⟩, hmark⟩ := hcheck
  obtain ⟨sweep, first, ping, mark, rfl⟩ := List.length_eq_four.mp hlength
  have hjudged : Judged (ascii "a:1") false [sweep, first, ping, mark] :=
    ⟨[sweep], first, [ping], mark, [], rfl, by simpa using hstart, by simpa using hmark, by simp⟩
  exact ⟨trace, start, _, final, hreach, hrun, hdown, halive, hjudged,
    (flag_right_after_ping hreach hrun (hdown.symm ▸ hjudged)).2⟩

/-- A node that no thread has reason to doubt: it is up and flagged alive, no
    thread has anything left of an earlier incarnation of it, and the heartbeat
    is not about to write otherwise. -/
structure Undoubted (node_id : Bytes) (s : State) : Prop where
  up : (s.shared.nodes node_id).up = true
  alive : s.shared.is_alive node_id = true
  fresh : ∀ t, Fresh (s.shared.nodes node_id).epoch node_id (s.threads t)
  verdict : ∀ addr todo, s.heartbeat = .marking addr false todo → addr.id ≠ node_id

theorem Undoubted.step (hundoubted : Undoubted node_id s) (hlabel : NoFailure label)
    (hstep : SystemStep router s label s' events) : Undoubted node_id s' := by
  obtain ⟨hup, hepoch⟩ := hstep.node_kept hlabel node_id
  refine ⟨hup.trans hundoubted.up, ?_, fun t => ?_, ?_⟩
  · rcases hstep.flag node_id with hsame | ⟨hmarks, -⟩ | ⟨addr, up, todo, hheartbeat, haddr, hflag⟩
    · exact hsame.trans hundoubted.alive
    · obtain ⟨t, r, todo, -, hpc, htodo, hphase⟩ := markedDown_cases hmarks
      exact absurd hphase ((hundoubted.fresh t).phase r todo hpc htodo)
    · rw [hflag]
      cases up with
      | true => rfl
      | false => exact absurd haddr (hundoubted.verdict addr todo hheartbeat)
  · rw [hepoch]
    exact hstep.fresh (hundoubted.fresh t) hundoubted.up rfl
  · rintro addr todo hmarking rfl
    rcases hstep.verdict hmarking with ⟨hbefore, -⟩ | ⟨-, hdown⟩
    · exact hundoubted.verdict addr todo hbefore rfl
    · simp [hundoubted.up] at hdown

/-- The request still has the node ahead of it, or it has an answer. -/
def Routing.Hopeful (node_id : Bytes) (r : Routing) : Prop := node_id ∈ r.todo ∨ r.first_success ≠ none

theorem Routing.Hopeful.pass {other : Bytes} {todo : List Bytes} (hhope : r.Hopeful node_id)
    (htodo : r.todo = other :: todo) (hne : node_id ≠ other) :
    ({ r with todo, phase := .check } : Routing).Hopeful node_id := by
  rcases hhope with hmem | hsuccess
  · rw [htodo, List.mem_cons] at hmem
    exact .inl (hmem.resolve_left hne)
  · exact .inr hsuccess

theorem RouteStep.hopeful {r' : Routing} (hfresh : Fresh epoch node_id thread)
    (halive : shared.is_alive node_id = true)
    (hpc : thread.pc = .routing r) (hstep : RouteStep t thread shared r thread' shared' events)
    (hpc' : thread'.pc = .routing r') :
    r'.preference_list = r.preference_list ∧ (r.Hopeful node_id → r'.Hopeful node_id) := by
  cases hstep with
  | exhausted => simp at hpc'
  | read => simp at hpc'
  | skipped htodo _ hdead =>
    obtain rfl := Pc.routing.inj hpc'
    refine ⟨rfl, fun hhope => hhope.pass htodo ?_⟩
    rintro rfl
    simp [halive] at hdead
  | marked htodo hphase =>
    obtain rfl := Pc.routing.inj hpc'
    refine ⟨rfl, fun hhope => hhope.pass htodo ?_⟩
    rintro rfl
    exact hfresh.phase r _ hpc htodo hphase
  | wrote =>
    obtain rfl := Pc.routing.inj hpc'
    exact ⟨rfl, fun _ => .inr (by simp)⟩
  | _ =>
    obtain rfl := Pc.routing.inj hpc'
    exact ⟨rfl, id⟩

/-- A request that is taken up in front of an undoubted node keeps its hope. -/
theorem SystemStep.hopeful {r' : Routing} (hundoubted : Undoubted node_id s)
    (hstep : SystemStep router s label s' events)
    (hpc' : (s'.threads t).pc = .routing r') (hlisted : node_id ∈ r'.preference_list) :
    r'.Hopeful node_id ∨ (∀ req, .invoked t req ∉ events) ∧ ∃ r, (s.threads t).pc = .routing r ∧
      node_id ∈ r.preference_list ∧ (r.Hopeful node_id → r'.Hopeful node_id) := by
  cases hstep.view t with
  | unchanged hthread hevents =>
    rw [hthread] at hpc'
    exact .inr ⟨fun req hmem => hevents _ hmem rfl, r', hpc', hlisted, id⟩
  | told _ _ hidle => exact absurd hpc' (hidle r')
  | @lost r _ _ _ _ hpc _ _ _ _ hthread hevents =>
    rw [hthread] at hpc'
    obtain rfl := Pc.routing.inj hpc'
    exact .inr ⟨by simp [hevents], r, hpc, hlisted, id⟩
  | moved htaken =>
    generalize s'.threads t = thread, s'.shared = shared at htaken hpc'
    cases htaken with
    | invoked =>
      obtain rfl := Pc.routing.inj hpc'
      exact .inl (.inl hlisted)
    | routed hpc hroute =>
      obtain ⟨hlist, hkept⟩ := hroute.hopeful (hundoubted.fresh t) hundoubted.alive hpc hpc'
      exact .inr ⟨hroute.not_invoked t, _, hpc, hlist ▸ hlisted, hkept⟩
    | _ => simp at hpc'

/-- Availability. From any state that a router can be in, and for as long as no
    node crashes or restarts: an undoubted node stays so, and no request that
    is taken up meanwhile and has the node in its preference list is answered
    with an error. -/
theorem undoubted_node_serves {nodes : List NodeAddress} {vnodes replicas : Nat} {trace : List Event}
    {start final : State} {log : List Taken}
    (hreach : Run (system (Router.create nodes vnodes replicas)) (fun _ => True)
      (system (Router.create nodes vnodes replicas)).init trace start) {node_id : Bytes}
    (hundoubted : Undoubted node_id start)
    (hrun : Run (system (Router.create nodes vnodes replicas)).logged NoFailure start log final) :
    Undoubted node_id final ∧ ∀ before first during last after t req req' resp,
      log = before ++ first :: during ++ last :: after → .invoked t req' ∈ first.events →
      .returned t req resp ∈ last.events →
      (∀ ids, (Router.create nodes vnodes replicas).preference_list req.key = some ids → node_id ∈ ids) →
      resp.type ≠ .Error := by
  let router := Router.create nodes vnodes replicas
  have hinv {log : List Taken} {s : State} (hrun : Run (system router).logged NoFailure start log s) :
      Sane router s ∧ Undoubted node_id s ∧ ∀ t r, (s.threads t).pc = .routing r → node_id ∈ r.preference_list →
        (∃ step ∈ log, ∃ req, .invoked t req ∈ step.events) → r.Hopeful node_id := by
    refine hrun.logged_invariant (G := fun _ => True) (I := fun log s => Sane router s ∧ Undoubted node_id s ∧
      ∀ t r, (s.threads t).pc = .routing r → node_id ∈ r.preference_list →
        (∃ step ∈ log, ∃ req, .invoked t req ∈ step.events) → r.Hopeful node_id)
      ⟨sane_of_run Router.known_create hreach, hundoubted, by simp⟩ ?_ fun _ _ => trivial
    rintro log s label s' events ⟨hsane, hundoubted, hhope⟩ hlabel - htaken
    have hstep := hsane.step Router.known_create htaken
    refine ⟨hsane.keep hstep, hundoubted.step hlabel hstep, ?_⟩
    rintro t r' hpc' hlisted ⟨step, hmem, req, hinvoked⟩
    rcases hstep.hopeful hundoubted hpc' hlisted with hnew | ⟨hnot, r, hpc, hlisted', hkept⟩
    · exact hnew
    · rcases List.mem_append.mp hmem with hold | hlast
      · exact hkept (hhope t r hpc hlisted' ⟨step, hold, req, hinvoked⟩)
      · rw [List.mem_singleton.mp hlast] at hinvoked
        exact absurd hinvoked (hnot req)
  refine ⟨(hinv hrun).2.1, ?_⟩
  rintro before first during last after t req req' resp rfl hinvoked hreturned hlisted
  obtain ⟨hbefore, htaken⟩ := hrun.logged_at
  obtain ⟨hsane, -, hhope⟩ := hinv hbefore
  obtain ⟨rfl, r, hpc, hcases⟩ := (hsane.step Router.known_create htaken).returned hreturned
  rcases hcases with ⟨htodo, hresp⟩ | htype
  · -- The list is exhausted, so the hope is an answer.
    rcases hhope t r hpc (hlisted _ ((hsane.threads t).routing r hpc).listed) ⟨first, by simp, req', hinvoked⟩ with
      hmem | hsuccess
    · simp [htodo] at hmem
    · obtain ⟨first_success, hfirst⟩ := Option.ne_none_iff_exists'.mp hsuccess
      rw [hresp, hfirst, Option.getD_some]
      exact (hsane.threads t).success r first_success hpc hfirst
  · exact htype

/-- The first of two nodes has crashed; a request for both of them is served by
    the second one. -/
theorem undoubted_node_serves_example :
    let router := Router.create [⟨ascii "a", 1⟩, ⟨ascii "b", 1⟩] 1 2
    let get : Request := ⟨.Get, ascii "k", []⟩
    ∃ start before first during last final resp,
      Undoubted (ascii "b:1") start ∧ (start.shared.nodes (ascii "a:1")).up = false ∧
      Run (system router).logged NoFailure start (before ++ first :: during ++ [last]) final ∧
      .invoked 0 get ∈ first.events ∧ .returned 0 get resp ∈ last.events ∧ resp.type ≠ .Error := by
  intro router get
  let init := (system router).init
  let start : State :=
    { init with shared := init.shared.setNode (ascii "a:1") { init.shared.nodes (ascii "a:1") with up := false } }
  have hreach : Run (system router) (fun _ => True) init [.crashed (ascii "a:1")] start :=
    .single (show True from trivial) (show (system router).step init (.crash (ascii "a:1")) = _ from rfl)
  have hundoubted : Undoubted (ascii "b:1") start :=
    ⟨by decide +kernel, by decide +kernel, fun t => ⟨by simp [start, init, system], by simp [start, init, system]⟩,
      by simp [start, init, system]⟩
  let resp : Response := ⟨.NotFound, [], []⟩
  let check (_ : List Taken) (first : Taken) (_ : List Taken) (last : Taken) (_ : State) : Bool :=
    .invoked 0 get ∈ first.events && .returned 0 get resp ∈ last.events
  obtain ⟨before, first, during, last, final, hrun, hcheck⟩ : ∃ before first during last final,
      Run (system router).logged NoFailure start (before ++ first :: during ++ [last]) final ∧
      check before first during last final := by
    refine Run.exists_interval_of_exec ([Label.recv 0 (ascii "GET k" ++ [LF])] ++ List.replicate 8 (Label.step 0)) 1
      check
      (by decide) ?_
    decide +kernel
  simp only [check, Bool.and_eq_true, decide_eq_true_eq] at hcheck
  have hlist : router.preference_list (ascii "k") = some [ascii "a:1", ascii "b:1"] := by decide +kernel
  refine ⟨start, before, first, during, last, final, resp, hundoubted, by decide +kernel, hrun, hcheck.1, hcheck.2, ?_⟩
  refine (undoubted_node_serves hreach hundoubted hrun).2 before first during last [] 0 get get resp rfl hcheck.1
    hcheck.2 fun ids hids => ?_
  obtain rfl := Option.some.inj (hlist.symm.trans hids)
  simp

end kv.router
