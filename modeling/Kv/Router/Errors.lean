import Kv.Router.Detector

namespace kv.router

open kv.protocol Transition

/-- The node is up, in this incarnation, in all states that these steps lead to. -/
def Runs (node_id : Bytes) (epoch : Nat) (steps : List Taken) : Prop :=
  ∀ step ∈ steps, (step.after.shared.nodes node_id).up = true ∧ (step.after.shared.nodes node_id).epoch = epoch

/-- The node is up all the time, without a restart in between. -/
def UpThroughout (node_id : Bytes) (steps : List Taken) : Prop := ∃ epoch, Runs node_id epoch steps

/-- A thread that finds a node up is not misled about it: it sees the node
    flagged alive when it checks, and it has no connection to an earlier
    incarnation when it forwards. -/
def timely (step : Taken) : Bool :=
  match step.label with
  | .step t =>
    match (step.before.threads t).pc with
    | .routing r =>
      match r.todo, r.phase with
      | node_id :: _, .check => !(step.before.shared.nodes node_id).up || step.before.shared.is_alive node_id
      | node_id :: _, .forward =>
        match (step.before.threads t).backend_conns node_id with
        | none => true
        | some conn =>
          !(step.before.shared.nodes node_id).up || conn.epoch == (step.before.shared.nodes node_id).epoch
      | _, _ => true
    | _ => true
  | _ => true

/-- What a request knows of the nodes it is through with, over steps that
    include its invocation: as long as it has no answer, none of them was up all
    the time. -/
structure Tried (steps : List Taken) (thread : Thread) (r : Routing) : Prop where
  visited : ∃ visited, r.preference_list = visited ++ r.todo ∧
    (r.first_success = none → ∀ id ∈ visited, ¬ UpThroughout id steps)
  failed : ∀ id todo, r.todo = id :: todo → r.phase = .failed → ¬ UpThroughout id steps
  awaited : ∀ id todo bytes, r.todo = id :: todo → r.phase = .await bytes →
    ∃ conn, thread.backend_conns id = some conn ∧ ∀ epoch, Runs id epoch steps → conn.epoch = epoch

variable {router : Router} {t : Nat} {thread thread' : Thread} {s s' : State} {label : Label} {events : List Event}
  {steps : List Taken} {r : Routing}

theorem Runs.of_append {id : Bytes} {epoch : Nat} {more : List Taken} (hruns : Runs id epoch (steps ++ more)) :
    Runs id epoch steps :=
  fun step hmem => hruns step (List.mem_append_left _ hmem)

theorem Runs.last {id : Bytes} {epoch : Nat} {step : Taken} (hruns : Runs id epoch (steps ++ [step])) :
    (step.after.shared.nodes id).up = true ∧ (step.after.shared.nodes id).epoch = epoch :=
  hruns step (by simp)

theorem UpThroughout.of_append {id : Bytes} {more : List Taken} (hup : UpThroughout id (steps ++ more)) :
    UpThroughout id steps := by
  obtain ⟨epoch, hruns⟩ := hup
  exact ⟨epoch, hruns.of_append⟩

theorem Tried.later (htried : Tried steps thread r) (more : List Taken) : Tried (steps ++ more) thread r where
  visited := by
    obtain ⟨visited, hlist, hgone⟩ := htried.visited
    exact ⟨visited, hlist, fun hnone id hid hup => hgone hnone id hid hup.of_append⟩
  failed id todo htodo hphase hup := htried.failed id todo htodo hphase hup.of_append
  awaited id todo bytes htodo hphase := by
    obtain ⟨conn, hconn, hepoch⟩ := htried.awaited id todo bytes htodo hphase
    exact ⟨conn, hconn, fun epoch hruns => hepoch epoch hruns.of_append⟩

theorem tried_start (steps : List Taken) (thread : Thread) (ids : List Bytes) :
    Tried steps thread { preference_list := ids, todo := ids } where
  visited := ⟨[], rfl, by simp⟩
  failed _ _ _ hphase := by simp at hphase
  awaited _ _ _ _ hphase := by simp at hphase

/-- Another phase for the same node. -/
theorem Tried.enter (htried : Tried steps thread r) {id : Bytes} {todo : List Bytes} (htodo : r.todo = id :: todo)
    {phase : Phase} (hfailed : phase = .failed → ¬ UpThroughout id steps)
    (hawaited : ∀ bytes, phase = .await bytes →
      ∃ conn, thread'.backend_conns id = some conn ∧ ∀ epoch, Runs id epoch steps → conn.epoch = epoch) :
    Tried steps thread' { r with phase } where
  visited := htried.visited
  failed id' todo' htodo' hphase := by
    obtain ⟨rfl, -⟩ := List.cons.inj (htodo.symm.trans htodo')
    exact hfailed hphase
  awaited id' todo' bytes htodo' hphase := by
    obtain ⟨rfl, -⟩ := List.cons.inj (htodo.symm.trans htodo')
    exact hawaited bytes hphase

/-- The loop goes on with the next node: it has an answer, or the node was not
    up all the time. -/
theorem Tried.pass (htried : Tried steps thread r) {id : Bytes} {todo : List Bytes} (htodo : r.todo = id :: todo)
    {first_success : Option Response}
    (hgone : first_success = none → r.first_success = none ∧ ¬ UpThroughout id steps) :
    Tried steps thread' { r with todo, phase := .check, first_success } where
  visited := by
    obtain ⟨visited, hlist, hvisited⟩ := htried.visited
    refine ⟨visited ++ [id], by simp [hlist, htodo], ?_⟩
    intro hnone id' hid'
    rcases List.mem_append.mp hid' with hold | hnew
    · exact hvisited (hgone hnone).1 id' hold
    · rw [List.mem_singleton.mp hnew]
      exact (hgone hnone).2
  failed _ _ _ hphase := by simp at hphase
  awaited _ _ _ _ hphase := by simp at hphase

theorem not_upThroughout_of_down {id : Bytes} {step : Taken} (hdown : (step.after.shared.nodes id).up = false) :
    ¬ UpThroughout id (steps ++ [step]) := by
  rintro ⟨epoch, hruns⟩
  exact absurd hruns.last.1 (by simp [hdown])

theorem timely_check {step : Taken} (htimely : timely step) (hlabel : step.label = .step t)
    (hpc : (step.before.threads t).pc = .routing r) {id : Bytes} {todo : List Bytes} (htodo : r.todo = id :: todo)
    (hphase : r.phase = .check) (hdead : step.before.shared.is_alive id = false) :
    (step.before.shared.nodes id).up = false := by
  simpa [timely, hlabel, hpc, htodo, hphase, hdead] using htimely

theorem timely_forward {step : Taken} (htimely : timely step) (hlabel : step.label = .step t)
    (hpc : (step.before.threads t).pc = .routing r) {id : Bytes} {todo : List Bytes} (htodo : r.todo = id :: todo)
    (hphase : r.phase = .forward) {conn : BackendConn} (hconn : (step.before.threads t).backend_conns id = some conn)
    (hbroken : step.before.shared.connected id conn = false) : (step.before.shared.nodes id).up = false := by
  cases hup : (step.before.shared.nodes id).up with
  | false => rfl
  | true =>
    have hepoch : conn.epoch = (step.before.shared.nodes id).epoch := by
      simpa [timely, hlabel, hpc, htodo, hphase, hconn, hup] using htimely
    simp [Shared.connected, hup, hepoch] at hbroken

/-- What a request knows after its next step. -/
theorem RouteStep.tried {shared' : Shared} (hpc : (s.threads t).pc = .routing r)
    (htried : Tried steps (s.threads t) r) (hstep : RouteStep t (s.threads t) s.shared r thread' shared' events)
    (htimely : timely ⟨s, .step t, events, { s.setThread t thread' with shared := shared' }⟩) {r' : Routing}
    (hpc' : thread'.pc = .routing r') :
    Tried (steps ++ [⟨s, .step t, events, { s.setThread t thread' with shared := shared' }⟩]) thread' r' := by
  have hlater := htried.later [⟨s, .step t, events, { s.setThread t thread' with shared := shared' }⟩]
  cases hstep with
  | exhausted => simp at hpc'
  | read => simp at hpc'
  | skipped htodo hphase hdead =>
    obtain rfl := Pc.routing.inj hpc'
    have hdown := timely_check htimely rfl hpc htodo hphase hdead
    exact hlater.pass htodo fun hnone => ⟨hnone, not_upThroughout_of_down hdown⟩
  | chosen htodo =>
    obtain rfl := Pc.routing.inj hpc'
    exact hlater.enter htodo (by simp) (by simp)
  | cached htodo =>
    obtain rfl := Pc.routing.inj hpc'
    exact hlater.enter htodo (by simp) (by simp)
  | opened htodo =>
    obtain rfl := Pc.routing.inj hpc'
    exact hlater.enter htodo (by simp) (by simp)
  | refused htodo _ hdown =>
    obtain rfl := Pc.routing.inj hpc'
    exact hlater.enter htodo (fun _ => not_upThroughout_of_down hdown) (by simp)
  | broken htodo hphase hconn hbroken =>
    obtain rfl := Pc.routing.inj hpc'
    have hdown := timely_forward htimely rfl hpc htodo hphase hconn hbroken
    exact hlater.enter htodo (fun _ => not_upThroughout_of_down hdown) (by simp)
  | @executed node_id _ conn parser htodo _ _ hconnected =>
    obtain rfl := Pc.routing.inj hpc'
    refine hlater.enter htodo (by simp) fun _ _ => ⟨{ conn with parser }, Function.update_self .., ?_⟩
    intro epoch hruns
    -- The node executed the request in the incarnation that the connection leads to.
    have hepoch : conn.epoch = (s.shared.nodes node_id).epoch := by
      simpa [Shared.connected] using (Bool.and_eq_true_iff.mp hconnected).2
    have hsame := hruns.last.2
    rw [Shared.setNode_nodes, Function.update_self] at hsame
    exact hepoch.trans hsame
  | wrote htodo =>
    obtain rfl := Pc.routing.inj hpc'
    exact hlater.pass htodo (by simp)
  | marked htodo hphase =>
    obtain rfl := Pc.routing.inj hpc'
    exact hlater.pass htodo fun hnone => ⟨hnone, hlater.failed _ _ htodo hphase⟩

/-- A reply is lost only with the incarnation of the node that gave it. -/
theorem Tried.lost {id : Bytes} {todo : List Bytes} {bytes : Bytes} {conn : BackendConn}
    (htried : Tried steps thread r) (htodo : r.todo = id :: todo) (hphase : r.phase = .await bytes)
    (hconn : thread.backend_conns id = some conn) {step : Taken}
    (hbroken : step.after.shared.connected id conn = false) :
    Tried (steps ++ [step]) (thread.routes { r with phase := .failed }) { r with phase := .failed } := by
  refine (htried.later [step]).enter htodo (fun _ => ?_) (by simp)
  rintro ⟨epoch, hruns⟩
  obtain ⟨conn', hconn', hepoch⟩ := htried.awaited id todo bytes htodo hphase
  obtain rfl := Option.some.inj (hconn.symm.trans hconn')
  obtain ⟨hup, hsame⟩ := hruns.last
  simp [Shared.connected, hup, hsame, hepoch epoch hruns.of_append] at hbroken

theorem RouteStep.not_invoked {shared shared' : Shared} (hstep : RouteStep t thread shared r thread' shared' events)
    (t' : Nat) (req : Request) : Event.invoked t' req ∉ events := by
  cases hstep <;> simp

theorem Tried.of_unchanged (hthread : s'.threads t = s.threads t) (hpc : (s'.threads t).pc = .routing r)
    (more : List Taken) :
    ∃ r', (s.threads t).pc = .routing r' ∧
      ∀ steps, Tried steps (s.threads t) r' → Tried (steps ++ more) (s'.threads t) r := by
  rw [hthread] at hpc ⊢
  exact ⟨r, hpc, fun steps htried => htried.later more⟩

/-- A request in progress has just been invoked, or has gone on by one step. -/
theorem SystemStep.tried (hstep : SystemStep router s label s' events) (htimely : timely ⟨s, label, events, s'⟩)
    (hpc : (s'.threads t).pc = .routing r) :
    (∃ ids, r = { preference_list := ids, todo := ids }) ∨
      (∀ req, Event.invoked t req ∉ events) ∧ ∃ r', (s.threads t).pc = .routing r' ∧
        ∀ steps, Tried steps (s.threads t) r' → Tried (steps ++ [⟨s, label, events, s'⟩]) (s'.threads t) r := by
  have hother {t' : Nat} {thread : Thread} (hne : t ≠ t') : Function.update s.threads t' thread t = s.threads t :=
    Function.update_of_ne hne ..
  cases hstep with
  | @received t' data hpc' =>
    by_cases heq : t = t'
    · subst heq
      simp [setThread_threads] at hpc
    · exact .inr ⟨by simp, Tried.of_unchanged (hother heq) hpc _⟩
  | @closed t' hpc' =>
    by_cases heq : t = t'
    · subst heq
      simp [setThread_threads] at hpc
    · exact .inr ⟨by simp, Tried.of_unchanged (hother heq) hpc _⟩
  | @lost t' r' id todo bytes conn hpc' htodo hphase hconn hbroken =>
    by_cases heq : t = t'
    · subst heq
      have hthread : (s.setThread t ((s.threads t).routes { r' with phase := .failed })).threads t =
        (s.threads t).routes { r' with phase := .failed } := Function.update_self ..
      rw [hthread] at hpc ⊢
      obtain rfl := Pc.routing.inj hpc
      exact .inr ⟨by simp, r', hpc', fun steps htried => htried.lost htodo hphase hconn hbroken⟩
    · exact .inr ⟨by simp, Tried.of_unchanged (hother heq) hpc _⟩
  | @moved t' thread shared events htaken =>
    by_cases heq : t = t'
    · subst heq
      have hthread : (s.setThread t thread).threads t = thread := Function.update_self ..
      change ((s.setThread t thread).threads t).pc = _ at hpc
      change _ ∨ _ ∧ ∃ r', _ ∧ ∀ steps, _ → Tried _ ((s.setThread t thread).threads t) r
      rw [hthread] at hpc ⊢
      cases htaken with
      | drained => simp at hpc
      | rejected => simp at hpc
      | pinged => simp at hpc
      | replied => simp at hpc
      | @invoked _ _ nodes => exact .inl ⟨nodes, (Pc.routing.inj hpc).symm⟩
      | @routed r' _ _ _ hpc' hroute =>
        exact .inr ⟨hroute.not_invoked t, r', hpc', fun steps htried => hroute.tried hpc' htried htimely hpc⟩
    · refine .inr ⟨?_, Tried.of_unchanged (hother heq) hpc _⟩
      cases htaken with
      | invoked => simp [heq]
      | routed _ hroute => exact hroute.not_invoked t
      | _ => simp
  | swept => exact .inr ⟨by simp, Tried.of_unchanged (by rfl) hpc _⟩
  | pinging => exact .inr ⟨by simp, Tried.of_unchanged (by rfl) hpc _⟩
  | pinged => exact .inr ⟨by simp, Tried.of_unchanged (by rfl) hpc _⟩
  | marked => exact .inr ⟨by simp, Tried.of_unchanged (by rfl) hpc _⟩
  | crashed => exact .inr ⟨by simp, Tried.of_unchanged (by rfl) hpc _⟩
  | restarted => exact .inr ⟨by simp, Tried.of_unchanged (by rfl) hpc _⟩

theorem SystemStep.returned {req : Request} {resp : Response} (hstep : SystemStep router s label s' events)
    (hreturned : .returned t req resp ∈ events) :
    (s.threads t).req = req ∧ ∃ r, (s.threads t).pc = .routing r ∧
      (r.todo = [] ∧ resp = r.first_success.getD (no_live_replica_error r.preference_list.length) ∨
        resp.type ≠ .Error) := by
  cases hstep with
  | moved htaken =>
    cases htaken with
    | @routed r _ _ _ hpc hroute =>
      cases hroute with
      | exhausted htodo =>
        obtain ⟨rfl, rfl, rfl⟩ : _ ∧ _ ∧ _ := by simpa using hreturned
        exact ⟨rfl, r, hpc, .inl ⟨htodo, rfl⟩⟩
      | read _ _ _ htype =>
        obtain ⟨rfl, rfl, rfl⟩ : _ ∧ _ ∧ _ := by simpa using hreturned
        exact ⟨rfl, r, hpc, .inr htype⟩
      | _ => simp at hreturned
    | _ => simp at hreturned
  | _ => simp at hreturned

theorem tried_of_run {log : List Taken} {P : Label → Prop} (hknown : router.Known)
    (hrun : Run (system router).logged P (system router).init log s) (hlog : ∀ step ∈ log, timely step) :
    Sane router s ∧ ∀ t r, (s.threads t).pc = .routing r → ∀ before first during req,
      log = before ++ first :: during → .invoked t req ∈ first.events → Tried (first :: during) (s.threads t) r := by
  refine hrun.logged_invariant (G := fun step => timely step) (I := fun log s => Sane router s ∧ ∀ t r,
    (s.threads t).pc = .routing r → ∀ before first during req, log = before ++ first :: during →
      .invoked t req ∈ first.events → Tried (first :: during) (s.threads t) r) ⟨sane_init, by simp⟩ ?_ hlog
  rintro log s label s' events ⟨hsane, htried⟩ - htimely htaken
  have hstep := hsane.step hknown htaken
  refine ⟨hsane.keep hstep, ?_⟩
  intro t r hpc before first during req hsplit hinvoked
  rcases hstep.tried htimely hpc with ⟨ids, rfl⟩ | ⟨hnot, r', hpc', hnext⟩
  · exact tried_start _ _ ids
  · rcases snoc_eq_append_cons hsplit with ⟨-, -, rfl⟩ | ⟨during', rfl, hold⟩
    · exact absurd hinvoked (hnot req)
    · exact hnext _ (htried t r' hpc' before first during' req hold hinvoked)

/-- Errors only when all replicas are down. In every run of a router in which no
    thread is misled about a node that is up, a request that returns the error
    had no replica that was up from its invocation to its return. -/
theorem no_error_while_up {nodes : List NodeAddress} {vnodes replicas : Nat} {log : List Taken} {final : State}
    (hrun : Run (system (Router.create nodes vnodes replicas)).logged (fun _ => True)
      (system (Router.create nodes vnodes replicas)).init log final)
    (hlog : ∀ step ∈ log, timely step) {before during after : List Taken} {first last : Taken}
    (hsplit : log = before ++ first :: during ++ last :: after) {t : Nat} {req : Request}
    (hinvoked : .invoked t req ∈ first.events) {tried : Nat}
    (hreturned : .returned t req (no_live_replica_error tried) ∈ last.events) {ids : List Bytes}
    (hlist : (Router.create nodes vnodes replicas).preference_list req.key = some ids) :
    ∀ id ∈ ids, ¬ UpThroughout id (first :: during ++ [last]) := by
  subst hsplit
  obtain ⟨hbefore, htaken⟩ := hrun.logged_at
  obtain ⟨hsane, htried⟩ := tried_of_run Router.known_create hbefore
    fun step hmem => hlog step (List.mem_append_left _ hmem)
  have hstep := hsane.step Router.known_create htaken
  obtain ⟨rfl, r, hpc, hcases⟩ := hstep.returned hreturned
  have hlisted := ((hsane.threads t).routing r hpc).listed
  obtain rfl := Option.some.inj (hlist.symm.trans hlisted)
  rcases hcases with ⟨htodo, hresp⟩ | htype
  · have hnone : r.first_success = none := by
      cases hsuccess : r.first_success with
      | none => rfl
      | some resp =>
        have htype := (hsane.threads t).success r resp hpc hsuccess
        rw [hsuccess, Option.getD_some] at hresp
        exact absurd (by rw [← hresp]; rfl) htype
    obtain ⟨visited, hall, hgone⟩ := (htried t r hpc before first during _ rfl hinvoked).visited
    rw [htodo, List.append_nil] at hall
    intro id hid hup
    exact hgone hnone id (hall ▸ hid) hup.of_append
  · exact absurd rfl htype

/-- The only node is down before the request, so the request fails. -/
theorem no_error_while_up_example :
    let router := Router.create [⟨ascii "a", 1⟩] 1 1
    let req : Request := ⟨.Get, ascii "k", []⟩
    ∃ before first during last final,
      Run (system router).logged (fun _ => True) (system router).init (before ++ first :: during ++ [last]) final ∧
      (∀ step ∈ before ++ first :: during ++ [last], timely step) ∧
      .invoked 0 req ∈ first.events ∧ .returned 0 req (no_live_replica_error 1) ∈ last.events ∧
      router.preference_list req.key = some [ascii "a:1"] ∧
      ∀ id ∈ [ascii "a:1"], ¬ UpThroughout id (first :: during ++ [last]) := by
  intro router req
  let check (before : List Taken) (first : Taken) (during : List Taken) (last : Taken) (_ : State) : Bool :=
    (before ++ first :: during ++ [last]).all timely && .invoked 0 req ∈ first.events &&
      .returned 0 req (no_live_replica_error 1) ∈ last.events
  obtain ⟨before, first, during, last, final, hrun, hcheck⟩ : ∃ before first during last final,
      Run (system router).logged (fun _ => True) (system router).init (before ++ first :: during ++ [last]) final ∧
      check before first during last final := by
    refine Run.exists_interval_of_exec ([Label.crash (ascii "a:1"), .recv 0 (ascii "GET k" ++ [LF])] ++
      List.replicate 5 (Label.step 0)) 2 check (fun _ _ => trivial) ?_
    decide +kernel
  simp only [check, Bool.and_eq_true, List.all_eq_true, decide_eq_true_eq] at hcheck
  obtain ⟨⟨hlog, hinvoked⟩, hreturned⟩ := hcheck
  have hlist : router.preference_list req.key = some [ascii "a:1"] := by decide +kernel
  exact ⟨before, first, during, last, final, hrun, hlog, hinvoked, hreturned, hlist,
    no_error_while_up hrun hlog rfl hinvoked hreturned hlist⟩

/-- An error with the only replica up. A client's thread has a connection to the
    node from an earlier request; the node restarts, and is up again before the
    next request arrives. The thread forwards over the old connection, marks the
    node down when that fails, and has no other node to try. -/
theorem error_while_up :
    let router := Router.create [⟨ascii "a", 1⟩] 1 1
    let req : Request := ⟨.Get, ascii "k", []⟩
    ∃ before first during last final,
      Run (system router).logged (fun _ => True) (system router).init (before ++ first :: during ++ [last]) final ∧
      .invoked 0 req ∈ first.events ∧ .returned 0 req (no_live_replica_error 1) ∈ last.events ∧
      router.preference_list req.key = some [ascii "a:1"] ∧
      UpThroughout (ascii "a:1") (first :: during ++ [last]) := by
  intro router req
  let up (step : Taken) : Bool :=
    (step.after.shared.nodes (ascii "a:1")).up && (step.after.shared.nodes (ascii "a:1")).epoch = 1
  let check (_ : List Taken) (first : Taken) (during : List Taken) (last : Taken) (_ : State) : Bool :=
    .invoked 0 req ∈ first.events && .returned 0 req (no_live_replica_error 1) ∈ last.events &&
      (first :: during ++ [last]).all up
  obtain ⟨before, first, during, last, final, hrun, hcheck⟩ : ∃ before first during last final,
      Run (system router).logged (fun _ => True) (system router).init (before ++ first :: during ++ [last]) final ∧
      check before first during last final := by
    refine Run.exists_interval_of_exec ([Label.recv 0 (ascii "GET k" ++ [LF])] ++ List.replicate 7 (Label.step 0) ++
      [Label.crash (ascii "a:1"), .restart (ascii "a:1"), .recv 0 (ascii "GET k" ++ [LF])] ++
      List.replicate 6 (Label.step 0)) 11 check (fun _ _ => trivial) ?_
    decide +kernel
  simp only [check, up, Bool.and_eq_true, List.all_eq_true, decide_eq_true_eq] at hcheck
  obtain ⟨⟨hinvoked, hreturned⟩, hup⟩ := hcheck
  exact ⟨before, first, during, last, final, hrun, hinvoked, hreturned, by decide +kernel, 1, hup⟩

end kv.router
