import Kv.Router.Restarts

namespace kv.router

open kv.protocol Transition

/-- The requests that a thread has started to route. -/
def invocations (t : Nat) (trace : List Event) : List Request :=
  trace.filterMap fun event =>
    match event with
    | .invoked t' req => if t' = t then some req else none
    | _ => none

/-- The requests of a thread that a node has executed. -/
def executions (node_id : Bytes) (t : Nat) (trace : List Event) : List Request :=
  trace.filterMap fun event =>
    match event with
    | .executed id t' req => if id = node_id ∧ t' = t then some req else none
    | _ => none

def Event.tally (t : Nat) (executed : List Bytes) : Event → List Bytes
  | .invoked t' _ => if t' = t then [] else executed
  | .executed node_id t' _ => if t' = t then executed ++ [node_id] else executed
  | _ => executed

/-- The nodes that have executed the current request of a thread, in order. -/
def executors (t : Nat) (trace : List Event) : List Bytes := trace.foldl (Event.tally t) []

/-- The nodes to which the request may still be forwarded. -/
def Routing.ahead (r : Routing) : List Bytes :=
  match r.phase with
  | .await _ | .failed => r.todo.tail
  | _ => r.todo

/-- The request that a thread may still forward to a node. -/
def Thread.outstanding (self : Thread) (node_id : Bytes) : List Request :=
  match self.pc with
  | .routing r => if r.ahead.contains node_id then [self.req] else []
  | _ => []

/-- A node has executed the request and has answered, or may still answer. -/
def Routing.Heard (r : Routing) : Prop := r.first_success ≠ none ∨ ∃ bytes, r.phase = .await bytes

section

variable {t : Nat} {node_id : Bytes} {trace events : List Event}

theorem invocations_append (t : Nat) (trace events : List Event) :
    invocations t (trace ++ events) = invocations t trace ++ invocations t events :=
  List.filterMap_append

theorem executions_append (node_id : Bytes) (t : Nat) (trace events : List Event) :
    executions node_id t (trace ++ events) = executions node_id t trace ++ executions node_id t events :=
  List.filterMap_append

theorem executors_append (t : Nat) (trace events : List Event) :
    executors t (trace ++ events) = events.foldl (Event.tally t) (executors t trace) :=
  List.foldl_append

theorem invocations_eq_nil (hevents : ∀ event ∈ events, ¬ event.ByThread t) : invocations t events = [] := by
  rw [invocations, List.filterMap_eq_nil_iff]
  intro event hmem
  have hother := hevents event hmem
  cases event with
  | invoked t' req => exact if_neg hother
  | _ => rfl

theorem executions_eq_nil (hevents : ∀ event ∈ events, ¬ event.ByThread t) (node_id : Bytes) :
    executions node_id t events = [] := by
  rw [executions, List.filterMap_eq_nil_iff]
  intro event hmem
  have hother := hevents event hmem
  cases event with
  | executed id t' req => exact if_neg fun h => hother h.2
  | _ => rfl

theorem foldl_tally_eq (hevents : ∀ event ∈ events, ¬ event.ByThread t) (executed : List Bytes) :
    events.foldl (Event.tally t) executed = executed := by
  induction events generalizing executed with
  | nil => rfl
  | cons event events ih =>
    have hother := hevents event List.mem_cons_self
    have hsame : Event.tally t executed event = executed := by
      cases event with
      | invoked t' req => exact if_neg hother
      | executed id t' req => exact if_neg hother
      | _ => rfl
    rw [List.foldl_cons, hsame]
    exact ih (fun event' hmem => hevents event' (List.mem_cons_of_mem _ hmem)) executed

end

variable {router : Router} {t : Nat} {thread thread' : Thread} {shared shared' : Shared} {events trace : List Event}
  {s s' : State} {label : Label} {r : Routing}

theorem Thread.outstanding_of_routing (hpc : thread.pc = .routing r) (node_id : Bytes) :
    thread.outstanding node_id = if node_id ∈ r.ahead then [thread.req] else [] := by
  simp [outstanding, hpc]

theorem Thread.outstanding_of_not_routing (hpc : ∀ r, thread.pc ≠ .routing r) (node_id : Bytes) :
    thread.outstanding node_id = [] := by
  unfold outstanding
  split
  · exact absurd ‹_› (hpc _)
  · rfl

/-- A step of the system as the current request of one thread sees it. -/
inductive RequestStep (router : Router) (t : Nat) (thread thread' : Thread) (events : List Event) : Prop
  | quiet (hevents : ∀ event ∈ events, ¬ event.ByThread t)
      (hnext : ∀ r', thread'.pc = .routing r' → ∃ r, thread.pc = .routing r ∧ thread'.req = thread.req ∧
        r'.preference_list = r.preference_list ∧ r'.ahead.Sublist r.ahead ∧ (r'.Heard → r.Heard))
  | invoked {ids : List Bytes} (hevents : events = [.invoked t thread'.req])
      (hlist : router.preference_list thread'.req.key = some ids) (hpc : ∀ r, thread.pc ≠ .routing r)
      (hpc' : thread'.pc = .routing { preference_list := ids, todo := ids })
  | executed {node_id : Bytes} {r r' : Routing} (hevents : events = [.executed node_id t thread.req])
      (hpc : thread.pc = .routing r) (hpc' : thread'.pc = .routing r') (hreq : thread'.req = thread.req)
      (hlist : r'.preference_list = r.preference_list) (hahead : r.ahead = node_id :: r'.ahead)
  | returned {r : Routing} {resp : Response} (hevents : events = [.returned t thread.req resp])
      (hpc : thread.pc = .routing r) (hpc' : ∀ r', thread'.pc ≠ .routing r') (hheard : resp.type ≠ .Error → r.Heard)

theorem RequestStep.of_unchanged (hevents : ∀ event ∈ events, ¬ event.ByThread t) :
    RequestStep router t thread thread events :=
  .quiet hevents fun r' hpc' => ⟨r', hpc', rfl, rfl, .refl _, id⟩

theorem RequestStep.of_idle (hevents : ∀ event ∈ events, ¬ event.ByThread t) (hpc : ∀ r, thread'.pc ≠ .routing r) :
    RequestStep router t thread thread' events :=
  .quiet hevents fun r' hpc' => absurd hpc' (hpc r')

/-- A thread goes on with its request without a word from a node. -/
theorem RequestStep.of_routes {r' : Routing} (hpc : thread.pc = .routing r) (hpc' : thread'.pc = .routing r')
    (hreq : thread'.req = thread.req) (hlist : r'.preference_list = r.preference_list)
    (hahead : r'.ahead.Sublist r.ahead) (hheard : r'.Heard → r.Heard) :
    RequestStep router t thread thread' [] := by
  refine .quiet (by simp) fun r'' hpc'' => ?_
  obtain rfl := Pc.routing.inj (hpc'.symm.trans hpc'')
  exact ⟨r, hpc, hreq, hlist, hahead, hheard⟩

theorem Routing.tail_sublist_ahead (r : Routing) : r.todo.tail.Sublist r.ahead := by
  unfold ahead
  split
  · exact .refl _
  · exact .refl _
  · exact List.tail_sublist _

theorem Routing.ahead_sublist (r : Routing) : r.ahead.Sublist r.todo := by
  unfold ahead
  split
  · exact List.tail_sublist _
  · exact List.tail_sublist _
  · exact .refl _

theorem Routing.Heard.of_phase {phase : Phase} {todo : List Bytes} (hphase : ∀ bytes, phase ≠ .await bytes)
    (hheard : ({ r with todo, phase } : Routing).Heard) : r.Heard := by
  rcases hheard with hsuccess | ⟨bytes, hbytes⟩
  · exact .inl hsuccess
  · exact absurd hbytes (hphase bytes)

theorem RouteStep.request (hpc : thread.pc = .routing r)
    (hstep : RouteStep t thread shared r thread' shared' events) : RequestStep router t thread thread' events := by
  have hpassed {node_id : Bytes} {todo : List Bytes} {first_success : Option Response}
      (htodo : r.todo = node_id :: todo) :
      ({ r with todo, phase := .check, first_success } : Routing).ahead.Sublist r.ahead := by
    have htail := r.tail_sublist_ahead
    rwa [htodo] at htail
  have hfailed : ({ r with phase := .failed } : Routing).ahead.Sublist r.ahead := r.tail_sublist_ahead
  cases hstep with
  | exhausted htodo =>
    refine .returned rfl hpc (by simp) fun htype => ?_
    cases hsuccess : r.first_success with
    | none => exact absurd (by simp [hsuccess, no_live_replica_error]) htype
    | some resp => exact .inl (by simp [hsuccess])
  | read htodo hphase => exact .returned rfl hpc (by simp) fun _ => .inr ⟨_, hphase⟩
  | skipped htodo => exact .of_routes hpc rfl rfl rfl (hpassed htodo) (.of_phase (by simp))
  | marked htodo => exact .of_routes hpc rfl rfl rfl (hpassed htodo) (.of_phase (by simp))
  | wrote htodo hphase => exact .of_routes hpc rfl rfl rfl (hpassed htodo) fun _ => .inr ⟨_, hphase⟩
  | chosen _ hphase =>
    exact .of_routes hpc rfl rfl rfl (by simp [Routing.ahead, hphase]) (.of_phase (by simp))
  | cached _ hphase =>
    exact .of_routes hpc rfl rfl rfl (by simp [Routing.ahead, hphase]) (.of_phase (by simp))
  | opened _ hphase =>
    exact .of_routes hpc rfl rfl rfl (by simp [Routing.ahead, hphase]) (.of_phase (by simp))
  | refused => exact .of_routes hpc rfl rfl rfl hfailed (.of_phase (by simp))
  | broken => exact .of_routes hpc rfl rfl rfl hfailed (.of_phase (by simp))
  | executed htodo hphase =>
    exact .executed rfl hpc rfl rfl rfl (by simp [Routing.ahead, hphase, htodo])

theorem ThreadStep.request (hstep : ThreadStep router t thread shared thread' shared' events) :
    RequestStep router t thread thread' events := by
  cases hstep with
  | drained => exact .of_idle (by simp) (by simp)
  | rejected => exact .of_idle (by simp) (by simp)
  | pinged => exact .of_idle (by simp) (by simp)
  | replied => exact .of_idle (by simp [Event.ByThread]) (by simp)
  | invoked hpc _ _ hlist => exact .invoked rfl hlist (by simp [hpc]) rfl
  | routed hpc hroute => exact hroute.request hpc

theorem SystemStep.request (hstep : SystemStep router s label s' events) (t : Nat) :
    RequestStep router t (s.threads t) (s'.threads t) events := by
  cases hstep.view t with
  | unchanged hthread hevents =>
    rw [hthread]
    exact .of_unchanged hevents
  | told _ _ hpc' hevents => exact .of_idle hevents hpc'
  | moved htaken => exact htaken.request
  | @lost r _ _ _ _ hpc _ _ _ _ hthread hevents =>
    rw [hthread, hevents]
    exact .of_routes hpc rfl rfl rfl r.tail_sublist_ahead (.of_phase (by simp))

/-- What the events so far say about the requests of a thread. -/
structure Orderly (router : Router) (t : Nat) (thread : Thread) (trace : List Event) : Prop where
  current : ∀ r, thread.pc = .routing r → (invocations t trace).getLast? = some thread.req
  fifo : ∀ node_id, (executions node_id t trace ++ thread.outstanding node_id).Sublist (invocations t trace)
  listed : ∀ r, thread.pc = .routing r → router.preference_list thread.req.key = some r.preference_list
  walk : ∀ r, thread.pc = .routing r → (executors t trace ++ r.ahead).Sublist r.preference_list
  heard : ∀ r, thread.pc = .routing r → r.Heard → executors t trace ≠ []

/-- A node has the request of a thread at most once, so it is not ahead once it
    has been executed. -/
theorem Orderly.not_mem_ahead {node_id : Bytes} {ids : List Bytes} (horder : Orderly router t thread trace)
    (hpc : thread.pc = .routing r) (hahead : r.ahead = node_id :: ids) : node_id ∉ ids := by
  have hnodup := Router.preference_list_nodup (horder.listed r hpc)
  have hrest := (List.nodup_append.mp ((horder.walk r hpc).nodup hnodup)).2.1
  rw [hahead] at hrest
  exact (List.nodup_cons.mp hrest).1

theorem Orderly.step (horder : Orderly router t thread trace) (hstep : RequestStep router t thread thread' events) :
    Orderly router t thread' (trace ++ events) := by
  cases hstep with
  | quiet hevents hnext =>
    have hinvocations : invocations t (trace ++ events) = invocations t trace := by
      rw [invocations_append, invocations_eq_nil hevents, List.append_nil]
    have hexecutors : executors t (trace ++ events) = executors t trace := by
      rw [executors_append, foldl_tally_eq hevents]
    refine ⟨fun r' hpc' => ?_, fun node_id => ?_, fun r' hpc' => ?_, fun r' hpc' => ?_, fun r' hpc' hheard => ?_⟩
    · obtain ⟨r, hpc, hreq, -⟩ := hnext r' hpc'
      rw [hinvocations, hreq]
      exact horder.current r hpc
    · rw [hinvocations, executions_append, executions_eq_nil hevents, List.append_nil]
      refine .trans ?_ (horder.fifo node_id)
      rw [List.append_sublist_append_left]
      cases hpc' : thread'.pc with
      | routing r' =>
        obtain ⟨r, hpc, hreq, -, hahead, -⟩ := hnext r' hpc'
        rw [Thread.outstanding_of_routing hpc, Thread.outstanding_of_routing hpc', hreq]
        by_cases hmem : node_id ∈ r'.ahead
        · rw [if_pos hmem, if_pos (hahead.subset hmem)]
        · rw [if_neg hmem]
          exact List.nil_sublist _
      | _ =>
        rw [Thread.outstanding_of_not_routing (by simp [hpc'])]
        exact List.nil_sublist _
    · obtain ⟨r, hpc, hreq, hlist, -, -⟩ := hnext r' hpc'
      rw [hreq, hlist]
      exact horder.listed r hpc
    · obtain ⟨r, hpc, -, hlist, hahead, -⟩ := hnext r' hpc'
      rw [hexecutors, hlist]
      exact (hahead.append_left _).trans (horder.walk r hpc)
    · obtain ⟨r, hpc, -, -, -, hkept⟩ := hnext r' hpc'
      rw [hexecutors]
      exact horder.heard r hpc (hkept hheard)
  | @invoked ids hevents hlist hpc hpc' =>
    have hexecutors : executors t (trace ++ events) = [] := by simp [executors_append, hevents, Event.tally]
    have hr' {r' : Routing} (hr' : thread'.pc = .routing r') : r' = { preference_list := ids, todo := ids } :=
      (Pc.routing.inj (hpc'.symm.trans hr')).symm
    have hnew : invocations t events = [thread'.req] := by simp [hevents, invocations]
    refine ⟨fun r' _ => ?_, fun node_id => ?_, fun r' hpc'' => ?_, fun r' hpc'' => ?_, fun r' hpc'' hheard => ?_⟩
    · simp [invocations_append, hnew]
    · have hbefore := horder.fifo node_id
      rw [Thread.outstanding_of_not_routing hpc, List.append_nil] at hbefore
      have hnone : executions node_id t events = [] := by simp [hevents, executions]
      rw [invocations_append, executions_append, hnew, hnone, List.append_nil]
      refine hbefore.append ?_
      rw [Thread.outstanding_of_routing hpc']
      split
      · exact .refl _
      · exact List.nil_sublist _
    · rw [hr' hpc'']
      exact hlist
    · rw [hexecutors, hr' hpc'', List.nil_append]
      exact Routing.ahead_sublist _
    · rw [hr' hpc''] at hheard
      simp [Routing.Heard] at hheard
  | @executed node_id r r' hevents hpc hpc' hreq hlist hahead =>
    have hexecutors : executors t (trace ++ events) = executors t trace ++ [node_id] := by
      simp [executors_append, hevents, Event.tally]
    have hr' {r'' : Routing} (hpc'' : thread'.pc = .routing r'') : r'' = r' :=
      (Pc.routing.inj (hpc'.symm.trans hpc'')).symm
    have hinvocations : invocations t (trace ++ events) = invocations t trace := by
      simp [hevents, invocations]
    refine ⟨fun r'' _ => ?_, fun id => ?_, fun r'' hpc'' => ?_, fun r'' hpc'' => ?_, fun r'' hpc'' _ => ?_⟩
    · rw [hinvocations, hreq]
      exact horder.current r hpc
    · have hbefore := horder.fifo id
      rw [hinvocations, executions_append]
      rw [Thread.outstanding_of_routing hpc, hahead] at hbefore
      rw [Thread.outstanding_of_routing hpc', hreq]
      by_cases hid : id = node_id
      · subst hid
        have hnew : executions id t events = [thread.req] := by simp [hevents, executions]
        rw [hnew, if_neg (horder.not_mem_ahead hpc hahead), List.append_nil]
        simpa using hbefore
      · have hother : executions id t events = [] := by simp [hevents, executions, Ne.symm hid]
        rw [hother, List.append_nil]
        simpa [hid] using hbefore
    · rw [hr' hpc'', hreq, hlist]
      exact horder.listed r hpc
    · have hwalk := horder.walk r hpc
      rw [hexecutors, hr' hpc'', hlist, List.append_assoc, List.singleton_append, ← hahead]
      exact hwalk
    · simp [hexecutors]
  | @returned r resp hevents hpc hpc' =>
    refine ⟨fun r' hr' => absurd hr' (hpc' r'), fun node_id => ?_, fun r' hr' => absurd hr' (hpc' r'),
      fun r' hr' => absurd hr' (hpc' r'), fun r' hr' => absurd hr' (hpc' r')⟩
    have hbefore := (List.sublist_append_left _ _).trans (horder.fifo node_id)
    have hnone : executions node_id t events = [] := by simp [hevents, executions]
    have hnone' : invocations t events = [] := by simp [hevents, invocations]
    rw [Thread.outstanding_of_not_routing hpc', executions_append, invocations_append, hnone, hnone']
    simpa using hbefore

theorem orderly_init (t : Nat) : Orderly router t ((system router).init.threads t) [] where
  current r hpc := by simp [system] at hpc
  fifo node_id := .refl _
  listed r hpc := by simp [system] at hpc
  walk r hpc := by simp [system] at hpc
  heard r hpc := by simp [system] at hpc

theorem orderly_of_run (hknown : router.Known) {P : Label → Prop}
    (hrun : Run (system router) P (system router).init trace s) :
    Sane router s ∧ ∀ t, Orderly router t (s.threads t) trace := by
  refine hrun.invariant (C := fun _ => True)
    (I := fun trace s => Sane router s ∧ ∀ t, Orderly router t (s.threads t) trace)
    (fun _ _ _ => trivial) ⟨sane_init, orderly_init⟩ ?_ trivial
  rintro trace s label s' events ⟨hsane, horder⟩ - - htaken
  have hstep := hsane.step hknown htaken
  exact ⟨hsane.keep hstep, fun t => (horder t).step (hstep.request t)⟩

/-- Clients' order at the nodes. In every run, with crashes and restarts, each
    node executes requests of a client's thread in the order in which the thread
    took them up, and none of them twice; it may miss some. -/
theorem executions_sublist_invocations {nodes : List NodeAddress} {vnodes replicas : Nat} {trace : List Event}
    {final : State}
    (hrun : Run (system (Router.create nodes vnodes replicas)) (fun _ => True)
      (system (Router.create nodes vnodes replicas)).init trace final) (t : Nat) (node_id : Bytes) :
    (executions node_id t trace).Sublist (invocations t trace) :=
  (List.sublist_append_left _ _).trans (((orderly_of_run Router.known_create hrun).2 t).fifo node_id)

/-- A node crashes between executing a request and replying, so the next node
    executes it too; the request after that passes the crashed node by. -/
theorem executions_sublist_invocations_example :
    let router := Router.create [⟨ascii "a", 1⟩, ⟨ascii "b", 1⟩] 1 2
    let get : Request := ⟨.Get, ascii "k", []⟩
    let delete : Request := ⟨.Delete, ascii "k", []⟩
    ∃ trace final, Run (system router) (fun _ => True) (system router).init trace final ∧
      invocations 0 trace = [get, delete] ∧ executions (ascii "a:1") 0 trace = [get] ∧
      (executions (ascii "a:1") 0 trace).Sublist (invocations 0 trace) := by
  intro router get delete
  let labels := [Label.recv 0 (ascii "GET k" ++ [LF] ++ ascii "DELETE k" ++ [LF])] ++
    List.replicate 4 (Label.step 0) ++
    [Label.crash (ascii "a:1"), .lose 0] ++ List.replicate 15 (Label.step 0)
  let trace : List Event := [.received 0 (ascii "GET k" ++ [LF] ++ ascii "DELETE k" ++ [LF]), .invoked 0 get,
    .executed (ascii "a:1") 0 get, .crashed (ascii "a:1"), .executed (ascii "b:1") 0 get,
    .returned 0 get ⟨.NotFound, [], []⟩, .sent 0 encode_not_found_response, .invoked 0 delete,
    .executed (ascii "b:1") 0 delete, .returned 0 delete ⟨.NotFound, [], []⟩, .sent 0 encode_not_found_response]
  obtain ⟨final, hrun⟩ : ∃ final, Run (system router) (fun _ => True) (system router).init trace final :=
    Run.exists_of_exec labels (fun _ _ => trivial) (by decide +kernel)
  exact ⟨trace, final, hrun, by decide +kernel, by decide +kernel, executions_sublist_invocations hrun 0 (ascii "a:1")⟩

/-- An answered request has been executed by nodes of its preference list, each
    once and in the order of the list, and by at least one of them if the client
    is not told of an error. -/
def Visited (router : Router) (before : List Event) (event : Event) : Prop :=
  ∀ t req resp, event = .returned t req resp →
    (invocations t before).getLast? = some req ∧
    ∃ ids, router.preference_list req.key = some ids ∧
      (executors t before).Sublist ids ∧ (resp.type ≠ .Error → executors t before ≠ [])

/-- Where a request has been. In every run, with crashes and restarts, when a
    request returns, the nodes that have executed it are nodes of its preference
    list, each once and in the order of the list, and there is at least one if
    the client is not told of an error. -/
theorem executors_of_returned {nodes : List NodeAddress} {vnodes replicas : Nat} {trace : List Event} {final : State}
    (hrun : Run (system (Router.create nodes vnodes replicas)) (fun _ => True)
      (system (Router.create nodes vnodes replicas)).init trace final) :
    Always (Visited (Router.create nodes vnodes replicas)) trace := by
  let router := Router.create nodes vnodes replicas
  suffices hall : (Sane router final ∧ ∀ t, Orderly router t (final.threads t) trace) ∧
      Always (Visited router) trace from
    hall.2
  refine hrun.invariant (C := fun _ => True)
    (I := fun trace s => (Sane router s ∧ ∀ t, Orderly router t (s.threads t) trace) ∧ Always (Visited router) trace)
    (fun _ _ _ => trivial) ⟨⟨sane_init, orderly_init⟩, always_nil⟩ ?_ trivial
  rintro trace s label s' events ⟨⟨hsane, horder⟩, hall⟩ - - htaken
  have hstep := hsane.step Router.known_create htaken
  refine ⟨⟨hsane.keep hstep, fun t => (horder t).step (hstep.request t)⟩, ?_⟩
  by_cases hreturned : ∃ t req resp, Event.returned t req resp ∈ events
  · obtain ⟨t, req, resp, hmem⟩ := hreturned
    cases hstep.request t with
    | quiet hevents => exact absurd rfl (hevents _ hmem)
    | invoked hevents => simp [hevents] at hmem
    | executed hevents => simp [hevents] at hmem
    | @returned r resp' hevents hpc hpc' hheard =>
      rw [hevents]
      refine hall.snoc ?_
      intro t' req' resp'' heq
      obtain ⟨rfl, rfl, rfl⟩ := Event.returned.inj heq
      refine ⟨(horder t).current r hpc, r.preference_list, (horder t).listed r hpc, ?_, ?_⟩
      · exact (List.sublist_append_left _ _).trans ((horder t).walk r hpc)
      · exact fun htype => (horder t).heard r hpc (hheard htype)
  · refine hall.append fun before event hmem t req resp heq => ?_
    exact absurd ⟨t, req, resp, heq ▸ hmem⟩ hreturned

/-- A read that two nodes have executed, in the order of its preference list. -/
theorem executors_of_returned_example :
    let router := Router.create [⟨ascii "a", 1⟩, ⟨ascii "b", 1⟩] 1 2
    let get : Request := ⟨.Get, ascii "k", []⟩
    ∃ before after final,
      Run (system router) (fun _ => True) (system router).init
        (before ++ .returned 0 get ⟨.NotFound, [], []⟩ :: after) final ∧
      executors 0 before = [ascii "a:1", ascii "b:1"] ∧
      ∃ ids, router.preference_list (ascii "k") = some ids ∧ (executors 0 before).Sublist ids := by
  intro router get
  let labels := [Label.recv 0 (ascii "GET k" ++ [LF])] ++ List.replicate 4 (Label.step 0) ++
    [Label.crash (ascii "a:1"), .lose 0] ++ List.replicate 5 (Label.step 0)
  let before : List Event := [.received 0 (ascii "GET k" ++ [LF]), .invoked 0 get, .executed (ascii "a:1") 0 get,
    .crashed (ascii "a:1"), .executed (ascii "b:1") 0 get]
  obtain ⟨final, hrun⟩ : ∃ final, Run (system router) (fun _ => True) (system router).init
      (before ++ [.returned 0 get ⟨.NotFound, [], []⟩]) final :=
    Run.exists_of_exec labels (fun _ _ => trivial) (by decide +kernel)
  obtain ⟨-, ids, hlist, hsublist, -⟩ := executors_of_returned hrun before _ [] rfl 0 get ⟨.NotFound, [], []⟩ rfl
  exact ⟨before, [], final, hrun, by decide +kernel, ids, hlist, hsublist⟩

end kv.router
