import Kv.Router.Errors
import Kv.Router.History
import Kv.Router.Order

namespace kv

open kv.protocol

/-- What a plain map holds was put there by one of its requests. -/
theorem PlainMap.mem_of_after {reqs : List Request} {key value : Bytes}
    (hafter : PlainMap.after reqs key = some value) :
    ⟨.Set, key, value⟩ ∈ reqs := by
  induction reqs using List.reverseRecOn with
  | nil => simp [after] at hafter
  | append_singleton reqs req ih =>
    obtain ⟨command, rkey, rvalue⟩ := req
    rw [after_snoc] at hafter
    rw [List.mem_append, List.mem_singleton]
    by_cases hkey : key = rkey
    · subst hkey
      rw [if_pos rfl] at hafter
      cases command with
      | Set =>
        obtain rfl := Option.some.inj hafter
        exact .inr rfl
      | Get => exact .inl (ih hafter)
      | Ping => exact .inl (ih hafter)
      | Delete => simp [result] at hafter
    · rw [if_neg hkey] at hafter
      exact .inl (ih hafter)

end kv

namespace kv.router

open kv.protocol Transition

def Event.executedBy (node_id : Bytes) : Event → Option Request
  | .executed id _ req => if id = node_id then some req else none
  | _ => none

/-- A node that restarts has executed nothing yet. -/
def remember (node_id : Bytes) (reqs : List Request) (step : Taken) : List Request :=
  match step.label with
  | .restart id => if id = node_id then [] else reqs
  | _ => reqs ++ step.events.filterMap (Event.executedBy node_id)

/-- The requests that a node has executed since it was started last. -/
def incarnation (node_id : Bytes) (log : List Taken) : List Request := log.foldl (remember node_id) []

/-- These bytes are the reply to the current request of the thread from a node
    that has executed it, as a plain map replies after what the node had
    executed since it was started. -/
def RepliedBy (log : List Taken) (t : Nat) (req : Request) (bytes : Bytes) : Prop :=
  ∃ earlier taken later node_id, log = earlier ++ taken :: later ∧ .executed node_id t req ∈ taken.events ∧
    (∀ step ∈ later, ∀ req', .invoked t req' ∉ step.events) ∧
    bytes = reply req (PlainMap.after (incarnation node_id earlier) req.key)

/-- A reply that a request thread has to its request. -/
def Routing.Answer (r : Routing) (bytes : Bytes) : Prop :=
  r.phase = .await bytes ∨ ∃ resp, r.first_success = some resp ∧ encode_response resp = bytes

variable {router : Router} {t : Nat} {thread thread' : Thread} {shared shared' : Shared} {events : List Event}
  {s s' : State} {label : Label} {r r' : Routing} {log : List Taken} {req : Request} {bytes : Bytes}

theorem RepliedBy.snoc {step : Taken} (hreplied : RepliedBy log t req bytes)
    (hinvoked : ∀ req', .invoked t req' ∉ step.events) : RepliedBy (log ++ [step]) t req bytes := by
  obtain ⟨earlier, taken, later, node_id, rfl, hexecuted, hlater, hbytes⟩ := hreplied
  refine ⟨earlier, taken, later ++ [step], node_id, by simp, hexecuted, ?_, hbytes⟩
  intro step' hmem
  rcases List.mem_append.mp hmem with hold | hnew
  · exact hlater step' hold
  · rwa [List.mem_singleton.mp hnew]

theorem incarnation_snoc (node_id : Bytes) (log : List Taken) (step : Taken) :
    incarnation node_id (log ++ [step]) = remember node_id (incarnation node_id log) step := by
  simp [incarnation]

/-- A step that is no restart, and in which the node executes nothing. -/
theorem remember_eq_self {node_id : Bytes} {step : Taken} (hlabel : ∀ id, step.label ≠ .restart id)
    (hevents : step.events.filterMap (Event.executedBy node_id) = []) (reqs : List Request) :
    remember node_id reqs step = reqs := by
  unfold remember
  split
  · exact absurd ‹_› (hlabel _)
  · rw [hevents, List.append_nil]

/-- A thread shows at most what it has a node execute. -/
theorem ThreadStep.store (hstep : ThreadStep router t thread shared thread' shared' events) (id : Bytes) :
    (events.filterMap (Event.executedBy id) = [] ∧ (shared'.nodes id).store = (shared.nodes id).store) ∨
      (events.filterMap (Event.executedBy id) = [thread.req] ∧
        (shared'.nodes id).store = ((shared.nodes id).store.handle_request thread.req).2) := by
  cases hstep with
  | routed hpc hroute =>
    cases hroute with
    | @executed node_id =>
      by_cases hid : id = node_id
      · subst hid
        exact .inr ⟨by simp [Event.executedBy], by simp⟩
      · exact .inl ⟨by simp [Event.executedBy, Ne.symm hid], by simp [Function.update_of_ne hid]⟩
    | _ => exact .inl ⟨by simp [Event.executedBy], rfl⟩
  | _ => exact .inl ⟨by simp [Event.executedBy], rfl⟩

/-- A node holds what a plain map would after the requests that the node has
    executed since it was started. -/
theorem SystemStep.store {id : Bytes} {reqs : List Request} (hstep : SystemStep router s label s' events)
    (hstore : ∀ key, (s.shared.nodes id).store.get key = PlainMap.after reqs key) (key : Bytes) :
    (s'.shared.nodes id).store.get key = PlainMap.after (remember id reqs ⟨s, label, events, s'⟩) key := by
  cases hstep with
  | @moved t thread shared _ htaken =>
    rcases htaken.store id with ⟨hnone, hsame⟩ | ⟨hexecuted, hnext⟩
    · rw [remember_eq_self (by simp) hnone]
      exact (congrArg (KVStore.get · key) hsame).trans (hstore key)
    · have hremember : remember id reqs ⟨s, .step t, events, { s.setThread t thread with shared }⟩ =
          reqs ++ [(s.threads t).req] := by
        simp [remember, hexecuted]
      rw [hremember, PlainMap.after_snoc, ← hstore, ← hstore, ← KVStore.get_handle_request]
      exact congrArg (KVStore.get · key) hnext
  | @crashed node_id =>
    rw [remember_eq_self (by simp) (by simp [Event.executedBy]), ← hstore]
    by_cases hid : id = node_id
    · subst hid
      simp
    · simp [Function.update_of_ne hid]
  | @restarted node_id =>
    by_cases hid : id = node_id
    · subst hid
      simp [remember, PlainMap.after]
    · simp [remember, Ne.symm hid, Function.update_of_ne hid, hstore]
  | _ =>
    rw [remember_eq_self (by simp) (by simp [Event.executedBy])]
    exact hstore key

theorem RouteStep.answer (hstep : RouteStep t thread shared r thread' shared' events) (hpc' : thread'.pc = .routing r')
    (hanswer : r'.Answer bytes) :
    thread'.req = thread.req ∧ (r.Answer bytes ∨ ∃ node_id, events = [.executed node_id t thread.req] ∧
      bytes = reply thread.req ((shared.nodes node_id).store.get thread.req.key)) := by
  cases hstep with
  | exhausted => simp at hpc'
  | read => simp at hpc'
  | executed =>
    obtain rfl := Pc.routing.inj hpc'
    refine ⟨rfl, ?_⟩
    rcases hanswer with hawait | hsuccess
    · exact .inr ⟨_, rfl, (Phase.await.inj hawait).symm⟩
    · exact .inl (.inr hsuccess)
  | wrote _ hphase hencode =>
    obtain rfl := Pc.routing.inj hpc'
    refine ⟨rfl, .inl ?_⟩
    rcases hanswer with hawait | ⟨resp, hsuccess, hbytes⟩
    · simp at hawait
    · -- The first reply is kept, and this one is it if there was none before.
      cases hfirst : r.first_success with
      | none =>
        simp only [hfirst, Option.getD_none, Option.some.injEq] at hsuccess
        subst hsuccess
        exact .inl (hphase.trans (by rw [← hencode, hbytes]))
      | some first =>
        simp only [hfirst, Option.getD_some, Option.some.injEq] at hsuccess
        exact .inr ⟨first, hfirst, hsuccess ▸ hbytes⟩
  | _ =>
    obtain rfl := Pc.routing.inj hpc'
    refine ⟨rfl, .inl ?_⟩
    rcases hanswer with hawait | hsuccess
    · simp at hawait
    · exact .inr hsuccess

/-- Where the reply that a thread has to its request comes from: the thread had
    it before, or a node executes the request in this step. -/
theorem SystemStep.answer (hstep : SystemStep router s label s' events) (hpc' : (s'.threads t).pc = .routing r')
    (hanswer : r'.Answer bytes) :
    (∀ req', .invoked t req' ∉ events) ∧ (s'.threads t).req = (s.threads t).req ∧
      ((∃ r, (s.threads t).pc = .routing r ∧ r.Answer bytes) ∨
        ∃ node_id, events = [.executed node_id t (s.threads t).req] ∧
          bytes = reply (s.threads t).req ((s.shared.nodes node_id).store.get (s.threads t).req.key)) := by
  cases hstep.view t with
  | unchanged hthread hevents =>
    rw [hthread] at hpc' ⊢
    exact ⟨fun req' hmem => hevents _ hmem rfl, rfl, .inl ⟨r', hpc', hanswer⟩⟩
  | told _ _ hidle => exact absurd hpc' (hidle r')
  | @lost r _ _ _ _ hpc _ _ _ _ hthread hevents =>
    rw [hthread] at hpc' ⊢
    obtain rfl := Pc.routing.inj hpc'
    rcases hanswer with hawait | hsuccess
    · simp at hawait
    · exact ⟨by simp [hevents], rfl, .inl ⟨r, hpc, .inr hsuccess⟩⟩
  | moved htaken =>
    generalize s'.threads t = thread, s'.shared = shared at htaken hpc' ⊢
    cases htaken with
    | invoked =>
      obtain rfl := Pc.routing.inj hpc'
      rcases hanswer with hawait | ⟨resp, hsuccess, -⟩
      · simp at hawait
      · simp at hsuccess
    | routed hpc hroute =>
      obtain ⟨hreq, hcases⟩ := hroute.answer hpc' hanswer
      exact ⟨hroute.not_invoked t, hreq, hcases.imp_left fun hold => ⟨_, hpc, hold⟩⟩
    | _ => simp at hpc'

theorem SystemStep.returned_answer {resp : Response} (hstep : SystemStep router s label s' events)
    (hreturned : .returned t req resp ∈ events) (htype : resp.type ≠ .Error) :
    (s.threads t).req = req ∧ ∃ r, (s.threads t).pc = .routing r ∧ r.Answer (encode_response resp) := by
  cases hstep with
  | moved htaken =>
    cases htaken with
    | @routed r _ _ _ hpc hroute =>
      cases hroute with
      | exhausted =>
        obtain ⟨rfl, rfl, rfl⟩ : _ ∧ _ ∧ _ := by simpa using hreturned
        refine ⟨rfl, r, hpc, .inr ?_⟩
        cases hsuccess : r.first_success with
        | none => exact absurd (by simp [hsuccess, no_live_replica_error]) htype
        | some resp => exact ⟨resp, rfl, by simp⟩
      | read _ hphase hencode =>
        obtain ⟨rfl, rfl, rfl⟩ : _ ∧ _ ∧ _ := by simpa using hreturned
        exact ⟨rfl, r, hpc, .inl (hencode ▸ hphase)⟩
      | _ => simp at hreturned
    | _ => simp at hreturned
  | _ => simp at hreturned

/-- The invariant: a node is a plain map that has executed the requests of its
    incarnation, and what a thread has as a reply is a reply of such a map. -/
structure Sourced (router : Router) (log : List Taken) (s : State) : Prop where
  sane : Sane router s
  stores : ∀ node_id key, (s.shared.nodes node_id).store.get key = PlainMap.after (incarnation node_id log) key
  replies : ∀ t r bytes, (s.threads t).pc = .routing r → r.Answer bytes → RepliedBy log t (s.threads t).req bytes

theorem sourced_init : Sourced router [] (system router).init where
  sane := sane_init
  stores node_id key := by simp [system, incarnation, PlainMap.after]
  replies t r bytes hpc := by simp [system] at hpc

theorem Sourced.step (hsourced : Sourced router log s) (hstep : SystemStep router s label s' events) :
    Sourced router (log ++ [⟨s, label, events, s'⟩]) s' where
  sane := hsourced.sane.keep hstep
  stores node_id key := by
    rw [incarnation_snoc]
    exact hstep.store (hsourced.stores node_id) key
  replies t r' bytes hpc' hanswer := by
    obtain ⟨hinvoked, hreq, ⟨r, hpc, hold⟩ | ⟨node_id, hevents, hbytes⟩⟩ := hstep.answer hpc' hanswer
    · rw [hreq]
      exact (hsourced.replies t r bytes hpc hold).snoc hinvoked
    · rw [hreq]
      refine ⟨log, _, [], node_id, rfl, by simp [hevents], by simp, ?_⟩
      rw [hbytes, hsourced.stores]

theorem sourced_of_run (hknown : router.Known) {P : Label → Prop}
    (hrun : Run (system router).logged P (system router).init log s) : Sourced router log s :=
  hrun.logged_invariant (G := fun _ => True) (I := Sourced router) sourced_init
    (fun _ _ _ _ _ hsourced _ _ htaken => hsourced.step (hsourced.sane.step hknown htaken)) fun _ _ => trivial

/-- Where replies come from. In every run, with crashes and restarts, a reply
    that is no error is the reply of one node that has executed this very
    request, and that node has replied as a plain map would after the requests
    that it had executed since it was started. -/
theorem reply_of_one_node {nodes : List NodeAddress} {vnodes replicas : Nat} {log : List Taken} {final : State}
    (hrun : Run (system (Router.create nodes vnodes replicas)).logged (fun _ => True)
      (system (Router.create nodes vnodes replicas)).init log final) {before after : List Taken} {last : Taken}
    (hsplit : log = before ++ last :: after) {t : Nat} {req : Request} {resp : Response}
    (hreturned : .returned t req resp ∈ last.events) (htype : resp.type ≠ .Error) :
    RepliedBy before t req (encode_response resp) := by
  subst hsplit
  obtain ⟨hbefore, htaken⟩ := hrun.logged_at
  have hsourced := sourced_of_run Router.known_create hbefore
  obtain ⟨rfl, r, hpc, hanswer⟩ := (hsourced.sane.step Router.known_create htaken).returned_answer hreturned htype
  exact hsourced.replies t r _ hpc hanswer

/-- A node restarts after a `SET` and answers a `GET` from what it has executed
    since then. -/
theorem reply_of_one_node_example :
    let router := Router.create [⟨ascii "a", 1⟩] 1 1
    let get : Request := ⟨.Get, ascii "k", []⟩
    ∃ before last final,
      Run (system router).logged (fun _ => True) (system router).init (before ++ [last]) final ∧
      .returned 1 get ⟨.NotFound, [], []⟩ ∈ last.events ∧
      .executed (ascii "a:1") 0 ⟨.Set, ascii "k", ascii "v"⟩ ∈ before.flatMap Step.events ∧
      RepliedBy before 1 get encode_not_found_response := by
  intro router get
  let check (before : List Taken) (last : Taken) (after : List Taken) (_ : State) : Bool :=
    .returned 1 get ⟨.NotFound, [], []⟩ ∈ last.events && after.isEmpty &&
      .executed (ascii "a:1") 0 ⟨.Set, ascii "k", ascii "v"⟩ ∈ before.flatMap Step.events
  obtain ⟨before, last, after, final, hrun, hcheck⟩ : ∃ before last after final,
      Run (system router).logged (fun _ => True) (system router).init (before ++ last :: after) final ∧
      check before last after final := by
    refine Run.exists_split_of_exec ([Label.recv 0 (encode_request ⟨.Set, ascii "k", ascii "v"⟩)] ++
      List.replicate 7 (Label.step 0) ++ [Label.crash (ascii "a:1"), .restart (ascii "a:1"),
      .recv 1 (encode_request get)] ++ List.replicate 5 (Label.step 1)) 15 check (fun _ _ => trivial) ?_
    decide +kernel
  simp only [check, Bool.and_eq_true, List.isEmpty_iff, decide_eq_true_eq] at hcheck
  obtain ⟨⟨hreturned, rfl⟩, hexecuted⟩ := hcheck
  exact ⟨before, last, final, hrun, hreturned, hexecuted, reply_of_one_node hrun rfl hreturned (by simp)⟩

theorem mem_remember {node_id : Bytes} {reqs : List Request} {step : Taken} (hmem : req ∈ remember node_id reqs step) :
    req ∈ reqs ∨ ∃ t, .executed node_id t req ∈ step.events := by
  unfold remember at hmem
  split at hmem
  · split at hmem
    · simp at hmem
    · exact .inl hmem
  · rcases List.mem_append.mp hmem with hold | hnew
    · exact .inl hold
    · obtain ⟨event, hevent, hby⟩ := List.mem_filterMap.mp hnew
      cases event with
      | executed id t req' =>
        obtain ⟨rfl, rfl⟩ : id = node_id ∧ req' = req := by simpa [Event.executedBy] using hby
        exact .inr ⟨t, hevent⟩
      | _ => simp [Event.executedBy] at hby

theorem exists_executed_of_mem_incarnation {node_id : Bytes} (hmem : req ∈ incarnation node_id log) :
    ∃ t, .executed node_id t req ∈ log.flatMap Step.events := by
  induction log using List.reverseRecOn with
  | nil => simp [incarnation] at hmem
  | append_singleton log step ih =>
    rw [incarnation_snoc] at hmem
    rw [List.flatMap_append, List.flatMap_singleton]
    rcases mem_remember hmem with hold | ⟨t, hnew⟩
    · obtain ⟨t, hexecuted⟩ := ih hold
      exact ⟨t, List.mem_append_left _ hexecuted⟩
    · exact ⟨t, List.mem_append_right _ hnew⟩

theorem mem_executions {node_id : Bytes} {trace : List Event} (hmem : .executed node_id t req ∈ trace) :
    req ∈ executions node_id t trace :=
  List.mem_filterMap.mpr ⟨_, hmem, by simp⟩

theorem invoked_of_mem_invocations {trace : List Event} (hmem : req ∈ invocations t trace) :
    .invoked t req ∈ trace := by
  obtain ⟨event, hevent, hby⟩ := List.mem_filterMap.mp hmem
  cases event with
  | invoked t' req' =>
    obtain ⟨rfl, rfl⟩ : t' = t ∧ req' = req := by simpa using hby
    exact hevent
  | _ => simp at hby

/-- A reply with a value is the reply to a `GET` of a key that holds the value. -/
theorem held_of_reply {held : Option Bytes} {value : Bytes} (hreply : encode_value_response value = reply req held) :
    held = some value := by
  -- No other reply starts like this one.
  have hword : (reply req held).head? = some 0x56 := by rw [← hreply]; rfl
  have hok : encode_ok_response.head? ≠ some 0x56 := by decide
  have hpong : encode_pong_response.head? ≠ some 0x56 := by decide
  have hdeleted : encode_deleted_response.head? ≠ some 0x56 := by decide
  have hnot_found : encode_not_found_response.head? ≠ some 0x56 := by decide
  obtain ⟨command, key, rvalue⟩ := req
  cases command with
  | Get =>
    cases held with
    | none => exact absurd hword hnot_found
    | some held => exact congrArg some (encode_value_response_inj hreply).symm
  | Set => exact absurd hword hok
  | Ping => exact absurd hword hpong
  | Delete =>
    cases held with
    | none => exact absurd hword hnot_found
    | some held => exact absurd hword hdeleted

/-- No values out of thin air. In every run, with crashes and restarts, a value
    that a client is told was given by some client in a `SET` of the same key
    that the router took up before. -/
theorem returned_value_was_set {nodes : List NodeAddress} {vnodes replicas : Nat} {log : List Taken} {final : State}
    (hrun : Run (system (Router.create nodes vnodes replicas)).logged (fun _ => True)
      (system (Router.create nodes vnodes replicas)).init log final) {before after : List Taken} {last : Taken}
    (hsplit : log = before ++ last :: after) {t : Nat} {req : Request} {resp : Response}
    (hreturned : .returned t req resp ∈ last.events) (htype : resp.type = .Value) :
    ∃ t', .invoked t' ⟨.Set, req.key, resp.value⟩ ∈ before.flatMap Step.events := by
  subst hsplit
  obtain ⟨hbefore, htaken⟩ := hrun.logged_at
  have hsourced := sourced_of_run Router.known_create hbefore
  obtain ⟨rfl, r, hpc, hanswer⟩ :=
    (hsourced.sane.step Router.known_create htaken).returned_answer hreturned (by simp [htype])
  obtain ⟨earlier, taken, later, node_id, rfl, -, -, hbytes⟩ := hsourced.replies t r _ hpc hanswer
  have hencode : encode_response resp = encode_value_response resp.value := by simp [encode_response, htype]
  have hset := PlainMap.mem_of_after (held_of_reply (hencode.symm.trans hbytes))
  obtain ⟨t', hexecuted⟩ := exists_executed_of_mem_incarnation hset
  have horder := (orderly_of_run Router.known_create hbefore.logged_at.1.of_logged).2 t'
  have hinvoked := ((List.sublist_append_left _ _).trans (horder.fifo node_id)).subset (mem_executions hexecuted)
  refine ⟨t', ?_⟩
  rw [List.flatMap_append]
  exact List.mem_append_left _ (invoked_of_mem_invocations hinvoked)

theorem returned_value_was_set_example :
    let router := Router.create [⟨ascii "a", 1⟩] 1 1
    let get : Request := ⟨.Get, ascii "k", []⟩
    ∃ before last final,
      Run (system router).logged (fun _ => True) (system router).init (before ++ [last]) final ∧
      .returned 1 get ⟨.Value, ascii "v", []⟩ ∈ last.events ∧
      ∃ t, .invoked t ⟨.Set, ascii "k", ascii "v"⟩ ∈ before.flatMap Step.events := by
  intro router get
  let check (_ : List Taken) (last : Taken) (after : List Taken) (_ : State) : Bool :=
    .returned 1 get ⟨.Value, ascii "v", []⟩ ∈ last.events && after.isEmpty
  obtain ⟨before, last, after, final, hrun, hcheck⟩ : ∃ before last after final,
      Run (system router).logged (fun _ => True) (system router).init (before ++ last :: after) final ∧
      check before last after final := by
    refine Run.exists_split_of_exec ([Label.recv 0 (encode_request ⟨.Set, ascii "k", ascii "v"⟩),
      .recv 1 (encode_request get)] ++ List.replicate 5 (Label.step 0) ++ List.replicate 5 (Label.step 1)) 11 check
      (fun _ _ => trivial) ?_
    decide +kernel
  simp only [check, Bool.and_eq_true, List.isEmpty_iff, decide_eq_true_eq] at hcheck
  obtain ⟨hreturned, rfl⟩ := hcheck
  exact ⟨before, last, final, hrun, hreturned, returned_value_was_set hrun rfl hreturned rfl⟩

end kv.router
