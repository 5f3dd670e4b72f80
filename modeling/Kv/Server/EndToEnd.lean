import Kv.Server.Answers
import Kv.Server.Reactor

namespace kv.server

open kv.protocol Incremental Transition

theorem pingLaw_handle_request : PingLaw KVStore.handle_request := by
  intro store req hcommand
  simp [KVStore.handle_request, hcommand]

/-- The reactor is in `service_client` for this connection. -/
def WorkerReactor.Serves (self : WorkerReactor) (t : Nat) : Prop :=
  ∃ i again, self.client = some (t, i, again)

namespace KvServer

/-- The events at the connections. -/
def clients (trace : List Event) : List server.Event :=
  trace.filterMap fun event =>
    match event with
    | .client event => some event
    | _ => none

theorem clients_append (trace events : List Event) : clients (trace ++ events) = clients trace ++ clients events :=
  List.filterMap_append

@[simp] theorem clients_map_client (events : List server.Event) : clients (events.map .client) = events := by
  induction events with
  | nil => rfl
  | cons event events ih => exact congrArg _ ih

@[simp] theorem clients_map_registered (w : Nat) (fds : List Nat) : clients (fds.map (.registered w)) = [] := by
  simp [clients]

variable {capacity : Nat} {trace events : List Event} {s s' : KvServer}

/-- The process is one server, whatever its reactors do. -/
theorem Move.client_step (hmove : Move capacity s s' events) :
    (s'.toState = s.toState ∧ clients events = []) ∨
      ∃ label, server.step KVStore.handle_request s.toState label = some (s'.toState, clients events) := by
  have hserved {w : Nat} {reactor : WorkerReactor} {label : server.Label}
      (hserve : s.serve w reactor label = some (s', events)) :
      server.step KVStore.handle_request s.toState label = some (s'.toState, clients events) := by
    obtain ⟨state, clients, hstep, rfl, rfl⟩ := serve_eq_some hserve
    rw [hstep, clients_map_client]
  cases hmove with
  | enqueued => exact .inl ⟨rfl, rfl⟩
  | woken => exact .inl ⟨rfl, rfl⟩
  | polled => exact .inl ⟨rfl, rfl⟩
  | stepped => exact .inl ⟨rfl, clients_map_registered ..⟩
  | left => exact .inl ⟨rfl, rfl⟩
  | advanced _ _ hserve => exact .inr ⟨_, hserved hserve⟩
  | received _ hserve => exact .inr ⟨_, hserved hserve⟩
  | closed _ hserve => exact .inr ⟨_, hserved hserve⟩

/-- A connection that is not at rest is in the hands of a reactor. -/
def Attended (s : KvServer) : Prop :=
  ∀ t, ¬ (s.connections t).Idle → ∃ w, (s.reactors w).Serves t

theorem Attended.update (hattended : Attended s) {w : Nat} {reactor : WorkerReactor}
    (hreactors : s'.reactors = Function.update s.reactors w reactor)
    (hself : ∀ t, ¬ (s'.connections t).Idle →
      reactor.Serves t ∨ (¬ (s.connections t).Idle ∧ ((s.reactors w).Serves t → reactor.Serves t))) : Attended s' := by
  intro t hbusy
  have hw (hserves : reactor.Serves t) : ∃ w, (s'.reactors w).Serves t :=
    ⟨w, by rwa [hreactors, Function.update_self]⟩
  rcases hself t hbusy with hserves | ⟨hbusy', hserves⟩
  · exact hw hserves
  · obtain ⟨w', hw'⟩ := hattended t hbusy'
    by_cases heq : w' = w
    · subst heq
      exact hw (hserves hw')
    · exact ⟨w', by rwa [hreactors, Function.update_of_ne heq]⟩

theorem Attended.serve (hattended : Attended s) {w fd i : Nat} {again : Bool} {reactor : WorkerReactor}
    {label : server.Label} (hclient : (s.reactors w).client = some (fd, i, again)) (hlabel : label.connection = fd)
    (hserve : s.serve w reactor label = some (s', events))
    (hself : ¬ (s'.connections fd).Idle → reactor.Serves fd) : Attended s' := by
  obtain ⟨state, clients, hstep, rfl, -⟩ := serve_eq_some hserve
  refine hattended.update (by rfl) fun t hbusy => ?_
  by_cases heq : t = fd
  · subst heq
    exact .inl (hself hbusy)
  · right
    constructor
    · rwa [← connections_of_step hstep (hlabel ▸ heq)]
    · rintro ⟨i', again', hclient'⟩
      rw [hclient] at hclient'
      exact absurd (Prod.mk.inj (Option.some.inj hclient')).1.symm heq

theorem Attended.keep (hattended : Attended s) (hmove : Move capacity s s' events) : Attended s' := by
  cases hmove with
  | enqueued =>
    refine hattended.update (by rfl) fun t hbusy => .inr ⟨hbusy, ?_⟩
    exact id
  | woken =>
    refine hattended.update (by rfl) fun t hbusy => .inr ⟨hbusy, ?_⟩
    unfold WorkerReactor.wake
    split <;> exact id
  | @polled w ready reactor hpoll =>
    refine hattended.update (by rfl) fun t hbusy => .inr ⟨hbusy, ?_⟩
    rintro ⟨i, again, hclient⟩
    obtain ⟨hpc, -⟩ := WorkerReactor.client_eq_some hclient
    simp [WorkerReactor.poll, hpc] at hpoll
  | stepped hclient =>
    refine hattended.update (by rfl) fun t hbusy => .inr ⟨hbusy, ?_⟩
    rintro ⟨i, again, hclient'⟩
    simp [hclient] at hclient'
  | left hclient hreading =>
    -- A reactor leaves a connection only when there is nothing left to do for it.
    refine hattended.update (by rfl) fun t hbusy => .inr ⟨hbusy, ?_⟩
    rintro ⟨i', again', hclient'⟩
    rw [hclient] at hclient'
    obtain ⟨rfl, -⟩ := Prod.mk.inj (Option.some.inj hclient')
    exact absurd (.inl hreading) hbusy
  | advanced hclient _ hserve => exact hattended.serve hclient rfl hserve fun _ => ⟨_, _, hclient⟩
  | received hclient hserve =>
    obtain ⟨-, entry, hentry, rfl⟩ := WorkerReactor.client_eq_some hclient
    exact hattended.serve hclient rfl hserve fun _ => ⟨_, _, by simp only [WorkerReactor.client, hentry]; rfl⟩
  | @closed w fd i _ _ hclient hserve =>
    refine hattended.serve hclient rfl hserve fun hbusy => ?_
    obtain ⟨state, clients, hstep, rfl, -⟩ := serve_eq_some hserve
    exact absurd (idle_of_hangup hstep) hbusy

theorem attended_init : Attended { store := {} } := fun _ hbusy => absurd (.inl rfl) hbusy

/-- Statements of a connection are made by the reactor that serves it. -/
theorem exists_run_of_serves (capacity : Nat) {t w : Nat} (hserves : (s.reactors w).Serves t)
    {later : List server.Event}
    {state : State KVStore}
    (hrun : Run (server.system KVStore.handle_request {}) (· = .step t) s.toState later state) :
    ∃ s', Run (system capacity) (· = .step w) s (later.map .client) s' ∧ s'.toState = state ∧
      s'.reactors = s.reactors := by
  obtain ⟨i, again, hclient⟩ := hserves
  induction hrun with
  | nil => exact ⟨s, .nil, rfl, rfl⟩
  | @snoc _ events _ next _ _ hlabel hstep ih =>
    obtain ⟨s', hrun', rfl, hreactors⟩ := ih
    subst hlabel
    have hbusy : (s'.connections t).pc ≠ .reading := by
      intro hreading
      simp [server.system, server.step, Connection.step, hreading] at hstep
    have hserve : s'.serve w (s'.reactors w) (.step t) =
        some ({ s'.setReactor w (s'.reactors w) with toState := next }, events.map .client) :=
      Option.map_eq_some_iff.mpr ⟨_, hstep, rfl⟩
    have hnext : (system capacity).step s' (.step w) =
        some ({ s'.setReactor w (s'.reactors w) with toState := next }, events.map .client) := by
      simp only [system, step, hreactors, hclient, if_neg hbusy]
      rw [← hreactors]
      exact hserve
    refine ⟨{ s'.setReactor w (s'.reactors w) with toState := next }, ?_, rfl, ?_⟩
    · rw [List.map_append]
      exact hrun'.snoc rfl hnext
    · change Function.update s'.reactors w (s'.reactors w) = s.reactors
      rw [Function.update_eq_self, hreactors]

/-- The store has executed the requests, every connection has its responses,
    and reactors hold the connections that are not at rest. -/
structure Working (trace : List Event) (s : KvServer) : Prop where
  answering : Answering KVStore.handle_request {} (clients trace) s.toState
  attended : Attended s

theorem Working.keep (hworking : Working trace s) (hmove : Move capacity s s' events) :
    Working (trace ++ events) s' where
  answering := by
    rw [clients_append]
    rcases hmove.client_step with ⟨hstate, hevents⟩ | ⟨label, hstep⟩
    · rw [hstate, hevents, List.append_nil]
      exact hworking.answering
    · exact hworking.answering.keep pingLaw_handle_request hstep
  attended := hworking.attended.keep hmove

theorem Working.of_run (hworking : Working trace s) {P : Label → Prop} {more : List Event}
    (hrun : Run (system capacity) P s more s') : Working (trace ++ more) s' := by
  have hmore := hrun.invariant (C := fun _ => True) (I := fun more => Working (trace ++ more)) (fun _ _ _ => trivial)
    (by simpa using hworking) ?_ trivial
  · exact hmore
  · intro more s label s' events hworking _ _ hstep
    rw [← List.append_assoc]
    exact hworking.keep (.of_step hstep)

theorem working_init : Working [] ({ store := {} } : KvServer) := ⟨answering_init, attended_init⟩

/-- The requests that a connection has executed, with the responses of one plain
    map which executes the requests of all connections. -/
def answered (trace : List Event) (t : Nat) : List (Request × Bytes) :=
  granted PlainMap.handle_request (fun _ => none) (executions (clients trace)) t

theorem answered_eq (trace : List Event) (t : Nat) :
    answered trace t = granted KVStore.handle_request {} (executions (clients trace)) t := by
  rw [answered, granted, granted, responses_contents KVStore.handle_request_contents]
  rfl

theorem Working.answers_of_idle (hworking : Working trace s) {t fuel : Nat} (hidle : (s.connections t).Idle)
    (hfuel : (chunks (clients trace) t).flatten.length < fuel) (req : Request) :
    ∃ items parser, ({} : IncrementalParser).feed_chunks fuel req (chunks (clients trace) t) = some (items, parser) ∧
      Answers items (answered trace t) (output (clients trace) t) := by
  obtain ⟨items, hserved⟩ := hworking.answering.served t
  have hfresh : Feeds requestFormat.decode ({} : IncrementalParser).buffer_ (chunks (clients trace) t) items
    (s.connections t).parser.buffer_ := hserved.feeds hidle
  obtain ⟨parser, hfeed, -⟩ := IncrementalParser.feed_chunks_of_feeds hfresh (by simpa using hfuel) req
  refine ⟨items, parser, hfeed, ?_⟩
  rw [answered_eq]
  have hanswers := hserved.answered
  rcases hidle with hpc | hpc <;> simpa [hpc, Pc.unsent] using hanswers

/-- A connection is brought to rest by its reactor. -/
theorem Working.comes_idle (hworking : Working trace s) (capacity : Nat) {t : Nat}
    (hlines : requestFormat.LinesBounded (chunks (clients trace) t).flatten) :
    ∃ w more s', Run (system capacity) (· = .step w) s more s' ∧ (s'.connections t).Idle ∧
      chunks (clients (trace ++ more)) t = chunks (clients trace) t := by
  by_cases hidle : (s.connections t).Idle
  · exact ⟨0, [], s, .nil, hidle, by rw [List.append_nil]⟩
  · obtain ⟨items, hserved⟩ := hworking.answering.served t
    obtain ⟨rest, final, hdrain⟩ := (hlines.of_reaches hserved.reached).exists_drains List.prefix_rfl
    obtain ⟨later, state, hrun, hidle'⟩ := server.comes_idle KVStore.handle_request {} hdrain
    obtain ⟨w, hserves⟩ := hworking.attended t hidle
    obtain ⟨s', hrun', rfl, -⟩ := exists_run_of_serves capacity hserves hrun
    refine ⟨w, later.map .client, s', hrun', hidle', ?_⟩
    rw [clients_append, chunks_append, clients_map_client, chunks_of_steps hrun, List.append_nil]

/-- The server as a whole. Over any connections, reactors and reads, the store
    is what the executed requests make of it, one by one, and no malformed frame
    or `PING` shows in it. A connection whose command lines keep to the limit
    gets exactly one response for each item of its parser, in order: all of them
    when it is at rest, and its reactor brings it there by itself. The responses
    to requests on the store are those of one plain map that executes the
    requests of all connections in their order of execution. -/
theorem end_to_end (hrun : Run (system capacity) (fun _ => True) (system capacity).init trace s) :
    s.store = replay KVStore.handle_request {} (executions (clients trace)) ∧
    s.store.contents = replay PlainMap.handle_request (fun _ => none) (executions (clients trace)) ∧
    ∀ t fuel req, requestFormat.LinesBounded (chunks (clients trace) t).flatten →
      (chunks (clients trace) t).flatten.length < fuel →
      ∃ items parser, ({} : IncrementalParser).feed_chunks fuel req (chunks (clients trace) t) = some (items, parser) ∧
        ((s.connections t).Idle → Answers items (answered trace t) (output (clients trace) t)) ∧
        ∃ w more s', Run (system capacity) (· = .step w) s more s' ∧ (s'.connections t).Idle ∧
          Answers items (answered (trace ++ more) t) (output (clients (trace ++ more)) t) := by
  have hworking : Working trace s := working_init.of_run hrun
  have hstore := hworking.answering.store
  refine ⟨hstore, ?_, fun t fuel req hlines hfuel => ?_⟩
  · rw [hstore, contents_replay KVStore.handle_request_contents]
    rfl
  · obtain ⟨w, more, s', hmore, hidle, hchunks⟩ := hworking.comes_idle capacity hlines
    obtain ⟨items, parser, hfeed, hanswers⟩ :=
      (hworking.of_run hmore).answers_of_idle hidle (by rwa [hchunks]) req
    rw [hchunks] at hfeed
    refine ⟨items, parser, hfeed, fun hrest => ?_, w, more, s', hmore, hidle, hanswers⟩
    obtain ⟨items', parser', hfeed', hanswers'⟩ := hworking.answers_of_idle hrest hfuel req
    rw [hfeed, Option.some.injEq, Prod.mk.injEq] at hfeed'
    rwa [hfeed'.1]

/-- Two clients of two reactors. The first one pipelines a `SET` and a malformed
    line, and the second one reads its key before these are answered. -/
theorem end_to_end_example :
    let write : Request := ⟨.Set, ascii "k", ascii "x"⟩
    let read : Request := ⟨.Get, ascii "k", []⟩
    let data := encode_request write ++ ascii "NOPE" ++ [LF]
    let trace : List Event := [.enqueued 0 0, .enqueued 1 1, .registered 0 0, .registered 1 1,
      .client (.received 0 data), .client (.received 1 (encode_request read)), .client (.invoked 0 write),
      .client (.invoked 1 read), .client (.executed 0 write), .client (.executed 1 read)]
    ∃ s, Run (system 1) (fun _ => True) (system 1).init trace s ∧
      answered trace 1 = [(read, encode_value_response (ascii "x"))] ∧
      ∃ items parser, ({} : IncrementalParser).feed_chunks 20 read [data] = some (items, parser) ∧
        ∃ w more s', Run (system 1) (· = .step w) s more s' ∧ (s'.connections 0).Idle ∧
          Answers items (answered (trace ++ more) 0) (output (clients (trace ++ more)) 0) := by
  intro write read data trace
  have hexists : ∃ s, Run (system 1) (fun _ => True) (system 1).init trace s := by
    apply Run.exists_of_exec ([.enqueue 0 0, .wake 0, .enqueue 0 1, .wake 0] ++
      (.poll 0 (fun _ => false) :: List.replicate 7 (.step 0)) ++
      (.poll 1 (fun _ => false) :: List.replicate 7 (.step 1)) ++
      [.poll 0 (fun _ => true), .poll 1 (fun _ => true), .step 0, .step 1, .read 0 data, .read 1 (encode_request read),
        .step 0, .step 1, .step 0, .step 1])
    · exact fun _ _ => trivial
    · decide +kernel
  obtain ⟨s, hrun⟩ := hexists
  have hlines : requestFormat.LinesBounded (chunks (clients trace) 0).flatten :=
    LineFormat.linesBounded_of_length_le (by decide +kernel)
  obtain ⟨items, parser, hfeed, -, hmore⟩ := (end_to_end hrun).2.2 0 20 read hlines (by decide +kernel)
  exact ⟨s, hrun, by decide +kernel, items, parser, hfeed, hmore⟩

end KvServer

end kv.server
