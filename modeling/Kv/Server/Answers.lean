import Kv.Protocol.Request.Segmentation
import Kv.Server.System

namespace kv.server

open kv.protocol Incremental Transition

/-- The reads of a connection, in order. -/
def chunks (trace : List Event) (t : Nat) : List Bytes :=
  trace.filterMap fun event =>
    match event with
    | .received t' data => if t' = t then some data else none
    | _ => none

/-- What is written to a connection, one entry for each `write_all`. -/
def output (trace : List Event) (t : Nat) : List Bytes :=
  trace.filterMap fun event =>
    match event with
    | .sent t' bytes => if t' = t then some bytes else none
    | _ => none

/-- The requests executed on the store, over all connections, in order. -/
def executions (trace : List Event) : List (Nat × Request) :=
  trace.filterMap fun event =>
    match event with
    | .executed t req => some (t, req)
    | _ => none

theorem chunks_append (trace events : List Event) (t : Nat) :
    chunks (trace ++ events) t = chunks trace t ++ chunks events t :=
  List.filterMap_append

theorem output_append (trace events : List Event) (t : Nat) :
    output (trace ++ events) t = output trace t ++ output events t :=
  List.filterMap_append

theorem executions_append (trace events : List Event) :
    executions (trace ++ events) = executions trace ++ executions events :=
  List.filterMap_append

section Replay

variable {σ : Type} (handle_request : σ → Request → Bytes × σ)

/-- A store after it has executed requests one by one. -/
def replay (store : σ) (requests : List (Nat × Request)) : σ :=
  requests.foldl (fun store request => (handle_request store request.2).2) store

/-- The response to each of the requests. -/
def responses (store : σ) : List (Nat × Request) → List (Nat × Request × Bytes)
  | [] => []
  | (t, req) :: later => (t, req, (handle_request store req).1) :: responses (handle_request store req).2 later

/-- The responses that belong to one connection. -/
def granted (store : σ) (requests : List (Nat × Request)) (t : Nat) : List (Request × Bytes) :=
  (responses handle_request store requests).filterMap fun (t', req, bytes) =>
    if t' = t then some (req, bytes) else none

theorem replay_append (store : σ) (first second : List (Nat × Request)) :
    replay handle_request store (first ++ second) = replay handle_request (replay handle_request store first) second :=
  List.foldl_append

theorem responses_append (store : σ) (first second : List (Nat × Request)) :
    responses handle_request store (first ++ second) =
      responses handle_request store first ++ responses handle_request (replay handle_request store first) second := by
  induction first generalizing store with
  | nil => rfl
  | cons request first ih => exact congrArg _ (ih _)

theorem granted_append (store : σ) (first second : List (Nat × Request)) (t : Nat) :
    granted handle_request store (first ++ second) t =
      granted handle_request store first t ++ granted handle_request (replay handle_request store first) second t := by
  rw [granted, responses_append, List.filterMap_append, ← granted, ← granted]

section Refinement

variable {τ : Type} {handle_request} {abstract_request : τ → Request → Bytes × τ} {contents : σ → τ}
  (hrefines : ∀ store req, (handle_request store req).1 = (abstract_request (contents store) req).1 ∧
    contents (handle_request store req).2 = (abstract_request (contents store) req).2)

include hrefines

theorem contents_replay (store : σ) (requests : List (Nat × Request)) :
    contents (replay handle_request store requests) = replay abstract_request (contents store) requests := by
  induction requests generalizing store with
  | nil => rfl
  | cons request requests ih =>
    change contents (replay handle_request (handle_request store request.2).2 requests) = _
    rw [ih, (hrefines store request.2).2]
    rfl

/-- A store and what it stands for give the same responses. -/
theorem responses_contents (store : σ) (requests : List (Nat × Request)) :
    responses handle_request store requests = responses abstract_request (contents store) requests := by
  induction requests generalizing store with
  | nil => rfl
  | cons request requests ih =>
    obtain ⟨t, req⟩ := request
    rw [responses, responses, ih, (hrefines store req).1, (hrefines store req).2]

end Refinement

end Replay

/-- Exactly one response for each item of a connection, in order. A malformed
    frame and a `PING` have their fixed response, every other request the
    response of its execution. -/
inductive Answers : List ParseResult → List (Request × Bytes) → List Bytes → Prop
  | nil : Answers [] [] []
  | error {items : List ParseResult} {executed : List (Request × Bytes)} {sent : List Bytes} (message : Bytes)
      (hanswers : Answers items executed sent) :
      Answers (items ++ [.Error message]) executed (sent ++ [encode_error_response message])
  | ping {items : List ParseResult} {executed : List (Request × Bytes)} {sent : List Bytes} {req : Request}
      (hcommand : req.command = .Ping) (hanswers : Answers items executed sent) :
      Answers (items ++ [.Complete req]) executed (sent ++ [encode_pong_response])
  | data {items : List ParseResult} {executed : List (Request × Bytes)} {sent : List Bytes} {req : Request}
      (hcommand : req.command ≠ .Ping) (response : Bytes) (hanswers : Answers items executed sent) :
      Answers (items ++ [.Complete req]) (executed ++ [(req, response)]) (sent ++ [response])

theorem Answers.length_eq {items : List ParseResult} {executed : List (Request × Bytes)} {sent : List Bytes}
    (hanswers : Answers items executed sent) : sent.length = items.length := by
  induction hanswers with
  | nil => rfl
  | _ => simp_all

section Steps

variable {σ : Type} {handle_request : σ → Request → Bytes × σ} {t : Nat} {connection connection' : Connection}
  {store store' : σ} {events : List Event}

/-- The statements of `service_client` on a connection. -/
inductive ConnectionStep (handle_request : σ → Request → Bytes × σ) (t : Nat) (connection : Connection) (store : σ) :
    Connection → σ → List Event → Prop
  | drained {parser : IncrementalParser} {req : Request} (hpc : connection.pc = .draining)
      (hwait : requestFormat.decode connection.parser.buffer_ = none)
      (hbuffer : parser.buffer_ = connection.parser.buffer_) :
      ConnectionStep handle_request t connection store { pc := .reading, parser, req } store []
  | rejected {parser : IncrementalParser} {req : Request} {message : Bytes} (hpc : connection.pc = .draining)
      (hemit : requestFormat.decode connection.parser.buffer_ = some (.Error message, parser.buffer_)) :
      ConnectionStep handle_request t connection store
        { pc := .replying (encode_error_response message), parser, req } store []
  | parsed {parser : IncrementalParser} {req : Request} (hpc : connection.pc = .draining)
      (hemit : requestFormat.decode connection.parser.buffer_ = some (.Complete req, parser.buffer_)) :
      ConnectionStep handle_request t connection store { pc := .executing req, parser, req } store
        (storeEvent req (.invoked t req))
  | executed {req : Request} (hpc : connection.pc = .executing req) :
      ConnectionStep handle_request t connection store
        { connection with pc := .replying (handle_request store req).1 } (handle_request store req).2
        (storeEvent req (.executed t req))
  | replied {bytes : Bytes} (hpc : connection.pc = .replying bytes) :
      ConnectionStep handle_request t connection store { connection with pc := .draining } store [.sent t bytes]

theorem ConnectionStep.of_step (hstep : connection.step handle_request t store = some (connection', store', events)) :
    ConnectionStep handle_request t connection store connection' store' events := by
  unfold Connection.step at hstep
  cases hpc : connection.pc with
  | reading => simp [hpc] at hstep
  | closed => simp [hpc] at hstep
  | executing req =>
    simp only [hpc, Option.some.injEq, Prod.mk.injEq] at hstep
    obtain ⟨rfl, rfl, rfl⟩ := hstep
    exact .executed hpc
  | replying bytes =>
    simp only [hpc, Option.some.injEq, Prod.mk.injEq] at hstep
    obtain ⟨rfl, rfl, rfl⟩ := hstep
    exact .replied hpc
  | draining =>
    simp only [hpc, IncrementalParser.try_parse_request_eq] at hstep
    cases hdecode : requestFormat.decode connection.parser.buffer_ with
    | none =>
      simp only [hdecode, IncrementalParser.after, Option.some.injEq, Prod.mk.injEq] at hstep
      obtain ⟨rfl, rfl, rfl⟩ := hstep
      exact .drained hpc hdecode rfl
    | some emitted =>
      obtain ⟨result, rest⟩ := emitted
      cases result with
      | Error message =>
        simp only [hdecode, IncrementalParser.after, Option.some.injEq, Prod.mk.injEq] at hstep
        obtain ⟨rfl, rfl, rfl⟩ := hstep
        exact .rejected hpc hdecode
      | Complete req =>
        simp only [hdecode, IncrementalParser.after, Option.some.injEq, Prod.mk.injEq] at hstep
        obtain ⟨rfl, rfl, rfl⟩ := hstep
        exact .parsed hpc hdecode

/-- A connection at rest waits for its client, or is gone. -/
def Connection.Idle (self : Connection) : Prop := self.pc = .reading ∨ self.pc = .closed

theorem Connection.exists_step (handle_request : σ → Request → Bytes × σ) (t : Nat) (store : σ)
    (hbusy : ¬ connection.Idle) :
    ∃ connection' store' events, connection.step handle_request t store = some (connection', store', events) := by
  unfold step
  cases hpc : connection.pc with
  | reading => exact absurd (.inl hpc) hbusy
  | closed => exact absurd (.inr hpc) hbusy
  | executing req => exact ⟨_, _, _, rfl⟩
  | replying bytes => exact ⟨_, _, _, rfl⟩
  | draining =>
    dsimp only
    split <;> exact ⟨_, _, _, rfl⟩

/-- The response that is still to be written. -/
def Pc.unsent : Pc → List Bytes
  | .replying bytes => [bytes]
  | _ => []

/-- The request that is still to be executed. -/
def Pc.unexecuted : Pc → List ParseResult
  | .executing req => [.Complete req]
  | _ => []

/-- What holds of a connection between its steps, with the items it is done
    with. Whatever the parser gives from here on completes these items to those
    of all the reads. -/
structure Served (items : List ParseResult) (chunks : List Bytes) (executed : List (Request × Bytes))
    (sent : List Bytes) (connection : Connection) : Prop where
  answered : Answers items executed (sent ++ connection.pc.unsent)
  parsed : ∀ rest final, Drains requestFormat.decode connection.parser.buffer_ rest final →
    Feeds requestFormat.decode [] chunks (items ++ connection.pc.unexecuted ++ rest) final
  idle : connection.Idle → requestFormat.decode connection.parser.buffer_ = none
  reached : Reaches requestFormat.frame chunks.flatten connection.parser.buffer_

variable {items : List ParseResult} {chunks : List Bytes} {executed : List (Request × Bytes)} {sent : List Bytes}

theorem served_init : Served [] [] [] [] {} where
  answered := .nil
  parsed rest final hdrain := by
    obtain ⟨rfl, rfl⟩ := hdrain.deterministic (.wait LineFormat.decode_nil)
    exact .nil
  idle _ := LineFormat.decode_nil
  reached := .start

/-- A connection at rest has parsed all its reads. -/
theorem Served.feeds (hserved : Served items chunks executed sent connection) (hidle : connection.Idle) :
    Feeds requestFormat.decode [] chunks items connection.parser.buffer_ := by
  have hfeeds := hserved.parsed [] _ (.wait (hserved.idle hidle))
  rcases hidle with hpc | hpc <;> simpa [hpc, Pc.unexecuted] using hfeeds

theorem Served.recv (hserved : Served items chunks executed sent connection) {data : Bytes}
    (hrecv : connection.recv data = some connection') : Served items (chunks ++ [data]) executed sent connection' := by
  unfold Connection.recv at hrecv
  split at hrecv
  · rename_i hready
    obtain rfl := Option.some.inj hrecv
    refine ⟨?_, ?_, by simp [Connection.Idle], ?_⟩
    · simpa [hready.1, Pc.unsent] using hserved.answered
    · intro rest final hdrain
      simpa [Pc.unexecuted] using (hserved.feeds (.inl hready.1)).snoc hdrain
    · rw [List.flatten_append, List.flatten_singleton]
      exact hserved.reached.append data fun _ _ _ => LineFormat.frame_append data
  · simp at hrecv

theorem Served.hangup (hserved : Served items chunks executed sent connection)
    (hhangup : connection.hangup = some connection') : Served items chunks executed sent connection' := by
  unfold Connection.hangup at hhangup
  split at hhangup
  · rename_i hready
    obtain rfl := Option.some.inj hhangup
    refine ⟨?_, ?_, fun _ => hserved.idle (.inl hready), hserved.reached⟩
    · simpa [hready, Pc.unsent] using hserved.answered
    · simpa [hready, Pc.unexecuted] using hserved.parsed
  · simp at hhangup

/-- The parser hands over one more item. -/
theorem Served.emit (hserved : Served items chunks executed sent connection) (hpc : connection.pc = .draining)
    {item : ParseResult} {rest : Bytes}
    (hemit : requestFormat.decode connection.parser.buffer_ = some (item, rest)) :
    (∀ later final, Drains requestFormat.decode rest later final →
      Feeds requestFormat.decode [] chunks (items ++ [item] ++ later) final) ∧
    Reaches requestFormat.frame chunks.flatten rest := by
  constructor
  · intro later final hdrain
    simpa [hpc, Pc.unexecuted] using hserved.parsed _ final (.emit hemit hdrain)
  · exact hserved.reached.trans (LineFormat.reaches_frame (.next .start hemit))

/-- `PING` has a fixed response and leaves the store alone. -/
def PingLaw (handle_request : σ → Request → Bytes × σ) : Prop :=
  ∀ store req, req.command = .Ping → handle_request store req = (encode_pong_response, store)

theorem filterMap_storeEvent {α : Type} (f : Event → Option α) (req : Request) (event : Event) :
    (storeEvent req event).filterMap f = if req.command = .Ping then [] else (f event).toList := by
  unfold storeEvent
  split
  · rfl
  · cases hevent : f event <;> simp [hevent]

theorem executions_executed (req : Request) (t : Nat) :
    executions (storeEvent req (.executed t req)) = if req.command = .Ping then [] else [(t, req)] :=
  filterMap_storeEvent ..

/-- Malformed frames and `PING` leave the store unchanged. -/
theorem ConnectionStep.store_eq (hping : PingLaw handle_request)
    (hstep : ConnectionStep handle_request t connection store connection' store' events) :
    store' = replay handle_request store (executions events) := by
  cases hstep with
  | drained => rfl
  | rejected => rfl
  | parsed => simp [executions, filterMap_storeEvent, replay]
  | replied => rfl
  | @executed req =>
    rw [executions_executed]
    split
    · rename_i hcommand
      rw [hping store req hcommand]
      rfl
    · rfl

/-- One statement of `service_client`. -/
theorem Served.step (hping : PingLaw handle_request) (hserved : Served items chunks executed sent connection)
    (hstep : ConnectionStep handle_request t connection store connection' store' events) :
    ∃ items', Served items' chunks (executed ++ granted handle_request store (executions events) t)
      (sent ++ output events t) connection' := by
  have hanswered := hserved.answered
  have hparsed := hserved.parsed
  cases hstep with
  | drained hpc hwait hbuffer =>
    rw [hpc] at hanswered hparsed
    refine ⟨items, by simpa [executions, granted, responses, output, Pc.unsent] using hanswered, ?_, ?_, ?_⟩
    · rw [hbuffer]
      exact hparsed
    · rw [hbuffer]
      exact fun _ => hwait
    · rw [hbuffer]
      exact hserved.reached
  | @rejected parser req message hpc hemit =>
    rw [hpc] at hanswered
    obtain ⟨hparsed', hreached⟩ := hserved.emit hpc hemit
    refine ⟨items ++ [.Error message], ?_, ?_, by simp [Connection.Idle], hreached⟩
    · simpa [executions, granted, responses, output, Pc.unsent] using hanswered.error message
    · simpa [Pc.unexecuted] using hparsed'
  | @parsed parser req hpc hemit =>
    rw [hpc] at hanswered
    obtain ⟨hparsed', hreached⟩ := hserved.emit hpc hemit
    refine ⟨items, ?_, hparsed', by simp [Connection.Idle], hreached⟩
    simpa [executions, output, filterMap_storeEvent, granted, responses, Pc.unsent] using hanswered
  | @executed req hpc =>
    rw [hpc] at hanswered hparsed
    refine ⟨items ++ [.Complete req], ?_, by simpa [Pc.unexecuted] using hparsed, by simp [Connection.Idle],
      hserved.reached⟩
    rw [executions_executed, output, filterMap_storeEvent]
    -- A `PING` is answered without an execution on the store.
    by_cases hcommand : req.command = .Ping
    · simpa [hcommand, hping store req, granted, responses, Pc.unsent] using hanswered.ping hcommand
    · simpa [hcommand, granted, responses, Pc.unsent] using hanswered.data hcommand (handle_request store req).1
  | @replied bytes hpc =>
    rw [hpc] at hanswered hparsed
    refine ⟨items, ?_, hparsed, by simp [Connection.Idle], hserved.reached⟩
    simpa [executions, granted, responses, output, Pc.unsent] using hanswered

end Steps

section System

variable {σ : Type} {handle_request : σ → Request → Bytes × σ} {empty : σ} {trace events : List Event}
  {s s' : State σ} {t : Nat}

/-- The connection that an event is about. -/
def Event.connection : Event → Nat
  | .received t _ => t
  | .invoked t _ => t
  | .executed t _ => t
  | .sent t _ => t

/-- Events of one connection say nothing about another one. -/
theorem quiet_of_connection (handle_request : σ → Request → Bytes × σ) (store : σ)
    (hevents : ∀ event ∈ events, event.connection = t) {t' : Nat} (hne : t' ≠ t) :
    chunks events t' = [] ∧ output events t' = [] ∧ granted handle_request store (executions events) t' = [] := by
  induction events generalizing store with
  | nil => exact ⟨rfl, rfl, rfl⟩
  | cons event events ih =>
    have hrest (store : σ) := ih store fun event' hmem => hevents event' (List.mem_cons_of_mem _ hmem)
    have hself := hevents event List.mem_cons_self
    cases event with
    | received t'' data =>
      obtain rfl : t'' = t := hself
      simpa [chunks, output, executions, hne.symm] using hrest store
    | invoked t'' req => simpa [chunks, output, executions] using hrest store
    | executed t'' req =>
      obtain rfl : t'' = t := hself
      simpa [chunks, output, executions, granted, responses, hne.symm] using hrest (handle_request store req).2
    | sent t'' bytes =>
      obtain rfl : t'' = t := hself
      simpa [chunks, output, executions, hne.symm] using hrest store

theorem ConnectionStep.connection_eq {connection connection' : Connection} {store store' : σ}
    (hstep : ConnectionStep handle_request t connection store connection' store' events) :
    chunks events t = [] ∧ ∀ event ∈ events, event.connection = t := by
  have hstore (req : Request) {event : Event} (hevent : event.connection = t) :
      ∀ event' ∈ storeEvent req event, event'.connection = t := by
    unfold storeEvent
    split <;> simp [hevent]
  cases hstep with
  | drained => exact ⟨rfl, by simp⟩
  | rejected => exact ⟨rfl, by simp⟩
  | @parsed _ req => exact ⟨by simp [chunks, filterMap_storeEvent], hstore req rfl⟩
  | @executed req => exact ⟨by simp [chunks, filterMap_storeEvent], hstore req rfl⟩
  | replied => exact ⟨rfl, by simp [Event.connection]⟩

/-- The store has executed the requests of the trace, and every connection has
    its responses from them. -/
structure Answering (handle_request : σ → Request → Bytes × σ) (empty : σ) (trace : List Event) (s : State σ) :
    Prop where
  store : s.store = replay handle_request empty (executions trace)
  served : ∀ t, ∃ items, Served items (chunks trace t) (granted handle_request empty (executions trace) t)
    (output trace t) (s.connections t)

theorem Answering.setConnection (hanswering : Answering handle_request empty trace s)
    (hevents : ∀ event ∈ events, event.connection = t) {connection : Connection} {store : σ}
    (hstore : store = replay handle_request s.store (executions events))
    (hself : ∀ items, Served items (chunks trace t) (granted handle_request empty (executions trace) t)
        (output trace t) (s.connections t) →
      ∃ items', Served items' (chunks trace t ++ chunks events t)
        (granted handle_request empty (executions trace) t ++ granted handle_request s.store (executions events) t)
        (output trace t ++ output events t) connection) :
    Answering handle_request empty (trace ++ events) { s.setConnection t connection with store } where
  store := by rw [hstore, hanswering.store, executions_append, replay_append]
  served t' := by
    rw [chunks_append, executions_append, granted_append, output_append, ← hanswering.store]
    change ∃ items, Served items _ _ _ (Function.update s.connections t connection t')
    obtain ⟨items, hserved⟩ := hanswering.served t'
    by_cases heq : t' = t
    · subst heq
      rw [Function.update_self]
      exact hself items hserved
    · obtain ⟨hchunks, houtput, hgranted⟩ := quiet_of_connection handle_request s.store hevents heq
      rw [Function.update_of_ne heq, hchunks, houtput, hgranted, List.append_nil, List.append_nil, List.append_nil]
      exact ⟨items, hserved⟩

theorem Answering.keep (hping : PingLaw handle_request) (hanswering : Answering handle_request empty trace s)
    {label : Label} (hstep : step handle_request s label = some (s', events)) :
    Answering handle_request empty (trace ++ events) s' := by
  cases label with
  | recv t data =>
    obtain ⟨connection, hrecv, hstate⟩ := Option.map_eq_some_iff.mp hstep
    obtain ⟨rfl, rfl⟩ := Prod.mk.inj hstate
    refine hanswering.setConnection (t := t) (by simp [Event.connection]) rfl fun items hserved => ⟨items, ?_⟩
    simpa [chunks, output, executions, granted, responses] using hserved.recv hrecv
  | hangup t =>
    obtain ⟨connection, hhangup, hstate⟩ := Option.map_eq_some_iff.mp hstep
    obtain ⟨rfl, rfl⟩ := Prod.mk.inj hstate
    refine hanswering.setConnection (by simp) rfl fun items hserved => ⟨items, ?_⟩
    simpa [chunks, output, executions, granted, responses] using hserved.hangup hhangup
  | step t =>
    obtain ⟨⟨connection, store, events⟩, htaken, hstate⟩ := Option.map_eq_some_iff.mp hstep
    obtain ⟨rfl, rfl⟩ := Prod.mk.inj hstate
    have hmove := ConnectionStep.of_step htaken
    obtain ⟨hchunks, hevents⟩ := hmove.connection_eq
    refine hanswering.setConnection hevents (hmove.store_eq hping) fun items hserved => ?_
    rw [hchunks, List.append_nil]
    exact hserved.step hping hmove

theorem answering_init : Answering handle_request empty [] { store := empty } where
  store := rfl
  served _ := ⟨[], served_init⟩

/-- The connection that a label is about. -/
def Label.connection : Label → Nat
  | .recv t _ => t
  | .hangup t => t
  | .step t => t

theorem connections_of_step {label : Label} (hstep : step handle_request s label = some (s', events))
    (hne : t ≠ label.connection) : s'.connections t = s.connections t := by
  cases label with
  | recv t' data =>
    obtain ⟨connection, -, hstate⟩ := Option.map_eq_some_iff.mp hstep
    obtain ⟨rfl, -⟩ := Prod.mk.inj hstate
    exact Function.update_of_ne hne ..
  | hangup t' =>
    obtain ⟨connection, -, hstate⟩ := Option.map_eq_some_iff.mp hstep
    obtain ⟨rfl, -⟩ := Prod.mk.inj hstate
    exact Function.update_of_ne hne ..
  | step t' =>
    obtain ⟨taken, -, hstate⟩ := Option.map_eq_some_iff.mp hstep
    obtain ⟨rfl, -⟩ := Prod.mk.inj hstate
    exact Function.update_of_ne hne ..

theorem idle_of_hangup (hstep : step handle_request s (.hangup t) = some (s', events)) : (s'.connections t).Idle := by
  obtain ⟨connection, hhangup, hstate⟩ := Option.map_eq_some_iff.mp hstep
  obtain ⟨rfl, -⟩ := Prod.mk.inj hstate
  have hself : (s.setConnection t connection).connections t = connection := Function.update_self ..
  rw [hself]
  unfold Connection.hangup at hhangup
  split at hhangup
  · obtain rfl := Option.some.inj hhangup
    exact .inr rfl
  · simp at hhangup

/-- The statements that are left until the next call of the parser is over. -/
def Pc.work : Pc → Nat
  | .reading => 0
  | .closed => 0
  | .draining => 1
  | .replying _ => 2
  | .executing _ => 3

/-- A connection whose drain loop ends gives all its responses, by its own
    steps. -/
theorem comes_idle (handle_request : σ → Request → Bytes × σ) (empty : σ) {rest : List ParseResult} {final : Bytes}
    (hdrain : Drains requestFormat.decode (s.connections t).parser.buffer_ rest final) :
    ∃ later s', Run (system handle_request empty) (· = .step t) s later s' ∧ (s'.connections t).Idle := by
  -- Every item is parsed, executed and answered, in at most four statements.
  induction hwork : 4 * rest.length + (s.connections t).pc.work using Nat.strongRecOn generalizing s rest with
  | _ work ih =>
    by_cases hidle : (s.connections t).Idle
    · exact ⟨[], s, .nil, hidle⟩
    · obtain ⟨connection, store, events, htaken⟩ :=
        Connection.exists_step handle_request t s.store hidle
      have hlabel : (system handle_request empty).step s (.step t) =
          some ({ s.setConnection t connection with store }, events) := by
        simp only [system, step, htaken, Option.map_some]
      have hconnection : ({ s.setConnection t connection with store } : State σ).connections t = connection :=
        Function.update_self ..
      have hfirst :
          Run (system handle_request empty) (· = .step t) s events { s.setConnection t connection with store } :=
        .single rfl hlabel
      have hnext {rest' : List ParseResult} (hdrain' : Drains requestFormat.decode connection.parser.buffer_
          rest' final)
          (hless : 4 * rest'.length + connection.pc.work < work) :
          ∃ later s', Run (system handle_request empty) (· = .step t) s later s' ∧ (s'.connections t).Idle := by
        obtain ⟨later, s', hrun, hidle'⟩ := ih _ hless (by rwa [hconnection]) (by rw [hconnection])
        exact ⟨events ++ later, s', hfirst.append hrun, hidle'⟩
      cases ConnectionStep.of_step htaken with
      | drained => exact ⟨_, _, hfirst, by rw [hconnection]; exact .inl rfl⟩
      | rejected hpc hemit =>
        obtain ⟨rest', rfl, htail⟩ := hdrain.of_emit hemit
        exact hnext htail (by rw [← hwork, hpc, List.length_cons]; simp only [Pc.work]; omega)
      | parsed hpc hemit =>
        obtain ⟨rest', rfl, htail⟩ := hdrain.of_emit hemit
        exact hnext htail (by rw [← hwork, hpc, List.length_cons]; simp only [Pc.work]; omega)
      | executed hpc => exact hnext hdrain (by rw [← hwork, hpc]; exact Nat.lt_succ_self _)
      | replied hpc => exact hnext hdrain (by rw [← hwork, hpc]; exact Nat.lt_succ_self _)

/-- A connection that goes on by itself reads nothing. -/
theorem chunks_of_steps {later : List Event} (hrun : Run (system handle_request empty) (· = .step t) s later s') :
    chunks later t = [] := by
  induction hrun with
  | nil => rfl
  | snoc _ hlabel hstep ih =>
    subst hlabel
    obtain ⟨taken, htaken, hstate⟩ := Option.map_eq_some_iff.mp hstep
    obtain ⟨-, rfl⟩ := Prod.mk.inj hstate
    rw [chunks_append, ih, (ConnectionStep.of_step htaken).connection_eq.1, List.append_nil]

end System

end kv.server
