import Kv.Protocol.Request.Segmentation
import Kv.Router.Calm

namespace kv

/-- Every key has a preference list with a primary. -/
def Router.Serves (self : Router) : Prop :=
  ∀ key, ∃ primary rest, self.preference_list key = some (primary :: rest)

end kv

namespace kv.router

open kv.protocol Transition Incremental

variable {router : Router} {t : Nat} {thread thread' : Thread} {shared shared' : Shared} {events : List Event}

/-- A request never blocks its thread. -/
theorem ThreadOk.exists_route (hok : ThreadOk router shared.nodes thread) {r : Routing}
    (hpc : thread.pc = .routing r) :
    ∃ thread' shared' events, thread.route router t shared r = some (thread', shared', events) := by
  have hr := hok.routing r hpc
  unfold Thread.route
  cases htodo : r.todo with
  | nil => exact ⟨_, _, _, rfl⟩
  | cons node_id todo =>
    have hready := hr.phase node_id todo htodo
    cases hphase : r.phase with
    | check =>
      dsimp only
      split <;> exact ⟨_, _, _, rfl⟩
    | connect => exact ⟨_, _, _, rfl⟩
    | failed => exact ⟨_, _, _, rfl⟩
    | forward =>
      rw [hphase] at hready
      obtain ⟨conn, hconn⟩ := hready
      obtain ⟨parser, hservice, _⟩ := service_client_encode_request KVStore.handle_request
        (hok.conns node_id conn hconn).2 hr.wellFormed (shared.nodes node_id).store
      simp only [Thread.forward, hconn, hservice]
      split <;> exact ⟨_, _, _, rfl⟩
    | await bytes =>
      rw [hphase] at hready
      obtain ⟨_, held, rfl, hheld⟩ := hready
      obtain ⟨resp, hreceive, _, _⟩ := receive_reply thread.req hheld
      simp only [Thread.await, hreceive]
      split <;> exact ⟨_, _, _, rfl⟩

/-- The steps that are left in the loop over the preference list. -/
def Routing.work (r : Routing) : Nat :=
  5 * r.todo.length +
    match r.phase with
    | .check => 4
    | .connect => 3
    | .forward => 2
    | .await _ => 1
    | .failed => 0

theorem RouteStep.work_lt {r : Routing} (hmove : RouteStep t thread shared r thread' shared' events) :
    (∃ bytes, thread'.pc = .replying bytes) ∨ ∃ r', thread'.pc = .routing r' ∧ r'.work < r.work := by
  cases hmove with
  | exhausted => exact .inl ⟨_, rfl⟩
  | read => exact .inl ⟨_, rfl⟩
  | skipped htodo hphase => exact .inr ⟨_, rfl, by simp only [Routing.work, htodo, hphase, List.length_cons]; omega⟩
  | chosen htodo hphase => exact .inr ⟨_, rfl, by simp only [Routing.work, hphase]; omega⟩
  | cached htodo hphase => exact .inr ⟨_, rfl, by simp only [Routing.work, hphase]; omega⟩
  | opened htodo hphase => exact .inr ⟨_, rfl, by simp only [Routing.work, hphase]; omega⟩
  | executed htodo hphase => exact .inr ⟨_, rfl, by simp only [Routing.work, hphase]; omega⟩
  | refused htodo hphase => exact .inr ⟨_, rfl, by simp only [Routing.work, hphase]; omega⟩
  | broken htodo hphase => exact .inr ⟨_, rfl, by simp only [Routing.work, hphase]; omega⟩
  | wrote htodo hphase => exact .inr ⟨_, rfl, by simp only [Routing.work, htodo, hphase, List.length_cons]; omega⟩
  | marked htodo hphase => exact .inr ⟨_, rfl, by simp only [Routing.work, htodo, hphase, List.length_cons]; omega⟩

theorem RouteStep.parser_eq {r : Routing} (hmove : RouteStep t thread shared r thread' shared' events) :
    thread'.parser = thread.parser := by
  cases hmove <;> rfl

variable {s : State}

/-- A step of one thread, as a run of the whole system. -/
theorem own_step (hknown : router.Known) (hok : Consistent router s)
    (hstep : (s.threads t).step router t s.shared = some (thread, shared, events)) :
    ∃ s', Run (system router) (· = .step t) s events s' ∧ Consistent router s' ∧ s'.threads t = thread ∧
      ThreadStep router t (s.threads t) s.shared thread shared events := by
  have hlabel : step router s (.step t) = some ({ s.setThread t thread with shared }, events) := by
    simp only [step, hstep, Option.map_some]
  have hmove := (hok.threads t).thread_step hknown hstep
  have hcrashStop : CrashStop (.step t) := trivial
  refine ⟨_, .single rfl hlabel, hok.keep hcrashStop (.moved hmove), ?_, hmove⟩
  exact Function.update_self ..

/-- What a run of one thread leads to: a state that satisfies `P`. -/
def Comes (router : Router) (t : Nat) (s : State) (P : Thread → Prop) : Prop :=
  ∃ later s', Run (system router) (· = .step t) s later s' ∧ Consistent router s' ∧ P (s'.threads t)

theorem Comes.trans {P Q : Thread → Prop} (hfirst : Comes router t s P)
    (hsecond : ∀ s', Consistent router s' → P (s'.threads t) → Comes router t s' Q) : Comes router t s Q := by
  obtain ⟨first, middle, hrun, hok, hP⟩ := hfirst
  obtain ⟨second, final, hrun', hok', hQ⟩ := hsecond middle hok hP
  exact ⟨first ++ second, final, hrun.append hrun', hok', hQ⟩

theorem comes_of_step (hknown : router.Known) (hok : Consistent router s) {P : Thread → Prop}
    (hstep : (s.threads t).step router t s.shared = some (thread, shared, events)) (hP : P thread) :
    Comes router t s P := by
  obtain ⟨s', hrun, hok', hthread, _⟩ := own_step hknown hok hstep
  exact ⟨events, s', hrun, hok', hthread ▸ hP⟩

/-- Every routed request is answered, whatever the nodes do. -/
theorem comes_reply (hknown : router.Known) {r : Routing} (hok : Consistent router s)
    (hpc : (s.threads t).pc = .routing r) :
    Comes router t s fun thread => (∃ bytes, thread.pc = .replying bytes) ∧ thread.parser = (s.threads t).parser := by
  induction hwork : r.work using Nat.strongRecOn generalizing s r with
  | _ work ih =>
    obtain ⟨thread, shared, events, hroute⟩ := (hok.threads t).exists_route (t := t) hpc
    have hstep : (s.threads t).step router t s.shared = some (thread, shared, events) := by
      simp only [Thread.step, hpc, hroute]
    have hmove := ((hok.threads t).thread_step hknown hstep).route hpc
    rcases hmove.work_lt with hreply | ⟨r', hpc', hlt⟩
    · exact comes_of_step hknown hok hstep ⟨hreply, hmove.parser_eq⟩
    · have hnext : Comes router t s fun thread' => thread' = thread := comes_of_step hknown hok hstep rfl
      refine hnext.trans fun s' hok' hthread => ?_
      rw [← hmove.parser_eq, ← hthread]
      exact ih r'.work (hwork ▸ hlt) hok' (hthread ▸ hpc') rfl

/-- A thread that has something to answer. -/
def Thread.Busy (self : Thread) : Prop := (∃ bytes, self.pc = .replying bytes) ∨ ∃ r, self.pc = .routing r

/-- A busy thread gives its answer and goes on with its input. -/
theorem comes_draining (hknown : router.Known) (hok : Consistent router s) (hbusy : (s.threads t).Busy) :
    Comes router t s fun thread => thread.pc = .draining ∧ thread.parser = (s.threads t).parser := by
  have hsend {s : State} {bytes : Bytes} (hok : Consistent router s) (hpc : (s.threads t).pc = .replying bytes) :
      Comes router t s fun thread => thread.pc = .draining ∧ thread.parser = (s.threads t).parser := by
    apply comes_of_step hknown hok
    · simp only [Thread.step, hpc]
      rfl
    · exact ⟨rfl, rfl⟩
  rcases hbusy with ⟨bytes, hpc⟩ | ⟨r, hpc⟩
  · exact hsend hok hpc
  · refine (comes_reply hknown hok hpc).trans ?_
    rintro s' hok' ⟨⟨bytes, hpc'⟩, hparser⟩
    rw [← hparser]
    exact hsend hok' hpc'

/-- Whatever a call of the parser gives, the thread has something to answer. -/
theorem dispatch_emit (hserves : router.Serves) {result : ParseResult} {rest : Bytes}
    (hemit : requestFormat.decode thread.parser.buffer_ = some (result, rest)) :
    ∃ thread' events, thread.dispatch router t = some (thread', events) ∧ thread'.Busy ∧
      thread'.parser.buffer_ = rest := by
  cases result with
  | Error message =>
    simp only [Thread.dispatch, IncrementalParser.try_parse_request_eq, hemit, IncrementalParser.after]
    exact ⟨_, _, rfl, .inl ⟨_, rfl⟩, rfl⟩
  | Complete req =>
    obtain ⟨primary, others, hlist⟩ := hserves req.key
    simp only [Thread.dispatch, IncrementalParser.try_parse_request_eq, hemit, IncrementalParser.after, hlist]
    split
    · exact ⟨_, _, rfl, .inl ⟨_, rfl⟩, rfl⟩
    · exact ⟨_, _, rfl, .inr ⟨_, rfl⟩, rfl⟩

/-- A drain loop of the parser that ends is one that the thread gets through. -/
theorem comes_reading (hserves : router.Serves) (hknown : router.Known) {buffer final : Bytes}
    {results : List ParseResult} (hdrain : Drains requestFormat.decode buffer results final)
    (hok : Consistent router s) (hpc : (s.threads t).pc = .draining)
    (hbuffer : (s.threads t).parser.buffer_ = buffer) :
    Comes router t s fun thread => thread.pc = .reading := by
  induction hdrain generalizing s with
  | wait hwait =>
    apply comes_of_step hknown hok
    · simp only [Thread.step, hpc, Thread.dispatch, IncrementalParser.try_parse_request_eq, hbuffer, hwait,
        IncrementalParser.after, Option.map_some]
      rfl
    · rfl
  | @emit buffer rest final result results hemit htail ih =>
    obtain ⟨thread, events, hdispatch, hbusy, hrest⟩ := dispatch_emit (t := t) hserves (hbuffer ▸ hemit)
    have hstep : (s.threads t).step router t s.shared = some (thread, s.shared, events) := by
      simp only [Thread.step, hpc, hdispatch, Option.map_some]
    have hanswer : Comes router t s fun thread' => thread'.Busy ∧ thread'.parser.buffer_ = rest :=
      comes_of_step hknown hok hstep ⟨hbusy, hrest⟩
    refine hanswer.trans fun s' hok' hthread => ?_
    refine (comes_draining hknown hok' hthread.1).trans fun s'' hok'' hthread' => ?_
    exact ih hok'' hthread'.1 (by rw [hthread'.2, hthread.2])

/-- The bytes that a client has sent. -/
def stream (trace : List Event) (t : Nat) : Bytes :=
  (trace.filterMap fun event =>
    match event with
    | .received t' data => if t' = t then some data else none
    | _ => none).flatten

theorem stream_append (trace events : List Event) (t : Nat) :
    stream (trace ++ events) t = stream trace t ++ stream events t := by
  simp [stream, List.filterMap_append]

theorem stream_eq_nil {events : List Event} {t : Nat} (hevents : ∀ data, Event.received t data ∉ events) :
    stream events t = [] := by
  simp only [stream, List.flatten_eq_nil_iff, List.mem_filterMap]
  rintro bytes ⟨event, hmem, heq⟩
  cases event with
  | received t' data =>
    have hne : t' ≠ t := by
      rintro rfl
      exact hevents data hmem
    simp [hne] at heq
  | _ => simp at heq

/-- What a thread has buffered is what its client's bytes leave after some of
    their frames. -/
def Buffered (trace : List Event) (s : State) : Prop :=
  ∀ t, Reaches requestFormat.frame (stream trace t) (s.threads t).parser.buffer_

theorem ThreadStep.reaches (hmove : ThreadStep router t thread shared thread' shared' events) :
    Reaches requestFormat.frame thread.parser.buffer_ thread'.parser.buffer_ := by
  cases hmove with
  | drained _ hcall => exact LineFormat.reaches_frame (IncrementalParser.reaches_of_try_parse_request hcall)
  | rejected _ hcall => exact LineFormat.reaches_frame (IncrementalParser.reaches_of_try_parse_request hcall)
  | pinged _ hcall => exact LineFormat.reaches_frame (IncrementalParser.reaches_of_try_parse_request hcall)
  | invoked _ hcall => exact LineFormat.reaches_frame (IncrementalParser.reaches_of_try_parse_request hcall)
  | replied => exact .start
  | routed _ hroute =>
    rw [hroute.parser_eq]
    exact .start

theorem ThreadStep.not_received (hmove : ThreadStep router t thread shared thread' shared' events) (t' : Nat)
    (data : Bytes) :
    Event.received t' data ∉ events := by
  cases hmove with
  | routed _ hroute => cases hroute <;> simp
  | _ => simp

theorem Buffered.setThread {trace : List Event} (hbuffered : Buffered trace s)
    (hself : Reaches requestFormat.frame (stream (trace ++ events) t) thread.parser.buffer_)
    (hothers : ∀ t', t' ≠ t → ∀ data, Event.received t' data ∉ events) :
    Buffered (trace ++ events) { s.setThread t thread with shared } := by
  intro t'
  change Reaches _ _ (Function.update s.threads t thread t').parser.buffer_
  by_cases heq : t' = t
  · subst heq
    rwa [Function.update_self]
  · rw [Function.update_of_ne heq, stream_append, stream_eq_nil (hothers t' heq), List.append_nil]
    exact hbuffered t'

theorem Buffered.keep {trace : List Event} {s' : State} {label : Label} (hbuffered : Buffered trace s)
    (hmove : SystemStep router s label s' events) : Buffered (trace ++ events) s' := by
  have hquiet {t : Nat} {events : List Event} (hevents : ∀ data, Event.received t data ∉ events) :
      stream (trace ++ events) t = stream trace t := by
    rw [stream_append, stream_eq_nil hevents, List.append_nil]
  cases hmove with
  | @received t data =>
    have hdata : stream [.received t data] t = data := by simp [stream]
    refine hbuffered.setThread ?_ (by simp)
    rw [stream_append, hdata]
    exact (hbuffered t).append data fun _ _ _ => LineFormat.frame_append data
  | @closed t =>
    refine hbuffered.setThread ?_ (by simp)
    rw [hquiet (by simp)]
    exact hbuffered t
  | @lost t =>
    refine hbuffered.setThread ?_ (by simp)
    rw [hquiet (by simp)]
    exact hbuffered t
  | @moved t _ _ _ hmove =>
    refine hbuffered.setThread ?_ fun t' _ => hmove.not_received t'
    rw [hquiet (hmove.not_received t)]
    exact (hbuffered t).trans hmove.reaches
  | _ =>
    intro t
    rw [hquiet (by simp)]
    exact hbuffered t

/-- A thread whose client keeps to the limit for command lines gives all the
    answers it owes, by its own steps, and waits for input. -/
theorem comes_idle (hserves : router.Serves) (hknown : router.Known) {trace : List Event} (hok : Consistent router s)
    (hbuffered : Buffered trace s) (hlines : requestFormat.LinesBounded (stream trace t)) :
    Comes router t s fun thread => thread.pc = .reading ∨ thread.pc = .closed := by
  obtain ⟨results, final, hdrain⟩ := (hlines.of_reaches (hbuffered t)).exists_drains List.prefix_rfl
  have hread {s' : State} (hok' : Consistent router s') (hpc : (s'.threads t).pc = .draining)
      (hparser : (s'.threads t).parser = (s.threads t).parser) :
      Comes router t s' fun thread => thread.pc = .reading ∨ thread.pc = .closed := by
    obtain ⟨later, final, hrun, hok'', hpc'⟩ :=
      comes_reading hserves hknown hdrain hok' hpc (congrArg IncrementalParser.buffer_ hparser)
    exact ⟨later, final, hrun, hok'', .inl hpc'⟩
  have hbusy (hbusy : (s.threads t).Busy) :
      Comes router t s fun thread => thread.pc = .reading ∨ thread.pc = .closed :=
    (comes_draining hknown hok hbusy).trans fun s' hok' hthread => hread hok' hthread.1 hthread.2
  cases hpc : (s.threads t).pc with
  | reading => exact ⟨[], s, .nil, hok, .inl hpc⟩
  | closed => exact ⟨[], s, .nil, hok, .inr hpc⟩
  | draining => exact hread hok hpc rfl
  | replying bytes => exact hbusy (.inl ⟨bytes, hpc⟩)
  | routing r => exact hbusy (.inr ⟨r, hpc⟩)

end kv.router
