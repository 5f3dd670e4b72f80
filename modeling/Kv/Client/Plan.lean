import Kv.Client.Session

namespace kv.client

open protocol Transition Incremental wire

/-- How far a session has come with a request, with the events of its connection since
    the request was started. -/
inductive Session.Stage (t : Nat) (session : Session) : List wire.Event → Prop
  | idle (hcall : session.call = none) (hidle : session.channel.Idle) : Stage t session []
  | sending {req : Request} {sent : Nat} {log : List wire.Event} (hcall : session.call = some (.sending req sent))
      (hsent : sent < (encode_request req).length) (hexchange : Exchange t req sent [] session.channel log) :
      Stage t session log
  | receiving {req : Request} {parser : ResponseParser} {log : List wire.Event}
      (hcall : session.call = some (.receiving req parser ⟨.Ok, [], []⟩))
      (hexchange : Exchange t req (encode_request req).length parser.buffer_ session.channel log) :
      Stage t session log

/-- The execution of the request, if it has come to that: the reply to it. -/
def performed (log : List wire.Event) : Option (Request × Bytes) :=
  log.findSome? fun event =>
    match event with
    | .executed _ req bytes => some (req, bytes)
    | _ => none

/-- What a step does that concerns the program or the store. -/
inductive Session.Turn (session : Session) (store : KVStore) (log : List wire.Event) :
    Session → KVStore → List wire.Event → Prop
  | moved {session' : Session} {log' : List wire.Event} (houtcomes : session'.outcomes = session.outcomes)
      (hlog : performed log' = performed log) : Turn session store log session' store log'
  | executed {session' : Session} {log' : List wire.Event} {call : Call} (hcall : session.call = some call)
      (houtcomes : session'.outcomes = session.outcomes) (hlog : performed log = none)
      (hlog' : performed log' = some (call.req, reply call.req (store.get call.req.key))) :
      Turn session store log session' (store.handle_request call.req).2 log'
  | returned {session' : Session} {call : Call} {bytes : Bytes} {resp : Response} (hcall : session.call = some call)
      (hlog : performed log = some (call.req, bytes)) (hreceive : receive bytes = (.Complete, resp))
      (hok : resp.type ≠ .Error) (houtcomes : session'.outcomes = session.outcomes ++ [.ok resp]) :
      Turn session store log session' store []

/-- A bound on the steps from the moment that a server has parsed a request to the
    moment that its client has the reply. -/
def kReplySteps : Nat := kMaxValueLen + 18

/-- A bound on the steps that a session can take before its next call. -/
def Session.cost (self : Session) : Nat :=
  let drain := if self.channel.served.pc = .draining then 1 else 0
  match self.call with
  | none => drain
  | some (.sending req sent) =>
    3 * ((encode_request req).length - sent) + 2 * self.channel.up.length + drain + kReplySteps
  | some (.receiving _ _ _) =>
    match self.channel.served.pc with
    | .executing _ => kReplySteps
    | .replying bytes => bytes.length + 2
    | _ =>
      if self.channel.down = [] then 2 * self.channel.up.length + drain + kReplySteps
      else self.channel.down.length + drain

/-- A bound on the steps that one request takes. -/
def toll (req : Request) : Nat := 3 * (encode_request req).length + kReplySteps + 1

/-- A bound on the steps that some requests take, one after the other. -/
def tolls (plan : List Request) : Nat := (plan.map toll).sum

/-- How many requests a session has started. -/
def Session.begun (self : Session) : Nat := self.outcomes.length + if self.call.isSome then 1 else 0

/-- A program sends these requests, as long as none fails. -/
def Follows (program : Program) (plan : List Request) : Prop :=
  ∀ outcomes : List Outcome, (∀ outcome ∈ outcomes, outcome.failed = false) → program outcomes = plan[outcomes.length]?

/-- What holds of the session of such a program, after `n` of its steps. -/
structure Kept (plan : List Request) (t n : Nat) (session : Session) (log : List wire.Event) : Prop where
  unbroken : session.channel.broken = false
  waits : session.channel.served.pc = .reading → requestFormat.decode session.channel.served.parser.buffer_ = none
  stage : session.Stage t log
  good : ∀ outcome ∈ session.outcomes, outcome.failed = false
  within : session.outcomes.length ≤ plan.length
  planned : ∀ call, session.call = some call → plan[session.outcomes.length]? = some call.req
  paid : n + session.cost + tolls (plan.drop session.begun) ≤ tolls plan

theorem length_reply_le (req : Request) {held : Option Bytes}
    (hheld : ∀ value, held = some value → value.length ≤ kMaxValueLen) :
    (reply req held).length ≤ kMaxValueLen + 15 := by
  have hshort (bytes : Bytes) (hbytes : bytes.length ≤ 15) : bytes.length ≤ kMaxValueLen + 15 := by omega
  obtain ⟨command, key, value⟩ := req
  cases command with
  | Set => exact hshort encode_ok_response (by decide)
  | Ping => exact hshort encode_pong_response (by decide)
  | Delete =>
    cases held with
    | none => exact hshort encode_not_found_response (by decide)
    | some held => exact hshort encode_deleted_response (by decide)
  | Get =>
    cases held with
    | none => exact hshort encode_not_found_response (by decide)
    | some held =>
      have hlength := hheld held rfl
      have hdigits : (to_string held.length).length ≤ 7 :=
        (length_to_string_le_iff (by decide)).mpr (by simp only [kMaxValueLen] at hlength; omega)
      have hword : (ascii "VALUE ").length = 6 := by decide
      simp only [reply, encode_value_response, List.length_append, List.length_singleton, hword]
      omega

section Steps

variable {program : Program} {plan : List Request} {t n k : Nat} {session session' : Session} {store store' : KVStore}
  {log : List wire.Event}

theorem tolls_drop {req : Request} (hreq : plan[k]? = some req) :
    tolls (plan.drop k) = toll req + tolls (plan.drop (k + 1)) := by
  obtain ⟨hlt, rfl⟩ := List.getElem?_eq_some_iff.mp hreq
  rw [List.drop_eq_getElem_cons hlt, tolls, List.map_cons, List.sum_cons]
  rfl

/-- A session that waits for its client has no whole request in its parser. -/
theorem waits_step {action : Action} {events : List wire.Event}
    (hwaits : session.channel.served.pc = .reading →
      requestFormat.decode session.channel.served.parser.buffer_ = none)
    (hstep : SessionStep program t session store action session' store' events) :
    session'.channel.served.pc = .reading →
      requestFormat.decode session'.channel.served.parser.buffer_ = none := by
  intro hpc
  rcases hstep.server with ⟨hserved, -⟩ | ⟨data, hrecv, -⟩ | ⟨events', hwork⟩
  · rw [hserved] at hpc ⊢
    exact hwaits hpc
  · unfold server.Connection.recv at hrecv
    split at hrecv
    · rw [← Option.some.inj hrecv] at hpc
      cases hpc
    · simp at hrecv
  · generalize session'.channel.served = served at hpc hwork ⊢
    cases server.ConnectionStep.of_step hwork with
    | drained _ hwait hbuffer =>
      rw [hbuffer]
      exact hwait
    | rejected => cases hpc
    | parsed => cases hpc
    | executed => cases hpc
    | replied => cases hpc

theorem Session.Stage.of_idle (hstage : session.Stage t log) (hcall : session.call = none) :
    session.channel.Idle ∧ log = [] := by
  cases hstage with
  | idle _ hidle => exact ⟨hidle, rfl⟩
  | sending hbusy => simp [hcall] at hbusy
  | receiving hbusy => simp [hcall] at hbusy

theorem Session.Stage.of_sending {req : Request} {sent : Nat} (hstage : session.Stage t log)
    (hcall : session.call = some (.sending req sent)) :
    sent < (encode_request req).length ∧ Exchange t req sent [] session.channel log := by
  cases hstage with
  | idle hnone => simp [hcall] at hnone
  | sending hbusy hsent hexchange =>
    obtain ⟨rfl, rfl⟩ := Call.sending.inj (Option.some.inj (hcall.symm.trans hbusy))
    exact ⟨hsent, hexchange⟩
  | receiving hbusy => simp [hcall] at hbusy

theorem Session.Stage.of_receiving {req : Request} {parser : ResponseParser} {resp : Response}
    (hstage : session.Stage t log) (hcall : session.call = some (.receiving req parser resp)) :
    resp = ⟨.Ok, [], []⟩ ∧ Exchange t req (encode_request req).length parser.buffer_ session.channel log := by
  cases hstage with
  | idle hnone => simp [hcall] at hnone
  | sending hbusy => simp [hcall] at hbusy
  | receiving hbusy hexchange =>
    obtain ⟨rfl, rfl, rfl⟩ := Call.receiving.inj (Option.some.inj (hcall.symm.trans hbusy))
    exact ⟨rfl, hexchange⟩

/-- A step of the program or the server that goes on with the same request. -/
theorem Kept.go_on (hkept : Kept plan t n session log) {log' : List wire.Event}
    (hunbroken : session'.channel.broken = session.channel.broken)
    (hwaits : session'.channel.served.pc = .reading →
      requestFormat.decode session'.channel.served.parser.buffer_ = none)
    (hstage : session'.Stage t log') (houtcomes : session'.outcomes = session.outcomes)
    (hcall : session'.call.map Call.req = session.call.map Call.req) (hcost : session'.cost < session.cost) :
    Kept plan t (n + 1) session' log' where
  unbroken := hunbroken.trans hkept.unbroken
  waits := hwaits
  stage := hstage
  good := houtcomes ▸ hkept.good
  within := houtcomes ▸ hkept.within
  planned := by
    intro call' hcall'
    rw [hcall'] at hcall
    obtain ⟨call, hsome, hreq⟩ := Option.map_eq_some_iff.mp hcall.symm
    rw [houtcomes, hkept.planned call hsome, hreq]
  paid := by
    have hbegun : session'.begun = session.begun := by
      have hsome := congrArg Option.isSome hcall
      simp only [Option.isSome_map] at hsome
      rw [Session.begun, Session.begun, houtcomes, hsome]
    have hpaid := hkept.paid
    rw [hbegun]
    omega

theorem Kept.begun (hkept : Kept plan t n session log) {req : Request} (hcall : session.call = none)
    (hnext : plan[session.outcomes.length]? = some req) :
    Kept plan t (n + 1) { session with call := some (.sending req 0) } [.transmitted t req] := by
  obtain ⟨hidle, -⟩ := hkept.stage.of_idle hcall
  refine ⟨hkept.unbroken, hkept.waits, ?_, hkept.good, hkept.within, ?_, ?_⟩
  · exact .sending rfl (List.length_pos_iff.mpr (encode_request_ne_nil req)) (hidle.start t req)
  · rintro call ⟨⟩
    exact hnext
  · have hpaid := hkept.paid
    simp only [Session.begun, Session.cost, hcall, Option.isSome_none, Option.isSome_some, hidle.up,
      Bool.false_eq_true, ↓reduceIte, Nat.add_zero, tolls_drop hnext, toll, List.length_nil] at hpaid ⊢
    omega

/-- While some of the request is unwritten, the server has not got all of it. -/
theorem exchange_sending {req : Request} {sent : Nat} {channel : Channel} (hunbroken : channel.broken = false)
    (hsent : sent < (encode_request req).length) (hexchange : Exchange t req sent [] channel log) :
    (channel.served.pc = .reading ∨ channel.served.pc = .draining) ∧ channel.down = [] ∧
      channel.served.parser.buffer_ ++ channel.up = (encode_request req).take sent ∧ performed log = none := by
  cases hexchange with
  | sending hpc _ hdown _ hwhole => exact ⟨hpc, hdown, hwhole hunbroken, rfl⟩
  | parsed _ hall => omega
  | executed _ _ hall => omega
  | replied _ _ hall => omega
  | lost _ hbroken => simp [hunbroken] at hbroken

/-- What is written arrives. -/
theorem Kept.push_eq (hkept : Kept plan t n session log) (data : Bytes) :
    session.channel.push data = { session.channel with up := session.channel.up ++ data } := by
  simp [Channel.push, hkept.unbroken]

theorem length_written {req : Request} {sent : Nat} (hroom : sent + k ≤ (encode_request req).length) :
    (((encode_request req).drop sent).take k).length = k := by
  rw [List.length_take, List.length_drop]
  omega

theorem Kept.wrote (hkept : Kept plan t n session log) {req : Request} {sent : Nat}
    (hcall : session.call = some (.sending req sent)) (hpos : 0 < k) (hmore : sent + k < (encode_request req).length) :
    Kept plan t (n + 1)
      { session with
        call := some (.sending req (sent + k))
        channel := session.channel.push (((encode_request req).drop sent).take k) } log := by
  obtain ⟨_, hexchange⟩ := hkept.stage.of_sending hcall
  have hpush := hexchange.push hpos hmore.le
  rw [hkept.push_eq] at hpush ⊢
  refine hkept.go_on rfl hkept.waits (.sending rfl hmore hpush) rfl ?_ ?_
  · simp [hcall, Call.req]
  · simp only [Session.cost, hcall, List.length_append, length_written hmore.le]
    omega

theorem Kept.sent (hkept : Kept plan t n session log) {req : Request} {sent : Nat}
    (hcall : session.call = some (.sending req sent)) (hpos : 0 < k) (hall : sent + k = (encode_request req).length) :
    Kept plan t (n + 1)
      { session with
        call := some (.receiving req {} ⟨.Ok, [], []⟩)
        channel := session.channel.push (((encode_request req).drop sent).take k) } log := by
  obtain ⟨hsent, hexchange⟩ := hkept.stage.of_sending hcall
  obtain ⟨hpc, hdown, -, -⟩ := exchange_sending hkept.unbroken hsent hexchange
  have hpush := hexchange.push hpos hall.le
  rw [hkept.push_eq] at hpush ⊢
  refine hkept.go_on rfl hkept.waits (.receiving rfl (hall ▸ hpush)) rfl ?_ ?_
  · simp [hcall, Call.req]
  · rcases hpc with hpc | hpc <;>
      simp only [Session.cost, hcall, hpc, hdown, List.length_append, length_written hall.le, ↓reduceIte,
        reduceCtorEq] <;>
      omega

/-- Once the reply is on its way, all of it is, and the server rests. -/
theorem exchange_replied {req : Request} {sent : Nat} {arrived : Bytes} {channel : Channel}
    (hunbroken : channel.broken = false) (hdown : channel.down ≠ [])
    (hexchange : Exchange t req sent arrived channel log) :
    (channel.served.pc = .reading ∨ channel.served.pc = .draining) ∧ channel.up = [] := by
  cases hexchange with
  | sending _ _ hnone => exact absurd hnone hdown
  | parsed _ _ _ hnone => exact absurd hnone hdown
  | executed _ _ _ _ hnone => exact absurd hnone hdown
  | lost _ hbroken => simp [hunbroken] at hbroken
  | replied _ hquiet _ _ _ hup => exact ⟨hquiet.imp_right (·.resolve_right fun h => by simp [hunbroken] at h), hup⟩

/-- A session that reads is done with all but the rest of the reply. -/
theorem Kept.cost_reading (hkept : Kept plan t n session log) {req : Request} {parser : ResponseParser}
    {resp : Response} (hcall : session.call = some (.receiving req parser resp))
    (hsome : 0 < (session.channel.down.take k).length) :
    (session.channel.served.pc = .reading ∨ session.channel.served.pc = .draining) ∧
      session.cost = session.channel.down.length + (if session.channel.served.pc = .draining then 1 else 0) ∧
      (session.channel.down.drop k).length < session.channel.down.length := by
  have hdown : session.channel.down ≠ [] := by
    rintro hnone
    simp [hnone] at hsome
  obtain ⟨hpc, -⟩ := exchange_replied hkept.unbroken hdown (hkept.stage.of_receiving hcall).2
  refine ⟨hpc, ?_, ?_⟩
  · rcases hpc with hpc | hpc <;> simp [Session.cost, hcall, hpc, hdown]
  · rw [List.length_take] at hsome
    rw [List.length_drop]
    omega

theorem Kept.waited (hkept : Kept plan t n session log) {req : Request} {parser parser' : ResponseParser}
    {resp : Response} (hcall : session.call = some (.receiving req parser resp))
    (hsome : 0 < (session.channel.down.take k).length) (hrest : session.channel.down.drop k ≠ [])
    (hexchange : Exchange t req (encode_request req).length parser'.buffer_
      { session.channel with down := session.channel.down.drop k } log) :
    Kept plan t (n + 1)
      { session with
        call := some (.receiving req parser' ⟨.Ok, [], []⟩)
        channel := { session.channel with down := session.channel.down.drop k } } log := by
  obtain ⟨hpc, hcost, hless⟩ := hkept.cost_reading hcall hsome
  refine hkept.go_on rfl hkept.waits (.receiving rfl hexchange) rfl ?_ ?_
  · simp [hcall, Call.req]
  · rw [hcost]
    rcases hpc with hpc | hpc <;> simpa [Session.cost, hpc, hrest] using hless

theorem Kept.returned (hkept : Kept plan t n session log) {req : Request} {parser : ResponseParser}
    {resp resp' : Response} (hcall : session.call = some (.receiving req parser resp))
    (hsome : 0 < (session.channel.down.take k).length) (htype : resp'.type ≠ .Error)
    (hidle : ({ session.channel with down := session.channel.down.drop k } : Channel).Idle) :
    Kept plan t (n + 1)
      (Session.returns { session with channel := { session.channel with down := session.channel.down.drop k } }
        (.ok resp')) [] := by
  obtain ⟨hpc, hcost, hless⟩ := hkept.cost_reading hcall hsome
  refine ⟨hkept.unbroken, hkept.waits, .idle rfl hidle, ?_, ?_, nofun, ?_⟩
  · intro outcome hmem
    rcases List.mem_append.mp hmem with hmem | hmem
    · exact hkept.good outcome hmem
    · simpa [List.mem_singleton.mp hmem, Outcome.failed] using htype
  · obtain ⟨hlt, -⟩ := List.getElem?_eq_some_iff.mp (hkept.planned _ hcall)
    simp only [Session.returns, List.length_append, List.length_singleton]
    omega
  · have hpaid := hkept.paid
    rw [hcost] at hpaid
    rcases hpc with hpc | hpc <;>
      simp only [Session.begun, Session.cost, Session.returns, hcall, hpc, Option.isSome_some,
        Option.isSome_none, Bool.false_eq_true, reduceCtorEq, ↓reduceIte, List.length_append,
        List.length_singleton, Nat.add_zero] at hpaid ⊢ <;>
      omega

/-- The server reads only bytes of the request that it waits for. -/
theorem Kept.serve (hkept : Kept plan t n session log) {k : Nat} {channel : Channel}
    (hserve : session.channel.serve k = some channel) : Kept plan t (n + 1) { session with channel } log := by
  obtain ⟨hpc, hsome, rfl⟩ := Channel.serve_eq hserve
  have hless : 2 * (session.channel.up.drop k).length + 1 < 2 * session.channel.up.length := by
    rw [List.length_take] at hsome
    rw [List.length_drop]
    omega
  have hnone {log' : List wire.Event} {req : Request} {sent : Nat} {arrived : Bytes}
      (hexchange : Exchange t req sent arrived session.channel log') : session.channel.down = [] := by
    by_contra hdown
    simp [(exchange_replied hkept.unbroken hdown hexchange).2] at hsome
  refine hkept.go_on rfl nofun ?_ rfl rfl ?_
  · cases hkept.stage with
    | idle hcall hidle => exact .idle hcall (hidle.serve hserve)
    | sending hcall hsent hexchange => exact .sending hcall hsent (hexchange.serve hserve)
    | receiving hcall hexchange => exact .receiving hcall (hexchange.serve hserve)
  · cases hkept.stage with
    | idle hcall hidle => simp [hidle.up] at hsome
    | sending hcall hsent hexchange =>
      simp only [Session.cost, hcall, hpc, reduceCtorEq, ↓reduceIte]
      omega
    | receiving hcall hexchange =>
      simp only [Session.cost, hcall, hpc, hnone hexchange, reduceCtorEq, ↓reduceIte]
      omega

theorem draining_of_work {channel channel' : Channel} {events : List wire.Event}
    (hmove : WorkMove t channel store channel' store' events)
    (hpc : channel.served.pc = .reading ∨ channel.served.pc = .draining) : channel.served.pc = .draining := by
  refine hpc.resolve_left fun hreading => ?_
  cases hmove <;> simp_all

theorem performed_append_parsed (log : List wire.Event) (req : Request) :
    performed (log ++ [.parsed t req]) = performed log := by
  simp [performed, List.findSome?_append]

/-- A step of the server towards the reply: it parses the request, executes it, or
    sends the reply. -/
theorem Kept.work_receiving (hkept : Kept plan t n session log) {req : Request} {parser : ResponseParser}
    (hcall : session.call = some (.receiving req parser ⟨.Ok, [], []⟩)) (hwf : req.WellFormed)
    (hexchange : Exchange t req (encode_request req).length parser.buffer_ session.channel log)
    (hvalues : store.Bounded) {channel : Channel} {events : List wire.Event}
    (hmove : WorkMove t session.channel store channel store' events)
    (hwaits : channel.served.pc = .reading → requestFormat.decode channel.served.parser.buffer_ = none) :
    ∃ log', session.Turn store log { session with channel } store' log' ∧
      Kept plan t (n + 1) { session with channel } log' := by
  obtain ⟨hexchange', -, -⟩ := hexchange.work hwf hvalues hmove
  have hstage : Session.Stage t { session with channel } (log ++ events) := .receiving hcall hexchange'
  cases hexchange with
  | sending hpc harrived hdown hpart hwhole =>
    have hdraining := draining_of_work hmove hpc
    by_cases hfull : session.channel.served.parser.buffer_ = encode_request req
    · obtain ⟨rfl, rfl, rfl⟩ := hmove.parses hpc hwf hfull
      refine ⟨_, .moved rfl (performed_append_parsed _ _), hkept.go_on rfl hwaits hstage rfl rfl ?_⟩
      simp only [Session.cost, hcall, hdown, hdraining, ↓reduceIte]
      omega
    · have hcut := try_parse_request_part hwf ((List.prefix_append _ _).trans (hpart.trans (List.take_prefix _ _)))
        hfull session.channel.served.req
      obtain ⟨rfl, rfl, rfl⟩ := hmove.waits hcut (by simp [hdraining]) (by simp [hdraining])
      refine ⟨_, .moved rfl (by simp), hkept.go_on rfl hwaits hstage rfl rfl ?_⟩
      simp only [Session.cost, hcall, hdown, hdraining, reduceCtorEq, ↓reduceIte]
      omega
  | parsed hpc =>
    obtain ⟨rfl, rfl, rfl⟩ := hmove.executes hpc
    have hlength := length_reply_le req (hvalues req.key)
    refine ⟨_, .executed hcall rfl rfl rfl, hkept.go_on rfl hwaits hstage rfl rfl ?_⟩
    simp only [Session.cost, hcall, hpc, kReplySteps]
    omega
  | executed _ hpc _ _ hdown =>
    obtain ⟨rfl, rfl, rfl⟩ := hmove.replies hpc
    refine ⟨_, .moved rfl (by rfl), hkept.go_on rfl hwaits hstage rfl rfl ?_⟩
    simp [Session.cost, hcall, hpc, hdown, hkept.unbroken, reply_ne_nil]
  | replied _ hquiet _ _ hwhole _ hbuffer =>
    have hdraining := draining_of_work hmove (hquiet.imp_right
      (·.resolve_right fun h => by simp [hkept.unbroken] at h))
    obtain ⟨rfl, rfl, rfl⟩ := hquiet.waits hbuffer hmove
    refine ⟨_, .moved rfl (by simp), hkept.go_on rfl hwaits hstage rfl rfl ?_⟩
    simp [Session.cost, hcall, hdraining, (hwhole hkept.unbroken).2]
  | lost _ hbroken => simp [hkept.unbroken] at hbroken

theorem Kept.work (hkept : Kept plan t n session log) (hwf : ∀ req ∈ plan, req.WellFormed) (hvalues : store.Bounded)
    {channel : Channel} {events : List wire.Event} (hmove : WorkMove t session.channel store channel store' events)
    (hwaits : channel.served.pc = .reading → requestFormat.decode channel.served.parser.buffer_ = none) :
    ∃ log', session.Turn store log { session with channel } store' log' ∧
      Kept plan t (n + 1) { session with channel } log' := by
  have hrequest {call : Call} (hcall : session.call = some call) : call.req.WellFormed :=
    hwf _ (List.mem_of_getElem? (hkept.planned call hcall))
  cases hkept.stage with
  | idle hcall hidle =>
    have hdraining := draining_of_work hmove
      (hidle.quiet.imp_right (·.resolve_right fun h => by simp [hkept.unbroken] at h))
    obtain ⟨rfl, rfl, rfl⟩ := hidle.quiet.waits hidle.buffer hmove
    refine ⟨[], .moved rfl rfl, hkept.go_on rfl hwaits (.idle hcall ?_) rfl rfl ?_⟩
    · exact ⟨.inl rfl, hidle.buffer, hidle.up, hidle.down⟩
    · simp [Session.cost, hcall, hdraining]
  | @sending req sent _ hcall hsent hexchange =>
    obtain ⟨hpc, -, hpart, -⟩ := exchange_sending hkept.unbroken hsent hexchange
    have hdraining := draining_of_work hmove hpc
    have hwithin : session.channel.served.parser.buffer_ <+: (encode_request req).take sent :=
      hpart ▸ List.prefix_append _ _
    have hshort : session.channel.served.parser.buffer_ ≠ encode_request req := by
      intro hwhole
      have hle := hwithin.length_le
      rw [hwhole, List.length_take] at hle
      omega
    obtain ⟨hexchange', -, -⟩ := hexchange.work (hrequest hcall) hvalues hmove
    obtain ⟨rfl, rfl, rfl⟩ := hmove.waits
      (try_parse_request_part (hrequest hcall) (hwithin.trans (List.take_prefix _ _)) hshort _)
      (by simp [hdraining]) (by simp [hdraining])
    refine ⟨_, .moved rfl (by simp), hkept.go_on rfl hwaits (.sending hcall hsent hexchange') rfl rfl ?_⟩
    simp only [Session.cost, hcall, hdraining, reduceCtorEq, ↓reduceIte]
    omega
  | receiving hcall hexchange => exact hkept.work_receiving hcall (hrequest hcall) hexchange hvalues hmove hwaits

/-- Every step keeps the session in order, unless the program leaves the plan. -/
theorem Kept.step {action : Action} {events : List wire.Event} (hkept : Kept plan t n session log)
    (hfollows : action = .begin → program session.outcomes = plan[session.outcomes.length]?)
    (hwf : ∀ req ∈ plan, req.WellFormed) (hvalues : store.Bounded)
    (hstep : SessionStep program t session store action session' store' events) :
    ∃ log', session.Turn store log session' store' log' ∧ Kept plan t (n + 1) session' log' := by
  have hwaits := waits_step hkept.waits hstep
  cases hstep with
  | begun hcall hnext =>
    obtain ⟨-, rfl⟩ := hkept.stage.of_idle hcall
    exact ⟨[.transmitted t _], .moved rfl rfl, hkept.begun hcall ((hfollows rfl).symm.trans hnext)⟩
  | wrote hcall hpos hmore => exact ⟨log, .moved rfl rfl, hkept.wrote hcall hpos hmore⟩
  | sent hcall hpos hall => exact ⟨log, .moved rfl rfl, hkept.sent hcall hpos hall⟩
  | returned hcall hroom hparse =>
    obtain ⟨rfl, hexchange⟩ := hkept.stage.of_receiving hcall
    rcases hexchange.read hroom.1 with ⟨_, hcalled, _⟩ | ⟨bytes, _, _, hcalled, hidle, rfl, hreceive, -, htype⟩
    · simp [hparse] at hcalled
    · obtain ⟨-, rfl, rfl⟩ : _ ∧ _ ∧ _ := by simpa only [Prod.mk.injEq] using hparse.symm.trans hcalled
      exact ⟨[], .returned hcall rfl hreceive htype rfl, hkept.returned hcall hroom.1 htype hidle⟩
  | threw hcall hroom hparse =>
    obtain ⟨rfl, hexchange⟩ := hkept.stage.of_receiving hcall
    rcases hexchange.read hroom.1 with ⟨_, hcalled, _⟩ | ⟨_, _, _, hcalled, _⟩ <;> simp [hparse] at hcalled
  | waited hcall hroom hparse =>
    obtain ⟨rfl, hexchange⟩ := hkept.stage.of_receiving hcall
    rcases hexchange.read hroom.1 with ⟨_, hcalled, hexchange', hmore⟩ | ⟨_, _, _, hcalled, _⟩
    · obtain ⟨-, rfl, rfl⟩ : _ ∧ _ ∧ _ := by simpa only [Prod.mk.injEq] using hparse.symm.trans hcalled
      exact ⟨log, .moved rfl rfl, hkept.waited hcall hroom.1 (hmore hkept.unbroken) hexchange'⟩
    · simp [hparse] at hcalled
  | served hserve => exact ⟨log, .moved rfl rfl, hkept.serve hserve⟩
  | worked hwork => exact hkept.work hwf hvalues (Channel.work_move hwork) hwaits

theorem kept_init (plan : List Request) (t : Nat) : Kept plan t 0 {} [] where
  unbroken := rfl
  waits := fun _ => LineFormat.decode_nil
  stage := .idle rfl ⟨.inl rfl, rfl, rfl, rfl⟩
  good := nofun
  within := Nat.zero_le _
  planned := nofun
  paid := by simp [Session.cost, Session.begun]

/-- Nothing is left for the server to do or to read, nothing has come that the program
    waits for, and the program has nothing to write and no call to make. -/
structure Session.Resting (program : Program) (session : Session) : Prop where
  server : session.channel.served.Idle
  up : session.channel.served.pc = .reading → session.channel.up = []
  down : ∀ req parser resp, session.call = some (.receiving req parser resp) → session.channel.down = []
  written : ∀ req sent, session.call = some (.sending req sent) → (encode_request req).length ≤ sent
  next : session.call = none → program session.outcomes = none

theorem Session.resting_of_stuck (hstuck : ∀ action, session.step program t store action = none) :
    session.Resting program where
  server := by
    by_contra hbusy
    obtain ⟨_, _, _, hserved⟩ := server.Connection.exists_step KVStore.handle_request t store hbusy
    simpa [Session.step, Channel.work, hserved] using hstuck .work
  up := by
    intro hpc
    cases hup : session.channel.up with
    | nil => rfl
    | cons c up =>
      simpa [Session.step, Channel.serve, server.Connection.recv, hpc, hup, kReadSize] using hstuck (.serve 1)
  down := by
    intro req parser resp hcall
    cases hdown : session.channel.down with
    | nil => rfl
    | cons c down =>
      have hread := hstuck (.read 1)
      simp only [Session.step, Session.read, hcall, hdown, kResponseReadSize, Option.map_eq_none_iff] at hread
      split at hread
      · split at hread <;> simp at hread
      · simp at *
  written := by
    intro req sent hcall
    by_contra hlt
    have hroom : 0 < 1 ∧ sent + 1 ≤ (encode_request req).length := by omega
    simpa [Session.step, Session.write, hcall, hroom] using hstuck (.write 1)
  next := by
    intro hcall
    cases hnext : program session.outcomes with
    | none => rfl
    | some req => simpa [Session.step, Session.begin, hcall, hnext] using hstuck .begin

theorem Session.Resting.stuck (hresting : session.Resting program) (action : Action) :
    session.step program t store action = none := by
  obtain ⟨hserver, hup, hdown, hwritten, hnext⟩ := hresting
  cases action with
  | begin =>
    cases hcall : session.call with
    | none => simp [Session.step, Session.begin, hcall, hnext hcall]
    | some call => simp [Session.step, Session.begin, hcall]
  | write n =>
    cases hcall : session.call with
    | none => simp [Session.step, Session.write, hcall]
    | some call =>
      cases call with
      | sending req sent =>
        have hroom : ¬ (0 < n ∧ sent + n ≤ (encode_request req).length) := by
          have hle := hwritten req sent hcall
          omega
        simp [Session.step, Session.write, hcall, hroom]
      | receiving req parser resp => simp [Session.step, Session.write, hcall]
  | read n =>
    cases hcall : session.call with
    | none => simp [Session.step, Session.read, hcall]
    | some call =>
      cases call with
      | sending req sent => simp [Session.step, Session.read, hcall]
      | receiving req parser resp => simp [Session.step, Session.read, hcall, hdown req parser resp hcall]
  | serve n =>
    rcases hserver with hpc | hpc
    · simp [Session.step, Channel.serve, server.Connection.recv, hup hpc]
    · simp [Session.step, Channel.serve, server.Connection.recv, hpc]
  | work => rcases hserver with hpc | hpc <;> simp [Session.step, Channel.work, server.Connection.step, hpc]

/-- A session that can take no step has made all its calls. -/
theorem Kept.finished (hkept : Kept plan t n session log) (hfollows : Follows program plan)
    (hwf : ∀ req ∈ plan, req.WellFormed) (hstuck : ∀ action, session.step program t store action = none) :
    session.call = none ∧ session.outcomes.length = plan.length := by
  obtain ⟨hresting, hup, hdown, hwritten, hnext⟩ := Session.resting_of_stuck hstuck
  cases hkept.stage with
  | idle hcall =>
    have hlast := hnext hcall
    rw [hfollows _ hkept.good, List.getElem?_eq_none_iff] at hlast
    exact ⟨hcall, Nat.le_antisymm hkept.within hlast⟩
  | sending hcall hsent => exact absurd (hwritten _ _ hcall) (Nat.not_le_of_lt hsent)
  | receiving hcall hexchange =>
    cases hexchange with
    | parsed hpc => simp [server.Connection.Idle, hpc] at hresting
    | executed _ hpc => simp [server.Connection.Idle, hpc] at hresting
    | replied _ _ _ _ hwhole => exact absurd (hdown _ _ _ hcall) (hwhole hkept.unbroken).2
    | lost _ hbroken => simp [hkept.unbroken] at hbroken
    | @sending hpc _ _ _ hwhole =>
      have hreading : session.channel.served.pc = .reading :=
        hresting.resolve_right fun hclosed => by simp [hclosed] at hpc
      have hbuffer := hwhole hkept.unbroken
      rw [hup hreading, List.append_nil, List.take_length] at hbuffer
      have hdecode := inverts_encode_request.whole _ (hwf _ (List.mem_of_getElem? (hkept.planned _ hcall))) []
      rw [List.append_nil, Call.req, ← hbuffer, hkept.waits hreading] at hdecode
      cases hdecode

end Steps

/-- A program that sends requests which the protocol can carry, one after the other,
    shares the server with any others. -/
theorem exists_kept {programs : Nat → Program} {plan : List Request} {t : Nat} (hfollows : Follows (programs t) plan)
    (hwf : ∀ req ∈ plan, req.WellFormed) {store : KVStore} (hstore : store.Bounded) {P : Nat × Action → Prop}
    {log : List (Step Network (Nat × Action) wire.Event)} {s : Network}
    (hrun : Run (network programs store).logged P (network programs store).init log s) :
    ∃ exchanged, Kept plan t (steps t log) (s.sessions t) exchanged := by
  refine session_invariant (I := fun n session _ => ∃ exchanged, Kept plan t n session exchanged)
    ⟨[], kept_init plan t⟩ ?_ (fun _ _ _ _ _ _ _ hkept => hkept) hrun
  rintro n session store action session' store' events hvalues ⟨exchanged, hkept⟩ hstep
  obtain ⟨exchanged', -, hkept'⟩ := hkept.step (fun _ => hfollows _ hkept.good) hwf (hvalues hstore) hstep
  exact ⟨exchanged', hkept'⟩

end kv.client
