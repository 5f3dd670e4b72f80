import Kv.Router.SendRequest
import Kv.Server.Values
import Kv.Wire.Channel

namespace kv.client

open protocol Transition

/-- What a call of `send_request` comes to: a response, or the text of an exception. -/
abbrev Outcome := Except Bytes Response

/-- An exception, or an `ERROR`. -/
def Outcome.failed : Outcome → Bool
  | .error _ => true
  | .ok resp => resp.type = .Error

/-- A program that sends requests over one connection: what its calls of
    `send_request` have come to decides which one it makes next, if any. -/
abbrev Program := List Outcome → Option Request

/-- Where a program stands in `send_request`: it has written some of the request, or
    it has fed some of the reply to the parser. -/
inductive Call
  | sending (req : Request) (sent : Nat)
  | receiving (req : Request) (parser : ResponseParser) (resp : Response)

def Call.req : Call → Request
  | .sending req _ => req
  | .receiving req _ _ => req

/-- A program and its connection. -/
structure Session where
  outcomes : List Outcome := []
  call : Option Call := none
  channel : wire.Channel := {}

/-- The steps of the program, and of the server on the connection. -/
inductive Action
  | begin
  | write (n : Nat)
  | read (n : Nat)
  | serve (n : Nat)
  | work

namespace Session

/-- The program calls `send_request`. -/
def begin (program : Program) (self : Session) : Option Session :=
  match self.call, program self.outcomes with
  | none, some req => some { self with call := some (.sending req 0) }
  | _, _ => none

/-- A `write`, and the start of the read loop after the last byte. -/
def write (n : Nat) (self : Session) : Option Session :=
  match self.call with
  | some (.sending req sent) =>
    let encoded := encode_request req
    if 0 < n ∧ sent + n ≤ encoded.length then
      let call := if sent + n < encoded.length then .sending req (sent + n) else .receiving req {} ⟨.Ok, [], []⟩
      some { self with call := some call, channel := self.channel.push ((encoded.drop sent).take n) }
    else none
  | _ => none

/-- `send_request` returns, or throws, and drops its parser with what it holds. -/
def returns (self : Session) (outcome : Outcome) : Session :=
  { self with outcomes := self.outcomes ++ [outcome], call := none }

/-- A `read`, and the test after it. The test before the first `read` finds nothing. -/
def read (n : Nat) (self : Session) : Option Session :=
  match self.call with
  | some (.receiving req parser resp) =>
    let data := self.channel.down.take n
    if 0 < data.length ∧ n ≤ kResponseReadSize then
      let self := { self with channel := { self.channel with down := self.channel.down.drop n } }
      match (parser.feed data).try_parse_response resp with
      | (.Complete, resp, _) => some (self.returns (.ok resp))
      | (.Error, _, parser) => some (self.returns (.error (ascii "protocol error: " ++ parser.error_message_)))
      | (.Incomplete, resp, parser) => some { self with call := some (.receiving req parser resp) }
    else none
  | _ => none

def step (program : Program) (t : Nat) (self : Session) (store : KVStore) :
    Action → Option (Session × KVStore × List wire.Event)
  | .begin => (self.begin program).map fun session => (session, store, [])
  | .write n => (self.write n).map fun session => (session, store, [])
  | .read n => (self.read n).map fun session => (session, store, [])
  | .serve n => (self.channel.serve n).map fun channel => ({ self with channel }, store, [])
  | .work => (self.channel.work t store).map fun (channel, store, events) => ({ self with channel }, store, events)

end Session

/-- Programs that use one server, each over its own connection. -/
structure Network where
  store : KVStore
  sessions : Nat → Session := fun _ => {}

/-- A step of one session. No call fails, and no connection breaks. -/
def Network.step (programs : Nat → Program) (self : Network) (label : Nat × Action) :
    Option (Network × List wire.Event) :=
  ((self.sessions label.1).step (programs label.1) label.1 self.store label.2).map fun (session, store, events) =>
    ({ store, sessions := Function.update self.sessions label.1 session }, events)

/-- Programs that start on a server with this store. -/
def network (programs : Nat → Program) (store : KVStore) : System Network (Nat × Action) wire.Event where
  init := { store }
  step := Network.step programs

/-- The server's end of the connections. -/
def Network.server (self : Network) : server.State KVStore where
  connections t := (self.sessions t).channel.served
  store := self.store

section Server

variable {program : Program} {programs : Nat → Program} {t : Nat} {session session' : Session} {store store' : KVStore}
  {action : Action} {events : List wire.Event} {s s' : Network} {label : Nat × Action}

/-- What a step of a session can be. -/
inductive SessionStep (program : Program) (t : Nat) (session : Session) (store : KVStore) :
    Action → Session → KVStore → List wire.Event → Prop
  | begun {req : Request} (hcall : session.call = none) (hnext : program session.outcomes = some req) :
      SessionStep program t session store .begin { session with call := some (.sending req 0) } store []
  | wrote {n sent : Nat} {req : Request} (hcall : session.call = some (.sending req sent)) (hpos : 0 < n)
      (hmore : sent + n < (encode_request req).length) :
      SessionStep program t session store (.write n)
        { session with
          call := some (.sending req (sent + n))
          channel := session.channel.push (((encode_request req).drop sent).take n) }
        store []
  | sent {n sent : Nat} {req : Request} (hcall : session.call = some (.sending req sent)) (hpos : 0 < n)
      (hall : sent + n = (encode_request req).length) :
      SessionStep program t session store (.write n)
        { session with
          call := some (.receiving req {} ⟨.Ok, [], []⟩)
          channel := session.channel.push (((encode_request req).drop sent).take n) }
        store []
  | returned {n : Nat} {req : Request} {parser parser' : ResponseParser} {resp resp' : Response}
      (hcall : session.call = some (.receiving req parser resp))
      (hroom : 0 < (session.channel.down.take n).length ∧ n ≤ kResponseReadSize)
      (hparse : (parser.feed (session.channel.down.take n)).try_parse_response resp = (.Complete, resp', parser')) :
      SessionStep program t session store (.read n)
        (Session.returns { session with channel := { session.channel with down := session.channel.down.drop n } }
          (.ok resp'))
        store []
  | threw {n : Nat} {req : Request} {parser parser' : ResponseParser} {resp resp' : Response}
      (hcall : session.call = some (.receiving req parser resp))
      (hroom : 0 < (session.channel.down.take n).length ∧ n ≤ kResponseReadSize)
      (hparse : (parser.feed (session.channel.down.take n)).try_parse_response resp = (.Error, resp', parser')) :
      SessionStep program t session store (.read n)
        (Session.returns { session with channel := { session.channel with down := session.channel.down.drop n } }
          (.error (ascii "protocol error: " ++ parser'.error_message_)))
        store []
  | waited {n : Nat} {req : Request} {parser parser' : ResponseParser} {resp resp' : Response}
      (hcall : session.call = some (.receiving req parser resp))
      (hroom : 0 < (session.channel.down.take n).length ∧ n ≤ kResponseReadSize)
      (hparse : (parser.feed (session.channel.down.take n)).try_parse_response resp = (.Incomplete, resp', parser')) :
      SessionStep program t session store (.read n)
        { session with
          call := some (.receiving req parser' resp')
          channel := { session.channel with down := session.channel.down.drop n } }
        store []
  | served {n : Nat} {channel : wire.Channel} (hserve : session.channel.serve n = some channel) :
      SessionStep program t session store (.serve n) { session with channel } store []
  | worked {channel : wire.Channel} {store' : KVStore} {events : List wire.Event}
      (hwork : session.channel.work t store = some (channel, store', events)) :
      SessionStep program t session store .work { session with channel } store' events

theorem SessionStep.of_step (hstep : session.step program t store action = some (session', store', events)) :
    SessionStep program t session store action session' store' events := by
  cases action with
  | begin =>
    obtain ⟨_, hbegin, heq⟩ := Option.map_eq_some_iff.mp hstep
    obtain ⟨rfl, rfl, rfl⟩ : _ ∧ _ ∧ _ := by simpa only [Prod.mk.injEq] using heq
    unfold Session.begin at hbegin
    split at hbegin
    · next hcall hnext =>
      obtain rfl := Option.some.inj hbegin
      exact .begun hcall hnext
    · simp at hbegin
  | write n =>
    obtain ⟨_, hwrite, heq⟩ := Option.map_eq_some_iff.mp hstep
    obtain ⟨rfl, rfl, rfl⟩ : _ ∧ _ ∧ _ := by simpa only [Prod.mk.injEq] using heq
    unfold Session.write at hwrite
    split at hwrite
    · next req sent hcall =>
      dsimp only at hwrite
      split at hwrite
      · next hroom =>
        obtain rfl := Option.some.inj hwrite
        split
        · next hmore => exact .wrote hcall hroom.1 hmore
        · exact .sent hcall hroom.1 (by omega)
      · simp at hwrite
    · simp at hwrite
  | read n =>
    obtain ⟨_, hread, heq⟩ := Option.map_eq_some_iff.mp hstep
    obtain ⟨rfl, rfl, rfl⟩ : _ ∧ _ ∧ _ := by simpa only [Prod.mk.injEq] using heq
    unfold Session.read at hread
    split at hread
    · next hcall =>
      dsimp only at hread
      split at hread
      · next hroom =>
        split at hread
        · next hparse =>
          obtain rfl := Option.some.inj hread
          exact .returned hcall hroom hparse
        · next hparse =>
          obtain rfl := Option.some.inj hread
          exact .threw hcall hroom hparse
        · next hparse =>
          obtain rfl := Option.some.inj hread
          exact .waited hcall hroom hparse
      · simp at hread
    · simp at hread
  | serve n =>
    obtain ⟨_, hserve, heq⟩ := Option.map_eq_some_iff.mp hstep
    obtain ⟨rfl, rfl, rfl⟩ : _ ∧ _ ∧ _ := by simpa only [Prod.mk.injEq] using heq
    exact .served hserve
  | work =>
    obtain ⟨⟨_, _, _⟩, hwork, heq⟩ := Option.map_eq_some_iff.mp hstep
    obtain ⟨rfl, rfl, rfl⟩ : _ ∧ _ ∧ _ := by simpa only [Prod.mk.injEq] using heq
    exact .worked hwork

/-- A step leaves the server alone, or is one of its steps on the connection. -/
theorem SessionStep.server (hstep : SessionStep program t session store action session' store' events) :
    (session'.channel.served = session.channel.served ∧ store' = store) ∨
    (∃ data, session.channel.served.recv data = some session'.channel.served ∧ store' = store) ∨
    ∃ events, session.channel.served.step KVStore.handle_request t store =
      some (session'.channel.served, store', events) := by
  have hpush (data : Bytes) : (session.channel.push data).served = session.channel.served := by
    rw [wire.Channel.push]
    split <;> rfl
  cases hstep with
  | begun => exact .inl ⟨rfl, rfl⟩
  | wrote => exact .inl ⟨hpush _, rfl⟩
  | sent => exact .inl ⟨hpush _, rfl⟩
  | returned => exact .inl ⟨rfl, rfl⟩
  | threw => exact .inl ⟨rfl, rfl⟩
  | waited => exact .inl ⟨rfl, rfl⟩
  | served hserve =>
    obtain ⟨served, hrecv, rfl⟩ := Option.map_eq_some_iff.mp hserve
    exact .inr (.inl ⟨_, hrecv, rfl⟩)
  | worked hwork =>
    obtain ⟨⟨_, _, _⟩, hserved, heq⟩ := Option.map_eq_some_iff.mp hwork
    obtain ⟨rfl, rfl, -⟩ : _ ∧ _ ∧ _ := by simpa only [Prod.mk.injEq] using heq
    exact .inr (.inr ⟨_, hserved⟩)

theorem Network.step_eq (hstep : s.step programs label = some (s', events)) :
    ∃ session store',
      SessionStep (programs label.1) label.1 (s.sessions label.1) s.store label.2 session store' events ∧
      s' = { store := store', sessions := Function.update s.sessions label.1 session } := by
  obtain ⟨⟨session, store', _⟩, htaken, heq⟩ := Option.map_eq_some_iff.mp hstep
  obtain ⟨rfl, rfl⟩ := Prod.mk.inj heq
  exact ⟨session, store', .of_step htaken, rfl⟩

theorem Network.server_update (s : Network) (t : Nat) (session : Session) (store' : KVStore) :
    Network.server { store := store', sessions := Function.update s.sessions t session } =
      { s.server.setConnection t session.channel.served with store := store' } := by
  simp only [Network.server, server.State.setConnection, server.State.mk.injEq, and_true]
  funext t'
  exact Function.apply_update (fun _ (session : Session) => session.channel.served) ..

theorem Network.server_step (hstep : s.step programs label = some (s', events)) :
    s'.server = s.server ∨
      ∃ label events, server.step KVStore.handle_request s.server label = some (s'.server, events) := by
  obtain ⟨session, store', htaken, rfl⟩ := step_eq hstep
  rw [server_update]
  rcases htaken.server with ⟨hserved, rfl⟩ | ⟨data, hrecv, rfl⟩ | ⟨events', hwork⟩
  · left
    rw [show session.channel.served = s.server.connections label.1 from hserved, server.State.setConnection,
      Function.update_eq_self]
    rfl
  · exact .inr ⟨.recv label.1 data, _, Option.map_eq_some_iff.mpr ⟨_, hrecv, rfl⟩⟩
  · exact .inr ⟨.step label.1, _, Option.map_eq_some_iff.mpr ⟨_, hwork, rfl⟩⟩

/-- What happens at the server's end is a run of the server. -/
theorem exists_server_run {P : Nat × Action → Prop} {trace : List wire.Event}
    (hrun : Run (network programs store) P (network programs store).init trace s) :
    ∃ trace', Run (server.system KVStore.handle_request store) (fun _ => True)
      (server.system KVStore.handle_request store).init trace' s.server := by
  induction hrun with
  | nil => exact ⟨[], .nil⟩
  | snoc _ _ hstep ih =>
    obtain ⟨trace', hserver⟩ := ih
    rcases Network.server_step hstep with hsame | ⟨label, events, hlabel⟩
    · exact ⟨trace', hsame ▸ hserver⟩
    · exact ⟨_, hserver.snoc trivial hlabel⟩

/-- How many steps a session has taken. -/
def steps (t : Nat) (log : List (Step Network (Nat × Action) wire.Event)) : Nat :=
  log.countP fun step => step.label.1 = t

/-- To show something of one session, with the number of its steps and the store, show
    that its own steps keep it, and the steps of the others. -/
theorem session_invariant {P : Nat × Action → Prop} {I : Nat → Session → KVStore → Prop} (hinit : I 0 {} store)
    (hown : ∀ n session current action session' store' events, (store.Bounded → current.Bounded) →
      I n session current →
      SessionStep (programs t) t session current action session' store' events → I (n + 1) session' store')
    (hother : ∀ label, P label → label.1 ≠ t → ∀ n session store store', I n session store → I n session store')
    {log : List (Step Network (Nat × Action) wire.Event)}
    (hrun : Run (network programs store).logged P (network programs store).init log s) :
    I (steps t log) (s.sessions t) s.store := by
  induction hrun with
  | nil => exact hinit
  | @snoc log _ s s' label hrun hlabel hstep ih =>
    obtain ⟨events, hmove, rfl⟩ := System.logged_step hstep
    obtain ⟨trace', hserver⟩ := exists_server_run hrun.of_logged
    obtain ⟨session, store', htaken, rfl⟩ := Network.step_eq hmove
    rw [steps, List.countP_append, ← steps]
    by_cases heq : label.1 = t
    · subst heq
      simpa using hown _ _ _ _ _ _ _ (fun hstore => (server.sound_of_run hstore hserver).values) ih htaken
    · simpa [heq, Function.update_of_ne (Ne.symm heq)] using hother label hlabel heq _ _ _ _ ih

end Server

section SendRequest

/-- A peer that sends these chunks first. -/
def deliver (chunks : List Bytes) (later : Nat → Bytes) (i : Nat) : Bytes :=
  match chunks, i with
  | [], i => later i
  | chunk :: _, 0 => chunk
  | _ :: chunks, i + 1 => deliver chunks later i

theorem deliver_snoc (chunks : List Bytes) (chunk : Bytes) (later : Nat → Bytes) :
    deliver (chunks ++ [chunk]) later = deliver chunks (deliver [chunk] later) := by
  funext i
  induction chunks generalizing i with
  | nil => rfl
  | cons first chunks ih =>
    cases i with
    | zero => rfl
    | succ i => exact ih i

/-- The read loop of `send_request` has read these chunks, and waits for more. -/
def Heard (chunks : List Bytes) (parser : ResponseParser) (resp : Response) : Prop :=
  parser.try_parse_response resp = (.Incomplete, resp, parser) ∧
    ∀ fuel later, stream.read_loop (fuel + chunks.length) (deliver chunks later) {} ⟨.Ok, [], []⟩ =
      (stream.read_loop fuel later parser resp).map (Prod.map id (· + chunks.length))

theorem heard_nil : Heard [] {} ⟨.Ok, [], []⟩ := by
  refine ⟨by decide, fun fuel later => ?_⟩
  have hlater : deliver [] later = later := by
    funext i
    rw [deliver]
  rw [hlater, List.length_nil, Nat.add_zero]
  cases stream.read_loop fuel later {} ⟨.Ok, [], []⟩ <;> rfl

/-- One more turn of the loop. -/
theorem Heard.turn {chunks : List Bytes} {parser : ResponseParser} {resp : Response}
    (hheard : Heard chunks parser resp)
    {data : Bytes} (hdata : data ≠ []) (hsize : data.length ≤ kResponseReadSize) (fuel : Nat) (later : Nat → Bytes) :
    stream.read_loop (fuel + (chunks ++ [data]).length) (deliver (chunks ++ [data]) later) {} ⟨.Ok, [], []⟩ =
      (stream.read_loop fuel later (parser.feed data) resp).map (Prod.map id (· + (chunks ++ [data]).length)) := by
  obtain ⟨c, rest, rfl⟩ := List.exists_cons_of_ne_nil hdata
  have hlength : fuel + (chunks ++ [c :: rest]).length = fuel + 1 + chunks.length := by
    rw [List.length_append, List.length_singleton]
    omega
  have hnow : (deliver [c :: rest] later 0).take kResponseReadSize = c :: rest := List.take_of_length_le hsize
  have hnext : (fun i => deliver [c :: rest] later (i + 1)) = later := by
    funext i
    simp [deliver]
  have hread : stream.read_loop (fuel + 1) (deliver [c :: rest] later) parser resp =
      (stream.read_loop fuel later (parser.feed (c :: rest)) resp).map (Prod.map id (· + 1)) := by
    rw [stream.read_loop, hheard.1, hnow, hnext]
    rfl
  rw [hlength, deliver_snoc, hheard.2, hread, Option.map_map, Prod.map_comp_map]
  simp only [List.length_append, List.length_singleton, Function.id_comp, Nat.add_comm chunks.length 1,
    ← Nat.add_assoc]
  rfl

/-- What holds of a session's calls. -/
structure Session.Calls (program : Program) (session : Session) : Prop where
  returned : ∀ i outcome, session.outcomes[i]? = some outcome → ∃ req fuel peer reads,
    program (session.outcomes.take i) = some req ∧ stream.send_request fuel req [] peer = some (outcome, reads)
  current : ∀ call, session.call = some call → program session.outcomes = some call.req
  heard : ∀ req parser resp, session.call = some (.receiving req parser resp) → ∃ chunks, Heard chunks parser resp

variable {program : Program} {t : Nat} {session session' : Session} {store store' : KVStore} {action : Action}
  {events : List wire.Event}

theorem Session.Calls.returns (hcalls : session.Calls program) {req : Request} {parser : ResponseParser}
    {resp : Response}
    (hcall : session.call = some (.receiving req parser resp)) {data : Bytes} (hdata : data ≠ [])
    (hsize : data.length ≤ kResponseReadSize) {outcome : Outcome}
    (houtcome : stream.read_loop 1 (fun _ => []) (parser.feed data) resp = some (outcome, 0))
    (channel : wire.Channel) :
    (Session.returns { session with channel } outcome).Calls program where
  returned := by
    intro i found hfound
    rw [Session.returns] at hfound ⊢
    by_cases hold : i < session.outcomes.length
    · rw [List.getElem?_append_left hold] at hfound
      rw [List.take_append_of_le_length hold.le]
      exact hcalls.returned i found hfound
    · have hi : i = session.outcomes.length := by
        have hlt := (List.getElem?_eq_some_iff.mp hfound).1
        simp only [List.length_append, List.length_singleton] at hlt
        omega
      subst hi
      rw [List.getElem?_concat_length, Option.some.injEq] at hfound
      subst hfound
      obtain ⟨chunks, hheard⟩ := hcalls.heard req parser resp hcall
      have hturn := hheard.turn hdata hsize 1 fun _ => []
      rw [houtcome] at hturn
      have hwrites : ∀ call ∈ ([] : List Syscall), call.fails = false := by simp
      obtain ⟨left, hwritten⟩ := write_loop_complete (fun _ => ascii "failed to write request") hwrites
        (encode_request req)
      have hsend :
          stream.send_request (1 + (chunks ++ [data]).length) req [] (deliver (chunks ++ [data]) fun _ => []) =
          some (outcome, 0 + (chunks ++ [data]).length) := by
        rw [stream.send_request, hwritten]
        exact hturn
      rw [List.take_left]
      exact ⟨req, _, _, _, hcalls.current _ hcall, hsend⟩
  current := nofun
  heard := nofun

theorem Session.Calls.step (hcalls : session.Calls program)
    (hstep : SessionStep program t session store action session' store' events) : session'.Calls program := by
  have hdata {n : Nat} (hroom : 0 < (session.channel.down.take n).length ∧ n ≤ kResponseReadSize) :
      session.channel.down.take n ≠ [] ∧ (session.channel.down.take n).length ≤ kResponseReadSize :=
    ⟨List.length_pos_iff.mp hroom.1, (List.length_take_le _ _).trans hroom.2⟩
  cases hstep with
  | begun _ hnext =>
    refine ⟨hcalls.returned, ?_, nofun⟩
    rintro call ⟨⟩
    exact hnext
  | wrote hcall =>
    refine ⟨hcalls.returned, ?_, nofun⟩
    rintro call ⟨⟩
    exact (hcalls.current _ hcall :)
  | sent hcall =>
    refine ⟨hcalls.returned, ?_, ?_⟩
    · rintro call ⟨⟩
      exact (hcalls.current _ hcall :)
    · rintro req parser resp ⟨⟩
      exact ⟨[], heard_nil⟩
  | returned hcall hroom hparse =>
    exact hcalls.returns hcall (hdata hroom).1 (hdata hroom).2 (by rw [stream.read_loop, hparse]) _
  | threw hcall hroom hparse =>
    exact hcalls.returns hcall (hdata hroom).1 (hdata hroom).2 (by rw [stream.read_loop, hparse]) _
  | waited hcall hroom hparse =>
    obtain ⟨rfl, rfl⟩ := ResponseParser.eq_of_incomplete hparse
    obtain ⟨chunks, hheard⟩ := hcalls.heard _ _ _ hcall
    refine ⟨hcalls.returned, ?_, ?_⟩
    · rintro call ⟨⟩
      exact (hcalls.current _ hcall :)
    · rintro req parser resp ⟨⟩
      exact ⟨_, hparse, hheard.turn (hdata hroom).1 (hdata hroom).2⟩
  | served => exact ⟨hcalls.returned, hcalls.current, hcalls.heard⟩
  | worked => exact ⟨hcalls.returned, hcalls.current, hcalls.heard⟩

/-- Every outcome is what `send_request` comes to, on the request that the program gives
    it and with what it reads of the connection. -/
theorem send_request_of_outcome {programs : Nat → Program} {store : KVStore} {P : Nat × Action → Prop}
    {log : List (Step Network (Nat × Action) wire.Event)} {s : Network}
    (hrun : Run (network programs store).logged P (network programs store).init log s) {t i : Nat} {outcome : Outcome}
    (houtcome : (s.sessions t).outcomes[i]? = some outcome) :
    ∃ req fuel peer reads, programs t ((s.sessions t).outcomes.take i) = some req ∧
      stream.send_request fuel req [] peer = some (outcome, reads) := by
  have hcalls : (s.sessions t).Calls (programs t) :=
    session_invariant (I := fun _ session _ => session.Calls (programs t)) ⟨nofun, nofun, nofun⟩
      (fun _ _ _ _ _ _ _ _ hcalls hstep => hcalls.step hstep) (fun _ _ _ _ _ _ _ hcalls => hcalls) hrun
  exact hcalls.returned i outcome houtcome

end SendRequest

end kv.client
