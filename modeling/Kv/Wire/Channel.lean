import Kv.Wire.System

namespace kv.wire

open kv.protocol Incremental

/-- The node is not at work on the connection. It gives up only a broken one. -/
def Channel.Quiet (self : Channel) : Prop :=
  self.served.pc = .reading ∨ self.served.pc = .draining ∨ self.served.pc = .closed ∧ self.broken = true

/-- A connection with no unanswered request and no unread bytes on it. -/
structure Channel.Idle (channel : Channel) : Prop where
  quiet : channel.Quiet
  buffer : channel.served.parser.buffer_ = []
  up : channel.up = []
  down : channel.down = []

/-- How far one request has come on a connection: `sent` bytes of it are
    written, `arrived` is what the router has read of the reply, and the events
    are those of the connection since the request was started. -/
inductive Exchange (c : Nat) (req : Request) (sent : Nat) (arrived : Bytes) (channel : Channel) : List Event → Prop
  | sending (hpc : channel.served.pc = .reading ∨ channel.served.pc = .draining) (harrived : arrived = [])
      (hdown : channel.down = [])
      (hpart : channel.served.parser.buffer_ ++ channel.up <+: (encode_request req).take sent)
      (hwhole : channel.broken = false →
        channel.served.parser.buffer_ ++ channel.up = (encode_request req).take sent) :
      Exchange c req sent arrived channel [.transmitted c req]
  | parsed (hpc : channel.served.pc = .executing req) (hsent : (encode_request req).length ≤ sent)
      (harrived : arrived = []) (hdown : channel.down = []) (hup : channel.up = [])
      (hbuffer : channel.served.parser.buffer_ = []) :
      Exchange c req sent arrived channel [.transmitted c req, .parsed c req]
  | executed {held : Option Bytes} (hheld : ∀ value, held = some value → value.length ≤ kMaxValueLen)
      (hpc : channel.served.pc = .replying (reply req held)) (hsent : (encode_request req).length ≤ sent)
      (harrived : arrived = []) (hdown : channel.down = []) (hup : channel.up = [])
      (hbuffer : channel.served.parser.buffer_ = []) :
      Exchange c req sent arrived channel [.transmitted c req, .parsed c req, .executed c req (reply req held)]
  | replied {held : Option Bytes} (hheld : ∀ value, held = some value → value.length ≤ kMaxValueLen)
      (hquiet : channel.Quiet) (hsent : (encode_request req).length ≤ sent)
      (hreply : arrived ++ channel.down <+: reply req held)
      (hwhole : channel.broken = false → arrived ++ channel.down = reply req held ∧ channel.down ≠ [])
      (hup : channel.up = []) (hbuffer : channel.served.parser.buffer_ = []) :
      Exchange c req sent arrived channel [.transmitted c req, .parsed c req, .executed c req (reply req held),
        .replied c (reply req held)]
  | lost {log : List Event} (hpc : channel.served.pc = .closed) (hbroken : channel.broken = true)
      (harrived : arrived = []) (hdown : channel.down = []) : Exchange c req sent arrived channel log

variable {c : Nat} {req : Request} {sent : Nat} {arrived : Bytes} {channel channel' : Channel}
    {log events : List Event}
  {store store' : KVStore}

theorem reply_ne_nil (req : Request) (held : Option Bytes) : reply req held ≠ [] := by
  obtain ⟨command, key, value⟩ := req
  cases command <;> cases held <;>
    simp [reply, encode_value_response, encode_not_found_response, encode_ok_response, encode_deleted_response,
      encode_pong_response]

/-- The parser waits for the rest of a request. -/
theorem try_parse_request_part (hwf : req.WellFormed) {parser : IncrementalParser}
    (hpart : parser.buffer_ <+: encode_request req) (hcut : parser.buffer_ ≠ encode_request req) (out : Request) :
    parser.try_parse_request out = (.Incomplete, out, parser) := by
  rw [IncrementalParser.try_parse_request_eq, inverts_encode_request.cut req hwf _ hpart hcut]
  rfl

theorem try_parse_request_whole (hwf : req.WellFormed) {parser : IncrementalParser}
    (hwhole : parser.buffer_ = encode_request req) (out : Request) :
    parser.try_parse_request out = (.Complete, req, { parser with buffer_ := [] }) := by
  have hdecode := inverts_encode_request.whole req hwf []
  rw [List.append_nil, ← hwhole] at hdecode
  rw [IncrementalParser.try_parse_request_eq, hdecode]
  rfl

theorem try_parse_request_nil {parser : IncrementalParser} (hbuffer : parser.buffer_ = []) (out : Request) :
    parser.try_parse_request out = (.Incomplete, out, parser) := by
  have hwait : requestFormat.decode parser.buffer_ = none := by
    rw [hbuffer]
    exact LineFormat.decode_nil
  rw [IncrementalParser.try_parse_request_eq, hwait]
  rfl

/-- Everything the node can do on a connection. -/
inductive WorkMove (c : Nat) (channel : Channel) (store : KVStore) : Channel → KVStore → List Event → Prop
  | waited {out : Request} {parser : IncrementalParser} (hpc : channel.served.pc = .draining)
      (hcall : channel.served.parser.try_parse_request channel.served.req = (.Incomplete, out, parser)) :
      WorkMove c channel store { channel with served := ⟨.reading, parser, out⟩ } store []
  | parsed {out : Request} {parser : IncrementalParser} (hpc : channel.served.pc = .draining)
      (hcall : channel.served.parser.try_parse_request channel.served.req = (.Complete, out, parser)) :
      WorkMove c channel store { channel with served := ⟨.executing out, parser, out⟩ } store [.parsed c out]
  | rejected {out : Request} {parser : IncrementalParser} (hpc : channel.served.pc = .draining)
      (hcall : channel.served.parser.try_parse_request channel.served.req = (.Error, out, parser)) :
      WorkMove c channel store
        { channel with served := ⟨.replying (encode_error_response parser.error_message_), parser, out⟩ } store
        [.rejected c]
  | executed {req : Request} (hpc : channel.served.pc = .executing req) :
      WorkMove c channel store
        { channel with served := { channel.served with pc := .replying (reply req (store.get req.key)) } }
        (store.handle_request req).2 [.executed c req (reply req (store.get req.key))]
  | replied {bytes : Bytes} (hpc : channel.served.pc = .replying bytes) :
      WorkMove c channel store
        { channel with
          served := { channel.served with pc := .draining }
          down := if channel.broken then channel.down else channel.down ++ bytes }
        store [.replied c bytes]

theorem Channel.work_move (hwork : channel.work c store = some (channel', store', events)) :
    WorkMove c channel store channel' store' events := by
  rw [work, Option.map_eq_some_iff] at hwork
  obtain ⟨⟨served, store'', _⟩, hstep, heq⟩ := hwork
  obtain ⟨rfl, rfl, rfl⟩ : _ ∧ _ ∧ _ := by simpa only [Prod.mk.injEq] using heq
  have hsame : (if channel.broken = true then channel.down else channel.down ++ []) = channel.down := by simp
  cases hpc : channel.served.pc with
  | reading => simp [server.Connection.step, hpc] at hstep
  | closed => simp [server.Connection.step, hpc] at hstep
  | executing req =>
    simp only [server.Connection.step, hpc, Option.some.injEq, Prod.mk.injEq] at hstep
    obtain ⟨rfl, rfl, _⟩ := hstep
    simp only [replyBytes, workEvents, hsame, KVStore.handle_request_fst]
    exact .executed hpc
  | replying bytes =>
    simp only [server.Connection.step, hpc, Option.some.injEq, Prod.mk.injEq] at hstep
    obtain ⟨rfl, rfl, _⟩ := hstep
    exact .replied hpc
  | draining =>
    cases hcall : channel.served.parser.try_parse_request channel.served.req with
    | mk status rest =>
      obtain ⟨out, parser⟩ := rest
      cases status <;>
      · simp only [server.Connection.step, hpc, hcall, Option.some.injEq, Prod.mk.injEq] at hstep
        obtain ⟨rfl, rfl, _⟩ := hstep
        simp only [replyBytes, workEvents, hsame]
        first | exact .waited hpc hcall | exact .parsed hpc hcall | exact .rejected hpc hcall

theorem WorkMove.node_id (hmove : WorkMove c channel store channel' store' events) :
    channel'.node_id = channel.node_id := by
  cases hmove <;> rfl

/-- With no whole request in its parser, the node goes back to `poll`. -/
theorem WorkMove.waits (hmove : WorkMove c channel store channel' store' events)
    (hcall : channel.served.parser.try_parse_request channel.served.req =
      (.Incomplete, channel.served.req, channel.served.parser))
    (hexecuting : ∀ req, channel.served.pc ≠ .executing req)
    (hreplying : ∀ bytes, channel.served.pc ≠ .replying bytes) :
    channel' = { channel with served := { channel.served with pc := .reading } } ∧ store' = store ∧ events = [] := by
  cases hmove with
  | waited _ hcall' =>
    rw [hcall] at hcall'
    obtain ⟨_, rfl, rfl⟩ : _ ∧ _ ∧ _ := by simpa only [Prod.mk.injEq] using hcall'
    exact ⟨rfl, rfl, rfl⟩
  | parsed _ hcall' => simp [hcall] at hcall'
  | rejected _ hcall' => simp [hcall] at hcall'
  | executed hpc => exact absurd hpc (hexecuting _)
  | replied hpc => exact absurd hpc (hreplying _)

theorem Channel.Quiet.waits (hquiet : channel.Quiet) (hbuffer : channel.served.parser.buffer_ = [])
    (hmove : WorkMove c channel store channel' store' events) :
    channel' = { channel with served := { channel.served with pc := .reading } } ∧ store' = store ∧ events = [] := by
  apply hmove.waits (try_parse_request_nil hbuffer channel.served.req)
  · rcases hquiet with hpc | hpc | ⟨hpc, _⟩ <;> simp [hpc]
  · rcases hquiet with hpc | hpc | ⟨hpc, _⟩ <;> simp [hpc]

/-- The node has nothing to do on an idle connection. -/
theorem Channel.Idle.work (hidle : channel.Idle) (hmove : WorkMove c channel store channel' store' events) :
    channel'.Idle ∧ store' = store ∧ events = [] := by
  obtain ⟨rfl, hstore, hevents⟩ := hidle.quiet.waits hidle.buffer hmove
  exact ⟨⟨.inl rfl, hidle.buffer, hidle.up, hidle.down⟩, hstore, hevents⟩

theorem WorkMove.executes (hmove : WorkMove c channel store channel' store' events)
    (hpc : channel.served.pc = .executing req) :
    channel' = { channel with served := { channel.served with pc := .replying (reply req (store.get req.key)) } } ∧
      store' = (store.handle_request req).2 ∧ events = [.executed c req (reply req (store.get req.key))] := by
  cases hmove with
  | waited hbusy => simp [hpc] at hbusy
  | parsed hbusy => simp [hpc] at hbusy
  | rejected hbusy => simp [hpc] at hbusy
  | replied hbusy => simp [hpc] at hbusy
  | executed hbusy =>
    obtain rfl := server.Pc.executing.inj (hpc.symm.trans hbusy)
    exact ⟨rfl, rfl, rfl⟩

theorem WorkMove.replies {bytes : Bytes} (hmove : WorkMove c channel store channel' store' events)
    (hpc : channel.served.pc = .replying bytes) :
    channel' = { channel with
        served := { channel.served with pc := .draining }
        down := if channel.broken then channel.down else channel.down ++ bytes } ∧
      store' = store ∧ events = [.replied c bytes] := by
  cases hmove with
  | waited hbusy => simp [hpc] at hbusy
  | parsed hbusy => simp [hpc] at hbusy
  | rejected hbusy => simp [hpc] at hbusy
  | executed hbusy => simp [hpc] at hbusy
  | replied hbusy =>
    obtain rfl := server.Pc.replying.inj (hpc.symm.trans hbusy)
    exact ⟨rfl, rfl, rfl⟩

/-- The node parses the whole request. -/
theorem WorkMove.parses (hmove : WorkMove c channel store channel' store' events)
    (hpc : channel.served.pc = .reading ∨ channel.served.pc = .draining) (hwf : req.WellFormed)
    (hwhole : channel.served.parser.buffer_ = encode_request req) :
    channel' = { channel with served := ⟨.executing req, { channel.served.parser with buffer_ := [] }, req⟩ } ∧
      store' = store ∧ events = [.parsed c req] := by
  have hnext := try_parse_request_whole hwf hwhole channel.served.req
  cases hmove with
  | waited _ hcall => simp [hnext] at hcall
  | rejected _ hcall => simp [hnext] at hcall
  | executed hbusy => simp [hbusy] at hpc
  | replied hbusy => simp [hbusy] at hpc
  | parsed _ hcall =>
    rw [hnext] at hcall
    obtain ⟨_, rfl, rfl⟩ : _ ∧ _ ∧ _ := by simpa only [Prod.mk.injEq] using hcall
    exact ⟨rfl, rfl, rfl⟩

/-- The node does what the request asks of it, and nothing else. -/
theorem Exchange.work (hwf : req.WellFormed) (hexchange : Exchange c req sent arrived channel log)
    (hvalues : ∀ key value, store.get key = some value → value.length ≤ kMaxValueLen)
    (hmove : WorkMove c channel store channel' store' events) :
    Exchange c req sent arrived channel' (log ++ events) ∧
      (store' = store ∨ store' = (store.handle_request req).2) ∧ .rejected c ∉ events := by
  cases hexchange with
  | sending hpc harrived hdown hpart hwhole =>
    have hwithin : channel.served.parser.buffer_ <+: encode_request req :=
      (List.prefix_append _ _).trans (hpart.trans (List.take_prefix _ _))
    by_cases hfull : channel.served.parser.buffer_ = encode_request req
    · have hlength := hpart.length_le
      rw [hfull, List.length_append, List.length_take] at hlength
      have hup : channel.up = [] := List.length_eq_zero_iff.mp (by omega)
      obtain ⟨rfl, hstore, rfl⟩ := hmove.parses hpc hwf hfull
      exact ⟨.parsed rfl (by omega) harrived hdown hup rfl, .inl hstore, by simp⟩
    · have hnext := try_parse_request_part hwf hwithin hfull channel.served.req
      obtain ⟨rfl, hstore, rfl⟩ := hmove.waits hnext (by rcases hpc with hpc | hpc <;> simp [hpc])
        (by rcases hpc with hpc | hpc <;> simp [hpc])
      exact ⟨.sending (.inl rfl) harrived hdown hpart hwhole, .inl hstore, by simp⟩
  | parsed hpc hsent harrived hdown hup hbuffer =>
    obtain ⟨rfl, hstore, rfl⟩ := hmove.executes hpc
    exact ⟨.executed (hvalues req.key) rfl hsent harrived hdown hup hbuffer, .inr hstore, by simp⟩
  | executed hheld hpc hsent harrived hdown hup hbuffer =>
    obtain ⟨rfl, hstore, rfl⟩ := hmove.replies hpc
    refine ⟨.replied hheld (.inr (.inl rfl)) hsent ?_ (fun hbroken => ?_) hup hbuffer, .inl hstore, by simp⟩
    · rw [harrived, hdown]
      split <;> simp
    · simp [harrived, hdown, show channel.broken = false from hbroken, reply_ne_nil]
  | replied hheld hquiet hsent hreply hwhole hup hbuffer =>
    obtain ⟨rfl, hstore, rfl⟩ := hquiet.waits hbuffer hmove
    exact ⟨.replied hheld (.inl rfl) hsent hreply hwhole hup hbuffer, .inl hstore, by simp⟩
  | lost hpc hbroken harrived hdown =>
    cases hmove with
    | waited hbusy => simp [hpc] at hbusy
    | parsed hbusy => simp [hpc] at hbusy
    | rejected hbusy => simp [hpc] at hbusy
    | executed hbusy => simp [hpc] at hbusy
    | replied hbusy => simp [hpc] at hbusy

theorem Channel.serve_eq {n : Nat} (hserve : channel.serve n = some channel') :
    channel.served.pc = .reading ∧ 0 < (channel.up.take n).length ∧
      channel' = { channel with
        served := ⟨.draining, channel.served.parser.feed (channel.up.take n), ⟨.Ping, [], []⟩⟩
        up := channel.up.drop n } := by
  rw [serve, Option.map_eq_some_iff] at hserve
  obtain ⟨served, hrecv, rfl⟩ := hserve
  unfold server.Connection.recv at hrecv
  split at hrecv
  · rename_i hready
    obtain rfl := Option.some.inj hrecv
    exact ⟨hready.1, hready.2.1, rfl⟩
  · exact absurd hrecv (by simp)

theorem Channel.Idle.serve {n : Nat} (hidle : channel.Idle) (hserve : channel.serve n = some channel') :
    channel'.Idle := by
  have hsome := (serve_eq hserve).2.1
  simp [hidle.up] at hsome

/-- The bytes of the request go from the way to the node's parser. -/
theorem Exchange.serve {n : Nat} (hexchange : Exchange c req sent arrived channel log)
    (hserve : channel.serve n = some channel') : Exchange c req sent arrived channel' log := by
  obtain ⟨hpc, hsome, rfl⟩ := Channel.serve_eq hserve
  cases hexchange with
  | sending _ harrived hdown hpart hwhole =>
    have hsplit : channel.served.parser.buffer_ ++ channel.up.take n ++ channel.up.drop n =
        channel.served.parser.buffer_ ++ channel.up := by rw [List.append_assoc, List.take_append_drop]
    refine .sending (.inr rfl) harrived hdown ?_ fun hbroken => ?_
    · exact hsplit ▸ hpart
    · exact hsplit.trans (hwhole hbroken)
  | parsed hbusy => simp [hpc] at hbusy
  | executed _ hbusy => simp [hpc] at hbusy
  | replied _ _ _ _ _ hup => simp [hup] at hsome
  | lost hclosed => simp [hpc] at hclosed

theorem Channel.close_eq (hclose : channel.close = some channel') :
    channel.broken = true ∧ channel.served.pc = .reading ∧
      channel' = { channel with served := { channel.served with pc := .closed } } := by
  unfold close at hclose
  split at hclose
  · rename_i hbroken
    rw [Option.map_eq_some_iff] at hclose
    obtain ⟨served, hhangup, rfl⟩ := hclose
    unfold server.Connection.hangup at hhangup
    split at hhangup
    · rename_i hpc
      obtain rfl := Option.some.inj hhangup
      exact ⟨hbroken, hpc, rfl⟩
    · exact absurd hhangup (by simp)
  · exact absurd hclose (by simp)

theorem Channel.Idle.close (hidle : channel.Idle) (hclose : channel.close = some channel') : channel'.Idle := by
  obtain ⟨hbroken, _, rfl⟩ := close_eq hclose
  exact ⟨.inr (.inr ⟨rfl, hbroken⟩), hidle.buffer, hidle.up, hidle.down⟩

theorem Exchange.close (hexchange : Exchange c req sent arrived channel log) (hclose : channel.close = some channel') :
    Exchange c req sent arrived channel' log := by
  obtain ⟨hbroken, hpc, rfl⟩ := Channel.close_eq hclose
  cases hexchange with
  | sending _ harrived hdown => exact .lost rfl hbroken harrived hdown
  | parsed hbusy => simp [hpc] at hbusy
  | executed _ hbusy => simp [hpc] at hbusy
  | replied hheld _ hsent hreply hwhole hup hbuffer =>
    exact .replied hheld (.inr (.inr ⟨rfl, hbroken⟩)) hsent hreply hwhole hup hbuffer
  | lost hclosed => simp [hpc] at hclosed

theorem Channel.Quiet.cut (hquiet : channel.Quiet) (up down : Nat) : (channel.cut up down).Quiet :=
  hquiet.imp id (Or.imp id fun hclosed => ⟨hclosed.1, rfl⟩)

theorem Channel.Idle.cut (hidle : channel.Idle) (up down : Nat) : (channel.cut up down).Idle where
  quiet := hidle.quiet.cut up down
  buffer := hidle.buffer
  up := by simp [Channel.cut, hidle.up]
  down := by simp [Channel.cut, hidle.down]

/-- What a break leaves of the request and the reply is still in order. -/
theorem Exchange.cut (hexchange : Exchange c req sent arrived channel log) (up down : Nat) :
    Exchange c req sent arrived (channel.cut up down) log := by
  cases hexchange with
  | sending hpc harrived hdown hpart hwhole =>
    refine .sending hpc harrived (by simp [Channel.cut, hdown]) ?_ (by simp [Channel.cut])
    exact (List.prefix_append_right_inj _).mpr (List.take_prefix _ _) |>.trans hpart
  | parsed hpc hsent harrived hdown hup hbuffer =>
    exact .parsed hpc hsent harrived (by simp [Channel.cut, hdown]) (by simp [Channel.cut, hup]) hbuffer
  | executed hheld hpc hsent harrived hdown hup hbuffer =>
    exact .executed hheld hpc hsent harrived (by simp [Channel.cut, hdown]) (by simp [Channel.cut, hup]) hbuffer
  | replied hheld hquiet hsent hreply _ hup hbuffer =>
    refine .replied hheld (hquiet.cut up down) hsent ?_ (by simp [Channel.cut]) (by simp [Channel.cut, hup]) hbuffer
    exact (List.prefix_append_right_inj _).mpr (List.take_prefix _ _) |>.trans hreply
  | lost hpc hbroken harrived hdown => exact .lost hpc rfl harrived (by simp [Channel.cut, hdown])

theorem Channel.Idle.kill (hidle : channel.Idle) : channel.kill.Idle where
  quiet := .inr (.inr ⟨rfl, rfl⟩)
  buffer := hidle.buffer
  up := rfl
  down := hidle.down

theorem Exchange.kill (hexchange : Exchange c req sent arrived channel log) :
    Exchange c req sent arrived channel.kill log := by
  cases hexchange with
  | sending _ harrived hdown => exact .lost rfl rfl harrived hdown
  | parsed _ _ harrived hdown => exact .lost rfl rfl harrived hdown
  | executed _ _ _ harrived hdown => exact .lost rfl rfl harrived hdown
  | lost _ _ harrived hdown => exact .lost rfl rfl harrived hdown
  | replied hheld _ hsent hreply _ _ hbuffer =>
    exact .replied hheld (.inr (.inr ⟨rfl, rfl⟩)) hsent hreply (by simp [Channel.kill]) rfl hbuffer

/-- The router starts a request on an idle connection. -/
theorem Channel.Idle.start (hidle : channel.Idle) (c : Nat) (req : Request) :
    Exchange c req 0 [] channel [.transmitted c req] := by
  have hnone : channel.served.parser.buffer_ ++ channel.up = [] := by rw [hidle.buffer, hidle.up, List.append_nil]
  have hsending (hpc : channel.served.pc = .reading ∨ channel.served.pc = .draining) :
      Exchange c req 0 [] channel [.transmitted c req] :=
    .sending hpc rfl hidle.down (by simp [hnone]) (by simp [hnone])
  rcases hidle.quiet with hpc | hpc | ⟨hpc, hbroken⟩
  · exact hsending (.inl hpc)
  · exact hsending (.inr hpc)
  · exact .lost hpc hbroken rfl hidle.down

/-- The router writes the next bytes of the request. -/
theorem Exchange.push (hexchange : Exchange c req sent [] channel log) {n : Nat} (hn : 0 < n)
    (hroom : sent + n ≤ (encode_request req).length) :
    Exchange c req (sent + n) [] (channel.push (((encode_request req).drop sent).take n)) log := by
  have hmore : (encode_request req).take (sent + n) =
      (encode_request req).take sent ++ ((encode_request req).drop sent).take n := List.take_add
  unfold Channel.push
  cases hexchange with
  | sending hpc harrived hdown hpart hwhole =>
    split
    · rename_i hbroken
      refine .sending hpc harrived hdown ?_ (by simp [hbroken])
      rw [hmore]
      exact hpart.trans (List.prefix_append _ _)
    · rename_i hbroken
      have heq : channel.served.parser.buffer_ ++ (channel.up ++ ((encode_request req).drop sent).take n) =
          (encode_request req).take (sent + n) := by
        rw [← List.append_assoc, hwhole (by simpa using hbroken), hmore]
      exact .sending hpc harrived hdown (by simp [heq]) fun _ => heq
  | parsed _ hsent => omega
  | executed _ _ hsent => omega
  | replied _ _ hsent => omega
  | lost hpc hbroken harrived hdown =>
    rw [if_pos hbroken]
    exact .lost hpc hbroken harrived hdown

/-- What the parser of the router makes of the reply so far. -/
theorem try_parse_response_reply {held : Option Bytes}
    (hheld : ∀ value, held = some value → value.length ≤ kMaxValueLen) {parser : ResponseParser}
    (hpart : parser.buffer_ <+: reply req held) :
    (parser.buffer_ ≠ reply req held ∧
      parser.try_parse_response ⟨.Ok, [], []⟩ = (.Incomplete, ⟨.Ok, [], []⟩, parser)) ∨
    ∃ resp, parser.buffer_ = reply req held ∧
      parser.try_parse_response ⟨.Ok, [], []⟩ = (.Complete, resp, { parser with buffer_ := [] }) ∧
      receive (reply req held) = (.Complete, resp) ∧ encode_response resp = reply req held ∧ resp.type ≠ .Error := by
  obtain ⟨message, hwf, hencoded, _⟩ := exists_encoded_reply req hheld
  by_cases hfull : parser.buffer_ = reply req held
  · obtain ⟨resp, hreceive, hencode, htype⟩ := receive_reply req hheld
    have hdecode := inverts_encoded.whole (message, reply req held) ⟨hwf, hencoded⟩ []
    dsimp only at hdecode
    rw [List.append_nil] at hdecode
    refine .inr ⟨resp, hfull, ?_, hreceive, hencode, htype⟩
    have hresp : (⟨.Ok, [], []⟩ : Response).assign message.carried = resp := by
      simp only [receive, ResponseParser.try_parse_response_eq, ResponseParser.feed, List.nil_append, hdecode,
        ResponseParser.after, Prod.mk.injEq, true_and] at hreceive
      exact hreceive
    rw [ResponseParser.try_parse_response_eq, hfull, hdecode, ← hresp]
    rfl
  · have hdecode := inverts_encoded.cut (message, reply req held) ⟨hwf, hencoded⟩ _ hpart hfull
    refine .inl ⟨hfull, ?_⟩
    rw [ResponseParser.try_parse_response_eq, hdecode]
    rfl

/-- Only a reply to the request is ever read, and reading all of it leaves the
    connection idle. -/
theorem Exchange.read {parser : ResponseParser} {n : Nat}
    (hexchange : Exchange c req sent parser.buffer_ channel log) (hsome : 0 < (channel.down.take n).length) :
    (∃ parser', (parser.feed (channel.down.take n)).try_parse_response ⟨.Ok, [], []⟩ =
        (.Incomplete, ⟨.Ok, [], []⟩, parser') ∧
      Exchange c req sent parser'.buffer_ { channel with down := channel.down.drop n } log ∧
      (channel.broken = false → channel.down.drop n ≠ [])) ∨
    ∃ bytes resp parser', (parser.feed (channel.down.take n)).try_parse_response ⟨.Ok, [], []⟩ =
        (.Complete, resp, parser') ∧
      ({ channel with down := channel.down.drop n } : Channel).Idle ∧
      log = [.transmitted c req, .parsed c req, .executed c req bytes, .replied c bytes] ∧
      receive bytes = (.Complete, resp) ∧ encode_response resp = bytes ∧ resp.type ≠ .Error := by
  have hnone (hdown : channel.down = []) : False := by simp [hdown] at hsome
  cases hexchange with
  | sending _ _ hdown => exact (hnone hdown).elim
  | parsed _ _ _ hdown => exact (hnone hdown).elim
  | executed _ _ _ _ hdown => exact (hnone hdown).elim
  | lost _ _ _ hdown => exact (hnone hdown).elim
  | @replied held hheld hquiet hsent hreply hwhole hup hbuffer =>
    have hsplit : parser.buffer_ ++ channel.down.take n ++ channel.down.drop n = parser.buffer_ ++ channel.down := by
      rw [List.append_assoc, List.take_append_drop]
    have hpart : (parser.feed (channel.down.take n)).buffer_ <+: reply req held :=
      (List.prefix_append _ _).trans (hsplit ▸ hreply)
    rcases try_parse_response_reply hheld hpart with ⟨hmore, hcall⟩ | ⟨resp, hfull, hcall, hreceive, hencode, htype⟩
    · have hrest (hbroken : channel.broken = false) : channel.down.drop n ≠ [] := by
        intro hnone
        refine hmore ?_
        rw [← (hwhole hbroken).1, ← hsplit, hnone, List.append_nil]
        rfl
      refine .inl ⟨_, hcall, .replied hheld hquiet hsent (hsplit ▸ hreply) (fun hbroken => ?_) hup hbuffer, hrest⟩
      exact ⟨hsplit.trans (hwhole hbroken).1, hrest hbroken⟩
    · have hrest : channel.down.drop n = [] := by
        have hlength := hreply.length_le
        rw [← hsplit, List.length_append,
          show parser.buffer_ ++ channel.down.take n = reply req held from hfull] at hlength
        exact List.length_eq_zero_iff.mp (by omega)
      exact .inr ⟨_, resp, _, hcall, ⟨hquiet, hbuffer, hup, hrest⟩, rfl, hreceive, hencode, htype⟩

end kv.wire
