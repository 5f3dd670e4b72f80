import Kv.Protocol.Request.Segmentation
import Kv.Router.HandleClient

open Incremental

namespace kv.router

open kv.protocol

section

variable (router : Router) (worlds : Nat → World)

/-- What `handle_client` does about one result of its parser. -/
def Client.reply (self : Client) : ParseResult → Option (Except Bytes Unit × Client)
  | .Error message => some (self.write_all (encode_error_response message))
  | .Complete req =>
    match self.respond router worlds req with
    | none => none
    | some (.error what, self) => some (.error what, self)
    | some (.ok response_bytes, self) => some (self.write_all response_bytes)

/-- All results of its parser, up to the first exception. -/
def Client.answer : List ParseResult → Client → Option (Except Bytes Unit × Client)
  | [], self => some (.ok (), self)
  | result :: results, self =>
    match self.reply router worlds result with
    | none => none
    | some (.error what, self) => some (.error what, self)
    | some (.ok _, self) => Client.answer results self

end

/-- How the thread leaves: at the end of the stream it closes the socket, an
    exception skips that. -/
def Client.exit (self : Client) : Except Bytes Unit → Exit
  | .ok _ => { outcome := .ok (), closed := true, sent := self.sent }
  | .error what => { outcome := .error what, closed := false, sent := self.sent }

section

variable {router : Router} {worlds : Nat → World}

theorem Client.answer_append (first second : List ParseResult) (self : Client) :
    Client.answer router worlds (first ++ second) self =
      match Client.answer router worlds first self with
      | none => none
      | some (.error what, self) => some (.error what, self)
      | some (.ok _, self) => Client.answer router worlds second self := by
  induction first generalizing self with
  | nil => rfl
  | cons result first ih =>
    rw [List.cons_append, Client.answer, Client.answer]
    rcases self.reply router worlds result with _ | ⟨what | _, after⟩
    · rfl
    · rfl
    · exact ih after

/-- The parser that a client holds while it is answered makes no difference. -/
theorem Client.reply_parser (self : Client) (parser : IncrementalParser) (result : ParseResult) :
    Client.reply router worlds { self with parser } result =
      (self.reply router worlds result).map fun (outcome, after) => (outcome, { after with parser }) := by
  have hforward (call : (Bytes → Backend) → Call → Option (Except Bytes Response × Call)) :
      Client.forward worlds call { self with parser } =
        (self.forward worlds call).map fun (outcome, after) => (outcome, { after with parser }) := by
    simp only [Client.forward]
    rcases call _ _ with _ | ⟨outcome, after⟩ <;> rfl
  have hrespond (req : Request) :
      Client.respond router worlds req { self with parser } =
        (self.respond router worlds req).map fun (outcome, after) => (outcome, { after with parser }) := by
    unfold Client.respond
    cases req.command with
    | Ping => rfl
    | Get => exact hforward _
    | Set => exact hforward _
    | Delete => exact hforward _
  cases result with
  | Error message => rfl
  | Complete req =>
    rw [Client.reply, Client.reply, hrespond]
    rcases self.respond router worlds req with _ | ⟨what | response_bytes, after⟩ <;> rfl

theorem Client.answer_parser (self : Client) (parser : IncrementalParser) (results : List ParseResult) :
    Client.answer router worlds results { self with parser } =
      (Client.answer router worlds results self).map fun (outcome, after) => (outcome, { after with parser }) := by
  induction results generalizing self with
  | nil => rfl
  | cons result results ih =>
    rw [Client.answer, Client.answer, Client.reply_parser]
    rcases self.reply router worlds result with _ | ⟨what | _, after⟩
    · rfl
    · rfl
    · exact ih after

/-- The inner loop ends as its answers do. The parser is where their results leave
    it, unless an exception cuts the loop short. -/
inductive EndsAs (last : IncrementalParser) :
    Option (Except Bytes Unit × Client) → Option (Except Bytes Unit × Client) → Prop
  | waiting : EndsAs last none none
  | thrown (what : Bytes) (after : Client) (parser : IncrementalParser) :
    EndsAs last (some (.error what, after)) (some (.error what, { after with parser }))
  | drained (after : Client) : EndsAs last (some (.ok (), after)) (some (.ok (), { after with parser := last }))

theorem EndsAs.of_map {last parser : IncrementalParser} {answered drained : Option (Except Bytes Unit × Client)}
    (h : EndsAs last (answered.map fun (outcome, after) => (outcome, { after with parser })) drained) :
    EndsAs last answered drained := by
  rcases answered with _ | ⟨what | _, after⟩
  · exact h
  · cases h with
    | thrown => exact .thrown what after _
  · cases h with
    | drained => exact .drained after

theorem drain_client_of_drain {fuel : Nat} {req : Request} {self : Client} {results : List ParseResult}
    {last : IncrementalParser} (hdrain : self.parser.drain fuel req = some (results, last)) :
    EndsAs last (Client.answer router worlds results self) (drain_client router worlds fuel req self) := by
  induction fuel generalizing req self results with
  | zero => simp [IncrementalParser.drain] at hdrain
  | succ fuel ih =>
    rcases hparse : self.parser.try_parse_request req with ⟨status, req', next⟩
    rw [IncrementalParser.drain, hparse] at hdrain
    rw [drain_client, hparse]
    -- One reply, and the rest of the loop unless it throws.
    have hreply (result : ParseResult) {later : List ParseResult}
        (hlater : next.drain fuel req' = some (later, last)) :
        EndsAs last (Client.answer router worlds (result :: later) self)
          (match Client.reply router worlds { self with parser := next } result with
            | none => none
            | some (.error what, self) => some (.error what, self)
            | some (.ok _, self) => drain_client router worlds fuel req' self) := by
      rw [Client.answer, Client.reply_parser self next]
      rcases self.reply router worlds result with _ | ⟨what | _, after⟩
      · exact .waiting
      · exact .thrown what after next
      · have hrest : EndsAs last (Client.answer router worlds later { after with parser := next })
            (drain_client router worlds fuel req' { after with parser := next }) := ih hlater
        rw [Client.answer_parser after next] at hrest
        exact hrest.of_map
    cases status with
    | Incomplete =>
      obtain ⟨rfl, rfl⟩ := Prod.mk.inj (Option.some.inj hdrain)
      exact .drained self
    | Error =>
      simp only [Option.map_eq_some_iff, Prod.exists, Prod.mk.injEq] at hdrain
      obtain ⟨later, final, hlater, rfl, rfl⟩ := hdrain
      have hstep := hreply (.Error next.error_message_) hlater
      rw [Client.reply] at hstep
      rcases hwrite : Client.write_all { self with parser := next } (encode_error_response next.error_message_) with
        ⟨what | _, after⟩ <;>
      · simp only [hwrite] at hstep ⊢
        exact hstep
    | Complete =>
      simp only [Option.map_eq_some_iff, Prod.exists, Prod.mk.injEq] at hdrain
      obtain ⟨later, final, hlater, rfl, rfl⟩ := hdrain
      have hstep := hreply (.Complete req') hlater
      rw [Client.reply] at hstep
      rcases hrespond : Client.respond router worlds req' { self with parser := next } with
        _ | ⟨what | response_bytes, after⟩
      · simpa only [hrespond] using hstep
      · simpa only [hrespond] using hstep
      · rcases hwrite : after.write_all response_bytes with ⟨what | _, written⟩ <;>
        · simp only [hrespond, hwrite] at hstep ⊢
          exact hstep

theorem handle_client_of_feed_chunks {fuel : Nat} {reads : List Bytes} {self : Client} {results : List ParseResult}
    {last : IncrementalParser} (hfeed : self.parser.feed_chunks fuel ⟨.Ping, [], []⟩ reads = some (results, last)) :
    handle_client router worlds fuel reads self =
      (Client.answer router worlds results self).map fun (outcome, after) => after.exit outcome := by
  induction reads generalizing self results with
  | nil =>
    obtain ⟨rfl, rfl⟩ := Prod.mk.inj (Option.some.inj hfeed)
    rfl
  | cons data reads ih =>
    obtain ⟨first, middle, later, hdrain, hlater, rfl⟩ := IncrementalParser.feed_chunks_cons hfeed
    have hends : EndsAs middle (Client.answer router worlds first { self with parser := self.parser.feed data })
        (drain_client router worlds fuel ⟨.Ping, [], []⟩ { self with parser := self.parser.feed data }) :=
      drain_client_of_drain hdrain
    rw [handle_client, Client.answer_append]
    rw [Client.answer_parser self] at hends
    have hsame := hends.of_map
    generalize Client.answer router worlds first self = answered at hsame
    generalize drain_client router worlds fuel _ _ = drained at hsame
    cases hsame with
    | waiting => rfl
    | thrown what after parser => rfl
    | drained after =>
      have hrest : handle_client router worlds fuel reads { after with parser := middle } = _ := ih hlater
      rw [Client.answer_parser after middle, Option.map_map] at hrest
      exact hrest

end

/-- A client of the router, from its first read to its last. Where every command
    line of the stream is short enough, what is routed, what is written back and
    how the thread ends depend on the stream alone and not on how the reads cut
    it, also where a write fails or a request throws on the way. -/
theorem handle_client_of_stream (router : Router) (worlds : Nat → World) {stream : Bytes}
    (hlines : requestFormat.LinesBounded stream) {fuel : Nat} (hfuel : stream.length < fuel) :
    ∃ results,
      (∃ parser, ({} : IncrementalParser).feed_chunks fuel ⟨.Ping, [], []⟩ [stream] = some (results, parser)) ∧
      ∀ (reads : List Bytes) (writes : List Syscall), reads.flatten = stream →
        handle_client router worlds fuel reads { writes } =
          (Client.answer router worlds results { writes }).map fun (outcome, after) => after.exit outcome := by
  obtain ⟨results, final, hfeed⟩ := IncrementalParser.exists_feed_chunks hlines
  obtain ⟨whole, hwhole, _⟩ := hfeed [stream] fuel ⟨.Ping, [], []⟩ (by simp) hfuel
  refine ⟨results, ⟨whole, hwhole⟩, ?_⟩
  intro reads writes hreads
  obtain ⟨parser, hparser, _⟩ := hfeed reads fuel ⟨.Ping, [], []⟩ hreads hfuel
  exact handle_client_of_feed_chunks hparser

/-- Two requests and a malformed line, read at once and byte by byte, by a client
    that is gone before the last answer. -/
theorem handle_client_of_stream_example :
    let worlds : Nat → World := fun _ =>
      { shared := { alive_ := fun _ => some true }, backends := fun _ => ⟨.ok 7, fun _ => .ok ⟨.NotFound, [], []⟩⟩ }
    let stream := ascii "GET k" ++ LF :: ascii "FOO" ++ LF :: ascii "PING" ++ [LF]
    let writes : List Syscall := [.count 2, .eintr, .count 100, .count 100, .fail (ascii "Broken pipe")]
    let exit : Exit := ⟨.error (ascii "write failed: Broken pipe"), false,
      encode_not_found_response ++ encode_error_response (ascii "unknown command: FOO")⟩
    requestFormat.LinesBounded stream ∧
    handle_client (Router.create [⟨ascii "a", 1⟩] 1 2) worlds 16 [stream] { writes } = some exit ∧
    handle_client (Router.create [⟨ascii "a", 1⟩] 1 2) worlds 16 (stream.map ([·])) { writes } = some exit := by
  intro worlds stream writes exit
  have hlines : requestFormat.LinesBounded stream := LineFormat.linesBounded_of_length_le (by decide)
  obtain ⟨results, _, hsame⟩ := handle_client_of_stream (Router.create [⟨ascii "a", 1⟩] 1 2) worlds hlines
    (show stream.length < 16 by decide)
  have hwhole : handle_client (Router.create [⟨ascii "a", 1⟩] 1 2) worlds 16 [stream] { writes } = some exit := by
    decide +kernel
  refine ⟨hlines, hwhole, ?_⟩
  rw [hsame (stream.map ([·])) writes (by decide), ← hsame [stream] writes (by decide), hwhole]

end kv.router
