import Kv.Protocol.Request.Segmentation
import Kv.Server.Service

open Incremental

namespace kv.worker

open kv.protocol

/-- What one `write` on a client's socket comes to: it takes at most `n + 1`
    bytes, would block, is interrupted, returns 0 or any other error, or finds the
    connection known to be broken and raises `SIGPIPE`. -/
inductive WriteCall
  | count (n : Nat)
  | eagain
  | eintr
  | broken
  | sigpipe
  deriving DecidableEq, Repr

/-- What one `read` of at most `sizeof(buf)` bytes returns. -/
inductive ReadCall
  | data (bytes : Bytes)
  | eof
  | eagain
  | eintr
  | error
  deriving DecidableEq, Repr

/-- `write_all`: the bytes that it gets through and the outcomes not yet used. A
    call that would block waits for the socket and tries again, and after the last
    outcome the calls go through in full. Nothing in the program handles `SIGPIPE`:
    `none` is a process that it has killed. -/
def write_all : List WriteCall → Bytes → Bytes × Option (List WriteCall)
  | writes, [] => ([], some writes)
  | [], data => (data, some [])
  | .count n :: writes, c :: data =>
    let (wire, left) := write_all writes ((c :: data).drop (n + 1))
    ((c :: data).take (n + 1) ++ wire, left)
  | .eagain :: writes, c :: data => write_all writes (c :: data)
  | .eintr :: writes, c :: data => write_all writes (c :: data)
  | .broken :: writes, _ :: _ => ([], some writes)
  | .sigpipe :: _, _ :: _ => ([], none)

universe u

/-- What a reactor has to do with: the store, the outcomes of the writes to come, and
    the bytes that have left for the client. -/
structure Service (σ : Type u) where
  store : σ
  writes : Option (List WriteCall)
  sent : Bytes := []

/-- A connection of a reactor. -/
structure Connection (σ : Type u) extends Service σ where
  parser : IncrementalParser := {}

variable {σ : Type u}

def Service.killed (self : Service σ) : Bool := self.writes.isNone

def Service.write (self : Service σ) (response : Bytes) : Service σ :=
  match self.writes with
  | none => self
  | some writes =>
    let (wire, left) := write_all writes response
    { self with writes := left, sent := self.sent ++ wire }

section

variable (handle_request : σ → Request → Bytes × σ)

/-- One turn of the drain loop, by what the parser hands over. -/
def Service.handle (self : Service σ) : ParseResult → Service σ
  | .Error message => self.write (encode_error_response message)
  | .Complete req => { self with store := (handle_request self.store req).2 }.write (handle_request self.store req).1

/-- The drain loop; `none` is a loop that has not ended yet. It does not see
    whether a response got through. -/
def Connection.drain : Nat → Request → Connection σ → Option (Connection σ)
  | 0, _, _ => none
  | fuel + 1, req, self =>
    if self.killed then some self
    else
      match self.parser.try_parse_request req with
      | (.Incomplete, _, parser) => some { self with parser }
      | (.Error, req, parser) =>
        Connection.drain fuel req { self.toService.handle handle_request (.Error parser.error_message_) with parser }
      | (.Complete, req, parser) =>
        Connection.drain fuel req { self.toService.handle handle_request (.Complete req) with parser }

/-- `service_client`, up to the end of its loop, and whether it closes the
    connection. After the last outcome there is nothing more to read. -/
def Connection.service_client (fuel : Nat) : List ReadCall → Connection σ → Option (Connection σ × Bool)
  | [], self => some (self, false)
  | .data bytes :: reads, self =>
    match Connection.drain handle_request fuel ⟨.Ping, [], []⟩ { self with parser := self.parser.feed bytes } with
    | none => none
    | some self =>
      if self.killed || bytes.length < kReadSize then some (self, false) else Connection.service_client fuel reads self
  | .eof :: _, self => some (self, true)
  | .eagain :: _, self => some (self, false)
  | .eintr :: reads, self => Connection.service_client fuel reads self
  | .error :: _, self => some (self, true)

/-- The calls of `service_client` for one connection, one for each time that
    `poll` reports it, until one of them closes it. -/
def Connection.serve (fuel : Nat) : List (List ReadCall) → Connection σ → Option (Connection σ × Bool)
  | [], self => some (self, false)
  | reads :: later, self =>
    match Connection.service_client handle_request fuel reads self with
    | none => none
    | some (self, closes) => if self.killed || closes then some (self, closes) else Connection.serve fuel later self

end

/-- The reads that one call of `service_client` gets data from, and whether it
    ends in one that closes the connection. -/
def taken : List ReadCall → List Bytes × Bool
  | [] => ([], false)
  | .data bytes :: reads =>
    if bytes.length < kReadSize then ([bytes], false) else (bytes :: (taken reads).1, (taken reads).2)
  | .eof :: _ => ([], true)
  | .eagain :: _ => ([], false)
  | .eintr :: reads => taken reads
  | .error :: _ => ([], true)

/-- The same for all calls on a connection. -/
def received : List (List ReadCall) → List Bytes × Bool
  | [] => ([], false)
  | reads :: later =>
    if (taken reads).2 then taken reads else ((taken reads).1 ++ (received later).1, (received later).2)

/-- The responses to what the parser hands over, and the store after them. -/
def respond (handle_request : σ → Request → Bytes × σ) : List ParseResult → σ → List Bytes × σ
  | [], store => ([], store)
  | .Error message :: results, store =>
    let (later, final) := respond handle_request results store
    (encode_error_response message :: later, final)
  | .Complete req :: results, store =>
    let (later, final) := respond handle_request results (handle_request store req).2
    ((handle_request store req).1 :: later, final)

section

variable (handle_request : σ → Request → Bytes × σ)

/-- What becomes of it all where the parser hands over these results, as long as the
    process lives. -/
def Service.answer : List ParseResult → Service σ → Service σ
  | [], self => self
  | result :: results, self => if self.killed then self else Service.answer results (self.handle handle_request result)

/-- Where a connection has come to: the parser counts only while the process lives. -/
def Connection.Reaches (self : Connection σ) (service : Service σ) (parser : IncrementalParser) : Prop :=
  self.toService = service ∧ (service.killed = false → self.parser = parser)

variable {handle_request}

theorem Service.answer_of_killed {self : Service σ} (hkilled : self.killed = true) (results : List ParseResult) :
    self.answer handle_request results = self := by
  cases results with
  | nil => rfl
  | cons result results => simp [Service.answer, hkilled]

theorem Service.answer_append (self : Service σ) (first second : List ParseResult) :
    Service.answer handle_request (first ++ second) self =
      (self.answer handle_request first).answer handle_request second := by
  induction first generalizing self with
  | nil => rfl
  | cons result first ih =>
    cases hkilled : self.killed with
    | true => simp [Service.answer, hkilled, Service.answer_of_killed]
    | false => simp [Service.answer, hkilled, ih]

/-- The loop with its writes is the loop without them: what the parser hands over
    does not depend on what becomes of the responses. -/
theorem Connection.exists_drain {fuel : Nat} {req : Request} {self : Connection σ} {results : List ParseResult}
    {parser : IncrementalParser} (hdrain : self.parser.drain fuel req = some (results, parser)) :
    ∃ self', self.drain handle_request fuel req = some self' ∧
      self'.Reaches (self.toService.answer handle_request results) parser := by
  induction fuel generalizing req self results with
  | zero => simp [IncrementalParser.drain] at hdrain
  | succ fuel ih =>
    cases hkilled : self.killed with
    | true =>
      refine ⟨self, by simp [Connection.drain, hkilled], (Service.answer_of_killed hkilled results).symm,
        fun hlives => ?_⟩
      rw [Service.answer_of_killed hkilled, hkilled] at hlives
      cases hlives
    | false =>
      rw [IncrementalParser.drain] at hdrain
      rw [Connection.drain]
      simp only [hkilled, Bool.false_eq_true, ↓reduceIte]
      rcases hparse : self.parser.try_parse_request req with ⟨status, req', next⟩
      rw [hparse] at hdrain
      cases status with
      | Incomplete =>
        obtain ⟨rfl, rfl⟩ := Prod.mk.inj (Option.some.inj hdrain)
        exact ⟨_, rfl, rfl, fun _ => rfl⟩
      | Error | Complete =>
        obtain ⟨⟨later, last⟩, hlater, heq⟩ := Option.map_eq_some_iff.mp hdrain
        obtain ⟨rfl, rfl⟩ := Prod.mk.inj heq
        obtain ⟨self', hself', hreaches⟩ := @ih req' { self.toService.handle handle_request _ with parser := next } _
          hlater
        refine ⟨self', hself', ?_⟩
        simpa [Service.answer, hkilled] using hreaches

/-- One call of `service_client` handles the reads that it takes data from. -/
theorem Connection.exists_service_client {fuel : Nat} {reads : List ReadCall} {self : Connection σ}
    {results : List ParseResult} {parser : IncrementalParser} (hlives : self.killed = false)
    (hfeed : self.parser.feed_chunks fuel ⟨.Ping, [], []⟩ (taken reads).1 = some (results, parser)) :
    ∃ self' closes, self.service_client handle_request fuel reads = some (self', closes) ∧
      self'.Reaches (self.toService.answer handle_request results) parser ∧
      (self'.killed = false → closes = (taken reads).2) := by
  -- The reads after which the call stops without data.
  have hstop {self : Connection σ} {results : List ParseResult} (h : ([], self.parser) = (results, parser)) :
      self.Reaches (self.toService.answer handle_request results) parser := by
    obtain ⟨rfl, rfl⟩ := Prod.mk.inj h
    exact ⟨rfl, fun _ => rfl⟩
  induction reads generalizing self results with
  | nil => exact ⟨self, _, rfl, hstop (Option.some.inj hfeed), fun _ => rfl⟩
  | cons call reads ih =>
    cases call with
    | eof | eagain | error => exact ⟨self, _, rfl, hstop (Option.some.inj hfeed), fun _ => rfl⟩
    | eintr => exact ih hlives hfeed
    | data bytes =>
      rw [Connection.service_client]
      rw [taken] at hfeed ⊢
      by_cases hshort : bytes.length < kReadSize
      · simp only [hshort, ↓reduceIte] at hfeed ⊢
        obtain ⟨first, middle, later, hdrain, hlater, rfl⟩ := IncrementalParser.feed_chunks_cons hfeed
        obtain ⟨rfl, rfl⟩ := Prod.mk.inj (Option.some.inj hlater)
        obtain ⟨self', hself', hreaches⟩ :=
          @Connection.exists_drain _ handle_request _ _ { self with parser := self.parser.feed bytes } _ _ hdrain
        rw [hself', List.append_nil]
        exact ⟨self', _, by simp, hreaches, fun _ => rfl⟩
      · simp only [hshort, ↓reduceIte] at hfeed ⊢
        obtain ⟨first, middle, later, hdrain, hlater, rfl⟩ := IncrementalParser.feed_chunks_cons hfeed
        obtain ⟨self', hself', hsame, hparser⟩ :=
          @Connection.exists_drain _ handle_request _ _ { self with parser := self.parser.feed bytes } _ _ hdrain
        rw [hself', Service.answer_append, ← hsame]
        cases hkilled : self'.killed with
        | true =>
          rw [Service.answer_of_killed hkilled]
          exact ⟨self', false, by simp [hkilled], ⟨rfl, by simp [hkilled]⟩, by simp [hkilled]⟩
        | false =>
          have hsince : self'.parser = middle := hparser (hsame ▸ hkilled)
          simp only [hkilled, decide_false, Bool.or_self, Bool.false_eq_true, ↓reduceIte]
          exact ih hkilled (hsince ▸ hlater)

/-- The calls on a connection handle, one after the other, the reads that they take
    data from. -/
theorem Connection.exists_serve {fuel : Nat} {wakeups : List (List ReadCall)} {self : Connection σ}
    {results : List ParseResult} {parser : IncrementalParser} (hlives : self.killed = false)
    (hfeed : self.parser.feed_chunks fuel ⟨.Ping, [], []⟩ (received wakeups).1 = some (results, parser)) :
    ∃ self' closes, self.serve handle_request fuel wakeups = some (self', closes) ∧
      self'.Reaches (self.toService.answer handle_request results) parser ∧
      (self'.killed = false → closes = (received wakeups).2) := by
  induction wakeups generalizing self results with
  | nil =>
    obtain ⟨rfl, rfl⟩ := Prod.mk.inj (Option.some.inj hfeed)
    exact ⟨self, _, rfl, ⟨rfl, fun _ => rfl⟩, fun _ => rfl⟩
  | cons reads later ih =>
    rw [Connection.serve]
    rw [received] at hfeed ⊢
    cases hcloses : (taken reads).2 with
    | true =>
      simp only [hcloses, ↓reduceIte] at hfeed ⊢
      obtain ⟨self', closes, hself', hreaches, hend⟩ := Connection.exists_service_client hlives hfeed
      refine ⟨self', closes, ?_, hreaches, fun hkilled => (hend hkilled).trans hcloses⟩
      rw [hself']
      cases hkilled : self'.killed with
      | true => simp [hkilled]
      | false => simp [hend hkilled, hcloses]
    | false =>
      simp only [hcloses, Bool.false_eq_true, ↓reduceIte] at hfeed ⊢
      obtain ⟨first, middle, last, hfirst, hlast, rfl⟩ := IncrementalParser.feed_chunks_append hfeed
      obtain ⟨self', closes, hself', ⟨hsame, hparser⟩, hend⟩ := Connection.exists_service_client hlives hfirst
      rw [hself', Service.answer_append, ← hsame]
      cases hkilled : self'.killed with
      | true =>
        rw [Service.answer_of_killed hkilled]
        exact ⟨self', closes, by simp [hkilled], ⟨rfl, by simp [hkilled]⟩, by simp [hkilled]⟩
      | false =>
        have hsince : self'.parser = middle := hparser (hsame ▸ hkilled)
        simp only [hkilled, hend hkilled, hcloses, Bool.or_self, Bool.false_eq_true, ↓reduceIte]
        exact ih hkilled (hsince ▸ hlast)

/-- With nothing in the way of the writes, what leaves for the client is what the
    loop over bytes gives. -/
theorem Connection.drain_unhindered (fuel : Nat) (req : Request) (store : σ) (parser : IncrementalParser)
    (sent : Bytes) :
    Connection.drain handle_request fuel req { store, writes := some [], sent, parser } =
      (service_loop handle_request fuel parser req store).map fun (bytes, parser, store) =>
        { store, writes := some [], sent := sent ++ bytes, parser } := by
  induction fuel generalizing req store parser sent with
  | zero => rfl
  | succ fuel ih =>
    rw [Connection.drain, service_loop]
    have hwrite (store : σ) (data : Bytes) : ({ store, writes := some [], sent } : Service σ).write data =
        { store, writes := some [], sent := sent ++ data } := by
      cases data <;> simp [Service.write, write_all]
    rcases parser.try_parse_request req with ⟨status, req', next⟩
    cases status with
    | Incomplete => simp [Service.killed]
    | Error =>
      simp only [Service.killed, Option.isNone_some, Bool.false_eq_true, ↓reduceIte, Service.handle, hwrite, ih,
        Option.map_map]
      congr 1
      funext result
      simp
    | Complete =>
      simp only [Service.killed, Option.isNone_some, Bool.false_eq_true, ↓reduceIte, Service.handle, hwrite, ih,
        Option.map_map]
      congr 1
      funext result
      simp

end

/-- No write of these fails. -/
def Unbroken (writes : List WriteCall) : Prop := .broken ∉ writes ∧ .sigpipe ∉ writes

/-- A failure lasts: after it, the next write raises `SIGPIPE`. -/
def Sticky : List WriteCall → Prop
  | [] => True
  | .broken :: writes => writes.head? = some .sigpipe
  | .sigpipe :: _ => True
  | _ :: writes => Sticky writes

/-- Nothing gets through any more. -/
def Silent (writes : Option (List WriteCall)) : Prop := ∀ calls, writes = some calls → calls.head? = some .sigpipe

theorem Unbroken.of_cons {call : WriteCall} {writes : List WriteCall} (h : Unbroken (call :: writes)) :
    Unbroken writes :=
  ⟨fun hmem => h.1 (List.mem_cons_of_mem _ hmem), fun hmem => h.2 (List.mem_cons_of_mem _ hmem)⟩

theorem write_all_unbroken {writes : List WriteCall} (h : Unbroken writes) (data : Bytes) :
    ∃ left, write_all writes data = (data, some left) ∧ Unbroken left := by
  fun_induction write_all writes data with
  | case1 writes => exact ⟨writes, rfl, h⟩
  | case2 data hdata => exact ⟨[], rfl, h⟩
  | case3 n writes c data wire left hloop ih =>
    obtain ⟨left', hrest, hleft⟩ := ih h.of_cons
    obtain ⟨rfl, rfl⟩ := Prod.mk.inj (hloop.symm.trans hrest)
    exact ⟨left', by rw [List.take_append_drop], hleft⟩
  | case4 writes c data ih => exact ih h.of_cons
  | case5 writes c data ih => exact ih h.of_cons
  | case6 writes c data => exact absurd List.mem_cons_self h.1
  | case7 writes c data => exact absurd List.mem_cons_self h.2

/-- A response gets through in full, or is cut short by a failure that lasts. -/
theorem write_all_sticky {writes : List WriteCall} (h : Sticky writes) (data : Bytes) :
    (∃ left, write_all writes data = (data, some left) ∧ Sticky left) ∨
    ((write_all writes data).1 <+: data ∧ Silent (write_all writes data).2) := by
  fun_induction write_all writes data with
  | case1 writes => exact .inl ⟨writes, rfl, h⟩
  | case2 data hdata => exact .inl ⟨[], rfl, h⟩
  | case3 n writes c data wire left hloop ih =>
    rcases ih h with ⟨left', hrest, hleft⟩ | ⟨hpart, hleft⟩
    · obtain ⟨rfl, rfl⟩ := Prod.mk.inj (hloop.symm.trans hrest)
      exact .inl ⟨left', by rw [List.take_append_drop], hleft⟩
    · rw [hloop] at hpart hleft
      refine .inr ⟨?_, hleft⟩
      have hprefix := (List.prefix_append_right_inj ((c :: data).take (n + 1))).mpr hpart
      rwa [List.take_append_drop] at hprefix
  | case4 writes c data ih => exact ih h
  | case5 writes c data ih => exact ih h
  | case6 writes c data => exact .inr ⟨List.nil_prefix, fun calls heq => Option.some.inj heq ▸ h⟩
  | case7 writes c data => exact .inr ⟨List.nil_prefix, nofun⟩

theorem write_all_silent {writes : List WriteCall} (h : writes.head? = some .sigpipe) (data : Bytes) :
    (write_all writes data).1 = [] ∧ Silent (write_all writes data).2 := by
  obtain ⟨later, rfl⟩ : ∃ later, writes = .sigpipe :: later := List.head?_eq_some_iff.mp h
  cases data with
  | nil => exact ⟨rfl, fun calls heq => Option.some.inj heq ▸ rfl⟩
  | cons c data => exact ⟨rfl, nofun⟩

section

variable {handle_request : σ → Request → Bytes × σ}

/-- One turn changes the store as `respond` says, whatever becomes of the response. -/
theorem Service.handle_eq {self : Service σ} {writes : List WriteCall} (hwrites : self.writes = some writes)
    (result : ParseResult) :
    ∃ response, (respond handle_request [result] self.store).1 = [response] ∧
      self.handle handle_request result =
        { store := (respond handle_request [result] self.store).2, writes := (write_all writes response).2,
          sent := self.sent ++ (write_all writes response).1 } := by
  cases result with
  | Error message => exact ⟨_, rfl, by simp [Service.handle, Service.write, hwrites, respond]⟩
  | Complete req => exact ⟨_, rfl, by simp [Service.handle, Service.write, hwrites, respond]⟩

theorem respond_cons (result : ParseResult) (results : List ParseResult) (store : σ) :
    respond handle_request (result :: results) store =
      ((respond handle_request [result] store).1 ++
          (respond handle_request results (respond handle_request [result] store).2).1,
        (respond handle_request results (respond handle_request [result] store).2).2) := by
  cases result <;> rfl

/-- Without a failed write, every result is handled and every response gets through. -/
theorem Service.answer_unbroken {self : Service σ} {writes : List WriteCall} (hwrites : self.writes = some writes)
    (h : Unbroken writes) (results : List ParseResult) :
    ∃ left, self.answer handle_request results =
      { store := (respond handle_request results self.store).2, writes := some left,
        sent := self.sent ++ (respond handle_request results self.store).1.flatten } := by
  induction results generalizing self writes with
  | nil =>
    obtain ⟨store, _, sent⟩ := self
    obtain rfl : _ = some writes := hwrites
    exact ⟨writes, by simp [Service.answer, respond]⟩
  | cons result results ih =>
    obtain ⟨response, hresponse, hhandle⟩ := @Service.handle_eq _ handle_request _ _ hwrites result
    obtain ⟨left, hwrite, hleft⟩ := write_all_unbroken h response
    rw [hwrite] at hhandle
    have hlives : self.killed = false := by simp [Service.killed, hwrites]
    obtain ⟨last, hlast⟩ := @ih (self.handle handle_request result) left (by rw [hhandle]) hleft
    refine ⟨last, ?_⟩
    rw [Service.answer, hlives, respond_cons, hresponse]
    simp only [Bool.false_eq_true, ↓reduceIte]
    rw [hlast, hhandle]
    simp

/-- However the writes come out, the first few results are handled, all of them
    unless the process is killed; and where a failure lasts, what gets through is a
    first part of the responses to them. -/
theorem Service.exists_answer {self : Service σ} (results : List ParseResult) :
    ∃ k, (self.answer handle_request results).store = (respond handle_request (results.take k) self.store).2 ∧
      ((self.answer handle_request results).killed = false → results.take k = results) ∧
      ∃ wire, (self.answer handle_request results).sent = self.sent ++ wire ∧
        (Silent self.writes → wire = []) ∧
        ((∀ writes, self.writes = some writes → Sticky writes) →
          wire <+: (respond handle_request (results.take k) self.store).1.flatten) := by
  induction results generalizing self with
  | nil => exact ⟨0, rfl, fun _ => rfl, [], by simp [Service.answer], fun _ => rfl, fun _ => List.nil_prefix⟩
  | cons result results ih =>
    cases hwrites : self.writes with
    | none =>
      have hkilled : self.killed = true := by simp [Service.killed, hwrites]
      refine ⟨0, ?_, ?_, [], ?_, fun _ => rfl, fun _ => List.nil_prefix⟩
      · rw [Service.answer_of_killed hkilled]
        rfl
      · rw [Service.answer_of_killed hkilled, hkilled]
        exact nofun
      · rw [Service.answer_of_killed hkilled, List.append_nil]
    | some writes =>
      have hlives : self.killed = false := by simp [Service.killed, hwrites]
      obtain ⟨response, hresponse, hhandle⟩ := @Service.handle_eq _ handle_request _ _ hwrites result
      obtain ⟨k, hstore, hall, wire, hsent, hsilent, hsticky⟩ := @ih (self.handle handle_request result)
      have hanswer : self.answer handle_request (result :: results) =
          (self.handle handle_request result).answer handle_request results := by
        simp [Service.answer, hlives]
      rw [hhandle] at hstore hsent hsilent hsticky
      refine ⟨k + 1, ?_, ?_, (write_all writes response).1 ++ wire, ?_, ?_, ?_⟩
      · rw [hanswer, List.take_succ_cons, respond_cons, ← hstore, hhandle]
      · rw [hanswer, List.take_succ_cons]
        exact fun hend => congrArg _ (hall hend)
      · rw [hanswer, ← List.append_assoc, hhandle, hsent]
      · intro hquiet
        obtain ⟨hwire, hleft⟩ := write_all_silent (hquiet writes rfl) response
        rw [hwire, hsilent hleft]
        rfl
      · intro hlasts
        rw [List.take_succ_cons, respond_cons, hresponse, List.flatten_append, List.flatten_singleton]
        rcases write_all_sticky (hlasts writes rfl) response with ⟨left, hwrite, hleft⟩ | ⟨hpart, hleft⟩
        · rw [hwrite] at hsticky ⊢
          exact (List.prefix_append_right_inj response).mpr
            (hsticky fun calls heq => Option.some.inj heq ▸ hleft)
        · rw [hsilent hleft, List.append_nil]
          exact hpart.trans (List.prefix_append _ _)

end

/-- A connection from its first read to its last. Where every command line of the
    stream is short enough, the requests executed and the responses given depend on
    the stream alone: not on how the reads cut it, nor on which calls were
    interrupted or would have blocked, nor on whether the responses got through.
    Only a write to a connection that is known to be broken cuts them short, for it
    kills the process. The client receives all of the responses if no write fails,
    and a first part of them if a failure lasts. -/
theorem serve_of_stream (handle_request : σ → Request → Bytes × σ) {stream : Bytes}
    (hlines : requestFormat.LinesBounded stream) (store : σ) :
    ∃ results final,
      (∃ parser, ({} : IncrementalParser).feed_chunks (stream.length + 1) ⟨.Ping, [], []⟩ [stream] =
        some (results, parser) ∧
        parser.buffer_ = final) ∧
      ∀ (wakeups : List (List ReadCall)) (writes : List WriteCall), (received wakeups).1.flatten = stream →
        ∃ self closes k, Connection.serve handle_request (stream.length + 1) wakeups { store, writes := some writes } =
            some (self, closes) ∧
          self.store = (respond handle_request (results.take k) store).2 ∧
          (self.killed = false → results.take k = results ∧ self.parser.buffer_ = final ∧
            closes = (received wakeups).2) ∧
          (Unbroken writes → self.killed = false ∧ self.sent = (respond handle_request results store).1.flatten) ∧
          (Sticky writes → self.sent <+: (respond handle_request (results.take k) store).1.flatten) := by
  obtain ⟨results, final, hfeed⟩ := IncrementalParser.exists_feed_chunks hlines
  refine ⟨results, final, hfeed [stream] _ _ (by simp) (Nat.lt_succ_self _), ?_⟩
  intro wakeups writes hstream
  obtain ⟨parser, hparser, hfinal⟩ := hfeed (received wakeups).1 _ ⟨.Ping, [], []⟩ hstream (Nat.lt_succ_self _)
  obtain ⟨self, closes, hserve, ⟨hself, hsame⟩, hcloses⟩ :=
    @Connection.exists_serve σ handle_request _ wakeups { store, writes := some writes } _ _ rfl hparser
  obtain ⟨k, hstore, hall, wire, hsent, -, hsticky⟩ :=
    @Service.exists_answer σ handle_request { store, writes := some writes } results
  rw [← hself] at hstore hall hsent hsame
  refine ⟨self, closes, k, hserve, hstore, fun hlives => ?_, fun hunbroken => ?_, fun hlasts => ?_⟩
  · exact ⟨hall hlives, by rw [hsame hlives, hfinal], hcloses hlives⟩
  · obtain ⟨left, hanswer⟩ := @Service.answer_unbroken σ handle_request { store, writes := some writes } writes
      rfl hunbroken
      results
    rw [hanswer] at hself
    exact ⟨by simp [hself, Service.killed], by simp [hself]⟩
  · rw [hsent]
    exact hsticky fun calls heq => Option.some.inj heq ▸ hlasts

/-- A request cut in two by the reads, a malformed one, and a third one. The response
    to the first goes out one byte at a time, then the peer is gone, and the third
    response kills the process. -/
theorem serve_of_stream_example :
    let stream := ascii "SET k 2" ++ LF :: ascii "hi" ++ LF :: ascii "NOPE" ++ LF :: ascii "PING" ++ [LF]
    let wakeups : List (List ReadCall) :=
      [[.eintr, .data (stream.take 5)], [.eagain], [.data (stream.drop 5)], [.eof, .data (ascii "PING")]]
    let writes : List WriteCall := [.count 0, .eagain, .eintr, .count 1, .broken, .sigpipe]
    requestFormat.LinesBounded stream ∧ ∃ (results : List ParseResult) (self : Connection KVStore) (k : Nat),
      Connection.serve KVStore.handle_request (stream.length + 1) wakeups { store := {}, writes := some writes } =
        some (self, false) ∧ self.killed = true ∧ self.sent = ascii "OK" ++ [LF] ∧
      self.store = (respond KVStore.handle_request (results.take k) {}).2 ∧
      self.sent <+: (respond KVStore.handle_request (results.take k) {}).1.flatten := by
  intro stream wakeups writes
  have hlines : requestFormat.LinesBounded stream := LineFormat.linesBounded_of_length_le (by decide)
  obtain ⟨results, _, _, hserve⟩ := serve_of_stream KVStore.handle_request hlines {}
  obtain ⟨self, closes, k, hself, hstore, _, _, hsent⟩ := hserve wakeups writes (by decide)
  have hrun : (Connection.serve KVStore.handle_request (stream.length + 1) wakeups
      { store := {}, writes := some writes }).map (fun found => (found.1.killed, found.1.sent, found.2)) =
        some (true, ascii "OK" ++ [LF], false) := by decide +kernel
  rw [hself, Option.map_some] at hrun
  obtain ⟨hkilled, hbytes, rfl⟩ : _ ∧ _ ∧ _ := by simpa using hrun
  exact ⟨hlines, results, self, k, hself, hkilled, by simpa using hbytes, hstore, hsent rfl⟩

end kv.worker
