import Kv.Protocol.Request.Termination
import Kv.Protocol.Response.RoundTrip

open Incremental

namespace kv.protocol

/-- The reply that reports an error with this message is parsed as one `ERROR`
    response that carries the message, however the reply is cut into reads. -/
def Readable (message : Bytes) : Prop :=
  ∀ (chunks : List Bytes) (resp : Response), chunks.flatten = encode_error_response message →
    ∃ fuel parsed resp' self, ({} : ResponseParser).feed_chunks fuel resp chunks =
      some ([.Complete parsed], resp', self) ∧
      parsed.type = .Error ∧ parsed.message = message ∧ self.buffer_ = []

theorem readable_of_wellFormed {message : Bytes} (hwf : (⟨.Error, [], message⟩ : Response).WellFormed) :
    Readable message := by
  intro chunks resp hchunks
  let sent : Response × Bytes := (⟨.Error, [], message⟩, encode_error_response message)
  have hsent : ∀ m ∈ [sent], m.1.WellFormed ∧ m.1.Encoded m.2 := by
    intro m hm
    rw [List.mem_singleton.mp hm]
    exact ⟨hwf, .error⟩
  have hcut : Cut Prod.snd [sent] chunks.flatten [sent] [] [] :=
    ⟨rfl, by simpa [sent] using hchunks, fun _ => rfl, by simp⟩
  have hfeeds :
      Feeds responseFormat.decode ({} : ResponseParser).buffer_ chunks [.Complete (Response.carried sent.1)] [] :=
    inverts_encoded.feeds_cut LineFormat.lawful_decode LineFormat.decode_nil hsent hcut
  obtain ⟨results, resp', self, hself, hbuffer, hcarried⟩ :=
    ResponseParser.feed_chunks_of_feeds hfeeds (Nat.lt_succ_self _) resp
  obtain ⟨result, rfl, hresult⟩ : ∃ result, results = [result] ∧ result.carried = .Complete ⟨.Error, [], message⟩ := by
    obtain ⟨result, rfl⟩ := List.length_eq_one_iff.mp (by simpa using congrArg List.length hcarried)
    exact ⟨result, rfl, by simpa [sent, ResponseResult.carried, Response.carried, Response.assign] using hcarried⟩
  cases result with
  | Error message' => simp [ResponseResult.carried] at hresult
  | Complete parsed =>
    refine ⟨_, parsed, resp', self, hself, ?_⟩
    obtain ⟨type, value, message'⟩ := parsed
    cases type <;> simp [ResponseResult.carried, Response.carried, Response.assign] at hresult
    exact ⟨rfl, hresult, hbuffer⟩

/-- What the parser makes of the first read of a readable reply. -/
theorem Readable.first_item {message : Bytes} (hread : Readable message) (chunk : Bytes) (chunks : List Bytes)
    (hchunks : (chunk :: chunks).flatten = encode_error_response message) {item : ResponseResult} {rest : Bytes}
    (hemit : responseFormat.decode chunk = some (item, rest)) : item.carried = .Complete ⟨.Error, [], message⟩ := by
  obtain ⟨fuel, parsed, resp', self, hfeed, htype, hmessage, -⟩ := hread _ ⟨.Ok, [], []⟩ hchunks
  obtain ⟨items, hfeeds, hcarried⟩ := ResponseParser.feeds_of_feed_chunks hfeed
  cases hfeeds with
  | cons hdrain _ =>
    rw [show ({} : ResponseParser).buffer_ ++ chunk = chunk from rfl] at hdrain
    obtain ⟨later, rfl, -⟩ := hdrain.of_emit hemit
    simp only [List.map_cons, List.map_nil, List.cons_append, List.cons.injEq] at hcarried
    rw [← hcarried.1]
    obtain ⟨type, value, message'⟩ := parsed
    subst htype hmessage
    rfl

/-- A line that is too long is rejected if its LF comes in a read of its own,
    and a CR at the end of the message is taken for one of the line. -/
theorem Readable.wellFormed {message : Bytes} (hlf : LF ∉ message) (hread : Readable message) :
    (⟨.Error, [], message⟩ : Response).WellFormed := by
  have hline : LF ∉ ascii "ERROR " ++ message := by
    rw [List.mem_append, not_or]
    exact ⟨by decide, hlf⟩
  refine ⟨hlf, fun hcr => ?_, ?_⟩
  · obtain ⟨front, rfl⟩ := List.getLast?_eq_some_iff.mp hcr
    have hstrip : strip_trailing_cr (ascii "ERROR " ++ (front ++ [CR])) = ascii "ERROR " ++ front := by
      rw [← List.append_assoc]
      simp [strip_trailing_cr]
    have hemit : responseFormat.decode (encode_error_response (front ++ [CR])) =
        some (.Complete ⟨.Error, [], front⟩, []) := by
      refine (LineFormat.decode_line (F := responseFormat) [] hline).trans ?_
      simp only [responseFormat, hstrip, responseVerdict_error, Verdict.finish]
    have hfirst := hread.first_item _ [] (by simp) hemit
    simp [ResponseResult.carried, Response.carried, Response.assign] at hfirst
  · by_contra hlong
    have hover : (ascii "ERROR " ++ message).length > responseFormat.limit := by
      rw [List.length_append]
      exact Nat.lt_of_not_le hlong
    have hemit := LineFormat.decode_open (F := responseFormat) hline
    rw [if_pos hover] at hemit
    have hfirst := hread.first_item _ [[LF]] (by simp [encode_error_response]) hemit
    simp [responseFormat, ResponseResult.carried] at hfirst

theorem readable_iff {message : Bytes} (hlf : LF ∉ message) :
    Readable message ↔ message.getLast? ≠ some CR ∧ (ascii "ERROR ").length + message.length ≤ kMaxResponseLineLen :=
  ⟨fun hread => (hread.wellFormed hlf).2, fun hmessage => readable_of_wellFormed ⟨hlf, hmessage⟩⟩

/-- The first word of a command line whose trailing CR has been stripped. -/
def commandWord (line : Bytes) : Bytes := (split_spaces line).getD 0 []

def knownWords : List Bytes := [[], ascii "GET", ascii "DELETE", ascii "PING", ascii "SET"]

/-- The messages that do not repeat any part of what was sent. -/
def fixedMessages : List Bytes :=
  [ascii "command line too long", ascii "empty command", ascii "malformed GET request",
    ascii "malformed DELETE request", ascii "malformed PING request", ascii "malformed SET request",
    ascii "expected newline after value"]

theorem readable_of_mem_fixedMessages {message : Bytes} (hmem : message ∈ fixedMessages) : Readable message :=
  readable_of_wellFormed ((by decide : ∀ m ∈ fixedMessages, (⟨.Error, [], m⟩ : Response).WellFormed) message hmem)

theorem commandWord_isPrefix (line : Bytes) : commandWord line <+: line := by
  by_cases hmem : SP ∈ line
  · obtain ⟨word, rest, rfl, hword⟩ := List.eq_append_cons_of_mem hmem
    rw [commandWord, split_spaces, List.splitOn_append_cons_self_of_not_mem hword, List.getD_cons_zero]
    exact List.prefix_append _ _
  · rw [commandWord, split_spaces, List.splitOn_eq_singleton hmem, List.getD_cons_zero]

theorem strip_trailing_cr_isPrefix (line : Bytes) : strip_trailing_cr line <+: line := by
  unfold strip_trailing_cr
  split
  · exact List.dropLast_prefix line
  · exact List.prefix_rfl

/-- Only a word that is no command shows up in the message. -/
theorem requestVerdict_word_cases (line : Bytes) :
    (commandWord line ∈ knownWords ∧
      ((∃ message ∈ fixedMessages, requestVerdict line = .item (.Error message)) ∨
        (∃ req, requestVerdict line = .item (.Complete req)) ∨ ∃ key n, requestVerdict line = setVerdict key n)) ∨
    (commandWord line ∉ knownWords ∧
      requestVerdict line = .item (.Error (ascii "unknown command: " ++ commandWord line))) := by
  have htokens : split_spaces line ≠ [] := List.splitOn_ne_nil SP line
  generalize hverdict : requestVerdict line = verdict
  unfold requestVerdict at hverdict
  unfold commandWord
  dsimp only at hverdict
  generalize (split_spaces line).getD 0 [] = cmd at hverdict ⊢
  split at hverdict
  · rename_i hempty
    obtain rfl : cmd = [] := by simpa [htokens] using hempty
    exact .inl ⟨by decide, .inl ⟨_, by decide, hverdict.symm⟩⟩
  rename_i hempty
  split at hverdict
  · rename_i hcmd
    rw [Bool.or_eq_true, decide_eq_true_eq, decide_eq_true_eq] at hcmd
    split at hverdict
    · refine .inl ⟨?_, .inl ⟨_, ?_, hverdict.symm⟩⟩ <;> rcases hcmd with rfl | rfl <;> decide
    · refine .inl ⟨?_, .inr (.inl ⟨_, hverdict.symm⟩)⟩
      rcases hcmd with rfl | rfl <;> decide
  rename_i hget_del
  split at hverdict
  · rename_i hcmd
    subst hcmd
    split at hverdict
    · exact .inl ⟨by decide, .inl ⟨_, by decide, hverdict.symm⟩⟩
    · exact .inl ⟨by decide, .inr (.inl ⟨_, hverdict.symm⟩)⟩
  rename_i hping
  split at hverdict
  · rename_i hcmd
    subst hcmd
    split at hverdict
    · exact .inl ⟨by decide, .inl ⟨_, by decide, hverdict.symm⟩⟩
    · exact .inl ⟨by decide, .inr (.inr ⟨_, _, hverdict.symm⟩)⟩
  · rename_i hset
    refine .inr ⟨?_, hverdict.symm⟩
    simp_all [knownWords]

/-- The words that an error reply can repeat. The limit is what the response
    line leaves after `ERROR unknown command: `. -/
def Echoable (word : Bytes) : Prop := word.length ≤ 4073 ∧ word.getLast? ≠ some CR

instance (word : Bytes) : Decidable (Echoable word) := inferInstanceAs (Decidable (_ ∧ _))

theorem readable_unknown_iff {word : Bytes} (hlf : LF ∉ word) (hne : word ≠ []) :
    Readable (ascii "unknown command: " ++ word) ↔ Echoable word := by
  have hmessage : LF ∉ ascii "unknown command: " ++ word := by
    rw [List.mem_append, not_or]
    exact ⟨by decide, hlf⟩
  have hlast : (ascii "unknown command: " ++ word).getLast? = word.getLast? := by
    rw [List.getLast?_append, List.getLast?_eq_some_getLast hne]
    rfl
  have hlength : (ascii "ERROR ").length + (ascii "unknown command: " ++ word).length = 23 + word.length := by
    rw [List.length_append, ← Nat.add_assoc]
    rfl
  rw [readable_iff hmessage, hlast, hlength, and_comm, Echoable, kMaxResponseLineLen]
  exact and_congr_left fun _ => by omega

/-- What a line is answered with can be read exactly if its word can be
    repeated. -/
theorem readable_line_iff {line : Bytes} (rest : Bytes) (hline : LF ∉ line) :
    (∀ message final, requestFormat.decode (line ++ LF :: rest) = some (.Error message, final) → Readable message) ↔
      Echoable (commandWord (strip_trailing_cr line)) := by
  rw [decodeRequest_line rest hline]
  rcases requestVerdict_word_cases (strip_trailing_cr line) with ⟨hknown, hverdict⟩ | ⟨hunknown, hverdict⟩
  · refine iff_of_true (fun message final hfinish => ?_) ((by decide : ∀ word ∈ knownWords, Echoable word) _ hknown)
    apply readable_of_mem_fixedMessages
    rcases hverdict with ⟨fixed, hfixed, hitem⟩ | ⟨req, hitem⟩ | ⟨key, n, hset⟩
    · simp only [hitem, Verdict.finish, Option.some.injEq, Prod.mk.injEq, ParseResult.Error.injEq] at hfinish
      exact hfinish.1 ▸ hfixed
    · simp [hitem, Verdict.finish] at hfinish
    · rw [hset, setVerdict] at hfinish
      rcases Verdict.finish_payload_cases LF n _ _ rest with ⟨_, hout⟩ | ⟨_, _, _, _, hout⟩ | ⟨_, _, _, _, _, _, hout⟩
      · rw [hout] at hfinish
        simp at hfinish
      · rw [hout] at hfinish
        simp at hfinish
      · rw [hout, Option.some.injEq, Prod.mk.injEq, ParseResult.Error.injEq] at hfinish
        rw [← hfinish.1]
        decide
  · have hlf : LF ∉ commandWord (strip_trailing_cr line) := fun hmem =>
      hline ((strip_trailing_cr_isPrefix line).subset ((commandWord_isPrefix _).subset hmem))
    have hne : commandWord (strip_trailing_cr line) ≠ [] := fun hnil => hunknown (by rw [hnil]; decide)
    rw [hverdict, ← readable_unknown_iff hlf hne]
    simp [Verdict.finish]

/-- The first words of the lines of a stream. Lines start at the frame
    boundaries, so the bytes of a value are none of them. -/
def CommandWord (stream word : Bytes) : Prop :=
  ∃ line rest, Reaches requestFormat.frame stream (line ++ LF :: rest) ∧ LF ∉ line ∧
    word = commandWord (strip_trailing_cr line)

/-- The server's own client reads every error reply, exactly if every line of
    the stream has a first word that can be repeated. -/
theorem error_replies_readable_iff {fuel : Nat} {req : Request} {chunks : List Bytes} {results : List ParseResult}
    {self : IncrementalParser} (hfeed : ({} : IncrementalParser).feed_chunks fuel req chunks = some (results, self)) :
    (∀ message, .Error message ∈ results → Readable message) ↔
      ∀ word, CommandWord chunks.flatten word → word.length ≤ 4073 ∧ word.getLast? ≠ some CR := by
  have hdrain : Drains requestFormat.decode chunks.flatten results self.buffer_ :=
    (IncrementalParser.feeds_of_feed_chunks hfeed).drains LineFormat.lawful_decode LineFormat.decode_nil
  constructor
  · rintro hread word ⟨line, rest, hreach, hline, rfl⟩
    apply (readable_line_iff rest hline).mp
    intro message final hemit
    exact hread message (hdrain.mem_items_iff.mpr ⟨_, final, LineFormat.reaches_decode_iff.mpr hreach, hemit⟩)
  · intro hwords message hmem
    obtain ⟨buffer, final, hreach, hemit⟩ := hdrain.mem_items_iff.mp hmem
    by_cases hlf : LF ∈ buffer
    · obtain ⟨line, rest, rfl, hline⟩ := List.eq_append_cons_of_mem hlf
      exact (readable_line_iff rest hline).mpr
        (hwords _ ⟨line, rest, LineFormat.reaches_decode_iff.mp hreach, hline, rfl⟩)
        message final hemit
    · rw [decodeRequest_open hlf] at hemit
      split at hemit
      · obtain ⟨rfl, -⟩ : message = ascii "command line too long" ∧ _ := by simpa [eq_comm] using hemit
        exact readable_of_mem_fixedMessages (by decide)
      · simp at hemit

/-- An unknown command and a `GET` without a key, in three reads. -/
theorem error_replies_readable_two :
    let chunks := [ascii "FO", ascii "O 1" ++ LF :: ascii "GE", ascii "T" ++ [LF]]
    let results : List ParseResult := [.Error (ascii "unknown command: FOO"), .Error (ascii "malformed GET request")]
    (∃ self, ({} : IncrementalParser).feed_chunks 3 ⟨.Ping, [], []⟩ chunks = some (results, self)) ∧
      ((∀ message, .Error message ∈ results → Readable message) ↔
        ∀ word, CommandWord chunks.flatten word → word.length ≤ 4073 ∧ word.getLast? ≠ some CR) := by
  intro chunks results
  have hfeed : ({} : IncrementalParser).feed_chunks 3 ⟨.Ping, [], []⟩ chunks =
      some (results, { buffer_ := [], error_message_ := ascii "malformed GET request" }) := by decide
  exact ⟨⟨_, hfeed⟩, error_replies_readable_iff hfeed⟩

theorem decode_unknown {word : Bytes} (hlf : LF ∉ word) (hcr : word.getLast? ≠ some CR) (hsp : SP ∉ word)
    (hword : word ∉ knownWords) :
    requestFormat.decode (word ++ [LF]) = some (.Error (ascii "unknown command: " ++ word), []) := by
  have hfirst : commandWord word = word := by
    rw [commandWord, split_spaces, List.splitOn_eq_singleton hsp, List.getD_cons_zero]
  rw [decodeRequest_line [] hlf, strip_trailing_cr_of_ne hcr]
  rcases requestVerdict_word_cases word with ⟨hknown, _⟩ | ⟨_, hverdict⟩
  · exact absurd (hfirst ▸ hknown) hword
  · rw [hverdict, hfirst]
    rfl

/-- `FOO<CR><CR><LF>` is answered with a message that ends in a CR, which the
    client strips. A word of 4074 bytes comes in one read with its LF, so the
    server repeats it; the client gives up on the reply as a line too long. -/
theorem error_reply_unreadable :
    let short := ascii "unknown command: FOO" ++ [CR]
    let word : Bytes := List.replicate 4074 0x41
    let long := ascii "unknown command: " ++ word
    (({} : IncrementalParser).feed_chunks 2 ⟨.Ping, [], []⟩ [ascii "FOO" ++ [CR, CR, LF]] =
        some ([.Error short], { buffer_ := [], error_message_ := short }) ∧
      ({} : ResponseParser).feed_chunks 2 ⟨.Ok, [], []⟩ [encode_error_response short] =
        some ([.Complete ⟨.Error, [], ascii "unknown command: FOO"⟩], ⟨.Error, [], ascii "unknown command: FOO"⟩, {}) ∧
      ¬ Readable short) ∧
    ((word ++ [LF]).length ≤ 4096 ∧
      (∃ fuel self, ({} : IncrementalParser).feed_chunks fuel ⟨.Ping, [], []⟩ [word ++ [LF]] =
        some ([.Error long], self)) ∧
      (({} : ResponseParser).feed (ascii "ERROR " ++ long)).try_parse_response ⟨.Ok, [], []⟩ =
        (.Error, ⟨.Ok, [], []⟩,
          { buffer_ := ascii "ERROR " ++ long, error_message_ := ascii "response line too long" }) ∧
      ¬ Readable long) := by
  intro short word long
  have hshort : LF ∉ short := by decide
  have hword {c : UInt8} (hc : c ≠ 0x41) : c ∉ word := fun hmem => hc (List.eq_of_mem_replicate hmem)
  have hlength : word.length = 4074 := List.length_replicate
  have hlast : word.getLast? ≠ some CR := fun hcr => hword (by decide) (List.mem_of_getLast? hcr)
  have hunknown : word ∉ knownWords := by
    intro hknown
    have hknown_length := (by decide : ∀ known ∈ knownWords, known.length ≤ 6) word hknown
    omega
  have hopen : LF ∉ ascii "ERROR " ++ long := by
    simp only [long, List.mem_append, not_or]
    exact ⟨by decide, by decide, hword (by decide)⟩
  have hover : (ascii "ERROR " ++ long).length = 4097 := by
    simp only [long, List.length_append, hlength]
    rfl
  refine ⟨⟨by decide, by decide, fun hread => ((readable_iff hshort).mp hread).1 (by decide)⟩, ?_, ?_, ?_,
    fun hread => ?_⟩
  · rw [List.length_append, hlength]
    decide
  · have hdrain : Drains requestFormat.decode ([] ++ (word ++ [LF])) [.Error long] [] :=
      .emit (decode_unknown (hword (by decide)) hlast (hword (by decide)) hunknown) (.wait LineFormat.decode_nil)
    have hfeeds : Feeds requestFormat.decode ({} : IncrementalParser).buffer_ [word ++ [LF]] [.Error long] [] :=
      .cons hdrain .nil
    obtain ⟨self, hfeed, -⟩ := IncrementalParser.feed_chunks_of_feeds hfeeds (Nat.lt_succ_self _) ⟨.Ping, [], []⟩
    exact ⟨_, self, hfeed⟩
  · have hdecode := LineFormat.decode_open (F := responseFormat) hopen
    rw [if_pos (by rw [hover]; decide)] at hdecode
    rw [ResponseParser.try_parse_response_eq]
    exact congrArg _ hdecode
  · have hfits := ((hread.wellFormed (fun hmem => hopen (List.mem_append_right _ hmem)))).2.2
    rw [← List.length_append, hover] at hfits
    exact absurd hfits (by decide)

end kv.protocol
