import Kv.Client.BuildRequest

open Incremental

namespace kv.client

open protocol

/-- One result and an empty buffer, from the bytes of one request. -/
def OneReply (bytes : Bytes) : Prop :=
  ∀ (self : IncrementalParser) (req : Request), self.buffer_ = [] →
    ∃ fuel result self', (self.feed bytes).drain fuel req = some ([result], self') ∧ self'.buffer_ = []

theorem oneReply_iff_drains (bytes : Bytes) :
    OneReply bytes ↔ ∃ result, Drains requestFormat.decode bytes [result] [] := by
  constructor
  · intro hone
    obtain ⟨fuel, result, self', hdrain, hbuffer⟩ := hone {} ⟨.Ping, [], []⟩ rfl
    refine ⟨result, ?_⟩
    have hdrains := IncrementalParser.drains_of_drain hdrain
    rwa [hbuffer] at hdrains
  · rintro ⟨result, hdrains⟩ self req hempty
    have hfed : Drains requestFormat.decode (self.feed bytes).buffer_ [result] [] := by
      simpa [IncrementalParser.feed, hempty] using hdrains
    obtain ⟨self', hdrain, hbuffer⟩ := IncrementalParser.drain_of_drains hfed (Nat.lt_succ_self _) req
    exact ⟨_, result, self', hdrain, hbuffer⟩

/-- Exactly the frames that end with the bytes sent give one reply. -/
theorem oneReply_iff_decode (bytes : Bytes) :
    OneReply bytes ↔ ∃ result, requestFormat.decode bytes = some (result, []) := by
  rw [oneReply_iff_drains]
  constructor
  · rintro ⟨result, hdrains⟩
    cases hdrains with
    | emit hemit htail =>
      cases htail
      exact ⟨result, hemit⟩
  · rintro ⟨result, hemit⟩
    exact ⟨result, .emit hemit (.wait (by decide))⟩

/-- A line that announces no payload gives one reply, whatever it holds. -/
private theorem oneReply_of_line {line : Bytes} (hlf : LF ∉ line) (hcr : line.getLast? ≠ some CR)
    (hset : ∀ key n, ¬ SetHeader line key n) : OneReply (line ++ [LF]) := by
  rw [oneReply_iff_decode, decodeRequest_line [] hlf, strip_trailing_cr_of_ne hcr]
  obtain ⟨result, hitem⟩ := requestVerdict_item fun ⟨key, n, hheader⟩ => hset key n hheader
  exact ⟨result, by rw [hitem]; rfl⟩

private theorem not_setHeader_of_cmd {cmd rest : Bytes} (hcmd : (cmd ++ SP :: rest).take 3 ≠ ascii "SET") :
    ∀ key n, ¬ SetHeader (cmd ++ SP :: rest) key n := by
  rintro key n ⟨len, hline, _, _⟩
  apply hcmd
  rw [hline]
  rfl

theorem oneReply_get {key : Bytes} (hkey : IsToken key) : OneReply (ascii "GET" ++ SP :: key ++ [LF]) := by
  refine oneReply_of_line ?_ (hkey.getLast?_ne_cr _) (not_setHeader_of_cmd ?_)
  · simp only [List.mem_append, List.mem_cons, not_or]
    exact ⟨by decide, by decide, hkey.not_mem (by decide)⟩
  · change ascii "GET" ≠ ascii "SET"
    decide

theorem oneReply_delete {key : Bytes} (hkey : IsToken key) : OneReply (ascii "DELETE" ++ SP :: key ++ [LF]) := by
  refine oneReply_of_line ?_ (hkey.getLast?_ne_cr _) (not_setHeader_of_cmd ?_)
  · simp only [List.mem_append, List.mem_cons, not_or]
    exact ⟨by decide, by decide, hkey.not_mem (by decide)⟩
  · change ascii "DEL" ≠ ascii "SET"
    decide

theorem oneReply_ping : OneReply (ascii "PING" ++ [LF]) := by
  rw [oneReply_iff_decode]
  exact ⟨.Complete ⟨.Ping, [], []⟩, by decide⟩

/-- A rejected `SET` header leaves its value behind, so a `SET` gives one reply
    only when the server accepts its key and its length. -/
theorem oneReply_set_iff {key : Bytes} (hkey : IsToken key) (value : Bytes) :
    OneReply (encode_request ⟨.Set, key, value⟩) ↔ ValidKey key ∧ value.length ≤ kMaxValueLen := by
  rw [oneReply_iff_decode]
  constructor
  · rintro ⟨result, hemit⟩
    have hdigits : ∀ c ∈ to_string value.length, SP < c := fun c hc => isdigit_gt_space (isdigit_of_mem_to_string hc)
    have hlf : LF ∉ ascii "SET" ++ SP :: key ++ SP :: to_string value.length := by
      simp only [List.mem_append, List.mem_cons, not_or]
      exact ⟨⟨by decide, by decide, hkey.not_mem (by decide)⟩, by decide, not_mem_of_gt_space hdigits (by decide)⟩
    obtain ⟨c, hlast, hc⟩ :=
      exists_getLast?_of_gt_space (ascii "SET" ++ SP :: key) (to_string_ne_nil value.length) hdigits
    rw [encode_request_set, decodeRequest_line _ hlf, strip_of_gt_space hlast hc] at hemit
    by_cases hset : ∃ key' n, SetHeader (ascii "SET" ++ SP :: key ++ SP :: to_string value.length) key' n
    · obtain ⟨key', n, len, hline, hkey', hlen⟩ := hset
      have htokens := split_spaces_three (ascii "SET") (by decide) (hkey.not_mem (by decide))
        (not_mem_of_gt_space hdigits (by decide))
      rw [hline, split_spaces_three (ascii "SET") (by decide) (hkey'.not_mem (by decide))
        (not_mem_of_gt_space hlen.gt_space (by decide))] at htokens
      simp only [List.cons.injEq, true_and, and_true] at htokens
      obtain ⟨rfl, rfl⟩ := htokens
      have hn : value.length = n := by simpa using hlen.2.2.2.1
      exact ⟨hkey', hn ▸ hlen.2.2.2.2⟩
    · -- The header is rejected alone, and the value stays in the buffer.
      obtain ⟨rejected, hitem⟩ := requestVerdict_item hset
      rw [hitem] at hemit
      simp [Verdict.finish] at hemit
  · rintro ⟨hvalid, hlen⟩
    have hwf : Request.WellFormed ⟨.Set, key, value⟩ := ⟨hvalid, hlen⟩
    exact ⟨_, by simpa using inverts_encode_request.whole _ hwf []⟩

/-- The token lists whose request the server answers as one request: any `GET`,
    `DELETE` or `PING`, and a `SET` with a valid key and at most 1 MiB of value. -/
def Sendable (tokens : List Bytes) : Prop :=
  ∀ cmd key words, tokens = cmd :: key :: words → (cmd = ascii "SET" ∨ cmd = ascii "set") →
    ValidKey key ∧ ([SP].intercalate words).length ≤ kMaxValueLen

theorem sendable_of_not_set {cmd : Bytes} {args : List Bytes} (hcmd : cmd ≠ ascii "SET" ∧ cmd ≠ ascii "set") :
    Sendable (cmd :: args) := by
  rintro cmd' key words heq hset
  obtain ⟨rfl, _⟩ := List.cons.inj heq
  exact absurd hset (not_or.mpr hcmd)

/-- Every accepted command of whitespace-free tokens is answered with one reply
    and leaves nothing behind, exactly when it is no `SET` with a key or a
    length that the server rejects. -/
theorem build_request_one_reply_iff {tokens : List Bytes} (htokens : ∀ token ∈ tokens, IsToken token)
    {out req : Request} (hbuild : build_request tokens out = .ok req) :
    OneReply (encode_request req) ↔ Sendable tokens := by
  rcases build_request_cases hbuild with ⟨cmd, key, hcmd, rfl, rfl⟩ | ⟨cmd, key, hcmd, rfl, rfl⟩ |
    ⟨cmd, key, word, words, hcmd, rfl, rfl⟩ | ⟨cmd, hcmd, rfl, rfl⟩
  · have hone := oneReply_get (htokens key (by simp))
    refine iff_of_true ?_ (sendable_of_not_set ?_)
    · simpa [encode_request, show ascii "GET " = ascii "GET" ++ [SP] from by decide] using hone
    · rcases hcmd with rfl | rfl <;> decide
  · have hone := oneReply_delete (htokens key (by simp))
    refine iff_of_true ?_ (sendable_of_not_set ?_)
    · simpa [encode_request, show ascii "DELETE " = ascii "DELETE" ++ [SP] from by decide] using hone
    · rcases hcmd with rfl | rfl <;> decide
  · rw [oneReply_set_iff (htokens key (by simp))]
    constructor
    · rintro hvalid cmd' key' words' heq _
      simp only [List.cons.injEq] at heq
      obtain ⟨_, rfl, rfl⟩ := heq
      exact hvalid
    · intro hsend
      exact hsend cmd key (word :: words) rfl hcmd
  · refine iff_of_true oneReply_ping (sendable_of_not_set ?_)
    rcases hcmd with rfl | rfl <;> decide

/-- `set k hello world`. -/
theorem build_request_one_reply_set :
    let tokens := [ascii "set", ascii "k", ascii "hello", ascii "world"]
    let req : Request := ⟨.Set, ascii "k", ascii "hello world"⟩
    (∀ token ∈ tokens, IsToken token) ∧ build_request tokens ⟨.Ping, [], []⟩ = .ok req ∧
      (OneReply (encode_request req) ↔ Sendable tokens) := by
  intro tokens req
  have htokens : ∀ token ∈ tokens, IsToken token := by decide
  have hbuild : build_request tokens ⟨.Ping, [], []⟩ = .ok req := by rfl
  exact ⟨htokens, hbuild, build_request_one_reply_iff htokens hbuild⟩

/-- `SET <0x01> GET x`: the server rejects the key, answers the header with an
    error, and then executes the value as a command of its own. -/
theorem build_request_two_replies :
    let tokens := [ascii "SET", [0x01], ascii "GET", ascii "x"]
    let req : Request := ⟨.Set, [0x01], ascii "GET x"⟩
    (∀ token ∈ tokens, IsToken token) ∧ build_request tokens ⟨.Ping, [], []⟩ = .ok req ∧
      (({} : IncrementalParser).feed (encode_request req)).drain 3 ⟨.Ping, [], []⟩ =
        some ([.Error (ascii "malformed SET request"), .Complete ⟨.Get, ascii "x", []⟩],
          { buffer_ := [], error_message_ := ascii "malformed SET request" }) ∧
      ¬ OneReply (encode_request req) := by
  intro tokens req
  refine ⟨by decide, by rfl, by decide, ?_⟩
  rw [oneReply_set_iff (by decide)]
  decide

end kv.client
