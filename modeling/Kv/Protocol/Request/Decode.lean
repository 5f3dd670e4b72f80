import Kv.Lib.LineFraming
import Kv.Protocol.Request.Parser

open Incremental

namespace kv.protocol

/-- A `SET` header is decided only by the `n` bytes after it and their LF. -/
def setVerdict (key : Bytes) (n : Nat) : Verdict UInt8 ParseResult :=
  .payload n (fun value => .Complete ⟨.Set, key, value⟩) (.Error (ascii "expected newline after value"))

/-- The verdict on a command line whose trailing CR has been stripped. -/
def requestVerdict (line : Bytes) : Verdict UInt8 ParseResult :=
  let tokens := split_spaces line
  let cmd := tokens.getD 0 []
  if tokens.isEmpty || cmd.isEmpty then .item (.Error (ascii "empty command"))
  else if cmd = ascii "GET" || cmd = ascii "DELETE" then
    if tokens.length ≠ 2 || !is_valid_key (tokens.getD 1 []) then
      .item (.Error (ascii "malformed " ++ cmd ++ ascii " request"))
    else .item (.Complete { command := if cmd = ascii "GET" then .Get else .Delete
                            key := tokens.getD 1 [], value := [] })
  else if cmd = ascii "PING" then
    if tokens.length ≠ 1 then .item (.Error (ascii "malformed PING request"))
    else .item (.Complete { command := .Ping, key := [], value := [] })
  else if cmd = ascii "SET" then
    match (if tokens.length ≠ 3 || !is_valid_key (tokens.getD 1 []) then none
      else parse_length (tokens.getD 2 [])) with
    | none => .item (.Error (ascii "malformed SET request"))
    | some value_len => setVerdict (tokens.getD 1 []) value_len
  else .item (.Error (ascii "unknown command: " ++ cmd))

/-- The request side of the protocol as a line format. -/
def requestFormat : LineFormat UInt8 ParseResult where
  eol := LF
  limit := kMaxCommandLineLen
  overlong := .Error (ascii "command line too long")
  verdict line := requestVerdict (strip_trailing_cr line)

/-- The state one call leaves, given what it decoded. -/
def IncrementalParser.after (self : IncrementalParser) (out_request : Request) :
    Option (ParseResult × Bytes) → ParseStatus × Request × IncrementalParser
  | none => (.Incomplete, out_request, self)
  | some (.Complete req, rest) => (.Complete, req, { self with buffer_ := rest })
  | some (.Error message, rest) => (.Error, out_request, { buffer_ := rest, error_message_ := message })

/-- With a full line buffered, a call is decided by the line's verdict and the
    bytes after its LF. -/
theorem IncrementalParser.try_parse_request_line (self : IncrementalParser) (out_request : Request)
    {line rest : Bytes} (hbuffer : self.buffer_ = line ++ LF :: rest) (hline : LF ∉ line) :
    self.try_parse_request out_request =
      self.after out_request ((requestVerdict (strip_trailing_cr line)).finish LF rest) := by
  have hdrop (n : Nat) : self.buffer_.drop (line.length + 1 + n) = rest.drop n := by
    rw [hbuffer, Nat.add_assoc, List.drop_append, Nat.add_comm 1 n]
    simp
  have hdrop_line : self.buffer_.drop (line.length + 1) = rest := by simpa using hdrop 0
  have htake : self.buffer_.take line.length = line := by simp [hbuffer]
  have hlength : self.buffer_.length = line.length + 1 + rest.length := by
    simp only [hbuffer, List.length_append, List.length_cons]
    omega
  have hget (n : Nat) : self.buffer_[line.length + 1 + n]? = rest[n]? := by
    rw [← List.getElem?_drop, hdrop_line]
  have hneeded (n : Nat) : self.buffer_.length < line.length + 1 + (n + 1) ↔ rest.length < n + 1 := by
    omega
  unfold try_parse_request
  rw [hbuffer, idxOf?_append_cons rest hline, ← hbuffer]
  simp only [htake, requestVerdict]
  generalize split_spaces (strip_trailing_cr line) = tokens
  by_cases hempty : (tokens.isEmpty || (tokens.getD 0 []).isEmpty) = true
  · simp only [if_pos hempty, reject, Verdict.finish, after, hdrop_line]
  by_cases hget_del : (decide (tokens.getD 0 [] = ascii "GET") || decide (tokens.getD 0 [] = ascii "DELETE")) = true
  · by_cases hbad : (decide (tokens.length ≠ 2) || !is_valid_key (tokens.getD 1 [])) = true
    · simp only [if_neg hempty, if_pos hget_del, if_pos hbad, reject, Verdict.finish, after, hdrop_line]
    · simp only [if_neg hempty, if_pos hget_del, if_neg hbad, accept, Verdict.finish, after, hdrop_line]
  by_cases hping : tokens.getD 0 [] = ascii "PING"
  · by_cases hbad : tokens.length ≠ 1
    · simp only [if_neg hempty, if_neg hget_del, if_pos hping, if_pos hbad, reject, Verdict.finish, after,
        hdrop_line]
    · simp only [if_neg hempty, if_neg hget_del, if_pos hping, if_neg hbad, accept, Verdict.finish, after,
        hdrop_line]
  by_cases hset : tokens.getD 0 [] = ascii "SET"
  · simp only [if_neg hempty, if_neg hget_del, if_neg hping, if_pos hset]
    generalize (if (decide (tokens.length ≠ 3) || !is_valid_key (tokens.getD 1 [])) = true then none
      else parse_length (tokens.getD 2 [])) = parsed
    cases parsed with
    | none => simp only [reject, Verdict.finish, after, hdrop_line]
    | some value_len =>
      simp only [Nat.add_assoc (line.length + 1) value_len 1, hneeded, hget, hdrop_line, setVerdict,
        Verdict.finish, reject, accept, hdrop]
      by_cases hshort : rest.length < value_len + 1
      · simp only [if_pos hshort, after]
      by_cases hlf : rest[value_len]? = some LF
      · simp only [if_neg hshort, if_pos hlf, after]
      · simp only [if_neg hshort, if_neg hlf, after]
  · simp only [if_neg hempty, if_neg hget_del, if_neg hping, if_neg hset, reject, Verdict.finish, after,
      hdrop_line]

/-- Without an LF a call either waits or reports an overlong line, and in both
    cases leaves the buffer as it is. -/
theorem IncrementalParser.try_parse_request_open (self : IncrementalParser) (out_request : Request)
    (hopen : LF ∉ self.buffer_) :
    self.try_parse_request out_request =
      self.after out_request (if self.buffer_.length > kMaxCommandLineLen then
        some (.Error (ascii "command line too long"), self.buffer_) else none) := by
  have hnone : self.buffer_.idxOf? LF = none := List.idxOf?_eq_none_iff.mpr hopen
  unfold try_parse_request
  rw [hnone]
  dsimp only
  split <;> simp [reject, after]

theorem decodeRequest_line {line : Bytes} (rest : Bytes) (hline : LF ∉ line) :
    requestFormat.decode (line ++ LF :: rest) = (requestVerdict (strip_trailing_cr line)).finish LF rest :=
  LineFormat.decode_line (F := requestFormat) rest hline

theorem decodeRequest_open {buffer : Bytes} (hopen : LF ∉ buffer) :
    requestFormat.decode buffer =
      if buffer.length > kMaxCommandLineLen then some (.Error (ascii "command line too long"), buffer)
      else none :=
  LineFormat.decode_open (F := requestFormat) hopen

/-- The parser decodes its line format. A call depends on the stored message
    and on `out_request` only in leaving them as they were. -/
theorem IncrementalParser.try_parse_request_eq (self : IncrementalParser) (out_request : Request) :
    self.try_parse_request out_request = self.after out_request (requestFormat.decode self.buffer_) := by
  by_cases hmem : LF ∈ self.buffer_
  · obtain ⟨line, rest, hbuffer, hline⟩ := List.eq_append_cons_of_mem hmem
    rw [self.try_parse_request_line out_request hbuffer hline, hbuffer, decodeRequest_line rest hline]
  · rw [self.try_parse_request_open out_request hmem, decodeRequest_open hmem]

end kv.protocol
