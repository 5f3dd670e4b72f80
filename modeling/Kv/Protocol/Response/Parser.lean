import Kv.Lib.LineFraming
import Kv.Protocol.Messages

open Incremental

namespace kv.protocol

structure ResponseParser where
  buffer_ : Bytes := []
  error_message_ : Bytes := []
  deriving DecidableEq, Repr

def kMaxResponseLineLen : Nat := 4096

def ResponseParser.feed (self : ResponseParser) (data : Bytes) : ResponseParser :=
  { self with buffer_ := self.buffer_ ++ data }

def ResponseParser.reject (self : ResponseParser) (out_response : Response) (message : Bytes)
    (erased : Nat) : ParseStatus × Response × ResponseParser :=
  (.Error, out_response, { buffer_ := self.buffer_.drop erased, error_message_ := message })

def ResponseParser.accept (self : ResponseParser) (resp : Response) (erased : Nat) :
    ParseStatus × Response × ResponseParser :=
  (.Complete, resp, { self with buffer_ := self.buffer_.drop erased })

/-- Unlike the request side, a `Complete` exit assigns only the fields that its
    type carries: `value` and `message` otherwise keep their earlier contents. -/
def ResponseParser.try_parse_response (self : ResponseParser) (out_response : Response) :
    ParseStatus × Response × ResponseParser :=
  match self.buffer_.idxOf? LF with
  | none =>
    if self.buffer_.length > kMaxResponseLineLen then
      self.reject out_response (ascii "response line too long") 0
    else (.Incomplete, out_response, self)
  | some line_end =>
    let line := strip_trailing_cr (self.buffer_.take line_end)
    if line = ascii "OK" then self.accept { out_response with type := .Ok } (line_end + 1)
    else if line = ascii "DELETED" then self.accept { out_response with type := .Deleted } (line_end + 1)
    else if line = ascii "NOT_FOUND" then self.accept { out_response with type := .NotFound } (line_end + 1)
    else if line = ascii "PONG" then self.accept { out_response with type := .Pong } (line_end + 1)
    else if line = ascii "ERROR" || (ascii "ERROR ").isPrefixOf line then
      self.accept { out_response with type := .Error
                                      message := if line.length > 6 then line.drop 6 else [] } (line_end + 1)
    else if (ascii "VALUE ").isPrefixOf line then
      match parse_length (line.drop 6) with
      | none => self.reject out_response (ascii "malformed VALUE response") (line_end + 1)
      | some value_len =>
        let value_start := line_end + 1
        let needed := value_start + value_len + 1
        if self.buffer_.length < needed then (.Incomplete, out_response, self)
        else if self.buffer_[value_start + value_len]? = some LF then
          self.accept { out_response with type := .Value
                                          value := (self.buffer_.drop value_start).take value_len } needed
        else self.reject out_response (ascii "expected newline after value") needed
    else self.reject out_response (ascii "unknown response: " ++ line) (line_end + 1)

inductive ResponseResult
  | Complete (resp : Response)
  | Error (message : Bytes)
  deriving DecidableEq, Repr

/-- The drain loop on the response side. One `Response` serves all calls, so
    fields of earlier responses may show through in later ones. -/
def ResponseParser.drain : Nat → ResponseParser → Response →
    Option (List ResponseResult × Response × ResponseParser)
  | 0, _, _ => none
  | fuel + 1, self, resp =>
    match self.try_parse_response resp with
    | (.Incomplete, resp, self) => some ([], resp, self)
    | (.Complete, resp, self) =>
      (drain fuel self resp).map fun (results, final) => (.Complete resp :: results, final)
    | (.Error, resp, self) =>
      (drain fuel self resp).map fun (results, final) => (.Error self.error_message_ :: results, final)

def ResponseParser.feed_chunks (fuel : Nat) : ResponseParser → Response → List Bytes →
    Option (List ResponseResult × Response × ResponseParser)
  | self, resp, [] => some ([], resp, self)
  | self, resp, chunk :: chunks => do
    let (results, resp, self) ← (self.feed chunk).drain fuel resp
    let (later, resp, self) ← self.feed_chunks fuel resp chunks
    some (results ++ later, resp, self)

/-- The verdict on a response line whose trailing CR has been stripped. Fields
    that the line does not carry are empty. -/
def responseVerdict (line : Bytes) : Verdict UInt8 ResponseResult :=
  if line = ascii "OK" then .item (.Complete ⟨.Ok, [], []⟩)
  else if line = ascii "DELETED" then .item (.Complete ⟨.Deleted, [], []⟩)
  else if line = ascii "NOT_FOUND" then .item (.Complete ⟨.NotFound, [], []⟩)
  else if line = ascii "PONG" then .item (.Complete ⟨.Pong, [], []⟩)
  else if line = ascii "ERROR" || (ascii "ERROR ").isPrefixOf line then
    .item (.Complete ⟨.Error, [], if line.length > 6 then line.drop 6 else []⟩)
  else if (ascii "VALUE ").isPrefixOf line then
    match parse_length (line.drop 6) with
    | none => .item (.Error (ascii "malformed VALUE response"))
    | some value_len =>
      .payload value_len (fun value => .Complete ⟨.Value, value, []⟩) (.Error (ascii "expected newline after value"))
  else .item (.Error (ascii "unknown response: " ++ line))

/-- The response side of the protocol as a line format. -/
def responseFormat : LineFormat UInt8 ResponseResult where
  eol := LF
  limit := kMaxResponseLineLen
  overlong := .Error (ascii "response line too long")
  verdict line := responseVerdict (strip_trailing_cr line)

/-- Assigning to `out` the fields that a response of this type carries. -/
def Response.assign (out resp : Response) : Response :=
  match resp.type with
  | .Value => { out with type := .Value, value := resp.value }
  | .Error => { out with type := .Error, message := resp.message }
  | type => { out with type := type }

/-- The state one call leaves, given what it decoded. -/
def ResponseParser.after (self : ResponseParser) (out_response : Response) :
    Option (ResponseResult × Bytes) → ParseStatus × Response × ResponseParser
  | none => (.Incomplete, out_response, self)
  | some (.Complete resp, rest) => (.Complete, out_response.assign resp, { self with buffer_ := rest })
  | some (.Error message, rest) => (.Error, out_response, { buffer_ := rest, error_message_ := message })

private theorem ResponseParser.try_parse_response_line (self : ResponseParser) (out_response : Response)
    {line rest : Bytes} (hbuffer : self.buffer_ = line ++ LF :: rest) (hline : LF ∉ line) :
    self.try_parse_response out_response =
      self.after out_response ((responseVerdict (strip_trailing_cr line)).finish LF rest) := by
  have hdrop (n : Nat) : self.buffer_.drop (line.length + 1 + n) = rest.drop n := by
    rw [hbuffer, Nat.add_assoc, List.drop_append, Nat.add_comm 1 n]
    simp
  have hdrop_line : self.buffer_.drop (line.length + 1) = rest := by simpa using hdrop 0
  have htake : self.buffer_.take line.length = line := by simp [hbuffer]
  have hlength : self.buffer_.length = line.length + 1 + rest.length := by
    simp only [hbuffer, List.length_append, List.length_cons]
    omega
  have hget (n : Nat) : self.buffer_[line.length + 1 + n]? = rest[n]? := by
    rw [← List.getElem?_drop, hdrop_line]
  have hneeded (n : Nat) : self.buffer_.length < line.length + 1 + (n + 1) ↔ rest.length < n + 1 := by
    omega
  unfold try_parse_response
  rw [hbuffer, idxOf?_append_cons rest hline, ← hbuffer]
  simp only [htake, responseVerdict]
  generalize strip_trailing_cr line = line'
  by_cases hok : line' = ascii "OK"
  · simp only [if_pos hok, accept, Verdict.finish, after, Response.assign, hdrop_line]
  by_cases hdeleted : line' = ascii "DELETED"
  · simp only [if_neg hok, if_pos hdeleted, accept, Verdict.finish, after, Response.assign, hdrop_line]
  by_cases hmissing : line' = ascii "NOT_FOUND"
  · simp only [if_neg hok, if_neg hdeleted, if_pos hmissing, accept, Verdict.finish, after, Response.assign,
      hdrop_line]
  by_cases hpong : line' = ascii "PONG"
  · simp only [if_neg hok, if_neg hdeleted, if_neg hmissing, if_pos hpong, accept, Verdict.finish, after,
      Response.assign, hdrop_line]
  by_cases herror : (decide (line' = ascii "ERROR") || (ascii "ERROR ").isPrefixOf line') = true
  · simp only [if_neg hok, if_neg hdeleted, if_neg hmissing, if_neg hpong, if_pos herror, accept,
      Verdict.finish, after, Response.assign, hdrop_line]
  by_cases hvalue : (ascii "VALUE ").isPrefixOf line' = true
  · simp only [if_neg hok, if_neg hdeleted, if_neg hmissing, if_neg hpong, if_neg herror, if_pos hvalue]
    cases parse_length (line'.drop 6) with
    | none => simp only [reject, Verdict.finish, after, hdrop_line]
    | some value_len =>
      simp only [Nat.add_assoc (line.length + 1) value_len 1, hneeded, hget, hdrop_line, Verdict.finish,
        reject, accept, hdrop]
      by_cases hshort : rest.length < value_len + 1
      · simp only [if_pos hshort, after]
      by_cases hlf : rest[value_len]? = some LF
      · simp only [if_neg hshort, if_pos hlf, after, Response.assign]
      · simp only [if_neg hshort, if_neg hlf, after]
  · simp only [if_neg hok, if_neg hdeleted, if_neg hmissing, if_neg hpong, if_neg herror, if_neg hvalue,
      reject, Verdict.finish, after, hdrop_line]

/-- The response parser decodes its line format. -/
theorem ResponseParser.try_parse_response_eq (self : ResponseParser) (out_response : Response) :
    self.try_parse_response out_response = self.after out_response (responseFormat.decode self.buffer_) := by
  by_cases hmem : LF ∈ self.buffer_
  · obtain ⟨line, rest, hbuffer, hline⟩ := List.eq_append_cons_of_mem hmem
    rw [self.try_parse_response_line out_response hbuffer hline, hbuffer]
    exact congrArg _ (LineFormat.decode_line (F := responseFormat) rest hline).symm
  · have hnone : self.buffer_.idxOf? LF = none := List.idxOf?_eq_none_iff.mpr hmem
    have hopen := LineFormat.decode_open (F := responseFormat) hmem
    unfold try_parse_response
    rw [hnone, hopen]
    change (if self.buffer_.length > kMaxResponseLineLen then _ else _) =
      self.after out_response (if self.buffer_.length > kMaxResponseLineLen then _ else none)
    split <;> simp [reject, after, responseFormat]

theorem ResponseParser.eq_of_incomplete {self self' : ResponseParser} {out resp : Response}
    (hparse : self.try_parse_response out = (.Incomplete, resp, self')) : resp = out ∧ self' = self := by
  rw [try_parse_response_eq] at hparse
  unfold after at hparse
  split at hparse <;> simp_all

end kv.protocol
