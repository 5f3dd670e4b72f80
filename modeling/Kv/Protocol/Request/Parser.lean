import Kv.Protocol.Messages

namespace kv.protocol

structure IncrementalParser where
  buffer_ : Bytes := []
  error_message_ : Bytes := []
  deriving DecidableEq, Repr

/-- `"SET " + key(<=250) + " " + length(<=10 digits)`. -/
def kMaxCommandLineLen : Nat := 4 + kMaxKeyLen + 1 + 10

def IncrementalParser.feed (self : IncrementalParser) (data : Bytes) : IncrementalParser :=
  { self with buffer_ := self.buffer_ ++ data }

/-- The `Error` exits set the message and erase a number of leading bytes;
    `out_request` is left as it was. -/
def IncrementalParser.reject (self : IncrementalParser) (out_request : Request) (message : Bytes)
    (erased : Nat) : ParseStatus × Request × IncrementalParser :=
  (.Error, out_request, { buffer_ := self.buffer_.drop erased, error_message_ := message })

/-- The `Complete` exits overwrite every field of `out_request`. -/
def IncrementalParser.accept (self : IncrementalParser) (req : Request) (erased : Nat) :
    ParseStatus × Request × IncrementalParser :=
  (.Complete, req, { self with buffer_ := self.buffer_.drop erased })

def IncrementalParser.try_parse_request (self : IncrementalParser) (out_request : Request) :
    ParseStatus × Request × IncrementalParser :=
  match self.buffer_.idxOf? LF with
  | none =>
    if self.buffer_.length > kMaxCommandLineLen then
      -- This exit alone has no `buffer_.erase`.
      self.reject out_request (ascii "command line too long") 0
    else (.Incomplete, out_request, self)
  | some line_end =>
    let line := strip_trailing_cr (self.buffer_.take line_end)
    let tokens := split_spaces line
    let cmd := tokens.getD 0 []
    if tokens.isEmpty || cmd.isEmpty then
      self.reject out_request (ascii "empty command") (line_end + 1)
    else if cmd = ascii "GET" || cmd = ascii "DELETE" then
      if tokens.length ≠ 2 || !is_valid_key (tokens.getD 1 []) then
        self.reject out_request (ascii "malformed " ++ cmd ++ ascii " request") (line_end + 1)
      else
        self.accept { command := if cmd = ascii "GET" then .Get else .Delete
                      key := tokens.getD 1 [], value := [] } (line_end + 1)
    else if cmd = ascii "PING" then
      if tokens.length ≠ 1 then
        self.reject out_request (ascii "malformed PING request") (line_end + 1)
      else self.accept { command := .Ping, key := [], value := [] } (line_end + 1)
    else if cmd = ascii "SET" then
      match (if tokens.length ≠ 3 || !is_valid_key (tokens.getD 1 []) then none
        else parse_length (tokens.getD 2 [])) with
      | none => self.reject out_request (ascii "malformed SET request") (line_end + 1)
      | some value_len =>
        let value_start := line_end + 1
        let needed := value_start + value_len + 1
        if self.buffer_.length < needed then (.Incomplete, out_request, self)
        else if self.buffer_[value_start + value_len]? = some LF then
          self.accept { command := .Set, key := tokens.getD 1 []
                        value := (self.buffer_.drop value_start).take value_len } needed
        else self.reject out_request (ascii "expected newline after value") needed
    else self.reject out_request (ascii "unknown command: " ++ cmd) (line_end + 1)

/-- What one call of `try_parse_request` hands to the loop around it. -/
inductive ParseResult
  | Complete (req : Request)
  | Error (message : Bytes)
  deriving DecidableEq, Repr

/-- The loop `while (try_parse_request(req) != Incomplete)` which
    `service_client` and `handle_client` run after each read. The fuel bounds
    the number of calls; `none` is a loop that has not ended yet. -/
def IncrementalParser.drain : Nat → IncrementalParser → Request →
    Option (List ParseResult × IncrementalParser)
  | 0, _, _ => none
  | fuel + 1, self, req =>
    match self.try_parse_request req with
    | (.Incomplete, _, self) => some ([], self)
    | (.Complete, req, self) =>
      (drain fuel self req).map fun (results, self) => (.Complete req :: results, self)
    | (.Error, req, self) =>
      (drain fuel self req).map fun (results, self') => (.Error self.error_message_ :: results, self')

/-- A sequence of reads, each followed by a drain. Every drain starts with a
    fresh `Request req`, whose contents are indeterminate. -/
def IncrementalParser.feed_chunks (fuel : Nat) : IncrementalParser → Request → List Bytes →
    Option (List ParseResult × IncrementalParser)
  | self, _, [] => some ([], self)
  | self, req, chunk :: chunks => do
    let (results, self) ← (self.feed chunk).drain fuel req
    let (later, self) ← self.feed_chunks fuel req chunks
    some (results ++ later, self)

end kv.protocol
