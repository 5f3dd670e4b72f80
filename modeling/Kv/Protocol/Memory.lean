import Kv.Lib.BufferBound
import Kv.Protocol.Request.Grammar
import Kv.Protocol.Response.Parser

open Incremental

namespace kv.protocol

/-- The states of a parser on one connection. A read delivers at most `n` bytes,
    and the next one is made only once a call has returned `Incomplete`. -/
inductive Connection {P out : Type} (feed : P → Bytes → P) (try_parse : P → out → ParseStatus × out × P) (n : Nat)
    (start : P) : P → Prop
  | start : Connection feed try_parse n start start
  | read {self : P} {data : Bytes} {o : out} (hconn : Connection feed try_parse n start self)
      (hwait : (try_parse self o).1 = .Incomplete) (hlen : data.length ≤ n) :
      Connection feed try_parse n start (feed self data)
  | call {self : P} {o : out} (hconn : Connection feed try_parse n start self) :
      Connection feed try_parse n start (try_parse self o).2.2

theorem IncrementalParser.try_parse_request_incomplete_iff {self : IncrementalParser} {out_request : Request} :
    (self.try_parse_request out_request).1 = .Incomplete ↔ requestFormat.decode self.buffer_ = none := by
  rw [try_parse_request_eq]
  rcases requestFormat.decode self.buffer_ with - | ⟨result, rest⟩
  · simp [after]
  · cases result <;> simp [after]

theorem ResponseParser.try_parse_response_incomplete_iff {self : ResponseParser} {out_response : Response} :
    (self.try_parse_response out_response).1 = .Incomplete ↔ responseFormat.decode self.buffer_ = none := by
  rw [try_parse_response_eq]
  rcases responseFormat.decode self.buffer_ with - | ⟨result, rest⟩
  · simp [after]
  · cases result <;> simp [after]

theorem IncrementalParser.holds_of_connection {n : Nat} {self : IncrementalParser}
    (hconn : Connection feed try_parse_request n {} self) : Holds requestFormat.decode n self.buffer_ := by
  induction hconn with
  | start => exact .empty
  | read _ hwait hlen ih => exact ih.read (try_parse_request_incomplete_iff.mp hwait) hlen
  | @call self _ _ ih =>
    rw [try_parse_request_eq]
    rcases hdecode : requestFormat.decode self.buffer_ with - | ⟨result, rest⟩
    · exact ih
    · cases result <;> exact ih.emit hdecode

theorem ResponseParser.holds_of_connection {n : Nat} {self : ResponseParser}
    (hconn : Connection feed try_parse_response n {} self) : Holds responseFormat.decode n self.buffer_ := by
  induction hconn with
  | start => exact .empty
  | read _ hwait hlen ih => exact ih.read (try_parse_response_incomplete_iff.mp hwait) hlen
  | @call self _ _ ih =>
    rw [try_parse_response_eq]
    rcases hdecode : responseFormat.decode self.buffer_ with - | ⟨result, rest⟩
    · exact ih
    · cases result <;> exact ih.emit hdecode

theorem SetHeader.length_le {line key : Bytes} {n : Nat} (hheader : SetHeader line key n) :
    line.length ≤ kMaxCommandLineLen ∧ n ≤ kMaxValueLen := by
  obtain ⟨len, rfl, hkey, hlen⟩ := hheader
  refine ⟨?_, hlen.2.2.2.2⟩
  have hkeylen := hkey.2.1
  have hdigits := hlen.2.1
  have hword : (ascii "SET").length = 3 := by decide
  simp only [List.length_append, List.length_cons, hword, kMaxCommandLineLen, kMaxKeyLen]
  omega

/-- Only a `SET` header is followed by a payload. -/
theorem exists_setHeader_of_payload {line : Bytes} {n : Nat} {accept : Bytes → ParseResult} {reject : ParseResult}
    (hverdict : requestVerdict line = .payload n accept reject) : ∃ key, SetHeader line key n := by
  by_cases hset : ∃ key k, SetHeader line key k
  · obtain ⟨key, k, hheader⟩ := hset
    rw [hheader.verdict_eq, setVerdict, Verdict.payload.injEq] at hverdict
    exact ⟨key, hverdict.1 ▸ hheader⟩
  · obtain ⟨result, hitem⟩ := requestVerdict_item hset
    simp [hitem] at hverdict

/-- Only a `VALUE` line is followed by a payload. -/
theorem length_le_of_response_payload {line : Bytes} {n : Nat} {accept : Bytes → ResponseResult}
    {reject : ResponseResult} (hverdict : responseVerdict line = .payload n accept reject) :
    line.length ≤ 16 ∧ n ≤ kMaxValueLen := by
  unfold responseVerdict at hverdict
  split_ifs at hverdict with _ _ _ _ _ hvalue
  split at hverdict
  · simp at hverdict
  · rename_i value_len hparsed
    obtain ⟨rfl, _⟩ := Verdict.payload.inj hverdict
    obtain ⟨_, hdigits, _, _, hmax⟩ := (parse_length_eq_some_iff _ _).mp hparsed
    refine ⟨?_, hmax⟩
    rw [List.length_drop] at hdigits
    omega

theorem request_length_le_of_wait {buffer : Bytes} (hwait : requestFormat.decode buffer = none) :
    buffer.length ≤ kMaxValueLen + 267 := by
  have hbound : buffer.length ≤ (kMaxCommandLineLen + 1) + 1 + kMaxValueLen := by
    refine LineFormat.length_le_of_wait ?_ (by decide) hwait
    intro line n accept reject hverdict
    obtain ⟨key, hheader⟩ := exists_setHeader_of_payload hverdict
    have hline := length_le_strip_trailing_cr line
    have hlength := hheader.length_le
    omega
  calc buffer.length ≤ (kMaxCommandLineLen + 1) + 1 + kMaxValueLen := hbound
    _ = kMaxValueLen + 267 := Nat.add_comm _ _

theorem response_length_le_of_wait {buffer : Bytes} (hwait : responseFormat.decode buffer = none) :
    buffer.length ≤ kMaxValueLen + 18 := by
  have hbound : buffer.length ≤ 17 + 1 + kMaxValueLen := by
    refine LineFormat.length_le_of_wait ?_ (by decide) hwait
    intro line n accept reject hverdict
    have hline := length_le_strip_trailing_cr line
    have hlength := length_le_of_response_payload hverdict
    omega
  omega

/-- A parser that waits holds at most a header line, its CR and LF, and a value
    of the largest size. Whatever the peer sends, and in whatever pieces, a
    connection never holds more than this and one read. -/
theorem parser_memory_bounded :
    (∀ (self : IncrementalParser) (out_request : Request),
      (self.try_parse_request out_request).1 = .Incomplete →
        (self.try_parse_request out_request).2.2.buffer_.length ≤ kMaxValueLen + 267) ∧
    (∀ (self : ResponseParser) (out_response : Response),
      (self.try_parse_response out_response).1 = .Incomplete →
        (self.try_parse_response out_response).2.2.buffer_.length ≤ kMaxValueLen + 18) ∧
    (∀ (n : Nat) (self : IncrementalParser),
      Connection IncrementalParser.feed IncrementalParser.try_parse_request n {} self →
        self.buffer_.length ≤ kMaxValueLen + 267 + n) ∧
    (∀ (n : Nat) (self : ResponseParser),
      Connection ResponseParser.feed ResponseParser.try_parse_response n {} self →
        self.buffer_.length ≤ kMaxValueLen + 18 + n) := by
  refine ⟨fun self out hstatus => ?_, fun self out hstatus => ?_, fun n self hconn => ?_, fun n self hconn => ?_⟩
  · have hwait := IncrementalParser.try_parse_request_incomplete_iff.mp hstatus
    rw [IncrementalParser.try_parse_request_eq, hwait]
    exact request_length_le_of_wait hwait
  · have hwait := ResponseParser.try_parse_response_incomplete_iff.mp hstatus
    rw [ResponseParser.try_parse_response_eq, hwait]
    exact response_length_le_of_wait hwait
  · exact (IncrementalParser.holds_of_connection hconn).length_le (fun _ => request_length_le_of_wait)
      fun _ _ _ => LineFormat.decode_rest_length_le
  · exact (ResponseParser.holds_of_connection hconn).length_le (fun _ => response_length_le_of_wait)
      fun _ _ _ => LineFormat.decode_rest_length_le

/-- A `SET` and a `VALUE` whose values are still to come. -/
theorem parser_memory_bounded_waiting :
    let self := ({} : IncrementalParser).feed (ascii "SET k 5" ++ [LF])
    let peer := ({} : ResponseParser).feed (ascii "VALUE 5" ++ [LF])
    (self.try_parse_request ⟨.Ping, [], []⟩).2.2.buffer_.length ≤ kMaxValueLen + 267 ∧
      (peer.try_parse_response ⟨.Ok, [], []⟩).2.2.buffer_.length ≤ kMaxValueLen + 18 ∧
      self.buffer_.length ≤ kMaxValueLen + 267 + 4096 ∧ peer.buffer_.length ≤ kMaxValueLen + 18 + 4096 := by
  intro self peer
  have hbounded := parser_memory_bounded
  exact ⟨hbounded.1 self ⟨.Ping, [], []⟩ (by decide), hbounded.2.1 peer ⟨.Ok, [], []⟩ (by decide),
    hbounded.2.2.1 4096 self (.read (o := ⟨.Ping, [], []⟩) .start (by decide) (by decide)),
    hbounded.2.2.2 4096 peer (.read (o := ⟨.Ok, [], []⟩) .start (by decide) (by decide))⟩

end kv.protocol
