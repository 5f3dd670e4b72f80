import Kv.Protocol.Memory
import Kv.Router.SendRequest

open Incremental

namespace kv.detector

open kv.protocol

/-- `ping_once`, by the outcomes of `connect_to` and `set_recv_timeout`, of the
    calls of `write`, and of the reads from whatever peer this is; a read that times
    out is one that finds nothing. -/
def ping_once (fuel : Nat) (connected timeouts : Except Bytes Unit) (writes : List Syscall) (peer : Nat → Bytes) :
    Option (Bool × Nat) :=
  match connected, timeouts with
  | .ok _, .ok _ =>
    match stream.send_request fuel ⟨.Ping, [], []⟩ writes peer with
    | none => none
    | some (.error _, reads) => some (false, reads)
    | some (.ok resp, reads) => some (resp.type = .Pong, reads)
  | _, _ => some (false, 0)

/-- The bytes that the first reads deliver, up to one that finds nothing. -/
def arrived : Nat → (Nat → Bytes) → Bytes
  | 0, _ => []
  | n + 1, peer =>
    match (peer 0).take kResponseReadSize with
    | [] => []
    | c :: data => c :: data ++ arrived n fun i => peer (i + 1)

/-- The first line is `PONG`. -/
def PongFirst (bytes : Bytes) : Prop :=
  ascii "PONG" ++ [LF] <+: bytes ∨ ascii "PONG" ++ [CR, LF] <+: bytes

section

variable {buffer more : Bytes}

theorem PongFirst.append (hpong : PongFirst buffer) (more : Bytes) : PongFirst (buffer ++ more) :=
  hpong.imp (fun h => h.trans (List.prefix_append _ _)) (fun h => h.trans (List.prefix_append _ _))

/-- Only the line `PONG` says that the peer is alive. -/
theorem eq_pong_of_verdict {line rest final : Bytes} {resp : Response}
    (hverdict : (responseVerdict line).finish LF rest = some (.Complete resp, final)) (htype : resp.type = .Pong) :
    line = ascii "PONG" := by
  have hitem {result : ResponseResult} (hresult : ∀ resp, result = .Complete resp → resp.type ≠ .Pong)
      (hfinish : (Verdict.item result).finish LF rest = some (.Complete resp, final)) : line = ascii "PONG" :=
    absurd htype (hresult resp (Prod.mk.inj (Option.some.inj hfinish)).1)
  unfold responseVerdict at hverdict
  split at hverdict
  · exact hitem (by simp) hverdict
  split at hverdict
  · exact hitem (by simp) hverdict
  split at hverdict
  · exact hitem (by simp) hverdict
  split at hverdict
  · next hpong => exact hpong
  split at hverdict
  · exact hitem (by simp) hverdict
  split at hverdict
  · split at hverdict
    · exact hitem (by simp) hverdict
    · next n _ =>
      rcases Verdict.finish_payload_cases LF n (fun value => ResponseResult.Complete ⟨.Value, value, []⟩)
          (.Error (ascii "expected newline after value")) rest with ⟨_, hnone⟩ | ⟨value, _, _, _, hsome⟩ |
        ⟨_, _, _, _, _, _, hsome⟩
      · simp [hnone] at hverdict
      · rw [hsome] at hverdict
        have hvalue := ResponseResult.Complete.inj (Prod.mk.inj (Option.some.inj hverdict)).1
        simp [← hvalue] at htype
      · rw [hsome] at hverdict
        simp at hverdict
  · exact hitem (by simp) hverdict

theorem eq_of_strip_trailing_cr {line stripped : Bytes} (hstrip : strip_trailing_cr line = stripped) :
    line = stripped ∨ line = stripped ++ [CR] := by
  unfold strip_trailing_cr at hstrip
  split at hstrip
  · next hlast =>
    simp only [Bool.and_eq_true, beq_iff_eq] at hlast
    obtain ⟨start, rfl⟩ := List.getLast?_eq_some_iff.mp hlast.2
    exact .inr (by rw [← hstrip, List.dropLast_concat])
  · exact .inl hstrip

/-- A first line that is `PONG` is read as such, whatever follows. -/
theorem PongFirst.decode (hpong : PongFirst buffer) :
    ∃ rest, responseFormat.decode buffer = some (.Complete ⟨.Pong, [], []⟩, rest) := by
  rcases hpong with ⟨rest, rfl⟩ | ⟨rest, rfl⟩
  · have hline : responseFormat.eol ∉ ascii "PONG" := by decide
    exact ⟨rest, LineFormat.decode_line rest hline⟩
  · have hline : responseFormat.eol ∉ ascii "PONG" ++ [CR] := by decide
    exact ⟨rest, LineFormat.decode_line rest hline⟩

theorem pongFirst_of_decode {resp : Response} {rest : Bytes}
    (hdecode : responseFormat.decode buffer = some (.Complete resp, rest)) (htype : resp.type = .Pong) :
    PongFirst buffer := by
  by_cases hmem : LF ∈ buffer
  · obtain ⟨line, after, rfl, hline⟩ := List.eq_append_cons_of_mem hmem
    have hverdict := (LineFormat.decode_line (F := responseFormat) after hline).symm.trans hdecode
    rcases eq_of_strip_trailing_cr (eq_pong_of_verdict hverdict htype) with rfl | rfl
    · exact .inl ⟨after, by simp⟩
    · exact .inr ⟨after, by simp⟩
  · rw [LineFormat.decode_open (F := responseFormat) hmem] at hdecode
    split at hdecode
    · simp [responseFormat] at hdecode
    · simp at hdecode

/-- Until the line is complete, the parser waits. -/
theorem decode_of_pongFirst_append (hpong : PongFirst (buffer ++ more)) (hnot : ¬ PongFirst buffer) :
    responseFormat.decode buffer = none := by
  have hwait (line : Bytes) (hline : LF ∉ line) (hshort : line.length ≤ 5) (hfirst : line ++ [LF] <+: buffer ++ more)
      (hopen : ¬ line ++ [LF] <+: buffer) : responseFormat.decode buffer = none := by
    have hpart : buffer <+: line := by
      rcases List.prefix_or_prefix_of_prefix hfirst (List.prefix_append buffer more) with hall | hpart
      · exact absurd hall hopen
      · rcases List.prefix_concat_iff.mp hpart with rfl | hpart
        · exact absurd List.prefix_rfl hopen
        · exact hpart
    have hlf : responseFormat.eol ∉ buffer := fun hmem => hline (hpart.subset hmem)
    rw [LineFormat.decode_open hlf, if_neg]
    have hlength := hpart.length_le
    simp only [responseFormat, kMaxResponseLineLen]
    omega
  rcases hpong with hfirst | hfirst
  · exact hwait (ascii "PONG") (by decide) (by decide) hfirst fun h => hnot (.inl h)
  · exact hwait (ascii "PONG" ++ [CR]) (by decide) (by decide) hfirst fun h => hnot (.inr h)

/-- What one call of the parser says about the first line of all that arrives. -/
theorem pongFirst_append_iff {result : ResponseResult} {rest : Bytes}
    (hdecode : responseFormat.decode buffer = some (result, rest)) (more : Bytes) :
    PongFirst (buffer ++ more) ↔ ∃ resp, result = .Complete resp ∧ resp.type = .Pong := by
  constructor
  · intro hpong
    by_cases hfirst : PongFirst buffer
    · obtain ⟨_, hpongs⟩ := hfirst.decode
      rw [hpongs] at hdecode
      exact ⟨_, (Prod.mk.inj (Option.some.inj hdecode)).1.symm, rfl⟩
    · rw [decode_of_pongFirst_append hpong hfirst] at hdecode
      simp at hdecode
  · rintro ⟨resp, rfl, htype⟩
    exact (pongFirst_of_decode hdecode htype).append more

theorem type_assign (out resp : Response) : (out.assign resp).type = resp.type := by
  obtain ⟨type, value, message⟩ := resp
  cases type <;> rfl

/-- The most that a parser holds before it has an answer. -/
def kMaxPending : Nat := kMaxValueLen + 18

/-- What the read loop does with a peer, from the bytes that it has. It ends after a
    bounded number of turns; it hears a `PONG` exactly if that is the first line to
    come; and it has not read much more than one response, or one line that is too
    long. -/
structure Heard (buffer : Bytes) (peer : Nat → Bytes) (outcome : Except Bytes Response) (reads : Nat) : Prop where
  pong : (∃ resp, outcome = .ok resp ∧ resp.type = .Pong) ↔ ∃ n, PongFirst (buffer ++ arrived n peer)
  bytes : (buffer ++ arrived reads peer).length ≤ max buffer.length (kMaxPending + kResponseReadSize)
  line : LF ∉ buffer ++ arrived reads peer →
    (buffer ++ arrived reads peer).length ≤ max buffer.length (kMaxResponseLineLen + kResponseReadSize)

theorem not_pongFirst_of_wait (hdecode : responseFormat.decode buffer = none) : ¬ PongFirst buffer := by
  intro hpong
  obtain ⟨rest, hpongs⟩ := hpong.decode
  simp [hdecode] at hpongs

/-- A turn that reads something leaves the rest to the next one. -/
theorem Heard.turn {peer : Nat → Bytes} {outcome : Except Bytes Response} {reads : Nat} {c : UInt8} {data : Bytes}
    (hdecode : responseFormat.decode buffer = none) (hread : (peer 0).take kResponseReadSize = c :: data)
    (hrest : Heard (buffer ++ c :: data) (fun i => peer (i + 1)) outcome reads) :
    Heard buffer peer outcome (reads + 1) := by
  have harrived (n : Nat) :
      buffer ++ arrived (n + 1) peer = (buffer ++ c :: data) ++ arrived n fun i => peer (i + 1) := by
    simp [arrived, hread]
  have hsize : (c :: data).length ≤ kResponseReadSize := by
    rw [← hread]
    exact List.length_take_le ..
  have hwaiting : buffer.length ≤ kMaxPending := response_length_le_of_wait hdecode
  refine ⟨hrest.pong.trans ⟨?_, ?_⟩, ?_, ?_⟩
  · rintro ⟨n, hpong⟩
    exact ⟨n + 1, by rwa [harrived]⟩
  · rintro ⟨n, hpong⟩
    cases n with
    | zero =>
      rw [arrived, List.append_nil] at hpong
      exact absurd hpong (not_pongFirst_of_wait hdecode)
    | succ n => exact ⟨n, by rwa [← harrived]⟩
  · have hbytes := hrest.bytes
    rw [harrived]
    rw [List.length_append] at hbytes
    simp only [List.length_append] at hbytes ⊢
    omega
  · rw [harrived]
    intro hopen
    have hline := hrest.line hopen
    -- Without an LF the parser waits only within the limit for a line.
    have hshort : buffer.length ≤ kMaxResponseLineLen := by
      have hlf : responseFormat.eol ∉ buffer := fun hmem =>
        hopen (List.mem_append_left _ (List.mem_append_left _ hmem))
      rw [LineFormat.decode_open hlf] at hdecode
      split at hdecode
      · simp at hdecode
      · rename_i hlimit
        exact Nat.le_of_not_lt hlimit
    simp only [List.length_append] at hline ⊢
    omega

/-- A parser that has an answer ends the loop. -/
theorem exists_read_loop_of_decode {parser : ResponseParser} {result : ResponseResult} {rest : Bytes} (turns : Nat)
    (peer : Nat → Bytes) (out : Response) (hdecode : responseFormat.decode parser.buffer_ = some (result, rest)) :
    ∃ outcome reads, (∀ fuel, turns < fuel → stream.read_loop fuel peer parser out = some (outcome, reads)) ∧
      Heard parser.buffer_ peer outcome reads := by
  have hheard {outcome : Except Bytes Response}
      (hpong : (∃ resp, outcome = .ok resp ∧ resp.type = .Pong) ↔
        ∃ resp, result = .Complete resp ∧ resp.type = .Pong) :
      Heard parser.buffer_ peer outcome 0 := by
    refine ⟨hpong.trans ⟨fun hresult => ⟨0, ?_⟩, fun ⟨n, hfirst⟩ => ?_⟩, ?_, fun _ => ?_⟩
    · exact (pongFirst_append_iff hdecode _).mpr hresult
    · exact (pongFirst_append_iff hdecode _).mp hfirst
    · simp [arrived]
    · simp [arrived]
  have hloop (fuel : Nat) (hfuel : turns < fuel) : ∃ f, fuel = f + 1 := ⟨fuel - 1, by omega⟩
  cases result with
  | Complete resp =>
    refine ⟨.ok (out.assign resp), 0, fun fuel hfuel => ?_, hheard (by simp [type_assign])⟩
    obtain ⟨f, rfl⟩ := hloop fuel hfuel
    rw [stream.read_loop, ResponseParser.try_parse_response_eq, hdecode]
    rfl
  | Error message =>
    refine ⟨.error (ascii "protocol error: " ++ message), 0, fun fuel hfuel => ?_, hheard (by simp)⟩
    obtain ⟨f, rfl⟩ := hloop fuel hfuel
    rw [stream.read_loop, ResponseParser.try_parse_response_eq, hdecode]
    rfl

/-- The read loop ends, whatever the peer sends and for how long: where the parser
    waits it holds a bounded number of bytes, and each turn adds to them. -/
theorem exists_read_loop (turns : Nat) (peer : Nat → Bytes) (parser : ResponseParser) (out : Response)
    (hturns : kMaxPending + 1 - parser.buffer_.length ≤ turns) :
    ∃ outcome reads, (∀ fuel, turns < fuel → stream.read_loop fuel peer parser out = some (outcome, reads)) ∧
      Heard parser.buffer_ peer outcome reads := by
  induction turns generalizing peer parser with
  | zero =>
    cases hdecode : responseFormat.decode parser.buffer_ with
    | some decoded => exact exists_read_loop_of_decode 0 peer out hdecode
    | none =>
      have hwaiting : parser.buffer_.length ≤ kMaxPending := response_length_le_of_wait hdecode
      omega
  | succ turns ih =>
    cases hdecode : responseFormat.decode parser.buffer_ with
    | some decoded => exact exists_read_loop_of_decode _ peer out hdecode
    | none =>
      have hparse : parser.try_parse_response out = (.Incomplete, out, parser) := by
        rw [ResponseParser.try_parse_response_eq, hdecode]
        rfl
      cases hread : (peer 0).take kResponseReadSize with
      | nil =>
        have hnothing (n : Nat) : arrived n peer = [] := by cases n <;> simp [arrived, hread]
        refine ⟨.error (ascii "connection closed while waiting for response"), 1, fun fuel hfuel => ?_, ?_, ?_, ?_⟩
        · obtain ⟨f, rfl⟩ : ∃ f, fuel = f + 1 := ⟨fuel - 1, by omega⟩
          rw [stream.read_loop, hparse]
          simp only [hread]
        · simp [hnothing, not_pongFirst_of_wait hdecode]
        · simp [hnothing]
        · simp [hnothing]
      | cons c data =>
        have hwaiting : parser.buffer_.length ≤ kMaxPending := response_length_le_of_wait hdecode
        have hless : kMaxPending + 1 - (parser.feed (c :: data)).buffer_.length ≤ turns := by
          rw [ResponseParser.feed, List.length_append, List.length_cons]
          omega
        obtain ⟨outcome, reads, hloop, hheard⟩ := ih (fun i => peer (i + 1)) (parser.feed (c :: data)) hless
        refine ⟨outcome, reads + 1, fun fuel hfuel => ?_, hheard.turn hdecode hread⟩
        obtain ⟨f, rfl⟩ : ∃ f, fuel = f + 1 := ⟨fuel - 1, by omega⟩
        rw [stream.read_loop, hparse]
        simp only [hread, hloop f (by omega), Option.map_some]

end

/-- When a node counts as up. Whatever a peer sends, be it without end, and however
    the calls come out, `ping_once` returns; it returns true exactly if the
    connection could be opened and set up, the `PING` was written, and the first line
    to arrive, before a read finds nothing, is `PONG`. It has then read at most one
    buffer more than the longest response, or than the longest line where no line
    ends. -/
theorem ping_once_iff (connected timeouts : Except Bytes Unit) (writes : List Syscall) (peer : Nat → Bytes) :
    ∃ up reads,
      (∀ fuel, kMaxPending + 1 < fuel → ping_once fuel connected timeouts writes peer = some (up, reads)) ∧
      (up = true ↔ connected = .ok () ∧ timeouts = .ok () ∧
        (write_loop (fun _ => ascii "failed to write request") writes (encode_request ⟨.Ping, [], []⟩)).1 = .ok () ∧
        ∃ n, PongFirst (arrived n peer)) ∧
      (arrived reads peer).length ≤ kMaxPending + kResponseReadSize ∧
      (LF ∉ arrived reads peer → (arrived reads peer).length ≤ kMaxResponseLineLen + kResponseReadSize) := by
  cases connected with
  | error what => exact ⟨false, 0, fun _ _ => rfl, by simp, Nat.zero_le _, fun _ => Nat.zero_le _⟩
  | ok _ =>
    cases timeouts with
    | error what => exact ⟨false, 0, fun _ _ => rfl, by simp, Nat.zero_le _, fun _ => Nat.zero_le _⟩
    | ok _ =>
      rcases hwrite : write_loop (fun _ => ascii "failed to write request") writes
        (encode_request ⟨.Ping, [], []⟩) with
        ⟨written, wire, left⟩
      cases written with
      | error what =>
        refine ⟨false, 0, fun fuel _ => ?_, by simp, Nat.zero_le _, fun _ => Nat.zero_le _⟩
        simp [ping_once, stream.send_request, hwrite]
      | ok _ =>
        obtain ⟨outcome, reads, hloop, hheard⟩ := exists_read_loop (kMaxPending + 1) peer {} ⟨.Ok, [], []⟩
          (Nat.sub_le ..)
        obtain ⟨hpong, hbytes, hline⟩ := hheard
        simp only [List.nil_append, List.length_nil, Nat.zero_max] at hpong hbytes hline
        have hsend (fuel : Nat) (hfuel : kMaxPending + 1 < fuel) :
            stream.send_request fuel ⟨.Ping, [], []⟩ writes peer = some (outcome, reads) := by
          rw [stream.send_request, hwrite]
          exact hloop fuel hfuel
        cases outcome with
        | error what =>
          refine ⟨false, reads, fun fuel hfuel => by simp [ping_once, hsend fuel hfuel], ?_, hbytes, hline⟩
          simpa using hpong
        | ok resp =>
          refine ⟨decide (resp.type = .Pong), reads, fun fuel hfuel => by simp [ping_once, hsend fuel hfuel], ?_,
            hbytes, hline⟩
          simpa using hpong

end kv.detector
