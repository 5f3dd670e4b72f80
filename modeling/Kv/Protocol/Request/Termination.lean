import Kv.Lib.LineSegmentation
import Kv.Protocol.Request.Drain

open Incremental

namespace kv.protocol

/-- A call that reports a result shortens the buffer, except from an overlong
    line, which it reports and keeps. -/
theorem IncrementalParser.try_parse_request_consumes_iff (self : IncrementalParser) (out_request : Request) :
    ((self.try_parse_request out_request).1 ≠ .Incomplete →
      (self.try_parse_request out_request).2.2.buffer_.length < self.buffer_.length) ↔
    ¬ requestFormat.Overlong self.buffer_ := by
  rw [self.try_parse_request_eq out_request]
  constructor
  · intro hconsumes hover
    have hlong : self.buffer_.length > kMaxCommandLineLen := hover.2
    rw [decodeRequest_open hover.1, if_pos hlong] at hconsumes
    simp [after] at hconsumes
  · intro hlive hstatus
    cases hdecode : requestFormat.decode self.buffer_ with
    | none => simp [hdecode, after] at hstatus
    | some emitted =>
      obtain ⟨result, rest⟩ := emitted
      rw [← LineFormat.stuck_decode_iff] at hlive
      obtain ⟨hshorter, _⟩ := LineFormat.lawful_decode self.buffer_ result rest hdecode hlive
      cases result <;> exact hshorter

theorem IncrementalParser.feed_chunks_isSome_iff (req : Request) (chunks : List Bytes) :
    (∃ fuel, (({} : IncrementalParser).feed_chunks fuel req chunks).isSome) ↔
      ∃ results final, Feeds requestFormat.decode [] chunks results final := by
  constructor
  · rintro ⟨fuel, hends⟩
    obtain ⟨⟨results, self⟩, hfeed⟩ := Option.isSome_iff_exists.mp hends
    exact ⟨results, self.buffer_, feeds_of_feed_chunks hfeed⟩
  · rintro ⟨results, final, hfeeds⟩
    have hfresh : Feeds requestFormat.decode ({} : IncrementalParser).buffer_ chunks results final := hfeeds
    obtain ⟨self, hfeed, _⟩ := feed_chunks_of_feeds hfresh (Nat.lt_succ_self _) req
    exact ⟨_, by rw [hfeed]; rfl⟩

/-- When the drain loop ends. A single call consumes something unless its
    buffer is an LF-free run of more than 265 bytes. Over any sequence of
    reads, all drain loops end exactly when, at every read, the bytes received
    so far do not end, after their last frame, in such a run. -/
theorem IncrementalParser.drain_loop_ends_iff (self : IncrementalParser) (req : Request) (chunks : List Bytes) :
    (((self.try_parse_request req).1 ≠ .Incomplete →
        (self.try_parse_request req).2.2.buffer_.length < self.buffer_.length) ↔
      ¬ requestFormat.Overlong self.buffer_) ∧
    ((∃ fuel, (({} : IncrementalParser).feed_chunks fuel req chunks).isSome) ↔
      ∀ k ≤ chunks.length, ∀ frames tail,
        Drains requestFormat.frame (chunks.take k).flatten frames tail → ¬ requestFormat.Overlong tail) := by
  refine ⟨self.try_parse_request_consumes_iff req, ?_⟩
  rw [feed_chunks_isSome_iff, LineFormat.exists_feeds_decode_iff]

theorem overlong_replicate {c : UInt8} {n : Nat} (hc : c ≠ LF) (hn : kMaxCommandLineLen < n) :
    requestFormat.Overlong (List.replicate n c) := by
  refine ⟨fun hmem => hc (List.eq_of_mem_replicate hmem).symm, ?_⟩
  rwa [List.length_replicate]

/-- A client that sends 266 bytes without an LF: the call reports an error and
    drops nothing, so the loop around it never ends. -/
theorem IncrementalParser.drain_loop_spins :
    let line : Bytes := List.replicate 266 0x41
    let parser := ({} : IncrementalParser).feed line
    (parser.try_parse_request ⟨.Ping, [], []⟩).1 = .Error ∧
    (parser.try_parse_request ⟨.Ping, [], []⟩).2.2.buffer_ = parser.buffer_ ∧
    ¬ ∃ fuel, (({} : IncrementalParser).feed_chunks fuel ⟨.Ping, [], []⟩ [line]).isSome := by
  intro line parser
  have hover : requestFormat.Overlong line := overlong_replicate (by decide) (by decide)
  have hcall := parser.try_parse_request_open ⟨.Ping, [], []⟩ hover.1
  rw [if_pos (show parser.buffer_.length > kMaxCommandLineLen from hover.2)] at hcall
  refine ⟨by rw [hcall]; rfl, by rw [hcall]; rfl, ?_⟩
  rw [feed_chunks_isSome_iff]
  rintro ⟨results, final, hfeeds⟩
  cases hfeeds with
  | cons hdrain _ => exact hdrain.not_stuck ((LineFormat.stuck_decode_iff line).mpr hover)

end kv.protocol
