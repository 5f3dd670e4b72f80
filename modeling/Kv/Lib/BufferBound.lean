import Kv.Lib.LineFraming

namespace Incremental

universe u v

variable {α : Type u} {β : Type v} {decode : Decoder α β} {n : Nat}

/-- The buffers of a decoder that is given input, at most `n` elements at a
    time, only where it waits. -/
inductive Holds (decode : Decoder α β) (n : Nat) : List α → Prop
  | empty : Holds decode n []
  | read {buffer chunk : List α} (hold : Holds decode n buffer) (hwait : decode buffer = none)
      (hlen : chunk.length ≤ n) : Holds decode n (buffer ++ chunk)
  | emit {buffer rest : List α} {item : β} (hold : Holds decode n buffer)
      (hemit : decode buffer = some (item, rest)) : Holds decode n rest

/-- A decoder that never waits on more than `bound` elements, and whose
    emissions never lengthen its buffer, holds at most one read more. -/
theorem Holds.length_le {bound : Nat} (hwaits : ∀ buffer, decode buffer = none → buffer.length ≤ bound)
    (hemits : ∀ buffer item rest, decode buffer = some (item, rest) → rest.length ≤ buffer.length)
    {buffer : List α} (hold : Holds decode n buffer) : buffer.length ≤ bound + n := by
  induction hold with
  | empty => simp
  | read _ hwait hlen _ =>
    have hbuffer := hwaits _ hwait
    rw [List.length_append]
    omega
  | emit _ hemit ih => exact (hemits _ _ _ hemit).trans ih

variable [DecidableEq α] {F : LineFormat α β}

theorem LineFormat.decode_rest_length_le {buffer rest : List α} {x : β} (hemit : F.decode buffer = some (x, rest)) :
    rest.length ≤ buffer.length := by
  by_cases hstuck : Stuck F.decode buffer
  · obtain ⟨x', hsame⟩ := hstuck
    rw [hemit, Option.some.injEq, Prod.mk.injEq] at hsame
    rw [hsame.2]
  · exact (lawful_decode buffer x rest hemit hstuck).1.le

/-- What a decoder waits on: a line within the limit, or a header with less than
    the payload that it announces and one element more. -/
theorem LineFormat.length_le_of_wait {header payload : Nat}
    (hverdict : ∀ line k accept reject, F.verdict line = .payload k accept reject →
      line.length ≤ header ∧ k ≤ payload)
    (hlimit : F.limit ≤ header + 1 + payload) {buffer : List α} (hwait : F.decode buffer = none) :
    buffer.length ≤ header + 1 + payload := by
  by_cases hmem : F.eol ∈ buffer
  · obtain ⟨line, rest, rfl, hline⟩ := List.eq_append_cons_of_mem hmem
    rw [decode_line rest hline] at hwait
    cases hv : F.verdict line with
    | item x => simp [hv, Verdict.finish] at hwait
    | payload k accept reject =>
      obtain ⟨hheader, hpayload⟩ := hverdict line k accept reject hv
      rw [hv] at hwait
      rcases Verdict.finish_payload_cases F.eol k accept reject rest with ⟨hshort, _⟩ | ⟨_, _, _, _, hsome⟩ |
        ⟨_, _, _, _, _, _, hsome⟩
      · simp only [List.length_append, List.length_cons]
        omega
      · simp [hwait] at hsome
      · simp [hwait] at hsome
  · rw [decode_open hmem] at hwait
    split at hwait
    · simp at hwait
    · omega

end Incremental
