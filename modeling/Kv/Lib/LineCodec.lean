import Kv.Lib.Codec
import Kv.Lib.LineFraming

namespace Incremental

universe u v w

variable {α : Type u} {β : Type v} {μ : Type w} [DecidableEq α] {F : LineFormat α β}

/-- The well-formed frames of a line format, with the item each one stands for. -/
inductive LineFormat.Frame (F : LineFormat α β) : List α → β → Prop
  | line {line : List α} {x : β} (hline : F.eol ∉ line) (hlimit : line.length ≤ F.limit)
      (hverdict : F.verdict line = .item x) : Frame F (line ++ [F.eol]) x
  | payload {line value : List α} {accept : List α → β} {reject : β} (hline : F.eol ∉ line)
      (hlimit : line.length ≤ F.limit) (hverdict : F.verdict line = .payload value.length accept reject) :
      Frame F (line ++ F.eol :: (value ++ [F.eol])) (accept value)

theorem LineFormat.Frame.decode_append {bytes : List α} {x : β} (hframe : F.Frame bytes x) (rest : List α) :
    F.decode (bytes ++ rest) = some (x, rest) := by
  cases hframe with
  | line hline _ hverdict =>
    rw [List.append_assoc, List.singleton_append, decode_line rest hline, hverdict]
    rfl
  | payload hline _ hverdict =>
    rw [List.append_assoc, List.cons_append, decode_line _ hline, hverdict, List.append_assoc]
    exact Verdict.finish_payload F.eol _ _ _ rest

theorem LineFormat.decode_part_of_line {line part : List α} (hlimit : line.length ≤ F.limit)
    (hpart : part <+: line) (hopen : F.eol ∉ part) : F.decode part = none := by
  have hlength := hpart.length_le
  rw [decode_open hopen, if_neg (by omega)]

/-- A part of a line and its continuation either lies within the line or
    contains all of it. -/
theorem prefix_line_cases {eol : α} {line after part : List α} (hline : eol ∉ line)
    (hpart : part <+: line ++ eol :: after) :
    (part <+: line ∧ eol ∉ part) ∨ ∃ rest, part = line ++ eol :: rest ∧ rest <+: after := by
  obtain ⟨tail, htail⟩ := hpart
  by_cases hmem : eol ∈ part
  · obtain ⟨line', rest, rfl, hline'⟩ := List.eq_append_cons_of_mem hmem
    rw [List.append_assoc, List.cons_append] at htail
    obtain ⟨rfl, hrest⟩ := line_unique hline' hline htail
    exact .inr ⟨rest, rfl, tail, hrest⟩
  · refine .inl ⟨?_, hmem⟩
    rcases List.append_eq_append_iff.mp htail with ⟨more, hwithin, _⟩ | ⟨more, hbeyond, hrest⟩
    · exact ⟨more, hwithin.symm⟩
    · cases more with
      | nil => exact ⟨[], by simpa using hbeyond⟩
      | cons c more =>
        rw [List.cons_append, List.cons.injEq] at hrest
        exact absurd (by rw [hbeyond, ← hrest.1]; simp) hmem

theorem LineFormat.Frame.decode_cut {bytes part : List α} {x : β} (hframe : F.Frame bytes x)
    (hpart : part <+: bytes) (hne : part ≠ bytes) : F.decode part = none := by
  cases hframe with
  | line hline hlimit hverdict =>
    rcases prefix_line_cases hline hpart with ⟨hwithin, hopen⟩ | ⟨rest, rfl, hrest⟩
    · exact decode_part_of_line hlimit hwithin hopen
    · exact absurd (by rw [List.prefix_nil.mp hrest]) hne
  | payload hline hlimit hverdict =>
    rcases prefix_line_cases hline hpart with ⟨hwithin, hopen⟩ | ⟨rest, rfl, hrest⟩
    · exact decode_part_of_line hlimit hwithin hopen
    · rename_i value accept reject
      have hshort : rest.length < value.length + 1 := by
        by_contra hlong
        refine hne ?_
        rw [hrest.eq_of_length_le (by simp only [List.length_append, List.length_singleton]; omega)]
      rw [decode_line rest hline, hverdict]
      simp [Verdict.finish, hshort]

/-- A decoder inverts every encoder that writes well-formed frames. -/
theorem LineFormat.inverts_of_frame {encode : μ → List α} {item : μ → β} {P : μ → Prop}
    (hencode : ∀ m, P m → F.Frame (encode m) (item m)) : Inverts F.decode encode item P where
  whole m hm rest := (hencode m hm).decode_append rest
  cut m hm _ hpart hne := (hencode m hm).decode_cut hpart hne

end Incremental
