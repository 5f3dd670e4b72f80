import Kv.Lib.Incremental

namespace Incremental

universe u v

variable {α : Type u} {β : Type v}

/-- What a line decides: an item on its own, or a payload of known length that
    follows the line and is itself ended by the terminator. -/
inductive Verdict (α : Type u) (β : Type v)
  | item (x : β)
  | payload (n : Nat) (accept : List α → β) (reject : β)

/-- A line-oriented format: the terminator, the longest unterminated line that
    is waited for, the item that reports a longer one, and the verdict on a line. -/
structure LineFormat (α : Type u) (β : Type v) where
  eol : α
  limit : Nat
  overlong : β
  verdict : List α → Verdict α β

variable [DecidableEq α]

/-- A verdict completed by the input after the line. -/
def Verdict.finish (eol : α) : Verdict α β → List α → Option (β × List α)
  | .item x, rest => some (x, rest)
  | .payload n accept reject, rest =>
    if rest.length < n + 1 then none
    else if rest[n]? = some eol then some (accept (rest.take n), rest.drop (n + 1))
    else some (reject, rest.drop (n + 1))

/-- The decoder of a line format. Reporting an overlong line consumes nothing. -/
def LineFormat.decode (F : LineFormat α β) : Decoder α β := fun buffer =>
  match buffer.idxOf? F.eol with
  | none => if buffer.length > F.limit then some (F.overlong, buffer) else none
  | some line_end => (F.verdict (buffer.take line_end)).finish F.eol (buffer.drop (line_end + 1))

/-- The extent of one frame, accepted or not: a line with its terminator and,
    where it announces a payload, the payload and one element more. -/
def LineFormat.frame (F : LineFormat α β) : Decoder α (List α) := fun buffer =>
  match buffer.idxOf? F.eol with
  | none => none
  | some line_end =>
    let size :=
      match F.verdict (buffer.take line_end) with
      | .item _ => line_end + 1
      | .payload n _ _ => line_end + 1 + (n + 1)
    if buffer.length < size then none else some (buffer.take size, buffer.drop size)

/-- An unterminated line that is too long to be waited for. -/
def LineFormat.Overlong (F : LineFormat α β) (buffer : List α) : Prop :=
  F.eol ∉ buffer ∧ F.limit < buffer.length

/-- Every line of the input, an unterminated last one included, is within the
    limit. Lines start at the frame boundaries. -/
def LineFormat.LinesBounded (F : LineFormat α β) (input : List α) : Prop :=
  ∀ buffer, Reaches F.frame input buffer → (buffer.takeWhile (· != F.eol)).length ≤ F.limit

theorem idxOf?_append_cons {eol : α} {line : List α} (rest : List α) (hline : eol ∉ line) :
    (line ++ eol :: rest).idxOf? eol = some line.length := by
  induction line with
  | nil => simp [List.idxOf?_cons]
  | cons c line ih =>
    simp only [List.mem_cons, not_or] at hline
    have hne : (c == eol) = false := by simpa using fun h : c = eol => hline.1 h.symm
    simp [List.idxOf?_cons, hne, ih hline.2]

/-- Input splits at its first terminator in one way only. -/
theorem line_unique {eol : α} {line line' rest rest' : List α} (hline : eol ∉ line) (hline' : eol ∉ line')
    (heq : line ++ eol :: rest = line' ++ eol :: rest') : line = line' ∧ rest = rest' := by
  have hlength : line.length = line'.length := by
    have hfound := idxOf?_append_cons rest hline
    rw [heq, idxOf?_append_cons rest' hline', Option.some.injEq] at hfound
    exact hfound.symm
  obtain ⟨hfirst, hrest⟩ := List.append_inj heq hlength
  exact ⟨hfirst, (List.cons.inj hrest).2⟩

variable {F : LineFormat α β}

theorem LineFormat.decode_line {line : List α} (rest : List α) (hline : F.eol ∉ line) :
    F.decode (line ++ F.eol :: rest) = (F.verdict line).finish F.eol rest := by
  unfold decode
  rw [idxOf?_append_cons rest hline]
  simp

theorem LineFormat.decode_open {buffer : List α} (hopen : F.eol ∉ buffer) :
    F.decode buffer = if buffer.length > F.limit then some (F.overlong, buffer) else none := by
  unfold decode
  rw [List.idxOf?_eq_none_iff.mpr hopen]

theorem LineFormat.decode_nil : F.decode [] = none := by
  rw [decode_open (by simp)]
  simp

/-- The three outcomes of an announced payload: too little input yet, a payload
    ended by the terminator, or one ended by something else. -/
theorem Verdict.finish_payload_cases (eol : α) (n : Nat) (accept : List α → β) (reject : β) (rest : List α) :
    (rest.length < n + 1 ∧ (Verdict.payload n accept reject).finish eol rest = none) ∨
    (∃ value final, rest = value ++ eol :: final ∧ value.length = n ∧
      (Verdict.payload n accept reject).finish eol rest = some (accept value, final)) ∨
    (∃ value c final, rest = value ++ c :: final ∧ value.length = n ∧ c ≠ eol ∧
      (Verdict.payload n accept reject).finish eol rest = some (reject, final)) := by
  by_cases hshort : rest.length < n + 1
  · exact .inl ⟨hshort, by simp [finish, hshort]⟩
  have hn : n < rest.length := by omega
  have hsplit : rest = rest.take n ++ rest.get ⟨n, hn⟩ :: rest.drop (n + 1) := by
    rw [List.get_eq_getElem, List.cons_getElem_drop_succ, List.take_append_drop]
  have hlength : (rest.take n).length = n := List.length_take_of_le (by omega)
  by_cases heol : rest[n]? = some eol
  · refine .inr (.inl ⟨rest.take n, rest.drop (n + 1), ?_, hlength, ?_⟩)
    · have hget : rest.get ⟨n, hn⟩ = eol := by
        simpa only [List.get_eq_getElem, List.getElem?_eq_getElem hn, Option.some.injEq] using heol
      exact hget ▸ hsplit
    · simp only [finish, if_neg hshort, if_pos heol]
  · refine .inr (.inr ⟨rest.take n, rest.get ⟨n, hn⟩, rest.drop (n + 1), hsplit, hlength, ?_, ?_⟩)
    · intro hget
      exact heol (by simpa only [List.get_eq_getElem, List.getElem?_eq_getElem hn, Option.some.injEq] using hget)
    · simp only [finish, if_neg hshort, if_neg heol]

theorem Verdict.finish_payload (eol : α) (accept : List α → β) (reject : β) (value final : List α) :
    (Verdict.payload value.length accept reject).finish eol (value ++ eol :: final) =
      some (accept value, final) := by
  simp [finish]

/-- A completed verdict keeps a suffix, and later input does not change it. -/
theorem Verdict.finish_append {eol : α} {v : Verdict α β} {rest final : List α} {x : β}
    (hfinish : v.finish eol rest = some (x, final)) :
    final.length ≤ rest.length ∧ ∀ tail, v.finish eol (rest ++ tail) = some (x, final ++ tail) := by
  cases v with
  | item y =>
    simp only [finish, Option.some.injEq, Prod.mk.injEq] at hfinish ⊢
    obtain ⟨rfl, rfl⟩ := hfinish
    simp
  | payload n accept reject =>
    rcases finish_payload_cases eol n accept reject rest with ⟨_, hnone⟩ | ⟨value, final', rfl, rfl, hsome⟩ |
      ⟨value, c, final', rfl, rfl, hc, hsome⟩
    · simp [hnone] at hfinish
    · rw [hsome, Option.some.injEq, Prod.mk.injEq] at hfinish
      obtain ⟨rfl, rfl⟩ := hfinish
      refine ⟨by simp only [List.length_append, List.length_cons]; omega, fun tail => ?_⟩
      rw [List.append_assoc, List.cons_append, finish_payload]
    · rw [hsome, Option.some.injEq, Prod.mk.injEq] at hfinish
      obtain ⟨rfl, rfl⟩ := hfinish
      refine ⟨by simp only [List.length_append, List.length_cons]; omega, fun tail => ?_⟩
      simp [finish, hc]

theorem LineFormat.stuck_decode_iff (buffer : List α) : Stuck F.decode buffer ↔ F.Overlong buffer := by
  by_cases hmem : F.eol ∈ buffer
  · obtain ⟨line, rest, rfl, hline⟩ := List.eq_append_cons_of_mem hmem
    constructor
    · rintro ⟨x, hstuck⟩
      rw [decode_line rest hline] at hstuck
      have hshorter := (Verdict.finish_append hstuck).1
      simp only [List.length_append, List.length_cons] at hshorter
      omega
    · intro hover
      exact absurd hmem hover.1
  · unfold Stuck Overlong
    rw [decode_open hmem]
    by_cases hlong : buffer.length > F.limit
    · simp [hlong, hmem]
    · simp [hlong]

/-- Every verdict but the overlong one consumes its input, and no later input
    can change it. -/
theorem LineFormat.lawful_decode : Lawful F.decode := by
  intro buffer x rest hemit hlive
  rw [stuck_decode_iff] at hlive
  by_cases hmem : F.eol ∈ buffer
  · obtain ⟨line, tail, rfl, hline⟩ := List.eq_append_cons_of_mem hmem
    rw [decode_line tail hline] at hemit
    obtain ⟨hlen, hstable⟩ := Verdict.finish_append hemit
    refine ⟨?_, fun later => ?_⟩
    · simp only [List.length_append, List.length_cons]
      omega
    · rw [List.append_assoc, List.cons_append, decode_line _ hline]
      exact hstable later
  · rw [decode_open hmem, if_neg (fun hlong => hlive ⟨hmem, hlong⟩)] at hemit
    simp at hemit

end Incremental
