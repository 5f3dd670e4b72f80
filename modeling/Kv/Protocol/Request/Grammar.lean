import Kv.Protocol.Request.Decode

open Incremental

namespace kv.protocol

/-- The header of a `set-req` for a value of `n` bytes. -/
def SetHeader (line key : Bytes) (n : Nat) : Prop :=
  ∃ len, line = ascii "SET" ++ SP :: key ++ SP :: len ∧ ValidKey key ∧ Denotes len n

/-- The request grammar. A line (without LF or trailing CR) and the bytes after
    its LF start with one request, followed by the given remaining bytes. -/
inductive Accepts : Bytes → Bytes → Request → Bytes → Prop
  | get {key rest : Bytes} (hkey : ValidKey key) :
      Accepts (ascii "GET" ++ SP :: key) rest ⟨.Get, key, []⟩ rest
  | delete {key rest : Bytes} (hkey : ValidKey key) :
      Accepts (ascii "DELETE" ++ SP :: key) rest ⟨.Delete, key, []⟩ rest
  | ping {rest : Bytes} : Accepts (ascii "PING") rest ⟨.Ping, [], []⟩ rest
  | set {line key value rest : Bytes} (hheader : SetHeader line key value.length) :
      Accepts line (value ++ LF :: rest) ⟨.Set, key, value⟩ rest

theorem ValidKey.not_mem {key : Bytes} (hkey : ValidKey key) {c : UInt8} (hc : c ≤ SP) : c ∉ key :=
  not_mem_of_gt_space hkey.2.2 hc

theorem split_spaces_two (cmd : Bytes) {key : Bytes} (hcmd : SP ∉ cmd) (hkey : SP ∉ key) :
    split_spaces (cmd ++ SP :: key) = [cmd, key] := by
  rw [split_spaces, List.splitOn_append_cons_self_of_not_mem hcmd, List.splitOn_eq_singleton hkey]

theorem split_spaces_three (cmd : Bytes) {key len : Bytes} (hcmd : SP ∉ cmd) (hkey : SP ∉ key)
    (hlen : SP ∉ len) : split_spaces (cmd ++ SP :: key ++ SP :: len) = [cmd, key, len] := by
  rw [List.append_assoc, List.cons_append, split_spaces, List.splitOn_append_cons_self_of_not_mem hcmd,
    List.splitOn_append_cons_self_of_not_mem hkey, List.splitOn_eq_singleton hlen]

/-- The tokens determine the line. -/
private theorem line_of_split_spaces {line : Bytes} {tokens : List Bytes}
    (htokens : split_spaces line = tokens) : line = [SP].intercalate tokens := by
  rw [← htokens, split_spaces, List.intercalate_splitOn]

theorem requestVerdict_get {key : Bytes} (hkey : ValidKey key) :
    requestVerdict (ascii "GET" ++ SP :: key) = .item (.Complete ⟨.Get, key, []⟩) := by
  have htokens := split_spaces_two (ascii "GET") (by decide) (hkey.not_mem (by decide))
  simp only [requestVerdict, htokens, List.getD_cons_zero, List.getD_cons_succ, (is_valid_key_iff key).mpr hkey]
  rfl

theorem requestVerdict_delete {key : Bytes} (hkey : ValidKey key) :
    requestVerdict (ascii "DELETE" ++ SP :: key) = .item (.Complete ⟨.Delete, key, []⟩) := by
  have htokens := split_spaces_two (ascii "DELETE") (by decide) (hkey.not_mem (by decide))
  simp only [requestVerdict, htokens, List.getD_cons_zero, List.getD_cons_succ, (is_valid_key_iff key).mpr hkey]
  rfl

theorem requestVerdict_ping : requestVerdict (ascii "PING") = .item (.Complete ⟨.Ping, [], []⟩) := by rfl

theorem SetHeader.verdict_eq {line key : Bytes} {n : Nat} (hset : SetHeader line key n) :
    requestVerdict line = setVerdict key n := by
  obtain ⟨len, rfl, hkey, hlen⟩ := hset
  have htokens := split_spaces_three (ascii "SET") (by decide) (hkey.not_mem (by decide))
    (not_mem_of_gt_space hlen.gt_space (by decide))
  simp only [requestVerdict, htokens, List.getD_cons_zero, List.getD_cons_succ, (is_valid_key_iff key).mpr hkey,
    (parse_length_eq_some_iff len n).mpr hlen]
  rfl

/-- Which lines give which verdict: a request without payload, a `SET` header
    with a payload to come, or neither. -/
theorem requestVerdict_cases (line : Bytes) :
    (∃ key, ValidKey key ∧ line = ascii "GET" ++ SP :: key ∧ requestVerdict line = .item (.Complete ⟨.Get, key, []⟩)) ∨
    (∃ key, ValidKey key ∧ line = ascii "DELETE" ++ SP :: key ∧
      requestVerdict line = .item (.Complete ⟨.Delete, key, []⟩)) ∨
    (line = ascii "PING" ∧ requestVerdict line = .item (.Complete ⟨.Ping, [], []⟩)) ∨
    (∃ key n, SetHeader line key n ∧ requestVerdict line = setVerdict key n) ∨
    (∃ message, requestVerdict line = .item (.Error message)) := by
  generalize hverdict : requestVerdict line = verdict
  have hunfold := hverdict
  unfold requestVerdict at hunfold
  generalize htokens : split_spaces line = tokens at hunfold
  have hline := line_of_split_spaces htokens
  dsimp only at hunfold
  split at hunfold
  · exact .inr (.inr (.inr (.inr ⟨_, hunfold.symm⟩)))
  split at hunfold
  · rename_i hcmd
    split at hunfold
    · exact .inr (.inr (.inr (.inr ⟨_, hunfold.symm⟩)))
    · rename_i hgood
      simp only [ne_eq, decide_not, Bool.or_eq_true, Bool.not_eq_true', decide_eq_false_iff_not,
        not_or, Decidable.not_not, Bool.not_eq_false] at hgood
      obtain ⟨cmd, key, rfl⟩ := List.length_eq_two.mp hgood.1
      have hkey := (is_valid_key_iff key).mp hgood.2
      simp only [List.getD_cons_zero, Bool.or_eq_true, decide_eq_true_eq] at hcmd
      rcases hcmd with rfl | rfl
      · exact .inl ⟨key, hkey, by simpa using hline, hunfold.symm⟩
      · exact .inr (.inl ⟨key, hkey, by simpa using hline, hunfold.symm⟩)
  split at hunfold
  · rename_i hcmd
    split at hunfold
    · exact .inr (.inr (.inr (.inr ⟨_, hunfold.symm⟩)))
    · rename_i hone
      obtain ⟨cmd, rfl⟩ := List.length_eq_one_iff.mp (not_not.mp hone)
      rw [List.getD_cons_zero] at hcmd
      subst hcmd
      exact .inr (.inr (.inl ⟨by simpa using hline, hunfold.symm⟩))
  split at hunfold
  · rename_i hcmd
    split at hunfold
    · exact .inr (.inr (.inr (.inr ⟨_, hunfold.symm⟩)))
    · rename_i n hparsed
      split at hparsed
      · simp at hparsed
      · rename_i hgood
        simp only [ne_eq, decide_not, Bool.or_eq_true, Bool.not_eq_true', decide_eq_false_iff_not,
          not_or, Decidable.not_not, Bool.not_eq_false] at hgood
        obtain ⟨cmd, key, len, rfl⟩ := List.length_eq_three.mp hgood.1
        have hkey := (is_valid_key_iff key).mp hgood.2
        have hlen := (parse_length_eq_some_iff len n).mp hparsed
        rw [List.getD_cons_zero] at hcmd
        subst hcmd
        exact .inr (.inr (.inr (.inl ⟨key, n, ⟨len, by simpa using hline, hkey, hlen⟩, hunfold.symm⟩)))
  · exact .inr (.inr (.inr (.inr ⟨_, hunfold.symm⟩)))

/-- The grammar and the verdict agree. -/
theorem finish_eq_complete_iff (line rest : Bytes) (req : Request) (final : Bytes) :
    (requestVerdict line).finish LF rest = some (.Complete req, final) ↔ Accepts line rest req final := by
  constructor
  · intro hfinish
    rcases requestVerdict_cases line with ⟨key, hkey, rfl, h⟩ | ⟨key, hkey, rfl, h⟩ | ⟨rfl, h⟩ |
      ⟨key, n, hset, h⟩ | ⟨message, h⟩
    · simp only [h, Verdict.finish, Option.some.injEq, Prod.mk.injEq, ParseResult.Complete.injEq] at hfinish
      obtain ⟨rfl, rfl⟩ := hfinish
      exact .get hkey
    · simp only [h, Verdict.finish, Option.some.injEq, Prod.mk.injEq, ParseResult.Complete.injEq] at hfinish
      obtain ⟨rfl, rfl⟩ := hfinish
      exact .delete hkey
    · simp only [h, Verdict.finish, Option.some.injEq, Prod.mk.injEq, ParseResult.Complete.injEq] at hfinish
      obtain ⟨rfl, rfl⟩ := hfinish
      exact .ping
    · rw [h, setVerdict] at hfinish
      rcases Verdict.finish_payload_cases LF n _ _ rest with ⟨_, hout⟩ | ⟨value, final', rfl, rfl, hout⟩ |
        ⟨_, _, _, _, _, _, hout⟩
      · rw [hout] at hfinish
        simp at hfinish
      · rw [hout, Option.some.injEq, Prod.mk.injEq, ParseResult.Complete.injEq] at hfinish
        obtain ⟨rfl, rfl⟩ := hfinish
        exact .set hset
      · rw [hout] at hfinish
        simp at hfinish
    · simp [h, Verdict.finish] at hfinish
  · intro haccept
    cases haccept with
    | get hkey => rw [requestVerdict_get hkey]; rfl
    | delete hkey => rw [requestVerdict_delete hkey]; rfl
    | ping => rw [requestVerdict_ping]; rfl
    | set hheader => rw [hheader.verdict_eq, setVerdict, Verdict.finish_payload]

/-- A line that is no `SET` header decides at once and keeps what follows it. -/
theorem requestVerdict_item {line : Bytes} (hset : ¬ ∃ key n, SetHeader line key n) :
    ∃ result, requestVerdict line = .item result := by
  rcases requestVerdict_cases line with ⟨_, _, _, h⟩ | ⟨_, _, _, h⟩ | ⟨_, h⟩ | ⟨key, n, hheader, _⟩ | ⟨_, h⟩
  · exact ⟨_, h⟩
  · exact ⟨_, h⟩
  · exact ⟨_, h⟩
  · exact absurd ⟨key, n, hheader⟩ hset
  · exact ⟨_, h⟩

theorem finish_eq_none_iff (line rest : Bytes) :
    (requestVerdict line).finish LF rest = none ↔ ∃ key n, SetHeader line key n ∧ rest.length < n + 1 := by
  by_cases hset : ∃ key n, SetHeader line key n
  · obtain ⟨key, n, hheader⟩ := hset
    have hverdict := hheader.verdict_eq
    rw [hverdict]
    constructor
    · intro hnone
      refine ⟨key, n, hheader, ?_⟩
      by_contra hlong
      simp only [setVerdict, Verdict.finish, if_neg hlong] at hnone
      split at hnone <;> simp at hnone
    · rintro ⟨key', n', hheader', hshort⟩
      rw [hheader'.verdict_eq, setVerdict, setVerdict, Verdict.payload.injEq] at hverdict
      obtain ⟨rfl, _⟩ := hverdict
      simp [setVerdict, Verdict.finish, hshort]
  · obtain ⟨result, hitem⟩ := requestVerdict_item hset
    rw [hitem]
    refine iff_of_false (by simp [Verdict.finish]) ?_
    rintro ⟨key, n, hheader, _⟩
    exact hset ⟨key, n, hheader⟩

/-- On an error, the bytes kept are those after the line, or those after the
    byte that should have ended the value of a well-formed `SET` header. -/
theorem finish_eq_error_remaining {line rest message final : Bytes}
    (herror : (requestVerdict line).finish LF rest = some (.Error message, final)) :
    ((¬ ∃ key n, SetHeader line key n) → final = rest) ∧
    (∀ key n, SetHeader line key n →
      ∃ value c, rest = value ++ c :: final ∧ value.length = n ∧ c ≠ LF) := by
  constructor
  · intro hset
    obtain ⟨result, hitem⟩ := requestVerdict_item hset
    rw [hitem, Verdict.finish, Option.some.injEq, Prod.mk.injEq] at herror
    exact herror.2.symm
  · intro key n hheader
    rw [hheader.verdict_eq, setVerdict] at herror
    rcases Verdict.finish_payload_cases LF n _ _ rest with ⟨_, hout⟩ | ⟨_, _, _, _, hout⟩ |
      ⟨value, c, final', hrest, hlen, hc, hout⟩
    · rw [hout] at herror
      simp at herror
    · rw [hout] at herror
      simp at herror
    · rw [hout, Option.some.injEq, Prod.mk.injEq] at herror
      obtain ⟨_, rfl⟩ := herror
      exact ⟨value, c, hrest, hlen, hc⟩

/-- The parser accepts exactly its grammar and consumes exactly one frame. For
    a buffer with a full line, the status is `Complete` exactly on the grammar,
    with the grammar's request and remaining bytes; `Incomplete` exactly on a
    `SET` header whose value has not arrived in full, with nothing consumed;
    and `Error` otherwise, which drops the line, or the header, the value and
    the byte after it, and leaves `out_request` alone. -/
theorem IncrementalParser.try_parse_request_grammar (self : IncrementalParser) (out_request : Request)
    {line rest : Bytes} (hbuffer : self.buffer_ = line ++ LF :: rest) (hline : LF ∉ line) :
    let L := strip_trailing_cr line
    let call := self.try_parse_request out_request
    (call.1 = .Complete ↔ ∃ req final, Accepts L rest req final) ∧
    (∀ req final, Accepts L rest req final → call = (.Complete, req, { self with buffer_ := final })) ∧
    (call.1 = .Incomplete ↔ ∃ key n, SetHeader L key n ∧ rest.length < n + 1) ∧
    (call.1 = .Incomplete → call = (.Incomplete, out_request, self)) ∧
    (call.1 = .Error ↔ (¬ ∃ req final, Accepts L rest req final) ∧
      ¬ ∃ key n, SetHeader L key n ∧ rest.length < n + 1) ∧
    (call.1 = .Error → call.2.1 = out_request ∧
      ((¬ ∃ key n, SetHeader L key n) → call.2.2.buffer_ = rest) ∧
      (∀ key n, SetHeader L key n →
        ∃ value c, rest = value ++ c :: call.2.2.buffer_ ∧ value.length = n ∧ c ≠ LF)) := by
  intro L call
  have hcall : call = self.after out_request ((requestVerdict L).finish LF rest) :=
    self.try_parse_request_line out_request hbuffer hline
  have hcomplete := finish_eq_complete_iff L rest
  have hnone := finish_eq_none_iff L rest
  clear_value call
  subst hcall
  cases hfinish : (requestVerdict L).finish LF rest with
  | none =>
    have hno : ¬ ∃ req final, Accepts L rest req final := by
      rintro ⟨req, final, haccept⟩
      simp [(hcomplete req final).mpr haccept] at hfinish
    have hwait := hnone.mp hfinish
    refine ⟨by simp [after, hno], fun req final haccept => absurd ⟨req, final, haccept⟩ hno,
      iff_of_true rfl hwait, fun _ => rfl, iff_of_false (by simp [after]) (fun herror => herror.2 hwait),
      by simp [after]⟩
  | some emitted =>
    obtain ⟨result, final⟩ := emitted
    have hsome : ¬ ∃ key n, SetHeader L key n ∧ rest.length < n + 1 := by
      rw [← hnone, hfinish]
      simp
    cases result with
    | Complete req =>
      have haccept := (hcomplete req final).mp hfinish
      refine ⟨by simpa [after] using ⟨req, final, haccept⟩, fun req' final' haccept' => ?_,
        by simpa [after] using hsome, by simp [after], ?_, by simp [after]⟩
      · have hsame := (hcomplete req' final').mpr haccept'
        rw [hfinish, Option.some.injEq, Prod.mk.injEq, ParseResult.Complete.injEq] at hsame
        obtain ⟨rfl, rfl⟩ := hsame
        rfl
      · simp only [after, reduceCtorEq, false_iff, not_and]
        exact fun hno => absurd ⟨req, final, haccept⟩ hno
    | Error message =>
      have hno : ¬ ∃ req final, Accepts L rest req final := by
        rintro ⟨req, final', haccept⟩
        simp [(hcomplete req final').mpr haccept] at hfinish
      refine ⟨by simp [after, hno], fun req final' haccept => absurd ⟨req, final', haccept⟩ hno,
        by simpa [after] using hsome, by simp [after], ⟨fun _ => ⟨hno, hsome⟩, fun _ => rfl⟩, fun _ => ?_⟩
      obtain ⟨hreject, hset⟩ := finish_eq_error_remaining hfinish
      exact ⟨rfl, hreject, hset⟩

/-- A `SET` that is followed by the start of another command. -/
theorem IncrementalParser.try_parse_request_grammar_set :
    let self : IncrementalParser := { buffer_ := ascii "SET k 02" ++ CR :: LF :: ascii "a" ++ [LF, LF] ++ ascii "GE" }
    let req : Request := ⟨.Set, ascii "k", ascii "a" ++ [LF]⟩
    Accepts (ascii "SET k 02") (ascii "a" ++ [LF, LF] ++ ascii "GE") req (ascii "GE") ∧
      self.try_parse_request ⟨.Ping, [], []⟩ = (.Complete, req, { self with buffer_ := ascii "GE" }) := by
  intro self req
  have hheader : SetHeader (ascii "SET k 02") (ascii "k") (ascii "a" ++ [LF]).length :=
    ⟨ascii "02", by decide, by decide, by decide⟩
  have haccept : Accepts (ascii "SET k 02") (ascii "a" ++ [LF, LF] ++ ascii "GE") req (ascii "GE") :=
    .set hheader
  have hbuffer : self.buffer_ = (ascii "SET k 02" ++ [CR]) ++ LF :: (ascii "a" ++ [LF, LF] ++ ascii "GE") := rfl
  have hgrammar := self.try_parse_request_grammar ⟨.Ping, [], []⟩ hbuffer (by decide)
  exact ⟨haccept, hgrammar.2.1 req _ haccept⟩

end kv.protocol
