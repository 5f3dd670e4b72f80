import Kv.Protocol.Request.RoundTrip

open Incremental

namespace kv.client

open protocol

/-- The `bool` result and the `err` argument of the source are one `Except`.
    Fields of `out` that a branch does not assign keep their contents. -/
def build_request (tokens : List Bytes) (out : Request) : Except Bytes Request :=
  match tokens with
  | [] => .error (ascii "empty command")
  | cmd :: _ =>
    if cmd = ascii "GET" || cmd = ascii "get" then
      if tokens.length ≠ 2 then .error (ascii "usage: GET key")
      else .ok { out with command := .Get, key := tokens.getD 1 [] }
    else if cmd = ascii "DELETE" || cmd = ascii "delete" then
      if tokens.length ≠ 2 then .error (ascii "usage: DELETE key")
      else .ok { out with command := .Delete, key := tokens.getD 1 [] }
    else if cmd = ascii "SET" || cmd = ascii "set" then
      if tokens.length < 3 then .error (ascii "usage: SET key value...")
      else
        let value := (tokens.drop 3).foldl (fun value token => value ++ [SP] ++ token) (tokens.getD 2 [])
        .ok { command := .Set, key := tokens.getD 1 [], value := value }
    else if cmd = ascii "PING" || cmd = ascii "ping" then
      if tokens.length ≠ 1 then .error (ascii "usage: PING")
      else .ok { out with command := .Ping }
    else .error (ascii "unknown command: " ++ cmd)

/-- A token as `split_whitespace` yields it. -/
def IsToken (token : Bytes) : Prop := token ≠ [] ∧ ∀ c ∈ token, isspace c = false

instance (token : Bytes) : Decidable (IsToken token) :=
  decidable_of_iff (token ≠ [] ∧ token.all (fun c => !isspace c)) (by simp [IsToken])

theorem IsToken.not_mem {token : Bytes} (htoken : IsToken token) {c : UInt8} (hc : isspace c = true) :
    c ∉ token := by
  intro hmem
  simp [htoken.2 c hmem] at hc

theorem IsToken.getLast?_ne_cr (start : Bytes) {token : Bytes} (htoken : IsToken token) :
    (start ++ SP :: token).getLast? ≠ some CR := by
  have hlast := List.getLast_mem htoken.1
  rw [List.getLast?_append, List.getLast?_cons, List.getLast?_eq_some_getLast htoken.1]
  simp only [Option.getD_some, Option.some_or, ne_eq, Option.some.injEq]
  intro hcr
  rw [hcr] at hlast
  exact htoken.not_mem (by decide) hlast

theorem foldl_append_space (first : Bytes) (words : List Bytes) :
    words.foldl (fun value token => value ++ [SP] ++ token) first = [SP].intercalate (first :: words) := by
  induction words generalizing first with
  | nil => simp
  | cons word words ih =>
    rw [List.foldl_cons, ih]
    cases words with
    | nil => simp [List.intercalate_cons_of_ne_nil]
    | cons next words => simp [List.intercalate_cons_of_ne_nil]

/-- What an accepted token list is. -/
theorem build_request_cases {tokens : List Bytes} {out req : Request} (hbuild : build_request tokens out = .ok req) :
    (∃ cmd key, (cmd = ascii "GET" ∨ cmd = ascii "get") ∧ tokens = [cmd, key] ∧
      req = { out with command := .Get, key := key }) ∨
    (∃ cmd key, (cmd = ascii "DELETE" ∨ cmd = ascii "delete") ∧ tokens = [cmd, key] ∧
      req = { out with command := .Delete, key := key }) ∨
    (∃ cmd key word words, (cmd = ascii "SET" ∨ cmd = ascii "set") ∧ tokens = cmd :: key :: word :: words ∧
      req = ⟨.Set, key, [SP].intercalate (word :: words)⟩) ∨
    (∃ cmd, (cmd = ascii "PING" ∨ cmd = ascii "ping") ∧ tokens = [cmd] ∧ req = { out with command := .Ping }) := by
  cases tokens with
  | nil => simp [build_request] at hbuild
  | cons cmd args =>
    unfold build_request at hbuild
    dsimp only at hbuild
    split at hbuild
    · rename_i hcmd
      split at hbuild
      · simp at hbuild
      · rename_i htwo
        obtain ⟨key, rfl⟩ : ∃ key, args = [key] := List.length_eq_one_iff.mp (by simpa using htwo)
        exact .inl ⟨cmd, key, by simpa using hcmd, rfl, (Except.ok.inj hbuild).symm⟩
    split at hbuild
    · rename_i hcmd
      split at hbuild
      · simp at hbuild
      · rename_i htwo
        obtain ⟨key, rfl⟩ : ∃ key, args = [key] := List.length_eq_one_iff.mp (by simpa using htwo)
        exact .inr (.inl ⟨cmd, key, by simpa using hcmd, rfl, (Except.ok.inj hbuild).symm⟩)
    split at hbuild
    · rename_i hcmd
      split at hbuild
      · simp at hbuild
      · rename_i hthree
        match args with
        | [] => simp at hthree
        | [_] => simp at hthree
        | key :: word :: words =>
          refine .inr (.inr (.inl ⟨cmd, key, word, words, by simpa using hcmd, rfl, ?_⟩))
          rw [← foldl_append_space]
          exact (Except.ok.inj hbuild).symm
    split at hbuild
    · rename_i hcmd
      split at hbuild
      · simp at hbuild
      · rename_i hone
        obtain rfl : args = [] := by simpa using hone
        exact .inr (.inr (.inr ⟨cmd, by simpa using hcmd, rfl, (Except.ok.inj hbuild).symm⟩))
    · simp at hbuild

end kv.client
