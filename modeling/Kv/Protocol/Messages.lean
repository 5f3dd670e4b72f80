import Kv.Bytes

namespace kv.protocol

def kMaxKeyLen : Nat := 250
def kMaxValueLen : Nat := 1024 * 1024

inductive Command
  | Get
  | Set
  | Delete
  | Ping
  deriving DecidableEq, Repr

structure Request where
  command : Command
  key : Bytes
  value : Bytes
  deriving DecidableEq, Repr

inductive ParseStatus
  | Incomplete
  | Complete
  | Error
  deriving DecidableEq, Repr

inductive ResponseType
  | Value
  | NotFound
  | Ok
  | Deleted
  | Error
  | Pong
  deriving DecidableEq, Repr

structure Response where
  type : ResponseType
  value : Bytes
  message : Bytes
  deriving DecidableEq, Repr

def encode_request (req : Request) : Bytes :=
  match req.command with
  | .Get => ascii "GET " ++ req.key ++ [LF]
  | .Delete => ascii "DELETE " ++ req.key ++ [LF]
  | .Set => ascii "SET " ++ req.key ++ [SP] ++ to_string req.value.length ++ [LF] ++ req.value ++ [LF]
  | .Ping => ascii "PING" ++ [LF]

def encode_value_response (value : Bytes) : Bytes :=
  ascii "VALUE " ++ to_string value.length ++ [LF] ++ value ++ [LF]

def encode_not_found_response : Bytes := ascii "NOT_FOUND" ++ [LF]
def encode_ok_response : Bytes := ascii "OK" ++ [LF]
def encode_deleted_response : Bytes := ascii "DELETED" ++ [LF]
def encode_error_response (message : Bytes) : Bytes := ascii "ERROR " ++ message ++ [LF]
def encode_pong_response : Bytes := ascii "PONG" ++ [LF]

def is_valid_key (key : Bytes) : Bool :=
  if key.isEmpty || key.length > kMaxKeyLen then false
  else key.all (fun c => !(c ≤ 0x20))

/-- The tokens between single spaces. Adjacent, leading and trailing spaces
    give empty tokens, and an empty line gives one empty token. -/
def split_spaces (line : Bytes) : List Bytes := line.splitOn SP

/-- The `bool` result and the `out` argument of the source are one option. -/
def parse_length (s : Bytes) : Option Nat :=
  if s.isEmpty || s.length > 10 then none
  else if !s.all isdigit then none
  else
    match stoull s with
    | none => none
    | some v => if v > kMaxValueLen then none else some v

def strip_trailing_cr (line : Bytes) : Bytes :=
  if !line.isEmpty && line.getLast? == some CR then line.dropLast else line

/-- A key of the grammar: 1 to 250 bytes, none of them a space or control. -/
def ValidKey (key : Bytes) : Prop := 1 ≤ key.length ∧ key.length ≤ 250 ∧ ∀ c ∈ key, 0x20 < c

/-- A length of the grammar: 1 to 10 decimal digits that denote `n`, which is
    at most 1 MiB. -/
def Denotes (len : Bytes) (n : Nat) : Prop :=
  1 ≤ len.length ∧ len.length ≤ 10 ∧ (∀ c ∈ len, 0x30 ≤ c ∧ c ≤ 0x39) ∧ decimal len = n ∧ n ≤ 1048576

theorem is_valid_key_iff (key : Bytes) : is_valid_key key = true ↔ ValidKey key := by
  unfold is_valid_key ValidKey kMaxKeyLen
  cases key with
  | nil => simp
  | cons c key =>
    simp only [List.isEmpty_cons, Bool.false_or, gt_iff_lt, decide_eq_true_eq]
    split
    · rename_i hlong
      simp only [Bool.false_eq_true, false_iff, not_and]
      omega
    · rename_i hshort
      simp only [List.all_eq_true, Bool.not_eq_true', decide_eq_false_iff_not, UInt8.not_le]
      exact ⟨fun h => ⟨by simp, by omega, h⟩, fun h => h.2.2⟩

instance (key : Bytes) : Decidable (ValidKey key) := decidable_of_iff _ (is_valid_key_iff key)

theorem parse_length_eq_some_iff (s : Bytes) (n : Nat) : parse_length s = some n ↔ Denotes s n := by
  unfold parse_length Denotes stoull kMaxValueLen
  by_cases hlen : s.isEmpty = true ∨ s.length > 10
  · rw [if_pos (by simpa using hlen)]
    simp only [reduceCtorEq, false_iff, not_and]
    intro hpos hshort
    rcases hlen with hempty | hlong
    · simp [List.isEmpty_iff.mp hempty] at hpos
    · omega
  rw [if_neg (by simpa using hlen)]
  have hpos : 1 ≤ s.length ∧ s.length ≤ 10 := by
    simp only [not_or, gt_iff_lt, not_lt, List.isEmpty_iff] at hlen
    exact ⟨List.length_pos_iff.mpr hlen.1, hlen.2⟩
  by_cases hdigits : s.all isdigit = true
  · have hdigits' : ∀ c ∈ s, 0x30 ≤ c ∧ c ≤ 0x39 := fun c hc =>
      (isdigit_iff c).mp (List.all_eq_true.mp hdigits c hc)
    -- Ten digits always fit, so the `catch` in the source is never taken.
    have hfits : decimal s < 2 ^ 64 :=
      calc decimal s < 10 ^ s.length := decimal_lt hdigits
        _ ≤ 10 ^ 10 := Nat.pow_le_pow_right (by decide) hpos.2
        _ < 2 ^ 64 := by decide
    simp only [hdigits, Bool.not_true, Bool.false_eq_true, if_false, if_pos hfits]
    split
    · simp only [reduceCtorEq, false_iff, not_and]
      omega
    · simp only [Option.some.injEq]
      exact ⟨fun h => ⟨hpos.1, hpos.2, hdigits', h, by omega⟩, fun h => h.2.2.2.1⟩
  · simp only [hdigits, Bool.not_false, if_true, reduceCtorEq, false_iff]
    rintro ⟨_, _, hall, _⟩
    exact hdigits (List.all_eq_true.mpr fun c hc => (isdigit_iff c).mpr (hall c hc))

instance (len : Bytes) (n : Nat) : Decidable (Denotes len n) := decidable_of_iff _ (parse_length_eq_some_iff len n)

/-- A printed length is read back, within the length field's ten digits. -/
theorem denotes_to_string {n : Nat} (hn : n ≤ 1048576) : Denotes (to_string n) n := by
  refine ⟨List.length_pos_iff.mpr (to_string_ne_nil n), ?_, ?_, decimal_to_string n, hn⟩
  · exact (length_to_string_le_iff (by decide)).mpr (by omega)
  · intro c hc
    exact (isdigit_iff c).mp (isdigit_of_mem_to_string hc)

theorem Denotes.gt_space {len : Bytes} {n : Nat} (hlen : Denotes len n) : ∀ c ∈ len, SP < c := by
  intro c hc
  exact isdigit_gt_space ((isdigit_iff c).mpr (hlen.2.2.1 c hc))

/-- A byte above the space is no separator of the protocol. -/
theorem not_mem_of_gt_space {s : Bytes} (hs : ∀ c ∈ s, SP < c) {c : UInt8} (hc : c ≤ SP) : c ∉ s := by
  intro hmem
  exact absurd (hs c hmem) (by simpa using hc)

/-- The value follows the first line feed. -/
theorem encode_value_response_inj {value value' : Bytes}
    (heq : encode_value_response value = encode_value_response value') : value = value' := by
  have hrest (value : Bytes) : (encode_value_response value).dropWhile (· ≠ LF) = LF :: (value ++ [LF]) := by
    have hline : ∀ c ∈ ascii "VALUE " ++ to_string value.length, decide (c ≠ LF) = true := by
      intro c hmem
      rw [decide_eq_true_eq]
      rintro rfl
      rcases List.mem_append.mp hmem with hword | hdigit
      · exact absurd hword (by decide)
      · exact absurd (isdigit_of_mem_to_string hdigit) (by decide)
    rw [encode_value_response, List.append_assoc, List.append_assoc, List.dropWhile_append_of_pos hline]
    simp
  have hdrop := congrArg (List.dropWhile (· ≠ LF)) heq
  rw [hrest, hrest] at hdrop
  simpa using hdrop

/-- Only a trailing CR is stripped. -/
theorem strip_trailing_cr_of_ne {line : Bytes} (hcr : line.getLast? ≠ some CR) :
    strip_trailing_cr line = line := by
  simp [strip_trailing_cr, hcr]

theorem strip_of_gt_space {line : Bytes} {c : UInt8} (hlast : line.getLast? = some c) (hc : SP < c) :
    strip_trailing_cr line = line := by
  apply strip_trailing_cr_of_ne
  rw [hlast, ne_eq, Option.some.injEq]
  rintro rfl
  exact absurd hc (by decide)

theorem length_le_strip_trailing_cr (line : Bytes) : line.length ≤ (strip_trailing_cr line).length + 1 := by
  unfold strip_trailing_cr
  split
  · rw [List.length_dropLast]
    omega
  · omega

/-- A non-empty string of bytes above the space ends the line it is last on. -/
theorem exists_getLast?_of_gt_space (start : Bytes) {s : Bytes} (hne : s ≠ []) (hs : ∀ c ∈ s, SP < c) :
    ∃ c, (start ++ SP :: s).getLast? = some c ∧ SP < c := by
  refine ⟨s.getLast hne, ?_, hs _ (List.getLast_mem hne)⟩
  rw [List.getLast?_append, List.getLast?_cons, List.getLast?_eq_some_getLast hne]
  rfl

end kv.protocol
