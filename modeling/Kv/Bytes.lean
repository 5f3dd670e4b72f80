import Mathlib.Data.List.Basic
import Mathlib.Tactic.Ring

namespace kv

/-- The contents of a `std::string`: raw bytes, with no encoding assumed. -/
abbrev Bytes := List UInt8

/-- The bytes of an ASCII string literal of the source. -/
def ascii (s : String) : Bytes := s.toList.map Char.toUInt8

def LF : UInt8 := 0x0A
def CR : UInt8 := 0x0D
def SP : UInt8 := 0x20

/-- `isspace` in the default "C" locale. -/
def isspace (c : UInt8) : Bool := c = 0x20 || (0x09 ≤ c && c ≤ 0x0D)

/-- `std::to_string` on an unsigned integer. -/
def to_string (n : Nat) : Bytes := (Nat.toDigits 10 n).map Char.toUInt8

/-- `std::isdigit` on an unsigned char, in the default "C" locale. -/
def isdigit (c : UInt8) : Bool := 0x30 ≤ c && c ≤ 0x39

/-- The number a string of decimal digits denotes; leading zeros are allowed. -/
def decimal (s : Bytes) : Nat := s.foldl (fun v c => 10 * v + (c.toNat - 0x30)) 0

/-- `std::stoull` on a string of decimal digits. It throws `out_of_range`, here
    `none`, when the number does not fit an `unsigned long long`. -/
def stoull (s : Bytes) : Option Nat := if decimal s < 2 ^ 64 then some (decimal s) else none

private theorem toNat_toUInt8_of_isDigit {c : Char} (hdigit : c.isDigit) :
    c.toUInt8.toNat = c.toNat ∧ 48 ≤ c.toNat ∧ c.toNat ≤ 57 := by
  simp only [Char.isDigit, Bool.and_eq_true, decide_eq_true_eq, ge_iff_le, UInt32.le_iff_toNat_le] at hdigit
  have hlow : 48 ≤ c.toNat := by simpa using hdigit.1
  have hhigh : c.toNat ≤ 57 := by simpa using hdigit.2
  refine ⟨?_, hlow, hhigh⟩
  change c.val.toNat % 256 = c.val.toNat
  exact Nat.mod_eq_of_lt (by change c.val.toNat ≤ 57 at hhigh; omega)

private theorem isDigit_of_mem {n : Nat} {c : Char} (hmem : c ∈ Nat.toDigits 10 n) : c.isDigit :=
  Nat.isDigit_of_mem_toDigits (by decide) (by decide) hmem

theorem to_string_ne_nil (n : Nat) : to_string n ≠ [] := by
  simp [to_string, Nat.toDigits_ne_nil]

theorem isdigit_iff (c : UInt8) : isdigit c = true ↔ 0x30 ≤ c ∧ c ≤ 0x39 := by
  simp [isdigit]

theorem isdigit_of_mem_to_string {n : Nat} {c : UInt8} (hmem : c ∈ to_string n) : isdigit c = true := by
  obtain ⟨digit, hdigit, rfl⟩ := List.mem_map.mp hmem
  obtain ⟨hval, hlow, hhigh⟩ := toNat_toUInt8_of_isDigit (isDigit_of_mem hdigit)
  rw [isdigit_iff, UInt8.le_iff_toNat_le, UInt8.le_iff_toNat_le, hval]
  exact ⟨hlow, hhigh⟩

/-- Digits are neither spaces, line feeds, nor carriage returns. -/
theorem isdigit_gt_space {c : UInt8} (hdigit : isdigit c = true) : SP < c := by
  rw [isdigit_iff, UInt8.le_iff_toNat_le] at hdigit
  rw [UInt8.lt_iff_toNat_lt]
  exact lt_of_lt_of_le (by decide) hdigit.1

private theorem decimal_map_toUInt8 (digits : List Char) (hdigits : ∀ c ∈ digits, c.isDigit) (v : Nat) :
    (digits.map Char.toUInt8).foldl (fun v c => 10 * v + (c.toNat - 0x30)) v = Nat.ofDigitChars 10 digits v := by
  induction digits generalizing v with
  | nil => simp
  | cons c digits ih =>
    obtain ⟨hval, _, _⟩ := toNat_toUInt8_of_isDigit (hdigits c (by simp))
    rw [List.map_cons, List.foldl_cons, Nat.ofDigitChars_cons, hval]
    exact ih (fun c hc => hdigits c (by simp [hc])) _

/-- Decimal printing is inverted by decimal reading. -/
@[simp] theorem decimal_to_string (n : Nat) : decimal (to_string n) = n := by
  unfold decimal to_string
  rw [decimal_map_toUInt8 _ (fun c hc => isDigit_of_mem hc), Nat.ofDigitChars_ten_toDigits]

theorem length_to_string_le_iff {n k : Nat} (hk : 0 < k) : (to_string n).length ≤ k ↔ n < 10 ^ k := by
  rw [to_string, List.length_map]
  exact Nat.length_toDigits_le_iff (by decide) hk

private theorem decimal_lt_aux (s : Bytes) (hdigits : s.all isdigit = true) (v : Nat) :
    s.foldl (fun v c => 10 * v + (c.toNat - 0x30)) v < (v + 1) * 10 ^ s.length := by
  induction s generalizing v with
  | nil => simp
  | cons c s ih =>
    simp only [List.all_cons, Bool.and_eq_true, isdigit_iff, UInt8.le_iff_toNat_le] at hdigits
    have hdigit : c.toNat ≤ 57 := hdigits.1.2
    have htail := ih hdigits.2 (10 * v + (c.toNat - 0x30))
    rw [List.foldl_cons, List.length_cons, pow_succ]
    calc s.foldl (fun v c => 10 * v + (c.toNat - 0x30)) (10 * v + (c.toNat - 0x30))
        < (10 * v + (c.toNat - 0x30) + 1) * 10 ^ s.length := htail
      _ ≤ (10 * (v + 1)) * 10 ^ s.length := Nat.mul_le_mul_right _ (by omega)
      _ = (v + 1) * (10 ^ s.length * 10) := by ring

/-- A string of `k` digits denotes a number below `10 ^ k`. -/
theorem decimal_lt {s : Bytes} (hdigits : s.all isdigit = true) : decimal s < 10 ^ s.length := by
  simpa [decimal] using decimal_lt_aux s hdigits 0

end kv
