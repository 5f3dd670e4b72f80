import Mathlib.Data.UInt
import Kv.HashRing

namespace kv

open Function

/-- Past half of the word a second shift leaves nothing, so the step undoes
    itself. -/
theorem involutive_xor_shiftRight : Involutive fun k : UInt64 => k ^^^ (k >>> 33) := by
  intro k
  have hgone : k >>> 33 >>> 33 = 0 := by
    apply UInt64.toNat_inj.mp
    have hk := k.toNat_lt
    simp [Nat.shiftRight_eq_div_pow]
    omega
  calc k ^^^ k >>> 33 ^^^ (k ^^^ k >>> 33) >>> 33
      = k ^^^ (k >>> 33 ^^^ k >>> 33) ^^^ k >>> 33 >>> 33 := by
        simp only [UInt64.shiftRight_xor, UInt64.xor_assoc]
    _ = k := by simp [hgone]

theorem injective_mul_of_mul_eq_one {c : UInt64} (d : UInt64) (hinv : c * d = 1) :
    Injective fun k : UInt64 => k * c :=
  (IsUnit.of_mul_eq_one d hinv).mul_left_injective

/-- The finalizer adds no collision. Its multipliers are odd, so each has an
    inverse modulo `2 ^ 64`. -/
theorem injective_fmix64 : Injective fmix64 := by
  have hshift := involutive_xor_shiftRight.injective
  have hfirst : Injective fun k : UInt64 => k * 0xff51afd7ed558ccd :=
    injective_mul_of_mul_eq_one 0x4f74430c22a54005 (by decide)
  have hsecond : Injective fun k : UInt64 => k * 0xc4ceb9fe1a85ec53 :=
    injective_mul_of_mul_eq_one 0x9cb4b2f8129337db (by decide)
  exact hshift.comp (hsecond.comp (hshift.comp (hfirst.comp hshift)))

theorem injective_mul_fnv_prime : Injective fun hash : UInt64 => hash * 1099511628211 :=
  injective_mul_of_mul_eq_one 0xce965057aff6957b (by decide)

theorem injective_foldl {α β : Type} {f : β → α → β} (hstep : ∀ a, Injective fun b => f b a) (s : List α) :
    Injective fun b => s.foldl f b := by
  induction s with
  | nil => exact injective_id
  | cons a s ih => exact ih.comp (hstep a)

/-- Each byte is absorbed by an injection, so whatever tells two states apart
    survives every byte that follows. -/
theorem injective_absorb (s : Bytes) :
    Injective fun hash : UInt64 => s.foldl (fun hash c => (hash ^^^ c.toUInt64) * 1099511628211) hash := by
  apply injective_foldl
  intro c
  exact injective_mul_fnv_prime.comp fun hash hash' heq => (UInt64.xor_left_inj _).mp heq

theorem fnv1a_hash_inj_byte {p s : Bytes} {a b : UInt8}
    (heq : fnv1a_hash (p ++ a :: s) = fnv1a_hash (p ++ b :: s)) : a = b := by
  have hfold := injective_fmix64 heq
  rw [List.foldl_append, List.foldl_append, List.foldl_cons, List.foldl_cons] at hfold
  have hxor := injective_mul_fnv_prime (injective_absorb s hfold)
  have hbyte := (UInt64.xor_right_inj _).mp hxor
  simpa [UInt8.toNat_inj] using congrArg UInt64.toNat hbyte

/-- Strings that differ in one byte never collide, and neither do virtual nodes
    whose labels differ in one byte. -/
theorem fnv1a_hash_one_byte :
    Injective fmix64 ∧
      (∀ (p s : Bytes) (a b : UInt8), a ≠ b → fnv1a_hash (p ++ [a] ++ s) ≠ fnv1a_hash (p ++ [b] ++ s)) ∧
      (∀ (node_id node_id' : Bytes) (i j : Nat) (p s : Bytes) (a b : UInt8), a ≠ b →
        node_id ++ ascii "#" ++ to_string i = p ++ [a] ++ s → node_id' ++ ascii "#" ++ to_string j = p ++ [b] ++ s →
        ConsistentHashRing.position fnv1a_hash node_id i ≠ ConsistentHashRing.position fnv1a_hash node_id' j) := by
  have hbytes (p s : Bytes) (a b : UInt8) (hne : a ≠ b) :
      fnv1a_hash (p ++ [a] ++ s) ≠ fnv1a_hash (p ++ [b] ++ s) := by
    intro heq
    rw [List.append_assoc, List.append_assoc] at heq
    exact hne (fnv1a_hash_inj_byte heq)
  refine ⟨injective_fmix64, hbytes, ?_⟩
  intro node_id node_id' i j p s a b hne hlabel hlabel'
  rw [ConsistentHashRing.position, ConsistentHashRing.position, hlabel, hlabel']
  exact hbytes p s a b hne

theorem fnv1a_hash_one_byte_node :
    fnv1a_hash (ascii "nodeA#0") ≠ fnv1a_hash (ascii "nodeA#7") ∧
      ConsistentHashRing.position fnv1a_hash (ascii "nodeA") 0 ≠
        ConsistentHashRing.position fnv1a_hash (ascii "nodeB") 0 :=
  ⟨fnv1a_hash_one_byte.2.1 (ascii "nodeA#") [] 0x30 0x37 (by decide),
    fnv1a_hash_one_byte.2.2 (ascii "nodeA") (ascii "nodeB") 0 0 (ascii "node") (ascii "#0") 0x41 0x42 (by decide)
      (by decide) (by decide)⟩

end kv
