import Kv.Lib.Rounding
import Kv.Lib.Sorted

open Rounding Sorted

namespace kv.bench

/-- The `double` nearest to `0.50`, `0.95` and `0.99`, in units of `2 ^ -53`. -/
def kP50 : Nat := 4503599627370496
def kP95 : Nat := 8556839292003942
def kP99 : Nat := 8917127262193582

/-- `static_cast<size_t>(std::ceil(p * static_cast<double>(n))) - 1`, with `p` in
    units of `2 ^ -53`, and the clamp after it. -/
def percentile_index (p n : Nat) : Nat :=
  let product := round 53 (p * round 53 n)
  let ceil := (product + (2 ^ 53 - 1)) / 2 ^ 53
  let idx := (ceil + (2 ^ 64 - 1)) % 2 ^ 64
  if n ≤ idx then n - 1 else idx

/-- `PercentileStats` without the mean. -/
structure PercentileStats (α : Type) where
  p50_ms : α
  p95_ms : α
  p99_ms : α
  min_ms : α
  max_ms : α
  deriving DecidableEq

/-- `compute_percentiles` on latencies of any ordered type. -/
def compute_percentiles {α : Type} [LinearOrder α] [Zero α] (latencies_ms : List α) : PercentileStats α :=
  if latencies_ms.isEmpty then ⟨0, 0, 0, 0, 0⟩
  else
    let sorted := latencies_ms.mergeSort fun a b => decide (a ≤ b)
    let percentile (p : Nat) : α := sorted.getD (percentile_index p sorted.length) 0
    ⟨percentile kP50, percentile kP95, percentile kP99, sorted.headD 0, sorted.getLastD 0⟩

/-- A `double` just below the fraction `a / b`. -/
structure JustBelow (p a b : Nat) : Prop where
  pos : 0 < a
  proper : a < b
  denominator : b ≤ 100
  below : p * b ≤ a * 2 ^ 53
  near : a * 2 ^ 53 ≤ p * b + 8

theorem kP50_below : JustBelow kP50 1 2 := by constructor <;> decide
theorem kP95_below : JustBelow kP95 19 20 := by constructor <;> decide
theorem kP99_below : JustBelow kP99 99 100 := by constructor <;> decide

section

variable {p a b n rank : Nat}

/-- The rounded product lies just where the exact one does between two whole
    numbers. -/
theorem JustBelow.product_bounds (h : JustBelow p a b) (hn : n ≤ 2 ^ 45) (hupper : a * n ≤ b * (rank + 1))
    (hlower : b * rank < a * n) :
    rank * 2 ^ 53 < round 53 (p * n) ∧ round 53 (p * n) ≤ (rank + 1) * 2 ^ 53 := by
  have hb : 0 < b := h.pos.trans h.proper
  have hp : p < 2 ^ 53 := by
    refine Nat.lt_of_mul_lt_mul_right (a := b) (h.below.trans_lt ?_)
    rw [Nat.mul_comm (2 ^ 53)]
    exact Nat.mul_lt_mul_of_pos_right h.proper (by decide)
  have hsmall : p * n < 2 ^ (53 + 45) := by
    rw [Nat.pow_add]
    exact Nat.mul_lt_mul_of_lt_of_le hp hn (by decide)
  have hulp : ulp 53 (p * n) ∣ 2 ^ 45 := ulp_dvd (by decide) hsmall
  have hwhole (k : Nat) : ulp 53 (p * n) ∣ k * 2 ^ 53 :=
    Dvd.dvd.mul_left (hulp.trans (Nat.pow_dvd_pow 2 (by decide))) k
  have hproduct : b * (p * n) = p * b * n := by ring
  constructor
  · -- Rounding down to a whole number would be off by more than half an ulp.
    have hbelow : a * n * 2 ^ 53 ≤ p * b * n + 8 * n := by
      have hscaled := Nat.mul_le_mul_right n h.near
      rw [Nat.add_mul] at hscaled
      exact (by ring : a * n * 2 ^ 53 = a * 2 ^ 53 * n) ▸ hscaled
    have herror : 2 * (p * b * n) ≤ 2 * (b * round 53 (p * n)) + b * ulp 53 (p * n) := by
      have hscaled := Nat.mul_le_mul_left b (@two_mul_le_nearest (p * n) (ulp 53 (p * n)) ulp_pos)
      rw [← hproduct]
      calc 2 * (b * (p * n)) = b * (2 * (p * n)) := by ring
        _ ≤ b * (2 * round 53 (p * n) + ulp 53 (p * n)) := hscaled
        _ = 2 * (b * round 53 (p * n)) + b * ulp 53 (p * n) := by ring
    have hwidth : b * ulp 53 (p * n) ≤ 100 * 2 ^ 45 :=
      Nat.mul_le_mul h.denominator (Nat.le_of_dvd (by decide) hulp)
    by_contra hle
    have hscaled : b * round 53 (p * n) ≤ b * rank * 2 ^ 53 := by
      rw [Nat.mul_assoc]
      exact Nat.mul_le_mul_left b (Nat.not_lt.mp hle)
    omega
  · refine nearest_le (hwhole (rank + 1)) (Nat.le_of_mul_le_mul_left ?_ hb)
    calc b * (p * n) = p * b * n := hproduct
      _ ≤ a * 2 ^ 53 * n := Nat.mul_le_mul_right n h.below
      _ = a * n * 2 ^ 53 := by ring
      _ ≤ b * (rank + 1) * 2 ^ 53 := Nat.mul_le_mul_right _ hupper
      _ = b * ((rank + 1) * 2 ^ 53) := by ring

/-- The index of a percentile is its nearest rank, for as many samples as a
    `size_t` may count in practice: rounding does not matter. -/
theorem JustBelow.percentile_index_eq (h : JustBelow p a b) (hn : n ≤ 2 ^ 45) (hupper : a * n ≤ b * (rank + 1))
    (hlower : b * rank < a * n) : percentile_index p n = rank := by
  have hexact : round 53 n = n := round_of_lt (by decide) (hn.trans_lt (by decide))
  obtain ⟨hlow, hhigh⟩ := h.product_bounds hn hupper hlower
  have hrank : rank < n := by
    have hless : b * rank < b * n := hlower.trans_le (Nat.mul_le_mul_right n h.proper.le)
    exact Nat.lt_of_mul_lt_mul_left hless
  have hceil : (round 53 (p * n) + (2 ^ 53 - 1)) / 2 ^ 53 = rank + 1 := by omega
  simp only [percentile_index, hexact, hceil]
  have hidx : (rank + 1 + (2 ^ 64 - 1)) % 2 ^ 64 = rank := by omega
  rw [hidx, if_neg (Nat.not_le.mpr hrank)]

end

/-- `value` is the percentile `a / b` by nearest rank: at least that part of the
    samples is not above it, and less than that part is below it. -/
def NearestRank {α : Type} [LinearOrder α] (a b : Nat) (latencies_ms : List α) (value : α) : Prop :=
  value ∈ latencies_ms ∧ a * latencies_ms.length ≤ b * latencies_ms.countP (fun x => decide (x ≤ value)) ∧
    b * latencies_ms.countP (fun x => decide (x < value)) < a * latencies_ms.length

section

variable {α : Type} [LinearOrder α] [Zero α] {latencies_ms sorted : List α} {p a b : Nat}

theorem JustBelow.nearestRank (h : JustBelow p a b) (hperm : sorted.Perm latencies_ms)
    (hsorted : sorted.Pairwise (· ≤ ·)) (hne : latencies_ms ≠ []) (hlength : latencies_ms.length ≤ 2 ^ 45) :
    NearestRank a b latencies_ms (sorted.getD (percentile_index p sorted.length) 0) := by
  have hpos : 0 < latencies_ms.length := List.length_pos_of_ne_nil hne
  have hb : 0 < b := h.pos.trans h.proper
  -- The nearest rank, counted from 0.
  let rank := (a * latencies_ms.length - 1) / b
  have hpart : 0 < a * latencies_ms.length := Nat.mul_pos h.pos hpos
  have hdivmod : b * rank + (a * latencies_ms.length - 1) % b = a * latencies_ms.length - 1 := Nat.div_add_mod _ b
  have hmod : (a * latencies_ms.length - 1) % b < b := Nat.mod_lt _ hb
  have hlower : b * rank < a * latencies_ms.length := by omega
  have hupper : a * latencies_ms.length ≤ b * (rank + 1) := by
    rw [Nat.mul_add]
    omega
  have hrank : rank < sorted.length := by
    rw [hperm.length_eq]
    exact Nat.lt_of_mul_lt_mul_left (hlower.trans_le (Nat.mul_le_mul_right _ h.proper.le))
  have hindex : percentile_index p sorted.length = rank := by
    rw [hperm.length_eq]
    exact h.percentile_index_eq hlength hupper hlower
  obtain ⟨hcount, hbelow⟩ := count_of_sorted hsorted hrank
  have hvalue : sorted.getD rank 0 = sorted[rank] := by simp [hrank]
  rw [hindex, hvalue]
  refine ⟨hperm.subset (List.getElem_mem hrank), ?_, ?_⟩
  · rw [← hperm.countP_eq]
    exact hupper.trans (Nat.mul_le_mul_left b hcount)
  · rw [← hperm.countP_eq]
    exact (Nat.mul_le_mul_left b hbelow).trans_lt hlower

theorem extremes (hperm : sorted.Perm latencies_ms) (hsorted : sorted.Pairwise (· ≤ ·)) (hne : latencies_ms ≠ []) :
    sorted.headD 0 ∈ latencies_ms ∧ sorted.getLastD 0 ∈ latencies_ms ∧
      ∀ x ∈ latencies_ms, sorted.headD 0 ≤ x ∧ x ≤ sorted.getLastD 0 := by
  have hne' : sorted ≠ [] := fun hnil => hne (hnil ▸ hperm).symm.eq_nil
  have hfirst := headD_of_sorted hsorted hne' 0
  have hlast := getLastD_of_sorted hsorted hne' 0
  refine ⟨hperm.subset hfirst.1, hperm.subset hlast.1, ?_⟩
  intro x hx
  exact ⟨hfirst.2 x (hperm.symm.subset hx), hlast.2 x (hperm.symm.subset hx)⟩

/-- What a benchmark reports. For up to `2 ^ 45` samples, in any order, the three
    percentiles are those of the nearest-rank definition for 50, 95 and 99 per cent
    exactly: neither the constants, which are not quite these fractions, nor the
    rounding of the product can move an index. Minimum and maximum are what they say. -/
theorem compute_percentiles_nearest_rank (hne : latencies_ms ≠ []) (hlength : latencies_ms.length ≤ 2 ^ 45) :
    NearestRank 1 2 latencies_ms (compute_percentiles latencies_ms).p50_ms ∧
    NearestRank 19 20 latencies_ms (compute_percentiles latencies_ms).p95_ms ∧
    NearestRank 99 100 latencies_ms (compute_percentiles latencies_ms).p99_ms ∧
    ((compute_percentiles latencies_ms).min_ms ∈ latencies_ms ∧
      (compute_percentiles latencies_ms).max_ms ∈ latencies_ms ∧
      ∀ x ∈ latencies_ms, (compute_percentiles latencies_ms).min_ms ≤ x ∧
        x ≤ (compute_percentiles latencies_ms).max_ms) := by
  let sorted := latencies_ms.mergeSort fun a b => decide (a ≤ b)
  have hperm : sorted.Perm latencies_ms := List.mergeSort_perm _ _
  have hsorted : sorted.Pairwise (· ≤ ·) := List.pairwise_mergeSort' (· ≤ ·) latencies_ms
  have hstats : compute_percentiles latencies_ms =
      ⟨sorted.getD (percentile_index kP50 sorted.length) 0, sorted.getD (percentile_index kP95 sorted.length) 0,
        sorted.getD (percentile_index kP99 sorted.length) 0, sorted.headD 0, sorted.getLastD 0⟩ := by
    rw [compute_percentiles, if_neg (by simpa using hne)]
  simp only [hstats]
  refine ⟨kP50_below.nearestRank hperm hsorted hne hlength, kP95_below.nearestRank hperm hsorted hne hlength,
    kP99_below.nearestRank hperm hsorted hne hlength, ?_⟩
  exact extremes hperm hsorted hne

/-- The median of three samples that come out of order. -/
theorem compute_percentiles_nearest_rank_example : (compute_percentiles [30, 10, 20]).p50_ms = 20 := by
  obtain ⟨⟨hmem, hle, hlt⟩, _⟩ := @compute_percentiles_nearest_rank Nat _ _ [30, 10, 20] (by simp) (by simp)
  simp only [List.mem_cons, List.not_mem_nil, or_false] at hmem
  rcases hmem with hvalue | hvalue | hvalue
  · rw [hvalue] at hlt
    exact absurd hlt (by decide)
  · rw [hvalue] at hle
    exact absurd hle (by decide)
  · exact hvalue

end

end kv.bench
