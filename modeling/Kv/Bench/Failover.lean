import Mathlib.Data.List.Induction
import Mathlib.Data.List.Sort
import Mathlib.Order.Lattice

namespace kv.failover

variable {α : Type}

/-- What `main` reads of a sample. -/
structure Sample (α : Type) where
  end_ms : α
  ok : Bool

/-- The counters of the first loop over the samples. -/
structure Tally (α : Type) where
  requests_before : Nat := 0
  errors_before : Nat := 0
  requests_after : Nat := 0
  errors_after : Nat := 0
  any_error_after : Bool := false
  last_error_after_ts : α

structure Report (α : Type) where
  tally : Tally α
  total_requests : Nat
  recovery_ms : α
  errors_at_tail : Bool
  recovery_bounded : Bool

section

variable [LinearOrder α]

def Tally.add (kill_ts_ms : α) (self : Tally α) (s : Sample α) : Tally α :=
  if s.end_ms < kill_ts_ms then
    { self with requests_before := self.requests_before + 1,
                errors_before := if !s.ok then self.errors_before + 1 else self.errors_before }
  else if !s.ok then
    { self with requests_after := self.requests_after + 1, errors_after := self.errors_after + 1,
                any_error_after := true, last_error_after_ts := max self.last_error_after_ts s.end_ms }
  else { self with requests_after := self.requests_after + 1 }

/-- `main`, from the end of the threads to the summary. `tail_ms` is
    `cfg.duration_ms - kTailWindowMs`. -/
def summarize [Zero α] [Sub α] (kill_ts_ms tail_ms : α) (thread_samples : List (List (Sample α))) : Report α :=
  let all := thread_samples.flatten.mergeSort fun a b => decide (a.end_ms ≤ b.end_ms)
  let tally := all.foldl (Tally.add kill_ts_ms) { last_error_after_ts := kill_ts_ms }
  let errors_at_tail := all.any fun s => decide (tail_ms ≤ s.end_ms) && !s.ok
  { tally, total_requests := all.length
    recovery_ms := if tally.any_error_after then tally.last_error_after_ts - kill_ts_ms else 0
    errors_at_tail, recovery_bounded := !tally.any_error_after || !errors_at_tail }

/-- A request that failed once the node was killed. -/
def Sample.Hit (kill_ts_ms : α) (s : Sample α) : Prop := s.ok = false ∧ kill_ts_ms ≤ s.end_ms

instance (kill_ts_ms : α) (s : Sample α) : Decidable (s.Hit kill_ts_ms) :=
  inferInstanceAs (Decidable (s.ok = false ∧ kill_ts_ms ≤ s.end_ms))

/-- What the counters say about the samples seen. -/
structure Tally.Describes (kill_ts_ms : α) (tally : Tally α) (samples : List (Sample α)) : Prop where
  requests : tally.requests_before + tally.requests_after = samples.length
  before : tally.requests_before = samples.countP fun s => decide (s.end_ms < kill_ts_ms)
  errors_before : tally.errors_before = samples.countP fun s => decide (s.end_ms < kill_ts_ms) && !s.ok
  errors_after : tally.errors_after = samples.countP fun s => decide (s.Hit kill_ts_ms)
  any_error : tally.any_error_after = true ↔ ∃ s ∈ samples, s.Hit kill_ts_ms
  last_le : kill_ts_ms ≤ tally.last_error_after_ts ∧
    ∀ s ∈ samples, s.Hit kill_ts_ms → s.end_ms ≤ tally.last_error_after_ts
  last_mem : tally.last_error_after_ts = kill_ts_ms ∨
    ∃ s ∈ samples, s.Hit kill_ts_ms ∧ s.end_ms = tally.last_error_after_ts

variable {kill_ts_ms : α}

theorem Tally.describes_nil : Tally.Describes kill_ts_ms { last_error_after_ts := kill_ts_ms } [] :=
  ⟨rfl, rfl, rfl, rfl, by simp, ⟨le_rfl, by simp⟩, .inl rfl⟩

/-- One turn of the loop. -/
theorem Tally.Describes.add {tally : Tally α} {samples : List (Sample α)} (h : tally.Describes kill_ts_ms samples)
    (s : Sample α) : (tally.add kill_ts_ms s).Describes kill_ts_ms (samples ++ [s]) := by
  obtain ⟨hrequests, hbefore, herrors, hafter, hany, ⟨hkill, hle⟩, hmem⟩ := h
  have hexists : (∃ x ∈ samples ++ [s], x.Hit kill_ts_ms) ↔ (∃ x ∈ samples, x.Hit kill_ts_ms) ∨ s.Hit kill_ts_ms := by
    simp only [List.mem_append, List.mem_singleton, or_and_right, exists_or, exists_eq_left]
  -- A sample that is no hit leaves the last three fields to those seen before.
  have hsame (hno : ¬ s.Hit kill_ts_ms) : (tally.any_error_after = true ↔ ∃ x ∈ samples ++ [s], x.Hit kill_ts_ms) ∧
      (kill_ts_ms ≤ tally.last_error_after_ts ∧
        ∀ x ∈ samples ++ [s], x.Hit kill_ts_ms → x.end_ms ≤ tally.last_error_after_ts) ∧
      (tally.last_error_after_ts = kill_ts_ms ∨
        ∃ x ∈ samples ++ [s], x.Hit kill_ts_ms ∧ x.end_ms = tally.last_error_after_ts) := by
    refine ⟨by rw [hexists, or_iff_left hno, hany], ⟨hkill, ?_⟩, hmem.imp_right ?_⟩
    · intro x hx hhit
      rcases List.mem_append.mp hx with hx | hx
      · exact hle x hx hhit
      · exact absurd (List.mem_singleton.mp hx ▸ hhit) hno
    · rintro ⟨x, hx, hhit, hlast⟩
      exact ⟨x, List.mem_append_left _ hx, hhit, hlast⟩
  rw [Tally.add]
  by_cases hearly : s.end_ms < kill_ts_ms
  · have hno : ¬ s.Hit kill_ts_ms := fun hhit => absurd hearly (not_lt.mpr hhit.2)
    obtain ⟨hany', hle', hmem'⟩ := hsame hno
    rw [if_pos hearly]
    refine ⟨?_, ?_, ?_, ?_, hany', hle', hmem'⟩
    · simp only [List.length_append, List.length_singleton]
      omega
    · simp [hbefore, hearly]
    · cases hok : s.ok <;> simp [herrors, hearly, hok]
    · simp [hafter, hno]
  · rw [if_neg hearly]
    cases hok : s.ok with
    | true =>
      have hno : ¬ s.Hit kill_ts_ms := fun hhit => by simp [hhit.1] at hok
      obtain ⟨hany', hle', hmem'⟩ := hsame hno
      refine ⟨?_, ?_, ?_, ?_, hany', hle', hmem'⟩
      · simp only [Bool.not_true, Bool.false_eq_true, ↓reduceIte, List.length_append, List.length_singleton]
        omega
      · simp [hbefore, hearly]
      · simp [herrors, hearly]
      · simp [hafter, hno]
    | false =>
      have hhit : s.Hit kill_ts_ms := ⟨hok, not_lt.mp hearly⟩
      simp only [Bool.not_false, ↓reduceIte]
      refine ⟨?_, ?_, ?_, ?_, ?_, ⟨hkill.trans (le_max_left _ _), ?_⟩, ?_⟩
      · simp only [List.length_append, List.length_singleton]
        omega
      · simp [hbefore, hearly]
      · simp [herrors, hearly]
      · simp [hafter, hhit]
      · simp only [hexists, hhit, or_true]
      · intro x hx hxhit
        rcases List.mem_append.mp hx with hx | hx
        · exact (hle x hx hxhit).trans (le_max_left _ _)
        · rw [List.mem_singleton.mp hx]
          exact le_max_right _ _
      · rcases le_total tally.last_error_after_ts s.end_ms with hlater | hearlier
        · exact .inr ⟨s, by simp, hhit, (max_eq_right hlater).symm⟩
        · rw [max_eq_left hearlier]
          refine hmem.imp_right ?_
          rintro ⟨x, hx, hxhit, hlast⟩
          exact ⟨x, List.mem_append_left _ hx, hxhit, hlast⟩

theorem Tally.describes_foldl (samples : List (Sample α)) :
    (samples.foldl (Tally.add kill_ts_ms) { last_error_after_ts := kill_ts_ms }).Describes kill_ts_ms samples := by
  induction samples using List.reverseRecOn with
  | nil => exact describes_nil
  | append_singleton samples s ih =>
    rw [List.foldl_append]
    exact ih.add s

/-- The order of the samples does not matter. -/
theorem Tally.Describes.perm {tally : Tally α} {samples others : List (Sample α)}
    (h : tally.Describes kill_ts_ms samples)
    (hperm : samples.Perm others) : tally.Describes kill_ts_ms others := by
  have hmem (s : Sample α) : s ∈ samples ↔ s ∈ others := hperm.mem_iff
  obtain ⟨hrequests, hbefore, herrors, hafter, hany, hle, hlast⟩ := h
  simp only [hmem] at hany hle hlast
  exact ⟨hrequests.trans hperm.length_eq, hbefore.trans (hperm.countP_eq _), herrors.trans (hperm.countP_eq _),
    hafter.trans (hperm.countP_eq _), hany, hle, hlast⟩

/-- The last failure is one of the failures. -/
theorem Tally.Describes.exists_last {tally : Tally α} {samples : List (Sample α)}
    (h : tally.Describes kill_ts_ms samples)
    (hany : tally.any_error_after = true) :
    ∃ s ∈ samples, s.Hit kill_ts_ms ∧ s.end_ms = tally.last_error_after_ts := by
  rcases h.last_mem with hkill | hlast
  · obtain ⟨s, hs, hhit⟩ := h.any_error.mp hany
    refine ⟨s, hs, hhit, le_antisymm (h.last_le.2 s hs hhit) ?_⟩
    rw [hkill]
    exact hhit.2
  · exact hlast

/-- What `kvfailover` reports. Whatever samples the threads have collected, every
    request is counted once, on the side of the kill on which its outcome became
    known. The recovery time is 0 if no request failed after the kill, and else the
    time from the kill to the last such failure; it is called bounded only if then
    no request failed in the tail of the run. -/
theorem summarize_sound [Zero α] [Sub α] (kill_ts_ms tail_ms : α) (thread_samples : List (List (Sample α))) :
    (summarize kill_ts_ms tail_ms thread_samples).tally.Describes kill_ts_ms thread_samples.flatten ∧
    (summarize kill_ts_ms tail_ms thread_samples).total_requests = thread_samples.flatten.length ∧
    ((∀ s ∈ thread_samples.flatten, ¬ s.Hit kill_ts_ms) →
      (summarize kill_ts_ms tail_ms thread_samples).recovery_ms = 0) ∧
    ((∃ s ∈ thread_samples.flatten, s.Hit kill_ts_ms) → ∃ last ∈ thread_samples.flatten, last.Hit kill_ts_ms ∧
      (∀ s ∈ thread_samples.flatten, s.Hit kill_ts_ms → s.end_ms ≤ last.end_ms) ∧
      (summarize kill_ts_ms tail_ms thread_samples).recovery_ms = last.end_ms - kill_ts_ms ∧
      ((summarize kill_ts_ms tail_ms thread_samples).recovery_bounded = true ↔
        ∀ s ∈ thread_samples.flatten, s.ok = false → s.end_ms < tail_ms)) := by
  have hperm :
      (thread_samples.flatten.mergeSort fun a b => decide (a.end_ms ≤ b.end_ms)).Perm thread_samples.flatten :=
    List.mergeSort_perm _ _
  have htally := (@Tally.describes_foldl α _ kill_ts_ms
    (thread_samples.flatten.mergeSort fun a b => decide (a.end_ms ≤ b.end_ms))).perm hperm
  refine ⟨htally, hperm.length_eq, ?_, ?_⟩
  · intro hnone
    have hany : ¬ (summarize kill_ts_ms tail_ms thread_samples).tally.any_error_after = true := by
      intro hany
      obtain ⟨s, hs, hhit⟩ := htally.any_error.mp hany
      exact hnone s hs hhit
    exact if_neg hany
  · intro hsome
    have hany : (summarize kill_ts_ms tail_ms thread_samples).tally.any_error_after = true :=
      htally.any_error.mpr hsome
    obtain ⟨last, hlast, hhit, hend⟩ := htally.exists_last hany
    refine ⟨last, hlast, hhit, ?_, ?_, ?_⟩
    · intro s hs hshit
      rw [hend]
      exact htally.last_le.2 s hs hshit
    · rw [hend]
      exact if_pos hany
    · have hbounded : (summarize kill_ts_ms tail_ms thread_samples).recovery_bounded =
          !(summarize kill_ts_ms tail_ms thread_samples).errors_at_tail := by
        change (!(summarize kill_ts_ms tail_ms thread_samples).tally.any_error_after || _) = _
        rw [hany]
        rfl
      have htail : (summarize kill_ts_ms tail_ms thread_samples).errors_at_tail = true ↔
          ∃ s ∈ thread_samples.flatten, tail_ms ≤ s.end_ms ∧ s.ok = false := by
        simp only [summarize, List.any_eq_true, hperm.mem_iff, Bool.and_eq_true, decide_eq_true_eq, Bool.not_eq_true']
      rw [hbounded, Bool.not_eq_true', ← Bool.not_eq_true, htail]
      constructor
      · intro hcalm s hs hfailed
        by_contra htoo
        exact hcalm ⟨s, hs, not_lt.mp htoo, hfailed⟩
      · rintro hcalm ⟨s, hs, hlate, hfailed⟩
        exact absurd (hcalm s hs hfailed) (not_lt.mpr hlate)

end

end kv.failover
