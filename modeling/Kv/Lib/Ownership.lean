import Mathlib.Data.List.Basic
import Mathlib.Logic.Function.Basic

namespace Ownership

variable {ν τ : Type}

/-- Who holds which tokens: a place holds at most one, any number of them are on
    nobody's account yet, and `live` says which are in use. -/
@[ext] structure Ledger (ν τ : Type) where
  place : ν → Option τ
  loose : List τ
  live : τ → Bool

namespace Ledger

/-- A token that was not in use comes into use. -/
def acquire [DecidableEq τ] (self : Ledger ν τ) (t : τ) : Ledger ν τ :=
  { self with loose := t :: self.loose, live := Function.update self.live t true }

/-- An empty place takes over a loose token. -/
def put [DecidableEq ν] [DecidableEq τ] (self : Ledger ν τ) (x : ν) (t : τ) : Ledger ν τ :=
  { self with place := Function.update self.place x (some t), loose := self.loose.erase t }

/-- A place gives away what it holds. -/
def take [DecidableEq ν] (self : Ledger ν τ) (x : ν) : Ledger ν τ :=
  { self with
    place := Function.update self.place x none
    loose := (self.place x).toList ++ self.loose }

/-- A loose token goes out of use. -/
def discard [DecidableEq τ] (self : Ledger ν τ) (t : τ) : Ledger ν τ :=
  { self with loose := self.loose.erase t, live := Function.update self.live t false }

/-- Every token in use is held once, and no other token is held. -/
structure Exclusive (ledger : Ledger ν τ) : Prop where
  nodup : ledger.loose.Nodup
  inj : ∀ x y t, ledger.place x = some t → ledger.place y = some t → x = y
  apart : ∀ x t, ledger.place x = some t → t ∉ ledger.loose
  live_iff : ∀ t, ledger.live t = true ↔ t ∈ ledger.loose ∨ ∃ x, ledger.place x = some t

variable {self : Ledger ν τ}

theorem Exclusive.not_held (h : self.Exclusive) {t : τ} (hlive : self.live t = false) :
    t ∉ self.loose ∧ ∀ x, self.place x ≠ some t := by
  have hnot := (h.live_iff t).not.mp (by simp [hlive])
  exact ⟨fun hmem => hnot (.inl hmem), fun x hx => hnot (.inr ⟨x, hx⟩)⟩

theorem Exclusive.acquire [DecidableEq τ] (h : self.Exclusive) {t : τ} (hfresh : self.live t = false) :
    (self.acquire t).Exclusive where
  nodup := List.nodup_cons.mpr ⟨(h.not_held hfresh).1, h.nodup⟩
  inj := h.inj
  apart x t' hx := by
    have hne : t' ≠ t := fun heq => (h.not_held hfresh).2 x (heq ▸ hx)
    simpa [Ledger.acquire, hne] using h.apart x t' hx
  live_iff t' := by
    by_cases heq : t' = t
    · simp [Ledger.acquire, heq]
    · simpa [Ledger.acquire, heq] using h.live_iff t'

theorem Exclusive.put [DecidableEq ν] [DecidableEq τ] (h : self.Exclusive) {x : ν} {t : τ}
    (hempty : self.place x = none) (hloose : t ∈ self.loose) : (self.put x t).Exclusive where
  nodup := h.nodup.erase t
  inj y z t' hy hz := by
    have helsewhere (w : ν) (hw : w ≠ x) (hplace : self.place w = some t') : t' ≠ t := by
      rintro rfl
      exact h.apart w t' hplace hloose
    by_cases hyx : y = x <;> by_cases hzx : z = x
    · rw [hyx, hzx]
    · simp only [Ledger.put, hyx, Function.update_self, Option.some.injEq, Function.update_of_ne hzx] at hy hz
      exact absurd hy.symm (helsewhere z hzx hz)
    · simp only [Ledger.put, hzx, Function.update_self, Option.some.injEq, Function.update_of_ne hyx] at hy hz
      exact absurd hz.symm (helsewhere y hyx hy)
    · simp only [Ledger.put, Function.update_of_ne hyx, Function.update_of_ne hzx] at hy hz
      exact h.inj y z t' hy hz
  apart y t' hy := by
    by_cases hyx : y = x
    · simp only [Ledger.put, hyx, Function.update_self, Option.some.injEq] at hy
      rw [← hy]
      exact h.nodup.not_mem_erase
    · simp only [Ledger.put, Function.update_of_ne hyx] at hy
      exact fun hmem => h.apart y t' hy (List.mem_of_mem_erase hmem)
  live_iff t' := by
    simp only [Ledger.put, h.live_iff t']
    constructor
    · rintro (hmem | ⟨y, hy⟩)
      · by_cases heq : t' = t
        · exact .inr ⟨x, by simp [heq]⟩
        · exact .inl ((List.mem_erase_of_ne heq).mpr hmem)
      · have hyx : y ≠ x := by
          rintro rfl
          simp [hempty] at hy
        exact .inr ⟨y, by rwa [Function.update_of_ne hyx]⟩
    · rintro (hmem | ⟨y, hy⟩)
      · exact .inl (List.mem_of_mem_erase hmem)
      · by_cases hyx : y = x
        · simp only [hyx, Function.update_self, Option.some.injEq] at hy
          exact .inl (hy ▸ hloose)
        · exact .inr ⟨y, by rwa [Function.update_of_ne hyx] at hy⟩

theorem take_of_none [DecidableEq ν] {x : ν} (hempty : self.place x = none) : self.take x = self := by
  have hplace : Function.update self.place x none = self.place := by rw [← hempty, Function.update_eq_self]
  simp [Ledger.take, hempty, hplace]

theorem take_of_some [DecidableEq ν] {x : ν} {t : τ} (hx : self.place x = some t) :
    self.take x = { self with place := Function.update self.place x none, loose := t :: self.loose } := by
  simp [Ledger.take, hx]

theorem Exclusive.take [DecidableEq ν] (h : self.Exclusive) (x : ν) : (self.take x).Exclusive := by
  cases hx : self.place x with
  | none => rwa [take_of_none hx]
  | some t =>
    have hother {y : ν} {t' : τ} (hy : Function.update self.place x none y = some t') :
        y ≠ x ∧ self.place y = some t' := by
      by_cases hyx : y = x
      · simp [hyx] at hy
      · exact ⟨hyx, by rwa [Function.update_of_ne hyx] at hy⟩
    rw [take_of_some hx]
    refine ⟨List.nodup_cons.mpr ⟨h.apart x t hx, h.nodup⟩, ?_, ?_, ?_⟩
    · intro y z t' hy hz
      exact h.inj y z t' (hother hy).2 (hother hz).2
    · intro y t' hy
      have hne : t' ≠ t := by
        rintro rfl
        exact (hother hy).1 (h.inj y x t' (hother hy).2 hx)
      simpa [hne] using h.apart y t' (hother hy).2
    · intro t'
      simp only [h.live_iff t', List.mem_cons]
      constructor
      · rintro (hmem | ⟨y, hy⟩)
        · exact .inl (.inr hmem)
        · by_cases hyx : y = x
          · rw [hyx, hx, Option.some.injEq] at hy
            exact .inl (.inl hy.symm)
          · exact .inr ⟨y, by rwa [Function.update_of_ne hyx]⟩
      · rintro ((rfl | hmem) | ⟨y, hy⟩)
        · exact .inr ⟨x, hx⟩
        · exact .inl hmem
        · exact .inr ⟨y, (hother hy).2⟩

theorem Exclusive.discard [DecidableEq τ] (h : self.Exclusive) {t : τ} (hloose : t ∈ self.loose) :
    (self.discard t).Exclusive where
  nodup := h.nodup.erase t
  inj := h.inj
  apart x t' hx hmem := h.apart x t' hx (List.mem_of_mem_erase hmem)
  live_iff t' := by
    by_cases heq : t' = t
    · have hnowhere : ∀ x, self.place x ≠ some t := fun x hx => h.apart x t hx hloose
      simp [Ledger.discard, heq, h.nodup.not_mem_erase, hnowhere]
    · simpa [Ledger.discard, heq, List.mem_erase_of_ne heq] using h.live_iff t'

/-- A place gives away what it holds, and that goes out of use. -/
def drop [DecidableEq ν] [DecidableEq τ] (self : Ledger ν τ) (x : ν) : Ledger ν τ :=
  { self with
    place := Function.update self.place x none
    live := match self.place x with
      | none => self.live
      | some t => Function.update self.live t false }

/-- What one place holds goes over to another. -/
def move [DecidableEq ν] (self : Ledger ν τ) (x y : ν) : Ledger ν τ :=
  { self with place := Function.update (Function.update self.place y none) x (self.place y) }

theorem Exclusive.drop [DecidableEq ν] [DecidableEq τ] (h : self.Exclusive) (x : ν) : (self.drop x).Exclusive := by
  cases hx : self.place x with
  | none =>
    have hsame : self.drop x = self := by
      have hplace : Function.update self.place x none = self.place := by rw [← hx, Function.update_eq_self]
      simp [Ledger.drop, hx, hplace]
    rwa [hsame]
  | some t =>
    have hsteps : self.drop x = (self.take x).discard t := by simp [Ledger.drop, Ledger.discard, take_of_some hx, hx]
    rw [hsteps]
    exact (h.take x).discard (by simp [take_of_some hx])

theorem Exclusive.move [DecidableEq ν] [DecidableEq τ] (h : self.Exclusive) {x : ν} (hempty : self.place x = none)
    (y : ν) : (self.move x y).Exclusive := by
  cases hy : self.place y with
  | none =>
    have hsame : self.move x y = self := by
      have hplace : Function.update (Function.update self.place y none) x none = self.place := by
        rw [← hy, Function.update_eq_self, hy, ← hempty, Function.update_eq_self]
      simp [Ledger.move, hy, hplace]
    rwa [hsame]
  | some t =>
    have hsteps : self.move x y = (self.take y).put x t := by simp [Ledger.move, Ledger.put, take_of_some hy, hy]
    have hne : x ≠ y := by
      rintro rfl
      simp [hempty] at hy
    rw [hsteps]
    refine (h.take y).put ?_ (by simp [take_of_some hy])
    simp [take_of_some hy, Function.update_of_ne hne, hempty]

theorem Exclusive.live_of_loose (h : self.Exclusive) {t : τ} (hloose : t ∈ self.loose) : self.live t = true :=
  (h.live_iff t).mpr (.inl hloose)

theorem Exclusive.live_of_place (h : self.Exclusive) {x : ν} {t : τ} (hx : self.place x = some t) :
    self.live t = true :=
  (h.live_iff t).mpr (.inr ⟨x, hx⟩)

end Ledger

end Ownership
