import Mathlib.Data.List.Basic
import Mathlib.Data.List.Infix

namespace Transition

universe u v w x y z

/-- A labelled transition system. A label is a choice of the scheduler or of
    the environment: it fixes the next state and the events the step shows, or
    is not possible in this state. -/
structure System (σ : Type u) (l : Type v) (ε : Type w) where
  init : σ
  step : σ → l → Option (σ × List ε)

variable {σ : Type u} {l : Type v} {ε : Type w} {S : System σ l ε} {P : l → Prop}

/-- Finite runs from a state over labels that satisfy `P`, with their trace. -/
inductive Run (S : System σ l ε) (P : l → Prop) (start : σ) : List ε → σ → Prop
  | nil : Run S P start [] start
  | snoc {trace events : List ε} {state next : σ} {label : l} (hrun : Run S P start trace state)
      (hlabel : P label) (hstep : S.step state label = some (next, events)) :
      Run S P start (trace ++ events) next

theorem Run.single {state next : σ} {label : l} {events : List ε} (hlabel : P label)
    (hstep : S.step state label = some (next, events)) : Run S P state events next := by
  simpa using Run.snoc .nil hlabel hstep

theorem Run.append {start middle final : σ} {first second : List ε} (hfirst : Run S P start first middle)
    (hsecond : Run S P middle second final) : Run S P start (first ++ second) final := by
  induction hsecond with
  | nil => simpa using hfirst
  | snoc _ hlabel hstep ih =>
    rw [← List.append_assoc]
    exact ih.snoc hlabel hstep

theorem Run.mono {Q : l → Prop} (hlabels : ∀ label, P label → Q label) {start final : σ} {trace : List ε}
    (hrun : Run S P start trace final) : Run S Q start trace final := by
  induction hrun with
  | nil => exact .nil
  | snoc _ hlabel hstep ih => exact ih.snoc (hlabels _ hlabel) hstep

/-- The invariant rule. The invariant may speak of the trace so far, and it may
    assume a condition on traces that every earlier trace of the run meets too. -/
theorem Run.invariant {C : List ε → Prop} {I : List ε → σ → Prop} {start : σ}
    (hclosed : ∀ trace events, C (trace ++ events) → C trace) (hstart : I [] start)
    (hkeep : ∀ trace state label next events, I trace state → P label → C (trace ++ events) →
      S.step state label = some (next, events) → I (trace ++ events) next)
    {trace : List ε} {final : σ} (hrun : Run S P start trace final) (htrace : C trace) : I trace final := by
  induction hrun with
  | nil => exact hstart
  | snoc _ hlabel hstep ih => exact hkeep _ _ _ _ _ (ih (hclosed _ _ htrace)) hlabel htrace hstep

/-- Where an event of an extended trace stands: it is the new one, or stood in
    the trace before. -/
theorem snoc_eq_append_cons {α : Type u} {trace before after : List α} {last event : α}
    (hsplit : trace ++ [last] = before ++ event :: after) :
    (after = [] ∧ trace = before ∧ last = event) ∨
      ∃ after', after = after' ++ [last] ∧ trace = before ++ event :: after' := by
  rcases List.eq_nil_or_concat after with rfl | ⟨after', last', rfl⟩
  · obtain ⟨htrace, hlast⟩ := List.append_inj' hsplit rfl
    exact .inl ⟨rfl, htrace, (List.cons.inj hlast).1⟩
  · rw [List.concat_eq_append, ← List.cons_append, ← List.append_assoc] at hsplit
    obtain ⟨htrace, hlast⟩ := List.append_inj' hsplit rfl
    rw [List.concat_eq_append, (List.cons.inj hlast).1]
    exact .inr ⟨after', rfl, htrace⟩

/-- Every event satisfies `Q`, which may speak of the events before it. -/
def Always (Q : List ε → ε → Prop) (trace : List ε) : Prop :=
  ∀ before event after, trace = before ++ event :: after → Q before event

theorem always_nil {Q : List ε → ε → Prop} : Always Q [] := by
  intro before event after hsplit
  simp at hsplit

theorem Always.of_append {Q : List ε → ε → Prop} {trace events : List ε} (hall : Always Q (trace ++ events)) :
    Always Q trace := by
  rintro before event after rfl
  exact hall before event (after ++ events) (by simp)

theorem Always.last {Q : List ε → ε → Prop} {trace : List ε} {event : ε} (hall : Always Q (trace ++ [event])) :
    Q trace event :=
  hall trace event [] rfl

theorem Always.snoc {Q : List ε → ε → Prop} {trace : List ε} {event : ε} (hall : Always Q trace)
    (hlast : Q trace event) : Always Q (trace ++ [event]) := by
  intro before event' after hsplit
  rcases snoc_eq_append_cons hsplit with ⟨-, rfl, rfl⟩ | ⟨after', -, htrace⟩
  · exact hlast
  · exact hall before event' after' htrace

theorem Always.append {Q : List ε → ε → Prop} {trace events : List ε} (hall : Always Q trace)
    (hevents : ∀ before, ∀ event ∈ events, Q before event) : Always Q (trace ++ events) := by
  induction events generalizing trace with
  | nil => simpa using hall
  | cons event events ih =>
    rw [← List.singleton_append, ← List.append_assoc]
    apply ih (hall.snoc (hevents trace event List.mem_cons_self))
    intro before event' hmem
    exact hevents before event' (List.mem_cons_of_mem _ hmem)

theorem always_iff_getElem {Q : List ε → ε → Prop} {events : List ε} :
    Always Q events ↔ ∀ i, (hi : i < events.length) → Q (events.take i) events[i] := by
  constructor
  · intro hall i hi
    apply hall _ _ (events.drop (i + 1))
    rw [← List.drop_eq_getElem_cons hi, List.take_append_drop]
  · rintro hall before event after rfl
    have hlast := hall before.length (by simp)
    simpa using hlast

instance {Q : List ε → ε → Prop} [∀ before event, Decidable (Q before event)] (events : List ε) :
    Decidable (Always Q events) :=
  decidable_of_iff _ always_iff_getElem.symm

section Simulation

variable {α : Type x} {l' : Type y} {ε' : Type z} {A : System α l' ε'} {Q : l' → Prop}

/-- The simulation rule. If every step is matched by a run of the abstract
    system that shows the same observable events, every run is. -/
theorem Run.simulate {R : σ → α → Prop} {observe : ε → Option ε'}
    (hmatch : ∀ state a label next events, R state a → P label → S.step state label = some (next, events) →
      ∃ a', Run A Q a (events.filterMap observe) a' ∧ R next a')
    {start final : σ} {a : α} {trace : List ε} (hstart : R start a) (hrun : Run S P start trace final) :
    ∃ a', Run A Q a (trace.filterMap observe) a' ∧ R final a' := by
  induction hrun with
  | nil => exact ⟨a, .nil, hstart⟩
  | snoc _ hlabel hstep ih =>
    obtain ⟨middle, hrun, hrel⟩ := ih
    obtain ⟨a', hmore, hrel'⟩ := hmatch _ _ _ _ _ hrel hlabel hstep
    refine ⟨a', ?_, hrel'⟩
    rw [List.filterMap_append]
    exact hrun.append hmore

end Simulation

/-- A step that was taken, with the states around it. -/
structure Step (σ : Type u) (l : Type v) (ε : Type w) where
  before : σ
  label : l
  events : List ε
  after : σ

/-- The same system, whose traces record every step as a whole. -/
def System.logged (S : System σ l ε) : System σ l (Step σ l ε) where
  init := S.init
  step state label :=
    match S.step state label with
    | none => none
    | some (next, events) => some (next, [⟨state, label, events, next⟩])

theorem System.logged_step {S : System σ l ε} {state next : σ} {label : l} {steps : List (Step σ l ε)}
    (hstep : S.logged.step state label = some (next, steps)) :
    ∃ events, S.step state label = some (next, events) ∧ steps = [⟨state, label, events, next⟩] := by
  cases htaken : S.step state label with
  | none => simp [System.logged, htaken] at hstep
  | some taken =>
    obtain ⟨next', events⟩ := taken
    simp only [System.logged, htaken, Option.some.injEq, Prod.mk.injEq] at hstep
    obtain ⟨rfl, rfl⟩ := hstep
    exact ⟨events, rfl, rfl⟩

/-- A recorded step was taken where the run up to it ended. -/
theorem Run.logged_at {start final : σ} {before after : List (Step σ l ε)} {taken : Step σ l ε}
    (hrun : Run S.logged P start (before ++ taken :: after) final) :
    Run S.logged P start before taken.before ∧ S.step taken.before taken.label = some (taken.after, taken.events) := by
  generalize hlog : before ++ taken :: after = log at hrun
  induction hrun generalizing after with
  | nil => simp at hlog
  | snoc hrun _ hstep ih =>
    obtain ⟨events, htaken, rfl⟩ := System.logged_step hstep
    rcases snoc_eq_append_cons hlog.symm with ⟨rfl, rfl, rfl⟩ | ⟨after', rfl, hold⟩
    · exact ⟨hrun, htaken⟩
    · exact ih hold.symm

/-- A recorded run is a run that shows the events of its steps. -/
theorem Run.of_logged {start final : σ} {log : List (Step σ l ε)} (hrun : Run S.logged P start log final) :
    Run S P start (log.flatMap Step.events) final := by
  induction hrun with
  | nil => exact .nil
  | snoc _ hlabel hstep ih =>
    obtain ⟨events, htaken, rfl⟩ := System.logged_step hstep
    rw [List.flatMap_append, List.flatMap_singleton]
    exact ih.snoc hlabel htaken

/-- The invariant rule for recorded runs whose steps all meet a condition. -/
theorem Run.logged_invariant {G : Step σ l ε → Prop} {I : List (Step σ l ε) → σ → Prop} {start : σ}
    (hstart : I [] start)
    (hkeep : ∀ log state label next events, I log state → P label → G ⟨state, label, events, next⟩ →
      S.step state label = some (next, events) → I (log ++ [⟨state, label, events, next⟩]) next)
    {log : List (Step σ l ε)} {final : σ} (hrun : Run S.logged P start log final) (hlog : ∀ step ∈ log, G step) :
    I log final := by
  refine hrun.invariant (C := fun log => ∀ step ∈ log, G step) (I := I) ?_ hstart ?_ hlog
  · intro log more hall step hmem
    exact hall step (List.mem_append_left _ hmem)
  · intro log state label next steps hI hlabel hall hstep
    obtain ⟨events, htaken, rfl⟩ := System.logged_step hstep
    exact hkeep log state label next events hI hlabel (hall _ (by simp)) htaken

/-- Running a list of labels. -/
def System.exec (S : System σ l ε) (state : σ) : List l → Option (List ε × σ)
  | [] => some ([], state)
  | label :: labels =>
    match S.step state label with
    | none => none
    | some (next, events) =>
      match S.exec next labels with
      | none => none
      | some (trace, final) => some (events ++ trace, final)

theorem System.exec_append {first second : List l} {start middle final : σ} {trace later : List ε}
    (hfirst : S.exec start first = some (trace, middle)) (hsecond : S.exec middle second = some (later, final)) :
    S.exec start (first ++ second) = some (trace ++ later, final) := by
  induction first generalizing start trace with
  | nil =>
    simp only [System.exec, Option.some.injEq, Prod.mk.injEq] at hfirst
    obtain ⟨rfl, rfl⟩ := hfirst
    exact hsecond
  | cons label labels ih =>
    rw [System.exec] at hfirst
    cases hstep : S.step start label with
    | none => simp [hstep] at hfirst
    | some moved =>
      cases hrest : S.exec moved.1 labels with
      | none => simp [hstep, hrest] at hfirst
      | some rest =>
        simp only [hstep, hrest, Option.some.injEq, Prod.mk.injEq] at hfirst
        obtain ⟨rfl, rfl⟩ := hfirst
        rw [List.cons_append, System.exec, hstep]
        simp [ih hrest, List.append_assoc]

theorem Run.of_exec {labels : List l} {start final : σ} {trace : List ε} (hlabels : ∀ label ∈ labels, P label)
    (hexec : S.exec start labels = some (trace, final)) : Run S P start trace final := by
  induction labels generalizing start trace with
  | nil =>
    simp only [System.exec, Option.some.injEq, Prod.mk.injEq] at hexec
    obtain ⟨rfl, rfl⟩ := hexec
    exact .nil
  | cons label labels ih =>
    rw [System.exec] at hexec
    cases hstep : S.step start label with
    | none => simp [hstep] at hexec
    | some moved =>
      obtain ⟨next, events⟩ := moved
      cases hrest : S.exec next labels with
      | none => simp [hstep, hrest] at hexec
      | some rest =>
        obtain ⟨later, final'⟩ := rest
        simp only [hstep, hrest, Option.some.injEq, Prod.mk.injEq] at hexec
        obtain ⟨rfl, rfl⟩ := hexec
        have hfirst : Run S P start events next := .single (hlabels label (by simp)) hstep
        exact hfirst.append (ih (fun label' hmem => hlabels label' (by simp [hmem])) hrest)

theorem Run.exists_of_exec (labels : List l) {start : σ} {trace : List ε} (hlabels : ∀ label ∈ labels, P label)
    (hexec : (S.exec start labels).map Prod.fst = some trace) : ∃ final, Run S P start trace final := by
  obtain ⟨⟨trace', final⟩, hexec', rfl⟩ := Option.map_eq_some_iff.mp hexec
  exact ⟨final, .of_exec hlabels hexec'⟩

/-- A run found by execution, with a property that can be computed. -/
theorem Run.exists_checked_of_exec (labels : List l) (check : List ε → σ → Bool) {start : σ}
    (hlabels : ∀ label ∈ labels, P label)
    (hexec : (S.exec start labels).any (fun found => check found.1 found.2) = true) :
    ∃ trace final, Run S P start trace final ∧ check trace final := by
  obtain ⟨⟨trace, final⟩, hfound, hcheck⟩ := (Option.any_eq_true _ _).mp hexec
  exact ⟨trace, final, .of_exec hlabels hfound, hcheck⟩

/-- The same, cut after its first `n` events. -/
theorem Run.exists_split_of_exec (labels : List l) (n : Nat) (check : List ε → ε → List ε → σ → Bool) {start : σ}
    (hlabels : ∀ label ∈ labels, P label)
    (hexec : (S.exec start labels).any (fun found =>
      match found.1.drop n with
      | [] => false
      | event :: after => check (found.1.take n) event after found.2) = true) :
    ∃ before event after final, Run S P start (before ++ event :: after) final ∧ check before event after final := by
  cases hfound : S.exec start labels with
  | none => simp [hfound] at hexec
  | some found =>
    rw [hfound, Option.any_some] at hexec
    have hrun : Run S P start found.1 found.2 := .of_exec hlabels hfound
    cases hdrop : found.1.drop n with
    | nil => simp [hdrop] at hexec
    | cons event after =>
      rw [hdrop] at hexec
      refine ⟨found.1.take n, event, after, found.2, ?_, hexec⟩
      rwa [← hdrop, List.take_append_drop]

/-- The same, with the last event of the run set apart. -/
theorem Run.exists_interval_of_exec (labels : List l) (n : Nat) (check : List ε → ε → List ε → ε → σ → Bool)
    {start : σ} (hlabels : ∀ label ∈ labels, P label)
    (hexec : (S.exec start labels).any (fun found =>
      match found.1.drop n with
      | [] => false
      | first :: rest =>
        match rest.getLast? with
        | none => false
        | some last => check (found.1.take n) first rest.dropLast last found.2) = true) :
    ∃ before first during last final, Run S P start (before ++ first :: during ++ [last]) final ∧
      check before first during last final := by
  obtain ⟨before, first, rest, final, hrun, hcheck⟩ := Run.exists_split_of_exec labels n
    (fun before first rest final =>
      match rest.getLast? with
      | none => false
      | some last => check before first rest.dropLast last final) hlabels hexec
  cases hlast : rest.getLast? with
  | none => simp [hlast] at hcheck
  | some last =>
    rw [hlast] at hcheck
    refine ⟨before, first, rest.dropLast, last, final, ?_, hcheck⟩
    obtain ⟨during, rfl⟩ := List.getLast?_eq_some_iff.mp hlast
    simpa using hrun

/-- A run found by execution, and a recorded run from where it ends. -/
theorem Run.exists_phases_of_exec {Q : l → Prop} (first second : List l)
    (check : σ → List (Step σ l ε) → σ → Bool) {start : σ} (hfirst : ∀ label ∈ first, P label)
    (hsecond : ∀ label ∈ second, Q label)
    (hexec : (S.exec start first).any (fun found =>
      (S.logged.exec found.2 second).any fun found' => check found.2 found'.1 found'.2) = true) :
    ∃ trace middle log final, Run S P start trace middle ∧ Run S.logged Q middle log final ∧
      check middle log final := by
  rw [Option.any_eq_true] at hexec
  obtain ⟨⟨trace, middle⟩, hfound, hexec⟩ := hexec
  rw [Option.any_eq_true] at hexec
  obtain ⟨⟨log, final⟩, hfound', hcheck⟩ := hexec
  exact ⟨trace, middle, log, final, .of_exec hfirst hfound, .of_exec hsecond hfound', hcheck⟩

end Transition
