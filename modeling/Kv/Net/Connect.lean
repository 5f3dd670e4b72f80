import Kv.Net.Socket

open Ownership Transition

namespace kv.net

/-- What `socket` and `connect` make of one address. -/
inductive Attempt
  | no_socket (errno : Nat)
  | refused (fd : Int) (errno : Nat)
  | connected (fd : Int)
  deriving DecidableEq

def Attempt.connects : Attempt → Option Int
  | .connected fd => some fd
  | _ => none

/-- The `errno` of an attempt that fails. -/
def Attempt.errno : Attempt → Nat
  | .no_socket errno => errno
  | .refused _ errno => errno
  | .connected _ => 0

variable {ν : Type}

/-- The loop over the addresses: `fd` and `last_errno` after it, and its calls. -/
def connect_loop : List Attempt → Nat → Int × Nat × List (Label ν)
  | [], last_errno => (-1, last_errno, [])
  | .no_socket errno :: attempts, _ => connect_loop attempts errno
  | .refused fd errno :: attempts, _ =>
    let (found, last_errno, calls) := connect_loop attempts errno
    (found, last_errno, .opens fd :: .close fd :: calls)
  | .connected fd :: _, last_errno => (fd, last_errno, [.opens fd])

/-- The message of `throw_errno` in `connect_to`. -/
def connect_error (strerror : Nat → Bytes) (host : Bytes) (port : UInt16) (errno : Nat) : Bytes :=
  ascii "connect to " ++ host ++ ascii ":" ++ to_string port.toNat ++ ascii ": " ++ strerror errno

/-- `connect_to`, with what `getaddrinfo` makes of the host; the object it returns
    is the one in `x`. -/
def connect_to (strerror : Nat → Bytes) (x : ν) (host : Bytes) (port : UInt16)
    (resolved : Except Bytes (List Attempt)) : Except Bytes Socket × List (Label ν) :=
  match resolved with
  | .error message => (.error (ascii "getaddrinfo(" ++ host ++ ascii "): " ++ message), [])
  | .ok attempts =>
    let (fd, last_errno, calls) := connect_loop attempts 0
    if fd < 0 then
      (.error (connect_error strerror host port last_errno), calls)
    else (.ok ⟨fd⟩, calls ++ [.construct x fd])

theorem connect_loop_fd (attempts : List Attempt) (last_errno : Nat) :
    (connect_loop attempts last_errno : Int × Nat × List (Label ν)).1 =
      (attempts.findSome? Attempt.connects).getD (-1) := by
  induction attempts generalizing last_errno with
  | nil => rfl
  | cons attempt attempts ih =>
    cases attempt with
    | no_socket errno => exact ih errno
    | refused fd errno => exact ih errno
    | connected fd => rfl

theorem connect_loop_errno {attempts : List Attempt} (hnone : attempts.findSome? Attempt.connects = none)
    (last_errno : Nat) : (connect_loop attempts last_errno : Int × Nat × List (Label ν)).2.1 =
      (attempts.getLast?.map Attempt.errno).getD last_errno := by
  induction attempts generalizing last_errno with
  | nil => rfl
  | cons attempt attempts ih =>
    have hlast (errno : Nat) (herrno : attempt.errno = errno) :
        ((attempt :: attempts).getLast?.map Attempt.errno).getD last_errno =
          (attempts.getLast?.map Attempt.errno).getD errno := by
      cases attempts with
      | nil => simp [herrno]
      | cons next rest => simp [List.getLast?_cons_cons, List.getLast?_eq_some_getLast (List.cons_ne_nil next rest)]
    cases attempt with
    | no_socket errno => exact (ih hnone errno).trans (hlast errno rfl).symm
    | refused fd errno => exact (ih hnone errno).trans (hlast errno rfl).symm
    | connected fd => simp [Attempt.connects] at hnone

variable [DecidableEq ν]

/-- The kernel never hands out a descriptor that is open. -/
def Legal : State ν → List (Label ν) → Prop
  | _, [] => True
  | s, label :: labels =>
    (∀ fd, label = .opens fd → 0 ≤ fd ∧ s.isOpen fd = false) ∧
      ∀ s' events, s.step label = some (s', events) → Legal s' labels

/-- These operations can all be carried out, one after the other, and lead to a
    state with `P`. -/
def Leads (s : State ν) (labels : List (Label ν)) (P : State ν → Prop) : Prop :=
  Legal s labels → ∃ trace s', (system ν).exec s labels = some (trace, s') ∧ P s'

section

variable {s s' : State ν} {label : Label ν} {labels more : List (Label ν)} {events : List Event} {P Q : State ν → Prop}

theorem Legal.append (hlegal : Legal s (labels ++ more)) :
    Legal s labels ∧ ∀ trace s', (system ν).exec s labels = some (trace, s') → Legal s' more := by
  induction labels generalizing s with
  | nil =>
    refine ⟨trivial, ?_⟩
    intro trace s' hexec
    simp only [System.exec, Option.some.injEq, Prod.mk.injEq] at hexec
    exact hexec.2 ▸ hlegal
  | cons label labels ih =>
    refine ⟨⟨hlegal.1, fun s' events hstep => (ih (hlegal.2 s' events hstep)).1⟩, ?_⟩
    intro trace s' hexec
    rw [System.exec] at hexec
    cases hstep : (system ν).step s label with
    | none => simp [hstep] at hexec
    | some moved =>
      cases hrest : (system ν).exec moved.1 labels with
      | none => simp [hstep, hrest] at hexec
      | some rest =>
        simp only [hstep, hrest, Option.some.injEq, Prod.mk.injEq] at hexec
        exact hexec.2 ▸ (ih (hlegal.2 moved.1 moved.2 hstep)).2 rest.1 rest.2 hrest

theorem Legal.of_exec (hexec : ((system ν).exec s labels).isSome) : Legal s labels := by
  induction labels generalizing s with
  | nil => trivial
  | cons label labels ih =>
    rw [System.exec] at hexec
    cases hstep : (system ν).step s label with
    | none => simp [hstep] at hexec
    | some moved =>
      refine ⟨?_, ?_⟩
      · rintro fd rfl
        by_contra hfresh
        have hstuck : (system ν).step s (.opens fd) = none := by simp only [system, State.step, hfresh, if_false]
        simp [hstuck] at hstep
      · intro s' events hstep'
        obtain rfl := Option.some.inj (hstep.symm.trans hstep')
        cases hrest : (system ν).exec s' labels with
        | none => simp [hstep, hrest] at hexec
        | some rest => exact ih (by simp [hrest])

theorem Leads.nil (hdone : P s) : Leads s [] P :=
  fun _ => ⟨[], s, rfl, hdone⟩

theorem Leads.append (hfirst : Leads s labels P) (hsecond : ∀ s', P s' → Leads s' more Q) :
    Leads s (labels ++ more) Q := by
  intro hlegal
  obtain ⟨hlabels, hmore⟩ := hlegal.append
  obtain ⟨trace, middle, hexec, hmiddle⟩ := hfirst hlabels
  obtain ⟨later, final, hexec', hfinal⟩ := hsecond middle hmiddle (hmore trace middle hexec)
  exact ⟨trace ++ later, final, System.exec_append hexec hexec', hfinal⟩

/-- An operation of the program itself. -/
theorem Leads.step (hstep : s.step label = some (s', events)) (hdone : P s') : Leads s [label] P :=
  fun _ => ⟨events, s', by simp [System.exec, system, hstep], hdone⟩

theorem Leads.opens {fd : Int}
    (hdone : 0 ≤ fd → s.isOpen fd = false →
      P { s with plain := fd :: s.plain, isOpen := Function.update s.isOpen fd true }) :
    Leads s [.opens fd] P := by
  intro hlegal
  have hfresh := hlegal.1 fd rfl
  have hstep : s.step (.opens fd) =
      some ({ s with plain := fd :: s.plain, isOpen := Function.update s.isOpen fd true }, [.opened fd]) := by
    simp [State.step, hfresh]
  exact Leads.step hstep (hdone hfresh.1 hfresh.2) hlegal

/-- A descriptor that is opened and closed again. -/
theorem Leads.refused (s : State ν) (fd : Int) : Leads s [.opens fd, .close fd] (· = s) := by
  have hopened : Leads s [.opens fd] fun s' =>
      s.isOpen fd = false ∧ s' = { s with plain := fd :: s.plain, isOpen := Function.update s.isOpen fd true } :=
    .opens fun _ hfresh => ⟨hfresh, rfl⟩
  refine hopened.append ?_
  rintro s' ⟨hfresh, rfl⟩
  have hback : Function.update (Function.update s.isOpen fd true) fd false = s.isOpen := by
    rw [Function.update_idem, ← hfresh, Function.update_eq_self]
  have hstep : State.step { s with plain := fd :: s.plain, isOpen := Function.update s.isOpen fd true } (.close fd) =
      some (s, [.closed fd true]) := by simp [State.step, State.close, hback]
  exact .step hstep rfl

/-- The loop leaves one descriptor more if some address connects, and nothing
    otherwise. -/
theorem leads_connect_loop (s : State ν) (attempts : List Attempt) (last_errno : Nat) :
    Leads s (connect_loop attempts last_errno).2.2 fun s' =>
      (∀ fd, attempts.findSome? Attempt.connects = some fd → 0 ≤ fd ∧
        s' = { s with plain := fd :: s.plain, isOpen := Function.update s.isOpen fd true }) ∧
      (attempts.findSome? Attempt.connects = none → s' = s) := by
  induction attempts generalizing last_errno with
  | nil => exact .nil ⟨by simp, fun _ => rfl⟩
  | cons attempt attempts ih =>
    cases attempt with
    | no_socket errno => exact ih errno
    | refused fd errno =>
      refine (Leads.refused s fd).append ?_
      rintro s' rfl
      exact ih errno
    | connected fd =>
      refine .opens fun hvalid _ => ⟨?_, by simp [Attempt.connects]⟩
      intro fd' hfound
      obtain rfl : fd = fd' := Option.some.inj hfound
      exact ⟨hvalid, rfl⟩

end

/-- `connect_to` gives a connection to the first address that connects, and throws
    the error of the last one if none does. Either way it has closed every other
    descriptor that it opened. -/
theorem leads_connect_to (strerror : Nat → Bytes) {s : State ν} {x : ν} (hx : s.sockets x = none) (host : Bytes)
    (port : UInt16) (attempts : List Attempt) :
    Leads s (connect_to strerror x host port (.ok attempts)).2 fun s' =>
      (∃ fd, attempts.findSome? Attempt.connects = some fd ∧
        (connect_to strerror x host port (.ok attempts)).1 = .ok ⟨fd⟩ ∧
        s' = { s.set x (some ⟨fd⟩) with isOpen := Function.update s.isOpen fd true }) ∨
      (attempts.findSome? Attempt.connects = none ∧
        (connect_to strerror x host port (.ok attempts)).1 =
          .error (connect_error strerror host port ((attempts.getLast?.map Attempt.errno).getD 0)) ∧
        s' = s) := by
  have hloop := leads_connect_loop s attempts 0
  have hfd := @connect_loop_fd ν attempts 0
  cases hfound : attempts.findSome? Attempt.connects with
  | none =>
    have hcall : connect_to strerror x host port (.ok attempts) =
        (.error (connect_error strerror host port ((attempts.getLast?.map Attempt.errno).getD 0)),
          (connect_loop attempts 0).2.2) := by
      rw [hfound, Option.getD_none] at hfd
      rw [← @connect_loop_errno ν _ hfound 0]
      simp [connect_to, hfd]
    rw [hcall]
    intro hlegal
    obtain ⟨trace, s', hexec, _, hnone⟩ := hloop hlegal
    exact ⟨trace, s', hexec, .inr ⟨rfl, rfl, hnone hfound⟩⟩
  | some fd =>
    rw [hfound, Option.getD_some] at hfd
    have hconstruct (hvalid : ¬ fd < 0) :
        State.step { s with plain := fd :: s.plain, isOpen := Function.update s.isOpen fd true } (.construct x fd) =
          some ({ s.set x (some ⟨fd⟩) with isOpen := Function.update s.isOpen fd true }, []) := by
      simp [State.step, State.set, hx, hvalid]
    by_cases hneg : fd < 0
    · -- The kernel hands out no negative descriptor.
      have hcall : (connect_to strerror x host port (.ok attempts)).2 = (connect_loop attempts 0).2.2 := by
        simp [connect_to, hfd, hneg]
      rw [hcall]
      intro hlegal
      obtain ⟨_, _, _, hsome, _⟩ := hloop hlegal
      exact absurd (hsome fd hfound).1 (Int.not_le.mpr hneg)
    · have hcall : connect_to strerror x host port (.ok attempts) =
          (.ok ⟨fd⟩, (connect_loop attempts 0).2.2 ++ [.construct x fd]) := by
        simp [connect_to, hfd, hneg]
      rw [hcall]
      refine hloop.append ?_
      rintro s' ⟨hsome, _⟩
      obtain ⟨_, rfl⟩ := hsome fd hfound
      exact .step (hconstruct hneg) (.inl ⟨fd, rfl, rfl, rfl⟩)

end kv.net
