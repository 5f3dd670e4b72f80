import Kv.Bytes
import Kv.Lib.Ownership
import Kv.Lib.Transition

open Ownership Transition

namespace kv.net

/-- A `Socket`: the descriptor that it closes, or a negative number. -/
structure Socket where
  fd_ : Int := -1
  deriving DecidableEq

namespace Socket

def valid (self : Socket) : Bool := 0 ≤ self.fd_

/-- The move constructor: the new object, and what is left of the other one. -/
def move (other : Socket) : Socket × Socket := ({ fd_ := other.fd_ }, { other with fd_ := -1 })

def release (self : Socket) : Int × Socket := (self.fd_, { self with fd_ := -1 })

/-- `close_if_valid`, with the descriptor that it passes to `::close`. -/
def close_if_valid (self : Socket) : Socket × Option Int :=
  if self.valid then ({ self with fd_ := -1 }, some self.fd_) else (self, none)

/-- The move assignment from another object. -/
def assign (self other : Socket) : Socket × Socket × Option Int :=
  let (self, closed) := self.close_if_valid
  ({ self with fd_ := other.fd_ }, { other with fd_ := -1 }, closed)

/-- What the object owns. -/
def owned (self : Socket) : Option Int := if self.valid then some self.fd_ else none

theorem close_if_valid_snd (self : Socket) : self.close_if_valid.2 = self.owned := by
  unfold close_if_valid owned
  split <;> rfl

theorem assign_eq (self other : Socket) : self.assign other = (other, {}, self.owned) := by
  rw [← close_if_valid_snd]
  rfl

end Socket

/-- A program with its `Socket` objects, whatever variables, containers and threads
    they are in, and the descriptors that it holds as plain integers; and which
    descriptors are open. -/
structure State (ν : Type) where
  sockets : ν → Option Socket := fun _ => none
  plain : List Int := []
  isOpen : Int → Bool := fun _ => false

/-- What a program can do with descriptors and `Socket` objects. -/
inductive Label (ν : Type)
  | opens (fd : Int)
  | close (fd : Int)
  | construct (x : ν) (fd : Int)
  | move (x y : ν)
  | assign (x y : ν)
  | release (x : ν)
  | destroy (x : ν)

/-- What the kernel sees; `::close` fails on a descriptor that is not open. -/
inductive Event
  | opened (fd : Int)
  | closed (fd : Int) (success : Bool)
  deriving DecidableEq

namespace State

/-- What the object in `x` owns, if there is one. -/
def owned {ν : Type} (s : State ν) (x : ν) : Option Int := (s.sockets x).bind Socket.owned

theorem owned_of_some {ν : Type} {s : State ν} {x : ν} {object : Socket} (hx : s.sockets x = some object) :
    s.owned x = object.owned := by
  simp [owned, hx]

theorem owned_of_none {ν : Type} {s : State ν} {x : ν} (hx : s.sockets x = none) : s.owned x = none := by
  simp [owned, hx]

def ledger {ν : Type} (s : State ν) : Ledger ν Int where
  place := s.owned
  loose := s.plain
  live := s.isOpen

end State

variable {ν : Type} [DecidableEq ν]

namespace State

def set (s : State ν) (x : ν) (object : Option Socket) : State ν :=
  { s with sockets := Function.update s.sockets x object }

@[simp] theorem set_sockets (s : State ν) (x : ν) (object : Option Socket) :
    (s.set x object).sockets = Function.update s.sockets x object := rfl

@[simp] theorem set_plain (s : State ν) (x : ν) (object : Option Socket) : (s.set x object).plain = s.plain := rfl

/-- `::close`, where there is something to close. -/
def close (s : State ν) : Option Int → State ν × List Event
  | none => (s, [])
  | some fd => ({ s with isOpen := Function.update s.isOpen fd false }, [.closed fd (s.isOpen fd)])

/-- One operation. The kernel hands out descriptors that are not open; whoever
    calls `::close` or the constructor gives up a descriptor of their own. -/
def step (s : State ν) : Label ν → Option (State ν × List Event)
  | .opens fd =>
    if 0 ≤ fd ∧ s.isOpen fd = false then
      some ({ s with plain := fd :: s.plain, isOpen := Function.update s.isOpen fd true }, [.opened fd])
    else none
  | .close fd => if fd ∈ s.plain then some ({ s with plain := s.plain.erase fd }.close (some fd)) else none
  | .construct x fd =>
    match s.sockets x with
    | some _ => none
    | none =>
      if fd < 0 then some (s.set x (some ⟨fd⟩), [])
      else if fd ∈ s.plain then some ({ s.set x (some ⟨fd⟩) with plain := s.plain.erase fd }, [])
      else none
  | .move x y =>
    match s.sockets x, s.sockets y with
    | none, some other => some ((s.set x (some other.move.1)).set y (some other.move.2), [])
    | _, _ => none
  | .assign x y =>
    match s.sockets x, s.sockets y with
    | some self, some other =>
      if x = y then some (s, [])
      else
        let (self, other, closed) := self.assign other
        some (((s.set x (some self)).set y (some other)).close closed)
    | _, _ => none
  | .release x =>
    match s.sockets x with
    | none => none
    | some self =>
      let (fd, self) := self.release
      some ({ s.set x (some self) with plain := if 0 ≤ fd then fd :: s.plain else s.plain }, [])
  | .destroy x =>
    match s.sockets x with
    | none => none
    | some self => some ((s.set x none).close self.close_if_valid.2)

end State

def system (ν : Type) [DecidableEq ν] : System (State ν) (Label ν) Event where
  init := {}
  step := State.step

section

variable {s s' : State ν} {label : Label ν} {events : List Event} {x y : ν}

theorem State.owned_set (s : State ν) (x : ν) (object : Option Socket) :
    (s.set x object).owned = Function.update s.owned x (object.bind Socket.owned) := by
  funext y
  by_cases hyx : y = x
  · simp [State.owned, State.set, hyx]
  · simp [State.owned, State.set, hyx]

omit [DecidableEq ν] in
theorem State.close_owned (s : State ν) (closed : Option Int) : (s.close closed).1.owned = s.owned := by
  cases closed <;> rfl

/-- An object gives up what it owned, which is then closed. -/
theorem State.close_drop {next : State ν} (hlive : next.isOpen = s.isOpen) (hplain : next.plain = s.plain) (x : ν) :
    (next.close (s.owned x)).1.ledger = { s.ledger.drop x with place := next.owned } ∧
      (next.close (s.owned x)).2 = (s.close (s.owned x)).2 := by
  cases hx : s.owned x with
  | none => simp [State.close, State.ledger, Ledger.drop, hx, hlive, hplain]
  | some fd =>
    refine ⟨Ledger.ext ?_ hplain ?_, by simp [State.close, hlive]⟩
    · exact State.close_owned next (some fd)
    · simp [State.close, State.ledger, Ledger.drop, hx, hlive]

/-- What an operation does to the accounts, and what the kernel sees of it. -/
inductive Books (s : State ν) : Ledger ν Int → List Event → Prop
  | same : Books s s.ledger []
  | acquire {fd : Int} (hfresh : s.isOpen fd = false) : Books s (s.ledger.acquire fd) [.opened fd]
  | discard {fd : Int} (hplain : fd ∈ s.plain) : Books s (s.ledger.discard fd) [.closed fd (s.isOpen fd)]
  | put {x : ν} {fd : Int} (hempty : s.owned x = none) (hplain : fd ∈ s.plain) : Books s (s.ledger.put x fd) []
  | take {x : ν} : Books s (s.ledger.take x) []
  | move {x y : ν} (hempty : s.owned x = none) : Books s (s.ledger.move x y) []
  | drop {x : ν} : Books s (s.ledger.drop x) (s.close (s.owned x)).2
  | replace {x y : ν} : Books s ((s.ledger.drop x).move x y) (s.close (s.owned x)).2

theorem State.books_of_step (hstep : s.step label = some (s', events)) : Books s s'.ledger events := by
  cases label with
  | opens fd =>
    simp only [State.step, Option.ite_none_right_eq_some, Option.some.injEq, Prod.mk.injEq] at hstep
    obtain ⟨⟨_, hfresh⟩, rfl, rfl⟩ := hstep
    exact .acquire hfresh
  | close fd =>
    simp only [State.step, State.close, Option.ite_none_right_eq_some, Option.some.injEq, Prod.mk.injEq] at hstep
    obtain ⟨hplain, rfl, rfl⟩ := hstep
    exact .discard hplain
  | construct x fd =>
    cases hx : s.sockets x with
    | some object => simp [State.step, hx] at hstep
    | none =>
      have hempty : s.owned x = none := State.owned_of_none hx
      simp only [State.step, hx] at hstep
      by_cases hneg : fd < 0
      · simp only [hneg, if_true, Option.some.injEq, Prod.mk.injEq] at hstep
        obtain ⟨rfl, rfl⟩ := hstep
        have hsame : (s.set x (some ⟨fd⟩)).ledger = s.ledger := by
          refine Ledger.ext ?_ rfl rfl
          have hnone : (⟨fd⟩ : Socket).owned = none := by simp [Socket.owned, Socket.valid, hneg]
          change (s.set x (some ⟨fd⟩)).owned = s.owned
          rw [State.owned_set, Option.bind_some, hnone, ← hempty, Function.update_eq_self]
        exact hsame ▸ .same
      · simp only [hneg, if_false, Option.ite_none_right_eq_some, Option.some.injEq, Prod.mk.injEq] at hstep
        obtain ⟨hplain, rfl, rfl⟩ := hstep
        have hput : ({ s.set x (some ⟨fd⟩) with plain := s.plain.erase fd } : State ν).ledger = s.ledger.put x fd := by
          refine Ledger.ext ?_ rfl rfl
          have hsome : (⟨fd⟩ : Socket).owned = some fd := by simp [Socket.owned, Socket.valid, Int.not_lt.mp hneg]
          change (s.set x (some ⟨fd⟩)).owned = Function.update s.owned x (some fd)
          rw [State.owned_set, Option.bind_some, hsome]
        exact hput ▸ .put hempty hplain
  | move x y =>
    cases hx : s.sockets x with
    | some object => simp [State.step, hx] at hstep
    | none =>
      cases hy : s.sockets y with
      | none => simp [State.step, hx, hy] at hstep
      | some other =>
        simp only [State.step, hx, hy, Option.some.injEq, Prod.mk.injEq] at hstep
        obtain ⟨rfl, rfl⟩ := hstep
        have hne : x ≠ y := by
          rintro rfl
          simp [hx] at hy
        have hmove : ((s.set x (some other.move.1)).set y (some other.move.2)).ledger = s.ledger.move x y := by
          refine Ledger.ext ?_ rfl rfl
          change ((s.set x (some other.move.1)).set y (some other.move.2)).owned =
            Function.update (Function.update s.owned y none) x (s.owned y)
          rw [State.owned_set, State.owned_set, Function.update_comm hne, State.owned_of_some hy]
          rfl
        exact hmove ▸ .move (State.owned_of_none hx)
  | assign x y =>
    cases hx : s.sockets x with
    | none => simp [State.step, hx] at hstep
    | some self =>
      cases hy : s.sockets y with
      | none => simp [State.step, hx, hy] at hstep
      | some other =>
        by_cases hne : x = y
        · simp only [State.step, hy, hne, if_true, Option.some.injEq, Prod.mk.injEq] at hstep
          obtain ⟨rfl, rfl⟩ := hstep
          exact .same
        · simp only [State.step, hx, hy, hne, if_false, Option.some.injEq, Socket.assign_eq] at hstep
          rw [← State.owned_of_some hx] at hstep
          obtain ⟨hledger, hevents⟩ := @State.close_drop ν _ s ((s.set x (some other)).set y (some {})) rfl rfl x
          rw [hstep] at hledger hevents
          subst hevents
          have hreplace : s'.ledger = (s.ledger.drop x).move x y := by
            rw [hledger]
            refine Ledger.ext ?_ rfl rfl
            change ((s.set x (some other)).set y (some {})).owned =
              Function.update (Function.update (Function.update s.owned x none) y none) x
                (Function.update s.owned x none y)
            rw [State.owned_set, State.owned_set, Function.update_comm hne, Function.update_comm hne,
              Function.update_idem, Function.update_of_ne (Ne.symm hne), State.owned_of_some hy]
            rfl
          exact hreplace ▸ .replace
  | release x =>
    cases hx : s.sockets x with
    | none => simp [State.step, hx] at hstep
    | some self =>
      simp only [State.step, hx, Option.some.injEq, Prod.mk.injEq] at hstep
      obtain ⟨rfl, rfl⟩ := hstep
      have htake : ({ s.set x (some self.release.2) with
          plain := if 0 ≤ self.release.1 then self.release.1 :: s.plain else s.plain } : State ν).ledger =
          s.ledger.take x := by
        refine Ledger.ext (State.owned_set s x _) ?_ rfl
        change (if 0 ≤ self.fd_ then self.fd_ :: s.plain else s.plain) = (s.owned x).toList ++ s.plain
        rw [State.owned_of_some hx]
        by_cases hvalid : 0 ≤ self.fd_ <;> simp [Socket.owned, Socket.valid, hvalid]
      exact htake ▸ .take
  | destroy x =>
    cases hx : s.sockets x with
    | none => simp [State.step, hx] at hstep
    | some self =>
      simp only [State.step, hx, Option.some.injEq] at hstep
      rw [Socket.close_if_valid_snd, ← State.owned_of_some hx] at hstep
      obtain ⟨hledger, hevents⟩ := @State.close_drop ν _ s (s.set x none) rfl rfl x
      rw [hstep, State.owned_set] at hledger
      rw [hstep] at hevents
      subst hevents
      exact hledger ▸ .drop

theorem Books.exclusive {after : Ledger ν Int} (hbooks : Books s after events) (hown : s.ledger.Exclusive) :
    after.Exclusive := by
  cases hbooks with
  | same => exact hown
  | acquire hfresh => exact hown.acquire hfresh
  | discard hplain => exact hown.discard hplain
  | put hempty hplain => exact hown.put hempty hplain
  | take => exact hown.take _
  | move hempty => exact hown.move hempty _
  | drop => exact hown.drop _
  | replace =>
    refine (hown.drop _).move ?_ _
    simp [Ledger.drop]

end

/-- How often a descriptor was opened, and closed. -/
def opens (fd : Int) (trace : List Event) : Nat := trace.count (.opened fd)
def closes (fd : Int) (trace : List Event) : Nat := trace.count (.closed fd true)

/-- No `::close` has failed, and every descriptor has been closed as often as it
    was opened, or once less while it is open. -/
structure Balanced (trace : List Event) (isOpen : Int → Bool) : Prop where
  success : ∀ fd ok, .closed fd ok ∈ trace → ok = true
  count : ∀ fd, opens fd trace = closes fd trace + (isOpen fd).toNat

section

variable {trace : List Event} {isOpen : Int → Bool} {fd : Int}

theorem balanced_nil : Balanced [] fun _ => false :=
  ⟨by simp, fun _ => rfl⟩

theorem Balanced.opened (h : Balanced trace isOpen) (hfresh : isOpen fd = false) :
    Balanced (trace ++ [.opened fd]) (Function.update isOpen fd true) where
  success fd' ok hmem := h.success fd' ok (by simpa using hmem)
  count fd' := by
    have hcount := h.count fd'
    simp only [opens, closes, List.count_append, List.count_singleton] at hcount ⊢
    by_cases heq : fd' = fd
    · subst heq
      simp only [hfresh, Bool.toNat_false] at hcount
      simpa using hcount
    · simpa [heq, Ne.symm heq] using hcount

theorem Balanced.closed (h : Balanced trace isOpen) (hopen : isOpen fd = true) :
    Balanced (trace ++ [.closed fd (isOpen fd)]) (Function.update isOpen fd false) where
  success fd' ok hmem := by
    rcases List.mem_append.mp hmem with hold | hnew
    · exact h.success fd' ok hold
    · simp only [List.mem_singleton, Event.closed.injEq] at hnew
      exact hnew.2.trans hopen
  count fd' := by
    have hcount := h.count fd'
    simp only [opens, closes, List.count_append, List.count_singleton] at hcount ⊢
    by_cases heq : fd' = fd
    · subst heq
      simp only [hopen, Bool.toNat_true] at hcount
      simpa [hopen] using hcount
    · simpa [heq, Ne.symm heq] using hcount

end

section

variable {s : State ν} {after : Ledger ν Int} {events trace : List Event}

theorem Balanced.close_owned (h : Balanced trace s.isOpen) (hown : s.ledger.Exclusive) (x : ν) :
    Balanced (trace ++ (s.close (s.owned x)).2) (s.ledger.drop x).live := by
  cases hx : s.owned x with
  | none => simpa [State.close, Ledger.drop, State.ledger, hx] using h
  | some fd =>
    have hclosed := h.closed (hown.live_of_place hx)
    simpa [State.close, Ledger.drop, State.ledger, hx] using hclosed

theorem Books.balanced (hbooks : Books s after events) (hown : s.ledger.Exclusive) (h : Balanced trace s.isOpen) :
    Balanced (trace ++ events) after.live := by
  cases hbooks with
  | same | put | take | move =>
    rw [List.append_nil]
    exact h
  | acquire hfresh => exact h.opened hfresh
  | discard hplain => exact h.closed (hown.live_of_loose hplain)
  | drop => exact h.close_owned hown _
  | replace => exact h.close_owned hown _

/-- Ownership along a run, with the books of what was opened and closed. -/
theorem owned_of_run (hrun : Run (system ν) (fun _ => True) (system ν).init trace s) :
    s.ledger.Exclusive ∧ Balanced trace s.isOpen := by
  have hinit : (system ν).init.ledger.Exclusive := by
    constructor <;> simp [State.ledger, State.owned, system]
  refine hrun.invariant (C := fun _ => True) (I := fun trace s => s.ledger.Exclusive ∧ Balanced trace s.isOpen)
    (fun _ _ _ => trivial) ⟨hinit, balanced_nil⟩ ?_ trivial
  rintro trace s label s' events ⟨hown, hbalanced⟩ - - hstep
  have hbooks := State.books_of_step hstep
  exact ⟨hbooks.exclusive hown, hbooks.balanced hown hbalanced⟩

/-- Descriptors have one owner. Whatever a program does with `Socket` objects, in
    any order and in any threads, and whichever numbers the kernel hands out
    again: every open descriptor is held once, by an object or as a plain integer,
    and nothing else is held; every `::close` is of a descriptor that is open; and
    every descriptor is closed once for each time it was opened. -/
theorem descriptors_owned (hrun : Run (system ν) (fun _ => True) (system ν).init trace s) :
    (s.plain.Nodup ∧ (∀ x y fd, s.owned x = some fd → s.owned y = some fd → x = y) ∧
      (∀ x fd, s.owned x = some fd → fd ∉ s.plain) ∧
      ∀ fd, s.isOpen fd = true ↔ fd ∈ s.plain ∨ ∃ x, s.owned x = some fd) ∧
    (∀ fd ok, .closed fd ok ∈ trace → ok = true) ∧
    ∀ fd, opens fd trace = closes fd trace + (s.isOpen fd).toNat := by
  obtain ⟨hown, hbalanced⟩ := owned_of_run hrun
  exact ⟨⟨hown.nodup, hown.inj, hown.apart, hown.live_iff⟩, hbalanced.success, hbalanced.count⟩

/-- A connection moves from one object into another that had one already; its
    number is handed out again while the object lives. -/
theorem descriptors_owned_example :
    ∃ final, Run (system Nat) (fun _ => True) (system Nat).init
        [.opened 3, .opened 4, .closed 3 true, .opened 3, .closed 4 true, .closed 3 true] final ∧
      ∀ fd, final.isOpen fd = true ↔ fd ∈ final.plain ∨ ∃ x, final.owned x = some fd := by
  have hexec : ((system Nat).exec (system Nat).init
      [.opens 3, .construct 0 3, .opens 4, .construct 1 4, .assign 0 1, .assign 0 0, .opens 3, .move 2 0, .destroy 0,
        .destroy 1, .destroy 2, .close 3]).map Prod.fst =
      some [.opened 3, .opened 4, .closed 3 true, .opened 3, .closed 4 true, .closed 3 true] := by decide +kernel
  obtain ⟨final, hrun⟩ := Run.exists_of_exec _ (fun _ _ => trivial) hexec
  exact ⟨final, hrun, (descriptors_owned hrun).1.2.2.2⟩

end

end kv.net
