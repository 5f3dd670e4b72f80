import Mathlib.Data.Int.CardIntervalMod
import Kv.Server.HandOff

namespace kv.server

open Transition

/-- Why `accept` failed. -/
inductive AcceptError
  | EINTR
  | other (what : Bytes)
  deriving DecidableEq

/-- The thread in `KvServer::run`, with the reactors it hands connections to. It
    is enqueuer 0 of the process, and there is no other. -/
structure Acceptor where
  num_reactors : Nat
  next_reactor_ : Nat := 0
  process : KvServer := { store := {} }

namespace Acceptor

inductive Label
  | accepted
  | accept_failed (errno : AcceptError)
  | woken
  | reactor (label : KvServer.Label)

inductive Event
  | process (event : KvServer.Event)
  | cerr (line : Bytes)
  deriving DecidableEq

/-- The constructor. -/
def create (num_threads : Nat) : Acceptor where
  num_reactors := if num_threads = 0 then 1 else num_threads

/-- A step of one of the reactors that the constructor has started. -/
def runs (self : Acceptor) : KvServer.Label → Bool
  | .enqueue _ _ | .wake _ => false
  | .poll w _ | .step w | .read w _ | .eof w | .again w => w < self.num_reactors

/-- A step that the process makes, which shows its events. -/
def advance (self : Acceptor) (capacity next_reactor_ : Nat) (label : KvServer.Label) :
    Option (Acceptor × List Event) :=
  match self.process.step capacity label with
  | none => none
  | some (process, events) => some ({ self with process, next_reactor_ }, events.map .process)

/-- `enqueue_client` is the push and the write to the pipe; `next_reactor_` is
    moved on when it has returned. -/
def step (capacity : Nat) (self : Acceptor) : Label → Option (Acceptor × List Event)
  | .accepted => self.advance capacity self.next_reactor_ (.enqueue 0 self.next_reactor_)
  | .accept_failed errno =>
    match self.process.enqueuers 0 with
    | some _ => none
    | none =>
      match errno with
      | .EINTR => some (self, [])
      | .other what =>
        some (self, [.cerr (ascii "kvserver: accept() failed: " ++ what ++ ascii ", continuing" ++ [LF])])
  | .woken => self.advance capacity ((self.next_reactor_ + 1) % self.num_reactors) (.wake 0)
  | .reactor label => if self.runs label then self.advance capacity self.next_reactor_ label else none

def system (capacity num_threads : Nat) : System Acceptor Label Event where
  init := create num_threads
  step := step capacity

def Event.of_process : Event → Option KvServer.Event
  | .process event => some event
  | .cerr _ => none

/-- The invariant of the rotation: connection number `fd` has gone to reactor
    `fd % n`, and the next one will go on from there. -/
structure Rotates (n : Nat) (events : List KvServer.Event) (s : Acceptor) : Prop where
  size : s.num_reactors = n
  only : ∀ e, e ≠ 0 → s.process.enqueuers e = none
  idle : s.process.enqueuers 0 = none → s.next_reactor_ = s.process.accepted % n
  busy : ∀ w, s.process.enqueuers 0 = some w → ∃ fd, s.process.accepted = fd + 1 ∧ s.next_reactor_ = fd % n
  placed : ∀ w fd, .enqueued w fd ∈ events → w = fd % n

variable {n capacity num_threads : Nat} {s s' : Acceptor} {events : List KvServer.Event} {trace more : List Event}
  {label : Label}

theorem advance_eq_some {next_reactor_ : Nat} {label : KvServer.Label}
    (hadvance : s.advance capacity next_reactor_ label = some (s', more)) :
    ∃ process events, s.process.step capacity label = some (process, events) ∧
      s' = { s with process, next_reactor_ } ∧ more = events.map .process := by
  unfold advance at hadvance
  split at hadvance
  · simp at hadvance
  · rename_i process events hstep
    obtain ⟨rfl, rfl⟩ := Prod.mk.inj (Option.some.inj hadvance)
    exact ⟨process, events, hstep, rfl, rfl⟩

theorem filterMap_process (events : List KvServer.Event) :
    (events.map Event.process).filterMap Event.of_process = events := by
  rw [List.filterMap_map]
  exact List.filterMap_some

/-- What the steps of the reactors leave alone. -/
structure Untouched (before after : KvServer) (events : List KvServer.Event) : Prop where
  enqueuers : after.enqueuers = before.enqueuers
  accepted : after.accepted = before.accepted
  silent : ∀ w fd, .enqueued w fd ∉ events

theorem untouched_of_serve {before after : KvServer} {w : Nat} {reactor : WorkerReactor} {label : server.Label}
    (hserve : before.serve w reactor label = some (after, events)) : Untouched before after events := by
  obtain ⟨state, clients, -, rfl, rfl⟩ := KvServer.serve_eq_some hserve
  exact ⟨rfl, rfl, by simp⟩

theorem untouched_of_runs {label : KvServer.Label} {process : KvServer} (hruns : s.runs label)
    (hstep : s.process.step capacity label = some (process, events)) : Untouched s.process process events := by
  cases label with
  | enqueue e w => simp [runs] at hruns
  | wake e => simp [runs] at hruns
  | poll w ready =>
    simp only [KvServer.step, Option.map_eq_some_iff] at hstep
    obtain ⟨reactor, -, hstate⟩ := hstep
    obtain ⟨rfl, rfl⟩ := Prod.mk.inj hstate
    exact ⟨rfl, rfl, by simp⟩
  | step w =>
    simp only [KvServer.step] at hstep
    split at hstep
    · obtain ⟨moved, -, hstate⟩ := Option.map_eq_some_iff.mp hstep
      obtain ⟨rfl, rfl⟩ := Prod.mk.inj hstate
      exact ⟨rfl, rfl, by simp⟩
    · split at hstep
      · split at hstep
        · simp at hstep
        · obtain ⟨rfl, rfl⟩ := Prod.mk.inj (Option.some.inj hstep)
          exact ⟨rfl, rfl, by simp⟩
      · exact untouched_of_serve hstep
  | read w data =>
    simp only [KvServer.step] at hstep
    split at hstep
    · exact untouched_of_serve hstep
    · simp at hstep
  | eof w =>
    simp only [KvServer.step] at hstep
    split at hstep
    · exact untouched_of_serve hstep
    · simp at hstep
  | again w =>
    simp only [KvServer.step] at hstep
    split at hstep
    · split at hstep
      · obtain ⟨rfl, rfl⟩ := Prod.mk.inj (Option.some.inj hstep)
        exact ⟨rfl, rfl, by simp⟩
      · simp at hstep
    · simp at hstep

/-- A step of the acceptor is a step of the process, or none. -/
theorem step_process (hstep : s.step capacity label = some (s', more)) :
    (s'.process = s.process ∧ more.filterMap Event.of_process = []) ∨
      ∃ label, s.process.step capacity label = some (s'.process, more.filterMap Event.of_process) := by
  have hadvance {next_reactor_ : Nat} {label : KvServer.Label}
      (hadvance : s.advance capacity next_reactor_ label = some (s', more)) :
      ∃ label, s.process.step capacity label = some (s'.process, more.filterMap Event.of_process) := by
    obtain ⟨process, events, hprocess, rfl, rfl⟩ := advance_eq_some hadvance
    rw [filterMap_process]
    exact ⟨label, hprocess⟩
  cases label with
  | accepted => exact .inr (hadvance hstep)
  | woken => exact .inr (hadvance hstep)
  | reactor label =>
    simp only [step] at hstep
    split at hstep
    · exact .inr (hadvance hstep)
    · simp at hstep
  | accept_failed errno =>
    simp only [step] at hstep
    split at hstep
    · simp at hstep
    · cases errno with
      | EINTR =>
        obtain ⟨rfl, rfl⟩ := Prod.mk.inj (Option.some.inj hstep)
        exact .inl ⟨rfl, rfl⟩
      | other what =>
        obtain ⟨rfl, rfl⟩ := Prod.mk.inj (Option.some.inj hstep)
        exact .inl ⟨rfl, rfl⟩

theorem Rotates.step (hrotates : Rotates n events s) (hstep : s.step capacity label = some (s', more)) :
    Rotates n (events ++ more.filterMap Event.of_process) s' := by
  cases label with
  | accepted =>
    obtain ⟨process, shown, hprocess, rfl, rfl⟩ := advance_eq_some hstep
    rw [filterMap_process]
    simp only [KvServer.step] at hprocess
    split at hprocess
    · simp at hprocess
    · rename_i hfree
      obtain ⟨rfl, rfl⟩ := Prod.mk.inj (Option.some.inj hprocess)
      have hnext := hrotates.idle hfree
      refine ⟨hrotates.size, fun e he => ?_, by simp, fun w _ => ⟨s.process.accepted, rfl, hnext⟩, fun w fd hmem => ?_⟩
      · simpa [Function.update_of_ne he] using hrotates.only e he
      · rcases List.mem_append.mp hmem with hold | hnew
        · exact hrotates.placed w fd hold
        · obtain ⟨rfl, rfl⟩ : w = s.next_reactor_ ∧ fd = s.process.accepted := by simpa using hnew
          exact hnext
  | woken =>
    obtain ⟨process, shown, hprocess, rfl, rfl⟩ := advance_eq_some hstep
    rw [filterMap_process]
    simp only [KvServer.step] at hprocess
    split at hprocess
    · simp at hprocess
    · rename_i w hwaking
      obtain ⟨rfl, rfl⟩ := Prod.mk.inj (Option.some.inj hprocess)
      obtain ⟨fd, haccepted, hnext⟩ := hrotates.busy w hwaking
      refine ⟨hrotates.size, fun e he => ?_, fun _ => ?_, by simp, by simpa using hrotates.placed⟩
      · simpa [Function.update_of_ne he] using hrotates.only e he
      · change (s.next_reactor_ + 1) % s.num_reactors = s.process.accepted % n
        rw [haccepted, hnext, hrotates.size, Nat.mod_add_mod]
  | reactor label =>
    simp only [Acceptor.step] at hstep
    split at hstep
    · rename_i hruns
      obtain ⟨process, shown, hprocess, rfl, rfl⟩ := advance_eq_some hstep
      have hkept := untouched_of_runs hruns hprocess
      rw [filterMap_process]
      refine ⟨hrotates.size, ?_, ?_, ?_, fun w fd hmem => ?_⟩
      · simpa [hkept.enqueuers] using hrotates.only
      · simpa [hkept.enqueuers, hkept.accepted] using hrotates.idle
      · simpa [hkept.enqueuers, hkept.accepted] using hrotates.busy
      · rcases List.mem_append.mp hmem with hold | hnew
        · exact hrotates.placed w fd hold
        · exact absurd hnew (hkept.silent w fd)
    · simp at hstep
  | accept_failed errno =>
    simp only [Acceptor.step] at hstep
    split at hstep
    · simp at hstep
    · cases errno with
      | EINTR =>
        obtain ⟨rfl, rfl⟩ := Prod.mk.inj (Option.some.inj hstep)
        simpa using hrotates
      | other what =>
        obtain ⟨rfl, rfl⟩ := Prod.mk.inj (Option.some.inj hstep)
        rw [show [Event.cerr _].filterMap Event.of_process = [] from rfl, List.append_nil]
        exact hrotates

/-- What an acceptor does is something that a process does, whoever hands
    connections to its reactors. -/
theorem run_process (hrun : Run (system capacity num_threads) (fun _ => True)
    (system capacity num_threads).init trace s) :
    Run (KvServer.system capacity) (fun _ => True) (KvServer.system capacity).init (trace.filterMap Event.of_process)
      s.process := by
  have hsimulated : ∃ process, Run (KvServer.system capacity) (fun _ => True) (KvServer.system capacity).init
      (trace.filterMap Event.of_process) process ∧ s.process = process := by
    refine hrun.simulate (R := fun s process => s.process = process) ?_ rfl
    rintro s _ label s' more rfl - hstep
    rcases step_process hstep with ⟨hsame, hnone⟩ | ⟨label, hprocess⟩
    · rw [hnone, hsame]
      exact ⟨_, .nil, rfl⟩
    · exact ⟨_, .single trivial hprocess, rfl⟩
  obtain ⟨_, hprocess, rfl⟩ := hsimulated
  exact hprocess

theorem rotates_of_run (hrun : Run (system capacity num_threads) (fun _ => True)
    (system capacity num_threads).init trace s) :
    Rotates (create num_threads).num_reactors (trace.filterMap Event.of_process) s := by
  refine hrun.invariant (C := fun _ => True)
    (I := fun trace s => Rotates (create num_threads).num_reactors (trace.filterMap Event.of_process) s)
    (fun _ _ _ => trivial) ?_ ?_ trivial
  · exact ⟨rfl, fun _ _ => rfl, fun _ => (Nat.zero_mod _).symm, by simp [system, create], by simp⟩
  · intro trace s label s' more hrotates _ _ hstep
    rw [List.filterMap_append]
    exact hrotates.step hstep

/-- The connections of a reactor are those with its residue. -/
theorem enqueued_eq_filter {w : Nat} (hplaced : ∀ w fd, .enqueued w fd ∈ events → w = fd % n) :
    KvServer.enqueued events w = (KvServer.handed events).filter fun fd => fd % n = w := by
  induction events with
  | nil => rfl
  | cons event events ih =>
    have ih := ih fun w fd hmem => hplaced w fd (List.mem_cons_of_mem _ hmem)
    unfold KvServer.enqueued KvServer.handed at ih ⊢
    cases event with
    | enqueued w' fd =>
      obtain rfl := hplaced w' fd List.mem_cons_self
      by_cases heq : fd % n = w
      · simp [heq, ih]
      · simp [heq, ih]
    | _ => simpa [List.filterMap_cons] using ih

/-- Round robin. In every run of the server, whatever errors `accept` returns:
    reactor `w` is handed exactly the connections whose number is `w` modulo the
    number of reactors, each of which it has registered or will find; of those
    that it has registered, its poll table holds each once until it is closed;
    and no reactor gets more than one connection more than another. -/
theorem round_robin (hcapacity : 1 ≤ capacity)
    (hrun : Run (system capacity num_threads) (fun _ => True) (system capacity num_threads).init trace s) {w : Nat}
    (hw : w < (create num_threads).num_reactors) :
    let n := (create num_threads).num_reactors
    let events := trace.filterMap Event.of_process
    let reactor := s.process.reactors w
    KvServer.registered events w ++ reactor.fds ++ reactor.pending_clients_ =
        (List.range s.process.accepted).filter (fun fd => fd % n = w) ∧
      (reactor.poll_fds_.map PollFd.fd).Perm ((KvServer.registered events w).filter fun fd => ¬ s.process.Closed fd) ∧
      (KvServer.enqueued events w).length = s.process.accepted / n + if w < s.process.accepted % n then 1 else 0 := by
  intro n events reactor
  have hhand := KvServer.handOff_of_run hcapacity (run_process hrun)
  have henqueued := enqueued_eq_filter (w := w) (rotates_of_run hrun).placed
  rw [hhand.numbered] at henqueued
  refine ⟨(hhand.reactors w).queue.symm.trans henqueued, (hhand.reactors w).table_perm (hhand.nodup_enqueued w), ?_⟩
  have hcount : (KvServer.enqueued events w).length = s.process.accepted.count (· ≡ w [MOD n]) := by
    rw [henqueued, ← List.countP_eq_length_filter, Nat.count]
    have hmod : w % n = w := Nat.mod_eq_of_lt hw
    simp only [Nat.ModEq, hmod]
    rfl
  rw [hcount, Nat.count_modEq_card _ (Nat.zero_lt_of_lt hw), Nat.mod_eq_of_lt hw]

/-- Two reactors and three connections, with an error of `accept` in between. -/
theorem round_robin_example :
    ∃ trace s, Run (system 1 2) (fun _ => True) (system 1 2).init trace s ∧ s.process.accepted = 3 ∧
      (KvServer.enqueued (trace.filterMap Event.of_process) 0).length = 3 / 2 + if 0 < 3 % 2 then 1 else 0 := by
  let trace : List Event := [.process (.enqueued 0 0), .process (.enqueued 1 1),
    .cerr (ascii "kvserver: accept() failed: Too many open files, continuing" ++ [LF]), .process (.enqueued 0 2)]
  obtain ⟨s, hrun⟩ : ∃ s, Run (system 1 2) (fun _ => True) (system 1 2).init trace s :=
    Run.exists_of_exec [.accepted, .woken, .accepted, .woken, .accept_failed (.other (ascii "Too many open files")),
      .accept_failed .EINTR, .accepted, .woken] (fun _ _ => trivial) (by decide +kernel)
  have hnumbered := (KvServer.handOff_of_run (by decide) (run_process hrun)).numbered
  have hthree : s.process.accepted = 3 := by
    rw [← List.length_range (n := s.process.accepted), ← hnumbered]
    decide
  have hrobin := (round_robin (by decide) hrun (w := 0) (by decide)).2.2
  rw [hthree] at hrobin
  exact ⟨trace, s, hrun, hthree, hrobin⟩

end Acceptor

end kv.server
