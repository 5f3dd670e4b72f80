import Kv.Lib.Transition
import Kv.Router.Router

open Transition

namespace kv.detector

/-- Where the heartbeat thread stands in `heartbeat_loop`: before a test of
    `running_`, between the test and the call of `ping_once`, in `ping_once`, before
    it writes down the outcome, or asleep. -/
inductive Pc
  | top
  | sweep (todo : List NodeAddress)
  | tested (addr : NodeAddress) (todo : List NodeAddress)
  | pinging (addr : NodeAddress) (todo : List NodeAddress)
  | marking (addr : NodeAddress) (up : Bool) (todo : List NodeAddress)
  | sleeping
  | ended
  deriving DecidableEq

/-- Where the thread that owns the detector stands: outside its functions, or
    after the store to `running_` in `start` or in `stop`. -/
inductive Owner
  | idle
  | starting
  | stopping
  deriving DecidableEq

/-- The detector; `thread_` is empty while it is not joinable. Assigning to a
    joinable `std::thread` terminates the process. -/
structure FailureDetector where
  nodes_ : List NodeAddress
  alive_ : Liveness
  running_ : Bool := false
  thread_ : Option Pc := none
  owner : Owner := .idle
  terminated : Bool := false

inductive Event
  | started
  | pinged (node_id : Bytes)
  | marked (node_id : Bytes) (up : Bool)
  | reported (node_id : Bytes)
  | stopped
  deriving DecidableEq

/-- `beat` is a step of the heartbeat thread; `up` is what a ping finds. Other
    threads call `mark_down` to report a node that failed them. -/
inductive Label
  | start
  | stop
  | owner
  | beat (up : Bool)
  | mark_down (node_id : Bytes)

namespace FailureDetector

def create (nodes : List NodeAddress) : FailureDetector where
  nodes_ := nodes
  alive_ := .create nodes

def is_alive (self : FailureDetector) (node_id : Bytes) : Bool := self.alive_.is_alive node_id

def mark (self : FailureDetector) (node_id : Bytes) (up : Bool) : FailureDetector :=
  { self with alive_ := self.alive_.mark node_id up }

/-- A step of `heartbeat_loop`. -/
def heartbeat_loop (self : FailureDetector) (up : Bool) : Pc → Option (FailureDetector × Pc × List Event)
  | .top => some (self, if self.running_ then .sweep self.nodes_ else .ended, [])
  | .sweep [] => some (self, .sleeping, [])
  | .sweep (addr :: todo) => some (self, if self.running_ then .tested addr todo else .sleeping, [])
  -- `running_` may have been switched off since the test.
  | .tested addr todo => some (self, .pinging addr todo, [.pinged addr.id])
  | .pinging addr todo => some (self, .marking addr up todo, [])
  | .marking addr up todo => some (self.mark addr.id up, .sweep todo, [.marked addr.id up])
  | .sleeping => some (self, .top, [])
  | .ended => none

/-- The second half of `start` and of `stop`. `join` waits for the thread's end. -/
def owner_step (self : FailureDetector) : Option (FailureDetector × List Event) :=
  match self.owner with
  | .idle => none
  | .starting =>
    if self.thread_ = none then some ({ self with owner := .idle, thread_ := some .top }, [.started])
    else some ({ self with terminated := true }, [])
  | .stopping =>
    if self.thread_ = none ∨ self.thread_ = some .ended then
      some ({ self with owner := .idle, thread_ := none }, [.stopped])
    else none

def step (self : FailureDetector) (label : Label) : Option (FailureDetector × List Event) :=
  if self.terminated then none
  else
    match label with
    | .start => if self.owner = .idle then some ({ self with running_ := true, owner := .starting }, []) else none
    | .stop => if self.owner = .idle then some ({ self with running_ := false, owner := .stopping }, []) else none
    | .owner => self.owner_step
    | .beat up =>
      match self.thread_ with
      | none => none
      | some pc =>
        (self.heartbeat_loop up pc).map fun (self, pc, events) => ({ self with thread_ := some pc }, events)
    | .mark_down node_id => some (self.mark node_id false, [.reported node_id])

end FailureDetector

def system (nodes : List NodeAddress) : System FailureDetector Label Event where
  init := .create nodes
  step := FailureDetector.step

/-- What holds between the owner and `running_`: in particular it is only on again
    after the thread that saw it off has ended. -/
structure Sound (nodes : List NodeAddress) (s : FailureDetector) : Prop where
  nodes : s.nodes_ = nodes
  idle : s.owner = .idle → s.thread_ = none ∨ s.running_ = true
  starting : s.owner = .starting → s.running_ = true
  stopping : s.owner = .stopping → s.running_ = false
  terminated : s.terminated = true → s.owner = .starting

/-- What a step can do: the owner calls `start` or `stop` or goes on with it, the
    thread goes on, or somebody else marks a node. -/
inductive Step (s : FailureDetector) : Label → FailureDetector → List Event → Prop
  | start (hidle : s.owner = .idle) : Step s .start { s with running_ := true, owner := .starting } []
  | stop (hidle : s.owner = .idle) : Step s .stop { s with running_ := false, owner := .stopping } []
  | spawn (howner : s.owner = .starting) (hthread : s.thread_ = none) :
      Step s .owner { s with owner := .idle, thread_ := some .top } [.started]
  | terminate (howner : s.owner = .starting) : Step s .owner { s with terminated := true } []
  | join (howner : s.owner = .stopping) (hthread : s.thread_ = none ∨ s.thread_ = some .ended) :
      Step s .owner { s with owner := .idle, thread_ := none } [.stopped]
  | mark {node_id : Bytes} : Step s (.mark_down node_id) (s.mark node_id false) [.reported node_id]
  | enter {up : Bool} (hthread : s.thread_ = some .top) (hrunning : s.running_ = true) :
      Step s (.beat up) { s with thread_ := some (.sweep s.nodes_) } []
  | leave {up : Bool} (hthread : s.thread_ = some .top) (hrunning : s.running_ = false) :
      Step s (.beat up) { s with thread_ := some .ended } []
  | sleep {up : Bool} {todo : List NodeAddress} (hthread : s.thread_ = some (.sweep todo))
      (htodo : todo = [] ∨ s.running_ = false) : Step s (.beat up) { s with thread_ := some .sleeping } []
  | test {up : Bool} {addr : NodeAddress} {todo : List NodeAddress}
    (hthread : s.thread_ = some (.sweep (addr :: todo)))
      (hrunning : s.running_ = true) : Step s (.beat up) { s with thread_ := some (.tested addr todo) } []
  | ping {up : Bool} {addr : NodeAddress} {todo : List NodeAddress} (hthread : s.thread_ = some (.tested addr todo)) :
      Step s (.beat up) { s with thread_ := some (.pinging addr todo) } [.pinged addr.id]
  | pong {up : Bool} {addr : NodeAddress} {todo : List NodeAddress} (hthread : s.thread_ = some (.pinging addr todo)) :
      Step s (.beat up) { s with thread_ := some (.marking addr up todo) } []
  | verdict {up' up : Bool} {addr : NodeAddress} {todo : List NodeAddress}
      (hthread : s.thread_ = some (.marking addr up todo)) :
      Step s (.beat up') { s.mark addr.id up with thread_ := some (.sweep todo) } [.marked addr.id up]
  | wake {up : Bool} (hthread : s.thread_ = some .sleeping) : Step s (.beat up) { s with thread_ := some .top } []

section

variable {nodes : List NodeAddress} {s s' : FailureDetector} {label : Label} {events : List Event}

theorem Step.of_heartbeat_loop {up : Bool} {pc pc' : Pc} {after : FailureDetector} (hthread : s.thread_ = some pc)
    (hstep : s.heartbeat_loop up pc = some (after, pc', events)) :
    Step s (.beat up) { after with thread_ := some pc' } events := by
  cases pc with
  | top =>
    cases hrunning : s.running_ with
    | true =>
      simp only [FailureDetector.heartbeat_loop, hrunning, if_true, Option.some.injEq, Prod.mk.injEq] at hstep
      obtain ⟨rfl, rfl, rfl⟩ := hstep
      exact .enter hthread hrunning
    | false =>
      simp only [FailureDetector.heartbeat_loop, hrunning, Bool.false_eq_true, if_false, Option.some.injEq,
        Prod.mk.injEq] at hstep
      obtain ⟨rfl, rfl, rfl⟩ := hstep
      exact .leave hthread hrunning
  | sweep todo =>
    cases todo with
    | nil =>
      simp only [FailureDetector.heartbeat_loop, Option.some.injEq, Prod.mk.injEq] at hstep
      obtain ⟨rfl, rfl, rfl⟩ := hstep
      exact .sleep hthread (.inl rfl)
    | cons addr todo =>
      cases hrunning : s.running_ with
      | true =>
        simp only [FailureDetector.heartbeat_loop, hrunning, if_true, Option.some.injEq, Prod.mk.injEq] at hstep
        obtain ⟨rfl, rfl, rfl⟩ := hstep
        exact .test hthread hrunning
      | false =>
        simp only [FailureDetector.heartbeat_loop, hrunning, Bool.false_eq_true, if_false, Option.some.injEq,
          Prod.mk.injEq] at hstep
        obtain ⟨rfl, rfl, rfl⟩ := hstep
        exact .sleep hthread (.inr hrunning)
  | tested addr todo =>
    simp only [FailureDetector.heartbeat_loop, Option.some.injEq, Prod.mk.injEq] at hstep
    obtain ⟨rfl, rfl, rfl⟩ := hstep
    exact .ping hthread
  | pinging addr todo =>
    simp only [FailureDetector.heartbeat_loop, Option.some.injEq, Prod.mk.injEq] at hstep
    obtain ⟨rfl, rfl, rfl⟩ := hstep
    exact .pong hthread
  | marking addr found todo =>
    simp only [FailureDetector.heartbeat_loop, Option.some.injEq, Prod.mk.injEq] at hstep
    obtain ⟨rfl, rfl, rfl⟩ := hstep
    exact .verdict hthread
  | sleeping =>
    simp only [FailureDetector.heartbeat_loop, Option.some.injEq, Prod.mk.injEq] at hstep
    obtain ⟨rfl, rfl, rfl⟩ := hstep
    exact .wake hthread
  | ended => simp [FailureDetector.heartbeat_loop] at hstep

theorem Step.of_owner_step (hstep : s.owner_step = some (s', events)) : Step s .owner s' events := by
  unfold FailureDetector.owner_step at hstep
  split at hstep
  · simp at hstep
  · next howner =>
    split at hstep
    · next hthread =>
      obtain ⟨rfl, rfl⟩ := Prod.mk.inj (Option.some.inj hstep)
      exact .spawn howner hthread
    · obtain ⟨rfl, rfl⟩ := Prod.mk.inj (Option.some.inj hstep)
      exact .terminate howner
  · next howner =>
    split at hstep
    · next hthread =>
      obtain ⟨rfl, rfl⟩ := Prod.mk.inj (Option.some.inj hstep)
      exact .join howner hthread
    · simp at hstep

theorem Step.of_step (hstep : s.step label = some (s', events)) : s.terminated = false ∧ Step s label s' events := by
  unfold FailureDetector.step at hstep
  split at hstep
  · simp at hstep
  · next hterminated =>
    refine ⟨Bool.eq_false_of_not_eq_true hterminated, ?_⟩
    cases label with
    | start =>
      simp only [Option.ite_none_right_eq_some, Option.some.injEq, Prod.mk.injEq] at hstep
      obtain ⟨hidle, rfl, rfl⟩ := hstep
      exact .start hidle
    | stop =>
      simp only [Option.ite_none_right_eq_some, Option.some.injEq, Prod.mk.injEq] at hstep
      obtain ⟨hidle, rfl, rfl⟩ := hstep
      exact .stop hidle
    | owner => exact .of_owner_step hstep
    | mark_down node_id =>
      obtain ⟨rfl, rfl⟩ := Prod.mk.inj (Option.some.inj hstep)
      exact .mark
    | beat up =>
      cases hthread : s.thread_ with
      | none => simp [hthread] at hstep
      | some pc =>
        simp only [hthread] at hstep
        obtain ⟨⟨after, pc', events'⟩, hloop, heq⟩ := Option.map_eq_some_iff.mp hstep
        obtain ⟨rfl, rfl⟩ := Prod.mk.inj heq
        exact .of_heartbeat_loop hthread hloop

/-- The thread goes on, whatever it changes in the flags. -/
theorem Sound.beat (h : Sound nodes s) {pc pc' : Pc} (hthread : s.thread_ = some pc) (alive : Bytes → Option Bool) :
    Sound nodes { s with alive_ := alive, thread_ := some pc' } where
  nodes := h.nodes
  idle hidle := by
    rcases h.idle hidle with hnone | hrunning
    · simp [hthread] at hnone
    · exact .inr hrunning
  starting := h.starting
  stopping := h.stopping
  terminated := h.terminated

theorem Sound.step (h : Sound nodes s) (hterminated : s.terminated = false) (hstep : Step s label s' events) :
    Sound nodes s' := by
  cases hstep with
  | start hidle => exact ⟨h.nodes, by simp, by simp, by simp, by simp [hterminated]⟩
  | stop hidle => exact ⟨h.nodes, by simp, by simp, by simp, by simp [hterminated]⟩
  | spawn howner hthread => exact ⟨h.nodes, fun _ => .inr (h.starting howner), by simp, by simp, by simp [hterminated]⟩
  | terminate howner => exact ⟨h.nodes, h.idle, h.starting, h.stopping, fun _ => howner⟩
  | join howner hthread => exact ⟨h.nodes, fun _ => .inl rfl, by simp, by simp, by simp [hterminated]⟩
  | mark => exact ⟨h.nodes, h.idle, h.starting, h.stopping, h.terminated⟩
  | enter hthread | leave hthread | sleep hthread | test hthread | ping hthread | pong hthread | verdict hthread
  | wake hthread => exact h.beat hthread _

theorem sound_create : Sound nodes (.create nodes) := by
  constructor <;> simp [FailureDetector.create]

theorem sound_of_run {trace : List Event} (hrun : Run (system nodes) (fun _ => True) (system nodes).init trace s) :
    Sound nodes s :=
  hrun.invariant (C := fun _ => True) (I := fun _ s => Sound nodes s) (fun _ _ _ => trivial) sound_create
    (fun _ _ _ _ _ hsound _ _ hstep => hsound.step (Step.of_step hstep).1 (Step.of_step hstep).2) trivial

end

/-- The steps that the thread takes until it ends, once `running_` is off. -/
def Pc.left : Pc → Nat
  | .top => 1
  | .sweep _ => 3
  | .tested _ _ => 6
  | .pinging _ _ => 5
  | .marking _ _ _ => 4
  | .sleeping => 2
  | .ended => 0

/-- The pings that the thread still begins then. -/
def Pc.pings : Pc → Nat
  | .tested _ _ => 1
  | _ => 0

/-- The verdicts that it still gives. -/
def Pc.verdicts : Pc → Nat
  | .tested _ _ | .pinging _ _ | .marking _ _ _ => 1
  | _ => 0

def FailureDetector.left (s : FailureDetector) : Nat := s.thread_.elim 0 Pc.left
def FailureDetector.pings (s : FailureDetector) : Nat := s.thread_.elim 0 Pc.pings
def FailureDetector.verdicts (s : FailureDetector) : Nat := s.thread_.elim 0 Pc.verdicts

def NoStart : Label → Prop
  | .start => False
  | _ => True

def Label.isBeat : Label → Bool
  | .beat _ => true
  | _ => false

def Event.isVerdict : Event → Bool
  | .marked _ _ => true
  | _ => false

def Event.isPing : Event → Bool
  | .pinged _ => true
  | _ => false

abbrev Taken := Transition.Step FailureDetector Label Event

section

variable {nodes : List NodeAddress} {s s' : FailureDetector} {label : Label} {events : List Event}

/-- A step while `running_` is off and the owner does not start the thread. -/
theorem Step.winds_down (hstep : Step s label s' events) (hlabel : NoStart label) (hoff : s.running_ = false)
    (howner : s.owner ≠ .starting) :
    s'.running_ = false ∧ s'.owner ≠ .starting ∧ label.isBeat.toNat + s'.left = s.left ∧
      events.countP Event.isPing + s'.pings = s.pings ∧ events.countP Event.isVerdict + s'.verdicts = s.verdicts := by
  cases hstep with
  | start => exact absurd hlabel id
  | stop => exact ⟨rfl, by simp, by simp [Label.isBeat, FailureDetector.left], by simp [FailureDetector.pings],
      by simp [FailureDetector.verdicts]⟩
  | spawn howner' | terminate howner' => exact absurd howner' howner
  | join _ hthread =>
    refine ⟨hoff, by simp, ?_, ?_, ?_⟩
    · rcases hthread with hthread | hthread <;> simp [Label.isBeat, FailureDetector.left, hthread, Pc.left]
    · rcases hthread with hthread | hthread <;> simp [FailureDetector.pings, hthread, Pc.pings, Event.isPing]
    · rcases hthread with hthread | hthread <;>
        simp [FailureDetector.verdicts, hthread, Pc.verdicts, Event.isVerdict]
  | mark => exact ⟨hoff, howner, by simp [Label.isBeat, FailureDetector.left, FailureDetector.mark],
      by simp [FailureDetector.pings, FailureDetector.mark, Event.isPing],
      by simp [FailureDetector.verdicts, FailureDetector.mark, Event.isVerdict]⟩
  | enter _ hrunning | test _ hrunning => simp [hoff] at hrunning
  | leave hthread | sleep hthread | ping hthread | pong hthread | verdict hthread | wake hthread =>
    refine ⟨hoff, howner, ?_, ?_, ?_⟩
    · simp [Label.isBeat, FailureDetector.left, hthread, Pc.left]
    · simp [FailureDetector.pings, hthread, Pc.pings, Event.isPing]
    · simp [FailureDetector.verdicts, hthread, Pc.verdicts, Event.isVerdict]

theorem exists_heartbeat_loop {pc : Pc} (hpc : pc ≠ .ended) (up : Bool) :
    ∃ next, s.heartbeat_loop up pc = some next := by
  cases pc with
  | ended => exact absurd rfl hpc
  | sweep todo =>
    cases todo with
    | nil => exact ⟨_, rfl⟩
    | cons addr todo => cases hrunning : s.running_ <;> simp [FailureDetector.heartbeat_loop, hrunning]
  | top | tested | pinging | marking | sleeping => exact ⟨_, rfl⟩

/-- Where neither the owner nor the thread can go on, `stop` has returned. -/
theorem Sound.returned (h : Sound nodes s) (howner : s.owner ≠ .starting) (hblocked : s.step .owner = none)
    (hended : ∀ up, s.step (.beat up) = none) : s.owner = .idle := by
  cases hterminated : s.terminated with
  | true => exact absurd (h.terminated hterminated) howner
  | false =>
    cases hstate : s.owner with
    | idle => rfl
    | starting => exact absurd hstate howner
    | stopping =>
      -- The thread is gone or can take a step, so one of the two can go on.
      simp only [FailureDetector.step, hterminated, FailureDetector.owner_step, hstate] at hblocked
      have hthread : ¬ (s.thread_ = none ∨ s.thread_ = some .ended) := by
        intro hdone
        simp [hdone] at hblocked
      cases hpc : s.thread_ with
      | none => exact absurd (.inl hpc) hthread
      | some pc =>
        obtain ⟨next, hnext⟩ := @exists_heartbeat_loop s pc (fun heq => hthread (.inr (heq ▸ hpc))) true
        have hstuck := hended true
        simp [FailureDetector.step, hterminated, hpc, hnext] at hstuck

/-- `stop` returns. From any state in which it has switched `running_` off, and
    until `start` is called again: at most one ping is still begun, by a thread
    that is past its test, at most one outcome is written down, the heartbeat
    thread ends after at most six steps of its own, and where nothing can go on,
    `stop` has returned. -/
theorem stop_returns {trace : List Event} (hreach : Run (system nodes) (fun _ => True) (system nodes).init trace s)
    (hstop : s.owner = .stopping) {log : List Taken} {final : FailureDetector}
    (hrun : Run (system nodes).logged NoStart s log final) :
    log.countP (fun taken => taken.label.isBeat) ≤ 6 ∧
    (log.flatMap Transition.Step.events).countP Event.isPing ≤ 1 ∧
    (log.flatMap Transition.Step.events).countP Event.isVerdict ≤ 1 ∧
    (final.step .owner = none → (∀ up, final.step (.beat up) = none) → final.owner = .idle) := by
  have hsound := sound_of_run hreach
  have hinv : (Sound nodes final ∧ final.running_ = false ∧ final.owner ≠ .starting) ∧
      log.countP (fun taken => taken.label.isBeat) + final.left = s.left ∧
      (log.flatMap Transition.Step.events).countP Event.isPing + final.pings = s.pings ∧
      (log.flatMap Transition.Step.events).countP Event.isVerdict + final.verdicts = s.verdicts := by
    refine hrun.logged_invariant (G := fun _ => True) (I := fun log final =>
      (Sound nodes final ∧ final.running_ = false ∧ final.owner ≠ .starting) ∧
      log.countP (fun taken => taken.label.isBeat) + final.left = s.left ∧
      (log.flatMap Transition.Step.events).countP Event.isPing + final.pings = s.pings ∧
      (log.flatMap Transition.Step.events).countP Event.isVerdict + final.verdicts = s.verdicts) ?_ ?_
        fun _ _ => trivial
    · exact ⟨⟨hsound, hsound.stopping hstop, by simp [hstop]⟩, by simp, by simp, by simp⟩
    · rintro log state label next events ⟨⟨hsound, hoff, howner⟩, hbeats, hpings, hverdicts⟩ hlabel - hstep
      obtain ⟨hterminated, hstep⟩ := Step.of_step hstep
      obtain ⟨hoff', howner', hbeats', hpings', hverdicts'⟩ := hstep.winds_down hlabel hoff howner
      refine ⟨⟨hsound.step hterminated hstep, hoff', howner'⟩, ?_, ?_, ?_⟩
      · have hcount : (log ++ [(⟨state, label, events, next⟩ : Taken)]).countP (fun taken => taken.label.isBeat) =
            log.countP (fun taken => taken.label.isBeat) + label.isBeat.toNat := by
          cases hbeat : label.isBeat <;> simp [hbeat]
        omega
      · simp only [List.flatMap_append, List.flatMap_singleton, List.countP_append]
        omega
      · simp only [List.flatMap_append, List.flatMap_singleton, List.countP_append]
        omega
  obtain ⟨⟨hsound', _, howner⟩, hbeats, hpings, hverdicts⟩ := hinv
  have hleft : s.left ≤ 6 := by
    unfold FailureDetector.left
    cases s.thread_ with
    | none => simp
    | some pc => cases pc <;> simp [Pc.left]
  have hlast : s.pings ≤ 1 ∧ s.verdicts ≤ 1 := by
    unfold FailureDetector.pings FailureDetector.verdicts
    cases s.thread_ with
    | none => simp
    | some pc => cases pc <;> simp [Pc.pings, Pc.verdicts]
  exact ⟨by omega, by omega, by omega, fun hblocked hended => hsound'.returned howner hblocked hended⟩

/-- The detector is stopped after the test for the first of two nodes, which is
    still pinged. -/
theorem stop_returns_example :
    let nodes : List NodeAddress := [⟨ascii "a", 1⟩, ⟨ascii "b", 1⟩]
    ∃ trace s log final, Run (system nodes) (fun _ => True) (system nodes).init trace s ∧
      Run (system nodes).logged NoStart s log final ∧ s.owner = .stopping ∧
      log.flatMap Transition.Step.events =
        [.pinged (ascii "a:1"), .marked (ascii "a:1") true, .reported (ascii "b:1"), .stopped] ∧
      (log.flatMap Transition.Step.events).countP Event.isPing ≤ 1 := by
  intro nodes
  let check : FailureDetector → List Taken → FailureDetector → Bool := fun s log _ =>
    decide (s.owner = .stopping ∧
      log.flatMap Transition.Step.events =
        [.pinged (ascii "a:1"), .marked (ascii "a:1") true, .reported (ascii "b:1"), .stopped])
  obtain ⟨trace, s, log, final, hreach, hrun, hcheck⟩ : ∃ trace s log final,
      Run (system nodes) (fun _ => True) (system nodes).init trace s ∧ Run (system nodes).logged NoStart s log final ∧
        check s log final := by
    refine Run.exists_phases_of_exec [.start, .owner, .beat true, .beat true, .stop]
      [.beat true, .beat true, .beat true, .beat true, .mark_down (ascii "b:1"), .beat true, .beat true, .owner] check
      (fun _ _ => trivial) (by simp [NoStart]) ?_
    decide +kernel
  obtain ⟨hstop, hevents⟩ := of_decide_eq_true hcheck
  exact ⟨trace, s, log, final, hreach, hrun, hstop, hevents, (stop_returns hreach hstop hrun).2.1⟩

end

/-- What an event writes into the flags: the outcome of a ping, or that a thread has
    given up on the node. -/
def Event.flag (alive : Bytes → Option Bool) : Event → Bytes → Option Bool
  | .marked node_id up => Function.update alive node_id (some up)
  | .reported node_id => Function.update alive node_id (some false)
  | .started | .pinged _ | .stopped => alive

section

variable {nodes : List NodeAddress} {s s' : FailureDetector} {label : Label} {events trace : List Event}

theorem Step.alive (hstep : Step s label s' events) : s'.alive_ = events.foldl Event.flag s.alive_ := by
  cases hstep <;> rfl

/-- The flags are what the pings and the reports have written, in their order. -/
theorem alive_of_run (hrun : Run (system nodes) (fun _ => True) (system nodes).init trace s) :
    s.alive_ = trace.foldl Event.flag (FailureDetector.create nodes).alive_ := by
  refine hrun.invariant (C := fun _ => True)
    (I := fun trace s => s.alive_ = trace.foldl Event.flag (FailureDetector.create nodes).alive_)
    (fun _ _ _ => trivial) rfl ?_ trivial
  intro trace s label s' events halive _ _ hstep
  rw [(Step.of_step hstep).2.alive, halive, List.foldl_append]

/-- The last word on a node is what `is_alive` says of it. -/
theorem is_alive_of_last {node_id : Bytes} {up : Bool} {before after : List Event}
    (hrun : Run (system nodes) (fun _ => True) (system nodes).init (before ++ .marked node_id up :: after) s)
    (hafter : ∀ up, .marked node_id up ∉ after) (hreported : .reported node_id ∉ after) : s.is_alive node_id = up := by
  have hkept : ∀ (later : List Event) (alive : Bytes → Option Bool), (∀ up, .marked node_id up ∉ later) →
      .reported node_id ∉ later → later.foldl Event.flag alive node_id = alive node_id := by
    intro later
    induction later with
    | nil => exact fun _ _ _ => rfl
    | cons event later ih =>
      intro alive hmarked hreported
      have hrest := ih (event.flag alive) (fun up hmem => hmarked up (List.mem_cons_of_mem _ hmem))
        fun hmem => hreported (List.mem_cons_of_mem _ hmem)
      rw [List.foldl_cons, hrest]
      cases event with
      | marked other up =>
        have hne : node_id ≠ other := fun heq => hmarked up (heq ▸ List.mem_cons_self)
        exact Function.update_of_ne hne ..
      | reported other =>
        have hne : node_id ≠ other := fun heq => hreported (heq ▸ List.mem_cons_self)
        exact Function.update_of_ne hne ..
      | started | pinged | stopped => rfl
  have hflag : s.alive_ node_id = some up := by
    rw [alive_of_run hrun, List.foldl_append, List.foldl_cons, hkept after _ hafter hreported]
    exact Function.update_self ..
  rw [FailureDetector.is_alive, Liveness.is_alive, hflag]

end

/-- The nodes pinged, and those whose verdict was written down, since the thread
    was last started. -/
def pings : List Event → List Bytes :=
  List.foldl (fun ids event =>
    match event with
    | .started => []
    | .pinged id => ids ++ [id]
    | _ => ids) []

def verdicts : List Event → List Bytes :=
  List.foldl (fun ids event =>
    match event with
    | .started => []
    | .marked id _ => ids ++ [id]
    | _ => ids) []

section

variable (trace : List Event) (node_id : Bytes) (up : Bool)

@[simp] theorem pings_started : pings (trace ++ [.started]) = [] := by simp [pings]
@[simp] theorem pings_pinged : pings (trace ++ [.pinged node_id]) = pings trace ++ [node_id] := by simp [pings]
@[simp] theorem pings_marked : pings (trace ++ [.marked node_id up]) = pings trace := by simp [pings]
@[simp] theorem pings_stopped : pings (trace ++ [.stopped]) = pings trace := by simp [pings]
@[simp] theorem pings_reported : pings (trace ++ [.reported node_id]) = pings trace := by simp [pings]
@[simp] theorem verdicts_started : verdicts (trace ++ [.started]) = [] := by simp [verdicts]
@[simp] theorem verdicts_pinged : verdicts (trace ++ [.pinged node_id]) = verdicts trace := by simp [verdicts]
@[simp] theorem verdicts_marked : verdicts (trace ++ [.marked node_id up]) = verdicts trace ++ [node_id] := by
  simp [verdicts]
@[simp] theorem verdicts_stopped : verdicts (trace ++ [.stopped]) = verdicts trace := by simp [verdicts]
@[simp] theorem verdicts_reported : verdicts (trace ++ [.reported node_id]) = verdicts trace := by simp [verdicts]

end

/-- Some whole sweeps, and then the nodes `done`. -/
def Swept (nodes done : List NodeAddress) (ids : List Bytes) : Prop :=
  ∃ k, ids = (List.replicate k (nodes.map NodeAddress.id)).flatten ++ done.map NodeAddress.id

/-- How far the thread has come, by where it stands. A sweep is only left early
    while `running_` is off. -/
def Tours (nodes : List NodeAddress) (pinged marked : List Bytes) (running : Bool) : Pc → Prop
  | .top | .sleeping =>
    marked = pinged ∧ ∃ done todo, nodes = done ++ todo ∧ Swept nodes done pinged ∧
      (done = [] ∨ todo = [] ∨ running = false)
  | .sweep todo => marked = pinged ∧ ∃ done, nodes = done ++ todo ∧ Swept nodes done pinged
  | .tested addr todo => marked = pinged ∧ ∃ done, nodes = done ++ addr :: todo ∧ Swept nodes done pinged
  | .pinging addr todo | .marking addr _ todo =>
    pinged = marked ++ [addr.id] ∧ ∃ done, nodes = done ++ addr :: todo ∧ Swept nodes (done ++ [addr]) pinged
  | .ended => marked = pinged ∧ ∃ done todo, nodes = done ++ todo ∧ Swept nodes done pinged

section

variable {nodes : List NodeAddress} {s s' : FailureDetector} {label : Label} {events trace : List Event}

theorem swept_nil (nodes : List NodeAddress) : Swept nodes [] [] := ⟨0, rfl⟩

theorem Swept.whole {ids : List Bytes} (h : Swept nodes nodes ids) : Swept nodes [] ids := by
  obtain ⟨k, rfl⟩ := h
  exact ⟨k + 1, by simp [List.replicate_succ']⟩

theorem Swept.ping {done : List NodeAddress} {ids : List Bytes} (h : Swept nodes done ids) (addr : NodeAddress) :
    Swept nodes (done ++ [addr]) (ids ++ [addr.id]) := by
  obtain ⟨k, rfl⟩ := h
  exact ⟨k, by simp⟩

theorem Swept.isPrefix {done todo : List NodeAddress} {ids : List Bytes} (hnodes : nodes = done ++ todo)
    (h : Swept nodes done ids) : ∃ n, ids <+: (List.replicate n (nodes.map NodeAddress.id)).flatten := by
  obtain ⟨k, rfl⟩ := h
  refine ⟨k + 1, todo.map NodeAddress.id, ?_⟩
  rw [List.replicate_succ', List.flatten_append, List.append_assoc, ← List.map_append, ← hnodes]
  simp

/-- The tour of the thread, or of the last one that has ended. -/
def Touring (nodes : List NodeAddress) (trace : List Event) (s : FailureDetector) : Prop :=
  Tours nodes (pings trace) (verdicts trace) s.running_ (s.thread_.getD .ended)

theorem Tours.stop {pinged marked : List Bytes} {running : Bool} {pc : Pc} (h : Tours nodes pinged marked running pc) :
    Tours nodes pinged marked false pc := by
  cases pc with
  | top | sleeping =>
    obtain ⟨hmarked, done, todo, hnodes, hswept, _⟩ := h
    exact ⟨hmarked, done, todo, hnodes, hswept, .inr (.inr rfl)⟩
  | sweep | tested | pinging | marking | ended => exact h

theorem Touring.step (h : Touring nodes trace s) (hsound : Sound nodes s) (hstep : Step s label s' events) :
    Touring nodes (trace ++ events) s' := by
  unfold Touring at h ⊢
  cases hstep with
  | start hidle =>
    rw [List.append_nil]
    rcases hsound.idle hidle with hthread | hrunning
    · rw [hthread] at h ⊢
      exact h
    · rwa [hrunning] at h
  | stop => simpa using h.stop
  | spawn =>
    simp only [pings_started, verdicts_started]
    exact ⟨rfl, [], nodes, rfl, swept_nil nodes, .inl rfl⟩
  | terminate =>
    rw [List.append_nil]
    exact h
  | mark =>
    simp only [pings_reported, verdicts_reported]
    exact h
  | join _ hthread =>
    simp only [pings_stopped, verdicts_stopped]
    rcases hthread with hthread | hthread <;> simpa [hthread] using h
  | enter hthread hrunning =>
    rw [hthread] at h
    obtain ⟨hmarked, done, todo, hnodes, hswept, hcase⟩ := h
    rw [List.append_nil]
    refine ⟨hmarked, [], hsound.nodes.symm, ?_⟩
    rcases hcase with rfl | rfl | hoff
    · exact hswept
    · rw [List.append_nil] at hnodes
      rw [← hnodes] at hswept
      exact hswept.whole
    · simp [hrunning] at hoff
  | leave hthread =>
    rw [hthread] at h
    obtain ⟨hmarked, done, todo, hnodes, hswept, _⟩ := h
    rw [List.append_nil]
    exact ⟨hmarked, done, todo, hnodes, hswept⟩
  | sleep hthread htodo =>
    rw [hthread] at h
    obtain ⟨hmarked, done, hnodes, hswept⟩ := h
    rw [List.append_nil]
    exact ⟨hmarked, done, _, hnodes, hswept, .inr htodo⟩
  | test hthread =>
    rw [hthread] at h
    rw [List.append_nil]
    exact h
  | ping hthread =>
    rw [hthread] at h
    obtain ⟨hmarked, done, hnodes, hswept⟩ := h
    simp only [pings_pinged, verdicts_pinged]
    exact ⟨by rw [hmarked], done, hnodes, hswept.ping _⟩
  | pong hthread =>
    rw [hthread] at h
    rw [List.append_nil]
    exact h
  | verdict hthread =>
    rw [hthread] at h
    obtain ⟨hpinged, done, hnodes, hswept⟩ := h
    simp only [pings_marked, verdicts_marked]
    exact ⟨hpinged.symm, _, by simpa using hnodes, hswept⟩
  | wake hthread =>
    rw [hthread] at h
    rw [List.append_nil]
    exact h

/-- The heartbeat goes round the nodes. In every run, also where the detector is
    stopped and started again: since the last start the nodes have been pinged in
    the order in which they are configured, over and over with none left out, and
    every ping but perhaps the last has been written down. -/
theorem pings_round_robin (hrun : Run (system nodes) (fun _ => True) (system nodes).init trace s) :
    (∃ n, pings trace <+: (List.replicate n (nodes.map NodeAddress.id)).flatten) ∧
    (pings trace = verdicts trace ∨ ∃ id, pings trace = verdicts trace ++ [id]) := by
  have hinv : Sound nodes s ∧ Touring nodes trace s := by
    refine hrun.invariant (C := fun _ => True) (I := fun trace s => Sound nodes s ∧ Touring nodes trace s)
      (fun _ _ _ => trivial) ⟨sound_create, rfl, [], nodes, rfl, swept_nil nodes⟩ ?_ trivial
    rintro trace s label s' events ⟨hsound, htouring⟩ - - hstep
    obtain ⟨hterminated, hstep⟩ := Step.of_step hstep
    exact ⟨hsound.step hterminated hstep, htouring.step hsound hstep⟩
  have htours := hinv.2
  unfold Touring at htours
  cases hpc : s.thread_.getD .ended with
  | top | sleeping =>
    rw [hpc] at htours
    obtain ⟨hmarked, done, todo, hnodes, hswept, _⟩ := htours
    exact ⟨hswept.isPrefix hnodes, .inl hmarked.symm⟩
  | sweep todo =>
    rw [hpc] at htours
    obtain ⟨hmarked, done, hnodes, hswept⟩ := htours
    exact ⟨hswept.isPrefix hnodes, .inl hmarked.symm⟩
  | tested addr todo =>
    rw [hpc] at htours
    obtain ⟨hmarked, done, hnodes, hswept⟩ := htours
    exact ⟨hswept.isPrefix hnodes, .inl hmarked.symm⟩
  | pinging addr todo | marking addr up todo =>
    rw [hpc] at htours
    obtain ⟨hpinged, done, hnodes, hswept⟩ := htours
    have hsplit : nodes = (done ++ [addr]) ++ todo := by simpa using hnodes
    exact ⟨hswept.isPrefix hsplit, .inr ⟨addr.id, hpinged⟩⟩
  | ended =>
    rw [hpc] at htours
    obtain ⟨hmarked, done, todo, hnodes, hswept⟩ := htours
    exact ⟨hswept.isPrefix hnodes, .inl hmarked.symm⟩

/-- The detector is stopped in its second sweep, and started again. -/
theorem pings_round_robin_example :
    let nodes : List NodeAddress := [⟨ascii "a", 1⟩, ⟨ascii "b", 1⟩]
    let ping (id : String) (up : Bool) : List Event := [.pinged (ascii id), .marked (ascii id) up]
    ∃ final, Run (system nodes) (fun _ => True) (system nodes).init
        ([.started] ++ ping "a:1" true ++ ping "b:1" false ++ ping "a:1" true ++ [.stopped, .started] ++
          ping "a:1" true)
        final ∧
      ∃ n, pings ([.started] ++ ping "a:1" true ++ ping "b:1" false ++ ping "a:1" true ++ [.stopped, .started] ++
        ping "a:1" true) <+: (List.replicate n (nodes.map NodeAddress.id)).flatten := by
  intro nodes ping
  have hexec : ((system nodes).exec (system nodes).init
      ([Label.start, Label.owner] ++ List.replicate 7 (Label.beat true) ++ List.replicate 3 (Label.beat false) ++
        List.replicate 6 (Label.beat true) ++ [Label.stop] ++ List.replicate 3 (Label.beat true) ++
        [Label.owner, Label.start, Label.owner] ++ List.replicate 5 (Label.beat true))).map Prod.fst =
      some ([.started] ++ ping "a:1" true ++ ping "b:1" false ++ ping "a:1" true ++ [.stopped, .started] ++
        ping "a:1" true) := by decide +kernel
  obtain ⟨final, hrun⟩ := Run.exists_of_exec _ (fun _ _ => trivial) hexec
  exact ⟨final, hrun, (pings_round_robin hrun).1⟩

end

end kv.detector
