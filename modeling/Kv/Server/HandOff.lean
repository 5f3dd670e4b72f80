import Mathlib.Data.List.Nodup
import Mathlib.Data.List.Perm.Basic
import Mathlib.Data.List.Range
import Kv.Server.Reactor

namespace kv.server

open Transition

/-- The connections handed to a reactor, in the order of their hand-off. -/
def KvServer.enqueued (trace : List KvServer.Event) (w : Nat) : List Nat :=
  trace.filterMap fun event =>
    match event with
    | .enqueued w' fd => if w' = w then some fd else none
    | _ => none

/-- The connections a reactor has registered, in the order of registration. -/
def KvServer.registered (trace : List KvServer.Event) (w : Nat) : List Nat :=
  trace.filterMap fun event =>
    match event with
    | .registered w' fd => if w' = w then some fd else none
    | _ => none

namespace WorkerReactor

variable {reactor : WorkerReactor} {waking : Prop} {enqueued registered : List Nat} {closed : Nat → Prop}

theorem fds_eq_nil (hpc : ∀ fds, reactor.pc ≠ .registering fds) : reactor.fds = [] := by
  unfold fds
  split
  · rename_i hregistering
    exact absurd hregistering (hpc _)
  · rfl

/-- What holds of a reactor between its steps. A client that waits will be
    noticed: an enqueuer is about to write, or the pipe holds a byte, or the
    reactor has read the pipe empty and comes to its swap. Every client handed
    over is registered, about to be, or pending, once and in order; every
    registered client has its entry until it is closed. -/
structure Ok (waking : Prop) (enqueued registered : List Nat) (closed : Nat → Prop) (reactor : WorkerReactor) :
    Prop where
  awake : reactor.pending_clients_ ≠ [] → waking ∨ 0 < reactor.pipe ∨ reactor.pc = .drained ∨ reactor.pc = .accepting
  draining : reactor.pc = .draining → 0 < reactor.pipe
  queue : enqueued = registered ++ reactor.fds ++ reactor.pending_clients_
  polled : (reactor.poll_fds_.map PollFd.fd).Nodup
  table : ∀ fd, fd ∈ reactor.poll_fds_.map PollFd.fd ↔ fd ∈ registered ∧ ¬ closed fd

theorem Ok.mono {waking' : Prop} {closed' : Nat → Prop} (hok : Ok waking enqueued registered closed reactor)
    (hwaking : waking → waking') (hclosed : ∀ fd ∈ registered, closed' fd ↔ closed fd) :
    Ok waking' enqueued registered closed' reactor :=
  { hok with
    awake := fun hpending => (hok.awake hpending).imp_left hwaking
    table := fun fd => (hok.table fd).trans (and_congr_right fun hmem => not_congr (hclosed fd hmem).symm) }

/-- A reactor moves without touching its clients. -/
theorem Ok.move {waking' : Prop} {reactor' : WorkerReactor} (hok : Ok waking enqueued registered closed reactor)
    (hpending : reactor'.pending_clients_ = reactor.pending_clients_)
    (hpolled : reactor'.poll_fds_ = reactor.poll_fds_)
    (hfds : reactor'.fds = reactor.fds)
    (hawake : reactor'.pending_clients_ ≠ [] →
      waking' ∨ 0 < reactor'.pipe ∨ reactor'.pc = .drained ∨ reactor'.pc = .accepting)
    (hdraining : reactor'.pc = .draining → 0 < reactor'.pipe) : Ok waking' enqueued registered closed reactor' where
  awake := hawake
  draining := hdraining
  queue := by
    rw [hfds, hpending]
    exact hok.queue
  polled := by
    rw [hpolled]
    exact hok.polled
  table := by
    rw [hpolled]
    exact hok.table

/-- A reactor goes to another statement outside of the hand-off. -/
theorem Ok.goto (hok : Ok waking enqueued registered closed reactor) {pc : Pc}
    (hpc : reactor.pc ≠ .drained ∧ reactor.pc ≠ .accepting)
    (hfds : reactor.fds = []) (hpc' : pc ≠ .draining ∧ ∀ fds, pc ≠ .registering fds) :
    Ok waking enqueued registered closed { reactor with pc } := by
  have hnone : fds { reactor with pc } = [] := fds_eq_nil hpc'.2
  refine hok.move rfl rfl (hnone.trans hfds.symm) (fun hpending => ?_) fun hdraining => absurd hdraining hpc'.1
  rcases hok.awake hpending with hwaking | hpipe | hdrained | haccepting
  · exact .inl hwaking
  · exact .inr (.inl hpipe)
  · exact absurd hdrained hpc.1
  · exact absurd haccepting hpc.2

/-- The first of the clients taken from the queue is registered. It was handed
    over once, so it has not been registered before. -/
theorem Ok.register (hok : Ok waking enqueued registered closed reactor) (hnodup : enqueued.Nodup) {fd : Nat}
    {fds : List Nat}
    (hpc : reactor.pc = .registering (fd :: fds)) (hopen : ¬ closed fd) :
    Ok waking enqueued (registered ++ [fd]) closed
      { reactor with pc := .registering fds, poll_fds_ := reactor.poll_fds_ ++ [{ fd }] } := by
  have hqueue := hok.queue
  simp only [WorkerReactor.fds, hpc] at hqueue
  have hnew : fd ∉ registered := by
    rw [hqueue, List.append_assoc, List.nodup_append] at hnodup
    intro hmem
    exact hnodup.2.2 fd hmem fd (by simp) rfl
  have hpolled : fd ∉ reactor.poll_fds_.map PollFd.fd := fun hmem => hnew ((hok.table fd).mp hmem).1
  refine ⟨fun hpending => ?_, nofun, ?_, ?_, fun fd' => ?_⟩
  · simpa [hpc] using hok.awake hpending
  · rw [hqueue]
    simp [WorkerReactor.fds]
  · rw [List.map_append, List.map_singleton]
    exact hok.polled.append (List.nodup_singleton fd) (by simpa using hpolled)
  · simp only [List.map_append, List.map_singleton, List.mem_append, List.mem_singleton, hok.table fd', or_and_right]
    exact or_congr_right ⟨fun heq => ⟨heq, heq ▸ hopen⟩, And.left⟩

/-- The table holds every registered client that is open, once. -/
theorem Ok.table_perm [DecidablePred closed] (hok : Ok waking enqueued registered closed reactor)
    (hnodup : enqueued.Nodup) :
    (reactor.poll_fds_.map PollFd.fd).Perm (registered.filter fun fd => ¬ closed fd) := by
  have hregistered : registered.Nodup := by
    rw [hok.queue, List.append_assoc] at hnodup
    exact hnodup.of_append_left
  rw [List.perm_ext_iff_of_nodup hok.polled (hregistered.filter _)]
  intro fd
  rw [hok.table fd, List.mem_filter, decide_eq_true_eq]

/-- One statement of a reactor. -/
theorem Ok.step (hok : Ok waking enqueued registered closed reactor) (hnodup : enqueued.Nodup)
    (hopen : ∀ fd ∈ reactor.fds, ¬ closed fd) {reactor' : WorkerReactor} {fds : List Nat}
    (hstep : reactor.step = some (reactor', fds)) : Ok waking enqueued (registered ++ fds) closed reactor' := by
  unfold WorkerReactor.step at hstep
  cases hpc : reactor.pc with
  | polling => simp [hpc] at hstep
  | serving i again => simp [hpc] at hstep
  | draining =>
    simp only [hpc, Option.some.injEq, Prod.mk.injEq] at hstep
    obtain ⟨rfl, rfl⟩ := hstep
    rw [List.append_nil]
    -- The read that empties the pipe takes the bytes of clients still pending.
    by_cases hempty : reactor.drain_wakeup_pipe.pipe = 0
    · rw [if_pos hempty]
      exact hok.move rfl rfl (by simp [WorkerReactor.fds, hpc]) (fun _ => .inr (.inr (.inl rfl))) nofun
    · rw [if_neg hempty]
      have hmore := Nat.pos_of_ne_zero hempty
      exact hok.move rfl rfl (by simp [WorkerReactor.fds, hpc]) (fun _ => .inr (.inl hmore)) fun _ => hmore
  | drained =>
    simp only [hpc] at hstep
    split at hstep
    · obtain ⟨rfl, rfl⟩ := Prod.mk.inj (Option.some.inj hstep)
      rw [List.append_nil]
      exact hok.move rfl rfl (by simp [WorkerReactor.fds, hpc]) (fun _ => .inr (.inr (.inr rfl))) nofun
    · obtain ⟨rfl, rfl⟩ := Prod.mk.inj (Option.some.inj hstep)
      rw [List.append_nil]
      exact hok.move rfl rfl rfl (fun _ => .inr (.inr (.inl hpc))) fun hdraining => nomatch hpc.symm.trans hdraining
  | accepting =>
    have hqueue := hok.queue
    simp only [hpc, Option.some.injEq, Prod.mk.injEq, WorkerReactor.fds] at hstep hqueue
    obtain ⟨rfl, rfl⟩ := hstep
    exact ⟨by simp, nofun, by simpa [WorkerReactor.fds] using hqueue, hok.polled, by simpa using hok.table⟩
  | registering fds =>
    cases fds with
    | nil =>
      simp only [hpc, Option.some.injEq, Prod.mk.injEq] at hstep
      obtain ⟨rfl, rfl⟩ := hstep
      rw [List.append_nil]
      exact hok.goto (by simp [hpc]) (by simp [WorkerReactor.fds, hpc]) (by simp)
    | cons fd fds =>
      simp only [hpc, Option.some.injEq, Prod.mk.injEq] at hstep
      obtain ⟨rfl, rfl⟩ := hstep
      exact hok.register hnodup hpc (hopen fd (by simp [WorkerReactor.fds, hpc]))
  | scanning i =>
    simp only [hpc] at hstep
    have hfds : reactor.fds = [] := by simp [WorkerReactor.fds, hpc]
    cases hentry : reactor.poll_fds_[i]? with
    | none =>
      simp only [hentry, Option.some.injEq, Prod.mk.injEq] at hstep
      obtain ⟨rfl, rfl⟩ := hstep
      rw [List.append_nil]
      exact hok.goto (by simp [hpc]) hfds (by simp)
    | some entry =>
      simp only [hentry, Option.some.injEq, Prod.mk.injEq] at hstep
      obtain ⟨rfl, rfl⟩ := hstep
      rw [List.append_nil]
      exact hok.goto (by simp [hpc]) hfds (by split <;> simp)

theorem Ok.push (hok : Ok waking enqueued registered closed reactor) (fd : Nat) {waking' : Prop} (hwaking : waking') :
    Ok waking' (enqueued ++ [fd]) registered closed
      { reactor with pending_clients_ := reactor.pending_clients_ ++ [fd] } where
  awake _ := .inl hwaking
  draining := hok.draining
  queue := by
    rw [hok.queue, List.append_assoc]
    rfl
  polled := hok.polled
  table := hok.table

/-- After a write the pipe holds a byte, whether this one or another. -/
theorem Ok.wake (hok : Ok waking enqueued registered closed reactor) {capacity : Nat} (hcapacity : 1 ≤ capacity)
    {waking' : Prop} : Ok waking' enqueued registered closed (reactor.wake capacity) := by
  unfold WorkerReactor.wake
  split
  · exact hok.move rfl rfl rfl (fun _ => .inr (.inl (Nat.succ_pos _))) fun _ => Nat.succ_pos _
  · rename_i hfull
    have hpipe : 0 < reactor.pipe := by omega
    exact hok.move rfl rfl rfl (fun _ => .inr (.inl hpipe)) fun _ => hpipe

theorem Ok.poll (hok : Ok waking enqueued registered closed reactor) {ready : Nat → Bool} {reactor' : WorkerReactor}
    (hpoll : reactor.poll ready = some reactor') : Ok waking enqueued registered closed reactor' := by
  unfold WorkerReactor.poll at hpoll
  split at hpoll
  · rename_i hready
    obtain rfl := Option.some.inj hpoll
    have hfds : reactor.fds = [] := fds_eq_nil (by simp [hready.1])
    refine ⟨?_, ?_, ?_, ?_, ?_⟩
    · intro hpending
      have hawake := hok.awake hpending
      simp only [hready.1, reduceCtorEq, or_false] at hawake
      exact hawake.imp_right .inl
    · dsimp only
      split
      · rename_i hpipe
        exact fun _ => hpipe
      · simp
    · have hnone : fds { reactor with
          pc := if 0 < reactor.pipe then .draining else .scanning 0
          poll_fds_ := reactor.poll_fds_.map fun entry => { entry with revents := ready entry.fd } } = [] := by
        apply fds_eq_nil
        intro fds
        dsimp only
        split <;> simp
      rw [hnone, ← hfds]
      exact hok.queue
    · rw [List.map_map]
      exact hok.polled
    · rw [List.map_map]
      exact hok.table
  · simp at hpoll

/-- A reactor that serves a client is done with the hand-off. -/
theorem Ok.serving (hok : Ok waking enqueued registered closed reactor) {i : Nat} {again : Bool}
    (hpc : reactor.pc = .serving i again) {pc : Pc} (hpc' : pc ≠ .draining ∧ ∀ fds, pc ≠ .registering fds) :
    Ok waking enqueued registered closed { reactor with pc } :=
  hok.goto (by simp [hpc]) (fds_eq_nil (by simp [hpc])) hpc'

/-- The entry of a closed client is given up, and no other one. -/
theorem Ok.close_client (hok : Ok waking enqueued registered closed reactor) {fd i : Nat} {again : Bool}
    (hclient : reactor.client = some (fd, i, again)) :
    Ok waking enqueued registered (fun fd' => closed fd' ∨ fd' = fd) (reactor.close_client i) := by
  obtain ⟨hpc, entry, hentry, rfl⟩ := client_eq_some hclient
  have hgone : Ok waking enqueued registered closed { reactor with pc := .scanning i } := hok.serving hpc (by simp)
  have hperm := (List.perm_cons_swapRemove hentry).map PollFd.fd
  obtain ⟨hnew, hpolled⟩ := List.nodup_cons.mp (hperm.nodup_iff.mp hok.polled)
  refine { hgone with polled := hpolled, table := fun fd' => ?_ }
  have hmem : fd' ∈ reactor.poll_fds_.map PollFd.fd ↔
      fd' = entry.fd ∨ fd' ∈ (reactor.poll_fds_.swapRemove i).map PollFd.fd := by
    rw [hperm.mem_iff, List.map_cons, List.mem_cons]
  rw [hok.table fd'] at hmem
  by_cases heq : fd' = entry.fd
  · subst heq
    simpa [WorkerReactor.close_client] using hnew
  · simpa [WorkerReactor.close_client, heq] using hmem.symm

end WorkerReactor

namespace KvServer

theorem enqueued_append (trace events : List Event) (w : Nat) :
    enqueued (trace ++ events) w = enqueued trace w ++ enqueued events w := by
  simp [enqueued, List.filterMap_append]

theorem registered_append (trace events : List Event) (w : Nat) :
    registered (trace ++ events) w = registered trace w ++ registered events w := by
  simp [registered, List.filterMap_append]

@[simp] theorem enqueued_client (events : List server.Event) (w : Nat) : enqueued (events.map .client) w = [] := by
  simp [enqueued]

@[simp] theorem registered_client (events : List server.Event) (w : Nat) : registered (events.map .client) w = [] := by
  simp [registered]

/-- All connections handed over, to any reactor. -/
def handed (trace : List Event) : List Nat :=
  trace.filterMap fun event =>
    match event with
    | .enqueued _ fd => some fd
    | _ => none

theorem mem_enqueued_iff {trace : List Event} {w fd : Nat} : fd ∈ enqueued trace w ↔ .enqueued w fd ∈ trace := by
  simp only [enqueued, List.mem_filterMap]
  constructor
  · rintro ⟨event, hmem, hevent⟩
    cases event with
    | enqueued w' fd' =>
      obtain ⟨rfl, rfl⟩ : w' = w ∧ fd' = fd := by simpa using hevent
      exact hmem
    | client => simp at hevent
    | registered => simp at hevent
  · intro hmem
    exact ⟨_, hmem, by simp⟩

theorem enqueued_sublist_handed (trace : List Event) (w : Nat) : (enqueued trace w).Sublist (handed trace) := by
  induction trace with
  | nil => exact List.Sublist.slnil
  | cons event trace ih =>
    cases event with
    | enqueued w' fd =>
      by_cases heq : w' = w
      · simpa [enqueued, handed, heq] using ih.cons_cons fd
      · simpa [enqueued, handed, heq] using ih.cons fd
    | client => simpa [enqueued, handed] using ih
    | registered => simpa [enqueued, handed] using ih

/-- A connection handed over once has one reactor. -/
theorem enqueued_injective {trace : List Event} (hnodup : (handed trace).Nodup) {w w' fd : Nat}
    (hw : fd ∈ enqueued trace w) (hw' : fd ∈ enqueued trace w') : w = w' := by
  rw [mem_enqueued_iff] at hw hw'
  obtain ⟨before, after, rfl⟩ := List.append_of_mem hw
  simp only [handed, List.filterMap_append, List.filterMap_cons, List.nodup_append, List.nodup_cons] at hnodup
  obtain ⟨-, ⟨hlater, -⟩, hearlier⟩ := hnodup
  rcases List.mem_append.mp hw' with hmem | hmem
  · exact absurd rfl (hearlier fd (List.mem_filterMap.mpr ⟨_, hmem, rfl⟩) fd (by simp))
  · rcases List.mem_cons.mp hmem with heq | hmem
    · exact (Event.enqueued.inj heq).1.symm
    · exact (hlater (List.mem_filterMap.mpr ⟨_, hmem, rfl⟩)).elim

/-- The invariant of the hand-off. Connections are numbered as they are handed
    over, and only a reactor closes one, so that it has registered it before. -/
structure HandOff (trace : List Event) (s : KvServer) : Prop where
  reactors : ∀ w, (s.reactors w).Ok (∃ e, s.enqueuers e = some w) (enqueued trace w) (registered trace w) s.Closed
  numbered : handed trace = List.range s.accepted
  known : ∀ fd, s.Closed fd → ∃ w, fd ∈ registered trace w

variable {trace events : List Event} {s s' : KvServer}

theorem HandOff.nodup_handed (hhand : HandOff trace s) : (handed trace).Nodup := by
  rw [hhand.numbered]
  exact List.nodup_range

theorem HandOff.nodup_enqueued (hhand : HandOff trace s) (w : Nat) : (enqueued trace w).Nodup :=
  hhand.nodup_handed.sublist (enqueued_sublist_handed trace w)

theorem HandOff.registered_injective (hhand : HandOff trace s) {w w' fd : Nat} (hw : fd ∈ registered trace w)
    (hw' : fd ∈ registered trace w') : w = w' := by
  have henqueued {w : Nat} (hmem : fd ∈ registered trace w) : fd ∈ enqueued trace w := by
    rw [(hhand.reactors w).queue, List.append_assoc]
    exact List.mem_append_left _ hmem
  exact enqueued_injective hhand.nodup_handed (henqueued hw) (henqueued hw')

/-- A client that is not registered yet is not closed. -/
theorem HandOff.open_of_mem_fds (hhand : HandOff trace s) {w fd : Nat} (hfd : fd ∈ (s.reactors w).fds) :
    ¬ s.Closed fd := by
  intro hclosed
  obtain ⟨w', hw'⟩ := hhand.known fd hclosed
  have hqueue := (hhand.reactors w).queue
  have hw : fd ∈ enqueued trace w := by
    rw [hqueue]
    simp [hfd]
  have henqueued : fd ∈ enqueued trace w' := by
    rw [(hhand.reactors w').queue, List.append_assoc]
    exact List.mem_append_left _ hw'
  obtain rfl := enqueued_injective hhand.nodup_handed hw henqueued
  have hnodup := hhand.nodup_enqueued w
  rw [hqueue, List.append_assoc, List.nodup_append] at hnodup
  exact hnodup.2.2 fd hw' fd (List.mem_append_left _ hfd) rfl

/-- One reactor changes, and no other one hears of it. -/
theorem HandOff.update (hhand : HandOff trace s) {w : Nat} {reactor : WorkerReactor}
    (hreactors : s'.reactors = Function.update s.reactors w reactor)
    (hself : reactor.Ok (∃ e, s'.enqueuers e = some w) (enqueued (trace ++ events) w) (registered (trace ++ events) w)
      s'.Closed)
    (hothers : ∀ w', w' ≠ w → ((∃ e, s.enqueuers e = some w') → ∃ e, s'.enqueuers e = some w') ∧
      enqueued events w' = [] ∧ registered events w' = [])
    (hclosed : ∀ fd, s'.Closed fd ↔ s.Closed fd ∨ (fd ∈ registered trace w ∧ s'.Closed fd))
    (hnumbered : handed (trace ++ events) = List.range s'.accepted) : HandOff (trace ++ events) s' where
  reactors w' := by
    rw [hreactors]
    by_cases heq : w' = w
    · subst heq
      rwa [Function.update_self]
    · obtain ⟨hwaking, henqueued, hregistered⟩ := hothers w' heq
      rw [Function.update_of_ne heq, enqueued_append, registered_append, henqueued, hregistered, List.append_nil,
        List.append_nil]
      refine (hhand.reactors w').mono hwaking fun fd hmem => ?_
      rw [hclosed fd]
      exact or_iff_left fun hself => heq (hhand.registered_injective hmem hself.1)
  numbered := hnumbered
  known fd hfd := by
    simp only [registered_append, List.mem_append]
    rcases (hclosed fd).mp hfd with hold | ⟨hmem, -⟩
    · obtain ⟨w', hw'⟩ := hhand.known fd hold
      exact ⟨w', .inl hw'⟩
    · exact ⟨w, .inl hmem⟩

/-- A reactor moves without a hand-off. -/
theorem HandOff.of_reactor (hhand : HandOff trace s) {w : Nat} {reactor : WorkerReactor}
    (hreactors : s'.reactors = Function.update s.reactors w reactor) (henqueuers : s'.enqueuers = s.enqueuers)
    (haccepted : s'.accepted = s.accepted)
    (hself : reactor.Ok (∃ e, s.enqueuers e = some w) (enqueued trace w) (registered trace w) s'.Closed)
    (hclosed : ∀ fd, s'.Closed fd ↔ s.Closed fd ∨ (fd ∈ registered trace w ∧ s'.Closed fd))
    (hevents : ∃ clients : List server.Event, events = clients.map .client) : HandOff (trace ++ events) s' := by
  obtain ⟨clients, rfl⟩ := hevents
  refine hhand.update hreactors ?_ (fun w' _ => ?_) hclosed ?_
  · rwa [henqueuers, enqueued_append, registered_append, enqueued_client, registered_client, List.append_nil,
      List.append_nil]
  · exact ⟨henqueuers ▸ id, enqueued_client .., registered_client ..⟩
  · rw [handed, List.filterMap_append, ← handed, hhand.numbered, haccepted]
    simp

/-- A reactor serves one of its clients, or closes it. -/
theorem HandOff.serve (hhand : HandOff trace s) {w : Nat} {reactor : WorkerReactor} {label : server.Label}
    (hself : reactor.Ok (∃ e, s.enqueuers e = some w) (enqueued trace w) (registered trace w) fun fd =>
      s.Closed fd ∨ label = .hangup fd)
    (hlabel : ∀ fd, label = .hangup fd → fd ∈ registered trace w)
    (hserve : s.serve w reactor label = some (s', events)) : HandOff (trace ++ events) s' := by
  have hclosed := closed_iff_of_serve hserve
  obtain ⟨state, clients, -, rfl, rfl⟩ := serve_eq_some hserve
  refine hhand.of_reactor (by rfl) (by rfl) (by rfl) ?_ (fun fd => ?_) ⟨clients, rfl⟩
  · exact hself.mono id fun fd _ => hclosed fd
  · constructor
    · intro hfd
      exact ((hclosed fd).mp hfd).imp_right fun hhangup => ⟨hlabel fd hhangup, hfd⟩
    · rintro (hold | ⟨-, hfd⟩)
      · exact (hclosed fd).mpr (.inl hold)
      · exact hfd

/-- A client that is served stays open. -/
theorem HandOff.serve_open (hhand : HandOff trace s) {w : Nat} {reactor : WorkerReactor} {label : server.Label}
    (hself : reactor.Ok (∃ e, s.enqueuers e = some w) (enqueued trace w) (registered trace w) s.Closed)
    (hlabel : ∀ fd, label ≠ .hangup fd) (hserve : s.serve w reactor label = some (s', events)) :
    HandOff (trace ++ events) s' :=
  hhand.serve (hself.mono id fun fd _ => or_iff_left (hlabel fd)) (fun fd heq => absurd heq (hlabel fd)) hserve

/-- One step of the process. -/
theorem HandOff.keep {capacity : Nat} (hcapacity : 1 ≤ capacity) (hhand : HandOff trace s)
    (hmove : Move capacity s s' events) : HandOff (trace ++ events) s' := by
  have hsame {w fd : Nat} : s.Closed fd ↔ s.Closed fd ∨ (fd ∈ registered trace w ∧ s.Closed fd) :=
    ⟨.inl, fun h => h.elim id And.right⟩
  have hnone {w : Nat} {reactor : WorkerReactor}
      (hself : reactor.Ok (∃ e, s.enqueuers e = some w) (enqueued trace w) (registered trace w) s.Closed) :
      HandOff (trace ++ []) (s.setReactor w reactor) :=
    hhand.of_reactor (by rfl) (by rfl) (by rfl) hself (fun _ => hsame) ⟨[], rfl⟩
  cases hmove with
  | @enqueued e w hfree =>
    have hwaking : ∃ e', Function.update s.enqueuers e (some w) e' = some w := ⟨e, Function.update_self ..⟩
    refine hhand.update (by rfl) ?_ (fun w' hne => ⟨?_, by simp [enqueued, hne.symm], by simp [registered]⟩)
      (fun _ => hsame) ?_
    · have hnew : enqueued [.enqueued w s.accepted] w = [s.accepted] := by simp [enqueued]
      have hnone : registered [.enqueued w s.accepted] w = [] := by simp [registered]
      rw [enqueued_append, registered_append, hnew, hnone, List.append_nil]
      exact (hhand.reactors w).push s.accepted hwaking
    · rintro ⟨e', he'⟩
      have hne' : e' ≠ e := by
        rintro rfl
        simp [hfree] at he'
      exact ⟨e', by simpa [Function.update_of_ne hne'] using he'⟩
    · rw [handed, List.filterMap_append, ← handed, hhand.numbered, List.range_succ]
      rfl
  | @woken e w hwaking =>
    refine hhand.update (by rfl) ?_ (fun w' hne => ⟨?_, by simp [enqueued], by simp [registered]⟩) (fun _ => hsame) ?_
    · rw [List.append_nil]
      exact (hhand.reactors w).wake hcapacity
    · rintro ⟨e', he'⟩
      have hne' : e' ≠ e := by
        rintro rfl
        exact hne (Option.some.inj (he'.symm.trans hwaking))
      exact ⟨e', by simpa [Function.update_of_ne hne'] using he'⟩
    · rw [List.append_nil]
      exact hhand.numbered
  | @polled w _ _ hpoll => exact hnone ((hhand.reactors w).poll hpoll)
  | @stepped w reactor fds _ hstep =>
    have hregistered : registered (fds.map (.registered w)) w = fds := by simp [registered, List.filterMap_map]
    have hnone : enqueued (fds.map (.registered w)) w = [] := by simp [enqueued]
    refine hhand.update (by rfl) ?_ (fun w' hne => ⟨id, by simp [enqueued], by simp [registered, hne.symm]⟩)
      (fun _ => hsame) ?_
    · rw [enqueued_append, registered_append, hregistered, hnone, List.append_nil]
      exact (hhand.reactors w).step (hhand.nodup_enqueued w) (fun _ => hhand.open_of_mem_fds) hstep
    · rw [handed, List.filterMap_append, ← handed, hhand.numbered]
      simp [setReactor]
  | @left w _ _ _ hclient =>
    obtain ⟨hpc, -⟩ := WorkerReactor.client_eq_some hclient
    exact hnone ((hhand.reactors w).serving hpc (by simp))
  | @advanced w _ _ _ _ _ _ _ hserve => exact hhand.serve_open (hhand.reactors w) (fun _ => by simp) hserve
  | @received w _ _ _ _ _ hclient hserve =>
    obtain ⟨hpc, -⟩ := WorkerReactor.client_eq_some hclient
    exact hhand.serve_open ((hhand.reactors w).serving hpc (by simp)) (fun _ => by simp) hserve
  | @closed w fd _ _ _ hclient hserve =>
    obtain ⟨-, entry, hentry, hfd⟩ := WorkerReactor.client_eq_some hclient
    have hmem : fd ∈ (s.reactors w).poll_fds_.map PollFd.fd :=
      List.mem_map.mpr ⟨entry, List.mem_of_getElem? hentry, hfd⟩
    have hlabel (fd' : Nat) : server.Label.hangup fd = .hangup fd' ↔ fd' = fd := by
      rw [server.Label.hangup.injEq, eq_comm]
    refine hhand.serve ?_ (fun fd' heq => ?_) hserve
    · exact ((hhand.reactors w).close_client hclient).mono id fun fd' _ => or_congr_right (hlabel fd')
    · rw [(hlabel fd').mp heq]
      exact (((hhand.reactors w).table fd).mp hmem).1

theorem handOff_init : HandOff [] ({ store := {} } : KvServer) where
  reactors _ :=
    { awake := fun hpending => absurd rfl hpending
      draining := fun hdraining => nomatch hdraining
      queue := rfl
      polled := List.nodup_nil
      table := fun _ => ⟨fun hmem => (List.not_mem_nil hmem).elim, fun hmem => (List.not_mem_nil hmem.1).elim⟩ }
  numbered := rfl
  known _ hclosed := nomatch hclosed

theorem handOff_of_run {capacity : Nat} (hcapacity : 1 ≤ capacity)
    (hrun : Run (system capacity) (fun _ => True) (system capacity).init trace s) : HandOff trace s :=
  hrun.invariant (C := fun _ => True) (I := HandOff) (fun _ _ _ => trivial) handOff_init
    (fun _ _ _ _ _ hhand _ _ hstep => hhand.keep hcapacity (.of_step hstep)) trivial

/-- No connection is lost or doubled on its way to a reactor. Whenever clients
    wait and every byte for them is written, the reactor is on its way to them
    or its `poll` will report the pipe. What was handed to a reactor is
    registered there, about to be, or pending, in this order; nothing is there
    twice, at this reactor or at another one. Every registered connection has
    its entry in `poll_fds_` unless it has been closed, and nothing else has
    one. -/
theorem handoff_complete {capacity : Nat} (hcapacity : 1 ≤ capacity)
    (hrun : Run (system capacity) (fun _ => True) (system capacity).init trace s) (w : Nat) :
    ((s.reactors w).pending_clients_ ≠ [] → (∀ e, s.enqueuers e ≠ some w) →
      0 < (s.reactors w).pipe ∨ (s.reactors w).pc = .drained ∨ (s.reactors w).pc = .accepting) ∧
    enqueued trace w = registered trace w ++ (s.reactors w).fds ++ (s.reactors w).pending_clients_ ∧
    (enqueued trace w).Nodup ∧ (∀ w', w' ≠ w → (enqueued trace w).Disjoint (enqueued trace w')) ∧
    ((s.reactors w).poll_fds_.map PollFd.fd).Nodup ∧
    (∀ entry ∈ (s.reactors w).poll_fds_, entry.fd ∈ registered trace w) ∧
    ∀ fd ∈ registered trace w, (∃ entry ∈ (s.reactors w).poll_fds_, entry.fd = fd) ↔ ¬ s.Closed fd := by
  have hhand := handOff_of_run hcapacity hrun
  have hok := hhand.reactors w
  refine ⟨fun hpending hdone => ?_, hok.queue, hhand.nodup_enqueued w, fun w' hne fd hw hw' => ?_, hok.polled,
    fun entry hentry => ?_, fun fd hfd => ?_⟩
  · rcases hok.awake hpending with ⟨e, hwaking⟩ | hnoticed
    · exact absurd hwaking (hdone e)
    · exact hnoticed
  · exact hne (enqueued_injective hhand.nodup_handed hw' hw)
  · exact ((hok.table entry.fd).mp (List.mem_map_of_mem hentry)).1
  · rw [← List.mem_map, hok.table fd]
    exact and_iff_right hfd

/-- Two clients on a pipe of one byte, the second of which comes when the
    reactor is past its swap. -/
theorem handoff_complete_example : ∃ s, Run (system 1) (fun _ => True) (system 1).init
      [.enqueued 0 0, .enqueued 0 1, .registered 0 0] s ∧
    (s.reactors 0).fds ++ (s.reactors 0).pending_clients_ = [1] := by
  have hexists : ∃ s, Run (system 1) (fun _ => True) (system 1).init
      [.enqueued 0 0, .enqueued 0 1, .registered 0 0] s :=
    Run.exists_of_exec [.enqueue 0 0, .wake 0, .poll 0 fun _ => false, .step 0, .step 0, .step 0,
      .enqueue 1 0, .wake 1, .step 0] (fun _ _ => trivial) (by decide +kernel)
  obtain ⟨s, hrun⟩ := hexists
  have hqueue := (handoff_complete (by decide) hrun 0).2.1
  rw [List.append_assoc] at hqueue
  exact ⟨s, hrun, (List.cons.inj hqueue).2.symm⟩

end KvServer

end kv.server
