import Mathlib.Data.List.Nodup
import Kv.Reactor.Process

namespace kv.server

/-- The event with another name for its connection. -/
def Event.rename (f : Nat → Nat) : Event → Event
  | .received t data => .received (f t) data
  | .invoked t req => .invoked (f t) req
  | .executed t req => .executed (f t) req
  | .sent t bytes => .sent (f t) bytes

def KvServer.Event.rename (f : Nat → Nat) : KvServer.Event → KvServer.Event
  | .client event => .client (event.rename f)
  | .enqueued w fd => .enqueued w (f fd)
  | .registered w fd => .registered w (f fd)

/-- The number of a connection shows in the events of its steps, and nowhere else. -/
theorem Connection.step_rename {σ : Type} (handle_request : σ → protocol.Request → Bytes × σ) (f : Nat → Nat) (t : Nat)
    (self : Connection) (store : σ) :
    self.step handle_request (f t) store =
      (self.step handle_request t store).map fun (connection, store, events) =>
        (connection, store, events.map (Event.rename f)) := by
  have hstored (req : protocol.Request) (event : Event) :
      (storeEvent req event).map (Event.rename f) = storeEvent req (event.rename f) := by
    unfold storeEvent
    split <;> rfl
  unfold Connection.step
  cases self.pc with
  | reading => rfl
  | closed => rfl
  | draining =>
    rcases self.parser.try_parse_request self.req with ⟨status, req, parser⟩
    cases status with
    | Incomplete => rfl
    | Error => rfl
    | Complete => simp [hstored, Event.rename]
  | executing req => simp [hstored, Event.rename]
  | replying bytes => rfl

/-- The connections that a reactor watches, is about to register or has pending. -/
def WorkerReactor.live (self : WorkerReactor) : List Nat :=
  self.poll_fds_.map PollFd.fd ++ self.fds ++ self.pending_clients_

end kv.server

namespace kv.process

open kv.protocol kv.reactor Transition

/-- What the statement that a reactor is at says of the connection with a
    descriptor. -/
def Pc.Serves (pc : Pc) (fd : Nat) (connection : server.Connection) : Prop :=
  match pc with
  | .serving _ fd' _ pc req =>
    if fd' = fd then connection.pc = pc ∧ (pc ≠ .reading → connection.req = req) else connection.pc = .reading
  | _ => connection.pc = .reading

/-- The same statement, once over descriptors and once over connections. -/
inductive PcMatches (fdOf : Nat → Nat) (poll_fds : List server.PollFd) : Pc → server.WorkerReactor.Pc → Prop
  | polling : PcMatches fdOf poll_fds .polling .polling
  | draining : PcMatches fdOf poll_fds .draining .draining
  | drained : PcMatches fdOf poll_fds .drained .drained
  | accepting : PcMatches fdOf poll_fds .accepting .accepting
  | registering (fds : List Nat) : PcMatches fdOf poll_fds (.registering (fds.map fdOf)) (.registering fds)
  | scanning (i : Nat) : PcMatches fdOf poll_fds (.scanning (i + 1)) (.scanning i)
  | serving {i : Nat} {entry : server.PollFd} (hentry : poll_fds[i]? = some entry) (again : Bool) (pc : server.Pc)
      (req : Request) : PcMatches fdOf poll_fds (.serving (i + 1) (fdOf entry.fd) again pc req) (.serving i again)

/-- A reactor over descriptors does what a reactor over connections does, where
    `fdOf` is the descriptor that a connection was given. A descriptor has a parser
    exactly if a watched connection has it, and it is that connection's. -/
structure Matches (fdOf : Nat → Nat) (connections : Nat → server.Connection) (worker : Worker)
    (reactor : server.WorkerReactor) : Prop where
  pipe : worker.pipe = reactor.pipe
  table : ∃ first clients, worker.table.poll_fds_ = first :: clients ∧
    clients.map (fun entry => (entry.fd, entry.ready)) = reactor.poll_fds_.map fun entry =>
      (fdOf entry.fd, entry.revents)
  pending : worker.table.pending_clients_ = reactor.pending_clients_.map fdOf
  pc : PcMatches fdOf reactor.poll_fds_ worker.pc reactor.pc
  parsers : ∀ entry ∈ reactor.poll_fds_, worker.table.parsers_ (fdOf entry.fd) = some (connections entry.fd).parser
  absent : ∀ fd, (∀ entry ∈ reactor.poll_fds_, fdOf entry.fd ≠ fd) → worker.table.parsers_ fd = none
  service : ∀ entry ∈ reactor.poll_fds_, worker.pc.Serves (fdOf entry.fd) (connections entry.fd)
  waiting : ∀ n ∈ reactor.fds ++ reactor.pending_clients_, connections n = {}
  distinct : (reactor.live.map fdOf).Nodup

theorem PcMatches.congr {fdOf fdOf' : Nat → Nat} {poll_fds : List server.PollFd} {pc : Pc}
    {pc' : server.WorkerReactor.Pc}
    (h : PcMatches fdOf poll_fds pc pc') (hpolled : ∀ entry ∈ poll_fds, fdOf' entry.fd = fdOf entry.fd)
    (hfds : ∀ fds, pc' = .registering fds → fds.map fdOf' = fds.map fdOf) : PcMatches fdOf' poll_fds pc pc' := by
  cases h with
  | polling => exact .polling
  | draining => exact .draining
  | drained => exact .drained
  | accepting => exact .accepting
  | registering fds =>
    rw [← hfds fds rfl]
    exact .registering fds
  | scanning i => exact .scanning i
  | serving hentry again pc req =>
    rw [← hpolled _ (List.mem_of_getElem? hentry)]
    exact .serving hentry again pc req

section

variable {fdOf : Nat → Nat} {connections : Nat → server.Connection} {worker : Worker} {reactor : server.WorkerReactor}

theorem ready_fresh (fd : Nat) : ({ fd } : PollFd).ready = false := by
  simp [PollFd.ready]

theorem mem_live {entry : server.PollFd} (hentry : entry ∈ reactor.poll_fds_) : entry.fd ∈ reactor.live :=
  List.mem_append_left _ (List.mem_append_left _ (List.mem_map_of_mem hentry))

theorem fds_registering {fds : List Nat} (hpc : reactor.pc = .registering fds) : reactor.fds = fds := by
  rw [server.WorkerReactor.fds, hpc]

/-- Only the connections of the reactor matter, and the descriptors that they
    have. -/
theorem Matches.congr (h : Matches fdOf connections worker reactor) {fdOf' : Nat → Nat}
    {connections' : Nat → server.Connection}
    (hsame : ∀ n ∈ reactor.live, fdOf' n = fdOf n ∧ connections' n = connections n) :
    Matches fdOf' connections' worker reactor := by
  have hpolled (entry : server.PollFd) (hentry : entry ∈ reactor.poll_fds_) :
      fdOf' entry.fd = fdOf entry.fd ∧ connections' entry.fd = connections entry.fd :=
    hsame entry.fd (mem_live hentry)
  have hwaiting (n : Nat) (hn : n ∈ reactor.fds ++ reactor.pending_clients_) :
      fdOf' n = fdOf n ∧ connections' n = connections n := by
    refine hsame n ?_
    rw [server.WorkerReactor.live, List.append_assoc]
    exact List.mem_append_right _ hn
  refine ⟨h.pipe, ?_, ?_, ?_, ?_, ?_, ?_, ?_, ?_⟩
  · obtain ⟨first, clients, htable, hclients⟩ := h.table
    refine ⟨first, clients, htable, hclients.trans ?_⟩
    exact List.map_congr_left fun entry hentry => by rw [(hpolled entry hentry).1]
  · refine h.pending.trans (List.map_congr_left fun n hn => ?_)
    exact (hwaiting n (List.mem_append_right _ hn)).1.symm
  · refine h.pc.congr (fun entry hentry => (hpolled entry hentry).1) fun fds hfds => List.map_congr_left fun n hn => ?_
    exact (hwaiting n (List.mem_append_left _ (by rwa [fds_registering hfds]))).1
  · intro entry hentry
    rw [(hpolled entry hentry).1, (hpolled entry hentry).2]
    exact h.parsers entry hentry
  · intro fd hfd
    exact h.absent fd fun entry hentry => (hpolled entry hentry).1 ▸ hfd entry hentry
  · intro entry hentry
    rw [(hpolled entry hentry).1, (hpolled entry hentry).2]
    exact h.service entry hentry
  · intro n hn
    rw [(hwaiting n hn).2]
    exact h.waiting n hn
  · rw [List.map_congr_left fun n hn => (hsame n hn).1]
    exact h.distinct

/-- The entry at a place of the table, in both tables. -/
theorem Matches.getElem? (h : Matches fdOf connections worker reactor) (i : Nat) :
    (worker.table.poll_fds_[i + 1]?).map (fun entry => (entry.fd, entry.ready)) =
      (reactor.poll_fds_[i]?).map fun entry => (fdOf entry.fd, entry.revents) := by
  obtain ⟨first, clients, htable, hclients⟩ := h.table
  rw [htable, List.getElem?_cons_succ, ← List.getElem?_map, hclients, List.getElem?_map]

/-- Outside of `service_client` all connections of a reactor wait for a read. -/
theorem Matches.reading (h : Matches fdOf connections worker reactor)
    (hpc : ∀ i fd again pc req, worker.pc ≠ .serving i fd again pc req) {entry : server.PollFd}
    (hentry : entry ∈ reactor.poll_fds_) : (connections entry.fd).pc = .reading := by
  have hserves := h.service entry hentry
  unfold Pc.Serves at hserves
  split at hserves
  · rename_i hserving
    exact absurd hserving (hpc _ _ _ _ _)
  · exact hserves

/-- A statement that moves the reactor along, without any client. -/
theorem Matches.move (h : Matches fdOf connections worker reactor) {pc : Pc} {pc' : server.WorkerReactor.Pc}
    (pipe : Nat)
    (hpc : PcMatches fdOf reactor.poll_fds_ pc pc') (hfds : { reactor with pc := pc', pipe }.fds = reactor.fds)
    (hserves : ∀ entry ∈ reactor.poll_fds_, pc.Serves (fdOf entry.fd) (connections entry.fd)) :
    Matches fdOf connections { worker with pc, pipe } { reactor with pc := pc', pipe } where
  pipe := rfl
  table := h.table
  pending := h.pending
  pc := hpc
  parsers := h.parsers
  absent := h.absent
  service := hserves
  waiting := by
    rw [hfds]
    exact h.waiting
  distinct := by
    rw [server.WorkerReactor.live, hfds]
    exact h.distinct

/-- A connection that waits has no other's descriptor. -/
theorem Matches.ne_of_waiting (h : Matches fdOf connections worker reactor) {n : Nat}
    (hn : n ∈ reactor.fds ++ reactor.pending_clients_) {entry : server.PollFd} (hentry : entry ∈ reactor.poll_fds_) :
    fdOf entry.fd ≠ fdOf n := by
  have hdistinct := h.distinct
  rw [server.WorkerReactor.live, List.append_assoc, List.map_append, List.nodup_append] at hdistinct
  exact hdistinct.2.2 _ (List.mem_map_of_mem (List.mem_map_of_mem hentry)) _ (List.mem_map_of_mem hn)

/-- The swap of `pending_clients_`. -/
theorem Matches.accepting (h : Matches fdOf connections worker reactor) (hpc : reactor.pc = .accepting)
    (hreading : ∀ entry ∈ reactor.poll_fds_, (connections entry.fd).pc = .reading) :
    Matches fdOf connections
      { worker with
        pc := .registering worker.table.pending_clients_, table := { worker.table with pending_clients_ := [] } }
      { reactor with pc := .registering reactor.pending_clients_, pending_clients_ := [] } := by
  have hfds : reactor.fds = [] := by rw [server.WorkerReactor.fds, hpc]
  refine ⟨h.pipe, h.table, rfl, ?_, h.parsers, h.absent, hreading, ?_, ?_⟩
  · rw [h.pending]
    exact .registering _
  · have hwaiting := h.waiting
    rw [hfds] at hwaiting
    simpa [server.WorkerReactor.fds] using hwaiting
  · have hdistinct := h.distinct
    rw [server.WorkerReactor.live, hfds] at hdistinct
    simpa [server.WorkerReactor.live, server.WorkerReactor.fds] using hdistinct

/-- A registered descriptor gets a parser of its own, since none was left there. -/
theorem Matches.register (h : Matches fdOf connections worker reactor) {n : Nat} {ns : List Nat}
    (hpc : reactor.pc = .registering (n :: ns))
    (hreading : ∀ entry ∈ reactor.poll_fds_, (connections entry.fd).pc = .reading) :
    Matches fdOf connections
      { worker with pc := .registering (ns.map fdOf), table := worker.table.register (fdOf n) }
      { reactor with pc := .registering ns, poll_fds_ := reactor.poll_fds_ ++ [{ fd := n }] } := by
  have hfds : reactor.fds = n :: ns := fds_registering hpc
  have hnew : connections n = {} := h.waiting n (by simp [hfds])
  have hne (entry : server.PollFd) (hentry : entry ∈ reactor.poll_fds_) : fdOf entry.fd ≠ fdOf n :=
    h.ne_of_waiting (by simp [hfds]) hentry
  have hnone : worker.table.parsers_ (fdOf n) = none := h.absent _ hne
  refine ⟨h.pipe, ?_, h.pending, .registering ns, ?_, ?_, ?_, ?_, ?_⟩
  · obtain ⟨first, clients, htable, hclients⟩ := h.table
    refine ⟨first, clients ++ [{ fd := fdOf n }], by simp [htable], ?_⟩
    simp [hclients, ready_fresh]
  · intro entry hentry
    dsimp only
    rw [WorkerReactor.register_parsers]
    rcases List.mem_append.mp hentry with hold | hlast
    · rw [if_neg (hne entry hold)]
      exact h.parsers entry hold
    · obtain rfl := List.mem_singleton.mp hlast
      rw [if_pos rfl, hnone, hnew]
      rfl
  · intro fd hfd
    dsimp only at hfd ⊢
    rw [WorkerReactor.register_parsers, if_neg (Ne.symm (hfd { fd := n } (by simp)))]
    exact h.absent fd fun entry hentry => hfd entry (List.mem_append_left _ hentry)
  · intro entry hentry
    rcases List.mem_append.mp hentry with hold | hlast
    · exact hreading entry hold
    · obtain rfl := List.mem_singleton.mp hlast
      change (connections n).pc = .reading
      rw [hnew]
  · intro m hm
    refine h.waiting m ?_
    rw [hfds]
    exact List.mem_cons_of_mem n hm
  · have hdistinct := h.distinct
    rw [server.WorkerReactor.live, hfds] at hdistinct
    simpa [server.WorkerReactor.live, server.WorkerReactor.fds] using hdistinct

/-- A statement outside of `service_client`. -/
theorem Matches.step (h : Matches fdOf connections worker reactor) {worker' : Worker} {fds : List Nat}
    (hstep : worker.step = some (worker', fds)) :
    ∃ reactor' ns, reactor.client = none ∧ reactor.step = some (reactor', ns) ∧ fds = ns.map fdOf ∧
      Matches fdOf connections worker' reactor' ∧ reactor'.live = reactor.live := by
  obtain ⟨table, pc, pipe⟩ := worker
  obtain ⟨pc', pipe', pending, polled⟩ := reactor
  obtain rfl : pipe = pipe' := h.pipe
  have hpc : PcMatches fdOf polled pc pc' := h.pc
  have hreading (hidle : ∀ i fd again spc req, pc ≠ .serving i fd again spc req) :
      ∀ entry ∈ polled, (connections entry.fd).pc = .reading := fun entry hentry => h.reading hidle hentry
  cases hpc with
  | polling => simp [Worker.step] at hstep
  | draining =>
    obtain ⟨rfl, rfl⟩ := Prod.mk.inj (Option.some.inj hstep)
    refine ⟨_, [], rfl, rfl, rfl, ?_⟩
    by_cases hempty : pipe - min server.WorkerReactor.kDrainSize pipe = 0
    · simp only [Worker.drain_wakeup_pipe, server.WorkerReactor.drain_wakeup_pipe, hempty, ↓reduceIte]
      exact ⟨h.move _ .drained rfl (hreading (by simp)), rfl⟩
    · simp only [Worker.drain_wakeup_pipe, server.WorkerReactor.drain_wakeup_pipe, hempty, ↓reduceIte]
      exact ⟨h.move _ .draining rfl (hreading (by simp)), rfl⟩
  | drained =>
    by_cases hempty : pipe = 0
    · simp only [Worker.step, hempty, ↓reduceIte, Option.some.injEq, Prod.mk.injEq] at hstep
      obtain ⟨rfl, rfl⟩ := hstep
      refine ⟨⟨.accepting, 0, pending, polled⟩, [], rfl, by simp [server.WorkerReactor.step, hempty], rfl, ?_, rfl⟩
      exact h.move 0 .accepting rfl (hreading (by simp))
    · simp only [Worker.step, hempty, ↓reduceIte, Option.some.injEq, Prod.mk.injEq] at hstep
      obtain ⟨rfl, rfl⟩ := hstep
      refine ⟨server.WorkerReactor.drain_wakeup_pipe ⟨.drained, pipe, pending, polled⟩, [], rfl,
        by simp only [server.WorkerReactor.step, hempty, ↓reduceIte], rfl, ?_, rfl⟩
      exact h.move _ .drained rfl (hreading (by simp))
  | accepting =>
    obtain ⟨rfl, rfl⟩ := Prod.mk.inj (Option.some.inj hstep)
    refine ⟨_, [], rfl, rfl, rfl, h.accepting rfl (hreading (by simp)), ?_⟩
    simp [server.WorkerReactor.live, server.WorkerReactor.fds]
  | registering ns =>
    cases ns with
    | nil =>
      obtain ⟨rfl, rfl⟩ := Prod.mk.inj (Option.some.inj hstep)
      refine ⟨_, [], rfl, rfl, rfl, ?_, rfl⟩
      exact h.move pipe (.scanning 0) rfl (hreading (by simp))
    | cons n ns =>
      obtain ⟨rfl, rfl⟩ := Prod.mk.inj (Option.some.inj hstep)
      refine ⟨_, [n], rfl, rfl, rfl, h.register rfl (hreading (by simp)), ?_⟩
      simp [server.WorkerReactor.live, server.WorkerReactor.fds]
  | scanning i =>
    have hsame := h.getElem? i
    dsimp only at hsame
    cases hentry : polled[i]? with
    | none =>
      rw [hentry, Option.map_none, Option.map_eq_none_iff] at hsame
      simp only [Worker.step, hsame, Option.some.injEq, Prod.mk.injEq] at hstep
      obtain ⟨rfl, rfl⟩ := hstep
      refine ⟨⟨.polling, pipe, pending, polled⟩, [], rfl, by simp only [server.WorkerReactor.step, hentry],
        rfl, ?_, rfl⟩
      exact h.move pipe .polling rfl (hreading (by simp))
    | some entry =>
      rw [hentry, Option.map_some, Option.map_eq_some_iff] at hsame
      obtain ⟨watched, hwatched, hsame⟩ := hsame
      obtain ⟨hfd, hready⟩ := Prod.mk.inj hsame
      simp only [Worker.step, hwatched, Option.some.injEq, Prod.mk.injEq] at hstep
      obtain ⟨rfl, rfl⟩ := hstep
      refine ⟨⟨if entry.revents then .serving i true else .scanning (i + 1), pipe, pending, polled⟩, [], rfl,
        by simp only [server.WorkerReactor.step, hentry], rfl, ?_⟩
      rw [hready, hfd]
      cases entry.revents with
      | false => exact ⟨h.move pipe (.scanning (i + 1)) rfl (hreading (by simp)), rfl⟩
      | true =>
        refine ⟨h.move pipe (.serving hentry true .reading _) rfl fun other hother => ?_, rfl⟩
        have hidle := hreading (by simp) other hother
        simp [Pc.Serves, hidle]
  | serving hentry again pc req => simp [Worker.step] at hstep

/-- What `poll` fills in, and where the reactor goes on. -/
theorem Worker.poll_eq_some {revents : Nat → UInt16} {worker' : Worker} (hpoll : worker.poll revents = some worker') :
    ∃ pipe clients, worker.pc = .polling ∧ (∃ first, worker.table.poll_fds_ = first :: clients) ∧
      (0 < worker.pipe ∨ ∃ entry ∈ clients, ({ entry with revents := revents entry.fd } : PollFd).ready) ∧
      worker' = { worker with
        pc := if 0 < worker.pipe then .draining else .scanning 1
        table := { worker.table with
          poll_fds_ := pipe :: clients.map fun entry => { entry with revents := revents entry.fd } } } := by
  unfold Worker.poll at hpoll
  split at hpoll
  · rename_i first clients hpc htable
    dsimp only at hpoll
    rw [Option.ite_none_right_eq_some] at hpoll
    obtain ⟨hreport, hpoll⟩ := hpoll
    refine ⟨{ first with revents := if 0 < worker.pipe then POLLIN else 0 }, clients, hpc, ⟨first, htable⟩,
      by simpa using hreport, ?_⟩
    rw [← Option.some.inj hpoll]
    by_cases hbytes : 0 < worker.pipe
    · simp [hbytes, POLLIN]
    · simp [hbytes]
  · simp at hpoll

/-- A return of `poll`. -/
theorem Matches.poll (h : Matches fdOf connections worker reactor) {revents : Nat → UInt16} {worker' : Worker}
    (hpoll : worker.poll revents = some worker') :
    ∃ ready reactor', reactor.poll ready = some reactor' ∧ Matches fdOf connections worker' reactor' ∧
      reactor'.live = reactor.live := by
  obtain ⟨table, pc, pipe⟩ := worker
  obtain ⟨pc', pipe', pending, polled⟩ := reactor
  obtain rfl : pipe = pipe' := h.pipe
  have hpc : PcMatches fdOf polled pc pc' := h.pc
  obtain ⟨first, clients, htable, hclients⟩ := h.table
  obtain ⟨pipe_entry, clients', rfl, ⟨first', htable'⟩, hreport, rfl⟩ := Worker.poll_eq_some hpoll
  obtain ⟨rfl, rfl⟩ := List.cons.inj (htable.symm.trans htable')
  cases hpc
  have hreading (entry : server.PollFd) (hentry : entry ∈ polled) : (connections entry.fd).pc = .reading :=
    h.reading (by simp) hentry
  -- What the descriptors of the table have to report, and so the connections.
  let ready (fd : Nat) : Bool := ({ fd, revents := revents fd } : PollFd).ready
  have hfds : clients.map PollFd.fd = polled.map fun entry => fdOf entry.fd := by
    simpa [Function.comp_def] using congrArg (List.map Prod.fst) hclients
  have hreported : 0 < pipe ∨ ∃ entry ∈ polled, ready (fdOf entry.fd) := by
    refine hreport.imp id ?_
    rintro ⟨entry, hentry, hready⟩
    have hmem : entry.fd ∈ polled.map fun entry => fdOf entry.fd := hfds ▸ List.mem_map_of_mem hentry
    obtain ⟨entry', hentry', hfd⟩ := List.mem_map.mp hmem
    exact ⟨entry', hentry', by rw [hfd]; exact hready⟩
  -- The tables after the call, and the statement after it.
  let polled' := polled.map fun entry => ({ entry with revents := ready (fdOf entry.fd) } : server.PollFd)
  let pc' : server.WorkerReactor.Pc := if 0 < pipe then .draining else .scanning 0
  have hnext : PcMatches fdOf polled' (if 0 < pipe then .draining else .scanning 1) pc' := by
    by_cases hbytes : 0 < pipe
    · simpa only [pc', hbytes, ↓reduceIte] using .draining
    · simpa only [pc', hbytes, ↓reduceIte] using .scanning 0
  have hidle (entry : server.PollFd) (hentry : entry ∈ polled) :
      (if 0 < pipe then .draining else .scanning 1 : Pc).Serves (fdOf entry.fd) (connections entry.fd) := by
    split <;> exact hreading entry hentry
  have hwaiting : (⟨pc', pipe, pending, polled'⟩ : server.WorkerReactor).fds = [] := by
    unfold server.WorkerReactor.fds
    by_cases hbytes : 0 < pipe <;> simp [pc', hbytes]
  have hnumbers : polled'.map server.PollFd.fd = polled.map server.PollFd.fd := by
    simp [polled', Function.comp_def]
  have hlive : (⟨pc', pipe, pending, polled'⟩ : server.WorkerReactor).live =
      (⟨.polling, pipe, pending, polled⟩ : server.WorkerReactor).live := by
    simp only [server.WorkerReactor.live, hwaiting, hnumbers]
    rfl
  refine ⟨fun n => ready (fdOf n), ⟨pc', pipe, pending, polled'⟩, if_pos ⟨rfl, hreported⟩, ?_, hlive⟩
  refine ⟨rfl, ⟨pipe_entry, _, rfl, ?_⟩, h.pending, hnext, ?_, ?_, ?_, ?_, ?_⟩
  · have hboth := congrArg (List.map fun fd => (fd, ready fd)) hfds
    simpa [polled', ready, Function.comp_def] using hboth
  · intro entry hentry
    obtain ⟨old, hold, rfl⟩ := List.mem_map.mp hentry
    exact h.parsers old hold
  · intro fd hfd
    refine h.absent fd fun entry hentry => ?_
    exact hfd { entry with revents := ready (fdOf entry.fd) } (List.mem_map_of_mem hentry)
  · intro entry hentry
    obtain ⟨old, hold, rfl⟩ := List.mem_map.mp hentry
    exact hidle old hold
  · rw [hwaiting]
    exact h.waiting
  · rw [hlive]
    exact h.distinct

theorem Matches.eq_of_fdOf (h : Matches fdOf connections worker reactor) {entry other : server.PollFd}
    (hentry : entry ∈ reactor.poll_fds_) (hother : other ∈ reactor.poll_fds_) (hfd : fdOf entry.fd = fdOf other.fd) :
    entry.fd = other.fd :=
  List.inj_on_of_nodup_map h.distinct (mem_live hentry) (mem_live hother) hfd

/-- The connection that is served is where its reactor is, and all others of this
    reactor wait for a read. -/
theorem Matches.of_serving (h : Matches fdOf connections worker reactor) {j fd : Nat} {again : Bool} {pc : server.Pc}
    {req : Request} (hpc : worker.pc = .serving j fd again pc req) :
    ∃ i entry, j = i + 1 ∧ fd = fdOf entry.fd ∧ reactor.pc = .serving i again ∧ reactor.poll_fds_[i]? = some entry ∧
      ((connections entry.fd).pc = pc ∧ (pc ≠ .reading → (connections entry.fd).req = req)) ∧
      ∀ other ∈ reactor.poll_fds_, other.fd ≠ entry.fd → (connections other.fd).pc = .reading := by
  have hsame := h.pc
  generalize hpc' : reactor.pc = pc' at hsame
  rw [hpc] at hsame
  cases hsame with
  | serving hentry =>
    rename_i i entry
    have hserves (other : server.PollFd) (hother : other ∈ reactor.poll_fds_) := h.service other hother
    simp only [Pc.Serves, hpc] at hserves
    have hserved := hserves entry (List.mem_of_getElem? hentry)
    rw [if_pos rfl] at hserved
    refine ⟨i, entry, rfl, rfl, rfl, hentry, hserved, ?_⟩
    intro other hother hne
    have hidle := hserves other hother
    rwa [if_neg fun heq => hne (h.eq_of_fdOf hother (List.mem_of_getElem? hentry) heq.symm)] at hidle

theorem fds_serving {i : Nat} {again : Bool} (hpc : reactor.pc = .serving i again) : reactor.fds = [] := by
  rw [server.WorkerReactor.fds, hpc]

/-- A step of the connection that is served. -/
theorem Matches.serve (h : Matches fdOf connections worker reactor) {i : Nat} {entry : server.PollFd} {again : Bool}
    (hpc : reactor.pc = .serving i again) (hentry : reactor.poll_fds_[i]? = some entry)
    (hothers : ∀ other ∈ reactor.poll_fds_, other.fd ≠ entry.fd → (connections other.fd).pc = .reading)
    (again' : Bool) (connection : server.Connection) :
    Matches fdOf (Function.update connections entry.fd connection)
      { worker with
        table := { worker.table with
          parsers_ := Function.update worker.table.parsers_ (fdOf entry.fd) (some connection.parser) }
        pc := .serving (i + 1) (fdOf entry.fd) again' connection.pc connection.req }
      { reactor with pc := .serving i again' } := by
  have hfds := fds_serving hpc
  have hserved := List.mem_of_getElem? hentry
  have hsame {other : server.PollFd} (hother : other ∈ reactor.poll_fds_) :
      fdOf other.fd = fdOf entry.fd ↔ other.fd = entry.fd :=
    ⟨h.eq_of_fdOf hother hserved, congrArg fdOf⟩
  refine ⟨h.pipe, h.table, h.pending, .serving hentry again' _ _, ?_, ?_, ?_, ?_, ?_⟩
  · intro other hother
    dsimp only at hother ⊢
    by_cases hfd : other.fd = entry.fd
    · rw [hfd, Function.update_self, Function.update_self]
    · rw [Function.update_of_ne hfd, Function.update_of_ne (fun heq => hfd ((hsame hother).mp heq))]
      exact h.parsers other hother
  · intro fd hfd
    dsimp only
    rw [Function.update_of_ne (Ne.symm (hfd entry hserved))]
    exact h.absent fd hfd
  · intro other hother
    dsimp only [Pc.Serves] at hother ⊢
    by_cases hfd : other.fd = entry.fd
    · rw [hfd, if_pos rfl, Function.update_self]
      exact ⟨rfl, fun _ => rfl⟩
    · rw [if_neg (fun heq => hfd ((hsame hother).mp heq.symm)), Function.update_of_ne hfd]
      exact hothers other hother hfd
  · intro n hn
    have hpending : n ∈ reactor.fds ++ reactor.pending_clients_ := List.mem_append_right _ hn
    rw [Function.update_of_ne fun heq : n = entry.fd => h.ne_of_waiting hpending hserved (congrArg fdOf heq.symm)]
    exact h.waiting n hpending
  · have hdistinct := h.distinct
    rw [server.WorkerReactor.live, hfds] at hdistinct
    exact hdistinct

/-- `service_client` returns and leaves the connection open. -/
theorem Matches.leave (h : Matches fdOf connections worker reactor) {i : Nat} {entry : server.PollFd} {again : Bool}
    (hpc : reactor.pc = .serving i again) (hreading : (connections entry.fd).pc = .reading)
    (hothers : ∀ other ∈ reactor.poll_fds_, other.fd ≠ entry.fd → (connections other.fd).pc = .reading) :
    Matches fdOf connections { worker with pc := .scanning (i + 1 + 1) } { reactor with pc := .scanning (i + 1) } := by
  have hpipe : ({ worker with pc := .scanning (i + 1 + 1) } : Worker) =
      { worker with pc := .scanning (i + 1 + 1), pipe := reactor.pipe } := by rw [← h.pipe]
  rw [hpipe]
  refine h.move reactor.pipe (.scanning (i + 1)) (fds_serving hpc).symm fun other hother => ?_
  by_cases hfd : other.fd = entry.fd
  · rw [hfd]
    exact hreading
  · exact hothers other hother hfd

/-- The table without the connection that is closed. -/
theorem Matches.close (h : Matches fdOf connections worker reactor) {i : Nat} {entry : server.PollFd} {again : Bool}
    (hpc : reactor.pc = .serving i again) (hentry : reactor.poll_fds_[i]? = some entry)
    (hothers : ∀ other ∈ reactor.poll_fds_, other.fd ≠ entry.fd → (connections other.fd).pc = .reading)
    (connection : server.Connection) :
    reactor.live.Perm (entry.fd :: (reactor.close_client i).live) ∧
    Matches fdOf (Function.update connections entry.fd connection)
      { worker with table := worker.table.close_client (i + 1), pc := .scanning (i + 1) }
      (reactor.close_client i) := by
  have hperm := List.perm_cons_swapRemove hentry
  have hpolled : (reactor.close_client i).poll_fds_ = reactor.poll_fds_.swapRemove i := rfl
  have hlive : reactor.live.Perm (entry.fd :: (reactor.close_client i).live) := by
    have hnumbers := hperm.map server.PollFd.fd
    rw [server.WorkerReactor.live, fds_serving hpc, server.WorkerReactor.live, hpolled]
    exact (hnumbers.append_right []).append_right reactor.pending_clients_
  -- No other connection of the reactor has the descriptor that is closed.
  have hgone : fdOf entry.fd ∉ (reactor.close_client i).live.map fdOf ∧
      ((reactor.close_client i).live.map fdOf).Nodup :=
    List.nodup_cons.mp ((hlive.map fdOf).nodup_iff.mp h.distinct)
  have hkept {other : server.PollFd} (hother : other ∈ (reactor.close_client i).poll_fds_) :
      other ∈ reactor.poll_fds_ ∧ fdOf other.fd ≠ fdOf entry.fd := by
    refine ⟨hperm.symm.subset (List.mem_cons_of_mem _ (hpolled ▸ hother)), fun heq => hgone.1 ?_⟩
    rw [← heq]
    exact List.mem_map_of_mem (mem_live hother)
  obtain ⟨first, clients, htable, hclients⟩ := h.table
  obtain ⟨watched, hwatched, hfd⟩ : ∃ watched, worker.table.poll_fds_[i + 1]? = some watched ∧
      watched.fd = fdOf entry.fd := by
    have hsame := h.getElem? i
    rw [hentry, Option.map_some, Option.map_eq_some_iff] at hsame
    obtain ⟨watched, hwatched, hsame⟩ := hsame
    exact ⟨watched, hwatched, congrArg Prod.fst hsame⟩
  have hne : clients ≠ [] := by
    rintro rfl
    simp [htable] at hwatched
  have hclosed : worker.table.close_client (i + 1) = { worker.table with
      parsers_ := worker.table.parsers_.erase (fdOf entry.fd), poll_fds_ := first :: clients.swapRemove i } := by
    rw [WorkerReactor.close_client, hwatched, ← hfd, htable, List.swapRemove_cons_succ first hne]
  rw [hclosed]
  refine ⟨hlive, h.pipe, ⟨first, _, rfl, ?_⟩, h.pending, .scanning i, ?_, ?_, ?_, ?_, hgone.2⟩
  · rw [List.map_swapRemove, hclients, ← List.map_swapRemove, hpolled]
  · intro other hother
    obtain ⟨hmem, hdiffers⟩ := hkept hother
    dsimp only [Parsers.erase]
    rw [Function.update_of_ne hdiffers, Function.update_of_ne fun heq => hdiffers (congrArg fdOf heq)]
    exact h.parsers other hmem
  · intro fd hfd
    dsimp only [Parsers.erase]
    by_cases heq : fd = fdOf entry.fd
    · rw [heq, Function.update_self]
    · rw [Function.update_of_ne heq]
      refine h.absent fd fun other hother => ?_
      rcases List.mem_cons.mp (hperm.subset hother) with rfl | hrest
      · exact Ne.symm heq
      · exact hfd other (hpolled ▸ hrest)
  · intro other hother
    obtain ⟨hmem, hdiffers⟩ := hkept hother
    have hnumber : other.fd ≠ entry.fd := fun heq => hdiffers (congrArg fdOf heq)
    rw [Function.update_of_ne hnumber]
    exact hothers other hmem hnumber
  · intro n hn
    have hpending : n ∈ reactor.fds ++ reactor.pending_clients_ := List.mem_append_right _ hn
    rw [Function.update_of_ne fun heq : n = entry.fd =>
      h.ne_of_waiting hpending (List.mem_of_getElem? hentry) (congrArg fdOf heq.symm)]
    exact h.waiting n hpending

theorem live_enqueue (n : Nat) :
    { reactor with pending_clients_ := reactor.pending_clients_ ++ [n] }.live = reactor.live ++ [n] := by
  simp [server.WorkerReactor.live, server.WorkerReactor.fds]

/-- A connection is pushed to `pending_clients_`. -/
theorem Matches.enqueue (h : Matches fdOf connections worker reactor) {n : Nat} (hnew : fdOf n ∉ reactor.live.map fdOf)
    (hfresh : connections n = {}) :
    Matches fdOf connections { worker with table := worker.table.enqueue_client (fdOf n) }
      { reactor with pending_clients_ := reactor.pending_clients_ ++ [n] } := by
  refine ⟨h.pipe, h.table, ?_, h.pc, h.parsers, h.absent, h.service, ?_, ?_⟩
  · simp [WorkerReactor.enqueue_client, h.pending]
  · intro m hm
    rw [← List.append_assoc] at hm
    rcases List.mem_append.mp hm with hold | hlast
    · exact h.waiting m hold
    · obtain rfl := List.mem_singleton.mp hlast
      exact hfresh
  · rw [live_enqueue, List.map_append]
    exact h.distinct.append (List.nodup_singleton _) (by simpa using hnew)

end

end kv.process
