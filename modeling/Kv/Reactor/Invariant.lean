import Mathlib.Data.List.Nodup
import Kv.Reactor.System

open Incremental

namespace kv.reactor

open kv.protocol Transition

/-- The reads of the connection that has this descriptor now, with what each of
    them was parsed to. -/
def session (trace : List Event) (fd : Nat) : List (Bytes × List ParseResult) :=
  trace.foldl (fun reads event =>
    match event with
    | .accepted fd' => if fd' = fd then [] else reads
    | .read fd' data results => if fd' = fd then reads ++ [(data, results)] else reads
    | _ => reads) []

section

variable (trace : List Event) (fd fd' : Nat)

@[simp] theorem session_accepted :
    session (trace ++ [.accepted fd']) fd = if fd' = fd then [] else session trace fd := by
  simp [session, List.foldl_append]

@[simp] theorem session_read (data : Bytes) (results : List ParseResult) :
    session (trace ++ [.read fd' data results]) fd =
      if fd' = fd then session trace fd ++ [(data, results)] else session trace fd := by
  simp [session, List.foldl_append]

@[simp] theorem session_registered (parser : Option IncrementalParser) :
    session (trace ++ [.registered fd' parser]) fd = session trace fd := by
  simp [session, List.foldl_append]

@[simp] theorem session_closed : session (trace ++ [.closed fd']) fd = session trace fd := by
  simp [session, List.foldl_append]

end

/-- The descriptors in `poll_fds_[1..]`. -/
def WorkerReactor.clients (self : WorkerReactor) : List Nat := self.poll_fds_.tail.map PollFd.fd

/-- What holds between the statements of a reactor. A descriptor that is watched,
    about to be registered or pending is an open client, and is only one of
    these; those that are watched are the ones with a parser, and a parser holds
    what is left of its own connection's bytes. -/
structure Ok (pipe : Nat) (trace : List Event) (s : State) : Prop where
  exception : s.exception = none
  pipe : s.worker.poll_fds_.head?.map PollFd.fd = some pipe
  distinct : (s.worker.clients ++ s.fds ++ s.worker.pending_clients_).Nodup
  owned : ∀ fd ∈ s.worker.clients ++ s.fds ++ s.worker.pending_clients_, s.kernel fd = .client
  keys : ∀ fd, (s.worker.parsers_ fd).isSome ↔ fd ∈ s.worker.clients
  fresh : ∀ fd ∈ s.fds ++ s.worker.pending_clients_, session trace fd = []
  own_bytes : ∀ fd parser, s.worker.parsers_ fd = some parser →
    Feeds requestFormat.decode [] ((session trace fd).map Prod.fst) ((session trace fd).flatMap Prod.snd)
      parser.buffer_
  registered : ∀ fd parser, .registered fd parser ∈ trace → parser = some {}

variable {pipe : Nat} {trace : List Event} {s : State}

theorem ok_init (wakeup_read_fd wakeup_write_fd : Nat) :
    Ok wakeup_read_fd [] (system wakeup_read_fd wakeup_write_fd).init where
  exception := rfl
  pipe := rfl
  distinct := .nil
  owned := by simp [system, WorkerReactor.create, WorkerReactor.clients]
  keys := by simp [system, WorkerReactor.create, WorkerReactor.clients]
  fresh := by simp [session]
  own_bytes := by simp [system, WorkerReactor.create]
  registered := by simp

/-- A number that is not a client's is none of the reactor's. -/
theorem Ok.not_mem (hok : Ok pipe trace s) {fd : Nat} (hfd : s.kernel fd ≠ .client) :
    fd ∉ s.worker.clients ++ s.fds ++ s.worker.pending_clients_ :=
  fun hmem => hfd (hok.owned fd hmem)

theorem Ok.accepted (hok : Ok pipe trace s) {fd : Nat} (hfree : s.kernel fd = .free) :
    Ok pipe (trace ++ [.accepted fd]) { s.setOwner fd .client with worker := s.worker.enqueue_client fd } := by
  have hnew : fd ∉ s.worker.clients ++ s.fds ++ s.worker.pending_clients_ := hok.not_mem (by simp [hfree])
  have hclients : (s.worker.enqueue_client fd).clients = s.worker.clients := rfl
  have hpending : (s.worker.enqueue_client fd).pending_clients_ = s.worker.pending_clients_ ++ [fd] := rfl
  have hother {fd' : Nat} (hmem : fd' ∈ s.worker.clients ++ s.fds ++ s.worker.pending_clients_) : fd ≠ fd' :=
    fun heq => hnew (heq ▸ hmem)
  refine ⟨hok.exception, hok.pipe, ?_, fun fd' hmem => ?_, hok.keys, fun fd' hmem => ?_, fun fd' parser hparser => ?_,
    fun fd' parser hmem => hok.registered fd' parser (by simpa using hmem)⟩
  · rw [hclients, hpending, ← List.append_assoc]
    exact hok.distinct.append (List.nodup_singleton fd) (by simpa using hnew)
  · rw [hclients, hpending, ← List.append_assoc] at hmem
    rcases List.mem_append.mp hmem with hold | hlast
    · simpa [State.setOwner, Function.update_of_ne (hother hold).symm] using hok.owned fd' hold
    · simp [State.setOwner, List.mem_singleton.mp hlast]
  · rw [hpending, ← List.append_assoc] at hmem
    rcases List.mem_append.mp hmem with hold | hlast
    · rw [session_accepted, if_neg (hother (by rw [List.append_assoc]; exact List.mem_append_right _ hold)),
        hok.fresh fd' hold]
    · rw [session_accepted, if_pos (List.mem_singleton.mp hlast).symm]
  · have hclient : fd' ∈ s.worker.clients :=
      (hok.keys fd').mp (by simp [show s.worker.parsers_ fd' = some parser from hparser])
    rw [session_accepted, if_neg (hother (List.mem_append_left _ (List.mem_append_left _ hclient)))]
    exact hok.own_bytes fd' parser hparser

/-- The rest of the process opens and closes numbers that are no client's. -/
theorem Ok.setOwner (hok : Ok pipe trace s) {fd : Nat} (hfd : s.kernel fd ≠ .client) (owner : Owner) :
    Ok pipe trace (s.setOwner fd owner) := by
  refine { hok with owned := fun fd' hmem => ?_ }
  have hne : fd' ≠ fd := fun heq => hok.not_mem hfd (heq ▸ hmem)
  simpa [State.setOwner, Function.update_of_ne hne] using hok.owned fd' hmem

theorem Ok.poll (hok : Ok pipe trace s) (revents : Nat → UInt16) :
    Ok pipe trace { s with
      worker := { s.worker with
        poll_fds_ := s.worker.poll_fds_.map fun entry => { entry with revents := revents entry.fd } } } := by
  have hclients : WorkerReactor.clients { s.worker with
      poll_fds_ := s.worker.poll_fds_.map fun entry => { entry with revents := revents entry.fd } } =
        s.worker.clients := by
    simp [WorkerReactor.clients, ← List.map_tail, Function.comp_def]
  refine { hok with pipe := ?_, distinct := ?_, owned := ?_, keys := ?_ }
  · rw [← hok.pipe, List.head?_map, Option.map_map]
    rfl
  · rw [hclients]
    exact hok.distinct
  · rw [hclients]
    exact hok.owned
  · rw [hclients]
    exact hok.keys

theorem Ok.swap (hok : Ok pipe trace s) (hfds : s.fds = []) :
    Ok pipe trace { s with
      worker := { s.worker with pending_clients_ := [] }, fds := s.worker.pending_clients_ } := by
  have hsame : s.worker.clients ++ s.fds ++ s.worker.pending_clients_ =
      s.worker.clients ++ s.worker.pending_clients_ ++ [] := by simp [hfds]
  refine { hok with distinct := ?_, owned := ?_, fresh := ?_ }
  · exact hsame ▸ hok.distinct
  · exact hsame ▸ hok.owned
  · simpa [hfds] using hok.fresh

theorem Ok.exists_table (hok : Ok pipe trace s) :
    ∃ entry entries, s.worker.poll_fds_ = entry :: entries ∧ entry.fd = pipe ∧
      s.worker.clients = entries.map PollFd.fd := by
  have hpipe := hok.pipe
  unfold WorkerReactor.clients
  cases htable : s.worker.poll_fds_ with
  | nil => simp [htable] at hpipe
  | cons entry entries => exact ⟨entry, entries, rfl, by simpa [htable] using hpipe, rfl⟩

/-- A watched descriptor is watched once, and is not waiting to be. -/
theorem Ok.distinct_clients (hok : Ok pipe trace s) : s.worker.clients.Nodup ∧
    ∀ fd ∈ s.worker.clients, ∀ other ∈ s.fds ++ s.worker.pending_clients_, fd ≠ other := by
  have hdistinct := hok.distinct
  rw [List.append_assoc, List.nodup_append] at hdistinct
  exact ⟨hdistinct.1, hdistinct.2.2⟩

/-- The number of a new client has no parser left from an earlier one. -/
theorem Ok.register (hok : Ok pipe trace s) {fd : Nat} {fds : List Nat} (hfds : s.fds = fd :: fds) :
    Ok pipe (trace ++ [.registered fd ((s.worker.register fd).parsers_ fd)])
      { s with worker := s.worker.register fd, fds } := by
  obtain ⟨entry, entries, htable, hentry, hclients⟩ := hok.exists_table
  have hclients' : (s.worker.register fd).clients = s.worker.clients ++ [fd] := by
    simp [WorkerReactor.clients, htable]
  have hsame : s.worker.clients ++ s.fds ++ s.worker.pending_clients_ =
      (s.worker.register fd).clients ++ fds ++ s.worker.pending_clients_ := by simp [hfds, hclients']
  have hnew : fd ∉ s.worker.clients := fun hmem => hok.distinct_clients.2 fd hmem fd (by simp [hfds]) rfl
  have hnone : s.worker.parsers_ fd = none := by
    rw [← Option.not_isSome_iff_eq_none, hok.keys]
    exact hnew
  refine ⟨hok.exception, ?_, hsame ▸ hok.distinct, hsame ▸ hok.owned, fun fd' => ?_, fun fd' hmem => ?_,
    fun fd' parser hparser => ?_, fun fd' parser hmem => ?_⟩
  · simpa [htable] using hentry
  · dsimp only
    rw [WorkerReactor.register_parsers, hclients', List.mem_append, List.mem_singleton, ← hok.keys fd']
    by_cases hfd : fd' = fd <;> simp [hfd]
  · rw [session_registered]
    exact hok.fresh fd' (by rw [hfds]; exact List.mem_cons_of_mem _ hmem)
  · dsimp only at hparser
    rw [WorkerReactor.register_parsers] at hparser
    rw [session_registered]
    by_cases hfd : fd' = fd
    · subst hfd
      have hempty : session trace fd' = [] := hok.fresh fd' (by simp [hfds])
      simp only [if_true, hnone, Option.getD_none, Option.some.injEq] at hparser
      rw [hempty, ← hparser]
      exact .nil
    · rw [if_neg hfd] at hparser
      exact hok.own_bytes fd' parser hparser
  · rcases List.mem_append.mp hmem with hold | hlast
    · exact hok.registered fd' parser hold
    · obtain ⟨-, rfl⟩ : fd' = fd ∧ parser = (s.worker.register fd).parsers_ fd := by simpa using hlast
      simp [hnone]

theorem Ok.mem_clients (hok : Ok pipe trace s) {i : Nat} {entry : PollFd}
    (hentry : s.worker.poll_fds_[i]? = some entry)
    (hi : i ≠ 0) : entry.fd ∈ s.worker.clients := by
  obtain ⟨first, entries, htable, -, hclients⟩ := hok.exists_table
  obtain ⟨i, rfl⟩ := Nat.exists_eq_succ_of_ne_zero hi
  rw [htable, List.getElem?_cons_succ] at hentry
  rw [hclients]
  exact List.mem_map_of_mem (List.mem_of_getElem? hentry)

/-- A read goes to the parser of its own connection. -/
theorem Ok.read (hok : Ok pipe trace s) {i : Nat} {entry : PollFd} {data : Bytes} {s' : State} {events : List Event}
    (hentry : s.worker.poll_fds_[i]? = some entry) (hi : i ≠ 0) (hread : s.read entry.fd data = some (s', events)) :
    Ok pipe (trace ++ events) s' := by
  have hclient := hok.mem_clients hentry hi
  obtain ⟨parser, hparser⟩ := Option.isSome_iff_exists.mp ((hok.keys entry.fd).mpr hclient)
  unfold State.read at hread
  rw [hparser] at hread
  dsimp only at hread
  split at hread
  · simp at hread
  · rename_i results parser' hdrain
    obtain ⟨rfl, rfl⟩ := Prod.mk.inj (Option.some.inj hread)
    have hdrains : Drains requestFormat.decode (parser.buffer_ ++ data) results parser'.buffer_ :=
      IncrementalParser.drains_of_drain hdrain
    refine ⟨hok.exception, hok.pipe, hok.distinct, hok.owned, fun fd => ?_, fun fd hmem => ?_, fun fd held hheld => ?_,
      fun fd held hmem => hok.registered fd held (by simpa using hmem)⟩
    · change (Function.update s.worker.parsers_ entry.fd (some parser') fd).isSome ↔ fd ∈ s.worker.clients
      by_cases hfd : fd = entry.fd
      · subst hfd
        simpa using hclient
      · simpa [Function.update_of_ne hfd] using hok.keys fd
    · rw [session_read, if_neg (hok.distinct_clients.2 entry.fd hclient fd hmem)]
      exact hok.fresh fd hmem
    · by_cases hfd : fd = entry.fd
      · subst hfd
        simp only [Function.update_self, Option.some.injEq] at hheld
        subst hheld
        rw [session_read, if_pos rfl, List.map_append, List.flatMap_append]
        simpa using (hok.own_bytes entry.fd parser hparser).snoc hdrains
      · rw [session_read, if_neg (Ne.symm hfd)]
        exact hok.own_bytes fd held (by simpa [Function.update_of_ne hfd] using hheld)

/-- Closing a client takes it, and only it, out of the table. -/
theorem Ok.exists_close (hok : Ok pipe trace s) {i : Nat} {entry : PollFd}
    (hentry : s.worker.poll_fds_[i]? = some entry)
    (hi : i ≠ 0) :
    ∃ others, s.worker.clients.Perm (entry.fd :: others) ∧ (s.worker.close_client i).clients.Perm others ∧
      (s.worker.close_client i).poll_fds_.head?.map PollFd.fd = some pipe ∧
      (s.worker.close_client i).parsers_ = s.worker.parsers_.erase entry.fd := by
  obtain ⟨first, entries, htable, hpipe, hclients⟩ := hok.exists_table
  obtain ⟨i, rfl⟩ := Nat.exists_eq_succ_of_ne_zero hi
  have hget : entries[i]? = some entry := by simpa [htable] using hentry
  obtain ⟨done, todo, rfl, rfl⟩ := List.exists_eq_append_cons_of_getElem? hget
  obtain ⟨rest, hswap, hperm⟩ := List.exists_swapRemove_append_cons (first :: done) entry todo
  have hclosed : s.worker.close_client (done.length + 1) = { s.worker with
      parsers_ := s.worker.parsers_.erase entry.fd, poll_fds_ := first :: done ++ rest } := by
    rw [WorkerReactor.close_client, hentry, htable, ← hswap]
    rfl
  refine ⟨done.map PollFd.fd ++ rest.map PollFd.fd, ?_, ?_, ?_, ?_⟩
  · rw [hclients, List.map_append, List.map_cons]
    exact List.perm_middle.trans (((hperm.map PollFd.fd).symm.append_left _).cons _)
  · rw [hclosed]
    simp [WorkerReactor.clients]
  · rw [hclosed]
    simpa using hpipe
  · rw [hclosed]

theorem Ok.close (hok : Ok pipe trace s) {i : Nat} {entry : PollFd} (hentry : s.worker.poll_fds_[i]? = some entry)
    (hi : i ≠ 0) :
    Ok pipe (trace ++ [.closed entry.fd])
      { s.setOwner entry.fd .free with worker := s.worker.close_client i } := by
  obtain ⟨others, hbefore, hafter, hpipe, hparsers⟩ := hok.exists_close hentry hi
  have hpending : (s.worker.close_client i).pending_clients_ = s.worker.pending_clients_ := by
    rw [WorkerReactor.close_client, hentry]
  have hall : (s.worker.clients ++ s.fds ++ s.worker.pending_clients_).Perm
      (entry.fd :: ((s.worker.close_client i).clients ++ s.fds ++ s.worker.pending_clients_)) :=
    ((hbefore.trans (hafter.symm.cons _)).append_right _).append_right _
  have hdistinct := hall.nodup_iff.mp hok.distinct
  have hother {fd : Nat} (hmem : fd ∈ (s.worker.close_client i).clients ++ s.fds ++ s.worker.pending_clients_) :
      fd ≠ entry.fd := fun heq => (List.nodup_cons.mp hdistinct).1 (heq ▸ hmem)
  refine ⟨hok.exception, hpipe, ?_, fun fd hmem => ?_, fun fd => ?_, fun fd hmem => ?_, fun fd parser hparser => ?_,
    fun fd parser hmem => hok.registered fd parser (by simpa using hmem)⟩
  · rw [hpending]
    exact hdistinct.of_cons
  · rw [hpending] at hmem
    have hold := hall.symm.subset (List.mem_cons_of_mem _ hmem)
    simpa [State.setOwner, Function.update_of_ne (hother hmem)] using hok.owned fd hold
  · dsimp only
    rw [hparsers, Parsers.erase]
    by_cases hfd : fd = entry.fd
    · subst hfd
      simpa using fun hmem => hother (List.mem_append_left _ (List.mem_append_left _ hmem)) rfl
    · rw [Function.update_of_ne hfd, hok.keys fd, hbefore.mem_iff, hafter.mem_iff, List.mem_cons, or_iff_right hfd]
  · rw [hpending] at hmem
    rw [session_closed]
    exact hok.fresh fd hmem
  · dsimp only at hparser
    rw [hparsers, Parsers.erase] at hparser
    rw [session_closed]
    have hfd : fd ≠ entry.fd := by
      rintro rfl
      simp at hparser
    exact hok.own_bytes fd parser (by rwa [Function.update_of_ne hfd] at hparser)

theorem Ok.step (hok : Ok pipe trace s) {label : Label} {s' : State} {events : List Event}
    (hstep : reactor.step s label = some (s', events)) : Ok pipe (trace ++ events) s' := by
  unfold reactor.step at hstep
  rw [if_neg (by simp [hok.exception])] at hstep
  cases label with
  | accepted fd =>
    dsimp only at hstep
    split at hstep
    · rename_i hfree
      obtain ⟨rfl, rfl⟩ := Prod.mk.inj (Option.some.inj hstep)
      exact hok.accepted hfree
    · simp at hstep
  | opened fd =>
    dsimp only at hstep
    split at hstep
    · rename_i hfree
      obtain ⟨rfl, rfl⟩ := Prod.mk.inj (Option.some.inj hstep)
      simpa using hok.setOwner (by simp [hfree]) .other
    · simp at hstep
  | closed fd =>
    dsimp only at hstep
    split at hstep
    · rename_i hopen
      obtain ⟨rfl, rfl⟩ := Prod.mk.inj (Option.some.inj hstep)
      simpa using hok.setOwner (by simp [hopen]) .free
    · simp at hstep
  | poll revents =>
    obtain ⟨rfl, rfl⟩ := Prod.mk.inj (Option.some.inj hstep)
    simpa using hok.poll revents
  | swap =>
    dsimp only at hstep
    split at hstep
    · rename_i hfds
      obtain ⟨rfl, rfl⟩ := Prod.mk.inj (Option.some.inj hstep)
      simpa using hok.swap hfds
    · simp at hstep
  | register =>
    dsimp only at hstep
    split at hstep
    · simp at hstep
    · rename_i fd fds hfds
      obtain ⟨rfl, rfl⟩ := Prod.mk.inj (Option.some.inj hstep)
      exact hok.register hfds
  | read i data =>
    dsimp only at hstep
    split at hstep
    · simp at hstep
    · rename_i entry hentry
      split at hstep
      · rename_i hguard
        exact hok.read hentry hguard.1 hstep
      · simp at hstep
  | close i =>
    dsimp only at hstep
    split at hstep
    · simp at hstep
    · rename_i entry hentry
      split at hstep
      · rename_i hi
        obtain ⟨rfl, rfl⟩ := Prod.mk.inj (Option.some.inj hstep)
        exact hok.close hentry hi
      · simp at hstep

theorem ok_of_run {wakeup_read_fd wakeup_write_fd : Nat}
    (hrun : Run (system wakeup_read_fd wakeup_write_fd) (fun _ => True)
      (system wakeup_read_fd wakeup_write_fd).init trace s) :
    Ok wakeup_read_fd trace s :=
  hrun.invariant (C := fun _ => True) (I := fun trace s => Ok wakeup_read_fd trace s) (fun _ _ _ => trivial)
    (ok_init wakeup_read_fd wakeup_write_fd) (fun _ _ _ _ _ hok _ _ hstep => hok.step hstep) trivial

/-- In every state that a reactor reaches, the first entry of its table is the
    pipe, the others are distinct and are those with a parser, and no parser was
    missing. A connection starts with an empty parser, also under a number that
    was in use before, and is parsed from its own bytes only. -/
theorem connection_table {wakeup_read_fd wakeup_write_fd : Nat}
    (hrun : Run (system wakeup_read_fd wakeup_write_fd) (fun _ => True)
      (system wakeup_read_fd wakeup_write_fd).init trace s) :
    s.worker.poll_fds_.head?.map PollFd.fd = some wakeup_read_fd ∧
    (s.worker.poll_fds_.tail.map PollFd.fd).Nodup ∧
    (∀ fd, fd ∈ s.worker.poll_fds_.tail.map PollFd.fd ↔ (s.worker.parsers_ fd).isSome) ∧
    s.exception = none ∧
    (∀ fd parser, .registered fd parser ∈ trace → parser = some {}) ∧
    (∀ fd parser, s.worker.parsers_ fd = some parser → ∀ req, ∃ fuel own,
      ({} : IncrementalParser).feed_chunks fuel req ((session trace fd).map Prod.fst) =
        some ((session trace fd).flatMap Prod.snd, own) ∧ own.buffer_ = parser.buffer_) := by
  have hok := ok_of_run hrun
  refine ⟨hok.pipe, hok.distinct_clients.1, fun fd => (hok.keys fd).symm, hok.exception, hok.registered,
    fun fd parser hparser req => ?_⟩
  have hfeeds : Feeds requestFormat.decode ({} : IncrementalParser).buffer_ _ _ _ := hok.own_bytes fd parser hparser
  obtain ⟨own, hown, hbuffer⟩ := IncrementalParser.feed_chunks_of_feeds hfeeds (Nat.lt_succ_self _) req
  exact ⟨_, own, hown, hbuffer⟩

/-- A client sends half a command and goes away. The next one gets its number,
    and a parser without that half. -/
theorem connection_table_reused :
    let trace : List Event :=
      [.accepted 5, .registered 5 (some {}), .read 5 (ascii "GE") [], .closed 5, .accepted 5, .registered 5 (some {}),
        .read 5 (ascii "PING" ++ [LF]) [.Complete ⟨.Ping, [], []⟩]]
    ∃ s, Run (system 3 4) (fun _ => True) (system 3 4).init trace s ∧
      s.worker.poll_fds_.head?.map PollFd.fd = some 3 ∧ (s.worker.poll_fds_.tail.map PollFd.fd).Nodup ∧
      (∀ fd, fd ∈ s.worker.poll_fds_.tail.map PollFd.fd ↔ (s.worker.parsers_ fd).isSome) ∧ s.exception = none := by
  intro trace
  have hexists : ∃ s, Run (system 3 4) (fun _ => True) (system 3 4).init trace s :=
    Run.exists_of_exec
      [.accepted 5, .swap, .register, .poll fun _ => POLLIN, .read 1 (ascii "GE"), .close 1, .accepted 5,
        .swap, .register, .read 1 (ascii "PING" ++ [LF])]
      (by simp) (by decide +kernel)
  obtain ⟨s, hrun⟩ := hexists
  obtain ⟨hpipe, hdistinct, hkeys, hnone, -⟩ := connection_table hrun
  exact ⟨s, hrun, hpipe, hdistinct, hkeys, hnone⟩

end kv.reactor
