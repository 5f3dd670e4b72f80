import Kv.Reactor.Table

namespace kv.reactor

open kv.protocol

/-- Both calls that prepare a client socket succeed. -/
def Prepared (sockets : Sockets) (fd : Nat) : Prop :=
  set_nonblocking sockets fd = .ok () ∧ set_tcp_nodelay sockets fd = .ok ()

namespace WorkerReactor

/-- A client that `poll` watches and that has a parser. -/
def Registered (self : WorkerReactor) (fd : Nat) : Prop :=
  fd ∈ self.poll_fds_.map PollFd.fd ∧ (self.parsers_ fd).isSome

theorem registered_register (self : WorkerReactor) (fd : Nat) : (self.register fd).Registered fd :=
  ⟨by simp, by simp⟩

theorem Registered.register {self : WorkerReactor} {fd : Nat} (hfd : self.Registered fd) (fd' : Nat) :
    (self.register fd').Registered fd := by
  refine ⟨?_, ?_⟩
  · rw [register_poll_fds, List.map_append]
    exact List.mem_append_left _ hfd.1
  · rw [register_parsers]
    split
    · rfl
    · exact hfd.2

/-- The loop goes on as long as the calls succeed, and the first that fails ends
    it. What was registered stays so. -/
theorem accept_loop_cases (sockets : Sockets) (fds : List Nat) (self : WorkerReactor) :
    ((∀ fd ∈ fds, Prepared sockets fd) ∧ ∃ final, accept_loop sockets fds self = (.ok (), final) ∧
      (∀ fd ∈ fds, final.Registered fd) ∧ ∀ fd, self.Registered fd → final.Registered fd) ∨
    ((¬ ∀ fd ∈ fds, Prepared sockets fd) ∧ ∃ what final, accept_loop sockets fds self = (.error what, final)) := by
  induction fds generalizing self with
  | nil => exact .inl ⟨by simp, self, rfl, by simp, fun _ hfd => hfd⟩
  | cons fd fds ih =>
    rw [accept_loop]
    cases hblocking : set_nonblocking sockets fd with
    | error what =>
      refine .inr ⟨fun hall => ?_, what, self, rfl⟩
      simp [(hall fd List.mem_cons_self).1] at hblocking
    | ok _ =>
      cases hnodelay : set_tcp_nodelay sockets fd with
      | error what =>
        refine .inr ⟨fun hall => ?_, what, self, rfl⟩
        simp [(hall fd List.mem_cons_self).2] at hnodelay
      | ok _ =>
        dsimp only
        rcases ih (self.register fd) with ⟨hall, final, hloop, hbatch, hkept⟩ | ⟨hbad, what, final, hloop⟩
        · refine .inl ⟨?_, final, hloop, ?_, fun fd' hfd' => hkept fd' (hfd'.register fd)⟩
          · simpa using ⟨⟨hblocking, hnodelay⟩, hall⟩
          · simpa using ⟨hkept fd (registered_register self fd), hbatch⟩
        · refine .inr ⟨fun hall => hbad fun fd' hfd' => hall fd' (List.mem_cons_of_mem _ hfd'), what, final, hloop⟩

/-- An exception leaves the loop of `run`, and with it the thread. -/
def Escapes (turn : Option (Except Bytes Unit × WorkerReactor)) : Prop := ∃ what self, turn = some (.error what, self)

theorem run_turn_of_pipe {sockets : Sockets} {service_client : WorkerReactor → Nat → WorkerReactor}
    {self : WorkerReactor}
    {pipe : PollFd} {entries : List PollFd} (htable : self.poll_fds_ = pipe :: entries)
    (hpipe : pipe.revents &&& POLLIN ≠ 0) :
    Escapes (self.run_turn sockets service_client) ↔
      ∃ what, (self.accept_pending_clients sockets).1 = .error what := by
  have hcond : (self.poll_fds_.head?.any fun pipe => pipe.revents &&& POLLIN ≠ 0) = true := by
    simpa [htable] using hpipe
  rw [run_turn, if_pos hcond]
  rcases self.accept_pending_clients sockets with ⟨outcome, final⟩
  cases outcome with
  | error what => exact iff_of_true ⟨what, final, rfl⟩ ⟨what, rfl⟩
  | ok _ =>
    refine iff_of_false ?_ (by simp)
    rintro ⟨what, self', hturn⟩
    simp at hturn

/-- A reactor survives a batch of new clients and registers all of those whose
    sockets can be prepared, exactly if all of them can. -/
theorem accept_pending_clients_survives_iff (sockets : Sockets) (service_client : WorkerReactor → Nat → WorkerReactor)
    {self : WorkerReactor} {pipe : PollFd} {entries : List PollFd} (htable : self.poll_fds_ = pipe :: entries)
    (hpipe : pipe.revents &&& POLLIN ≠ 0) :
    (¬ Escapes (self.run_turn sockets service_client) ∧
      ∀ fd ∈ self.pending_clients_, Prepared sockets fd → (self.accept_pending_clients sockets).2.Registered fd) ↔
    ∀ fd ∈ self.pending_clients_, Prepared sockets fd := by
  rw [run_turn_of_pipe htable hpipe, accept_pending_clients]
  rcases accept_loop_cases sockets self.pending_clients_ { self with pending_clients_ := [] } with
    ⟨hall, final, hloop, hbatch, _⟩ | ⟨hbad, what, final, hloop⟩
  · rw [hloop]
    exact iff_of_true ⟨by simp, fun fd hfd _ => hbatch fd hfd⟩ hall
  · rw [hloop]
    exact iff_of_false (fun hok => hok.1 ⟨what, rfl⟩) hbad

/-- Two clients, with a pipe that holds the bytes of their wakeups. -/
theorem accept_pending_clients_survives_two :
    let self : WorkerReactor := { poll_fds_ := [⟨3, POLLIN⟩], pending_clients_ := [5, 6] }
    (¬ Escapes (self.run_turn {} fun self _ => self) ∧
      ∀ fd ∈ self.pending_clients_, Prepared {} fd → (self.accept_pending_clients {}).2.Registered fd) ↔
    ∀ fd ∈ self.pending_clients_, Prepared {} fd :=
  accept_pending_clients_survives_iff {} (fun self _ => self) rfl (by decide)

/-- `setsockopt` fails for a client that is already gone: the exception leaves
    `run`, and the client behind it, whose socket is fine, is lost. -/
theorem accept_pending_clients_escapes :
    let sockets : Sockets := { setsockopt := fun fd => if fd = 5 then some (ascii "Invalid argument") else none }
    let self : WorkerReactor := { poll_fds_ := [⟨3, POLLIN⟩], pending_clients_ := [5, 6] }
    Escapes (self.run_turn sockets fun self _ => self) ∧ Prepared sockets 6 ∧
      (self.accept_pending_clients sockets).1 = .error (ascii "setsockopt(TCP_NODELAY): Invalid argument") ∧
      ¬ (self.accept_pending_clients sockets).2.Registered 6 := by
  intro sockets self
  refine ⟨(run_turn_of_pipe rfl (by decide)).mpr ⟨_, rfl⟩, ⟨rfl, rfl⟩, rfl, fun hregistered => ?_⟩
  exact Bool.false_ne_true hregistered.2

end WorkerReactor

end kv.reactor
