import Kv.Reactor.Matching
import Kv.Server.Answers

namespace kv.server

/-- The connection that an event is about. -/
def KvServer.Event.number : KvServer.Event → Nat
  | .client event => event.connection
  | .enqueued _ fd => fd
  | .registered _ fd => fd

theorem KvServer.Event.rename_congr {f g : Nat → Nat} {event : KvServer.Event}
    (hsame : f event.number = g event.number) :
    event.rename f = event.rename g := by
  cases event with
  | client event =>
    cases event with
    | received t data => exact congrArg (fun t => KvServer.Event.client (.received t data)) hsame
    | invoked t req => exact congrArg (fun t => KvServer.Event.client (.invoked t req)) hsame
    | executed t req => exact congrArg (fun t => KvServer.Event.client (.executed t req)) hsame
    | sent t bytes => exact congrArg (fun t => KvServer.Event.client (.sent t bytes)) hsame
  | enqueued w fd => exact congrArg (KvServer.Event.enqueued w) hsame
  | registered w fd => exact congrArg (KvServer.Event.registered w) hsame

/-- A reactor registers connections that it has taken from `pending_clients_`. -/
theorem WorkerReactor.mem_live_of_step {reactor reactor' : WorkerReactor} {fds : List Nat}
    (hstep : reactor.step = some (reactor', fds)) : ∀ n ∈ fds, n ∈ reactor.live := by
  have hnone {next : WorkerReactor} (hnext : some (next, []) = some (reactor', fds)) :
      ∀ n ∈ fds, n ∈ reactor.live := by
    obtain ⟨-, rfl⟩ := Prod.mk.inj (Option.some.inj hnext)
    simp
  unfold WorkerReactor.step at hstep
  cases hpc : reactor.pc with
  | polling => simp [hpc] at hstep
  | serving i again => simp [hpc] at hstep
  | draining =>
    rw [hpc] at hstep
    exact hnone hstep
  | drained =>
    rw [hpc] at hstep
    dsimp only at hstep
    split at hstep <;> exact hnone hstep
  | accepting =>
    rw [hpc] at hstep
    exact hnone hstep
  | scanning i =>
    rw [hpc] at hstep
    dsimp only at hstep
    split at hstep <;> exact hnone hstep
  | registering waiting =>
    rw [hpc] at hstep
    cases waiting with
    | nil => exact hnone hstep
    | cons n waiting =>
      obtain ⟨-, rfl⟩ := Prod.mk.inj (Option.some.inj hstep)
      intro m hm
      obtain rfl := List.mem_singleton.mp hm
      refine List.mem_append_left _ (List.mem_append_right _ ?_)
      simp [WorkerReactor.fds, hpc]

end kv.server

namespace kv.process

open kv.protocol kv.reactor Transition

/-- The process over descriptors does what the process over connections does. A
    connection that is not closed yet holds its descriptor alone. -/
structure Refines (fdOf : Nat → Nat) (s : Process) (a : server.KvServer) : Prop where
  crashed : s.crashed = false
  store : s.store = a.store
  enqueuers : s.enqueuers = a.enqueuers
  workers : ∀ w, Matches fdOf a.connections (s.workers w) (a.reactors w)
  client : ∀ w, ∀ n ∈ (a.reactors w).live, s.kernel (fdOf n) = .client ∧ n < a.accepted
  apart : ∀ w w', w ≠ w' → ∀ n ∈ (a.reactors w).live, ∀ m ∈ (a.reactors w').live, fdOf n ≠ fdOf m
  fresh : ∀ n, a.accepted ≤ n → a.connections n = {}

theorem refines_init (capacity : Nat) (pipes : Nat → Nat) (inUse : Nat → Bool) :
    Refines id (Process.system capacity pipes inUse).init (server.KvServer.system capacity).init where
  crashed := rfl
  store := rfl
  enqueuers := rfl
  workers w :=
    { pipe := rfl
      table := ⟨_, [], rfl, rfl⟩
      pending := rfl
      pc := .polling
      parsers := by simp [server.KvServer.system]
      absent := fun _ _ => rfl
      service := by simp [server.KvServer.system]
      waiting := by simp [server.KvServer.system, server.WorkerReactor.fds]
      distinct := by simp [server.KvServer.system, server.WorkerReactor.live, server.WorkerReactor.fds] }
  client := by simp [server.KvServer.system, server.WorkerReactor.live, server.WorkerReactor.fds]
  apart := by simp [server.KvServer.system, server.WorkerReactor.live, server.WorkerReactor.fds]
  fresh := fun _ _ => rfl

section

variable {fdOf : Nat → Nat} {s : Process} {a : server.KvServer}

/-- One reactor moves, and with it connections of its own. -/
theorem Refines.set (h : Refines fdOf s a) (w : Nat) {worker : Worker} {reactor : server.WorkerReactor}
    {connections : Nat → server.Connection} {store store' : KVStore} (hstore : store = store')
    {enqueuers enqueuers' : Nat → Option Nat} (henqueuers : enqueuers = enqueuers') {kernel : Nat → Owner}
    (hmatch : Matches fdOf connections worker reactor) (hlive : ∀ n ∈ reactor.live, n ∈ (a.reactors w).live)
    (hothers : ∀ n, n ∉ (a.reactors w).live → connections n = a.connections n)
    (hkernel : ∀ w', ∀ n ∈ (Function.update a.reactors w reactor w').live,
      s.kernel (fdOf n) = .client → kernel (fdOf n) = .client) :
    Refines fdOf
      { s with workers := Function.update s.workers w worker, store, enqueuers, kernel }
      { a with
        reactors := Function.update a.reactors w reactor, connections, store := store', enqueuers := enqueuers' } := by
  have hsub (w' n : Nat) (hn : n ∈ (Function.update a.reactors w reactor w').live) : n ∈ (a.reactors w').live := by
    by_cases hw : w' = w
    · subst hw
      rw [Function.update_self] at hn
      exact hlive n hn
    · rwa [Function.update_of_ne hw] at hn
  refine ⟨h.crashed, hstore, henqueuers, ?_, ?_, ?_, ?_⟩
  · intro w'
    by_cases hw : w' = w
    · subst hw
      simpa using hmatch
    · simp only [Function.update_of_ne hw]
      refine (h.workers w').congr fun n hn => ⟨rfl, hothers n fun hmem => ?_⟩
      exact h.apart w' w hw n hn n hmem rfl
  · intro w' n hn
    obtain ⟨hopen, hlt⟩ := h.client w' n (hsub w' n hn)
    exact ⟨hkernel w' n hn hopen, hlt⟩
  · intro w₁ w₂ hw n hn m hm
    exact h.apart w₁ w₂ hw n (hsub w₁ n hn) m (hsub w₂ m hm)
  · intro n hn
    have hnot : n ∉ (a.reactors w).live := fun hmem => Nat.not_lt.mpr hn (h.client w n hmem).2
    exact (hothers n hnot).trans (h.fresh n hn)

/-- The rest of the process opens and closes numbers that are no connection's. -/
theorem Refines.setOwner (h : Refines fdOf s a) {fd : Nat} (hfd : s.kernel fd ≠ .client) (owner : Owner) :
    Refines fdOf (s.setOwner fd owner) a := by
  refine { h with client := fun w n hn => ?_ }
  obtain ⟨hopen, hlt⟩ := h.client w n hn
  have hne : fdOf n ≠ fd := fun heq => hfd (heq ▸ hopen)
  exact ⟨by simpa [Process.setOwner, Function.update_of_ne hne] using hopen, hlt⟩

/-- A new connection, under a number that nobody has open. -/
theorem Refines.accept (h : Refines fdOf s a) (w fd : Nat) (hfree : s.kernel fd = .free)
    (enqueuers : Nat → Option Nat) :
    Refines (Function.update fdOf a.accepted fd)
      { (s.setWorker w { s.workers w with table := (s.workers w).table.enqueue_client fd }).setOwner fd .client with
        enqueuers }
      { a.setReactor w { a.reactors w with pending_clients_ := (a.reactors w).pending_clients_ ++ [a.accepted] } with
        enqueuers, accepted := a.accepted + 1 } := by
  have hne (w' n : Nat) (hn : n ∈ (a.reactors w').live) : n ≠ a.accepted ∧ fdOf n ≠ fd := by
    obtain ⟨hopen, hlt⟩ := h.client w' n hn
    refine ⟨Nat.ne_of_lt hlt, fun heq => ?_⟩
    rw [heq, hfree] at hopen
    cases hopen
  have hold (w' n : Nat) (hn : n ∈ (a.reactors w').live) : Function.update fdOf a.accepted fd n = fdOf n :=
    Function.update_of_ne (hne w' n hn).1 _ _
  -- What a reactor has afterwards it had before, or it is the new connection.
  have hlive (w' n : Nat) (hn : n ∈ ((a.setReactor w { a.reactors w with
      pending_clients_ := (a.reactors w).pending_clients_ ++ [a.accepted] }).reactors w').live) :
      n ∈ (a.reactors w').live ∨ (w' = w ∧ n = a.accepted) := by
    by_cases hw : w' = w
    · subst hw
      dsimp only [server.KvServer.setReactor] at hn
      rw [Function.update_self, live_enqueue, List.mem_append, List.mem_singleton] at hn
      exact hn.imp_right fun heq => ⟨rfl, heq⟩
    · dsimp only [server.KvServer.setReactor] at hn
      rw [Function.update_of_ne hw] at hn
      exact .inl hn
  have hnew : Function.update fdOf a.accepted fd a.accepted = fd := Function.update_self ..
  refine ⟨h.crashed, h.store, rfl, ?_, ?_, ?_, ?_⟩
  · intro w'
    have hsame := (h.workers w').congr fun n hn => ⟨hold w' n hn, (rfl : a.connections n = a.connections n)⟩
    by_cases hw : w' = w
    · subst hw
      have hfresh : Function.update fdOf a.accepted fd a.accepted ∉
          (a.reactors w').live.map (Function.update fdOf a.accepted fd) := by
        rw [hnew, List.mem_map]
        rintro ⟨n, hn, heq⟩
        exact (hne w' n hn).2 ((hold w' n hn).symm.trans heq)
      have henqueued := hsame.enqueue hfresh (h.fresh a.accepted (Nat.le_refl _))
      rw [hnew] at henqueued
      simpa [Process.setWorker, Process.setOwner, server.KvServer.setReactor] using henqueued
    · simpa [Process.setWorker, Process.setOwner, server.KvServer.setReactor, Function.update_of_ne hw] using hsame
  · intro w' n hn
    rcases hlive w' n hn with hmem | ⟨-, rfl⟩
    · obtain ⟨hopen, hlt⟩ := h.client w' n hmem
      rw [hold w' n hmem]
      exact ⟨by simpa [Process.setWorker, Process.setOwner, Function.update_of_ne (hne w' n hmem).2] using hopen,
        Nat.lt_succ_of_lt hlt⟩
    · rw [hnew]
      exact ⟨by simp [Process.setOwner], Nat.lt_succ_self _⟩
  · intro w₁ w₂ hw n hn m hm
    rcases hlive w₁ n hn with hfirst | ⟨rfl, rfl⟩
    · rcases hlive w₂ m hm with hsecond | ⟨rfl, rfl⟩
      · rw [hold w₁ n hfirst, hold w₂ m hsecond]
        exact h.apart w₁ w₂ hw n hfirst m hsecond
      · rw [hold w₁ n hfirst, hnew]
        exact (hne w₁ n hfirst).2
    · rcases hlive w₂ m hm with hsecond | ⟨rfl, -⟩
      · rw [hold w₂ m hsecond, hnew]
        exact (hne w₂ m hsecond).2.symm
      · exact absurd rfl hw
  · intro n hn
    exact h.fresh n (Nat.le_of_succ_le hn)

end

/-- The process over connections, from `a`, shows these events under the
    descriptors of their connections, and comes to a state that `s'` refines. -/
def Follows (capacity : Nat) (fdOf : Nat → Nat) (a : server.KvServer) (s' : Process)
    (events : List server.KvServer.Event) :
    Prop :=
  ∃ fdOf' a' shown, Run (server.KvServer.system capacity) (fun _ => True) a shown a' ∧
    (∀ n < a.accepted, fdOf' n = fdOf n) ∧ events = shown.map (server.KvServer.Event.rename fdOf') ∧
    (∀ event ∈ shown, event.number < a'.accepted) ∧ a.accepted ≤ a'.accepted ∧ Refines fdOf' s' a'

section

variable {capacity : Nat} {fdOf : Nat → Nat} {s s' : Process} {a a' : server.KvServer}
  {events shown : List server.KvServer.Event}

theorem Follows.of_step {label : server.KvServer.Label}
    (hstep : server.KvServer.step capacity a label = some (a', shown))
    (hevents : events = shown.map (server.KvServer.Event.rename fdOf)) (haccepted : a'.accepted = a.accepted)
    (hnumbers : ∀ event ∈ shown, event.number < a.accepted) (hrefines : Refines fdOf s' a') :
    Follows capacity fdOf a s' events :=
  ⟨fdOf, a', shown, .single trivial hstep, fun _ _ => rfl, hevents, by rwa [haccepted], haccepted.ge, hrefines⟩

theorem Refines.wake (h : Refines fdOf s a) {e w : Nat} (hwaking : s.enqueuers e = some w) :
    Follows capacity fdOf a
      { s.setWorker w ((s.workers w).wake capacity) with enqueuers := Function.update s.enqueuers e none } [] := by
  have hmatch : Matches fdOf a.connections ((s.workers w).wake capacity) ((a.reactors w).wake capacity) ∧
      ((a.reactors w).wake capacity).live = (a.reactors w).live := by
    have hworker := h.workers w
    unfold Worker.wake server.WorkerReactor.wake
    rw [hworker.pipe]
    split
    · exact ⟨{ hworker with pipe := rfl }, rfl⟩
    · exact ⟨hworker, rfl⟩
  have hstep : server.KvServer.step capacity a (.wake e) =
      some ({ a.setReactor w ((a.reactors w).wake capacity) with
        enqueuers := Function.update a.enqueuers e none }, []) := by
    simp only [server.KvServer.step, ← h.enqueuers, hwaking]
  refine .of_step hstep rfl rfl (by simp) ?_
  exact h.set w h.store (congrArg (Function.update · e none) h.enqueuers) hmatch.1 (fun n hn => hmatch.2 ▸ hn)
    (fun _ _ => rfl) fun _ _ _ hopen => hopen

/-- A reactor moves, and no connection does. -/
theorem Refines.setWorker (h : Refines fdOf s a) (w : Nat) {worker : Worker} {reactor : server.WorkerReactor}
    (hmatch : Matches fdOf a.connections worker reactor) (hlive : reactor.live = (a.reactors w).live) :
    Refines fdOf (s.setWorker w worker) (a.setReactor w reactor) :=
  h.set w h.store h.enqueuers hmatch (fun _ hn => hlive ▸ hn) (fun _ _ => rfl) fun _ _ _ hopen => hopen

theorem Refines.poll (h : Refines fdOf s a) {w : Nat} {revents : Nat → UInt16} {worker : Worker}
    (hpoll : (s.workers w).poll revents = some worker) : Follows capacity fdOf a (s.setWorker w worker) [] := by
  obtain ⟨ready, reactor, hpolled, hmatch, hlive⟩ := (h.workers w).poll hpoll
  have hstep : server.KvServer.step capacity a (.poll w ready) = some (a.setReactor w reactor, []) := by
    rw [server.KvServer.step, hpolled, Option.map_some]
  exact .of_step hstep rfl rfl (by simp) (h.setWorker w hmatch hlive)

/-- A statement of a reactor that serves no client. -/
theorem Refines.advance (h : Refines fdOf s a) {w : Nat} {worker : Worker} {fds : List Nat}
    (hadvance : (s.workers w).step = some (worker, fds)) :
    Follows capacity fdOf a (s.setWorker w worker) (fds.map (.registered w)) := by
  obtain ⟨reactor, ns, hclient, hnext, rfl, hmatch, hlive⟩ := (h.workers w).step hadvance
  have hstep : server.KvServer.step capacity a (.step w) = some (a.setReactor w reactor, ns.map (.registered w)) := by
    simp only [server.KvServer.step, hclient, hnext, Option.map_some]
  refine .of_step hstep ?_ rfl ?_ (h.setWorker w hmatch hlive)
  · simp [server.KvServer.Event.rename, Function.comp_def]
  · intro event hevent
    obtain ⟨n, hn, rfl⟩ := List.mem_map.mp hevent
    exact (h.client w n (server.WorkerReactor.mem_live_of_step hnext n hn)).2

theorem client_serving {reactor : server.WorkerReactor} {i : Nat} {again : Bool} {entry : server.PollFd}
    (hpc : reactor.pc = .serving i again) (hentry : reactor.poll_fds_[i]? = some entry) :
    reactor.client = some (entry.fd, i, again) := by
  simp [server.WorkerReactor.client, hpc, hentry]

/-- `service_client` has no more to read, and the reactor goes on to the next entry. -/
theorem Refines.leave (h : Refines fdOf s a) {w j fd : Nat} {again : Bool} {req : Request}
    (hpc : (s.workers w).pc = .serving j fd again .reading req) :
    Follows capacity fdOf a (s.setWorker w { s.workers w with pc := .scanning (j + 1) }) [] := by
  obtain ⟨i, entry, rfl, rfl, hserving, hentry, ⟨hreading, -⟩, hothers⟩ := (h.workers w).of_serving hpc
  have hclient := client_serving hserving hentry
  have hlive : { a.reactors w with pc := .scanning (i + 1) }.live = (a.reactors w).live := by
    simp [server.WorkerReactor.live, server.WorkerReactor.fds, hserving]
  have hrefines := h.setWorker w ((h.workers w).leave hserving hreading hothers) hlive
  cases again with
  | true =>
    have hstep : server.KvServer.step capacity a (.again w) =
        some (a.setReactor w { a.reactors w with pc := .scanning (i + 1) }, []) := by
      simp only [server.KvServer.step, hclient, hreading, ↓reduceIte]
    exact .of_step hstep rfl rfl (by simp) hrefines
  | false =>
    have hstep : server.KvServer.step capacity a (.step w) =
        some (a.setReactor w { a.reactors w with pc := .scanning (i + 1) }, []) := by
      simp [server.KvServer.step, hclient, hreading]
    exact .of_step hstep rfl rfl (by simp) hrefines

/-- The connection that a reactor serves moves on. -/
theorem Refines.serve (h : Refines fdOf s a) {w i : Nat} {entry : server.PollFd} {again : Bool}
    (hserving : (a.reactors w).pc = .serving i again) (hentry : (a.reactors w).poll_fds_[i]? = some entry)
    (hothers : ∀ other ∈ (a.reactors w).poll_fds_, other.fd ≠ entry.fd → (a.connections other.fd).pc = .reading)
    (again' : Bool) (connection : server.Connection) (store : KVStore) :
    Refines fdOf { s.serve w (i + 1) (fdOf entry.fd) again' connection with store }
      { a.setReactor w { a.reactors w with pc := .serving i again' } with
        toState := { a.setConnection entry.fd connection with store } } := by
  have hmem := mem_live (List.mem_of_getElem? hentry)
  have hlive : { a.reactors w with pc := .serving i again' }.live = (a.reactors w).live := by
    simp [server.WorkerReactor.live, server.WorkerReactor.fds, hserving]
  refine h.set w rfl h.enqueuers ((h.workers w).serve hserving hentry hothers again' connection)
    (fun n hn => hlive ▸ hn)
    ?_ fun _ _ _ hopen => hopen
  intro n hn
  exact Function.update_of_ne (fun heq : n = entry.fd => hn (heq ▸ hmem)) _ _

/-- A statement of `service_client` after a read. -/
theorem Refines.connection_step (h : Refines fdOf s a) {w j fd : Nat} {again : Bool} {pc : server.Pc} {req : Request}
    {parser : IncrementalParser} {connection : server.Connection} {store : KVStore} {shown : List server.Event}
    (hpc : (s.workers w).pc = .serving j fd again pc req) (hreading : pc ≠ .reading)
    (hparser : (s.workers w).table.parsers_ fd = some parser)
    (hstep : server.Connection.step KVStore.handle_request fd ⟨pc, parser, req⟩ s.store =
      some (connection, store, shown)) :
    Follows capacity fdOf a { s.serve w j fd again connection with store } (shown.map .client) := by
  obtain ⟨i, entry, rfl, rfl, hserving, hentry, ⟨hconnection, hreq⟩, hothers⟩ := (h.workers w).of_serving hpc
  have hclient := client_serving hserving hentry
  have hmem := List.mem_of_getElem? hentry
  have hsame : (⟨pc, parser, req⟩ : server.Connection) = a.connections entry.fd := by
    have hheld := (h.workers w).parsers entry hmem
    rw [hparser, Option.some.injEq] at hheld
    exact server.Connection.ext hconnection.symm hheld (hreq hreading).symm
  rw [hsame, h.store, server.Connection.step_rename, Option.map_eq_some_iff] at hstep
  obtain ⟨⟨connection', store', events⟩, hmoved, heq⟩ := hstep
  obtain ⟨rfl, rfl, rfl⟩ : connection' = connection ∧ store' = store ∧
      events.map (server.Event.rename fdOf) = shown := by
    simpa using heq
  have hreactor : ({ a.reactors w with pc := .serving i again } : server.WorkerReactor) = a.reactors w := by
    rw [← hserving]
  have hrefines := h.serve hserving hentry hothers again connection' store'
  rw [hreactor] at hrefines
  have hstep : server.KvServer.step capacity a (.step w) =
      some ({ a.setReactor w (a.reactors w) with
        toState := { a.setConnection entry.fd connection' with store := store' } }, events.map .client) := by
    simp only [server.KvServer.step, hclient, hconnection, if_neg hreading, server.KvServer.serve, server.step, hmoved,
      Option.map_some]
  refine .of_step hstep ?_ rfl ?_ hrefines
  · simp [server.KvServer.Event.rename, Function.comp_def]
  · intro event hevent
    obtain ⟨shown, hshown, rfl⟩ := List.mem_map.mp hevent
    have hlt := (h.client w entry.fd (mem_live hmem)).2
    rw [← (server.ConnectionStep.of_step hmoved).connection_eq.2 shown hshown] at hlt
    exact hlt

/-- A read of `service_client`. It finds a parser, and the right one. -/
theorem Refines.read (h : Refines fdOf s a) (capacity : Nat) (data : Bytes) {w j fd : Nat} {req : Request}
    (hpc : (s.workers w).pc = .serving j fd true .reading req) :
    ∃ parser, (s.workers w).table.parsers_ fd = some parser ∧
      ∀ connection, server.Connection.recv ⟨.reading, parser, req⟩ data = some connection →
        Follows capacity fdOf a (s.serve w j fd (data.length = kReadSize) connection)
          [.client (.received fd data)] := by
  obtain ⟨i, entry, rfl, rfl, hserving, hentry, ⟨hreading, -⟩, hothers⟩ := (h.workers w).of_serving hpc
  have hclient := client_serving hserving hentry
  have hmem := List.mem_of_getElem? hentry
  refine ⟨(a.connections entry.fd).parser, (h.workers w).parsers entry hmem, ?_⟩
  intro connection hrecv
  -- A read resets the request, so what it was before does not matter.
  have hrecv' : (a.connections entry.fd).recv data = some connection := by
    simp only [server.Connection.recv, hreading, true_and] at hrecv ⊢
    exact hrecv
  have hrefines := h.serve hserving hentry hothers (data.length = kReadSize) connection a.store
  have hstep : server.KvServer.step capacity a (.read w data) =
      some ({ a.setReactor w { a.reactors w with pc := .serving i (data.length = kReadSize) } with
        toState := { a.setConnection entry.fd connection with store := a.store } },
        [.client (.received entry.fd data)]) := by
    simp only [server.KvServer.step, hclient, server.KvServer.serve, server.step, hrecv', Option.map_some]
    rfl
  refine .of_step hstep rfl rfl ?_ ?_
  · intro event hevent
    obtain rfl := List.mem_singleton.mp hevent
    exact (h.client w entry.fd (mem_live hmem)).2
  · have hstore : ({ s.serve w (i + 1) (fdOf entry.fd) (data.length = kReadSize) connection with
        store := a.store } : Process) = s.serve w (i + 1) (fdOf entry.fd) (data.length = kReadSize) connection := by
      rw [← h.store]
      rfl
    rw [hstore] at hrefines
    exact hrefines

/-- `close_client`. The number can be handed out again. -/
theorem Refines.eof (h : Refines fdOf s a) {w j fd : Nat} {req : Request}
    (hpc : (s.workers w).pc = .serving j fd true .reading req) :
    Follows capacity fdOf a ((s.setWorker w { s.workers w with
      table := (s.workers w).table.close_client j, pc := .scanning j }).setOwner fd .free) [] := by
  obtain ⟨i, entry, rfl, rfl, hserving, hentry, ⟨hreading, -⟩, hothers⟩ := (h.workers w).of_serving hpc
  have hclient := client_serving hserving hentry
  have hmem := mem_live (List.mem_of_getElem? hentry)
  let connection : server.Connection := { a.connections entry.fd with pc := .closed }
  obtain ⟨hlive, hmatch⟩ := (h.workers w).close hserving hentry hothers connection
  have hstep : server.KvServer.step capacity a (.eof w) =
      some ({ a.setReactor w ((a.reactors w).close_client i) with
        toState := a.setConnection entry.fd connection }, []) := by
    simp only [server.KvServer.step, hclient, server.KvServer.serve, server.step, server.Connection.hangup, hreading,
      ↓reduceIte, Option.map_some, connection]
    rfl
  refine .of_step hstep rfl rfl (by simp) ?_
  refine h.set w h.store h.enqueuers hmatch (fun n hn => hlive.symm.subset (List.mem_cons_of_mem _ hn)) ?_ ?_
  · intro n hn
    exact Function.update_of_ne (fun heq : n = entry.fd => hn (heq ▸ hmem)) _ _
  · intro w' n hn hopen
    have hne : fdOf n ≠ fdOf entry.fd := by
      by_cases hw : w' = w
      · subst hw
        rw [Function.update_self] at hn
        have hdistinct := (hlive.map fdOf).nodup_iff.mp (h.workers w').distinct
        exact fun heq => (List.nodup_cons.mp hdistinct).1 (heq ▸ List.mem_map_of_mem hn)
      · rw [Function.update_of_ne hw] at hn
        exact h.apart w' w hw n hn entry.fd hmem
    rw [Function.update_of_ne hne]
    exact hopen

/-- A connection is accepted and pushed to the reactor's `pending_clients_`. -/
theorem Refines.enqueue (h : Refines fdOf s a) {e w fd : Nat} (hidle : s.enqueuers e = none)
    (hfree : s.kernel fd = .free) :
    Follows capacity fdOf a
      { (s.setWorker w { s.workers w with table := (s.workers w).table.enqueue_client fd }).setOwner fd .client with
        enqueuers := Function.update s.enqueuers e (some w) } [.enqueued w fd] := by
  rw [h.enqueuers] at hidle ⊢
  have hstep : (server.KvServer.system capacity).step a (.enqueue e w) =
      some ({ a.setReactor w
          { a.reactors w with pending_clients_ := (a.reactors w).pending_clients_ ++ [a.accepted] } with
        enqueuers := Function.update a.enqueuers e (some w), accepted := a.accepted + 1 },
        [.enqueued w a.accepted]) := by
    simp only [server.KvServer.system, server.KvServer.step, hidle]
  refine ⟨Function.update fdOf a.accepted fd, _, _, .single trivial hstep, ?_, ?_, ?_, Nat.le_succ _,
    h.accept w fd hfree (Function.update a.enqueuers e (some w))⟩
  · intro n hn
    exact Function.update_of_ne (Nat.ne_of_lt hn) _ _
  · simp [server.KvServer.Event.rename]
  · intro event hevent
    obtain rfl := List.mem_singleton.mp hevent
    exact Nat.lt_succ_self _

/-- Every step over descriptors is a step over connections, or none at all. -/
theorem Refines.step (h : Refines fdOf s a) {label : Label}
    (hstep : Process.step capacity s label = some (s', events)) :
    Follows capacity fdOf a s' events := by
  have hstay {s' : Process} (hrefines : Refines fdOf s' a) : Follows capacity fdOf a s' [] :=
    ⟨fdOf, a, [], .nil, fun _ _ => rfl, rfl, by simp, Nat.le_refl _, hrefines⟩
  unfold Process.step at hstep
  rw [h.crashed, if_neg (by simp)] at hstep
  cases label with
  | accept e w fd =>
    dsimp only at hstep
    split at hstep
    · rename_i hfree
      obtain ⟨rfl, rfl⟩ := Prod.mk.inj (Option.some.inj hstep)
      exact h.enqueue hfree.1 hfree.2
    · simp at hstep
  | wake e =>
    dsimp only at hstep
    split at hstep
    · simp at hstep
    · rename_i w hwaking
      obtain ⟨rfl, rfl⟩ := Prod.mk.inj (Option.some.inj hstep)
      exact h.wake hwaking
  | poll w revents =>
    obtain ⟨worker, hpoll, heq⟩ := Option.map_eq_some_iff.mp hstep
    obtain ⟨rfl, rfl⟩ := Prod.mk.inj heq
    exact h.poll hpoll
  | step w =>
    dsimp only at hstep
    split at hstep
    · rename_i j fd again pc req hpc
      split at hstep
      · rename_i hreading
        subst hreading
        split at hstep
        · simp at hstep
        · obtain ⟨rfl, rfl⟩ := Prod.mk.inj (Option.some.inj hstep)
          exact h.leave hpc
      · rename_i hreading
        split at hstep
        · simp at hstep
        · rename_i parser hparser
          obtain ⟨⟨connection, store, shown⟩, hmoved, heq⟩ := Option.map_eq_some_iff.mp hstep
          obtain ⟨rfl, rfl⟩ := Prod.mk.inj heq
          exact h.connection_step hpc hreading hparser hmoved
    · obtain ⟨⟨worker, fds⟩, hadvance, heq⟩ := Option.map_eq_some_iff.mp hstep
      obtain ⟨rfl, rfl⟩ := Prod.mk.inj heq
      exact h.advance hadvance
  | read w data =>
    dsimp only at hstep
    split at hstep
    · rename_i j fd req hpc
      obtain ⟨parser, hparser, hread⟩ := h.read capacity data hpc
      rw [hparser] at hstep
      obtain ⟨connection, hrecv, heq⟩ := Option.map_eq_some_iff.mp hstep
      obtain ⟨rfl, rfl⟩ := Prod.mk.inj heq
      exact hread connection hrecv
    · simp at hstep
  | eof w =>
    dsimp only at hstep
    split at hstep
    · rename_i j fd req hpc
      obtain ⟨rfl, rfl⟩ := Prod.mk.inj (Option.some.inj hstep)
      exact h.eof hpc
    · simp at hstep
  | again w =>
    dsimp only at hstep
    split at hstep
    · rename_i j fd req hpc
      obtain ⟨rfl, rfl⟩ := Prod.mk.inj (Option.some.inj hstep)
      exact h.leave hpc
    · simp at hstep
  | opened fd =>
    dsimp only at hstep
    split at hstep
    · rename_i hfree
      obtain ⟨rfl, rfl⟩ := Prod.mk.inj (Option.some.inj hstep)
      exact hstay (h.setOwner (by simp [hfree]) .other)
    · simp at hstep
  | closed fd =>
    dsimp only at hstep
    split at hstep
    · rename_i hother
      obtain ⟨rfl, rfl⟩ := Prod.mk.inj (Option.some.inj hstep)
      exact hstay (h.setOwner (by simp [hother]) .free)
    · simp at hstep

end

/-- Descriptors refine connections. Whatever numbers the kernel hands out, and
    however soon it hands one out again, every run of the process over descriptors
    is a run of the process over connections, where each connection is shown under
    the descriptor it was given. No parser is ever missing, and the connections
    that are open have descriptors of their own. -/
theorem descriptors_refine {capacity : Nat} {pipes : Nat → Nat} {inUse : Nat → Bool}
    {trace : List server.KvServer.Event}
    {s : Process} (hrun : Run (Process.system capacity pipes inUse) (fun _ => True)
      (Process.system capacity pipes inUse).init trace s) :
    ∃ fdOf shown a, Run (server.KvServer.system capacity) (fun _ => True)
      (server.KvServer.system capacity).init shown a ∧
      trace = shown.map (server.KvServer.Event.rename fdOf) ∧ s.store = a.store ∧ s.crashed = false ∧
      ∀ w w' n n', n ∈ (a.reactors w).live → n' ∈ (a.reactors w').live → fdOf n = fdOf n' → n = n' ∧ w = w' := by
  suffices hfollows : ∃ fdOf shown a, Run (server.KvServer.system capacity) (fun _ => True)
      (server.KvServer.system capacity).init shown a ∧ trace = shown.map (server.KvServer.Event.rename fdOf) ∧
      (∀ event ∈ shown, event.number < a.accepted) ∧ Refines fdOf s a by
    obtain ⟨fdOf, shown, a, habstract, htrace, _, h⟩ := hfollows
    refine ⟨fdOf, shown, a, habstract, htrace, h.store, h.crashed, ?_⟩
    intro w w' n n' hn hn' heq
    by_cases hw : w = w'
    · subst hw
      exact ⟨List.inj_on_of_nodup_map (h.workers w).distinct hn hn' heq, rfl⟩
    · exact absurd heq (h.apart w w' hw n hn n' hn')
  induction hrun with
  | nil => exact ⟨id, [], _, .nil, rfl, by simp, refines_init capacity pipes inUse⟩
  | snoc _ _ hstep ih =>
    obtain ⟨fdOf, shown, a, habstract, rfl, hnumbers, h⟩ := ih
    obtain ⟨fdOf', a', more, hmore, hold, rfl, hnew, hgrows, h'⟩ := h.step hstep
    refine ⟨fdOf', shown ++ more, a', habstract.append hmore, ?_, ?_, h'⟩
    · rw [List.map_append]
      congr 1
      -- What has been shown is about connections whose descriptors are settled.
      exact List.map_congr_left fun event hevent =>
        server.KvServer.Event.rename_congr (hold _ (hnumbers event hevent)).symm
    · intro event hevent
      rcases List.mem_append.mp hevent with hshown | hshown
      · exact Nat.lt_of_lt_of_le (hnumbers event hshown) hgrows
      · exact hnew event hshown

/-- A client sends a `PING` and leaves, and the next one gets its descriptor: two
    connections under one number. -/
theorem descriptors_refine_example :
    let system := Process.system 1 (fun _ => 3) fun fd => fd < 5
    let trace : List server.KvServer.Event :=
      [.enqueued 0 5, .registered 0 5, .client (.received 5 (ascii "PING" ++ [LF])),
        .client (.sent 5 encode_pong_response), .enqueued 0 5]
    ∃ s, Run system (fun _ => True) system.init trace s ∧
      ∃ fdOf shown a, Run (server.KvServer.system 1) (fun _ => True) (server.KvServer.system 1).init shown a ∧
        trace = shown.map (server.KvServer.Event.rename fdOf) ∧ s.store = a.store := by
  intro system trace
  let labels : List Label :=
    [Label.accept 0 0 5, Label.wake 0, Label.poll 0 fun _ => 0] ++ List.replicate 7 (Label.step 0) ++
      [Label.poll 0 fun _ => POLLIN, Label.step 0, Label.read 0 (ascii "PING" ++ [LF])] ++
      List.replicate 6 (Label.step 0) ++
      [Label.poll 0 fun _ => POLLHUP, Label.step 0, Label.eof 0, Label.accept 1 0 5]
  have hexec : (system.exec system.init labels).map Prod.fst = some trace := by decide +kernel
  obtain ⟨s, hrun⟩ := Run.exists_of_exec labels (fun _ _ => trivial) hexec
  obtain ⟨fdOf, shown, a, habstract, htrace, hstore, _⟩ := descriptors_refine hrun
  exact ⟨s, hrun, fdOf, shown, a, habstract, htrace, hstore⟩

end kv.process
