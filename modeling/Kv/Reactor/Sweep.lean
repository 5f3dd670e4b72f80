import Kv.Reactor.Table

namespace kv.reactor

namespace WorkerReactor

/-- What `service_client` does to the table: it closes the client at its index,
    or leaves the table alone, as `closes` decides. -/
def Serves (service_client : WorkerReactor → Nat → WorkerReactor) (closes : Nat → Bool) : Prop :=
  ∀ self i entry, self.poll_fds_[i]? = some entry →
    (service_client self i).poll_fds_ = if closes entry.fd then self.poll_fds_.swapRemove i else self.poll_fds_

/-- The entries that a sweep leaves in the table. -/
def kept (closes : Nat → Bool) (entries : List PollFd) : List PollFd :=
  entries.filter fun entry => !(entry.ready && closes entry.fd)

/-- The descriptors that a sweep serves. -/
def served (entries : List PollFd) : List Nat := (entries.filter PollFd.ready).map PollFd.fd

variable {service_client : WorkerReactor → Nat → WorkerReactor} {closes : Nat → Bool}

/-- The loop from an index on: the entries before it stay in their places, and
    each of those behind it is looked at once. -/
def Sweeps (service_client : WorkerReactor → Nat → WorkerReactor) (closes : Nat → Bool) (fuel : Nat)
    (self : WorkerReactor) (done todo : List PollFd) : Prop :=
  ∃ calls final rest, sweep_loop service_client fuel done.length self = some (calls, final) ∧
    final.poll_fds_ = done ++ rest ∧ rest.Perm (kept closes todo) ∧ (calls.map Prod.snd).Perm (served todo) ∧
    ∀ call ∈ calls, done.length ≤ call.1

section

variable {fuel : Nat} {self : WorkerReactor} {done todo : List PollFd} {entry : PollFd}

theorem Sweeps.nil (htable : self.poll_fds_ = done) : Sweeps service_client closes (fuel + 1) self done [] := by
  refine ⟨[], self, [], ?_, by simpa using htable, .refl _, .refl _, by simp⟩
  simp [sweep_loop, htable]

/-- An entry with nothing to report. -/
theorem Sweeps.skip (hentry : self.poll_fds_[done.length]? = some entry) (hready : ¬ entry.ready)
    (h : Sweeps service_client closes fuel self (done ++ [entry]) todo) :
    Sweeps service_client closes (fuel + 1) self done (entry :: todo) := by
  obtain ⟨calls, final, rest, hloop, hfinal, hkept, hserved, hindex⟩ := h
  rw [List.length_append, List.length_singleton] at hloop hindex
  refine ⟨calls, final, entry :: rest, ?_, by simpa using hfinal, ?_, ?_, fun call hcall => ?_⟩
  · rw [sweep_loop, hentry]
    simp only [if_neg hready, hloop]
  · simpa [kept, hready] using hkept
  · simpa [served, hready] using hserved
  · exact Nat.le_of_succ_le (hindex call hcall)

/-- A client that is served and stays. -/
theorem Sweeps.serve (hentry : self.poll_fds_[done.length]? = some entry) (hready : entry.ready)
    (hcloses : ¬ closes entry.fd) (hsame : (service_client self done.length).poll_fds_ = self.poll_fds_)
    (h : Sweeps service_client closes fuel (service_client self done.length) (done ++ [entry]) todo) :
    Sweeps service_client closes (fuel + 1) self done (entry :: todo) := by
  obtain ⟨calls, final, rest, hloop, hfinal, hkept, hserved, hindex⟩ := h
  rw [List.length_append, List.length_singleton] at hloop hindex
  refine ⟨(done.length, entry.fd) :: calls, final, entry :: rest, ?_, by simpa using hfinal, ?_, ?_, ?_⟩
  · rw [sweep_loop, hentry]
    simp only [if_pos hready, hsame, Nat.lt_irrefl, if_false, hloop, Option.map_some]
  · simpa [kept, hcloses] using hkept
  · simpa [served, hready] using hserved
  · intro call hcall
    rcases List.mem_cons.mp hcall with rfl | hcall
    · exact Nat.le_refl _
    · exact Nat.le_of_succ_le (hindex call hcall)

/-- A client that is served and closed. Another entry may now be in its place,
    and the loop looks at that place again. -/
theorem Sweeps.close {todo' : List PollFd} (hentry : self.poll_fds_[done.length]? = some entry) (hready : entry.ready)
    (hcloses : closes entry.fd) (hperm : todo'.Perm todo)
    (hshorter : (service_client self done.length).poll_fds_.length < self.poll_fds_.length)
    (h : Sweeps service_client closes fuel (service_client self done.length) done todo') :
    Sweeps service_client closes (fuel + 1) self done (entry :: todo) := by
  obtain ⟨calls, final, rest, hloop, hfinal, hkept, hserved, hindex⟩ := h
  refine ⟨(done.length, entry.fd) :: calls, final, rest, ?_, hfinal, ?_, ?_, by simpa using hindex⟩
  · rw [sweep_loop, hentry]
    simp only [if_pos hready, if_pos hshorter, hloop, Option.map_some]
  · simpa [kept, hready, hcloses] using hkept.trans (hperm.filter _)
  · simpa [served, hready] using hserved.trans ((hperm.filter _).map _)

end

theorem sweep_loop_spec (hserves : Serves service_client closes) {fuel : Nat} (self : WorkerReactor)
    (done todo : List PollFd) (htable : self.poll_fds_ = done ++ todo) (hfuel : todo.length < fuel) :
    Sweeps service_client closes fuel self done todo := by
  induction fuel generalizing self done todo with
  | zero => omega
  | succ fuel ih =>
    cases todo with
    | nil => exact .nil (by simpa using htable)
    | cons entry todo =>
      have hentry : self.poll_fds_[done.length]? = some entry := by simp [htable]
      have hshape := hserves self done.length entry hentry
      rw [List.length_cons, Nat.add_lt_add_iff_right] at hfuel
      by_cases hready : entry.ready = true
      · by_cases hcloses : closes entry.fd = true
        · obtain ⟨todo', hswap, hperm⟩ := List.exists_swapRemove_append_cons done entry todo
          rw [if_pos hcloses, htable, hswap] at hshape
          refine .close hentry hready hcloses hperm ?_ (ih _ done todo' hshape (by rwa [hperm.length_eq]))
          rw [hshape, htable, List.length_append, List.length_append, hperm.length_eq, List.length_cons]
          omega
        · rw [if_neg hcloses] at hshape
          exact .serve hentry hready hcloses hshape (ih _ (done ++ [entry]) todo (by simp [hshape, htable]) hfuel)
      · exact .skip hentry hready (ih self (done ++ [entry]) todo (by simp [htable]) hfuel)

/-- A sweep ends, serves every ready client once and no other, leaves the entry
    of the pipe alone, and keeps exactly the clients that were not closed. -/
theorem sweep_serves_once (hserves : Serves service_client closes) {self : WorkerReactor} {pipe : PollFd}
    {entries : List PollFd} (htable : self.poll_fds_ = pipe :: entries)
    (hdistinct : (self.poll_fds_.map PollFd.fd).Nodup) :
    ∃ calls final rest, sweep_loop service_client self.poll_fds_.length 1 self = some (calls, final) ∧
      (calls.map Prod.snd).Nodup ∧
      (∀ fd, fd ∈ calls.map Prod.snd ↔ ∃ entry ∈ entries, entry.ready ∧ entry.fd = fd) ∧
      (∀ call ∈ calls, call.1 ≠ 0) ∧ final.poll_fds_ = pipe :: rest ∧
      rest.Perm (entries.filter fun entry => !(entry.ready && closes entry.fd)) := by
  obtain ⟨calls, final, rest, hloop, hfinal, hkept, hserved, hindex⟩ :=
    sweep_loop_spec hserves self [pipe] entries htable (show entries.length < self.poll_fds_.length by simp [htable])
  refine ⟨calls, final, rest, hloop, ?_, fun fd => ?_, fun call hcall => ?_, hfinal, hkept⟩
  · rw [htable, List.map_cons] at hdistinct
    exact hserved.nodup_iff.mpr (hdistinct.of_cons.sublist (List.filter_sublist.map _))
  · rw [hserved.mem_iff]
    simp [served, and_assoc]
  · have hpast := hindex call hcall
    simp only [List.length_singleton] at hpast
    omega

/-- Closing exactly the chosen clients. -/
def closing (closes : Nat → Bool) (self : WorkerReactor) (i : Nat) : WorkerReactor :=
  if (self.poll_fds_[i]?).any fun entry => closes entry.fd then self.close_client i else self

theorem serves_closing (closes : Nat → Bool) : Serves (closing closes) closes := by
  intro self i entry hentry
  unfold closing
  rw [hentry, Option.any_some]
  split
  · simp [close_client, hentry]
  · rfl

/-- Three clients: the first is closed and the last takes its place, is served
    there and stays; the second has nothing to report. -/
theorem sweep_serves_once_swapped :
    let self : WorkerReactor := { poll_fds_ := [⟨3, POLLIN⟩, ⟨5, POLLHUP⟩, ⟨6, 0⟩, ⟨7, POLLIN⟩] }
    let closes : Nat → Bool := fun fd => fd = 5
    ∃ calls final rest, sweep_loop (closing closes) self.poll_fds_.length 1 self = some (calls, final) ∧
      (calls.map Prod.snd).Nodup ∧
      (∀ fd, fd ∈ calls.map Prod.snd ↔ ∃ entry ∈ [(⟨5, POLLHUP⟩ : PollFd), ⟨6, 0⟩, ⟨7, POLLIN⟩], entry.ready ∧
        entry.fd = fd) ∧
      (∀ call ∈ calls, call.1 ≠ 0) ∧ final.poll_fds_ = ⟨3, POLLIN⟩ :: rest ∧
      rest.Perm ([(⟨5, POLLHUP⟩ : PollFd), ⟨6, 0⟩, ⟨7, POLLIN⟩].filter fun entry =>
        !(entry.ready && closes entry.fd)) := by
  intro self closes
  exact sweep_serves_once (serves_closing closes) rfl (by decide)

end WorkerReactor

end kv.reactor
