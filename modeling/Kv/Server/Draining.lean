import Kv.Server.Linearization

namespace kv.concurrent

open Transition Linearizability

/-- How many statements a call has left, at most. -/
def Phase.work : Phase → Nat
  | .idle => 0
  | .called => 6
  | .locked => 5
  | .found => 4
  | .absent => 4
  | .counting => 3
  | .unlocking _ => 2
  | .returning _ => 1

/-- The elements that a call in this phase may still insert. -/
def Phase.inserts : Phase → Nat
  | .called | .locked | .absent => 1
  | _ => 0

/-- A phase belongs to some operations only. -/
def Thread.Shaped (self : Thread) : Prop :=
  match self.phase with
  | .locked => self.op ≠ .size
  | .found => (∃ key, self.op = .get key) ∨ ∃ key value, self.op = .set key value
  | .absent => ∃ key value, self.op = .set key value
  | .counting => (∃ key value, self.op = .set key value) ∨ ∃ key, self.op = .remove key
  | _ => True

/-- Whoever is written down in a mutex is in a call that has locked it. -/
def Owned (s : State) : Prop :=
  ∀ i t exclusive, (s.mutex i).HeldBy t exclusive → (s.threads t).phase.holds ∧ (s.threads t).op.shard = i

variable {s s' : State} {t u : Nat} {events : List (Event Op Result)}

theorem threads_goto_self (s : State) (t : Nat) (phase : Phase) :
    (s.goto t phase).threads t = { s.threads t with phase } :=
  Function.update_self ..

theorem shaped_of_step (hstep : s.step t = some (s', events)) : (s'.threads t).Shaped := by
  have hgoto {s' : State} {phase : Phase} (hthreads : s'.threads = s.threads)
      (hshaped : Thread.Shaped { s.threads t with phase }) : ((s'.goto t phase).threads t).Shaped := by
    rwa [threads_goto_self, hthreads]
  unfold State.step at hstep
  dsimp only at hstep
  split at hstep
  · simp at hstep
  · obtain ⟨rfl, rfl⟩ := Prod.mk.inj (Option.some.inj hstep)
    exact hgoto rfl trivial
  · rename_i hop
    split at hstep
    · simp at hstep
    · obtain ⟨rfl, rfl⟩ := Prod.mk.inj (Option.some.inj hstep)
      exact hgoto rfl hop
  · rename_i key hphase hop
    obtain ⟨rfl, rfl⟩ := Prod.mk.inj (Option.some.inj hstep)
    split
    · exact hgoto rfl (.inl ⟨key, hop⟩)
    · exact hgoto rfl trivial
  · rename_i key value hphase hop
    obtain ⟨rfl, rfl⟩ := Prod.mk.inj (Option.some.inj hstep)
    split
    · exact hgoto rfl (.inr ⟨key, value, hop⟩)
    · exact hgoto rfl ⟨key, value, hop⟩
  · rename_i key hphase hop
    split at hstep
    · obtain ⟨rfl, rfl⟩ := Prod.mk.inj (Option.some.inj hstep)
      exact hgoto rfl (.inr ⟨key, hop⟩)
    · obtain ⟨rfl, rfl⟩ := Prod.mk.inj (Option.some.inj hstep)
      exact hgoto rfl trivial
  · split at hstep
    · simp at hstep
    · obtain ⟨rfl, rfl⟩ := Prod.mk.inj (Option.some.inj hstep)
      exact hgoto rfl trivial
  · obtain ⟨rfl, rfl⟩ := Prod.mk.inj (Option.some.inj hstep)
    exact hgoto rfl trivial
  · rename_i key value hphase hop
    split at hstep
    · obtain ⟨rfl, rfl⟩ := Prod.mk.inj (Option.some.inj hstep)
      exact hgoto rfl (.inl ⟨key, value, hop⟩)
    · simp at hstep
  · obtain ⟨rfl, rfl⟩ := Prod.mk.inj (Option.some.inj hstep)
    exact hgoto rfl trivial
  · obtain ⟨rfl, rfl⟩ := Prod.mk.inj (Option.some.inj hstep)
    exact hgoto rfl trivial
  · obtain ⟨rfl, rfl⟩ := Prod.mk.inj (Option.some.inj hstep)
    exact hgoto rfl trivial
  · obtain ⟨rfl, rfl⟩ := Prod.mk.inj (Option.some.inj hstep)
    change Thread.Shaped (Function.update s.threads t _ t)
    rw [Function.update_self]
    trivial
  · simp at hstep

/-- Every statement brings its call nearer to its end, and no other call is
    touched. -/
theorem Move.work_lt (hmove : Move s t s' events) (hcall : (s.threads t).phase ≠ .idle) :
    (s'.threads t).phase.work < (s.threads t).phase.work ∧ ∀ u, u ≠ t → s'.threads u = s.threads u := by
  have hothers {s' : State} {thread : Thread} (hthreads : s'.threads = Function.update s.threads t thread) (u : Nat)
      (hne : u ≠ t) : s'.threads u = s.threads u := by
    rw [hthreads, Function.update_of_ne hne]
  have hset {s' : State} {thread : Thread} (hthreads : s'.threads = Function.update s.threads t thread)
      (hless : thread.phase.work < (s.threads t).phase.work) :
      (s'.threads t).phase.work < (s.threads t).phase.work ∧ ∀ u, u ≠ t → s'.threads u = s.threads u := by
    refine ⟨?_, hothers hthreads⟩
    rwa [hthreads, Function.update_self]
  cases hmove with
  | called _ hphase => exact absurd hphase hcall
  | loaded hphase => exact hset rfl (by simp [hphase, Phase.work])
  | locked hphase => exact hset rfl (by simp [hphase, Phase.work])
  | found hphase => exact hset rfl (by simp [hphase, Phase.work])
  | absent hphase => exact hset rfl (by simp [hphase, Phase.work])
  | missed hphase => exact hset rfl (by simp [hphase, Phase.work])
  | copied hphase => exact hset rfl (by simp [hphase, Phase.work])
  | assigned hphase => exact hset rfl (by simp [hphase, Phase.work])
  | emplaced hphase => exact hset rfl (by simp [hphase, Phase.work])
  | erased hphase => exact hset rfl (by simp [hphase, Phase.work])
  | added hphase => exact hset rfl (by simp [hphase, Phase.work])
  | subtracted hphase => exact hset rfl (by simp [hphase, Phase.work])
  | unlocked hphase => exact hset rfl (by simp [hphase, Phase.work])
  | returned hphase => exact hset rfl (by simp [hphase, Phase.work])

theorem SharedMutex.heldBy_of_lock {mutex mutex' : SharedMutex} {exclusive exclusive' : Bool}
    (hlock : mutex.lock t exclusive = some mutex') (hheld : mutex'.HeldBy u exclusive') :
    u = t ∨ mutex.HeldBy u exclusive' := by
  unfold SharedMutex.lock at hlock
  cases exclusive with
  | true =>
    rw [if_pos rfl] at hlock
    split at hlock
    · obtain rfl := Option.some.inj hlock
      cases exclusive' with
      | true => exact .inl (Option.some.inj hheld).symm
      | false => exact .inr hheld
    · simp at hlock
  | false =>
    rw [if_neg Bool.false_ne_true] at hlock
    split at hlock
    · obtain rfl := Option.some.inj hlock
      cases exclusive' with
      | true => exact .inr hheld
      | false => exact (Finset.mem_insert.mp hheld).imp_right id
    · simp at hlock

theorem SharedMutex.Apart.heldBy_of_unlock {mutex : SharedMutex} {exclusive exclusive' : Bool} (hapart : mutex.Apart)
    (ht : mutex.HeldBy t exclusive) (hheld : (mutex.unlock t exclusive).HeldBy u exclusive') :
    u ≠ t ∧ mutex.HeldBy u exclusive' := by
  unfold SharedMutex.unlock at hheld
  cases exclusive with
  | true =>
    cases exclusive' with
    | true => simp [HeldBy] at hheld
    | false =>
      have hreader : u ∈ mutex.readers := hheld
      simp [hapart t ht] at hreader
  | false =>
    cases exclusive' with
    | true =>
      have hwriter : mutex.writer = some u := hheld
      have hreader : t ∈ mutex.readers := ht
      simp [hapart u hwriter] at hreader
    | false => exact Finset.mem_erase.mp hheld

/-- A call that holds a lock goes on without a change to the mutexes, or one that
    holds none does. -/
theorem Owned.stay (howned : Owned s) {thread : Thread} (hthreads : s'.threads = Function.update s.threads t thread)
    (hmutex : s'.mutex = s.mutex)
    (hself : (s.threads t).phase.holds → thread.phase.holds ∧ thread.op = (s.threads t).op) : Owned s' := by
  intro i u exclusive hheld
  rw [hmutex] at hheld
  obtain ⟨hholds, hshard⟩ := howned i u exclusive hheld
  rw [hthreads]
  by_cases heq : u = t
  · subst heq
    rw [Function.update_self, (hself hholds).2]
    exact ⟨(hself hholds).1, hshard⟩
  · rw [Function.update_of_ne heq]
    exact ⟨hholds, hshard⟩

theorem Owned.keep (howned : Owned s) (hlocks : Locks s) (hmove : Move s t s' events) : Owned s' := by
  cases hmove with
  | called op hphase => exact howned.stay rfl rfl (by simp [hphase, Phase.holds])
  | loaded hphase => exact howned.stay rfl rfl (by simp [hphase, Phase.holds])
  | found hphase => exact howned.stay rfl rfl fun _ => ⟨rfl, rfl⟩
  | absent hphase => exact howned.stay rfl rfl fun _ => ⟨rfl, rfl⟩
  | missed hphase => exact howned.stay rfl rfl fun _ => ⟨rfl, rfl⟩
  | copied hphase => exact howned.stay rfl rfl fun _ => ⟨rfl, rfl⟩
  | assigned hphase => exact howned.stay rfl (mutex_setMap ..) fun _ => ⟨rfl, rfl⟩
  | emplaced hphase => exact howned.stay rfl (mutex_setMap ..) fun _ => ⟨rfl, rfl⟩
  | erased hphase => exact howned.stay rfl (mutex_setMap ..) fun _ => ⟨rfl, rfl⟩
  | added hphase => exact howned.stay rfl rfl fun _ => ⟨rfl, rfl⟩
  | subtracted hphase => exact howned.stay rfl rfl fun _ => ⟨rfl, rfl⟩
  | returned hphase => exact howned.stay rfl rfl (by simp [hphase, Phase.holds])
  | @locked mutex hphase hlock =>
    intro i u exclusive hheld
    change ((s.setMutex (s.threads t).op.shard mutex).mutex i).HeldBy u exclusive at hheld
    rw [mutex_setMutex] at hheld
    change (Function.update s.threads t _ u).phase.holds ∧ (Function.update s.threads t _ u).op.shard = i
    by_cases heq : u = t
    · subst heq
      have hshard : (s.threads u).op.shard = i := by
        by_contra hshard
        rw [Function.update_of_ne (Ne.symm hshard)] at hheld
        simpa [hphase, Phase.holds] using (howned i u exclusive hheld).1
      rw [Function.update_self]
      exact ⟨rfl, hshard⟩
    · rw [Function.update_of_ne heq]
      by_cases hshard : i = (s.threads t).op.shard
      · subst hshard
        rw [Function.update_self] at hheld
        exact howned _ u exclusive ((SharedMutex.heldBy_of_lock hlock hheld).resolve_left heq)
      · rw [Function.update_of_ne hshard] at hheld
        exact howned i u exclusive hheld
  | @unlocked res hphase =>
    have ht := hlocks.held t (by rw [hphase]; rfl)
    intro i u exclusive hheld
    change ((s.setMutex (s.threads t).op.shard _).mutex i).HeldBy u exclusive at hheld
    rw [mutex_setMutex] at hheld
    change (Function.update s.threads t _ u).phase.holds ∧ (Function.update s.threads t _ u).op.shard = i
    by_cases hshard : i = (s.threads t).op.shard
    · subst hshard
      rw [Function.update_self] at hheld
      obtain ⟨hne, hold⟩ := (hlocks.apart _).heldBy_of_unlock ht hheld
      rw [Function.update_of_ne hne]
      exact howned _ u exclusive hold
    · rw [Function.update_of_ne hshard] at hheld
      obtain ⟨hholds, hsame⟩ := howned i u exclusive hheld
      have hne : u ≠ t := by
        rintro rfl
        exact hshard hsame.symm
      rw [Function.update_of_ne hne]
      exact ⟨hholds, hsame⟩

/-- A call that has its lock waits for nobody. -/
theorem step_of_holds {map : Finmap fun _ : Bytes => Bytes} (hrep : Represents s map) (hshaped : (s.threads t).Shaped)
    (hmemory : (s.threads t).phase = .absent → s.elements < kMaxElements) (hholds : (s.threads t).phase.holds) :
    s.step t ≠ none := by
  have hself := hrep.threads t
  cases hphase : (s.threads t).phase with
  | idle => simp [hphase, Phase.holds] at hholds
  | called => simp [hphase, Phase.holds] at hholds
  | returning res => simp [hphase, Phase.holds] at hholds
  | locked =>
    cases hop : (s.threads t).op with
    | size => simp [Thread.Shaped, hphase, hop] at hshaped
    | get key => simp [State.step, hphase, hop]
    | set key value => simp [State.step, hphase, hop]
    | remove key =>
      simp only [State.step, hphase, hop]
      split <;> simp
  | found =>
    rw [Thread.Shaped, hphase] at hshaped
    rcases hshaped with ⟨key, hop⟩ | ⟨key, value, hop⟩
    · have hfound : (s.held key).isSome := by simpa [Thread.Ok, hphase, hop, Op.key] using hself
      obtain ⟨value, hvalue⟩ := Option.isSome_iff_exists.mp hfound
      have hlookup : (s.shards_ (Op.get key).shard).map.lookup key = some value := hvalue
      simp [State.step, hphase, hop, hlookup]
    · simp [State.step, hphase, hop]
  | absent =>
    rw [Thread.Shaped, hphase] at hshaped
    obtain ⟨key, value, hop⟩ := hshaped
    simp [State.step, hphase, hop, hmemory hphase]
  | counting =>
    rw [Thread.Shaped, hphase] at hshaped
    rcases hshaped with ⟨key, value, hop⟩ | ⟨key, hop⟩
    · simp [State.step, hphase, hop]
    · simp [State.step, hphase, hop]
  | unlocking res => simp [State.step, hphase]

/-- A mutex that cannot be locked is held by some thread. -/
theorem SharedMutex.exists_heldBy {mutex : SharedMutex} {exclusive : Bool} (hlock : mutex.lock t exclusive = none) :
    ∃ u exclusive', mutex.HeldBy u exclusive' := by
  cases hwriter : mutex.writer with
  | some u => exact ⟨u, true, hwriter⟩
  | none =>
    rcases mutex.readers.eq_empty_or_nonempty with hempty | ⟨u, hu⟩
    · cases exclusive <;> simp [SharedMutex.lock, hwriter, hempty] at hlock
    · exact ⟨u, false, hu⟩

/-- No deadlock: where no call can go on there is none. -/
theorem idle_of_stuck {map : Finmap fun _ : Bytes => Bytes} (hrep : Represents s map) (howned : Owned s)
    (hshaped : ∀ t, (s.threads t).Shaped) (hmemory : ∀ t, (s.threads t).phase = .absent → s.elements < kMaxElements)
    (hstuck : ∀ t, s.step t = none) (t : Nat) : (s.threads t).phase = .idle := by
  have hfree (u : Nat) : (s.threads u).phase.holds = false := by
    rw [Bool.eq_false_iff]
    exact fun hholds => step_of_holds hrep (hshaped u) (hmemory u) hholds (hstuck u)
  cases hphase : (s.threads t).phase with
  | idle => rfl
  | called =>
    have hnone := hstuck t
    have hlock : (s.shards_ (s.threads t).op.shard).mutex.lock t (s.threads t).op.exclusive = none := by
      cases hlock : (s.shards_ (s.threads t).op.shard).mutex.lock t (s.threads t).op.exclusive with
      | none => rfl
      | some mutex =>
        cases hop : (s.threads t).op <;> rw [hop] at hlock <;> simp [State.step, hphase, hop, hlock] at hnone
    obtain ⟨u, exclusive, hheld⟩ := SharedMutex.exists_heldBy hlock
    have hholds := (howned _ u exclusive hheld).1
    simp [hfree u] at hholds
  | returning res =>
    have hnone := hstuck t
    simp [State.step, hphase] at hnone
  | locked => simpa [hphase, Phase.holds] using hfree t
  | found => simpa [hphase, Phase.holds] using hfree t
  | absent => simpa [hphase, Phase.holds] using hfree t
  | counting => simpa [hphase, Phase.holds] using hfree t
  | unlocking res => simpa [hphase, Phase.holds] using hfree t

/-- A statement of one call in a sum over calls. -/
theorem sum_threads_step {T : Finset Nat} (ht : t ∈ T) (hothers : ∀ u, u ≠ t → s'.threads u = s.threads u)
    (f : Phase → Nat) :
    ∑ u ∈ T, f (s'.threads u).phase + f (s.threads t).phase =
      ∑ u ∈ T, f (s.threads u).phase + f (s'.threads t).phase := by
  have hsame : ∑ u ∈ T.erase t, f (s'.threads u).phase = ∑ u ∈ T.erase t, f (s.threads u).phase :=
    Finset.sum_congr rfl fun u hu => by rw [hothers u (Finset.ne_of_mem_erase hu)]
  rw [← Finset.add_sum_erase _ _ ht, ← Finset.add_sum_erase _ (fun u => f (s.threads u).phase) ht, hsame]
  omega

/-- What a call inserts was set aside for it. -/
theorem Move.elements_le {map : Finmap fun _ : Bytes => Bytes} (hrep : Represents s map) (hmove : Move s t s' events)
    (hcall : (s.threads t).phase ≠ .idle) :
    s'.elements + (s'.threads t).phase.inserts ≤ s.elements + (s.threads t).phase.inserts := by
  have hgoto {s' : State} {phase : Phase} (hmaps : ∀ i, (s'.shards_ i).map = (s.shards_ i).map)
      (hless : phase.inserts ≤ (s.threads t).phase.inserts) :
      (s'.goto t phase).elements + ((s'.goto t phase).threads t).phase.inserts ≤
        s.elements + (s.threads t).phase.inserts := by
    rw [threads_goto_self]
    exact Nat.add_le_add (elements_eq hmaps).le hless
  cases hmove with
  | called _ hphase => exact absurd hphase hcall
  | loaded hphase => exact hgoto (fun _ => rfl) (by simp [hphase, Phase.inserts])
  | locked hphase => exact hgoto (map_setMutex s _ · _) (by simp [hphase, Phase.inserts])
  | found hphase => exact hgoto (fun _ => rfl) (by simp [hphase, Phase.inserts])
  | absent hphase => exact hgoto (fun _ => rfl) (by simp [hphase, Phase.inserts])
  | missed hphase => exact hgoto (fun _ => rfl) (by simp [hphase, Phase.inserts])
  | copied hphase => exact hgoto (fun _ => rfl) (by simp [hphase, Phase.inserts])
  | added hphase => exact hgoto (fun _ => rfl) (by simp [hphase, Phase.inserts])
  | subtracted hphase => exact hgoto (fun _ => rfl) (by simp [hphase, Phase.inserts])
  | unlocked hphase => exact hgoto (map_setMutex s _ · _) (by simp [hphase, Phase.inserts])
  | returned hphase =>
    change s.elements + (Function.update s.threads t _ t).phase.inserts ≤ _
    rw [Function.update_self]
    exact Nat.add_le_add_left (Nat.zero_le _) _
  | @assigned key value hphase hop =>
    have hfound : (s.held key).isSome := by simpa [Thread.Ok, hphase, hop, Op.key] using hrep.threads t
    have hcount := elements_setMap s (KVStore.shard_for key) ((s.shards_ (KVStore.shard_for key)).map.insert key value)
    rw [length_keys_insert_of_mem (AList.lookup_isSome.mp hfound)] at hcount
    rw [threads_goto_self, hphase]
    change (s.setMap _ _).elements + 0 ≤ _
    omega
  | @emplaced key value hphase hop =>
    have habsent : s.held key = none := by simpa [Thread.Ok, hphase, hop, Op.key] using hrep.threads t
    have hcount := elements_setMap s (KVStore.shard_for key) ((s.shards_ (KVStore.shard_for key)).map.insert key value)
    rw [length_keys_insert_of_notMem (AList.lookup_eq_none.mp habsent)] at hcount
    rw [threads_goto_self, hphase]
    change (s.setMap _ _).elements + 0 ≤ s.elements + 1
    omega
  | @erased key hphase =>
    have hcount := elements_setMap s (KVStore.shard_for key) ((s.shards_ (KVStore.shard_for key)).map.erase key)
    have hless := @length_keys_erase_le key (s.shards_ (KVStore.shard_for key)).map
    rw [threads_goto_self, hphase]
    change (s.setMap _ _).elements + 0 ≤ _
    omega

/-- Only calls that are under way go on. -/
def Continues : Label → Prop
  | .call _ _ => False
  | .step _ => True

/-- How many statements a thread has executed. -/
def statements (t : Nat) (log : List (Transition.Step State Label (Event Op Result))) : Nat :=
  log.countP fun step =>
    match step.label with
    | .call _ _ => false
    | .step u => u = t

theorem statements_snoc (u t : Nat) (log : List (Transition.Step State Label (Event Op Result))) :
    statements u (log ++ [⟨s, .step t, events, s'⟩]) = statements u log + if u = t then 1 else 0 := by
  simp [statements, List.countP_singleton, eq_comm]

/-- The invariant of a store that takes no new calls, with the calls of the
    threads `T` under way. -/
structure Drains (T : Finset Nat) (log : List (Transition.Step State Label (Event Op Result))) (s : State) : Prop where
  refines : ∃ a, Refines s a
  owned : Owned s
  shaped : ∀ t, (s.threads t).Shaped
  idle : ∀ t, t ∉ T → (s.threads t).phase = .idle
  room : s.elements + ∑ t ∈ T, (s.threads t).phase.inserts ≤ kMaxElements
  work : ∀ t, statements t log + (s.threads t).phase.work ≤ 6
  length : log.length = ∑ t ∈ T, statements t log

theorem Drains.step {T : Finset Nat} {log : List (Transition.Step State Label (Event Op Result))}
    (hdrains : Drains T log s) (hstep : s.step t = some (s', events)) :
    Drains T (log ++ [⟨s, .step t, events, s'⟩]) s' := by
  have hmove := Move.of_step hstep
  have hcall : (s.threads t).phase ≠ .idle := by
    intro hidle
    simp [State.step, hidle] at hstep
  have ht : t ∈ T := by
    by_contra hnot
    exact hcall (hdrains.idle t hnot)
  obtain ⟨hwork, hothers⟩ := hmove.work_lt hcall
  obtain ⟨a, hrefines⟩ := hdrains.refines
  obtain ⟨a', -, hrefines'⟩ := hrefines.move hmove
  refine ⟨⟨a', hrefines'⟩, hdrains.owned.keep hrefines.locks hmove, fun u => ?_, fun u hu => ?_, ?_, fun u => ?_, ?_⟩
  · by_cases heq : u = t
    · subst heq
      exact shaped_of_step hstep
    · rw [hothers u heq]
      exact hdrains.shaped u
  · have hne : u ≠ t := fun heq => hu (heq ▸ ht)
    rw [hothers u hne]
    exact hdrains.idle u hu
  · have hsum := sum_threads_step ht hothers Phase.inserts
    have helements := hmove.elements_le hrefines.represents hcall
    have hroom := hdrains.room
    omega
  · have hbound := hdrains.work u
    rw [statements_snoc]
    by_cases heq : u = t
    · subst heq
      rw [if_pos rfl]
      omega
    · rw [if_neg heq, hothers u heq]
      exact hbound
  · simp [statements_snoc, Finset.sum_add_distrib, ht, hdrains.length]

theorem shaped_of_next {label : Label} (hshaped : ∀ t, (s.threads t).Shaped) (hnext : s.next label = some (s', events))
    (u : Nat) : (s'.threads u).Shaped := by
  cases label with
  | call t op =>
    simp only [State.next] at hnext
    split at hnext
    · obtain ⟨rfl, rfl⟩ := Prod.mk.inj (Option.some.inj hnext)
      change Thread.Shaped (Function.update s.threads t _ u)
      by_cases heq : u = t
      · subst heq
        rw [Function.update_self]
        trivial
      · rw [Function.update_of_ne heq]
        exact hshaped u
    · simp at hnext
  | step t =>
    by_cases heq : u = t
    · subst heq
      exact shaped_of_step hnext
    · have hcall : (s.threads t).phase ≠ .idle := by
        intro hidle
        simp [State.next, State.step, hidle] at hnext
      rw [((Move.of_step hnext).work_lt hcall).2 u heq]
      exact hshaped u

theorem sound_of_run {trace : List (Event Op Result)} (hrun : Run system (fun _ => True) system.init trace s) :
    (∃ a, Refines s a) ∧ Owned s ∧ ∀ t, (s.threads t).Shaped := by
  refine hrun.invariant (C := fun _ => True)
    (I := fun _ s => (∃ a, Refines s a) ∧ Owned s ∧ ∀ t, (s.threads t).Shaped) (fun _ _ _ => trivial) ?_ ?_ trivial
  · refine ⟨⟨spec.atomic.init, locks_init, represents_init, fun _ => rfl⟩, fun i t exclusive hheld => ?_,
      fun _ => trivial⟩
    cases exclusive <;> simp [system, State.mutex, SharedMutex.HeldBy] at hheld
  · rintro trace s label s' events ⟨⟨a, hrefines⟩, howned, hshaped⟩ - - hnext
    obtain ⟨t, hmove⟩ := Move.of_next hnext
    obtain ⟨a', -, hrefines'⟩ := hrefines.move hmove
    exact ⟨⟨a', hrefines'⟩, howned.keep hrefines.locks hmove, shaped_of_next hshaped hnext⟩

/-- Every call returns. Whatever threads have called and however their statements
    interleave, each call under way ends after at most six statements of its own;
    and where none of them can go on, all have returned: no call waits for ever
    for a lock. There has to be memory for what the calls may insert. -/
theorem calls_return {trace : List (Event Op Result)} (hrun : Run system (fun _ => True) system.init trace s)
    {T : Finset Nat} (hidle : ∀ t, t ∉ T → (s.threads t).phase = .idle) (hroom : s.elements + T.card ≤ kMaxElements)
    {log : List (Transition.Step State Label (Event Op Result))} {final : State}
    (hcontinue : Run system.logged Continues s log final) :
    (∀ t, statements t log ≤ 6) ∧ log.length ≤ 6 * T.card ∧
      ((∀ t, final.step t = none) → ∀ t, (final.threads t).phase = .idle) := by
  obtain ⟨hrefines, howned, hshaped⟩ := sound_of_run hrun
  have hinserts : ∑ t ∈ T, (s.threads t).phase.inserts ≤ T.card := by
    have hone (t : Nat) (_ : t ∈ T) : (s.threads t).phase.inserts ≤ 1 := by
      cases (s.threads t).phase <;> simp [Phase.inserts]
    simpa using Finset.sum_le_card_nsmul T _ 1 hone
  have hwork (t : Nat) : (s.threads t).phase.work ≤ 6 := by
    cases (s.threads t).phase <;> simp [Phase.work]
  have hdrains : Drains T log final := by
    refine hcontinue.logged_invariant (G := fun _ => True) (I := Drains T)
      ⟨hrefines, howned, hshaped, hidle, by omega, by simpa [statements] using hwork, by simp [statements]⟩ ?_
      fun _ _ => trivial
    intro log s label s' events hdrains hlabel _ hnext
    cases label with
    | call t op => exact hlabel.elim
    | step t => exact hdrains.step hnext
  obtain ⟨a, hfinal⟩ := hdrains.refines
  have heach (t : Nat) : statements t log ≤ 6 := Nat.le_of_add_right_le (hdrains.work t)
  refine ⟨heach, ?_, fun hstuck t => ?_⟩
  · rw [hdrains.length, Nat.mul_comm]
    exact Finset.sum_le_card_nsmul T _ 6 fun t _ => heach t
  refine idle_of_stuck hfinal.represents hdrains.owned hdrains.shaped (fun u hphase => ?_) hstuck t
  have hu : u ∈ T := by
    by_contra hnot
    simp [hdrains.idle u hnot] at hphase
  have hshare : 1 ≤ ∑ t ∈ T, (final.threads t).phase.inserts := by
    calc 1 = (final.threads u).phase.inserts := by rw [hphase]; rfl
      _ ≤ ∑ t ∈ T, (final.threads t).phase.inserts :=
        Finset.single_le_sum (fun t _ => Nat.zero_le ((final.threads t).phase.inserts)) hu
  have hroom' := hdrains.room
  omega

/-- A label of one of these threads. -/
def Label.Within (T : Finset Nat) : Label → Prop
  | .call t _ | .step t => t ∈ T

instance (T : Finset Nat) : DecidablePred (Label.Within T)
  | .call t _ | .step t => inferInstanceAs (Decidable (t ∈ T))

theorem idle_of_within {T : Finset Nat} {trace : List (Event Op Result)}
    (hrun : Run system (Label.Within T) system.init trace s) (u : Nat) (hu : u ∉ T) : (s.threads u).phase = .idle := by
  refine hrun.invariant (C := fun _ => True) (I := fun _ s => (s.threads u).phase = .idle)
    (fun _ _ _ => trivial) rfl ?_
    trivial
  intro trace s label s' events hidle hlabel _ hnext
  cases label with
  | call t op =>
    have hne : u ≠ t := fun heq => hu (heq ▸ hlabel)
    simp only [system, State.next] at hnext
    split at hnext
    · obtain ⟨rfl, rfl⟩ := Prod.mk.inj (Option.some.inj hnext)
      change (Function.update s.threads t _ u).phase = .idle
      rwa [Function.update_of_ne hne]
    · simp at hnext
  | step t =>
    have hne : u ≠ t := fun heq => hu (heq ▸ hlabel)
    have hcall : (s.threads t).phase ≠ .idle := by
      intro hidle
      simp [system, State.next, State.step, hidle] at hnext
    rwa [((Move.of_step hnext).work_lt hcall).2 u hne]

/-- Two writers of one key: the second one waits for the lock of the first. -/
theorem calls_return_example :
    ∃ trace s log final, Run system (fun _ => True) system.init trace s ∧ Run system.logged Continues s log final ∧
      s.step 1 = none ∧ (s.threads 1).phase = .called ∧ (final.threads 1).phase = .idle ∧
      statements 1 log ≤ 6 ∧ log.length ≤ 6 * 2 := by
  let check (s : State) (_ : List (Transition.Step State Label (Event Op Result))) (final : State) : Bool :=
    (s.step 1).isNone && (s.threads 1).phase = .called && (final.threads 1).phase = .idle &&
      s.elements + 2 ≤ kMaxElements
  obtain ⟨trace, s, log, final, hrun, hcontinue, hcheck⟩ : ∃ trace s log final,
      Run system (Label.Within {0, 1}) system.init trace s ∧ Run system.logged Continues s log final ∧
      check s log final := by
    refine Run.exists_phases_of_exec [.call 0 (.set (ascii "k") (ascii "x")), .call 1 (.set (ascii "k") (ascii "y")),
      .step 0] (List.replicate 5 (Label.step 0) ++ List.replicate 5 (Label.step 1)) check (by decide)
      (by simp [Continues]) ?_
    decide +kernel
  simp only [check, Bool.and_eq_true, decide_eq_true_eq, Option.isNone_iff_eq_none] at hcheck
  obtain ⟨⟨⟨hwaits, hcalled⟩, hreturned⟩, hroom⟩ := hcheck
  have hall := hrun.mono (Q := fun _ => True) fun _ _ => trivial
  obtain ⟨heach, htotal, _⟩ := calls_return hall (idle_of_within hrun) hroom hcontinue
  exact ⟨trace, s, log, final, hall, hcontinue, hwaits, hcalled, hreturned, heach 1, htotal⟩

end kv.concurrent
