import Kv.Server.Concurrent

namespace kv.concurrent

namespace SharedMutex

variable {mutex mutex' : SharedMutex} {t u : Nat} {exclusive exclusive' : Bool}

/-- The thread is among the holders of the mutex, in this mode. -/
def HeldBy (self : SharedMutex) (t : Nat) (exclusive : Bool) : Prop :=
  if exclusive then self.writer = some t else t ∈ self.readers

/-- A writer shares the mutex with no reader. -/
def Apart (self : SharedMutex) : Prop := ∀ t, self.writer = some t → self.readers = ∅

theorem Apart.eq_of_heldBy (hapart : mutex.Apart) (ht : mutex.HeldBy t true) (hu : mutex.HeldBy u exclusive) :
    u = t := by
  have hwriter : mutex.writer = some t := ht
  cases exclusive with
  | true =>
    have hwriter' : mutex.writer = some u := hu
    exact Option.some.inj (hwriter'.symm.trans hwriter)
  | false =>
    have hreader : u ∈ mutex.readers := hu
    simp [hapart t hwriter] at hreader

theorem apart_of_lock (hlock : mutex.lock t exclusive = some mutex') :
    mutex'.Apart ∧ mutex'.HeldBy t exclusive ∧
      ∀ u exclusive', mutex.HeldBy u exclusive' → mutex'.HeldBy u exclusive' := by
  unfold SharedMutex.lock at hlock
  cases exclusive with
  | true =>
    rw [if_pos rfl] at hlock
    split at hlock
    · rename_i hfree
      obtain rfl := Option.some.inj hlock
      refine ⟨fun _ _ => hfree.2, rfl, fun u exclusive' hu => ?_⟩
      cases exclusive' with
      | true => simp [HeldBy, hfree.1] at hu
      | false => simp [HeldBy, hfree.2] at hu
    · simp at hlock
  | false =>
    rw [if_neg Bool.false_ne_true] at hlock
    split at hlock
    · rename_i hfree
      obtain rfl := Option.some.inj hlock
      refine ⟨fun t' hwriter => by simp [hfree] at hwriter, Finset.mem_insert_self .., fun u exclusive' hu => ?_⟩
      cases exclusive' with
      | true => exact hu
      | false => exact Finset.mem_insert_of_mem hu
    · simp at hlock

theorem Apart.unlock (hapart : mutex.Apart) (ht : mutex.HeldBy t exclusive) :
    (mutex.unlock t exclusive).Apart ∧
      ∀ u exclusive', u ≠ t → mutex.HeldBy u exclusive' → (mutex.unlock t exclusive).HeldBy u exclusive' := by
  unfold SharedMutex.unlock
  cases exclusive with
  | true =>
    refine ⟨fun t' hwriter => by simp at hwriter, fun u exclusive' hne hu => ?_⟩
    exact absurd (hapart.eq_of_heldBy ht hu) hne
  | false =>
    refine ⟨fun t' hwriter => ?_, fun u exclusive' hne hu => ?_⟩
    · rw [if_neg Bool.false_ne_true, hapart t' hwriter]
      rfl
    · cases exclusive' with
      | true => exact hu
      | false => exact Finset.mem_erase.mpr ⟨hne, hu⟩

end SharedMutex

/-- The phases in which a thread holds the lock of its shard. -/
def Phase.holds : Phase → Bool
  | .locked => true
  | .found => true
  | .absent => true
  | .counting => true
  | .unlocking _ => true
  | _ => false

def State.mutex (self : State) (i : Fin kShardCount) : SharedMutex := (self.shards_ i).mutex

/-- The mutexes know their holders. -/
structure Locks (s : State) : Prop where
  held : ∀ t, (s.threads t).phase.holds → (s.mutex (s.threads t).op.shard).HeldBy t (s.threads t).op.exclusive
  apart : ∀ i, (s.mutex i).Apart

variable {s s' : State} {t u : Nat}

/-- A thread that may write has its shard to itself. -/
theorem Locks.eq_of_shard (hlocks : Locks s) (ht : (s.threads t).phase.holds) (hexclusive : (s.threads t).op.exclusive)
    (hu : (s.threads u).phase.holds) (hshard : (s.threads u).op.shard = (s.threads t).op.shard) : u = t := by
  have hheld := hlocks.held t ht
  rw [hexclusive] at hheld
  have hheld' := hlocks.held u hu
  rw [hshard] at hheld'
  exact (hlocks.apart _).eq_of_heldBy hheld hheld'

theorem Locks.update (hlocks : Locks s) {thread : Thread} (hthreads : s'.threads = Function.update s.threads t thread)
    (hself : thread.phase.holds → (s'.mutex thread.op.shard).HeldBy t thread.op.exclusive)
    (hothers : ∀ i u exclusive, u ≠ t → (s.mutex i).HeldBy u exclusive → (s'.mutex i).HeldBy u exclusive)
    (hapart : ∀ i, (s'.mutex i).Apart) : Locks s' where
  held u := by
    rw [hthreads]
    by_cases heq : u = t
    · subst heq
      rwa [Function.update_self]
    · rw [Function.update_of_ne heq]
      exact fun hu => hothers _ u _ heq (hlocks.held u hu)
  apart := hapart

/-- A thread goes on without a change to the mutexes. -/
theorem Locks.stay (hlocks : Locks s) {thread : Thread} (hthreads : s'.threads = Function.update s.threads t thread)
    (hmutex : s'.mutex = s.mutex)
    (hself : thread.phase.holds → (s.threads t).phase.holds ∧ thread.op = (s.threads t).op) : Locks s' := by
  refine hlocks.update hthreads (fun hholds => ?_) (fun i u exclusive _ hu => ?_) fun i => ?_
  · obtain ⟨hholds', hop⟩ := hself hholds
    rw [hmutex, hop]
    exact hlocks.held t hholds'
  · rwa [hmutex]
  · rw [hmutex]
    exact hlocks.apart i

theorem threads_goto (hthreads : s'.threads = s.threads) {phase : Phase} :
    (s'.goto t phase).threads = Function.update s.threads t { s.threads t with phase } := by
  rw [State.goto, State.setThread, hthreads]

theorem Locks.goto (hlocks : Locks s) {phase : Phase} (hthreads : s'.threads = s.threads) (hmutex : s'.mutex = s.mutex)
    (hholds : (s.threads t).phase.holds) : Locks (s'.goto t phase) :=
  hlocks.stay (threads_goto hthreads) hmutex fun _ => ⟨hholds, rfl⟩

theorem mutex_setMutex (s : State) (i : Fin kShardCount) (mutex : SharedMutex) :
    (s.setMutex i mutex).mutex = Function.update s.mutex i mutex := by
  funext j
  by_cases heq : j = i
  · subst heq
    simp [State.mutex, State.setMutex]
  · simp [State.mutex, State.setMutex, Function.update_of_ne heq]

@[simp] theorem mutex_setMap (s : State) (i : Fin kShardCount) (map : AList (fun _ : Bytes => Bytes)) :
    (s.setMap i map).mutex = s.mutex := by
  funext j
  by_cases heq : j = i
  · subst heq
    simp [State.mutex, State.setMap]
  · simp [State.mutex, State.setMap, Function.update_of_ne heq]

/-- A thread locks or unlocks the mutex of its shard. -/
theorem Locks.setMutex (hlocks : Locks s) {mutex : SharedMutex} {phase : Phase} (hapart : mutex.Apart)
    (hself : phase.holds → mutex.HeldBy t (s.threads t).op.exclusive)
    (hothers : ∀ u exclusive, u ≠ t → (s.mutex (s.threads t).op.shard).HeldBy u exclusive → mutex.HeldBy u exclusive) :
    Locks ((s.setMutex (s.threads t).op.shard mutex).goto t phase) := by
  have hmutex : ((s.setMutex (s.threads t).op.shard mutex).goto t phase).mutex =
      Function.update s.mutex (s.threads t).op.shard mutex := mutex_setMutex ..
  refine hlocks.update (t := t) (by rfl) ?_ ?_ ?_
  · rw [hmutex]
    intro hholds
    change (Function.update s.mutex (s.threads t).op.shard mutex (s.threads t).op.shard).HeldBy t _
    rw [Function.update_self]
    exact hself hholds
  · intro i u exclusive hne hu
    rw [hmutex]
    by_cases heq : i = (s.threads t).op.shard
    · subst heq
      rw [Function.update_self]
      exact hothers u exclusive hne hu
    · rwa [Function.update_of_ne heq]
  · intro i
    rw [hmutex]
    by_cases heq : i = (s.threads t).op.shard
    · subst heq
      rwa [Function.update_self]
    · rw [Function.update_of_ne heq]
      exact hlocks.apart i

/-- One statement of a thread. -/
theorem Locks.keep (hlocks : Locks s) {events : List (Linearizability.Event Op Result)} (hmove : Move s t s' events) :
    Locks s' := by
  cases hmove with
  | called => exact hlocks.stay (by rfl) (by rfl) (by simp [Phase.holds])
  | loaded => exact hlocks.stay (by rfl) (by rfl) (by simp [Phase.holds])
  | returned => exact hlocks.stay (by rfl) (by rfl) (by simp [Phase.holds])
  | found hphase => exact hlocks.goto rfl rfl (by rw [hphase]; rfl)
  | absent hphase => exact hlocks.goto rfl rfl (by rw [hphase]; rfl)
  | missed hphase => exact hlocks.goto rfl rfl (by rw [hphase]; rfl)
  | copied hphase => exact hlocks.goto rfl rfl (by rw [hphase]; rfl)
  | assigned hphase => exact hlocks.goto rfl (mutex_setMap ..) (by rw [hphase]; rfl)
  | emplaced hphase => exact hlocks.goto rfl (mutex_setMap ..) (by rw [hphase]; rfl)
  | erased hphase => exact hlocks.goto rfl (mutex_setMap ..) (by rw [hphase]; rfl)
  | added hphase => exact hlocks.goto rfl rfl (by rw [hphase]; rfl)
  | subtracted hphase => exact hlocks.goto rfl rfl (by rw [hphase]; rfl)
  | locked hphase hlock =>
    obtain ⟨hapart, hself, hothers⟩ := SharedMutex.apart_of_lock hlock
    exact hlocks.setMutex hapart (fun _ => hself) fun u exclusive _ => hothers u exclusive
  | unlocked hphase =>
    have hheld := hlocks.held t (by rw [hphase]; rfl)
    obtain ⟨hapart, hothers⟩ := (hlocks.apart _).unlock hheld
    exact hlocks.setMutex hapart (by simp [Phase.holds]) fun u exclusive hne => hothers u exclusive hne

theorem locks_init : Locks {} where
  held _ hholds := nomatch hholds
  apart _ _ hwriter := nomatch hwriter

end kv.concurrent
