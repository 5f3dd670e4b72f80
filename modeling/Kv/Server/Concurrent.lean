import Mathlib.Algebra.BigOperators.Group.Finset.Basic
import Mathlib.Data.Finmap
import Mathlib.Data.Fintype.BigOperators
import Kv.Lib.Linearizability
import Kv.Server.KVStore

namespace kv.concurrent

open Transition Linearizability

inductive Op
  | get (key : Bytes)
  | set (key value : Bytes)
  | remove (key : Bytes)
  | size
  deriving DecidableEq

inductive Result
  | value (found : Option Bytes)
  | done
  | removed (found : Bool)
  | size (n : Nat)
  deriving DecidableEq

/-- `std::shared_mutex`, with the threads that hold it. -/
structure SharedMutex where
  readers : Finset Nat := ∅
  writer : Option Nat := none
  deriving DecidableEq

structure Shard where
  mutex : SharedMutex := {}
  map : AList (fun _ : Bytes => Bytes) := ∅

/-- Where a thread stands in its current call. A thread that has found its key
    copies or overwrites the value, one that has not found it inserts it; one
    that counts has changed the map and not yet `size_`. -/
inductive Phase
  | idle
  | called
  | locked
  | found
  | absent
  | counting
  | unlocking (res : Result)
  | returning (res : Result)
  deriving DecidableEq

structure Thread where
  phase : Phase := .idle
  op : Op := .size
  calls : Nat := 0
  deriving DecidableEq

/-- A `KVStore` with the threads that work on it. -/
structure State where
  shards_ : Fin kShardCount → Shard := fun _ => {}
  size_ : UInt64 := 0
  threads : Nat → Thread := fun _ => {}

inductive Label
  | call (t : Nat) (op : Op)
  | step (t : Nat)

/-- The key of an operation; `size()` has none. -/
def Op.key : Op → Bytes
  | .get key => key
  | .set key _ => key
  | .remove key => key
  | .size => []

def Op.shard (op : Op) : Fin kShardCount := KVStore.shard_for op.key

/-- Whether the operation takes a `std::unique_lock`. -/
def Op.exclusive : Op → Bool
  | .set _ _ => true
  | .remove _ => true
  | _ => false

/-- An element holds two strings, each of them a pointer at least, so an address
    space of 2^64 bytes has no room for more elements than this. -/
def kMaxElements : Nat := 2 ^ 60

/-- The mutex after a thread has locked it, once it is free for that. -/
def SharedMutex.lock (self : SharedMutex) (t : Nat) (exclusive : Bool) : Option SharedMutex :=
  if exclusive then
    if self.writer = none ∧ self.readers = ∅ then some { self with writer := some t } else none
  else
    if self.writer = none then some { self with readers := insert t self.readers } else none

def SharedMutex.unlock (self : SharedMutex) (t : Nat) (exclusive : Bool) : SharedMutex :=
  if exclusive then { self with writer := none } else { self with readers := self.readers.erase t }

namespace State

def setThread (self : State) (t : Nat) (thread : Thread) : State :=
  { self with threads := Function.update self.threads t thread }

def goto (self : State) (t : Nat) (phase : Phase) : State := self.setThread t { self.threads t with phase }

def setMutex (self : State) (i : Fin kShardCount) (mutex : SharedMutex) : State :=
  { self with shards_ := Function.update self.shards_ i { self.shards_ i with mutex } }

def setMap (self : State) (i : Fin kShardCount) (map : AList (fun _ : Bytes => Bytes)) : State :=
  { self with shards_ := Function.update self.shards_ i { self.shards_ i with map } }

/-- What the shard of a key holds for it. -/
def held (self : State) (key : Bytes) : Option Bytes := (self.shards_ (KVStore.shard_for key)).map.lookup key

/-- The elements in all shards. -/
def elements (self : State) : Nat := ∑ i, (self.shards_ i).map.keys.length

/-- The next statement of a thread. `emplace` without memory throws, which
    nothing catches. -/
def step (self : State) (t : Nat) : Option (State × List (Event Op Result)) :=
  let thread := self.threads t
  let i := thread.op.shard
  let shard := self.shards_ i
  let goto (self : State) (phase : Phase) := some (self.goto t phase, [])
  match thread.phase, thread.op with
  | .idle, _ => none
  | .called, .size => goto self (.returning (.size self.size_.toNat))
  | .called, op =>
    match shard.mutex.lock t op.exclusive with
    | none => none
    | some mutex => goto (self.setMutex i mutex) .locked
  | .locked, .get key => goto self (if (shard.map.lookup key).isSome then .found else .unlocking (.value none))
  | .locked, .set key _ => goto self (if (shard.map.lookup key).isSome then .found else .absent)
  | .locked, .remove key =>
    if (shard.map.lookup key).isSome then goto (self.setMap i (shard.map.erase key)) .counting
    else goto self (.unlocking (.removed false))
  | .found, .get key =>
    match shard.map.lookup key with
    | none => none
    | some value => goto self (.unlocking (.value (some value)))
  | .found, .set key value => goto (self.setMap i (shard.map.insert key value)) (.unlocking .done)
  | .absent, .set key value =>
    if self.elements < kMaxElements then goto (self.setMap i (shard.map.insert key value)) .counting else none
  | .counting, .set _ _ => goto { self with size_ := self.size_ + 1 } (.unlocking .done)
  | .counting, .remove _ => goto { self with size_ := self.size_ - 1 } (.unlocking (.removed true))
  | .unlocking res, op => goto (self.setMutex i (shard.mutex.unlock t op.exclusive)) (.returning res)
  | .returning res, _ =>
    some (self.setThread t { thread with phase := .idle, calls := thread.calls + 1 }, [.ret (t, thread.calls) res])
  | _, _ => none

/-- A thread calls any operation at any time, and goes on whenever it can. -/
def next (self : State) : Label → Option (State × List (Event Op Result))
  | .call t op =>
    let thread := self.threads t
    if thread.phase = .idle then
      some (self.setThread t { thread with phase := .called, op }, [.call (t, thread.calls) op])
    else none
  | .step t => self.step t

end State

def system : System State Label (Event Op Result) where
  init := {}
  step := State.next

/-- What a thread can do. -/
inductive Move (s : State) (t : Nat) : State → List (Event Op Result) → Prop
  | called (op : Op) (hphase : (s.threads t).phase = .idle) :
      Move s t (s.setThread t { s.threads t with phase := .called, op }) [.call (t, (s.threads t).calls) op]
  | loaded (hphase : (s.threads t).phase = .called) (hop : (s.threads t).op = .size) :
      Move s t (s.goto t (.returning (.size s.size_.toNat))) []
  | locked {mutex : SharedMutex} (hphase : (s.threads t).phase = .called)
      (hlock : (s.shards_ (s.threads t).op.shard).mutex.lock t (s.threads t).op.exclusive = some mutex) :
      Move s t ((s.setMutex (s.threads t).op.shard mutex).goto t .locked) []
  | found (hphase : (s.threads t).phase = .locked) (hheld : (s.held (s.threads t).op.key).isSome) :
      Move s t (s.goto t .found) []
  | absent (hphase : (s.threads t).phase = .locked) (hheld : s.held (s.threads t).op.key = none) :
      Move s t (s.goto t .absent) []
  | missed {key : Bytes} {res : Result} (hphase : (s.threads t).phase = .locked) (hheld : s.held key = none)
      (hop : (s.threads t).op = .get key ∧ res = .value none ∨ (s.threads t).op = .remove key ∧ res = .removed false) :
      Move s t (s.goto t (.unlocking res)) []
  | copied {key value : Bytes} (hphase : (s.threads t).phase = .found) (hop : (s.threads t).op = .get key)
      (hheld : s.held key = some value) : Move s t (s.goto t (.unlocking (.value (some value)))) []
  | assigned {key value : Bytes} (hphase : (s.threads t).phase = .found) (hop : (s.threads t).op = .set key value) :
      Move s t ((s.setMap (KVStore.shard_for key)
        ((s.shards_ (KVStore.shard_for key)).map.insert key value)).goto t (.unlocking .done)) []
  | emplaced {key value : Bytes} (hphase : (s.threads t).phase = .absent) (hop : (s.threads t).op = .set key value)
      (hmemory : s.elements < kMaxElements) :
      Move s t ((s.setMap (KVStore.shard_for key)
        ((s.shards_ (KVStore.shard_for key)).map.insert key value)).goto t .counting) []
  | erased {key : Bytes} (hphase : (s.threads t).phase = .locked) (hop : (s.threads t).op = .remove key)
      (hheld : (s.held key).isSome) :
      Move s t ((s.setMap (KVStore.shard_for key)
        ((s.shards_ (KVStore.shard_for key)).map.erase key)).goto t .counting) []
  | added {key value : Bytes} (hphase : (s.threads t).phase = .counting) (hop : (s.threads t).op = .set key value) :
      Move s t (({ s with size_ := s.size_ + 1 } : State).goto t (.unlocking .done)) []
  | subtracted {key : Bytes} (hphase : (s.threads t).phase = .counting) (hop : (s.threads t).op = .remove key) :
      Move s t (({ s with size_ := s.size_ - 1 } : State).goto t (.unlocking (.removed true))) []
  | unlocked {res : Result} (hphase : (s.threads t).phase = .unlocking res) :
      Move s t ((s.setMutex (s.threads t).op.shard
        ((s.shards_ (s.threads t).op.shard).mutex.unlock t (s.threads t).op.exclusive)).goto t (.returning res)) []
  | returned {res : Result} (hphase : (s.threads t).phase = .returning res) :
      Move s t (s.setThread t { s.threads t with phase := .idle, calls := (s.threads t).calls + 1 })
        [.ret (t, (s.threads t).calls) res]

theorem Move.of_step {s s' : State} {t : Nat} {events : List (Event Op Result)}
    (hstep : s.step t = some (s', events)) :
    Move s t s' events := by
  unfold State.step at hstep
  dsimp only at hstep
  split at hstep
  · simp at hstep
  · rename_i hphase hop
    obtain ⟨rfl, rfl⟩ := Prod.mk.inj (Option.some.inj hstep)
    exact .loaded hphase hop
  · rename_i hphase _
    split at hstep
    · simp at hstep
    · rename_i mutex hlock
      obtain ⟨rfl, rfl⟩ := Prod.mk.inj (Option.some.inj hstep)
      exact .locked hphase hlock
  · rename_i key hphase hop
    obtain ⟨rfl, rfl⟩ := Prod.mk.inj (Option.some.inj hstep)
    rw [hop]
    split
    · rename_i hheld
      exact .found hphase (by rw [hop]; exact hheld)
    · rename_i hheld
      exact .missed hphase (Option.not_isSome_iff_eq_none.mp hheld) (.inl ⟨hop, rfl⟩)
  · rename_i key value hphase hop
    obtain ⟨rfl, rfl⟩ := Prod.mk.inj (Option.some.inj hstep)
    rw [hop]
    split
    · rename_i hheld
      exact .found hphase (by rw [hop]; exact hheld)
    · rename_i hheld
      exact .absent hphase (by rw [hop]; exact Option.not_isSome_iff_eq_none.mp hheld)
  · rename_i key hphase hop
    rw [hop] at hstep
    split at hstep
    · rename_i hheld
      obtain ⟨rfl, rfl⟩ := Prod.mk.inj (Option.some.inj hstep)
      exact .erased hphase hop hheld
    · rename_i hheld
      obtain ⟨rfl, rfl⟩ := Prod.mk.inj (Option.some.inj hstep)
      exact .missed hphase (Option.not_isSome_iff_eq_none.mp hheld) (.inr ⟨hop, rfl⟩)
  · rename_i key hphase hop
    rw [hop] at hstep
    split at hstep
    · simp at hstep
    · rename_i value hheld
      obtain ⟨rfl, rfl⟩ := Prod.mk.inj (Option.some.inj hstep)
      exact .copied hphase hop hheld
  · rename_i key value hphase hop
    rw [hop] at hstep
    obtain ⟨rfl, rfl⟩ := Prod.mk.inj (Option.some.inj hstep)
    exact .assigned hphase hop
  · rename_i key value hphase hop
    rw [hop] at hstep
    split at hstep
    · rename_i hmemory
      obtain ⟨rfl, rfl⟩ := Prod.mk.inj (Option.some.inj hstep)
      exact .emplaced hphase hop hmemory
    · simp at hstep
  · rename_i key value hphase hop
    obtain ⟨rfl, rfl⟩ := Prod.mk.inj (Option.some.inj hstep)
    exact .added hphase hop
  · rename_i key hphase hop
    obtain ⟨rfl, rfl⟩ := Prod.mk.inj (Option.some.inj hstep)
    exact .subtracted hphase hop
  · rename_i res op hphase
    obtain ⟨rfl, rfl⟩ := Prod.mk.inj (Option.some.inj hstep)
    exact .unlocked hphase
  · rename_i res hphase
    obtain ⟨rfl, rfl⟩ := Prod.mk.inj (Option.some.inj hstep)
    exact .returned hphase
  · simp at hstep

theorem Move.of_next {s s' : State} {label : Label} {events : List (Event Op Result)}
    (hnext : s.next label = some (s', events)) : ∃ t, Move s t s' events := by
  cases label with
  | call t op =>
    simp only [State.next] at hnext
    split at hnext
    · rename_i hphase
      obtain ⟨rfl, rfl⟩ := Prod.mk.inj (Option.some.inj hnext)
      exact ⟨t, .called op hphase⟩
    · simp at hnext
  | step t => exact ⟨t, .of_step hnext⟩

end kv.concurrent
