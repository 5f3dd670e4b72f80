import Mathlib.Data.List.AList
import Kv.HashRing

namespace kv

def kShardCount : Nat := 16

/-- The sharded store between operations, when no shard lock is held. -/
structure KVStore where
  shards_ : Fin kShardCount → AList (fun _ : Bytes => Bytes) := fun _ => ∅
  size_ : UInt64 := 0

namespace KVStore

def shard_for (key : Bytes) : Fin kShardCount :=
  ⟨(fnv1a_hash key).toNat % kShardCount, Nat.mod_lt _ (by decide)⟩

/-- The `bool` result and the `out` argument of the source are one option. -/
def get (self : KVStore) (key : Bytes) : Option Bytes := (self.shards_ (shard_for key)).lookup key

def set (self : KVStore) (key value : Bytes) : KVStore :=
  let shard := self.shards_ (shard_for key)
  match shard.lookup key with
  | some _ => { self with shards_ := Function.update self.shards_ (shard_for key) (shard.insert key value) }
  | none =>
    { shards_ := Function.update self.shards_ (shard_for key) (shard.insert key value), size_ := self.size_ + 1 }

def remove (self : KVStore) (key : Bytes) : Bool × KVStore :=
  let shard := self.shards_ (shard_for key)
  match shard.lookup key with
  | none => (false, self)
  | some _ =>
    (true, { shards_ := Function.update self.shards_ (shard_for key) (shard.erase key), size_ := self.size_ - 1 })

def size (self : KVStore) : Nat := self.size_.toNat

/-- Writing back the shard of a key, changed for that key alone. -/
private theorem get_update (self : KVStore) (size : UInt64) (key other : Bytes)
    (shard : AList (fun _ : Bytes => Bytes))
    (hother : other ≠ key → shard.lookup other = (self.shards_ (shard_for key)).lookup other) :
    get ⟨Function.update self.shards_ (shard_for key) shard, size⟩ other =
      if other = key then shard.lookup key else self.get other := by
  by_cases heq : other = key
  · subst heq
    simp [get]
  · rw [get, get, if_neg heq]
    dsimp only
    by_cases hshard : shard_for other = shard_for key
    · rw [hshard, Function.update_self, hother heq]
    · rw [Function.update_of_ne hshard]

@[simp]
theorem get_empty (key : Bytes) : ({} : KVStore).get key = none := rfl

theorem get_set (self : KVStore) (key value other : Bytes) :
    (self.set key value).get other = if other = key then some value else self.get other := by
  have hinsert : other ≠ key → ((self.shards_ (shard_for key)).insert key value).lookup other =
      (self.shards_ (shard_for key)).lookup other := fun hne => AList.lookup_insert_ne hne
  have hget (size : UInt64) := get_update self size key other _ hinsert
  rw [AList.lookup_insert] at hget
  cases hlookup : (self.shards_ (shard_for key)).lookup key with
  | some _ => simpa only [set, hlookup] using hget _
  | none => simpa only [set, hlookup] using hget _

theorem size_set (self : KVStore) (key value : Bytes) :
    (self.set key value).size_ = if (self.get key).isSome then self.size_ else self.size_ + 1 := by
  cases hlookup : (self.shards_ (shard_for key)).lookup key <;> simp [set, get, hlookup]

theorem size_remove (self : KVStore) (key : Bytes) :
    (self.remove key).2.size_ = if (self.get key).isSome then self.size_ - 1 else self.size_ := by
  cases hlookup : (self.shards_ (shard_for key)).lookup key <;> simp [remove, get, hlookup]

theorem remove_fst (self : KVStore) (key : Bytes) : (self.remove key).1 = (self.get key).isSome := by
  cases hlookup : (self.shards_ (shard_for key)).lookup key <;> simp [remove, get, hlookup]

theorem get_remove (self : KVStore) (key other : Bytes) :
    (self.remove key).2.get other = if other = key then none else self.get other := by
  have herase : other ≠ key → ((self.shards_ (shard_for key)).erase key).lookup other =
      (self.shards_ (shard_for key)).lookup other := fun hne => AList.lookup_erase_ne hne
  have hget (size : UInt64) := get_update self size key other _ herase
  rw [AList.lookup_erase] at hget
  cases hlookup : (self.shards_ (shard_for key)).lookup key with
  | some _ => simpa only [remove, hlookup] using hget _
  | none =>
    simp only [remove, hlookup]
    split
    · rename_i heq
      rw [heq]
      exact hlookup
    · rfl

end KVStore

end kv
