import Kv.Server.Linearization

namespace kv.concurrent

open Linearizability

/-- The store of a server that executes one operation at a time. -/
def State.store (self : State) : KVStore where
  shards_ i := (self.shards_ i).map
  size_ := self.size_

/-- An operation on this store. -/
def performs (store : KVStore) : Op → Result × KVStore
  | .get key => (.value (store.get key), store)
  | .set key value => (.done, store.set key value)
  | .remove key => (.removed (store.remove key).1, (store.remove key).2)
  | .size => (.size store.size, store)

/-- The plain map that this store stands for. -/
structure Holds (store : KVStore) (map : Finmap fun _ : Bytes => Bytes) : Prop where
  lookup : ∀ key, map.lookup key = store.get key
  size : store.size_ = UInt64.ofNat map.keys.card

variable {store : KVStore} {map : Finmap fun _ : Bytes => Bytes}

/-- Between operations the shared store is such a store, for the map that it is
    linearized to. -/
theorem Represents.holds {s : State} (hrep : Represents s map) (hquiet : ∀ t, (s.threads t).phase ≠ .counting) :
    Holds s.store map where
  lookup key := hrep.agrees key fun t hphase => absurd hphase (hquiet t)
  size := hrep.size

theorem Holds.mem_keys_iff (hholds : Holds store map) (key : Bytes) : key ∈ map.keys ↔ (store.get key).isSome := by
  rw [Finmap.mem_keys, ← Finmap.lookup_isSome, hholds.lookup]

theorem Holds.set (hholds : Holds store map) (key value : Bytes) :
    Holds (store.set key value) (map.insert key value) where
  lookup other := by
    rw [KVStore.get_set]
    split
    · rename_i heq
      rw [heq, Finmap.lookup_insert]
    · rename_i hne
      rw [Finmap.lookup_insert_of_ne _ hne, hholds.lookup]
  size := by
    rw [keys_insert, KVStore.size_set]
    split
    · rename_i hfound
      rw [Finset.insert_eq_of_mem ((hholds.mem_keys_iff key).mpr hfound)]
      exact hholds.size
    · rename_i habsent
      rw [Finset.card_insert_of_notMem (mt (hholds.mem_keys_iff key).mp habsent), UInt64.ofNat_add, hholds.size]
      rfl

theorem Holds.remove (hholds : Holds store map) (key : Bytes) : Holds (store.remove key).2 (map.erase key) where
  lookup other := by
    rw [KVStore.get_remove]
    split
    · rename_i heq
      rw [heq, Finmap.lookup_erase]
    · rename_i hne
      rw [Finmap.lookup_erase_ne hne, hholds.lookup]
  size := by
    rw [Finmap.keys_erase, KVStore.size_remove]
    split
    · rename_i hfound
      have hmem := (hholds.mem_keys_iff key).mpr hfound
      rw [Finset.card_erase_of_mem hmem, UInt64.ofNat_sub (Finset.card_pos.mpr ⟨key, hmem⟩), hholds.size]
      rfl
    · rename_i habsent
      rw [Finset.erase_eq_of_notMem (mt (hholds.mem_keys_iff key).mp habsent)]
      exact hholds.size

/-- The store that executes one operation at a time gives the results of the
    plain map, and goes on standing for it. So it is the object that the shared
    store is linearizable to. -/
theorem Holds.performs (hholds : Holds store map) (hcard : map.keys.card < 2 ^ 64) (op : Op) :
    (performs store op).1 = (spec.perform map op).1 ∧ Holds (performs store op).2 (spec.perform map op).2 := by
  cases op with
  | get key => exact ⟨congrArg Result.value (hholds.lookup key).symm, hholds⟩
  | set key value => exact ⟨rfl, hholds.set key value⟩
  | remove key =>
    refine ⟨congrArg Result.removed ?_, hholds.remove key⟩
    rw [KVStore.remove_fst, hholds.lookup]
  | size =>
    refine ⟨congrArg Result.size ?_, hholds⟩
    rw [KVStore.size, hholds.size, UInt64.toNat_ofNat']
    exact Nat.mod_eq_of_lt hcard

end kv.concurrent
