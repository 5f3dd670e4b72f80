import Mathlib.Algebra.Order.BigOperators.Group.Finset
import Kv.Server.Locking

namespace kv.concurrent

open Transition Linearizability

/-- What a thread knows of its key: what the shard holds for it, and what the
    plain map does. A change of the number of keys takes effect with the change
    of `size_`, so in between the two differ. -/
def Thread.Ok (self : Thread) (held kept : Option Bytes) : Prop :=
  match self.phase, self.op with
  | .found, _ => held.isSome
  | .absent, _ => held = none
  | .counting, .set _ value => held = some value ∧ kept = none
  | .counting, .remove _ => held = none ∧ kept.isSome
  | .counting, _ => False
  | _, _ => True

/-- The plain map that the store stands for. -/
structure Represents (s : State) (map : Finmap fun _ : Bytes => Bytes) : Prop where
  threads : ∀ t, (s.threads t).Ok (s.held (s.threads t).op.key) (map.lookup (s.threads t).op.key)
  agrees : ∀ key, (∀ t, (s.threads t).phase = .counting → (s.threads t).op.key ≠ key) → map.lookup key = s.held key
  placed : ∀ i key, key ∈ (s.shards_ i).map → KVStore.shard_for key = i
  size : s.size_ = UInt64.ofNat map.keys.card
  bounded : s.elements ≤ kMaxElements

variable {s s' : State} {t u : Nat} {map map' : Finmap fun _ : Bytes => Bytes} {thread : Thread}

theorem Thread.Ok.exclusive {held kept : Option Bytes} (hok : thread.Ok held kept)
    (hphase : thread.phase = .counting) :
    thread.op.exclusive := by
  unfold Thread.Ok at hok
  rw [hphase] at hok
  cases hop : thread.op with
  | set key value => rfl
  | remove key => rfl
  | get key => simp [hop] at hok
  | size => simp [hop] at hok

/-- A thread that has the lock and is not about to count sees the plain map. -/
theorem Represents.kept_eq (hrep : Represents s map) (hlocks : Locks s) (hholds : (s.threads t).phase.holds)
    (hcounting : (s.threads t).phase ≠ .counting) {key : Bytes} (hkey : (s.threads t).op.key = key) :
    map.lookup key = s.held key := by
  refine hrep.agrees key fun u hu hsame => hcounting ?_
  have hshard : (s.threads t).op.shard = (s.threads u).op.shard := by rw [Op.shard, Op.shard, hsame, hkey]
  have heq := hlocks.eq_of_shard (by rw [hu]; rfl) ((hrep.threads u).exclusive hu) hholds hshard
  rwa [heq]

theorem held_eq (hmaps : ∀ i, (s'.shards_ i).map = (s.shards_ i).map) (key : Bytes) : s'.held key = s.held key := by
  rw [State.held, State.held, hmaps]

theorem elements_eq (hmaps : ∀ i, (s'.shards_ i).map = (s.shards_ i).map) : s'.elements = s.elements := by
  simp only [State.elements, hmaps]

/-- A thread goes on without a change to the store. -/
theorem Represents.stay (hrep : Represents s map) (hmaps : ∀ i, (s'.shards_ i).map = (s.shards_ i).map)
    (hsize : s'.size_ = s.size_) (hthreads : s'.threads = Function.update s.threads t thread)
    (hbefore : (s.threads t).phase ≠ .counting)
    (hself : thread.Ok (s.held thread.op.key) (map.lookup thread.op.key)) : Represents s' map where
  threads u := by
    rw [hthreads, held_eq hmaps]
    by_cases heq : u = t
    · subst heq
      rwa [Function.update_self]
    · rw [Function.update_of_ne heq]
      exact hrep.threads u
  agrees key hkey := by
    rw [held_eq hmaps]
    refine hrep.agrees key fun u hu => ?_
    have hne : u ≠ t := by
      rintro rfl
      exact hbefore hu
    have hkey' := hkey u
    rw [hthreads, Function.update_of_ne hne] at hkey'
    exact hkey' hu
  placed i key hmem := hrep.placed i key (by rwa [hmaps] at hmem)
  size := hsize.trans hrep.size
  bounded := (elements_eq hmaps).trans_le hrep.bounded

theorem Represents.goto (hrep : Represents s map) (hmaps : ∀ i, (s'.shards_ i).map = (s.shards_ i).map)
    (hsize : s'.size_ = s.size_) (hthreads : s'.threads = s.threads) (hbefore : (s.threads t).phase ≠ .counting)
    {phase : Phase} (hself : Thread.Ok { s.threads t with phase } (s.held (s.threads t).op.key)
      (map.lookup (s.threads t).op.key)) : Represents (s'.goto t phase) map :=
  hrep.stay hmaps hsize (threads_goto hthreads) hbefore hself

theorem erase_of_lookup_eq_none {key : Bytes} (hlookup : map.lookup key = none) : map.erase key = map := by
  apply Finmap.ext_lookup
  intro other
  by_cases heq : other = key
  · rw [heq, Finmap.lookup_erase, hlookup]
  · rw [Finmap.lookup_erase_ne heq]

/-- A thread that may write changes the store, or what it stands for, at its
    key. -/
theorem Represents.change (hrep : Represents s map) (hlocks : Locks s) (hholds : (s.threads t).phase.holds)
    (hexclusive : (s.threads t).op.exclusive) {key : Bytes} (hkey : (s.threads t).op.key = key) {phase : Phase}
    (hthreads : s'.threads = s.threads) (hheld : ∀ other, other ≠ key → s'.held other = s.held other)
    (hkept : ∀ other, other ≠ key → map'.lookup other = map.lookup other)
    (hself : Thread.Ok { s.threads t with phase } (s'.held key) (map'.lookup key))
    (hagrees : phase = .counting ∨ map'.lookup key = s'.held key)
    (hplaced : ∀ i other, other ∈ (s'.shards_ i).map → KVStore.shard_for other = i)
    (hsize : s'.size_ = UInt64.ofNat map'.keys.card) (hbounded : s'.elements ≤ kMaxElements) :
    Represents (s'.goto t phase) map' := by
  have hself_eq : (s'.goto t phase).threads t = { s.threads t with phase } := by
    rw [threads_goto hthreads, Function.update_self]
  have hother_eq {u : Nat} (hne : u ≠ t) : (s'.goto t phase).threads u = s.threads u := by
    rw [threads_goto hthreads, Function.update_of_ne hne]
  refine ⟨fun u => ?_, fun other hfree => ?_, hplaced, hsize, hbounded⟩
  · by_cases heq : u = t
    · subst heq
      rw [hself_eq, hkey]
      exact hself
    · rw [hother_eq heq]
      by_cases hsame : (s.threads u).op.key = key
      · -- Another thread at this key has no lock, and so nothing to know.
        have hout : ¬ (s.threads u).phase.holds := fun hu =>
          heq (hlocks.eq_of_shard hholds hexclusive hu (by rw [Op.shard, Op.shard, hsame, hkey]))
        unfold Thread.Ok
        split <;> simp_all [Phase.holds]
      · have hok := hrep.threads u
        rw [← hheld _ hsame, ← hkept _ hsame] at hok
        exact hok
  · by_cases heq : other = key
    · subst heq
      rcases hagrees with rfl | hagrees
      · have hfree' := hfree t
        rw [hself_eq, hkey] at hfree'
        exact absurd rfl (hfree' rfl)
      · exact hagrees
    · rw [hkept other heq, hrep.agrees other fun u hu => ?_]
      · exact (hheld other heq).symm
      · by_cases hut : u = t
        · rw [hut, hkey]
          exact Ne.symm heq
        · have hfree' := hfree u
          rw [hother_eq hut] at hfree'
          exact hfree' hu

section Maps

variable {key value : Bytes} {shard : AList fun _ : Bytes => Bytes}

theorem keys_insert (map : Finmap fun _ : Bytes => Bytes) (key value : Bytes) :
    (map.insert key value).keys = insert key map.keys := by
  ext other
  simp [Finmap.mem_keys]

@[simp] theorem map_setMap (s : State) (i : Fin kShardCount) (shard : AList fun _ : Bytes => Bytes) :
    ((s.setMap i shard).shards_ i).map = shard := by
  simp [State.setMap]

theorem map_setMap_of_ne {i j : Fin kShardCount} (hne : j ≠ i) :
    ((s.setMap i shard).shards_ j).map = (s.shards_ j).map := by
  simp [State.setMap, Function.update_of_ne hne]

/-- The shard of a key is replaced by one that differs for this key at most. -/
theorem held_setMap (hother : ∀ other, other ≠ key →
    shard.lookup other = (s.shards_ (KVStore.shard_for key)).map.lookup other)
    (other : Bytes) : (s.setMap (KVStore.shard_for key) shard).held other =
      if other = key then shard.lookup key else s.held other := by
  split
  · rename_i heq
    rw [heq, State.held, map_setMap]
  · rename_i hne
    by_cases hshard : KVStore.shard_for other = KVStore.shard_for key
    · rw [State.held, State.held, hshard, map_setMap, hother other hne]
    · rw [State.held, State.held, map_setMap_of_ne hshard]

theorem held_insert (s : State) (key value other : Bytes) :
    (s.setMap (KVStore.shard_for key) ((s.shards_ (KVStore.shard_for key)).map.insert key value)).held other =
      if other = key then some value else s.held other := by
  rw [held_setMap fun other hne => AList.lookup_insert_ne hne, AList.lookup_insert]

theorem held_erase (s : State) (key other : Bytes) :
    (s.setMap (KVStore.shard_for key) ((s.shards_ (KVStore.shard_for key)).map.erase key)).held other =
      if other = key then none else s.held other := by
  rw [held_setMap fun other hne => AList.lookup_erase_ne hne, AList.lookup_erase]

theorem placed_setMap (hplaced : ∀ i other, other ∈ (s.shards_ i).map → KVStore.shard_for other = i)
    (hmem : ∀ other, other ∈ shard → other = key ∨ other ∈ (s.shards_ (KVStore.shard_for key)).map)
    (i : Fin kShardCount) (other : Bytes) (hother : other ∈ ((s.setMap (KVStore.shard_for key) shard).shards_ i).map) :
    KVStore.shard_for other = i := by
  by_cases heq : i = KVStore.shard_for key
  · subst heq
    rw [map_setMap] at hother
    rcases hmem other hother with rfl | hold
    · rfl
    · exact hplaced _ other hold
  · rw [map_setMap_of_ne heq] at hother
    exact hplaced i other hother

theorem elements_setMap (s : State) (i : Fin kShardCount) (shard : AList fun _ : Bytes => Bytes) :
    (s.setMap i shard).elements + (s.shards_ i).map.keys.length = s.elements + shard.keys.length := by
  have hothers : ∑ j ∈ Finset.univ.erase i, ((s.setMap i shard).shards_ j).map.keys.length =
      ∑ j ∈ Finset.univ.erase i, (s.shards_ j).map.keys.length :=
    Finset.sum_congr rfl fun j hj => by rw [map_setMap_of_ne (Finset.ne_of_mem_erase hj)]
  rw [State.elements, State.elements, ← Finset.add_sum_erase _ _ (Finset.mem_univ i),
    ← Finset.add_sum_erase _ (fun j => (s.shards_ j).map.keys.length) (Finset.mem_univ i), hothers, map_setMap]
  omega

/-- Where a thread that counts has its lock, the plain map has at most one key
    more than the shard, and nowhere else any. -/
theorem Represents.card_filter_le (hrep : Represents s map) (hlocks : Locks s) (i : Fin kShardCount) :
    (map.keys.filter fun key => KVStore.shard_for key = i).card ≤ (s.shards_ i).map.keys.length + 1 := by
  have hextra : ∃ extra : Bytes, (map.keys.filter fun key => KVStore.shard_for key = i) ⊆
      insert extra (s.shards_ i).map.keys.toFinset := by
    -- A key that the shard does not hold is that of a thread which counts.
    have hcounting (key : Bytes) (hkey : key ∈ map.keys) (hshard : KVStore.shard_for key = i)
        (hmissing : key ∉ (s.shards_ i).map) :
        ∃ t, (s.threads t).phase = .counting ∧ (s.threads t).op.key = key := by
      by_contra hnone
      have hagrees := hrep.agrees key fun t ht hkey' => hnone ⟨t, ht, hkey'⟩
      rw [State.held, hshard, AList.lookup_eq_none.mpr hmissing, Finmap.lookup_eq_none] at hagrees
      exact hagrees (Finmap.mem_keys.mp hkey)
    by_cases hwriter : ∃ t, (s.threads t).phase = .counting ∧ (s.threads t).op.shard = i
    · obtain ⟨t, ht, hshard⟩ := hwriter
      refine ⟨(s.threads t).op.key, fun key hmem => ?_⟩
      obtain ⟨hkey, hi⟩ := Finset.mem_filter.mp hmem
      rw [Finset.mem_insert, List.mem_toFinset]
      by_cases hheld : key ∈ (s.shards_ i).map
      · exact .inr hheld
      · obtain ⟨u, hu, rfl⟩ := hcounting key hkey hi hheld
        have heq := hlocks.eq_of_shard (by rw [ht]; rfl) ((hrep.threads t).exclusive ht) (by rw [hu]; rfl)
          (hi.trans hshard.symm)
        exact .inl (by rw [heq])
    · refine ⟨[], fun key hmem => ?_⟩
      obtain ⟨hkey, hi⟩ := Finset.mem_filter.mp hmem
      rw [Finset.mem_insert, List.mem_toFinset]
      by_contra hnot
      obtain ⟨u, hu, rfl⟩ := hcounting key hkey hi fun hheld => hnot (.inr hheld)
      exact hwriter ⟨u, hu, hi⟩
  obtain ⟨extra, hsubset⟩ := hextra
  calc (map.keys.filter fun key => KVStore.shard_for key = i).card
      ≤ (insert extra (s.shards_ i).map.keys.toFinset).card := Finset.card_le_card hsubset
    _ ≤ (s.shards_ i).map.keys.toFinset.card + 1 := Finset.card_insert_le _ _
    _ ≤ (s.shards_ i).map.keys.length + 1 := Nat.add_le_add_right (List.toFinset_card_le _) 1

theorem Represents.card_lt (hrep : Represents s map) (hlocks : Locks s) : map.keys.card < 2 ^ 64 := by
  have hsum : map.keys.card = ∑ i, (map.keys.filter fun key => KVStore.shard_for key = i).card :=
    Finset.card_eq_sum_card_fiberwise fun _ _ => Finset.mem_univ _
  have hle : map.keys.card ≤ s.elements + kShardCount := by
    calc map.keys.card = ∑ i, (map.keys.filter fun key => KVStore.shard_for key = i).card := hsum
      _ ≤ ∑ i, ((s.shards_ i).map.keys.length + 1) := Finset.sum_le_sum fun i _ => hrep.card_filter_le hlocks i
      _ = s.elements + kShardCount := by simp [Finset.sum_add_distrib, State.elements]
  have hbounded := hrep.bounded
  simp only [kMaxElements, kShardCount] at hbounded hle
  omega

theorem Represents.size_toNat (hrep : Represents s map) (hlocks : Locks s) : s.size_.toNat = map.keys.card := by
  rw [hrep.size, UInt64.toNat_ofNat']
  exact Nat.mod_eq_of_lt (hrep.card_lt hlocks)

theorem map_setMutex (s : State) (i j : Fin kShardCount) (mutex : SharedMutex) :
    ((s.setMutex i mutex).shards_ j).map = (s.shards_ j).map := by
  by_cases heq : j = i
  · subst heq
    simp [State.setMutex]
  · simp [State.setMutex, Function.update_of_ne heq]

end Maps

section Changes

variable {key value : Bytes}

theorem length_keys_insert_of_mem {shard : AList fun _ : Bytes => Bytes} (hmem : key ∈ shard) :
    (shard.insert key value).keys.length = shard.keys.length := by
  rw [AList.keys_insert, List.length_cons]
  exact @List.length_erase_add_one _ instBEqOfDecidableEq _ _ _ hmem

theorem length_keys_insert_of_notMem {shard : AList fun _ : Bytes => Bytes} (hmem : key ∉ shard) :
    (shard.insert key value).keys.length = shard.keys.length + 1 := by
  simp only [AList.keys, AList.entries_insert_of_notMem hmem]
  rfl

theorem length_keys_erase_le (shard : AList fun _ : Bytes => Bytes) :
    (shard.erase key).keys.length ≤ shard.keys.length := by
  rw [AList.keys_erase]
  exact (@List.erase_sublist _ instBEqOfDecidableEq _ _).length_le

/-- `it->second = value`. -/
theorem Represents.assign (hrep : Represents s map) (hlocks : Locks s) (hphase : (s.threads t).phase = .found)
    (hop : (s.threads t).op = .set key value) :
    Represents ((s.setMap (KVStore.shard_for key)
      ((s.shards_ (KVStore.shard_for key)).map.insert key value)).goto t (.unlocking .done))
        (map.insert key value) := by
  have hkey : (s.threads t).op.key = key := by rw [hop]; rfl
  have hholds : (s.threads t).phase.holds := by rw [hphase]; rfl
  have hfound : (s.held key).isSome := by simpa [Thread.Ok, hphase, hkey] using hrep.threads t
  have hkept := hrep.kept_eq hlocks hholds (by simp [hphase]) hkey
  refine hrep.change hlocks hholds (by rw [hop]; rfl) hkey rfl (fun other hne => ?_) (fun other hne => ?_) trivial
    (.inr ?_) (placed_setMap hrep.placed fun other hother => (AList.mem_insert _).mp hother) ?_ ?_
  · rw [held_insert, if_neg hne]
  · rw [Finmap.lookup_insert_of_ne _ hne]
  · rw [held_insert, if_pos rfl, Finmap.lookup_insert]
  · have hmem : key ∈ map.keys := by
      rw [Finmap.mem_keys, ← Finmap.lookup_isSome, hkept]
      exact hfound
    rw [keys_insert, Finset.insert_eq_of_mem hmem]
    exact hrep.size
  · have hcount := elements_setMap s (KVStore.shard_for key) ((s.shards_ (KVStore.shard_for key)).map.insert key value)
    rw [length_keys_insert_of_mem (AList.lookup_isSome.mp hfound)] at hcount
    have hbounded := hrep.bounded
    omega

/-- `shard.map.emplace(key, value)`. -/
theorem Represents.emplace (hrep : Represents s map) (hlocks : Locks s) (hphase : (s.threads t).phase = .absent)
    (hop : (s.threads t).op = .set key value) (hmemory : s.elements < kMaxElements) :
    Represents ((s.setMap (KVStore.shard_for key)
      ((s.shards_ (KVStore.shard_for key)).map.insert key value)).goto t .counting) map := by
  have hkey : (s.threads t).op.key = key := by rw [hop]; rfl
  have hholds : (s.threads t).phase.holds := by rw [hphase]; rfl
  have habsent : s.held key = none := by simpa [Thread.Ok, hphase, hkey] using hrep.threads t
  have hkept := hrep.kept_eq hlocks hholds (by simp [hphase]) hkey
  rw [habsent] at hkept
  refine hrep.change hlocks hholds (by rw [hop]; rfl) hkey rfl (fun other hne => ?_) (fun _ _ => rfl) ?_
    (.inl rfl) (placed_setMap hrep.placed fun other hother => (AList.mem_insert _).mp hother) hrep.size ?_
  · rw [held_insert, if_neg hne]
  · rw [held_insert, if_pos rfl, hkept]
    simp [Thread.Ok, hop]
  · have hcount := elements_setMap s (KVStore.shard_for key) ((s.shards_ (KVStore.shard_for key)).map.insert key value)
    rw [length_keys_insert_of_notMem (AList.lookup_eq_none.mp habsent)] at hcount
    omega

/-- `shard.map.erase(key)`. -/
theorem Represents.erase (hrep : Represents s map) (hlocks : Locks s) (hphase : (s.threads t).phase = .locked)
    (hop : (s.threads t).op = .remove key) (hfound : (s.held key).isSome) :
    Represents ((s.setMap (KVStore.shard_for key)
      ((s.shards_ (KVStore.shard_for key)).map.erase key)).goto t .counting) map := by
  have hkey : (s.threads t).op.key = key := by rw [hop]; rfl
  have hholds : (s.threads t).phase.holds := by rw [hphase]; rfl
  have hkept := hrep.kept_eq hlocks hholds (by simp [hphase]) hkey
  refine hrep.change hlocks hholds (by rw [hop]; rfl) hkey rfl (fun other hne => ?_) (fun _ _ => rfl) ?_
    (.inl rfl) (placed_setMap hrep.placed fun other hother => .inr (AList.mem_erase.mp hother).2) hrep.size ?_
  · rw [held_erase, if_neg hne]
  · rw [held_erase, if_pos rfl, hkept]
    simpa [Thread.Ok, hop] using hfound
  · have hcount := elements_setMap s (KVStore.shard_for key) ((s.shards_ (KVStore.shard_for key)).map.erase key)
    have hless := @length_keys_erase_le key (s.shards_ (KVStore.shard_for key)).map
    have hbounded := hrep.bounded
    omega

/-- A `set` that is about to count has inserted a key that the plain map lacks. -/
theorem Represents.lookup_of_adding (hrep : Represents s map) (hphase : (s.threads t).phase = .counting)
    (hop : (s.threads t).op = .set key value) : s.held key = some value ∧ map.lookup key = none := by
  have hself := hrep.threads t
  rw [show (s.threads t).op.key = key by rw [hop]; rfl] at hself
  simpa [Thread.Ok, hphase, hop] using hself

/-- `size_.fetch_add(1)`. -/
theorem Represents.add (hrep : Represents s map) (hlocks : Locks s) (hphase : (s.threads t).phase = .counting)
    (hop : (s.threads t).op = .set key value) :
    Represents (({ s with size_ := s.size_ + 1 } : State).goto t (.unlocking .done)) (map.insert key value) := by
  have hkey : (s.threads t).op.key = key := by rw [hop]; rfl
  have hok := hrep.lookup_of_adding hphase hop
  refine hrep.change hlocks (by rw [hphase]; rfl) (by rw [hop]; rfl) hkey rfl (fun _ _ => rfl) (fun other hne => ?_)
    trivial (.inr ?_) hrep.placed ?_ hrep.bounded
  · rw [Finmap.lookup_insert_of_ne _ hne]
  · rw [Finmap.lookup_insert]
    exact hok.1.symm
  · have hmem : key ∉ map.keys := by
      rw [Finmap.mem_keys, ← Finmap.lookup_eq_none]
      exact hok.2
    rw [keys_insert, Finset.card_insert_of_notMem hmem, UInt64.ofNat_add, ← hrep.size]
    rfl

/-- A `remove` that is about to count takes a key away that the plain map has. -/
theorem Represents.lookup_of_removing (hrep : Represents s map) (hphase : (s.threads t).phase = .counting)
    (hop : (s.threads t).op = .remove key) : s.held key = none ∧ (map.lookup key).isSome := by
  have hself := hrep.threads t
  rw [show (s.threads t).op.key = key by rw [hop]; rfl] at hself
  simpa [Thread.Ok, hphase, hop] using hself

/-- `size_.fetch_sub(1)`. -/
theorem Represents.subtract (hrep : Represents s map) (hlocks : Locks s) (hphase : (s.threads t).phase = .counting)
    (hop : (s.threads t).op = .remove key) :
    Represents (({ s with size_ := s.size_ - 1 } : State).goto t (.unlocking (.removed true))) (map.erase key) := by
  have hkey : (s.threads t).op.key = key := by rw [hop]; rfl
  have hok := hrep.lookup_of_removing hphase hop
  refine hrep.change hlocks (by rw [hphase]; rfl) (by rw [hop]; rfl) hkey rfl (fun _ _ => rfl) (fun other hne => ?_)
    trivial (.inr ?_) hrep.placed ?_ hrep.bounded
  · rw [Finmap.lookup_erase_ne hne]
  · rw [Finmap.lookup_erase]
    exact hok.1.symm
  · have hmem : key ∈ map.keys := Finmap.mem_keys.mpr (Finmap.lookup_isSome.mp hok.2)
    rw [Finmap.keys_erase, Finset.card_erase_of_mem hmem, UInt64.ofNat_sub (Finset.card_pos.mpr ⟨key, hmem⟩),
      ← hrep.size]
    rfl

end Changes

end kv.concurrent
