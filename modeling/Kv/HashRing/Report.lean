import Mathlib.Algebra.BigOperators.Group.List.Basic
import Mathlib.Data.List.AList
import Mathlib.Data.Nat.ModEq
import Kv.HashRing.Exact

namespace kv

/-- `num_nodes` is not 0. -/
def modulo_hash_node (hash : Bytes → UInt64) (key : Bytes) (num_nodes : Nat) : Nat := (hash key).toNat % num_nodes

namespace report

open ConsistentHashRing

variable (hash : Bytes → UInt64)

def make_keys (n : Nat) : List Bytes := (List.range n).map fun i => ascii "key:" ++ to_string i

/-- `BalanceStats` without what it makes of the counts. -/
structure BalanceStats where
  counts : AList fun _ : Bytes => Nat := ∅

/-- `stats.counts[node] = count`. -/
def BalanceStats.set (self : BalanceStats) (node : Bytes) (count : Nat) : BalanceStats :=
  ⟨self.counts.insert node count⟩

def BalanceStats.get (self : BalanceStats) (node : Bytes) : Nat := (self.counts.lookup node).getD 0

/-- `stats.counts[node]++`. -/
def BalanceStats.increment (self : BalanceStats) (node : Bytes) : BalanceStats := self.set node (self.get node + 1)

def BalanceStats.create (node_ids : List Bytes) : BalanceStats :=
  node_ids.foldl (fun stats id => stats.set id 0) {}

def compute_modulo_balance (keys : List Bytes) (num_nodes : Nat) : BalanceStats :=
  keys.foldl (fun stats k => stats.increment (ascii "node" ++ to_string (modulo_hash_node hash k num_nodes)))
    (BalanceStats.create ((List.range num_nodes).map fun i => ascii "node" ++ to_string i))

def compute_ring_balance (keys node_ids : List Bytes) (vnodes : Nat) : Except Bytes BalanceStats :=
  let ring := of_nodes hash vnodes node_ids
  keys.foldlM (fun stats k => do return stats.increment (← ring.get_node hash k)) (BalanceStats.create node_ids)

/-- The number of keys that move, and of how many. -/
def modulo_remap_fraction (keys : List Bytes) (before_n after_n : Nat) : Nat × Nat :=
  let moved := keys.foldl (fun moved k =>
    if modulo_hash_node hash k before_n ≠ modulo_hash_node hash k after_n then moved + 1 else moved) 0
  (moved, keys.length)

def ring_remap_fraction (keys node_ids : List Bytes) (added_node_id : Bytes) (vnodes : Nat) :
    Except Bytes (Nat × Nat) := do
  let ring := of_nodes hash vnodes node_ids
  let before ← keys.mapM (ring.get_node hash)
  let ring := ring.add_node hash added_node_id
  let moved ← (keys.zip before).foldlM (fun moved entry => do
    let owner ← ring.get_node hash entry.1
    return if owner ≠ entry.2 then moved + 1 else moved) 0
  return (moved, keys.length)

section

variable {α : Type}

/-- A loop that counts. -/
theorem foldl_count (p : α → Prop) [DecidablePred p] (xs : List α) (n : Nat) :
    xs.foldl (fun n a => if p a then n + 1 else n) n = n + xs.countP (fun a => decide (p a)) := by
  induction xs generalizing n with
  | nil => rfl
  | cons a xs ih =>
    rw [List.foldl_cons, ih, List.countP_cons]
    by_cases ha : p a
    · simp only [ha, ↓reduceIte, decide_true]
      omega
    · simp [ha]

end

theorem BalanceStats.get_set (self : BalanceStats) (node other : Bytes) (count : Nat) :
    (self.set node count).get other = if other = node then count else self.get other := by
  by_cases hsame : other = node
  · rw [if_pos hsame, hsame, get, set, AList.lookup_insert, Option.getD_some]
  · rw [if_neg hsame, get, set, AList.lookup_insert_ne hsame, get]

theorem BalanceStats.get_create (node_ids : List Bytes) (node : Bytes) :
    (BalanceStats.create node_ids).get node = 0 := by
  have hzero (stats : BalanceStats) (hstats : ∀ node, stats.get node = 0) :
      (node_ids.foldl (fun stats id => stats.set id 0) stats).get node = 0 := by
    induction node_ids generalizing stats with
    | nil => exact hstats node
    | cons id node_ids ih =>
      apply ih
      intro node
      rw [get_set, hstats, ite_self]
  apply hzero
  intro node
  rfl

/-- Each node's counter ends at the number of its keys. -/
theorem BalanceStats.get_foldl_increment (owner : Bytes → Bytes) (keys : List Bytes) (self : BalanceStats)
    (node : Bytes) :
    (keys.foldl (fun stats k => stats.increment (owner k)) self).get node =
      self.get node + keys.countP (fun k => decide (owner k = node)) := by
  induction keys generalizing self with
  | nil => rfl
  | cons k keys ih =>
    rw [List.foldl_cons, ih, increment, get_set, List.countP_cons]
    by_cases hsame : owner k = node
    · simp only [hsame, ↓reduceIte, decide_true]
      omega
    · simp [hsame, Ne.symm hsame]

/-- The counters add up to the keys, where each key has one of the nodes for its
    owner. -/
theorem sum_countP_owner {owner : Bytes → Bytes} {node_ids : List Bytes} (hnodup : node_ids.Nodup) {keys : List Bytes}
    (howner : ∀ k, owner k ∈ node_ids) :
    (node_ids.map fun id => keys.countP fun k => decide (owner k = id)).sum = keys.length := by
  induction keys with
  | nil => simp
  | cons k keys ih =>
    have hcount (ids : List Bytes) :
        (ids.map fun id => if decide (owner k = id) = true then 1 else 0).sum = ids.count (owner k) := by
      induction ids with
      | nil => rfl
      | cons id ids ih =>
        rw [List.map_cons, List.sum_cons, ih, List.count_cons, Nat.add_comm]
        by_cases hsame : owner k = id
        · simp [hsame]
        · simp [hsame, Ne.symm hsame]
    simp only [List.countP_cons, List.sum_map_add, ih, hcount, List.count_eq_one_of_mem hnodup (howner k),
      List.length_cons]

theorem sum_modulo_balance {n : Nat} (hn : n ≠ 0) (keys : List Bytes) :
    (((List.range n).map fun i => ascii "node" ++ to_string i).map (compute_modulo_balance hash keys n).get).sum =
      keys.length := by
  have hnames : ((List.range n).map fun i => ascii "node" ++ to_string i).Nodup := by
    refine List.nodup_range.map ?_
    intro i j hname
    have hsame := congrArg decimal (List.append_cancel_left hname)
    rwa [decimal_to_string, decimal_to_string] at hsame
  have hget (id : Bytes) : (compute_modulo_balance hash keys n).get id =
      keys.countP fun k => decide (ascii "node" ++ to_string (modulo_hash_node hash k n) = id) := by
    rw [compute_modulo_balance,
      BalanceStats.get_foldl_increment fun k => ascii "node" ++ to_string (modulo_hash_node hash k n),
      BalanceStats.get_create, Nat.zero_add]
  rw [List.map_congr_left fun id _ => hget id]
  apply sum_countP_owner hnames
  intro k
  apply List.mem_map_of_mem
  exact List.mem_range.mpr (Nat.mod_lt _ (Nat.pos_of_ne_zero hn))

/-- A key stays where it is exactly if its hash has the same rest for both divisors. -/
theorem modulo_hash_node_eq_succ_iff (key : Bytes) {n : Nat} (hn : n ≠ 0) :
    modulo_hash_node hash key n = modulo_hash_node hash key (n + 1) ↔ (hash key).toNat % (n * (n + 1)) < n := by
  rw [modulo_hash_node, modulo_hash_node]
  generalize (hash key).toNat = h
  constructor
  · intro hsame
    have hless : h % n < n := Nat.mod_lt h (Nat.pos_of_ne_zero hn)
    have hboth : h ≡ h % n [MOD n] ∧ h ≡ h % n [MOD n + 1] := by
      refine ⟨(Nat.mod_modEq h n).symm, ?_⟩
      rw [hsame]
      exact (Nat.mod_modEq h (n + 1)).symm
    have hproduct : h % (n * (n + 1)) = h % n % (n * (n + 1)) :=
      (Nat.modEq_and_modEq_iff_modEq_mul (Nat.coprime_self_add_right.mpr (Nat.coprime_one_right n))).mp hboth
    rw [hproduct]
    exact (Nat.mod_le _ _).trans_lt hless
  · intro hless
    rw [← Nat.mod_mul_right_mod h n (n + 1), ← Nat.mod_mul_left_mod h n (n + 1), Nat.mod_eq_of_lt hless,
      Nat.mod_eq_of_lt (Nat.lt_succ_of_lt hless)]

section

variable {hash} {node_ids : List Bytes} {added_node_id : Bytes} {vnodes : Nat}

theorem exact_of_nodes (hcoll : NoCollisions hash vnodes node_ids) : (of_nodes hash vnodes node_ids).Exact hash := by
  rw [← of_updates_map_add_node]
  apply exact_of_updates
  rw [List.map_map]
  simpa [Function.comp_def, Update.node_id] using hcoll

/-- Every key has an owner among the nodes. -/
theorem exists_owner (hne : node_ids ≠ []) (hvnodes : 1 ≤ vnodes) (hcoll : NoCollisions hash vnodes node_ids) :
    ∃ owner : Bytes → Bytes, ∀ key, (of_nodes hash vnodes node_ids).get_node hash key = .ok (owner key) ∧
      ((of_nodes hash vnodes node_ids).owners hash key).head? = some (owner key) ∧ owner key ∈ node_ids := by
  have hone (key : Bytes) : ∃ id, ((of_nodes hash vnodes node_ids).owners hash key).head? = some id ∧
      id ∈ node_ids := by
    have hmem (id : Bytes) : id ∈ (of_nodes hash vnodes node_ids).owners hash key ↔ id ∈ node_ids := by
      rw [(exact_of_nodes hcoll).mem_owners_iff (by simpa using hvnodes), of_nodes_nodes]
    obtain ⟨first, hfirst⟩ := List.exists_mem_of_ne_nil node_ids hne
    obtain ⟨id, hid⟩ := Option.ne_none_iff_exists'.mp
      (mt List.head?_eq_none_iff.mp (List.ne_nil_of_mem ((hmem first).mpr hfirst)))
    exact ⟨id, hid, (hmem id).mp (List.mem_of_head? hid)⟩
  choose owner howner hmem using hone
  refine ⟨owner, fun key => ⟨?_, howner key, hmem key⟩⟩
  rw [get_node_eq, howner]

/-- Only the added node takes keys over. -/
theorem head?_owners_added (hnew : added_node_id ∉ node_ids)
    (hcoll : NoCollisions hash vnodes (node_ids ++ [added_node_id]))
    {key before after : Bytes} (hbefore : ((of_nodes hash vnodes node_ids).owners hash key).head? = some before)
    (hafter : ((of_nodes hash vnodes (node_ids ++ [added_node_id])).owners hash key).head? = some after)
    (hmem : before ∈ node_ids) : after ≠ before ↔ after = added_node_id := by
  have hfilter := (exact_of_nodes hcoll).owners_filter (exact_of_nodes (hcoll.mono (List.subset_append_left _ _)))
    (by simp) (p := fun id => decide (id ≠ added_node_id)) (by
      intro id
      simp only [of_nodes_nodes, List.mem_append, List.mem_singleton, decide_eq_true_eq]
      constructor
      · intro hid
        exact ⟨.inl hid, fun heq => hnew (heq ▸ hid)⟩
      · rintro ⟨hid | hid, hother⟩
        · exact hid
        · exact absurd hid hother) key
  obtain ⟨rest, hrest⟩ := List.head?_eq_some_iff.mp hafter
  constructor
  · intro hmoved
    by_contra hother
    rw [hfilter, hrest, List.filter_cons_of_pos (by simpa using hother), List.head?_cons] at hbefore
    exact hmoved (Option.some.inj hbefore)
  · rintro rfl rfl
    exact hnew hmem

end

/-- What `kvhashreport` says about growth by one node. With modulo hashing from `n`
    nodes to `n + 1`, the keys that move are those whose hash leaves a rest of at
    least `n` modulo `n * (n + 1)`. With the ring, they are exactly the keys that the
    balance of the enlarged cluster counts for the added node. The counters of both
    balances add up to all keys. -/
theorem remap_fractions {node_ids : List Bytes} {added_node_id : Bytes} {vnodes : Nat} (hne : node_ids ≠ [])
    (hnodup : (node_ids ++ [added_node_id]).Nodup) (hvnodes : 1 ≤ vnodes)
    (hcoll : NoCollisions hash vnodes (node_ids ++ [added_node_id])) (keys : List Bytes) :
    (∀ n ≠ 0, modulo_remap_fraction hash keys n (n + 1) =
      (keys.countP fun k => decide (n ≤ (hash k).toNat % (n * (n + 1))), keys.length) ∧
      (((List.range n).map fun i => ascii "node" ++ to_string i).map (compute_modulo_balance hash keys n).get).sum =
        keys.length) ∧
    ∃ stats, compute_ring_balance hash keys (node_ids ++ [added_node_id]) vnodes = .ok stats ∧
      ring_remap_fraction hash keys node_ids added_node_id vnodes = .ok (stats.get added_node_id, keys.length) ∧
      ((node_ids ++ [added_node_id]).map stats.get).sum = keys.length := by
  constructor
  · intro n hn
    have hstays (k : Bytes) : modulo_hash_node hash k n ≠ modulo_hash_node hash k (n + 1) ↔
        n ≤ (hash k).toNat % (n * (n + 1)) := by
      rw [ne_eq, modulo_hash_node_eq_succ_iff hash k hn, not_lt]
    refine ⟨?_, sum_modulo_balance hash hn keys⟩
    rw [modulo_remap_fraction, foldl_count]
    simp only [hstays, Nat.zero_add]
  · have hnew : added_node_id ∉ node_ids := by
      intro hmem
      exact (List.nodup_append.mp hnodup).2.2 added_node_id hmem added_node_id List.mem_cons_self rfl
    obtain ⟨before, hbefore⟩ := exists_owner hne hvnodes (hcoll.mono (List.subset_append_left _ _))
    obtain ⟨after, hafter⟩ := exists_owner (by simp) hvnodes hcoll
    have hfirst : (of_nodes hash vnodes node_ids).get_node hash = fun k => pure (before k) :=
      funext fun k => (hbefore k).1
    have hsecond : (of_nodes hash vnodes (node_ids ++ [added_node_id])).get_node hash = fun k => pure (after k) :=
      funext fun k => (hafter k).1
    have hget (id : Bytes) : (keys.foldl (fun stats k => stats.increment (after k))
        (BalanceStats.create (node_ids ++ [added_node_id]))).get id = keys.countP fun k => decide (after k = id) := by
      rw [BalanceStats.get_foldl_increment, BalanceStats.get_create, Nat.zero_add]
    refine ⟨keys.foldl (fun stats k => stats.increment (after k)) (BalanceStats.create (node_ids ++ [added_node_id])),
      ?_, ?_, ?_⟩
    · simp only [compute_ring_balance, hsecond, pure_bind, List.foldlM_pure]
      rfl
    · have hmoved (k : Bytes) : after k ≠ before k ↔ after k = added_node_id :=
        head?_owners_added hnew hcoll (hbefore k).2.1 (hafter k).2.1 (hbefore k).2.2
      have hzip : keys.zip (keys.map before) = keys.map fun k => (k, before k) := by
        have hpairs := @List.zip_map' _ _ _ id before keys
        rwa [List.map_id] at hpairs
      simp only [ring_remap_fraction, ← of_nodes_snoc, hfirst, hsecond, List.mapM_pure, pure_bind, List.foldlM_pure]
      rw [foldl_count, hzip, List.countP_map, hget]
      simp only [Function.comp_def, hmoved, Nat.zero_add]
      rfl
    · rw [List.map_congr_left fun id _ => hget id]
      exact sum_countP_owner hnodup fun k => (hafter k).2.2

/-- A third node joins, with two positions for each. -/
theorem remap_fractions_example :
    let node_ids := [ascii "nodeA", ascii "nodeB"]
    let keys := make_keys 20
    NoCollisions fnv1a_hash 2 (node_ids ++ [ascii "nodeC"]) ∧
      ∃ stats, compute_ring_balance fnv1a_hash keys (node_ids ++ [ascii "nodeC"]) 2 = .ok stats ∧
        ring_remap_fraction fnv1a_hash keys node_ids (ascii "nodeC") 2 = .ok (stats.get (ascii "nodeC"), 20) := by
  intro node_ids keys
  have hcoll : NoCollisions fnv1a_hash 2 (node_ids ++ [ascii "nodeC"]) := by decide +kernel
  obtain ⟨_, stats, hstats, hmoved, _⟩ := remap_fractions fnv1a_hash (by decide) (by decide) (by decide) hcoll keys
  exact ⟨hcoll, stats, hstats, hmoved⟩

end report

end kv
