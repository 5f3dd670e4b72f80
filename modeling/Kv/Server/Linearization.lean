import Kv.Server.Represents

namespace kv.concurrent

open Transition Linearizability

/-- One plain map, with its number of keys. -/
def spec : Spec (Finmap fun _ : Bytes => Bytes) Op Result where
  init := ∅
  perform map op :=
    match op with
    | .get key => (.value (map.lookup key), map)
    | .set key value => (.done, map.insert key value)
    | .remove key => (.removed (map.lookup key).isSome, map.erase key)
    | .size => (.size map.keys.card, map)

variable {s s' : State} {t u : Nat} {map map' : Finmap fun _ : Bytes => Bytes} {thread : Thread}

/-- A thread as a client of the atomic object. -/
def Thread.client (self : Thread) : Client Op Result where
  calls := self.calls
  status :=
    match self.phase with
    | .idle => .idle
    | .unlocking res => .done res
    | .returning res => .done res
    | _ => .pending self.op

/-- The store behaves like the atomic object. -/
structure Refines (s : State) (a : Atomic (Finmap fun _ : Bytes => Bytes) Op Result) : Prop where
  locks : Locks s
  represents : Represents s a.value
  clients : ∀ t, a.clients t = (s.threads t).client

section Simulation

variable {a : Atomic (Finmap fun _ : Bytes => Bytes) Op Result} {events : List (Event Op Result)}

theorem Refines.setClient (hrefines : Refines s a) (hlocks : Locks s') (hrep : Represents s' map)
    (hthreads : s'.threads = Function.update s.threads t thread) :
    Refines s' { a.setClient t thread.client with value := map } where
  locks := hlocks
  represents := hrep
  clients u := by
    change Function.update a.clients t thread.client u = _
    rw [hthreads]
    by_cases heq : u = t
    · subst heq
      rw [Function.update_self, Function.update_self]
    · rw [Function.update_of_ne heq, Function.update_of_ne heq]
      exact hrefines.clients u

theorem Refines.call (hrefines : Refines s a) (op : Op) (hphase : (s.threads t).phase = .idle)
    (hlocks : Locks (s.setThread t { s.threads t with phase := .called, op })) :
    ∃ a', Run spec.atomic (fun _ => True) a [.call (t, (s.threads t).calls) op] a' ∧
      Refines (s.setThread t { s.threads t with phase := .called, op }) a' := by
  have hrep : Represents (s.setThread t { s.threads t with phase := .called, op }) a.value :=
    hrefines.represents.stay (fun _ => rfl) rfl rfl (by simp [hphase]) trivial
  have hstep : spec.atomic.step a (.call t op) =
      some ({ a.setClient t (Thread.client { s.threads t with phase := .called, op }) with value := a.value },
        [.call (t, (s.threads t).calls) op]) := by
    simp [Spec.atomic, Atomic.step, hrefines.clients t, Thread.client, hphase, Atomic.setClient]
  exact ⟨_, .single trivial hstep, hrefines.setClient hlocks hrep rfl⟩

theorem Refines.ret (hrefines : Refines s a) {res : Result} (hphase : (s.threads t).phase = .returning res)
    (hlocks : Locks (s.setThread t { s.threads t with phase := .idle, calls := (s.threads t).calls + 1 })) :
    ∃ a', Run spec.atomic (fun _ => True) a [.ret (t, (s.threads t).calls) res] a' ∧
      Refines (s.setThread t { s.threads t with phase := .idle, calls := (s.threads t).calls + 1 }) a' := by
  have hrep :
      Represents (s.setThread t { s.threads t with phase := .idle, calls := (s.threads t).calls + 1 }) a.value :=
    hrefines.represents.stay (fun _ => rfl) rfl rfl (by simp [hphase]) trivial
  have hstep : spec.atomic.step a (.ret t) =
      some ({ a.setClient t (Thread.client { s.threads t with phase := .idle, calls := (s.threads t).calls + 1 }) with
        value := a.value }, [.ret (t, (s.threads t).calls) res]) := by
    simp [Spec.atomic, Atomic.step, hrefines.clients t, Thread.client, hphase, Atomic.setClient]
  exact ⟨_, .single trivial hstep, hrefines.setClient hlocks hrep rfl⟩

/-- A step that the atomic object does not make. -/
theorem Refines.stutter (hrefines : Refines s a) {phase : Phase} (hlocks : Locks (s'.goto t phase))
    (hrep : Represents (s'.goto t phase) a.value) (hthreads : s'.threads = s.threads)
    (hclient : Thread.client { s.threads t with phase } = (s.threads t).client) :
    ∃ a', Run spec.atomic (fun _ => True) a [] a' ∧ Refines (s'.goto t phase) a' := by
  have hself : { a.setClient t (Thread.client { s.threads t with phase }) with value := a.value } = a := by
    rw [Atomic.setClient, hclient, ← hrefines.clients t, Function.update_eq_self]
  have hnext := hrefines.setClient hlocks hrep (threads_goto hthreads)
  rw [hself] at hnext
  exact ⟨a, .nil, hnext⟩

/-- A step that makes an operation take effect. -/
theorem Refines.commit (hrefines : Refines s a) {phase : Phase} (hlocks : Locks (s'.goto t phase)) {res : Result}
    (hperform : spec.perform a.value (s.threads t).op = (res, map)) (hrep : Represents (s'.goto t phase) map)
    (hthreads : s'.threads = s.threads)
    (hbefore : (s.threads t).client = ⟨(s.threads t).calls, .pending (s.threads t).op⟩)
    (hafter : phase = .unlocking res ∨ phase = .returning res) :
    ∃ a', Run spec.atomic (fun _ => True) a [] a' ∧ Refines (s'.goto t phase) a' := by
  have hdone : Thread.client { s.threads t with phase } = ⟨(s.threads t).calls, .done res⟩ := by
    rcases hafter with rfl | rfl <;> rfl
  have hstep : spec.atomic.step a (.commit t) =
      some ({ a.setClient t (Thread.client { s.threads t with phase }) with value := map }, []) := by
    have hclient := (hrefines.clients t).trans hbefore
    simp only [Spec.atomic, Atomic.step, hclient, hdone, hperform]
  exact ⟨_, .single trivial hstep, hrefines.setClient hlocks hrep (threads_goto hthreads)⟩

/-- The linearization points. A `get` takes effect when it reads, and so does a
    `remove` that finds nothing; a `set` of a key that is there when it assigns;
    every other change with that of `size_`, and `size()` when it loads. -/
theorem Refines.move (hrefines : Refines s a) (hmove : Move s t s' events) :
    ∃ a', Run spec.atomic (fun _ => True) a events a' ∧ Refines s' a' := by
  have hlocks := hrefines.locks
  have hlocks' := hlocks.keep hmove
  have hrep := hrefines.represents
  cases hmove with
  | called op hphase => exact hrefines.call op hphase hlocks'
  | returned hphase => exact hrefines.ret hphase hlocks'
  | loaded hphase hop =>
    -- No lock is held here: the counter is exact in every state.
    refine hrefines.commit hlocks' ?_ (hrep.goto (fun _ => rfl) rfl rfl (by simp [hphase]) trivial) rfl
      (by simp [Thread.client, hphase]) (.inr rfl)
    rw [hop, hrep.size_toNat hlocks]
    rfl
  | locked hphase =>
    exact hrefines.stutter hlocks' (hrep.goto (map_setMutex s _ · _) rfl rfl (by simp [hphase]) trivial) rfl
      (by simp [Thread.client, hphase])
  | unlocked hphase =>
    exact hrefines.stutter hlocks' (hrep.goto (map_setMutex s _ · _) rfl rfl (by simp [hphase]) trivial) rfl
      (by simp [Thread.client, hphase])
  | found hphase hheld =>
    exact hrefines.stutter hlocks' (hrep.goto (fun _ => rfl) rfl rfl (by simp [hphase]) hheld) rfl
      (by simp [Thread.client, hphase])
  | absent hphase hheld =>
    exact hrefines.stutter hlocks' (hrep.goto (fun _ => rfl) rfl rfl (by simp [hphase]) hheld) rfl
      (by simp [Thread.client, hphase])
  | @missed key res hphase hheld hop =>
    have hkey : (s.threads t).op.key = key := by rcases hop with ⟨hop, -⟩ | ⟨hop, -⟩ <;> rw [hop] <;> rfl
    have hnone := (hrep.kept_eq hlocks (by rw [hphase]; rfl) (by simp [hphase]) hkey).trans hheld
    refine hrefines.commit hlocks' ?_ (hrep.goto (fun _ => rfl) rfl rfl (by simp [hphase]) trivial) rfl
      (by simp [Thread.client, hphase]) (.inl rfl)
    rcases hop with ⟨hop, rfl⟩ | ⟨hop, rfl⟩
    · simp [spec, hop, hnone]
    · simp [spec, hop, hnone, erase_of_lookup_eq_none]
  | @copied key value hphase hop hheld =>
    have hkept := hrep.kept_eq hlocks (by rw [hphase]; rfl) (by simp [hphase]) (show (s.threads t).op.key = key by
      rw [hop]; rfl)
    refine hrefines.commit hlocks' ?_ (hrep.goto (fun _ => rfl) rfl rfl (by simp [hphase]) trivial) rfl
      (by simp [Thread.client, hphase]) (.inl rfl)
    simp [spec, hop, hkept.trans hheld]
  | assigned hphase hop =>
    exact hrefines.commit hlocks' (by rw [hop]; rfl) (hrep.assign hlocks hphase hop) rfl
      (by simp [Thread.client, hphase]) (.inl rfl)
  | emplaced hphase hop hmemory =>
    -- The key is in its shard, but not in the plain map before it is counted.
    exact hrefines.stutter hlocks' (hrep.emplace hlocks hphase hop hmemory) rfl (by simp [Thread.client, hphase])
  | erased hphase hop hheld =>
    exact hrefines.stutter hlocks' (hrep.erase hlocks hphase hop hheld) rfl (by simp [Thread.client, hphase])
  | added hphase hop =>
    exact hrefines.commit hlocks' (by rw [hop]; rfl) (hrep.add hlocks hphase hop) rfl
      (by simp [Thread.client, hphase]) (.inl rfl)
  | @subtracted key hphase hop =>
    refine hrefines.commit hlocks' ?_ (hrep.subtract hlocks hphase hop) rfl
      (by simp [Thread.client, hphase]) (.inl rfl)
    rw [hop]
    exact congrArg (fun found => (Result.removed found, _)) (hrep.lookup_of_removing hphase hop).2

end Simulation

theorem represents_init : Represents {} ∅ where
  threads _ := trivial
  agrees _ _ := rfl
  placed _ key hkey := absurd hkey (AList.notMem_empty key)
  size := rfl
  bounded := by simp [State.elements]

theorem exists_atomic_run {trace : List (Event Op Result)}
    (hrun : Run system (fun _ => True) system.init trace s) :
    ∃ a, Run spec.atomic (fun _ => True) spec.atomic.init trace a ∧ Refines s a := by
  -- Every event shows, so the traces are the same.
  have hinit : Refines system.init spec.atomic.init := ⟨locks_init, represents_init, fun _ => rfl⟩
  have hmatch (s : State) (a : Atomic (Finmap fun _ : Bytes => Bytes) Op Result) (label : Label) (s' : State)
      (events : List (Event Op Result)) (hrefines : Refines s a) (_ : True)
      (hnext : system.step s label = some (s', events)) :
      ∃ a', Run spec.atomic (fun _ => True) a (events.filterMap some) a' ∧ Refines s' a' := by
    obtain ⟨t, hmove⟩ := Move.of_next hnext
    rw [List.filterMap_some]
    exact hrefines.move hmove
  have hsim := Run.simulate hmatch hinit hrun
  rwa [List.filterMap_some] at hsim

/-- The sharded store is linearizable to one plain map with an exact `size()`,
    whatever the threads call and however their steps interleave. `size_` never
    wraps, neither below zero nor above, and every key lives in its own shard
    only. -/
theorem store_linearizable {trace : List (Event Op Result)}
    (hrun : Run system (fun _ => True) system.init trace s) :
    Linearizable spec trace ∧
    (∀ t, (s.threads t).phase = .counting →
      (∀ key, (s.threads t).op = .remove key → 0 < s.size_.toNat) ∧
      ∀ key value, (s.threads t).op = .set key value → s.size_.toNat + 1 < 2 ^ 64) ∧
    ∀ i key, key ∈ (s.shards_ i).map → i = KVStore.shard_for key := by
  obtain ⟨a, hatomic, hrefines⟩ := exists_atomic_run hrun
  have hrep := hrefines.represents
  have hlocks := hrefines.locks
  refine ⟨linearizable_of_atomic hatomic, fun t hphase => ⟨fun key hop => ?_, fun key value hop => ?_⟩,
    fun i key hkey => (hrep.placed i key hkey).symm⟩
  · rw [hrep.size_toNat hlocks, Finset.card_pos]
    exact ⟨key, Finmap.mem_keys.mpr (Finmap.lookup_isSome.mp (hrep.lookup_of_removing hphase hop).2)⟩
  · have hadded := (hrep.add hlocks hphase hop).card_lt (hlocks.keep (.added hphase hop))
    rw [keys_insert, Finset.card_insert_of_notMem] at hadded
    · rwa [hrep.size_toNat hlocks]
    · rw [Finmap.mem_keys, ← Finmap.lookup_eq_none]
      exact (hrep.lookup_of_adding hphase hop).2

/-- A `size()` that comes between the insertion of a key and its count. -/
theorem store_linearizable_example :
    Linearizable spec [.call (0, 0) (.set (ascii "k") (ascii "x")), .call (1, 0) .size, .ret (1, 0) (.size 0),
      .ret (0, 0) .done, .call (1, 1) .size, .ret (1, 1) (.size 1)] := by
  have hexists : ∃ s, Run system (fun _ => True) system.init
      [.call (0, 0) (.set (ascii "k") (ascii "x")), .call (1, 0) .size, .ret (1, 0) (.size 0),
        .ret (0, 0) .done, .call (1, 1) .size, .ret (1, 1) (.size 1)] s :=
    Run.exists_of_exec [.call 0 (.set (ascii "k") (ascii "x")), .step 0, .step 0, .step 0, .call 1 .size,
      .step 1, .step 1, .step 0, .step 0, .step 0, .call 1 .size, .step 1, .step 1] (fun _ _ => trivial)
        (by decide +kernel)
  obtain ⟨s, hrun⟩ := hexists
  exact (store_linearizable hrun).1

end kv.concurrent
