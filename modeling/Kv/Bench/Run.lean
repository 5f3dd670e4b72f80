import Kv.Bench.Percentiles
import Kv.Client.Session

namespace kv.bench

open protocol client

variable {α : Type}

/-- What one turn of a worker draws from its two distributions, and the time that
    its exchange takes. -/
structure Turn (α : Type) where
  key : Nat
  get : Bool
  ms : α

/-- The largest key of `key_dist_`, and the value of every `SET`. -/
structure WorkloadGenerator where
  max_key : Nat
  value_template_ : Bytes

def WorkloadGenerator.create (key_space value_size : Nat) : WorkloadGenerator :=
  ⟨if key_space > 0 then key_space - 1 else 0, List.replicate value_size 0x78⟩

def WorkloadGenerator.next (self : WorkloadGenerator) (turn : Turn α) : Request :=
  let key := ascii "key:" ++ to_string turn.key
  if turn.get then ⟨.Get, key, []⟩ else ⟨.Set, key, self.value_template_⟩

structure ThreadResult (α : Type) where
  get_latencies_ms : List α := []
  set_latencies_ms : List α := []
  errors : Nat := 0

/-- What the outcome of one `send_request` adds. -/
def ThreadResult.record (self : ThreadResult α) (req : Request) (ms : α) : Outcome → ThreadResult α
  | .error _ => { self with errors := self.errors + 1 }
  | .ok resp =>
    if resp.type = .Error then { self with errors := self.errors + 1 }
    else if req.command = .Get then { self with get_latencies_ms := self.get_latencies_ms ++ [ms] }
    else { self with set_latencies_ms := self.set_latencies_ms ++ [ms] }

section

variable (gen : WorkloadGenerator) (turns : Nat → Turn α)

/-- The loop of `worker`, from its turn `i` on, once its calls of `send_request` have
    come to these outcomes; with the call that it is in, if it has not ended. -/
def worker_loop : Nat → Nat → List Outcome → ThreadResult α → ThreadResult α × Option Request
  | _, 0, _, result => (result, none)
  | i, _ + 1, [], result => (result, some (gen.next (turns i)))
  | i, n + 1, outcome :: outcomes, result =>
    worker_loop (i + 1) n outcomes (result.record (gen.next (turns i)) (turns i).ms outcome)

/-- What a thread has come to: its result, the line that it prints, and its call. -/
structure Worker (α : Type) where
  result : ThreadResult α
  printed : Option Bytes := none
  pending : Option Request := none

/-- `worker`. A connection that cannot be opened or set up fails all of its requests. -/
def worker (thread_index num_requests : Nat) : Except Bytes (List Outcome) → Worker α
  | .ok outcomes =>
    let (result, pending) := worker_loop gen turns 0 num_requests outcomes {}
    { result, pending }
  | .error what =>
    { result := { errors := num_requests }
      printed := ascii "kvbench: worker " ++ to_string thread_index ++ ascii " failed: " ++ what ++ [LF] }

end

structure RunConfig where
  requests : Nat
  concurrency : Nat
  key_space : Nat
  value_size : Nat

/-- How many requests each thread is given. -/
def RunConfig.shares (cfg : RunConfig) : List Nat :=
  let base := cfg.requests / cfg.concurrency
  let remainder := cfg.requests % cfg.concurrency
  (List.range cfg.concurrency).map fun t => base + if t < remainder then 1 else 0

/-- The vectors and the counter that `main` collects the results in. -/
structure Totals (α : Type) where
  all_latencies : List α := []
  get_latencies : List α := []
  set_latencies : List α := []
  total_errors : Nat := 0

def Totals.add (self : Totals α) (tr : ThreadResult α) : Totals α where
  all_latencies := self.all_latencies ++ tr.get_latencies_ms ++ tr.set_latencies_ms
  get_latencies := self.get_latencies ++ tr.get_latencies_ms
  set_latencies := self.set_latencies ++ tr.set_latencies_ms
  total_errors := self.total_errors + tr.errors

/-- The throughput is `measured` over the wall-clock time. -/
structure RunResult (α : Type) where
  overall : PercentileStats α
  get_stats : PercentileStats α
  set_stats : PercentileStats α
  measured : Nat
  error_count : Nat

def Totals.report [LinearOrder α] [Zero α] (self : Totals α) : RunResult α where
  overall := compute_percentiles self.all_latencies
  get_stats := compute_percentiles self.get_latencies
  set_stats := compute_percentiles self.set_latencies
  measured := self.all_latencies.length
  error_count := self.total_errors

section

variable (turns : Nat → Nat → Turn α) (connected : Nat → Except Bytes (List Outcome))

/-- The threads. Each has its own connection, and writes to a result of its own. -/
def threads (cfg : RunConfig) : List (Worker α) :=
  cfg.shares.zipIdx.map fun share =>
    worker (.create cfg.key_space cfg.value_size) (turns share.2) share.2 share.1 (connected share.2)

/-- `main`, once the arguments are read: what it reports and its exit status, when all
    threads have been joined. `json_out` is whether the file for the results can be
    opened. -/
def kvbench [LinearOrder α] [Zero α] (json_out : Bool) (cfg : RunConfig) : Option (Option (RunResult α) × Nat) :=
  if cfg.requests = 0 || cfg.concurrency = 0 then some (none, 1)
  else if (threads turns connected cfg).all fun thread => thread.pending.isNone then
    let result := (((threads turns connected cfg).map Worker.result).foldl Totals.add {}).report
    some (some result, if !json_out then 1 else if result.error_count > 0 then 2 else 0)
  else none

end

/-- The time that a turn adds to the samples of its command. -/
def Turn.sample (get : Bool) (turn : Turn α) (outcome : Outcome) : Option α :=
  if turn.get = get ∧ outcome.failed = false then some turn.ms else none

/-- The times of the turns of a thread that drew this command and did not fail. -/
def samples (get : Bool) (turns : Nat → Turn α) (n : Nat) : Except Bytes (List Outcome) → List α
  | .error _ => []
  | .ok outcomes => (((List.range n).map turns).zip outcomes).filterMap fun turn => turn.1.sample get turn.2

/-- How many turns of a thread fail. -/
def failures (n : Nat) : Except Bytes (List Outcome) → Nat
  | .error _ => n
  | .ok outcomes => (outcomes.take n).countP Outcome.failed

theorem ThreadResult.record_eq (self : ThreadResult α) (gen : WorkloadGenerator) (turn : Turn α) (outcome : Outcome) :
    self.record (gen.next turn) turn.ms outcome =
      { get_latencies_ms := self.get_latencies_ms ++ (turn.sample true outcome).toList
        set_latencies_ms := self.set_latencies_ms ++ (turn.sample false outcome).toList
        errors := self.errors + if outcome.failed then 1 else 0 } := by
  cases outcome with
  | error what => simp [record, Turn.sample, Outcome.failed]
  | ok resp =>
    by_cases hfailed : resp.type = .Error
    · simp [record, Turn.sample, Outcome.failed, hfailed]
    · cases hget : turn.get <;> simp [record, Turn.sample, Outcome.failed, hfailed, WorkloadGenerator.next, hget]

theorem filterMap_sample_cons (get : Bool) (turn : Turn α) (outcome : Outcome) (later : List (Turn α × Outcome)) :
    ((turn, outcome) :: later).filterMap (fun turn => turn.1.sample get turn.2) =
      (turn.sample get outcome).toList ++ later.filterMap fun turn => turn.1.sample get turn.2 := by
  cases hsample : turn.sample get outcome <;> simp [hsample]

/-- A turn is a sample or a failure. -/
theorem Turn.length_sample (turn : Turn α) (outcome : Outcome) :
    (turn.sample true outcome).toList.length + (turn.sample false outcome).toList.length +
      (if outcome.failed then 1 else 0) = 1 := by
  cases hget : turn.get <;> cases hfailed : outcome.failed <;> simp [sample, hget, hfailed]

/-- What the loop comes to, turn by turn. -/
theorem worker_loop_eq (gen : WorkloadGenerator) (turns : Nat → Turn α) (i n : Nat) (outcomes : List Outcome)
    (result : ThreadResult α) :
    worker_loop gen turns i n outcomes result =
      ({ get_latencies_ms := result.get_latencies_ms ++
          (((List.range' i n).map turns).zip outcomes).filterMap fun turn => turn.1.sample true turn.2
         set_latencies_ms := result.set_latencies_ms ++
          (((List.range' i n).map turns).zip outcomes).filterMap fun turn => turn.1.sample false turn.2
         errors := result.errors + (outcomes.take n).countP Outcome.failed },
        if outcomes.length < n then some (gen.next (turns (i + outcomes.length))) else none) := by
  induction n generalizing i outcomes result with
  | zero => simp [worker_loop]
  | succ n ih =>
    cases outcomes with
    | nil => simp [worker_loop]
    | cons outcome outcomes =>
      rw [worker_loop, ih, ThreadResult.record_eq, List.range'_succ, List.map_cons, List.zip_cons_cons,
        filterMap_sample_cons, filterMap_sample_cons]
      simp only [List.append_assoc, List.take_succ_cons, List.countP_cons, List.length_cons, Nat.add_lt_add_iff_right,
        Nat.add_right_comm i 1, Nat.add_assoc, Nat.add_comm (List.countP _ _)]

/-- What a thread has come to. -/
theorem worker_result_eq (gen : WorkloadGenerator) (turns : Nat → Turn α) (t n : Nat)
    (connected : Except Bytes (List Outcome)) :
    (worker gen turns t n connected).result =
      ⟨samples true turns n connected, samples false turns n connected, failures n connected⟩ := by
  cases connected with
  | error what => rfl
  | ok outcomes => simp [worker, worker_loop_eq, samples, failures, List.range_eq_range']

theorem worker_pending_eq (gen : WorkloadGenerator) (turns : Nat → Turn α) (t n : Nat) (outcomes : List Outcome) :
    (worker gen turns t n (.ok outcomes)).pending =
      if outcomes.length < n then some (gen.next (turns outcomes.length)) else none := by
  simp [worker, worker_loop_eq]

/-- Each turn is a sample or a failure. -/
theorem length_samples (turns : Nat → Turn α) {n : Nat} {connected : Except Bytes (List Outcome)}
    (hended : ∀ outcomes, connected = .ok outcomes → n ≤ outcomes.length) :
    (samples true turns n connected).length + (samples false turns n connected).length + failures n connected = n := by
  cases connected with
  | error what => simp [samples, failures]
  | ok outcomes =>
    have hlength := hended outcomes rfl
    simp only [samples, failures, List.range_eq_range']
    clear hended
    generalize 0 = i
    induction n generalizing i outcomes with
    | zero => simp
    | succ n ih =>
      cases outcomes with
      | nil => simp at hlength
      | cons outcome outcomes =>
        have hfirst := (turns i).length_sample outcome
        have hrest := ih outcomes (by simpa using hlength) (i + 1)
        rw [List.range'_succ, List.map_cons, List.zip_cons_cons, filterMap_sample_cons, filterMap_sample_cons,
          List.take_succ_cons, List.countP_cons, List.length_append, List.length_append]
        omega

/-- The shares add up. -/
theorem RunConfig.sum_shares (cfg : RunConfig) (hconcurrency : cfg.concurrency ≠ 0) :
    cfg.shares.sum = cfg.requests := by
  have hsum (base remainder n : Nat) :
      ((List.range n).map fun t => base + if t < remainder then 1 else 0).sum = n * base + min n remainder := by
    induction n with
    | zero => simp
    | succ n ih =>
      rw [List.range_succ, List.map_append, List.sum_append, ih, Nat.succ_mul]
      simp only [List.map_cons, List.map_nil, List.sum_cons, List.sum_nil]
      split <;> omega
  have hless := Nat.mod_lt cfg.requests (Nat.pos_of_ne_zero hconcurrency)
  rw [RunConfig.shares, hsum, Nat.min_eq_right hless.le, Nat.mul_comm]
  exact Nat.div_add_mod' cfg.requests cfg.concurrency

/-- Nothing is lost or doubled where `main` puts the results together. -/
theorem Totals.foldl_add (self : Totals α) (hperm : self.all_latencies.Perm (self.get_latencies ++ self.set_latencies))
    (results : List (ThreadResult α)) :
    let totals := results.foldl Totals.add self
    totals.all_latencies.Perm (totals.get_latencies ++ totals.set_latencies) ∧
      totals.get_latencies = self.get_latencies ++ results.flatMap ThreadResult.get_latencies_ms ∧
      totals.set_latencies = self.set_latencies ++ results.flatMap ThreadResult.set_latencies_ms ∧
      totals.total_errors = self.total_errors + (results.map ThreadResult.errors).sum := by
  induction results generalizing self with
  | nil => simpa using hperm
  | cons result results ih =>
    have hadd : (self.add result).all_latencies.Perm
        ((self.add result).get_latencies ++ (self.add result).set_latencies) := by
      simp only [Totals.add, List.append_assoc]
      refine (hperm.append_right _).trans ?_
      rw [List.append_assoc]
      refine List.Perm.append_left _ ?_
      rw [← List.append_assoc, ← List.append_assoc]
      exact List.perm_append_comm.append_right _
    obtain ⟨hsplit, hgets, hsets, herrors⟩ := ih (self.add result) hadd
    refine ⟨hsplit, ?_, ?_, ?_⟩
    · simpa [Totals.add] using hgets
    · simpa [Totals.add] using hsets
    · simpa [Totals.add, Nat.add_assoc] using herrors

/-- Samples are reported in whatever order they come. -/
theorem compute_percentiles_perm [LinearOrder α] [Zero α] {first second : List α} (hperm : first.Perm second) :
    compute_percentiles first = compute_percentiles second := by
  have hsorted : (first.mergeSort fun a b => decide (a ≤ b)) = second.mergeSort fun a b => decide (a ≤ b) := by
    refine List.Perm.eq_of_pairwise ?_ (List.pairwise_mergeSort' (· ≤ ·) first)
      (List.pairwise_mergeSort' (· ≤ ·) second)
      ((List.mergeSort_perm _ _).trans (hperm.trans (List.mergeSort_perm _ _).symm))
    intro a b _ _ hab hba
    exact le_antisymm hab hba
  have hempty : first.isEmpty = second.isEmpty := by
    rw [Bool.eq_iff_iff, List.isEmpty_iff, List.isEmpty_iff]
    exact ⟨fun h => (h ▸ hperm).symm.eq_nil, fun h => (h ▸ hperm).eq_nil⟩
  simp only [compute_percentiles, hempty, hsorted]

section

variable {turns : Nat → Nat → Turn α} {connected : Nat → Except Bytes (List Outcome)} {cfg : RunConfig}

/-- All threads have ended. -/
def Joined (connected : Nat → Except Bytes (List Outcome)) (cfg : RunConfig) : Prop :=
  ∀ share ∈ cfg.shares.zipIdx, ∀ outcomes, connected share.2 = .ok outcomes → share.1 ≤ outcomes.length

theorem all_pending_iff :
    ((threads turns connected cfg).all fun thread => thread.pending.isNone) = true ↔ Joined connected cfg := by
  simp only [threads, List.all_map, List.all_eq_true, Function.comp_apply, Joined]
  refine forall_congr' fun share => forall_congr' fun _ => ?_
  cases connected share.2 with
  | error what => simp [worker]
  | ok outcomes => simp [worker_pending_eq]

theorem threads_results :
    (threads turns connected cfg).map Worker.result = cfg.shares.zipIdx.map fun share =>
      (⟨samples true (turns share.2) share.1 (connected share.2),
        samples false (turns share.2) share.1 (connected share.2),
        failures share.1 (connected share.2)⟩ : ThreadResult α) := by
  simp [threads, worker_result_eq]

variable (turns) in
/-- The samples and the failures of all threads are all requests. -/
theorem length_samples_threads (hconcurrency : cfg.concurrency ≠ 0) (hjoined : Joined connected cfg) :
    (cfg.shares.zipIdx.flatMap fun share => samples true (turns share.2) share.1 (connected share.2)).length +
      (cfg.shares.zipIdx.flatMap fun share => samples false (turns share.2) share.1 (connected share.2)).length +
      (cfg.shares.zipIdx.map fun share => failures share.1 (connected share.2)).sum = cfg.requests := by
  have hfirst : cfg.shares = cfg.shares.zipIdx.map Prod.fst := by simp
  rw [← cfg.sum_shares hconcurrency]
  nth_rewrite 4 [hfirst]
  simp only [Joined] at hjoined
  generalize cfg.shares.zipIdx = shares at hjoined
  induction shares with
  | nil => rfl
  | cons share shares ih =>
    have hthis := length_samples (turns share.2) (hjoined share List.mem_cons_self)
    have hrest := ih fun later hlater => hjoined later (List.mem_cons_of_mem _ hlater)
    simp only [List.flatMap_cons, List.length_append, List.map_cons, List.sum_cons]
    omega

variable (turns) in
/-- What `main` reports when all threads have ended. -/
theorem report_threads [LinearOrder α] [Zero α] (hconcurrency : cfg.concurrency ≠ 0) (hjoined : Joined connected cfg) :
    let result := (((threads turns connected cfg).map Worker.result).foldl Totals.add {}).report
    let gets := cfg.shares.zipIdx.flatMap fun share => samples true (turns share.2) share.1 (connected share.2)
    let sets := cfg.shares.zipIdx.flatMap fun share => samples false (turns share.2) share.1 (connected share.2)
    result.get_stats = compute_percentiles gets ∧ result.set_stats = compute_percentiles sets ∧
      result.overall = compute_percentiles (gets ++ sets) ∧ result.measured = (gets ++ sets).length ∧
      result.error_count = (cfg.shares.zipIdx.map fun share => failures share.1 (connected share.2)).sum ∧
      result.measured + result.error_count = cfg.requests := by
  intro result gets sets
  have hall := length_samples_threads turns hconcurrency hjoined
  obtain ⟨hperm, hgets, hsets, herrors⟩ := Totals.foldl_add {} (List.Perm.refl [])
    ((threads turns connected cfg).map Worker.result)
  simp only [threads_results, List.flatMap_map, List.map_map, Function.comp_def, List.nil_append, Nat.zero_add]
    at hgets hsets herrors
  rw [threads_results, hgets, hsets] at hperm
  have hlength : result.measured = (gets ++ sets).length := by
    simp only [result, threads_results]
    exact hperm.length_eq
  simp only [result, threads_results] at hlength ⊢
  refine ⟨congrArg compute_percentiles hgets, congrArg compute_percentiles hsets,
    compute_percentiles_perm hperm, hlength, herrors, ?_⟩
  rw [hlength, List.length_append, ← hall]
  exact congrArg _ herrors

theorem kvbench_of_joined [LinearOrder α] [Zero α] (hargs : cfg.requests ≠ 0 ∧ cfg.concurrency ≠ 0)
    (hjoined : Joined connected cfg) (json_out : Bool) :
    let result := (((threads turns connected cfg).map Worker.result).foldl Totals.add {}).report
    kvbench turns connected json_out cfg =
      some (some result, if !json_out then 1 else if result.error_count > 0 then 2 else 0) := by
  have hgiven : ¬ (decide (cfg.requests = 0) || decide (cfg.concurrency = 0)) = true := by simp [hargs]
  rw [kvbench, if_neg hgiven, if_pos (all_pending_iff.mpr hjoined)]

theorem joined_of_kvbench [LinearOrder α] [Zero α] {json_out : Bool} {result : RunResult α} {status : Nat}
    (hran : kvbench turns connected json_out cfg = some (some result, status)) :
    (cfg.requests ≠ 0 ∧ cfg.concurrency ≠ 0) ∧ Joined connected cfg := by
  rw [kvbench] at hran
  split at hran
  · cases hran
  · rename_i hargs
    split at hran
    · rename_i hended
      exact ⟨by simpa using hargs, all_pending_iff.mp hended⟩
    · cases hran

end

/-- Every request is accounted for, once. Whatever connections cannot be opened and
    whatever comes of the exchanges of any thread: the statistics are those of the
    times of the `GET`s and of the `SET`s that did not fail, and of both together; the
    throughput counts these, `error_count` the others, and they add up to
    `--requests`; and the exit status tells whether all requests were answered. -/
theorem kvbench_accounts [LinearOrder α] [Zero α] {turns : Nat → Nat → Turn α}
    {connected : Nat → Except Bytes (List Outcome)} {cfg : RunConfig} {json_out : Bool} {result : RunResult α}
    {status : Nat} (hran : kvbench turns connected json_out cfg = some (some result, status)) :
    let gets := cfg.shares.zipIdx.flatMap fun share => samples true (turns share.2) share.1 (connected share.2)
    let sets := cfg.shares.zipIdx.flatMap fun share => samples false (turns share.2) share.1 (connected share.2)
    result.get_stats = compute_percentiles gets ∧ result.set_stats = compute_percentiles sets ∧
      result.overall = compute_percentiles (gets ++ sets) ∧ result.measured = (gets ++ sets).length ∧
      result.error_count = (cfg.shares.zipIdx.map fun share => failures share.1 (connected share.2)).sum ∧
      result.measured + result.error_count = cfg.requests ∧
      (status = 0 ↔ json_out = true ∧ result.measured = cfg.requests) := by
  obtain ⟨hargs, hjoined⟩ := joined_of_kvbench hran
  rw [kvbench_of_joined hargs hjoined, Option.some.injEq, Prod.mk.injEq, Option.some.injEq] at hran
  obtain ⟨rfl, hstatus⟩ := hran
  obtain ⟨hgets, hsets, hboth, hmeasured, herrors, htotal⟩ := report_threads turns hargs.2 hjoined
  refine ⟨hgets, hsets, hboth, hmeasured, herrors, htotal, ?_⟩
  rw [← hstatus]
  generalize (Totals.report _ : RunResult α) = result at htotal ⊢
  cases json_out with
  | false => simp
  | true =>
    by_cases hfailed : result.error_count > 0
    · simp only [hfailed, Bool.not_true, Bool.false_eq_true, ↓reduceIte, OfNat.ofNat_ne_zero, true_and, false_iff]
      omega
    · simp only [hfailed, Bool.not_true, Bool.false_eq_true, ↓reduceIte, true_and, true_iff]
      omega

/-- Seven requests over three connections. The second cannot be opened; the others
    answer once and then break. -/
theorem kvbench_accounts_example :
    let turns : Nat → Nat → Turn Nat := fun t i => ⟨i, i % 2 = 0, 10 * t + i + 1⟩
    let connected : Nat → Except Bytes (List Outcome) := fun t =>
      if t = 1 then .error (ascii "connect failed")
      else .ok [.ok ⟨.NotFound, [], []⟩, .error (ascii "connection closed"), .error (ascii "failed to write request")]
    ∃ result, kvbench turns connected true ⟨7, 3, 1000, 64⟩ = some (some result, 2) ∧
      result.get_stats = compute_percentiles [1, 21] ∧ result.set_stats = compute_percentiles [] ∧
      result.error_count = 5 ∧ result.measured + result.error_count = 7 := by
  intro turns connected
  obtain ⟨result, hresult⟩ : ∃ result, kvbench turns connected true ⟨7, 3, 1000, 64⟩ = some (some result, 2) :=
    ⟨_, rfl⟩
  obtain ⟨hgets, hsets, _, _, herrors, htotal, _⟩ := kvbench_accounts hresult
  exact ⟨result, hresult, hgets, hsets, herrors, htotal⟩

end kv.bench
