import Kv.Bench.Oversized

open Incremental

namespace kv.bench

open protocol client wire Transition

/-- A key of the benchmark is one that the server takes. -/
theorem validKey_next {n : Nat} (hn : n < 2 ^ 64) : ValidKey (ascii "key:" ++ to_string n) := by
  have hdigits : (to_string n).length ≤ 20 := (length_to_string_le_iff (by decide)).mpr (hn.trans (by decide))
  have hlength : (ascii "key:").length = 4 := by decide
  have hname : ValidKey (ascii "key:") := by decide
  refine ⟨by rw [List.length_append, hlength]; omega, by rw [List.length_append, hlength]; omega, ?_⟩
  intro c hc
  rcases List.mem_append.mp hc with hc | hc
  · exact hname.2.2 c hc
  · exact isdigit_gt_space (isdigit_of_mem_to_string hc)

section Requests

variable {α : Type}

theorem WorkloadGenerator.next_wellFormed {key_space value_size : Nat} {turn : Turn α} (hkey : turn.key < 2 ^ 64)
    (hfits : turn.get = true ∨ value_size ≤ kMaxValueLen) :
    ((WorkloadGenerator.create key_space value_size).next turn).WellFormed := by
  rw [next]
  cases hget : turn.get with
  | true => exact ⟨validKey_next hkey, rfl⟩
  | false =>
    refine ⟨validKey_next hkey, ?_⟩
    simpa [create, hget] using hfits

theorem WorkloadGenerator.next_set {key_space value_size : Nat} {turn : Turn α} (hset : turn.get = false) :
    (WorkloadGenerator.create key_space value_size).next turn =
      ⟨.Set, ascii "key:" ++ to_string turn.key, List.replicate value_size 0x78⟩ := by
  simp [next, create, hset]

end Requests

/-- The first line of a `SET`. -/
def header (key : Bytes) (n : Nat) : Bytes := ascii "SET" ++ SP :: key ++ SP :: to_string n

section Header

variable {key : Bytes} (hkey : ValidKey key)

include hkey

theorem not_mem_header (n : Nat) : LF ∉ header key n := by
  have hdigits : ∀ c ∈ to_string n, SP < c := fun c hc => isdigit_gt_space (isdigit_of_mem_to_string hc)
  simp only [header, List.mem_append, List.mem_cons, not_or]
  exact ⟨⟨by decide, by decide, hkey.not_mem (by decide)⟩, by decide, not_mem_of_gt_space hdigits (by decide)⟩

/-- A length above the limit: the server rejects the header and keeps what follows. -/
theorem decode_oversized {n : Nat} (hn : kMaxValueLen < n) (rest : Bytes) :
    requestFormat.decode (header key n ++ LF :: rest) = some (.Error (ascii "malformed SET request"), rest) := by
  have hdigits : ∀ c ∈ to_string n, SP < c := fun c hc => isdigit_gt_space (isdigit_of_mem_to_string hc)
  obtain ⟨c, hlast, hc⟩ := exists_getLast?_of_gt_space (ascii "SET" ++ SP :: key) (to_string_ne_nil n) hdigits
  have htokens := split_spaces_three (ascii "SET") (by decide) (hkey.not_mem (by decide))
    (not_mem_of_gt_space hdigits (by decide))
  have hlength : parse_length (to_string n) = none := by
    rw [Option.eq_none_iff_forall_ne_some]
    intro m hm
    obtain ⟨_, _, _, hvalue, hle⟩ := (parse_length_eq_some_iff _ m).mp hm
    rw [decimal_to_string] at hvalue
    exact absurd hle (by rw [← hvalue]; exact not_le.mpr hn)
  rw [decodeRequest_line _ (not_mem_header hkey n), header, strip_of_gt_space hlast hc]
  simp only [requestVerdict, htokens, List.getD_cons_zero, List.getD_cons_succ,
    (is_valid_key_iff key).mpr hkey, hlength]
  rfl

end Header

/-- The header of such a request fits into a command line. -/
theorem length_header {k n : Nat} (hk : k < 2 ^ 64) (hn : n < 2 ^ 64) :
    (header (ascii "key:" ++ to_string k) n).length ≤ kMaxCommandLineLen := by
  have hdigits {m : Nat} (hm : m < 2 ^ 64) : (to_string m).length ≤ 20 :=
    (length_to_string_le_iff (by decide)).mpr (hm.trans (by decide))
  have hkey := hdigits hk
  have hvalue := hdigits hn
  have hwords : (ascii "SET").length = 3 ∧ (ascii "key:").length = 4 := by decide
  simp only [header, List.length_append, List.length_cons, hwords, kMaxCommandLineLen, kMaxKeyLen]
  omega

/-- The calls of a worker. -/
def worker_calls {α : Type} (gen : WorkloadGenerator) (turns : Nat → Turn α) (thread_index num_requests : Nat) :
    Program :=
  fun outcomes => (worker gen turns thread_index num_requests (.ok outcomes)).pending

/-- A value above the limit has been drawn for the request or for an earlier one of the
    same worker. -/
def spoiled {α : Type} (cfg : RunConfig) (turns : Nat → Turn α) (i : Nat) : Bool :=
  decide (kMaxValueLen < cfg.value_size) && (List.range (i + 1)).any fun j => !(turns j).get

/-- The requests that a worker sends. -/
def requests {α : Type} (cfg : RunConfig) (turns : Nat → Turn α) (n : Nat) : List Request :=
  (List.range n).map fun i => (WorkloadGenerator.create cfg.key_space cfg.value_size).next (turns i)

section Workers

variable {α : Type} {cfg : RunConfig} {turns : Nat → Turn α} {t n : Nat}

theorem spoiled_iff {i : Nat} :
    spoiled cfg turns i = true ↔ kMaxValueLen < cfg.value_size ∧ ∃ j ≤ i, (turns j).get = false := by
  rw [spoiled, Bool.and_eq_true, decide_eq_true_eq, List.any_eq_true]
  simp only [List.mem_range, Nat.lt_succ_iff, Bool.not_eq_true']

theorem fits_of_spoiled (hfits : ∀ i < n, spoiled cfg turns i = false) :
    ∀ i < n, (turns i).get = true ∨ cfg.value_size ≤ kMaxValueLen := by
  intro i hi
  have hfit := hfits i hi
  by_contra hnot
  rw [not_or, Bool.not_eq_true, not_le] at hnot
  rw [spoiled_iff.mpr ⟨hnot.2, i, le_rfl, hnot.1⟩] at hfit
  cases hfit

theorem worker_calls_eq (outcomes : List Outcome) :
    worker_calls (.create cfg.key_space cfg.value_size) turns t n outcomes =
      (requests cfg turns n)[outcomes.length]? := by
  rw [worker_calls, worker_pending_eq, requests]
  by_cases hmore : outcomes.length < n <;> simp [hmore]

theorem follows_worker (cfg : RunConfig) (turns : Nat → Turn α) (t n : Nat) :
    Follows (worker_calls (.create cfg.key_space cfg.value_size) turns t n) (requests cfg turns n) :=
  fun outcomes _ => worker_calls_eq outcomes

theorem length_requests (cfg : RunConfig) (turns : Nat → Turn α) (n : Nat) : (requests cfg turns n).length = n := by
  simp [requests]

/-- The call that sends the first value above the limit. -/
theorem sunk_begin {first steps : Nat} {session : Session} {log : List wire.Event}
    (hkept : Kept (requests cfg turns first) t steps session log) (hcall : session.call = none)
    (hfirst : session.outcomes.length = first) (hset : (turns first).get = false) :
    Sunk (header (ascii "key:" ++ to_string (turns first).key) cfg.value_size) cfg.value_size first
      { session with
        call := some (.sending ((WorkloadGenerator.create cfg.key_space cfg.value_size).next (turns first)) 0) } := by
  obtain ⟨hidle, -⟩ := hkept.stage.of_idle hcall
  refine ⟨hkept.unbroken, @Sinking.heading _ _ _ _ [] ?_ ?_ ?_, ?_, ?_, hfirst.ge⟩
  · exact hidle.quiet.imp_right (·.resolve_right fun h => by simp [hkept.unbroken] at h)
  · rw [show session.channel.served.parser.buffer_ = [] from hidle.buffer]
    exact List.nil_prefix
  · rw [WorkloadGenerator.next_set hset]
    simp [unsent, header, hidle.buffer, hidle.up, encode_request_set, fill]
  · simpa [unread, hidle.down] using complaining_nil
  · intro i outcome houtcome
    have hi : i < session.outcomes.length := (List.getElem?_eq_some_iff.mp houtcome).1
    rw [hkept.good outcome (List.mem_of_getElem? houtcome), eq_comm, decide_eq_false_iff_not]
    omega

variable (hkeys : ∀ i, (turns i).key < 2 ^ 64)

include hkeys

/-- Up to the first value above the limit, the protocol can carry all requests. -/
theorem wellFormed_requests (hfits : ∀ i < n, (turns i).get = true ∨ cfg.value_size ≤ kMaxValueLen) :
    ∀ req ∈ requests cfg turns n, req.WellFormed := by
  intro req hmem
  obtain ⟨i, hi, rfl⟩ := List.mem_map.mp hmem
  exact WorkloadGenerator.next_wellFormed (hkeys i) (hfits i (List.mem_range.mp hi))

variable {programs : Nat → Program}
  (hprogram : programs t = worker_calls (.create cfg.key_space cfg.value_size) turns t n)
  {store : KVStore} (hstore : store.Bounded) {P : Nat × Action → Prop}
  {log : List (Step Network (Nat × Action) wire.Event)} {s : Network}
  (hrun : Run (network programs store).logged P (network programs store).init log s)

include hprogram hstore hrun

/-- A worker that draws no value above the limit. -/
theorem kept_worker (hfits : ∀ i < n, spoiled cfg turns i = false) :
    ∃ exchanged, Kept (requests cfg turns n) t (steps t log) (s.sessions t) exchanged := by
  refine exists_kept ?_ (wellFormed_requests hkeys (fits_of_spoiled hfits)) hstore hrun
  rw [hprogram]
  exact follows_worker cfg turns t n

/-- Where it can take no step, it has made all its calls. -/
theorem length_outcomes_worker (hfits : ∀ i < n, spoiled cfg turns i = false)
    (hstuck : ∀ action, s.step programs (t, action) = none) : (s.sessions t).outcomes.length = n := by
  obtain ⟨exchanged, hkept⟩ := kept_worker hkeys hprogram hstore hrun hfits
  have hfollows : Follows (programs t) (requests cfg turns n) := by
    rw [hprogram]
    exact follows_worker cfg turns t n
  have hstopped (action : Action) : (s.sessions t).step (programs t) t s.store action = none := by
    simpa [Network.step] using hstuck action
  obtain ⟨-, hlength⟩ := hkept.finished hfollows (wellFormed_requests hkeys (fits_of_spoiled hfits)) hstopped
  rw [hlength, length_requests]

/-- A worker whose request number `first` has the first value above the limit. -/
theorem sunk_worker (hsize : cfg.value_size < 2 ^ 64) (hlong : kMaxValueLen < cfg.value_size) {first : Nat}
    (hfirst : first < n) (hset : (turns first).get = false) (hgets : ∀ i < first, (turns i).get = true) :
    (∃ exchanged, Kept (requests cfg turns first) t (steps t log) (s.sessions t) exchanged) ∨
      Sunk (header (ascii "key:" ++ to_string (turns first).key) cfg.value_size) cfg.value_size first
        (s.sessions t) := by
  have hkey := validKey_next (hkeys first)
  have hwf : ∀ req ∈ requests cfg turns first, req.WellFormed :=
    wellFormed_requests hkeys fun i hi => .inl (hgets i hi)
  refine session_invariant (I := fun steps session _ =>
    (∃ exchanged, Kept (requests cfg turns first) t steps session exchanged) ∨
      Sunk (header (ascii "key:" ++ to_string (turns first).key) cfg.value_size) cfg.value_size first session)
    (.inl ⟨[], kept_init _ t⟩) ?_ (fun _ _ _ _ _ _ _ h => h) hrun
  rintro steps session store action session' store' events hvalues (⟨exchanged, hkept⟩ | hsunk) hstep
  · have hwithin := hkept.within
    rw [length_requests] at hwithin
    by_cases hleave : action = .begin ∧ session.outcomes.length = first
    · obtain ⟨rfl, hlast⟩ := hleave
      cases hstep with
      | begun hcall hnext =>
        have hdrawn : programs t session.outcomes =
            some ((WorkloadGenerator.create cfg.key_space cfg.value_size).next (turns first)) := by
          rw [hprogram, worker_calls_eq, hlast]
          simp [requests, hfirst]
        obtain rfl := Option.some.inj (hdrawn.symm.trans hnext)
        exact .inr (sunk_begin hkept hcall hlast hset)
    · have hfollows (hbegin : action = .begin) :
          programs t session.outcomes = (requests cfg turns first)[session.outcomes.length]? := by
        have hne : session.outcomes.length ≠ first := fun heq => hleave ⟨hbegin, heq⟩
        have hless : session.outcomes.length < first := by omega
        rw [hprogram, worker_calls_eq]
        simp [requests, hless, hless.trans hfirst]
      obtain ⟨exchanged', -, hkept'⟩ := hkept.step hfollows hwf (hvalues hstore) hstep
      exact .inl ⟨exchanged', hkept'⟩
  · exact .inr (hsunk.step (not_mem_header hkey _) (length_header (hkeys first) hsize) hlong
      (decode_oversized hkey hlong) hstep)

/-- A request fails exactly if a value above the limit has been drawn. -/
theorem failed_eq_spoiled (hsize : cfg.value_size < 2 ^ 64) {i : Nat} {outcome : Outcome}
    (houtcome : (s.sessions t).outcomes[i]? = some outcome) : outcome.failed = spoiled cfg turns i := by
  have hi := (List.getElem?_eq_some_iff.mp houtcome).1
  by_cases hfits : ∀ i < n, spoiled cfg turns i = false
  · obtain ⟨exchanged, hkept⟩ := kept_worker hkeys hprogram hstore hrun hfits
    have hwithin := hkept.within
    rw [length_requests] at hwithin
    rw [hkept.good outcome (List.mem_of_getElem? houtcome), hfits i (by omega)]
  · simp only [not_forall, Bool.not_eq_false] at hfits
    obtain ⟨last, hlast, hspoiled⟩ := hfits
    obtain ⟨hlong, hdrawn⟩ := spoiled_iff.mp hspoiled
    have hexists : ∃ j, (turns j).get = false := by
      obtain ⟨j, -, hj⟩ := hdrawn
      exact ⟨j, hj⟩
    have hset := Nat.find_spec hexists
    have hmin (j : Nat) (hj : (turns j).get = false) : Nat.find hexists ≤ j := Nat.find_min' hexists hj
    have hgets (j : Nat) (hj : j < Nat.find hexists) : (turns j).get = true := by
      simpa using Nat.find_min hexists hj
    have hfirst : Nat.find hexists < n := by
      obtain ⟨j, hj, hget⟩ := hdrawn
      exact (hmin j hget).trans_lt (hj.trans_lt hlast)
    have hspoiled_iff : spoiled cfg turns i = decide (Nat.find hexists ≤ i) := by
      rw [Bool.eq_iff_iff, spoiled_iff, decide_eq_true_eq]
      constructor
      · rintro ⟨-, j, hj, hget⟩
        exact (hmin j hget).trans hj
      · intro hle
        exact ⟨hlong, _, hle, hset⟩
    rw [hspoiled_iff]
    rcases sunk_worker hkeys hprogram hstore hrun hsize hlong hfirst hset hgets with ⟨exchanged, hkept⟩ | hsunk
    · have hwithin := hkept.within
      rw [length_requests] at hwithin
      rw [hkept.good outcome (List.mem_of_getElem? houtcome), eq_comm, decide_eq_false_iff_not]
      omega
    · exact hsunk.outcomes i outcome houtcome

end Workers

theorem countP_failed {α : Type} {cfg : RunConfig} {turns : Nat → Turn α} {n : Nat} {outcomes : List Outcome}
    (hlength : n ≤ outcomes.length)
    (hfailed : ∀ i < n, ∀ outcome, outcomes[i]? = some outcome → outcome.failed = spoiled cfg turns i) :
    failures n (.ok outcomes) = (List.range n).countP (spoiled cfg turns) := by
  have hmap : (outcomes.take n).map Outcome.failed = (List.range n).map (spoiled cfg turns) := by
    refine List.ext_getElem (by simpa using hlength) fun i hi _ => ?_
    simp only [List.length_map, List.length_take] at hi
    rw [List.getElem_map, List.getElem_map, List.getElem_take, List.getElem_range]
    exact hfailed i (by omega) _ (List.getElem?_eq_getElem (by omega))
  have hcount := congrArg (List.countP id) hmap
  rwa [List.countP_map, List.countP_map] at hcount

/-- The benchmark and the rest of the world: each worker makes its calls on a connection
    of its own, the distributions keep to their range, and the command line gives
    numbers of 64 bits. -/
structure Bench {α : Type} (cfg : RunConfig) (turns : Nat → Nat → Turn α) (programs : Nat → Program) : Prop where
  args : cfg.requests ≠ 0 ∧ cfg.concurrency ≠ 0
  sizes : cfg.key_space < 2 ^ 64 ∧ cfg.value_size < 2 ^ 64
  keys : ∀ t i, (turns t i).key ≤ (WorkloadGenerator.create cfg.key_space cfg.value_size).max_key
  workers : ∀ share ∈ cfg.shares.zipIdx,
    programs share.2 = worker_calls (.create cfg.key_space cfg.value_size) (turns share.2) share.2 share.1

theorem Bench.key_lt {α : Type} {cfg : RunConfig} {turns : Nat → Nat → Turn α} {programs : Nat → Program}
    (hbench : Bench cfg turns programs) (t i : Nat) : (turns t i).key < 2 ^ 64 := by
  have hkey := hbench.keys t i
  have hspace := hbench.sizes.1
  simp only [WorkloadGenerator.create] at hkey
  split at hkey <;> omega

end kv.bench
