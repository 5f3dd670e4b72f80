import Kv.Router.Delivery

namespace kv.router

open kv.protocol Transition

/-- A replica executes a write only as the next one in the order in which the
    primary of the key has executed them. -/
def InOrder (router : Router) (before : List Event) : Event → Prop
  | .executed node_id t req => req.command ≠ .Get → ∀ primary ∈ router.primary req.key, node_id ≠ primary →
      writes before node_id req.key ++ [(t, req)] <+: writes before primary req.key
  | _ => True

instance (router : Router) (before : List Event) : DecidablePred (InOrder router before)
  | .executed node_id t req => inferInstanceAs (Decidable (req.command ≠ .Get → ∀ primary ∈ router.primary req.key,
      node_id ≠ primary → writes before node_id req.key ++ [(t, req)] <+: writes before primary req.key))
  | .received _ _ | .invoked _ _ | .returned _ _ _ | .sent _ _ | .crashed _ => isTrue trivial

/-- No write to the key is in flight. -/
def Settled (trace : List Event) (key : Bytes) : Prop :=
  ∀ t req, pending trace t = some req → req.key = key → req.command = .Get

/-- The invariant of runs without failures whose replicas keep the order. -/
structure Delivered (router : Router) (trace : List Event) (s : State) : Prop where
  pending : ∀ t, pending trace t = (s.threads t).routed
  stores : ∀ id key, (s.shared.nodes id).store.get key = replay trace id key
  counts : ∀ key ids, router.preference_list key = some ids → ∀ id ∈ ids, ∀ t,
    ((writes trace id key).map Prod.fst).count t = (acknowledged trace key).count t + (s.threads t).delivered key id
  order : ∀ key primary, router.primary key = some primary → ∀ id, writes trace id key <+: writes trace primary key

variable {router : Router} {trace events : List Event} {s s' : State} {t : Nat} {thread : Thread} {shared : Shared}

theorem delivered_init : Delivered router [] (system router).init where
  pending _ := rfl
  stores _ _ := rfl
  counts _ _ _ _ _ _ := rfl
  order _ _ _ _ := List.nil_prefix

theorem mem_of_mem_writes {id key : Bytes} {t : Nat} {req : Request} (hmem : (t, req) ∈ writes events id key) :
    Event.executed id t req ∈ events := by
  obtain ⟨event, hevent, heq⟩ := List.mem_filterMap.mp hmem
  cases event with
  | executed node_id t' req' =>
    dsimp only at heq
    split at heq
    · rename_i hwrite
      obtain ⟨rfl, rfl⟩ := Prod.mk.inj (Option.some.inj heq)
      exact hwrite.1 ▸ hevent
    · exact absurd heq (by simp)
  | _ => exact absurd heq (by simp)

theorem mem_of_mem_acknowledged {key : Bytes} {t : Nat} (hmem : t ∈ acknowledged events key) :
    ∃ req resp, Event.returned t req resp ∈ events := by
  obtain ⟨event, hevent, heq⟩ := List.mem_filterMap.mp hmem
  cases event with
  | returned t' req resp =>
    dsimp only at heq
    split at heq
    · exact ⟨req, resp, Option.some.inj heq ▸ hevent⟩
    · exact absurd heq (by simp)
  | _ => exact absurd heq (by simp)

/-- The writes of one thread do not count for another. -/
theorem ThreadStep.count_other {thread' : Thread} {shared' : Shared}
    (hmove : ThreadStep router t thread shared thread' shared' events) {t' : Nat} (hne : t' ≠ t) (id key : Bytes) :
    ((writes events id key).map Prod.fst).count t' = 0 ∧ (acknowledged events key).count t' = 0 := by
  have hexecuted (req : Request) : Event.executed id t' req ∉ events := by
    cases hmove with
    | routed hpc hroute => cases hroute <;> simp [hne]
    | _ => simp
  have hreturned (req : Request) (resp : Response) : Event.returned t' req resp ∉ events := by
    cases hmove with
    | routed hpc hroute => cases hroute <;> simp [hne]
    | _ => simp
  rw [List.count_eq_zero, List.count_eq_zero]
  constructor
  · intro hmem
    obtain ⟨⟨_, req⟩, hwrite, rfl⟩ := List.mem_map.mp hmem
    exact hexecuted req (mem_of_mem_writes hwrite)
  · intro hmem
    obtain ⟨req, resp, hmem⟩ := mem_of_mem_acknowledged hmem
    exact hreturned req resp hmem

/-- The balance between the writes that a node has executed and those that have
    returned, for a step of any thread. -/
theorem ThreadStep.balance (hled : router.Led) (hknown : router.Known) (hok : Consistent router s) (hcalm : Calm s)
    (hmove : ThreadStep router t (s.threads t) s.shared thread shared events) {key : Bytes} {ids : List Bytes}
    (hlist : router.preference_list key = some ids) {id : Bytes} (hid : id ∈ ids) :
    ((writes events id key).map Prod.fst).count t + (s.threads t).delivered key id =
      (acknowledged events key).count t + thread.delivered key id := by
  cases hmove with
  | drained hpc => simp [Thread.delivered, hpc, writes, acknowledged]
  | rejected hpc => simp [Thread.delivered, hpc, writes, acknowledged]
  | pinged hpc => simp [Thread.delivered, hpc, writes, acknowledged]
  | replied hpc => simp [Thread.delivered, hpc, writes, acknowledged]
  | @invoked req parser nodes hpc hcall hping hlist' =>
    -- The request has not been to any node of its list yet.
    have hnone : ¬ (req.key = key ∧ req.command ≠ .Get ∧
        id ∉ ({ preference_list := nodes, todo := nodes } : Routing).remaining) := by
      rintro ⟨rfl, _, hremaining⟩
      obtain rfl := Option.some.inj (hlist'.symm.trans hlist)
      exact hremaining hid
    rw [Thread.delivered_of_not_routing (by simp [hpc]), Thread.delivered_of_routing rfl, if_neg hnone]
    rfl
  | @routed r _ _ _ hpc hroute =>
    exact (hcalm.move hled hknown hok hpc hroute).balance ((hok.threads t).routing r hpc) (hcalm.straight t r hpc)
      hpc key id

/-- Every node of the list executes every write once before the write returns. -/
theorem SystemStep.counts (hled : router.Led) (hknown : router.Known) (hok : Consistent router s) (hcalm : Calm s)
    {label : Label} (hlabel : NoFailure label) (hmove : SystemStep router s label s' events) {key : Bytes}
    {ids : List Bytes} (hlist : router.preference_list key = some ids) {id : Bytes} (hid : id ∈ ids)
    (hcounts : ∀ t, ((writes trace id key).map Prod.fst).count t =
      (acknowledged trace key).count t + (s.threads t).delivered key id) (t : Nat) :
    ((writes (trace ++ events) id key).map Prod.fst).count t =
      (acknowledged (trace ++ events) key).count t + (s'.threads t).delivered key id := by
  rw [writes_append, acknowledged_append, List.map_append, List.count_append, List.count_append, hcounts]
  have hstill {thread : Thread} {t' : Nat} (hthread : thread.delivered key id = (s.threads t').delivered key id) :
      (s.threads t).delivered key id = ((s.setThread t' thread).threads t).delivered key id := by
    rw [setThread_threads]
    by_cases heq : t = t'
    · subst heq
      rw [Function.update_self, hthread]
    · rw [Function.update_of_ne heq]
  cases hmove with
  | received hpc => exact congrArg _ (hstill (by simp [Thread.delivered, hpc]))
  | closed hpc => exact congrArg _ (hstill (by simp [Thread.delivered, hpc]))
  | lost _ _ _ hconn hbroken => simp [hcalm.connected hok hconn] at hbroken
  | swept => rfl
  | pinging => rfl
  | pinged => rfl
  | marked => rfl
  | crashed => exact absurd hlabel (by simp [NoFailure])
  | restarted => exact absurd hlabel (by simp [NoFailure])
  | @moved t' thread shared events hmove =>
    change _ = _ + (Function.update s.threads t' thread t).delivered key id
    by_cases heq : t = t'
    · subst heq
      have hbalance := hmove.balance hled hknown hok hcalm hlist hid
      rw [Function.update_self]
      omega
    · obtain ⟨hwrites, hacks⟩ := hmove.count_other heq id key
      rw [Function.update_of_ne heq]
      omega

/-- As long as the replicas keep the order, the writes that one of them has
    executed are the first ones of the primary. -/
theorem SystemStep.order {label : Label} (hlabel : CrashStop label) (hmove : SystemStep router s label s' events)
    (hinorder : Always (InOrder router) (trace ++ events)) {key primary : Bytes}
    (hprimary : router.primary key = some primary)
    (horder : ∀ id, writes trace id key <+: writes trace primary key) (id : Bytes) :
    writes (trace ++ events) id key <+: writes (trace ++ events) primary key := by
  rw [writes_append, writes_append]
  rcases hmove.executes hlabel with ⟨node_id, t, req, rfl, _⟩ | ⟨hevents, _⟩
  · by_cases hwrite : req.key = key ∧ req.command ≠ .Get
    · obtain ⟨rfl, hget⟩ := hwrite
      by_cases hid : id = node_id
      · subst hid
        by_cases hself : id = primary
        · subst hself
          exact List.prefix_rfl
        · rw [writes_executed rfl hget, writes_executed_ne hself, List.append_nil]
          exact hinorder.last hget primary hprimary hself
      · rw [writes_executed_ne (Ne.symm hid), List.append_nil]
        exact (horder id).trans (List.prefix_append _ _)
    · rw [writes_executed_other hwrite, writes_executed_other hwrite, List.append_nil, List.append_nil]
      exact horder id
  · rw [writes_eq_nil hevents, writes_eq_nil hevents, List.append_nil, List.append_nil]
    exact horder id

theorem Delivered.keep (hled : router.Led) (hknown : router.Known) (hok : Consistent router s) (hcalm : Calm s)
    (hdelivered : Delivered router trace s) {label : Label} (hlabel : NoFailure label)
    (hinorder : Always (InOrder router) (trace ++ events)) (hmove : SystemStep router s label s' events) :
    Delivered router (trace ++ events) s' where
  pending := hmove.pending hdelivered.pending
  stores := hmove.stores hlabel.crashStop hdelivered.stores
  counts _ _ hlist id hid := hmove.counts hled hknown hok hcalm hlabel hlist hid (hdelivered.counts _ _ hlist id hid)
  order _ _ hprimary := hmove.order hlabel.crashStop hinorder hprimary (hdelivered.order _ _ hprimary)

/-- At rest, two nodes of a list have executed the same number of writes. -/
theorem Delivered.length_eq (hdelivered : Delivered router trace s) {key : Bytes} {ids : List Bytes}
    (hlist : router.preference_list key = some ids)
    (hsettled : Settled trace key) {id id' : Bytes}
    (hid : id ∈ ids) (hid' : id' ∈ ids) : (writes trace id key).length = (writes trace id' key).length := by
  have hnone (t : Nat) (id : Bytes) : (s.threads t).delivered key id = 0 := by
    cases hpc : (s.threads t).pc with
    | routing r =>
      rw [Thread.delivered_of_routing hpc, if_neg]
      rintro ⟨hkey, hget, _⟩
      exact hget (hsettled t _ ((hdelivered.pending t).trans (Thread.routed_of_pc hpc)) hkey)
    | _ => exact Thread.delivered_of_not_routing (by simp [hpc]) key id
  have hperm : ((writes trace id key).map Prod.fst).Perm ((writes trace id' key).map Prod.fst) := by
    rw [List.perm_iff_count]
    intro t
    rw [hdelivered.counts key ids hlist id hid, hdelivered.counts key ids hlist id' hid', hnone, hnone]
  simpa using hperm.length_eq

/-- Replicas converge where they execute the writes to a key in one order. In
    every run without failures in which each replica follows the order of the
    primary, and in every state of it in which no write to the key is in flight,
    all nodes of the preference list hold what the writes executed by the
    primary leave, one after the other. -/
theorem replicas_converge {nodes : List NodeAddress} {vnodes replicas : Nat} {trace : List Event} {s : State}
    (hrun : Run (system (Router.create nodes vnodes replicas)) NoFailure
      (system (Router.create nodes vnodes replicas)).init trace s)
    (hinorder : Always (InOrder (Router.create nodes vnodes replicas)) trace) {key : Bytes} {ids : List Bytes}
    (hlist : (Router.create nodes vnodes replicas).preference_list key = some ids)
    (hsettled : Settled trace key) :
    ∃ primary rest, ids = primary :: rest ∧
      ∀ id ∈ ids, (s.shared.nodes id).store.get key = replay trace primary key := by
  have hinv := calm_invariant (C := Always (InOrder (Router.create nodes vnodes replicas)))
    (I := Delivered (Router.create nodes vnodes replicas)) Router.led_create Router.known_create
    (fun _ _ hall => hall.of_append) delivered_init
    (fun _ _ _ _ _ hok hcalm hdelivered hlabel hC hmove =>
      hdelivered.keep Router.led_create Router.known_create hok hcalm hlabel hC hmove) hrun hinorder
  have hdelivered := hinv.2.2
  cases ids with
  | nil => exact absurd hlist (Router.led_create key)
  | cons primary rest =>
    refine ⟨primary, rest, rfl, fun id hid => ?_⟩
    have hwrites : writes trace id key = writes trace primary key :=
      (hdelivered.order key primary (Router.primary_eq hlist) id).eq_of_length
        (hdelivered.length_eq hlist hsettled hid List.mem_cons_self)
    rw [hdelivered.stores, replay, hwrites]
    rfl

theorem settled_of_pending (hnone : ∀ t, pending trace t = none) (key : Bytes) : Settled trace key := by
  intro t req hpending
  simp [hnone t] at hpending

/-- Two threads write the same key. The second one gets to the primary while the
    first one is between the two replicas, and stays behind it. -/
theorem replicas_converge_example :
    let router := Router.create [⟨ascii "a", 1⟩, ⟨ascii "b", 1⟩] 1 2
    let first : Request := ⟨.Set, ascii "k", ascii "x"⟩
    let second : Request := ⟨.Set, ascii "k", ascii "y"⟩
    let trace : List Event := [.received 0 (encode_request first), .received 1 (encode_request second),
      .invoked 0 first, .executed (ascii "a:1") 0 first, .invoked 1 second, .executed (ascii "a:1") 1 second,
      .executed (ascii "b:1") 0 first, .returned 0 first ⟨.Ok, [], []⟩, .sent 0 encode_ok_response,
      .executed (ascii "b:1") 1 second, .returned 1 second ⟨.Ok, [], []⟩, .sent 1 encode_ok_response]
    ∃ s, Run (system router) NoFailure (system router).init trace s ∧ Always (InOrder router) trace ∧
      Settled trace (ascii "k") ∧
      ∃ primary rest, [ascii "a:1", ascii "b:1"] = primary :: rest ∧
        ∀ id ∈ [ascii "a:1", ascii "b:1"],
          (s.shared.nodes id).store.get (ascii "k") = replay trace primary (ascii "k") := by
  intro router first second trace
  obtain ⟨s, hrun⟩ : ∃ s, Run (system router) NoFailure (system router).init trace s := by
    apply Run.exists_of_exec ([Label.recv 0 (encode_request first), .recv 1 (encode_request second)] ++
      List.replicate 5 (Label.step 0) ++ List.replicate 5 (Label.step 1) ++ List.replicate 6 (Label.step 0) ++
      List.replicate 6 (Label.step 1))
    · decide +kernel
    · decide +kernel
  have hinorder : Always (InOrder router) trace := by decide +kernel
  have hsettled : Settled trace (ascii "k") := by
    apply settled_of_pending
    intro t
    match t with
    | 0 => rfl
    | 1 => rfl
    | t + 2 => exact pending_of_not_invoked (by simp [trace])
  exact ⟨s, hrun, hinorder, hsettled, replicas_converge hrun hinorder (by decide +kernel) hsettled⟩

/-- Replicas diverge without a failure. A second write overtakes the first one
    between the two replicas: the primary ends with the value of the second
    write, and the other replica with that of the first. -/
theorem replicas_diverge :
    let router := Router.create [⟨ascii "a", 1⟩, ⟨ascii "b", 1⟩] 1 2
    ∃ trace s, Run (system router) NoFailure (system router).init trace s ∧ Settled trace (ascii "k") ∧
      router.preference_list (ascii "k") = some [ascii "a:1", ascii "b:1"] ∧
      (s.shared.nodes (ascii "a:1")).store.get (ascii "k") = some (ascii "y") ∧
      (s.shared.nodes (ascii "b:1")).store.get (ascii "k") = some (ascii "x") := by
  intro router
  let first : Request := ⟨.Set, ascii "k", ascii "x"⟩
  let second : Request := ⟨.Set, ascii "k", ascii "y"⟩
  let trace : List Event := [.received 0 (encode_request first), .received 1 (encode_request second),
    .invoked 0 first, .executed (ascii "a:1") 0 first, .invoked 1 second, .executed (ascii "a:1") 1 second,
    .executed (ascii "b:1") 1 second, .returned 1 second ⟨.Ok, [], []⟩, .sent 1 encode_ok_response,
    .executed (ascii "b:1") 0 first, .returned 0 first ⟨.Ok, [], []⟩, .sent 0 encode_ok_response]
  let labels : List Label := [Label.recv 0 (encode_request first), .recv 1 (encode_request second)] ++
    List.replicate 5 (Label.step 0) ++ List.replicate 11 (Label.step 1) ++ List.replicate 6 (Label.step 0)
  have hexec : ((system router).exec (system router).init labels).map (fun (trace, s) =>
      (trace, (s.shared.nodes (ascii "a:1")).store.get (ascii "k"),
        (s.shared.nodes (ascii "b:1")).store.get (ascii "k"))) =
      some (trace, some (ascii "y"), some (ascii "x")) := by decide +kernel
  obtain ⟨⟨trace', s⟩, hexec', hstate⟩ := Option.map_eq_some_iff.mp hexec
  obtain ⟨rfl, hprimary, hreplica⟩ : trace' = trace ∧ _ ∧ _ := by simpa only [Prod.mk.injEq] using hstate
  refine ⟨_, s, .of_exec (by decide +kernel) hexec', ?_, by decide +kernel, hprimary, hreplica⟩
  apply settled_of_pending
  intro t
  match t with
  | 0 => rfl
  | 1 => rfl
  | t + 2 => exact pending_of_not_invoked (by simp [trace])

end kv.router
