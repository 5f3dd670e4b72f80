import Kv.Router.Progress

namespace kv.router

open kv.protocol Transition

/-- What failover owes a client, at the time a request returns. A reply is the
    reply of a plain map after the completed requests on the key, and an error
    means that every node of the preference list has crashed. -/
def Answered (router : Router) (before : List Event) (event : Event) : Prop :=
  ∀ t req resp, event = .returned t req resp →
    (resp.type ≠ .Error →
      encode_response resp = ((PlainMap.after (completed before req.key)).handle_request req).1) ∧
    (resp.type = .Error → ∃ ids, router.preference_list req.key = some ids ∧
      resp = no_live_replica_error ids.length ∧ ∀ id ∈ ids, Event.crashed id ∈ before)

theorem answered_of_silent {router : Router} {event : Event} (hsilent : event.Silent) (before : List Event) :
    Answered router before event := by
  rintro t req resp rfl
  exact absurd hsilent (by simp [Event.Silent])

/-- The replicas that are up agree with one plain map, but for the request that
    is on its way through them. -/
structure Agreement (router : Router) (trace : List Event) (s : State) : Prop where
  pending : ∀ t, pending trace t = (s.threads t).routed
  alone : ∀ t t' r r', (s.threads t).pc = .routing r → (s.threads t').pc = .routing r' →
    (s.threads t).req.key = (s.threads t').req.key → t = t'
  busy : ∀ t r, (s.threads t).pc = .routing r →
    Progress s.shared.nodes (s.threads t).req (held trace (s.threads t).req.key) r
  idle : ∀ key ids, router.preference_list key = some ids →
    (∀ t r, (s.threads t).pc = .routing r → (s.threads t).req.key ≠ key) →
    ∀ id ∈ ids, (s.shared.nodes id).up = true → (s.shared.nodes id).store.get key = held trace key
  down : ∀ id, (s.shared.nodes id).up = false → Event.crashed id ∈ trace
  answers : Always (Answered router) trace

variable {router : Router} {trace events : List Event} {s s' : State}

theorem agreement_init : Agreement router [] (system router).init where
  pending t := rfl
  alone t t' r r' hpc := absurd hpc (by simp [system])
  busy t r hpc := absurd hpc (by simp [system])
  idle key ids _ _ id _ _ := rfl
  down id hdown := absurd hdown (by simp [system])
  answers := always_nil

/-- Steps that do not concern routing, and crashes. -/
theorem Agreement.quiet (hagree : Agreement router trace s)
    (hpending : ∀ t, kv.router.pending (trace ++ events) t = (s'.threads t).routed)
    (hthreads : ∀ t, s'.threads t = s.threads t ∨ ((s.threads t).routed = none ∧ (s'.threads t).routed = none))
    (hkeeps : ∀ key, Keeps s.shared.nodes s'.shared.nodes key)
    (hdown : ∀ id, (s'.shared.nodes id).up = false → Event.crashed id ∈ trace ++ events)
    (hsilent : ∀ event ∈ events, event.Silent) : Agreement router (trace ++ events) s' := by
  have hrouting {t : Nat} {r : Routing} (hpc : (s'.threads t).pc = .routing r) : s'.threads t = s.threads t := by
    rcases hthreads t with hsame | ⟨_, hnone⟩
    · exact hsame
    · exact absurd hpc (Thread.pc_ne_of_routed hnone r)
  constructor
  · exact hpending
  · intro t t' r r' hpc hpc' hkey
    have hsame := hrouting hpc
    have hsame' := hrouting hpc'
    rw [hsame] at hpc hkey
    rw [hsame'] at hpc' hkey
    exact hagree.alone t t' r r' hpc hpc' hkey
  · intro t r hpc
    have hsame := hrouting hpc
    rw [hsame] at hpc ⊢
    rw [held_silent hsilent]
    exact (hagree.busy t r hpc).keeps (hkeeps _)
  · intro key ids hlist hfree id hid hup
    obtain ⟨hup', hget⟩ := hkeeps key id hup
    rw [hget, held_silent hsilent]
    refine hagree.idle key ids hlist (fun t r hpc => ?_) id hid hup'
    rcases hthreads t with hsame | ⟨hnone, _⟩
    · rw [← hsame] at hpc ⊢
      exact hfree t r hpc
    · exact absurd hpc (Thread.pc_ne_of_routed hnone r)
  · exact hdown
  · exact hagree.answers.append fun before event hmem => answered_of_silent (hsilent event hmem) before

theorem Agreement.quiet_thread (hagree : Agreement router trace s) {t : Nat} {thread : Thread}
    (hpending : ∀ t', kv.router.pending (trace ++ events) t' = ((s.setThread t thread).threads t').routed)
    (hbefore : (s.threads t).routed = none) (hafter : thread.routed = none)
    (hsilent : ∀ event ∈ events, event.Silent) :
    Agreement router (trace ++ events) (s.setThread t thread) := by
  refine hagree.quiet hpending (fun t' => ?_) (fun key => Keeps.refl _ key)
    (fun id hdown => List.mem_append_left _ (hagree.down id hdown)) hsilent
  rw [setThread_threads]
  by_cases heq : t' = t
  · subst heq
    rw [Function.update_self]
    exact .inr ⟨hbefore, hafter⟩
  · rw [Function.update_of_ne heq]
    exact .inl rfl

/-- A request on its way takes a step. -/
theorem Agreement.goes (hagree : Agreement router trace s) {t : Nat} {r r' : Routing} {thread : Thread}
    {shared : Shared}
    (hpending : ∀ t', kv.router.pending (trace ++ events) t' = ((s.setThread t thread).threads t').routed)
    (hpc : (s.threads t).pc = .routing r) (hpc' : thread.pc = .routing r') (hreq : thread.req = (s.threads t).req)
    (hprogress : Progress shared.nodes (s.threads t).req (held trace (s.threads t).req.key) r')
    (hkeeps : ∀ key, key ≠ (s.threads t).req.key → Keeps s.shared.nodes shared.nodes key)
    (hup : ∀ id, (shared.nodes id).up = (s.shared.nodes id).up) (hsilent : ∀ event ∈ events, event.Silent) :
    Agreement router (trace ++ events) { s.setThread t thread with shared } := by
  have hself : ({ s.setThread t thread with shared } : State).threads t = thread := Function.update_self ..
  have hother {t' : Nat} (hne : t' ≠ t) : ({ s.setThread t thread with shared } : State).threads t' = s.threads t' :=
    Function.update_of_ne hne ..
  have hreqs (t' : Nat) : (({ s.setThread t thread with shared } : State).threads t').req = (s.threads t').req := by
    by_cases heq : t' = t
    · subst heq
      rw [hself, hreq]
    · rw [hother heq]
  have hpcs (t' : Nat) {r' : Routing}
      (hr' : (({ s.setThread t thread with shared } : State).threads t').pc = .routing r') :
      ∃ r, (s.threads t').pc = .routing r := by
    by_cases heq : t' = t
    · exact heq ▸ ⟨r, hpc⟩
    · exact ⟨r', hother heq ▸ hr'⟩
  constructor
  · exact hpending
  · intro t₁ t₂ r₁ r₂ hpc₁ hpc₂ hkey
    obtain ⟨r₁', hpc₁'⟩ := hpcs t₁ hpc₁
    obtain ⟨r₂', hpc₂'⟩ := hpcs t₂ hpc₂
    rw [hreqs, hreqs] at hkey
    exact hagree.alone t₁ t₂ r₁' r₂' hpc₁' hpc₂' hkey
  · intro t' r₁ hpc₁
    rw [hreqs, held_silent hsilent]
    by_cases heq : t' = t
    · subst heq
      rw [hself, hpc'] at hpc₁
      obtain rfl := Pc.routing.inj hpc₁
      exact hprogress
    · rw [hother heq] at hpc₁
      refine (hagree.busy t' r₁ hpc₁).keeps (hkeeps _ fun hkey => heq ?_)
      exact hagree.alone t' t r₁ r hpc₁ hpc hkey
  · intro key ids hlist hfree id hid hup'
    have hne : (s.threads t).req.key ≠ key := by
      have hkey := hfree t r' (by rw [hself, hpc'])
      rwa [hreqs] at hkey
    obtain ⟨hup'', hget⟩ := hkeeps key hne.symm id hup'
    rw [hget, held_silent hsilent]
    refine hagree.idle key ids hlist (fun t' r₁ hpc₁ => ?_) id hid hup''
    by_cases heq : t' = t
    · exact heq ▸ hne
    · have hkey := hfree t' r₁ (by rw [hother heq]; exact hpc₁)
      rwa [hreqs] at hkey
  · intro id hdown
    rw [hup] at hdown
    exact List.mem_append_left _ (hagree.down id hdown)
  · exact hagree.answers.append fun before event hmem => answered_of_silent (hsilent event hmem) before

/-- A request sets out while no other one for its key is on its way. -/
theorem Agreement.invoke (hagree : Agreement router trace s) (t : Nat) (thread : Thread) {ids : List Bytes}
    (hpending : ∀ t', kv.router.pending (trace ++ [.invoked t thread.req]) t' =
      ((s.setThread t thread).threads t').routed)
    (hbefore : (s.threads t).routed = none) (hpc : thread.pc = .routing { preference_list := ids, todo := ids })
    (hlist : router.preference_list thread.req.key = some ids)
    (hdisjoint : ∀ t' req', kv.router.pending trace t' = some req' → req'.key ≠ thread.req.key) :
    Agreement router (trace ++ [.invoked t thread.req]) (s.setThread t thread) := by
  have hself : (s.setThread t thread).threads t = thread := Function.update_self ..
  have hother {t' : Nat} (hne : t' ≠ t) : (s.setThread t thread).threads t' = s.threads t' :=
    Function.update_of_ne hne ..
  have hfree (t' : Nat) (r : Routing) (hr : (s.threads t').pc = .routing r) :
      (s.threads t').req.key ≠ thread.req.key := by
    apply hdisjoint t'
    rw [hagree.pending, Thread.routed_of_pc hr]
  constructor
  · exact hpending
  · intro t₁ t₂ r₁ r₂ hpc₁ hpc₂ hkey
    by_cases heq₁ : t₁ = t <;> by_cases heq₂ : t₂ = t
    · rw [heq₁, heq₂]
    · subst heq₁
      rw [hself, hother heq₂] at hkey
      rw [hother heq₂] at hpc₂
      exact absurd hkey.symm (hfree t₂ r₂ hpc₂)
    · subst heq₂
      rw [hself, hother heq₁] at hkey
      rw [hother heq₁] at hpc₁
      exact absurd hkey (hfree t₁ r₁ hpc₁)
    · rw [hother heq₁] at hpc₁ hkey
      rw [hother heq₂] at hpc₂ hkey
      exact hagree.alone t₁ t₂ r₁ r₂ hpc₁ hpc₂ hkey
  · intro t' r hr
    rw [held_invoked]
    by_cases heq : t' = t
    · subst heq
      rw [hself, hpc] at hr
      obtain rfl := Pc.routing.inj hr
      rw [hself]
      exact progress_start (hagree.idle _ ids hlist hfree)
    · rw [hother heq] at hr ⊢
      exact hagree.busy t' r hr
  · intro key ids' hlist' hfree' id hid hup
    rw [held_invoked]
    refine hagree.idle key ids' hlist' (fun t' r hr => ?_) id hid hup
    by_cases heq : t' = t
    · subst heq
      exact absurd hr (Thread.pc_ne_of_routed hbefore r)
    · have hkey := hfree' t' r (by rw [hother heq]; exact hr)
      rwa [hother heq] at hkey
  · exact fun id hdown => List.mem_append_left _ (hagree.down id hdown)
  · apply hagree.answers.snoc
    rintro t' req resp heq
    exact absurd heq (by simp)

/-- A request returns. -/
theorem Agreement.finish (hagree : Agreement router trace s) {t : Nat} {r : Routing} {resp : Response}
    (hpending : ∀ t', kv.router.pending (trace ++ [.returned t (s.threads t).req resp]) t' =
      ((s.setThread t ((s.threads t).returns resp)).threads t').routed)
    (hpc : (s.threads t).pc = .routing r) 
    (hlist : router.preference_list (s.threads t).req.key = some r.preference_list)
    (hreply : resp.type ≠ .Error →
      encode_response resp = reply (s.threads t).req (held trace (s.threads t).req.key))
    (herror : resp.type = .Error → resp = no_live_replica_error r.preference_list.length ∧
      ∀ id ∈ r.preference_list, (s.shared.nodes id).up = false)
    (hstores : ∀ id ∈ r.preference_list, (s.shared.nodes id).up = true →
      (s.shared.nodes id).store.get (s.threads t).req.key =
        result (s.threads t).req (held trace (s.threads t).req.key)) :
    Agreement router (trace ++ [.returned t (s.threads t).req resp])
      (s.setThread t ((s.threads t).returns resp)) := by
  have hself : (s.setThread t ((s.threads t).returns resp)).threads t = (s.threads t).returns resp :=
    Function.update_self ..
  have hother {t' : Nat} (hne : t' ≠ t) : (s.setThread t ((s.threads t).returns resp)).threads t' = s.threads t' :=
    Function.update_of_ne hne ..
  have hstill {t' : Nat} {r' : Routing}
      (hr' : ((s.setThread t ((s.threads t).returns resp)).threads t').pc = .routing r') :
      t' ≠ t := by
    rintro rfl
    rw [hself] at hr'
    exact absurd hr' (by simp)
  constructor
  · exact hpending
  · intro t₁ t₂ r₁ r₂ hpc₁ hpc₂ hkey
    have heq₁ := hstill hpc₁
    have heq₂ := hstill hpc₂
    rw [hother heq₁] at hpc₁ hkey
    rw [hother heq₂] at hpc₂ hkey
    exact hagree.alone t₁ t₂ r₁ r₂ hpc₁ hpc₂ hkey
  · intro t' r' hr'
    have heq := hstill hr'
    rw [hother heq] at hr' ⊢
    have hkey : (s.threads t).req.key ≠ (s.threads t').req.key := fun hkey =>
      heq (hagree.alone t' t r' r hr' hpc hkey.symm)
    rw [held_returned, if_neg hkey]
    exact hagree.busy t' r' hr'
  · intro key ids hlist' hfree id hid hup
    rw [held_returned]
    split
    · rename_i hkey
      subst hkey
      obtain rfl := Option.some.inj (hlist.symm.trans hlist')
      exact hstores id hid hup
    · rename_i hkey
      refine hagree.idle key ids hlist' (fun t' r' hr' => ?_) id hid hup
      by_cases heq : t' = t
      · subst heq
        exact hkey
      · have hkey' := hfree t' r' (by rw [hother heq]; exact hr')
        rwa [hother heq] at hkey'
  · exact fun id hdown => List.mem_append_left _ (hagree.down id hdown)
  · apply hagree.answers.snoc
    rintro t' req resp' heq
    obtain ⟨rfl, rfl, rfl⟩ := Event.returned.inj heq
    refine ⟨hreply, fun htype => ?_⟩
    obtain ⟨hresp, hdown⟩ := herror htype
    exact ⟨_, hlist, hresp, fun id hid => hagree.down id (hdown id hid)⟩

theorem Agreement.keep (hknown : router.Known) (hok : Consistent router s) (hagree : Agreement router trace s)
    (hdisjoint : SameKeyDisjoint (trace ++ events)) {label : Label} (hlabel : CrashStop label)
    (hmove : SystemStep router s label s' events) :
    Agreement router (trace ++ events) s' := by
  have hdown (id : Bytes) (hup : (s.shared.nodes id).up = false) : Event.crashed id ∈ trace ++ events :=
    List.mem_append_left _ (hagree.down id hup)
  have hpending := hmove.pending hagree.pending
  cases hmove with
  | received hpc => exact hagree.quiet_thread hpending (by simp [Thread.routed, hpc]) rfl (by simp [Event.Silent])
  | closed hpc => exact hagree.quiet_thread hpending (by simp [Thread.routed, hpc]) rfl (by simp)
  | swept => exact hagree.quiet hpending (fun _ => .inl rfl) (fun key => Keeps.refl _ key) hdown (by simp)
  | pinging => exact hagree.quiet hpending (fun _ => .inl rfl) (fun key => Keeps.refl _ key) hdown (by simp)
  | pinged => exact hagree.quiet hpending (fun _ => .inl rfl) (fun key => Keeps.refl _ key) hdown (by simp)
  | marked => exact hagree.quiet hpending (fun _ => .inl rfl) (fun key => Keeps.refl _ key) hdown (by simp)
  | @crashed node_id =>
    refine hagree.quiet hpending (fun _ => .inl rfl) (fun key => Keeps.setNode (by simp)) (fun id hid => ?_)
      (by simp [Event.Silent])
    by_cases heq : id = node_id
    · simp [heq]
    · rw [Shared.setNode_nodes, Function.update_of_ne heq] at hid
      exact hdown id hid
  | restarted => exact absurd hlabel (by simp [CrashStop])
  | @lost t r node_id todo bytes conn hpc htodo hphase hconn hbroken =>
    have hnode : (s.shared.nodes node_id).up = false := (hok.threads t).connected_eq hconn ▸ hbroken
    exact hagree.goes hpending hpc rfl rfl ((hagree.busy t r hpc).lose htodo hphase hnode)
      (fun key _ => Keeps.refl _ key)
      (fun _ => rfl) (by simp)
  | @moved t thread shared events hmove =>
    cases hmove with
    | drained hpc => exact hagree.quiet_thread hpending (by simp [Thread.routed, hpc]) rfl (by simp)
    | rejected hpc => exact hagree.quiet_thread hpending (by simp [Thread.routed, hpc]) rfl (by simp)
    | pinged hpc => exact hagree.quiet_thread hpending (by simp [Thread.routed, hpc]) rfl (by simp)
    | replied hpc => exact hagree.quiet_thread hpending (by simp [Thread.routed, hpc]) rfl (by simp [Event.Silent])
    | @invoked req parser ids hpc hcall hping hlist =>
      have hfree := hdisjoint.last t req rfl
      exact hagree.invoke t
        { s.threads t with pc := .routing { preference_list := ids, todo := ids }, parser, req }
        hpending (by simp [Thread.routed, hpc]) rfl hlist hfree
    | @routed r _ _ _ hpc hmove =>
      have hr := (hok.threads t).routing r hpc
      have hdead (id : Bytes) (hid : id ∈ r.preference_list) (halive : s.shared.is_alive id = false) :
          (s.shared.nodes id).up = false := by
        obtain ⟨addr, haddr, rfl⟩ := hknown _ _ hr.listed id hid
        exact is_alive_eq_false hok haddr halive
      cases hmove.outcome hr hdead (hagree.busy t r hpc) with
      | goes hpc' hreq hlist hprogress hkeeps hup hsilent =>
        exact hagree.goes hpending hpc hpc' hreq hprogress hkeeps hup hsilent
      | returns hreply herror hstores => exact hagree.finish hpending hpc hr.listed hreply herror hstores

/-- Failover is safe under crash-stop failures. In every run in which requests
    for the same key do not overlap, however nodes crash and heartbeats
    interleave, a reply is the reply of one plain map after the completed
    requests on the key, and an error is returned only if every node of the
    key's preference list has crashed. -/
theorem failover_safety {nodes : List NodeAddress} {vnodes replicas : Nat} {trace : List Event} {s : State}
    (hrun : Run (system (Router.create nodes vnodes replicas)) CrashStop
      (system (Router.create nodes vnodes replicas)).init trace s)
    (hdisjoint : SameKeyDisjoint trace) {before after : List Event} {t : Nat} {req : Request} {resp : Response}
    (hreturned : trace = before ++ .returned t req resp :: after) :
    (resp.type ≠ .Error →
      encode_response resp = ((PlainMap.after (completed before req.key)).handle_request req).1) ∧
    (resp.type = .Error → ∃ ids, (Router.create nodes vnodes replicas).preference_list req.key = some ids ∧
      resp = no_live_replica_error ids.length ∧ ∀ id ∈ ids, Event.crashed id ∈ before) := by
  have hinv := run_invariant (C := SameKeyDisjoint) (I := Agreement (Router.create nodes vnodes replicas))
    Router.known_create (fun _ hlabel => hlabel) (fun _ _ hall => hall.of_append) agreement_init
    (fun _ _ _ _ _ hok hagree hlabel hC hmove => hagree.keep Router.known_create hok hC hlabel hmove) hrun hdisjoint
  exact hinv.2.answers before _ after hreturned t req resp rfl

/-- The primary crashes after a write, and the other node answers the read. -/
theorem failover_safety_example :
    let router := Router.create [⟨ascii "a", 1⟩, ⟨ascii "b", 1⟩] 1 2
    let write : Request := ⟨.Set, ascii "k", ascii "x"⟩
    let read : Request := ⟨.Get, ascii "k", []⟩
    let resp : Response := ⟨.Value, ascii "x", []⟩
    let served : List Event := [.executed (ascii "a:1") 0 write, .executed (ascii "b:1") 0 write,
      .returned 0 write ⟨.Ok, [], []⟩, .sent 0 encode_ok_response, .crashed (ascii "a:1"),
      .received 1 (encode_request read)]
    let before : List Event := [Event.received 0 (encode_request write)] ++ [Event.invoked 0 write] ++ served ++
      [Event.invoked 1 read] ++ [Event.executed (ascii "b:1") 1 read]
    ∃ s, Run (system router) CrashStop (system router).init (before ++ [.returned 1 read resp]) s ∧
      SameKeyDisjoint (before ++ [.returned 1 read resp]) ∧
      encode_response resp = ((PlainMap.after (completed before read.key)).handle_request read).1 := by
  intro router write read resp served before
  have hstart : SameKeyDisjoint ([] ++ [.received 0 (encode_request write)]) :=
    SameKeyDisjoint.append_silent always_nil (by simp)
  have hwrite : SameKeyDisjoint ([] ++ [.received 0 (encode_request write)] ++ [.invoked 0 write]) :=
    hstart.append_invoked 0 write fun _ => rfl
  have hserved : ∀ event ∈ served, ∀ t req, event ≠ .invoked t req := by simp [served]
  have hfree (t : Nat) :
      pending ([] ++ [.received 0 (encode_request write)] ++ [.invoked 0 write] ++ served) t = none := by
    match t with
    | 0 => rfl
    | t + 1 => exact pending_of_not_invoked (by simp [served])
  have hread := (hwrite.append_silent hserved).append_invoked 1 read hfree
  have hbefore : SameKeyDisjoint before :=
    hread.append_silent (show ∀ event ∈ [Event.executed (ascii "b:1") 1 read], _ by simp)
  have hdisjoint : SameKeyDisjoint (before ++ [.returned 1 read resp]) := hbefore.append_silent (by simp)
  obtain ⟨s, hrun⟩ :
      ∃ s, Run (system router) CrashStop (system router).init (before ++ [.returned 1 read resp]) s := by
    apply Run.exists_of_exec ([Label.recv 0 (encode_request write)] ++ List.replicate 12 (Label.step 0) ++
      [Label.crash (ascii "a:1"), .recv 1 (encode_request read)] ++ List.replicate 8 (Label.step 1))
    · decide +kernel
    · decide +kernel
  exact ⟨s, hrun, hdisjoint, (failover_safety hrun hdisjoint rfl).1 (by simp [resp])⟩

end kv.router
