import Kv.Router.System

namespace kv.router

open kv.protocol

/-- What becomes of the calls to one node: `connect_to` with `set_tcp_nodelay`
    gives a socket or throws, and `send_request` gives the reply or throws. -/
structure Backend where
  connect_to : Except Bytes Nat
  send_request : Request → Except Bytes Response

/-- What a routed request reads and changes, with the nodes contacted so far. -/
structure Call where
  shared : Shared
  conns : Bytes → Option Nat := fun _ => none
  contacted : List Bytes := []

def backend_connection (router : Router) (backends : Bytes → Backend) (node_id : Bytes) (conns : Bytes → Option Nat) :
    Except Bytes (Nat × (Bytes → Option Nat)) :=
  match conns node_id with
  | some sock => .ok (sock, conns)
  | none =>
    match router.find_address node_id with
    | none => .error (ascii "ring returned unknown node id: " ++ node_id)
    | some addr =>
      match (backends addr.id).connect_to with
      | .error what => .error what
      | .ok sock => .ok (sock, Function.update conns node_id (some sock))

/-- The `try` block of both loops. -/
def Call.contact (router : Router) (backends : Bytes → Backend) (req : Request) (self : Call) (node_id : Bytes) :
    Except Bytes Response × Call :=
  match backend_connection router backends node_id self.conns with
  | .error what => (.error what, { self with contacted := self.contacted ++ [node_id] })
  | .ok (_, conns) =>
    ((backends node_id).send_request req, { self with conns, contacted := self.contacted ++ [node_id] })

/-- The `catch` block of both loops: `mark_down` and `conns.erase`. -/
def Call.give_up (self : Call) (node_id : Bytes) : Call :=
  { self with shared := self.shared.mark node_id false, conns := Function.update self.conns node_id none }

/-- `any_success` and `first_success` are one option. -/
def route_write_loop (router : Router) (backends : Bytes → Backend) (req : Request) :
    List Bytes → Option Response → Call → Option Response × Call
  | [], first_success, self => (first_success, self)
  | node_id :: todo, first_success, self =>
    if self.shared.is_alive node_id then
      match self.contact router backends req node_id with
      | (.ok resp, self) => route_write_loop router backends req todo (some (first_success.getD resp)) self
      | (.error _, self) => route_write_loop router backends req todo first_success (self.give_up node_id)
    else route_write_loop router backends req todo first_success self

def route_read_loop (router : Router) (backends : Bytes → Backend) (req : Request) :
    List Bytes → Call → Option Response × Call
  | [], self => (none, self)
  | node_id :: todo, self =>
    if self.shared.is_alive node_id then
      match self.contact router backends req node_id with
      | (.ok resp, self) => (some resp, self)
      | (.error _, self) => route_read_loop router backends req todo (self.give_up node_id)
    else route_read_loop router backends req todo self

/-- A loop over the preference list of the key. `get_nodes` is called outside of
    the `try` block, so what it throws leaves the function. -/
def route (router : Router) (loop : List Bytes → Call → Option Response × Call) (req : Request) (self : Call) :
    Option (Except Bytes Response × Call) :=
  match router.ring_.get_nodes fnv1a_hash req.key router.replication_factor_ with
  | none => none
  | some (.error what) => some (.error what, self)
  | some (.ok preference_list) =>
    let (success, self) := loop preference_list self
    some (.ok (success.getD (no_live_replica_error preference_list.length)), self)

def route_write (router : Router) (backends : Bytes → Backend) (req : Request) :
    Call → Option (Except Bytes Response × Call) :=
  route router (fun nodes => route_write_loop router backends req nodes none) req

def route_read (router : Router) (backends : Bytes → Backend) (req : Request) :
    Call → Option (Except Bytes Response × Call) :=
  route router (route_read_loop router backends req) req

/-- The reply of a node to a thread with this cached connection, and the socket
    it comes over. -/
def Backend.answer (self : Backend) (req : Request) (cached : Option Nat) : Option (Nat × Response) :=
  match cached, self.connect_to, self.send_request req with
  | some sock, _, .ok resp => some (sock, resp)
  | none, .ok sock, .ok resp => some (sock, resp)
  | _, _, _ => none

/-- What `node_id` answers in a call that starts in `before`. -/
def Call.answer (backends : Bytes → Backend) (req : Request) (before : Call) (node_id : Bytes) :
    Option (Nat × Response) :=
  (backends node_id).answer req (before.conns node_id)

/-- What contacting `nodes`, and no other node, leaves behind. -/
structure Contacted (backends : Bytes → Backend) (req : Request) (before after : Call) (nodes : List Bytes) :
    Prop where
  log : after.contacted = before.contacted ++ nodes
  flags : ∀ id, after.shared.alive_ id =
    if id ∈ nodes ∧ before.answer backends req id = none then some false else before.shared.alive_ id
  conns : ∀ id, after.conns id =
    if id ∈ nodes then (before.answer backends req id).map Prod.fst else before.conns id

/-- The nodes up to and including the first that answers. -/
def Call.up_to_answer (backends : Bytes → Backend) (req : Request) (before : Call) (nodes : List Bytes) : List Bytes :=
  nodes.takeWhile (fun id => (before.answer backends req id).isNone) ++
    (nodes.dropWhile fun id => (before.answer backends req id).isNone).take 1

/-- The turn of an alive node: what it answers decides what is changed. -/
def Call.visit (backends : Bytes → Backend) (req : Request) (self : Call) (node_id : Bytes) : Call :=
  match self.answer backends req node_id with
  | some (sock, _) =>
    { self with conns := Function.update self.conns node_id (some sock), contacted := self.contacted ++ [node_id] }
  | none => { self.give_up node_id with contacted := self.contacted ++ [node_id] }

section

variable {router : Router} {backends : Bytes → Backend} {req : Request}

/-- A node that answers is left as `visit` says, with its reply. -/
theorem contact_of_answer {self : Call} {node_id : Bytes} {addr : NodeAddress} {sock : Nat} {resp : Response}
    (haddr : router.find_address node_id = some addr)
    (hanswer : self.answer backends req node_id = some (sock, resp)) :
    self.contact router backends req node_id = (.ok resp, self.visit backends req node_id) := by
  have hid := Router.find_address_id haddr
  unfold Call.visit
  rw [hanswer]
  unfold Call.answer Backend.answer at hanswer
  unfold Call.contact backend_connection
  cases hconn : self.conns node_id with
  | some cached =>
    cases hsend : (backends node_id).send_request req with
    | error what => simp [hconn, hsend] at hanswer
    | ok reply =>
      simp only [hconn, hsend, Option.some.injEq, Prod.mk.injEq] at hanswer
      obtain ⟨rfl, rfl⟩ := hanswer
      -- The cached socket is taken as it is, so the update changes nothing.
      have hsame : Function.update self.conns node_id (some cached) = self.conns := by
        rw [← hconn, Function.update_eq_self]
      simp [hsame]
  | none =>
    cases hconnect : (backends node_id).connect_to with
    | error what => simp [hconn, hconnect] at hanswer
    | ok opened =>
      cases hsend : (backends node_id).send_request req with
      | error what => simp [hconn, hconnect, hsend] at hanswer
      | ok reply =>
        simp only [hconn, hconnect, hsend, Option.some.injEq, Prod.mk.injEq] at hanswer
        obtain ⟨rfl, rfl⟩ := hanswer
        simp [haddr, hid, hconnect]

/-- A node that does not answer is given up as `visit` says, wherever it failed. -/
theorem contact_of_no_answer {self : Call} {node_id : Bytes} {addr : NodeAddress}
    (haddr : router.find_address node_id = some addr) (hanswer : self.answer backends req node_id = none) :
    ∃ what failed, self.contact router backends req node_id = (.error what, failed) ∧
      failed.give_up node_id = self.visit backends req node_id := by
  have hid := Router.find_address_id haddr
  unfold Call.visit
  rw [hanswer]
  unfold Call.answer Backend.answer at hanswer
  unfold Call.contact backend_connection
  cases hconn : self.conns node_id with
  | some cached =>
    cases hsend : (backends node_id).send_request req with
    | error what => exact ⟨what, _, rfl, rfl⟩
    | ok reply => simp [hconn, hsend] at hanswer
  | none =>
    simp only [haddr, hid]
    cases hconnect : (backends node_id).connect_to with
    | error what => exact ⟨what, _, rfl, rfl⟩
    | ok opened =>
      cases hsend : (backends node_id).send_request req with
      | error what => exact ⟨what, _, rfl, by simp [Call.give_up]⟩
      | ok reply => simp [hconn, hconnect, hsend] at hanswer

theorem Contacted.refl (backends : Bytes → Backend) (req : Request) (before : Call) :
    Contacted backends req before before [] where
  log := by simp
  flags := by simp
  conns := by simp

variable {before self : Call} {done : List Bytes} {node_id : Bytes}

/-- A node that was not contacted yet answers as it would have at the start. -/
theorem Contacted.answer_eq (h : Contacted backends req before self done) (hnew : node_id ∉ done) :
    self.answer backends req node_id = before.answer backends req node_id := by
  unfold Call.answer
  rw [h.conns, if_neg hnew]

theorem Contacted.is_alive_eq (h : Contacted backends req before self done) (hnew : node_id ∉ done) :
    self.shared.is_alive node_id = before.shared.is_alive node_id := by
  unfold Shared.is_alive Liveness.is_alive
  rw [h.flags, if_neg (fun hmem => hnew hmem.1)]

/-- One more turn. -/
theorem Contacted.visit (h : Contacted backends req before self done) (hnew : node_id ∉ done) :
    Contacted backends req before (self.visit backends req node_id) (done ++ [node_id]) := by
  have hanswer := h.answer_eq hnew
  unfold Call.visit
  cases hnode : before.answer backends req node_id with
  | some answer =>
    rw [hanswer, hnode]
    refine ⟨by simp [h.log], fun id => ?_, fun id => ?_⟩
    · by_cases hid : id = node_id
      · subst hid
        simp [h.flags, hnode, hnew]
      · simp [h.flags, hid]
    · by_cases hid : id = node_id
      · subst hid
        simp [hnode]
      · simp [h.conns, hid]
  | none =>
    rw [hanswer, hnode]
    refine ⟨by simp [h.log], fun id => ?_, fun id => ?_⟩
    · by_cases hid : id = node_id
      · subst hid
        simp [Call.give_up, Shared.mark, hnode]
      · simp [Call.give_up, Shared.mark, h.flags, hid]
    · by_cases hid : id = node_id
      · subst hid
        simp [Call.give_up, hnode]
      · simp [Call.give_up, h.conns, hid]

/-- The reply of a node, without the socket. -/
def Call.reply (backends : Bytes → Backend) (req : Request) (before : Call) (node_id : Bytes) : Option Response :=
  (before.answer backends req node_id).map Prod.snd

/-- The nodes after `node_id` are still new once it is done. -/
private theorem not_mem_append_singleton {todo : List Bytes} (hnode : node_id ∉ todo)
    (hnew : ∀ id ∈ node_id :: todo, id ∉ done) : ∀ id ∈ todo, id ∉ done ++ [node_id] := by
  intro id hid hmem
  rcases List.mem_append.mp hmem with hmem | hmem
  · exact hnew id (List.mem_cons_of_mem _ hid) hmem
  · exact hnode (List.mem_singleton.mp hmem ▸ hid)

/-- `route_write` contacts every alive node still to do. -/
theorem route_write_loop_spec (todo : List Bytes) (first_success : Option Response)
    (h : Contacted backends req before self done) (hnodup : todo.Nodup) (hnew : ∀ id ∈ todo, id ∉ done)
    (haddr : ∀ id ∈ todo, ∃ addr, router.find_address id = some addr) :
    ∃ after, route_write_loop router backends req todo first_success self =
        (first_success.or ((todo.filter before.shared.is_alive).findSome? (before.reply backends req)), after) ∧
      Contacted backends req before after (done ++ todo.filter before.shared.is_alive) := by
  induction todo generalizing self done first_success with
  | nil => exact ⟨self, by simp [route_write_loop], by simpa using h⟩
  | cons node_id todo ih =>
    obtain ⟨hnode, htodo⟩ := List.nodup_cons.mp hnodup
    have hfresh := hnew node_id List.mem_cons_self
    have haddr' := fun id hid => haddr id (List.mem_cons_of_mem node_id hid)
    rw [route_write_loop, h.is_alive_eq hfresh]
    cases halive : before.shared.is_alive node_id with
    | false =>
      rw [if_neg (by simp), List.filter_cons_of_neg (by simp [halive])]
      exact ih first_success h htodo (fun id hid => hnew id (List.mem_cons_of_mem _ hid)) haddr'
    | true =>
      obtain ⟨addr, hfind⟩ := haddr node_id List.mem_cons_self
      have hnew' := not_mem_append_singleton hnode hnew
      have hanswer := h.answer_eq hfresh
      rw [if_pos rfl, List.filter_cons_of_pos halive, List.findSome?_cons]
      cases hreply : before.answer backends req node_id with
      | some answer =>
        rw [hreply] at hanswer
        obtain ⟨after, hloop, hafter⟩ := ih (some (first_success.getD answer.2)) (h.visit hfresh) htodo hnew' haddr'
        refine ⟨after, ?_, by simpa using hafter⟩
        rw [contact_of_answer hfind hanswer]
        simp only [hloop, Call.reply, hreply, Option.map_some]
        cases first_success <;> rfl
      | none =>
        rw [hreply] at hanswer
        obtain ⟨what, failed, hcontact, hfailed⟩ := contact_of_no_answer hfind hanswer
        obtain ⟨after, hloop, hafter⟩ := ih first_success (h.visit hfresh) htodo hnew' haddr'
        refine ⟨after, ?_, by simpa using hafter⟩
        rw [hcontact]
        simp only [hfailed, hloop, Call.reply, hreply, Option.map_none]

/-- `route_read` contacts the alive nodes still to do, until one answers. -/
theorem route_read_loop_spec (todo : List Bytes)
    (h : Contacted backends req before self done) (hnodup : todo.Nodup) (hnew : ∀ id ∈ todo, id ∉ done)
    (haddr : ∀ id ∈ todo, ∃ addr, router.find_address id = some addr) :
    ∃ after, route_read_loop router backends req todo self =
        ((todo.filter before.shared.is_alive).findSome? (before.reply backends req), after) ∧
      Contacted backends req before after
        (done ++ before.up_to_answer backends req (todo.filter before.shared.is_alive)) := by
  induction todo generalizing self done with
  | nil => exact ⟨self, by simp [route_read_loop], by simpa [Call.up_to_answer] using h⟩
  | cons node_id todo ih =>
    obtain ⟨hnode, htodo⟩ := List.nodup_cons.mp hnodup
    have hfresh := hnew node_id List.mem_cons_self
    have haddr' := fun id hid => haddr id (List.mem_cons_of_mem node_id hid)
    rw [route_read_loop, h.is_alive_eq hfresh]
    cases halive : before.shared.is_alive node_id with
    | false =>
      rw [if_neg (by simp), List.filter_cons_of_neg (by simp [halive])]
      exact ih h htodo (fun id hid => hnew id (List.mem_cons_of_mem _ hid)) haddr'
    | true =>
      obtain ⟨addr, hfind⟩ := haddr node_id List.mem_cons_self
      have hanswer := h.answer_eq hfresh
      rw [if_pos rfl, List.filter_cons_of_pos halive, List.findSome?_cons]
      cases hreply : before.answer backends req node_id with
      | some answer =>
        rw [hreply] at hanswer
        refine ⟨self.visit backends req node_id, ?_, ?_⟩
        · rw [contact_of_answer hfind hanswer]
          simp only [Call.reply, hreply, Option.map_some]
        · simpa [Call.up_to_answer, hreply] using h.visit hfresh
      | none =>
        rw [hreply] at hanswer
        have hnew' := not_mem_append_singleton hnode hnew
        obtain ⟨what, failed, hcontact, hfailed⟩ := contact_of_no_answer hfind hanswer
        obtain ⟨after, hloop, hafter⟩ := ih (h.visit hfresh) htodo hnew' haddr'
        refine ⟨after, ?_, by simpa [Call.up_to_answer, hreply] using hafter⟩
        rw [hcontact]
        simp only [hfailed, hloop, Call.reply, hreply, Option.map_none]

theorem up_to_answer_sublist (before : Call) (nodes : List Bytes) :
    (before.up_to_answer backends req nodes).Sublist nodes := by
  calc (before.up_to_answer backends req nodes).Sublist _ :=
        (List.Sublist.refl _).append (List.take_sublist 1 _)
    _ = nodes := List.takeWhile_append_dropWhile

/-- Nothing that answers is left out by stopping at the first that does. -/
theorem findSome?_up_to_answer (before : Call) (nodes : List Bytes) :
    (before.up_to_answer backends req nodes).findSome? (before.reply backends req) =
      nodes.findSome? (before.reply backends req) := by
  induction nodes with
  | nil => rfl
  | cons node_id nodes ih =>
    cases hanswer : before.answer backends req node_id with
    | some answer => simp [Call.up_to_answer, Call.reply, hanswer]
    | none =>
      have hstep : before.up_to_answer backends req (node_id :: nodes) =
          node_id :: before.up_to_answer backends req nodes := by
        simp [Call.up_to_answer, hanswer]
      rw [hstep, List.findSome?_cons, List.findSome?_cons, ih]

/-- A call over the preference list `ids` that contacted `contacted`. Without a
    `success` it returns the error. -/
structure Routed (backends : Bytes → Backend) (req : Request) (before : Call) (ids contacted : List Bytes)
    (success : Option Response) (after : Call) : Prop
    extends Contacted backends req before after contacted where
  once : contacted.Nodup
  listed : contacted.Sublist ids
  success_eq : success = contacted.findSome? (before.reply backends req)
  error_iff : success = none ↔ ∀ id ∈ contacted, before.answer backends req id = none

theorem Contacted.routed {ids contacted : List Bytes} {after : Call}
    (h : Contacted backends req before after contacted) (hnodup : ids.Nodup) (hlisted : contacted.Sublist ids) :
    Routed backends req before ids contacted (contacted.findSome? (before.reply backends req)) after where
  toContacted := h
  once := hnodup.sublist hlisted
  listed := hlisted
  success_eq := rfl
  error_iff := by simp [Call.reply]

end

/-- Both calls follow the preference list of the key. A write contacts every
    node of it that is flagged alive; a read stops at the first that answers.
    The first reply is returned, the nodes that failed are flagged down and
    disconnected, and nothing else changes. -/
theorem fan_out_contract {nodes : List NodeAddress} {vnodes : Nat} (replicas : Nat) (hne : nodes ≠ [])
    (hids : (nodes.map NodeAddress.id).Nodup) (hvnodes : 1 ≤ vnodes)
    (hcoll : ConsistentHashRing.NoCollisions fnv1a_hash vnodes (nodes.map NodeAddress.id))
    (backends : Bytes → Backend) (req : Request) (before : Call) :
    let router := Router.create nodes vnodes replicas
    ∃ ids, router.ring_.get_nodes fnv1a_hash req.key router.replication_factor_ = some (.ok ids) ∧
      let alive := ids.filter before.shared.is_alive
      (∃ (success : Option Response) (after : Call),
        route_write router backends req before = some (.ok (success.getD (no_live_replica_error ids.length)), after) ∧
        Routed backends req before ids alive success after) ∧
      ∃ (success : Option Response) (after : Call),
        route_read router backends req before = some (.ok (success.getD (no_live_replica_error ids.length)), after) ∧
        Routed backends req before ids (before.up_to_answer backends req alive) success after := by
  intro router
  obtain ⟨primary, rest, hlist⟩ : ∃ primary rest, router.preference_list req.key = some (primary :: rest) :=
    Router.exists_preference_list hne hids hvnodes hcoll req.key
  have hget := Router.preference_list_eq_some_iff.mp hlist
  have hnodup := Router.preference_list_nodup hlist
  have haddr (id : Bytes) (hid : id ∈ primary :: rest) : ∃ addr, router.find_address id = some addr :=
    Router.known_create.find_address hlist hid
  refine ⟨primary :: rest, hget, ?_, ?_⟩
  · obtain ⟨after, hloop, hafter⟩ := route_write_loop_spec (primary :: rest) none
      (.refl backends req before) hnodup (by simp) haddr
    refine ⟨_, after, ?_, Contacted.routed hafter hnodup List.filter_sublist⟩
    rw [route_write, route, hget]
    simp only [hloop, Option.none_or]
  · obtain ⟨after, hloop, hafter⟩ := route_read_loop_spec (primary :: rest)
      (.refl backends req before) hnodup (by simp) haddr
    refine ⟨_, after, ?_, Contacted.routed hafter hnodup ((up_to_answer_sublist before _).trans List.filter_sublist)⟩
    rw [route_read, route, hget]
    simp only [hloop, findSome?_up_to_answer]

/-- A cached connection to the first node is broken and the second node is not
    connected yet: it takes over, and the first one is flagged down. -/
theorem fan_out_contract_failover :
    let nodes : List NodeAddress := [⟨ascii "a", 1⟩, ⟨ascii "b", 1⟩]
    let router := Router.create nodes 1 2
    let backends : Bytes → Backend := fun id =>
      if id = ascii "a:1" then ⟨.ok 6, fun _ => .error (ascii "failed to write request")⟩
      else ⟨.ok 7, fun _ => .ok ⟨.NotFound, [], []⟩⟩
    let req : Request := ⟨.Get, ascii "k", []⟩
    let before : Call :=
      { shared := { alive_ := fun _ => some true },
        conns := fun id => if id = ascii "a:1" then some 3 else none }
    ∃ after, route_read router backends req before = some (.ok ⟨.NotFound, [], []⟩, after) ∧
      after.contacted = [ascii "a:1", ascii "b:1"] ∧
      after.shared.is_alive (ascii "a:1") = false ∧ after.shared.is_alive (ascii "b:1") = true ∧
      after.conns (ascii "a:1") = none ∧ after.conns (ascii "b:1") = some 7 := by
  intro nodes router backends req before
  obtain ⟨ids, hget, _, success, after, hread, hrouted⟩ :=
    fan_out_contract 2 (by decide : nodes ≠ []) (by decide +kernel) (by decide : 1 ≤ 1)
      (by decide +kernel) backends req before
  have hids : ids = [ascii "a:1", ascii "b:1"] := by
    have hlist : router.ring_.get_nodes fnv1a_hash req.key router.replication_factor_ =
        some (.ok [ascii "a:1", ascii "b:1"]) := by decide +kernel
    exact (Except.ok.inj (Option.some.inj (hlist.symm.trans hget))).symm
  subst hids
  have hcontacted : before.up_to_answer backends req ([ascii "a:1", ascii "b:1"].filter before.shared.is_alive) =
      [ascii "a:1", ascii "b:1"] := by decide +kernel
  rw [hcontacted] at hrouted
  have hsuccess : success = some ⟨.NotFound, [], []⟩ := hrouted.success_eq.trans (by decide +kernel)
  refine ⟨after, by rw [hread, hsuccess]; rfl, hrouted.log, ?_, ?_, ?_, ?_⟩
  · rw [Shared.is_alive, Liveness.is_alive, hrouted.flags]
    decide +kernel
  · rw [Shared.is_alive, Liveness.is_alive, hrouted.flags]
    decide +kernel
  · rw [hrouted.conns]
    decide +kernel
  · rw [hrouted.conns]
    decide +kernel

end kv.router
