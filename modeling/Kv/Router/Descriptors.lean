import Kv.Net.Connect
import Kv.Router.FanOut

open Ownership Transition

namespace kv.router.descriptors

open kv.net kv.protocol

/-- The `Socket` objects of the client threads: the local variable of
    `backend_connection`, and the entries of `backend_conns`. -/
inductive Var
  | sock (t : Nat)
  | conn (t : Nat) (node_id : Bytes)
  deriving DecidableEq

/-- What one turn of the loops of `route_read` and `route_write` meets at a node
    that is flagged alive: where a connection has to be opened, the outcomes of
    `getaddrinfo`, `connect` and `setsockopt`; and whether `send_request` returns. -/
structure Turn where
  node_id : Bytes
  resolved : Except Bytes (List Attempt)
  nodelay : Except Bytes Unit
  exchanged : Bool

section

variable (router : Router) (strerror : Nat → Bytes) (t : Nat)

/-- `connect_to` and `set_tcp_nodelay`. Where the second one throws, the local
    variable is destroyed. -/
def Turn.connect (turn : Turn) (addr : NodeAddress) : Except Bytes Socket × List (net.Label Var) :=
  match connect_to strerror (.sock t) addr.host addr.port turn.resolved with
  | (.error what, calls) => (.error what, calls)
  | (.ok sock, calls) =>
    match turn.nodelay with
    | .error error => (.error (ascii "setsockopt(TCP_NODELAY): " ++ error), calls ++ [.destroy (.sock t)])
    | .ok _ => (.ok sock, calls)

/-- `backend_connection` of a thread with connections to `conns`. -/
def backend_connection (conns : List Bytes) (turn : Turn) : Except Bytes (List Bytes) × List (net.Label Var) :=
  if conns.contains turn.node_id then (.ok conns, [])
  else
    match router.find_address turn.node_id with
    | none => (.error (ascii "ring returned unknown node id: " ++ turn.node_id), [])
    | some addr =>
      match turn.connect strerror t addr with
      | (.error what, calls) => (.error what, calls)
      | (.ok _, calls) =>
        (.ok (turn.node_id :: conns), calls ++ [.move (.conn t turn.node_id) (.sock t), .destroy (.sock t)])

/-- `conns.erase(node_id)`. -/
def erase_connection (conns : List Bytes) (node_id : Bytes) : List Bytes × List (net.Label Var) :=
  if conns.contains node_id then (conns.erase node_id, [.destroy (.conn t node_id)]) else (conns, [])

/-- The `try` block of a turn with its `catch`. -/
def try_node (conns : List Bytes) (turn : Turn) : List Bytes × List (net.Label Var) :=
  match backend_connection router strerror t conns turn with
  | (.ok conns, calls) =>
    if turn.exchanged then (conns, calls)
    else
      let (left, erased) := erase_connection t conns turn.node_id
      (left, calls ++ erased)
  | (.error _, calls) =>
    let (left, erased) := erase_connection t conns turn.node_id
    (left, calls ++ erased)

def try_nodes : List Bytes → List Turn → List Bytes × List (net.Label Var)
  | conns, [] => (conns, [])
  | conns, turn :: turns =>
    let (left, calls) := try_node router strerror t conns turn
    let (final, more) := try_nodes left turns
    (final, calls ++ more)

/-- The destructor of `backend_conns`. -/
def destroy_all (conns : List Bytes) : List (net.Label Var) := conns.map fun node_id => .destroy (.conn t node_id)

/-- The end of `handle_client`. An exception passes over `::close(client_fd)`. It
    leaves the thread as well, so that the process is terminated, and whether the
    stack is `unwound` before that is up to the implementation. -/
def leave (client_fd : Int) (outcome : Except Bytes Unit) (unwound : Bool) (conns : List Bytes) :
    List (net.Label Var) :=
  match outcome with
  | .ok _ => .close client_fd :: destroy_all t conns
  | .error _ => if unwound then destroy_all t conns else []

/-- All that `handle_client` does with descriptors. What `get_nodes` and `write_all`
    throw comes between two turns. -/
def descriptor_calls (client_fd : Int) (turns : List Turn) (outcome : Except Bytes Unit) (unwound : Bool) :
    List (net.Label Var) :=
  let (conns, calls) := try_nodes router strerror t [] turns
  calls ++ leave t client_fd outcome unwound conns

end

section

variable {router : Router} {strerror : Nat → Bytes} {t : Nat}

/-- The turn is one at a node with these outcomes. -/
structure Turn.Meets (router : Router) (strerror : Nat → Bytes) (t : Nat) (backends : Bytes → Backend) (req : Request)
    (turn : Turn) : Prop where
  connects : ∀ addr, router.find_address turn.node_id = some addr →
    (backends turn.node_id).connect_to = (turn.connect strerror t addr).1.map fun sock => sock.fd_.toNat
  exchanges : turn.exchanged = true ↔ ∃ resp, (backends turn.node_id).send_request req = .ok resp

/-- The thread has the connections that are cached. -/
def Caches (conns : List Bytes) (cache : Bytes → Option Nat) : Prop :=
  conns.Nodup ∧ ∀ id, id ∈ conns ↔ (cache id).isSome

variable {backends : Bytes → Backend} {req : Request} {conns : List Bytes} {turn : Turn}

theorem Caches.added {cache : Bytes → Option Nat} (h : Caches conns cache) {node_id : Bytes}
    (hnew : node_id ∉ conns) (sock : Nat) :
    Caches (node_id :: conns) (Function.update cache node_id (some sock)) := by
  refine ⟨List.nodup_cons.mpr ⟨hnew, h.1⟩, ?_⟩
  intro id
  by_cases hid : id = node_id
  · simp [hid]
  · simp [hid, h.2 id]

theorem Caches.erase {cache : Bytes → Option Nat} (h : Caches conns cache) (node_id : Bytes) :
    Caches (erase_connection t conns node_id).1 (Function.update cache node_id none) := by
  have herase : (erase_connection t conns node_id).1 = conns.erase node_id := by
    unfold erase_connection
    split
    · rfl
    · next hmem => exact (List.erase_of_not_mem (mt List.contains_iff_mem.mpr hmem)).symm
  rw [herase]
  refine ⟨h.1.erase node_id, ?_⟩
  intro id
  rw [h.1.mem_erase_iff]
  by_cases hid : id = node_id
  · simp [hid]
  · simp [hid, h.2 id]

/-- Both models of `backend_connection` throw the same, and have the same
    connections afterwards. -/
theorem Caches.backend_connection {cache : Bytes → Option Nat} (h : Caches conns cache)
    (hturn : turn.Meets router strerror t backends req) :
    (∃ what, (backend_connection router strerror t conns turn).1 = .error what ∧
      kv.router.backend_connection router backends turn.node_id cache = .error what) ∨
    ∃ conns' sock cache', (backend_connection router strerror t conns turn).1 = .ok conns' ∧
      kv.router.backend_connection router backends turn.node_id cache = .ok (sock, cache') ∧ Caches conns' cache' := by
  unfold descriptors.backend_connection kv.router.backend_connection
  by_cases hmem : turn.node_id ∈ conns
  · obtain ⟨sock, hsock⟩ := Option.isSome_iff_exists.mp ((h.2 turn.node_id).mp hmem)
    exact .inr ⟨conns, sock, cache, by rw [if_pos (List.contains_iff_mem.mpr hmem)], by rw [hsock], h⟩
  · have hnone : cache turn.node_id = none := by
      rw [← Option.not_isSome_iff_eq_none, ← h.2]
      exact hmem
    rw [if_neg (mt List.contains_iff_mem.mp hmem), hnone]
    cases haddr : router.find_address turn.node_id with
    | none => exact .inl ⟨_, rfl, rfl⟩
    | some addr =>
      have hconnects := hturn.connects addr haddr
      simp only [Router.find_address_id haddr, hconnects]
      rcases turn.connect strerror t addr with ⟨result, calls⟩
      cases result with
      | error what => exact .inl ⟨what, rfl, rfl⟩
      | ok sock => exact .inr ⟨_, _, _, rfl, rfl, h.added hmem _⟩

/-- A turn of the loops: the reply is returned, or the node is given up. -/
theorem Caches.try_node {self : Call} (h : Caches conns self.conns)
    (hturn : turn.Meets router strerror t backends req) :
    (∃ resp after, self.contact router backends req turn.node_id = (.ok resp, after) ∧
      after.contacted = self.contacted ++ [turn.node_id] ∧
      Caches (try_node router strerror t conns turn).1 after.conns) ∨
    ∃ what after, self.contact router backends req turn.node_id = (.error what, after) ∧
      after.contacted = self.contacted ++ [turn.node_id] ∧
      Caches (try_node router strerror t conns turn).1 (after.give_up turn.node_id).conns := by
  unfold Call.contact
  rcases hcall : descriptors.backend_connection router strerror t conns turn with ⟨result, calls⟩
  rcases h.backend_connection hturn with ⟨what, hthrows, hbackend⟩ | ⟨conns', sock, cache, hok, hbackend, hcaches⟩
  · rw [hbackend]
    obtain rfl : result = .error what := by rw [hcall] at hthrows; exact hthrows
    refine .inr ⟨what, _, rfl, rfl, ?_⟩
    simp only [descriptors.try_node, hcall]
    exact h.erase turn.node_id
  · rw [hbackend]
    obtain rfl : result = .ok conns' := by rw [hcall] at hok; exact hok
    cases hsend : (backends turn.node_id).send_request req with
    | ok resp =>
      refine .inl ⟨resp, _, rfl, rfl, ?_⟩
      simp only [descriptors.try_node, hcall, hturn.exchanges.mpr ⟨resp, hsend⟩, if_true]
      exact hcaches
    | error what =>
      have hfails : ¬ turn.exchanged = true := by
        rw [hturn.exchanges, hsend]
        simp
      refine .inr ⟨what, _, rfl, rfl, ?_⟩
      simp only [descriptors.try_node, hcall, hfails]
      exact hcaches.erase turn.node_id

/-- What a call of `route_read` or `route_write` does with the connections are the
    turns at the nodes that it contacts. -/
structure Serves (router : Router) (strerror : Nat → Bytes) (t : Nat) (turns : Bytes → Turn) (conns : List Bytes)
    (before after : Call) (nodes : List Bytes) : Prop where
  log : after.contacted = before.contacted ++ nodes
  caches : Caches (try_nodes router strerror t conns (nodes.map turns)).1 after.conns

variable {turns : Bytes → Turn}

theorem Serves.refl {self : Call} (h : Caches conns self.conns) : Serves router strerror t turns conns self self [] :=
  ⟨by simp, h⟩

theorem Serves.cons {self next after : Call} {node_id : Bytes} {nodes : List Bytes}
    (hlog : next.contacted = self.contacted ++ [node_id])
    (h : Serves router strerror t turns (try_node router strerror t conns (turns node_id)).1 next after nodes) :
    Serves router strerror t turns conns self after (node_id :: nodes) :=
  ⟨by rw [h.log, hlog, List.append_assoc, List.singleton_append], h.caches⟩

/-- `turns` are the turns of the nodes with these outcomes. -/
def AllMeet (router : Router) (strerror : Nat → Bytes) (t : Nat) (backends : Bytes → Backend) (req : Request)
    (turns : Bytes → Turn) : Prop :=
  ∀ id, (turns id).node_id = id ∧ (turns id).Meets router strerror t backends req

theorem AllMeet.contact (hturns : AllMeet router strerror t backends req turns) {self : Call}
    (h : Caches conns self.conns) (node_id : Bytes) :
    (∃ resp after, self.contact router backends req node_id = (.ok resp, after) ∧
      after.contacted = self.contacted ++ [node_id] ∧
      Caches (descriptors.try_node router strerror t conns (turns node_id)).1 after.conns) ∨
    ∃ what after, self.contact router backends req node_id = (.error what, after) ∧
      (after.give_up node_id).contacted = self.contacted ++ [node_id] ∧
      Caches (descriptors.try_node router strerror t conns (turns node_id)).1 (after.give_up node_id).conns := by
  have hnode := h.try_node (hturns node_id).2
  rw [(hturns node_id).1] at hnode
  exact hnode

theorem serves_route_write_loop (hturns : AllMeet router strerror t backends req turns) (todo : List Bytes)
    (first_success : Option Response) {self : Call} (h : Caches conns self.conns) :
    ∃ nodes, Serves router strerror t turns conns self
      (route_write_loop router backends req todo first_success self).2 nodes := by
  induction todo generalizing self conns first_success with
  | nil => exact ⟨[], .refl h⟩
  | cons node_id todo ih =>
    rw [route_write_loop]
    split
    · rcases hturns.contact h node_id with ⟨resp, after, hcontact, hlog, hcaches⟩ |
        ⟨what, after, hcontact, hlog, hcaches⟩
      · rw [hcontact]
        obtain ⟨nodes, hserves⟩ := ih (some (first_success.getD resp)) hcaches
        exact ⟨node_id :: nodes, hserves.cons hlog⟩
      · rw [hcontact]
        obtain ⟨nodes, hserves⟩ := ih first_success hcaches
        exact ⟨node_id :: nodes, hserves.cons hlog⟩
    · exact ih first_success h

theorem serves_route_read_loop (hturns : AllMeet router strerror t backends req turns) (todo : List Bytes)
    {self : Call} (h : Caches conns self.conns) :
    ∃ nodes, Serves router strerror t turns conns self (route_read_loop router backends req todo self).2 nodes := by
  induction todo generalizing self conns with
  | nil => exact ⟨[], .refl h⟩
  | cons node_id todo ih =>
    rw [route_read_loop]
    split
    · rcases hturns.contact h node_id with ⟨resp, after, hcontact, hlog, hcaches⟩ |
        ⟨what, after, hcontact, hlog, hcaches⟩
      · rw [hcontact]
        exact ⟨[node_id], .cons hlog (.refl hcaches)⟩
      · rw [hcontact]
        obtain ⟨nodes, hserves⟩ := ih hcaches
        exact ⟨node_id :: nodes, hserves.cons hlog⟩
    · exact ih h

theorem serves_route {loop : List Bytes → Call → Option Response × Call} {self after : Call}
    {outcome : Except Bytes Response} (h : Caches conns self.conns)
    (hloop : ∀ ids, ∃ nodes, Serves router strerror t turns conns self (loop ids self).2 nodes)
    (hroute : route router loop req self = some (outcome, after)) :
    ∃ nodes, Serves router strerror t turns conns self after nodes := by
  unfold route at hroute
  split at hroute
  · simp at hroute
  · obtain ⟨_, rfl⟩ := Prod.mk.inj (Option.some.inj hroute)
    exact ⟨[], .refl h⟩
  · next ids _ =>
    obtain ⟨_, rfl⟩ := Prod.mk.inj (Option.some.inj hroute)
    exact hloop ids

/-- A routed request does with the connections what its turns do, one at each node
    that it contacts. -/
theorem served_by_turns (hturns : AllMeet router strerror t backends req turns) {self after : Call}
    {outcome : Except Bytes Response} (h : Caches conns self.conns)
    (hcall : route_read router backends req self = some (outcome, after) ∨
      route_write router backends req self = some (outcome, after)) :
    ∃ nodes, after.contacted = self.contacted ++ nodes ∧
      Caches (try_nodes router strerror t conns (nodes.map turns)).1 after.conns := by
  obtain ⟨nodes, hserves⟩ : ∃ nodes, Serves router strerror t turns conns self after nodes := by
    rcases hcall with hread | hwrite
    · exact serves_route h (fun ids => serves_route_read_loop hturns ids h) hread
    · exact serves_route h (fun ids => serves_route_write_loop hturns ids none h) hwrite
  exact ⟨nodes, hserves.log, hserves.caches⟩

end

/-- The objects of a thread are one for each connection that it has, and nothing
    else has changed since it began. -/
structure Holding (t : Nat) (start : net.State Var) (conns : List Bytes) (s : net.State Var) : Prop where
  nodup : conns.Nodup
  held : ∀ id ∈ conns, (s.owned (.conn t id)).isSome
  frame : ∀ x, (∀ id ∈ conns, x ≠ .conn t id) → s.sockets x = start.sockets x
  plain : s.plain = start.plain

section

variable {router : Router} {strerror : Nat → Bytes} {t : Nat} {start s : net.State Var} {conns : List Bytes}

theorem Holding.congr {s' : net.State Var} (h : Holding t start conns s) (hsockets : s'.sockets = s.sockets)
    (hplain : s'.plain = s.plain) : Holding t start conns s' where
  nodup := h.nodup
  held id hid := by
    rw [net.State.owned, hsockets]
    exact h.held id hid
  frame := by rw [hsockets]; exact h.frame
  plain := hplain.trans h.plain

theorem Holding.added (h : Holding t start conns s) {node_id : Bytes} (hnew : node_id ∉ conns) {object : Socket}
    (hvalid : object.owned.isSome) :
    Holding t start (node_id :: conns) (s.set (.conn t node_id) (some object)) where
  nodup := List.nodup_cons.mpr ⟨hnew, h.nodup⟩
  held id hid := by
    by_cases heq : id = node_id
    · simpa [net.State.owned_set, heq] using hvalid
    · simpa [net.State.owned_set, heq] using h.held id (List.mem_of_ne_of_mem heq hid)
  frame x hx := by
    have hother : x ≠ .conn t node_id := hx node_id List.mem_cons_self
    rw [net.State.set_sockets, Function.update_of_ne hother]
    exact h.frame x fun id hid => hx id (List.mem_cons_of_mem _ hid)
  plain := h.plain

theorem Holding.removed (h : Holding t start conns s) {node_id : Bytes}
    (hstart : start.sockets (.conn t node_id) = none) :
    Holding t start (conns.erase node_id) (s.set (.conn t node_id) none) where
  nodup := h.nodup.erase node_id
  held id hid := by
    obtain ⟨hne, hmem⟩ := (h.nodup.mem_erase_iff).mp hid
    simpa [net.State.owned_set, hne] using h.held id hmem
  frame x hx := by
    by_cases heq : x = .conn t node_id
    · simp [net.State.set, heq, hstart]
    · rw [net.State.set_sockets, Function.update_of_ne heq]
      refine h.frame x fun id hid => ?_
      by_cases hid' : id = node_id
      · rwa [hid']
      · exact hx id ((List.mem_erase_of_ne hid').mpr hid)
  plain := h.plain

/-- The destructor of an object. -/
theorem leads_destroy {x : Var} {object : Socket} (hx : s.sockets x = some object) :
    Leads s [.destroy x] fun s' => s'.sockets = (s.set x none).sockets ∧ s'.plain = s.plain := by
  have hstep : s.step (.destroy x) = some ((s.set x none).close object.close_if_valid.2) := by
    simp [net.State.step, hx]
  exact .step hstep (by cases object.close_if_valid.2 <;> exact ⟨rfl, rfl⟩)

theorem Holding.destroy (h : Holding t start conns s) (hstart : ∀ id, start.sockets (.conn t id) = none)
    {node_id : Bytes} (hmem : node_id ∈ conns) :
    Leads s [.destroy (.conn t node_id)] (Holding t start (conns.erase node_id)) := by
  obtain ⟨fd, hheld⟩ := Option.isSome_iff_exists.mp (h.held node_id hmem)
  obtain ⟨object, hobject, _⟩ := Option.bind_eq_some_iff.mp hheld
  intro hlegal
  obtain ⟨trace, s', hexec, hsockets, hplain⟩ := leads_destroy hobject hlegal
  exact ⟨trace, s', hexec, (h.removed (hstart node_id)).congr hsockets hplain⟩

theorem Holding.erase (h : Holding t start conns s) (hstart : ∀ id, start.sockets (.conn t id) = none)
    (node_id : Bytes) :
    Leads s (erase_connection t conns node_id).2 (Holding t start (erase_connection t conns node_id).1) := by
  unfold erase_connection
  split
  · next hmem => exact h.destroy hstart (List.contains_iff_mem.mp hmem)
  · exact .nil h

theorem connect_to_owned {x : Var} {host : Bytes} {port : UInt16} {resolved : Except Bytes (List Attempt)}
    {sock : Socket}
    (hok : (connect_to strerror x host port resolved).1 = .ok sock) : sock.owned.isSome := by
  unfold connect_to at hok
  split at hok
  · simp at hok
  · dsimp only at hok
    split at hok
    · simp at hok
    · next hvalid =>
      obtain rfl := Except.ok.inj hok
      simp [Socket.owned, Socket.valid, Int.not_lt.mp hvalid]

/-- What `connect_to` leaves behind, also where `getaddrinfo` fails. -/
theorem leads_connect_to_resolved {x : Var} (hx : s.sockets x = none) (host : Bytes) (port : UInt16)
    (resolved : Except Bytes (List Attempt)) :
    Leads s (connect_to strerror x host port resolved).2 fun s' =>
      s'.plain = s.plain ∧
      (∀ sock, (connect_to strerror x host port resolved).1 = .ok sock → s'.sockets = (s.set x (some sock)).sockets) ∧
      (∀ what, (connect_to strerror x host port resolved).1 = .error what → s'.sockets = s.sockets) := by
  cases resolved with
  | error message => exact .nil ⟨rfl, by simp [connect_to], fun _ _ => rfl⟩
  | ok attempts =>
    intro hlegal
    obtain ⟨trace, s', hexec, hcases⟩ := leads_connect_to strerror hx host port attempts hlegal
    refine ⟨trace, s', hexec, ?_⟩
    rcases hcases with ⟨fd, _, hresult, rfl⟩ | ⟨_, hresult, rfl⟩
    · rw [hresult]
      exact ⟨rfl, by simp [net.State.set], by simp⟩
    · rw [hresult]
      exact ⟨rfl, by simp, fun _ _ => rfl⟩

/-- The local variable holds the connection, or is gone again. -/
theorem leads_connect (hfree : s.sockets (.sock t) = none) (turn : Turn) (addr : NodeAddress) :
    Leads s (turn.connect strerror t addr).2 fun s' =>
      s'.plain = s.plain ∧
      (∀ sock, (turn.connect strerror t addr).1 = .ok sock →
        sock.owned.isSome ∧ s'.sockets = (s.set (.sock t) (some sock)).sockets) ∧
      ∀ what, (turn.connect strerror t addr).1 = .error what → s'.sockets = s.sockets := by
  have hconnect := @leads_connect_to_resolved strerror s (.sock t) hfree addr.host addr.port turn.resolved
  have howned {sock : Socket} := @connect_to_owned strerror (.sock t) addr.host addr.port turn.resolved sock
  unfold Turn.connect
  rcases hcall : connect_to strerror (Var.sock t) addr.host addr.port turn.resolved with ⟨result, calls⟩
  simp only [hcall] at hconnect howned ⊢
  cases result with
  | error what =>
    intro hlegal
    obtain ⟨trace, s', hexec, hplain, _, hsockets⟩ := hconnect hlegal
    exact ⟨trace, s', hexec, hplain, by simp, fun _ _ => hsockets what rfl⟩
  | ok sock =>
    cases turn.nodelay with
    | ok _ =>
      intro hlegal
      obtain ⟨trace, s', hexec, hplain, hsockets, _⟩ := hconnect hlegal
      refine ⟨trace, s', hexec, hplain, ?_, by simp⟩
      intro sock' hsock
      obtain rfl := Except.ok.inj hsock
      exact ⟨howned rfl, hsockets sock rfl⟩
    | error error =>
      refine hconnect.append ?_
      rintro s' ⟨hplain, hsockets, _⟩
      have hobject : s'.sockets (.sock t) = some sock := by simp [hsockets sock rfl]
      intro hlegal
      obtain ⟨trace, s'', hexec, hsockets', hplain'⟩ := leads_destroy hobject hlegal
      refine ⟨trace, s'', hexec, hplain'.trans hplain, by simp, ?_⟩
      intro _ _
      rw [hsockets', net.State.set_sockets, hsockets sock rfl, net.State.set_sockets, Function.update_idem, ← hfree,
        Function.update_eq_self]

/-- `std::move` of the local variable into the map, and its destructor. -/
theorem leads_emplace {x y : Var} {object : Socket} (hx : s.sockets x = none) (hy : s.sockets y = some object) :
    Leads s [.move x y, .destroy y] fun s' =>
      s'.sockets = ((s.set x (some object)).set y none).sockets ∧ s'.plain = s.plain := by
  have hstep : s.step (.move x y) = some ((s.set x (some object)).set y (some {}), []) := by
    simp [net.State.step, hx, hy, Socket.move]
  have hmoved : Leads s [.move x y] (· = (s.set x (some object)).set y (some {})) := .step hstep rfl
  refine hmoved.append ?_
  rintro s' rfl
  have hdestroy := @leads_destroy ((s.set x (some object)).set y (some {})) y {} (by simp [net.State.set])
  intro hlegal
  obtain ⟨trace, s', hexec, hsockets, hplain⟩ := hdestroy hlegal
  exact ⟨trace, s', hexec, by simpa [net.State.set] using hsockets, hplain⟩

theorem Holding.backend_connection (h : Holding t start conns s) (hsock : start.sockets (.sock t) = none)
    (hstart : ∀ id, start.sockets (.conn t id) = none) (turn : Turn) :
    Leads s (backend_connection router strerror t conns turn).2 fun s' =>
      (∀ conns', (backend_connection router strerror t conns turn).1 = .ok conns' → Holding t start conns' s') ∧
      ∀ what, (backend_connection router strerror t conns turn).1 = .error what → Holding t start conns s' := by
  have hfree : s.sockets (.sock t) = none := (h.frame _ (by simp)).trans hsock
  unfold descriptors.backend_connection
  split
  · exact .nil ⟨by simpa using h, by simp⟩
  · next hcached =>
    have hnew : turn.node_id ∉ conns := mt List.contains_iff_mem.mpr hcached
    have hempty : s.sockets (.conn t turn.node_id) = none := by
      rw [h.frame, hstart]
      intro id hid heq
      obtain ⟨_, rfl⟩ := Var.conn.inj heq
      exact hnew hid
    split
    · exact .nil ⟨by simp, fun _ _ => h⟩
    · next addr haddr =>
      have hconnect := @leads_connect strerror t s hfree turn addr
      rcases hcall : turn.connect strerror t addr with ⟨result, calls⟩
      simp only [hcall] at hconnect ⊢
      cases result with
      | error what =>
        intro hlegal
        obtain ⟨trace, s', hexec, hplain, _, hsockets⟩ := hconnect hlegal
        exact ⟨trace, s', hexec, by simp, fun _ _ => h.congr (hsockets what rfl) hplain⟩
      | ok sock =>
        refine hconnect.append ?_
        rintro s' ⟨hplain, hopened, _⟩
        obtain ⟨howned, hsockets⟩ := hopened sock rfl
        have hobject : s'.sockets (.sock t) = some sock := by simp [hsockets]
        have hentry : s'.sockets (.conn t turn.node_id) = none := by simp [hsockets, hempty]
        intro hlegal
        obtain ⟨trace, s'', hexec, hsockets', hplain'⟩ := leads_emplace hentry hobject hlegal
        have hadded : s''.sockets = (s.set (.conn t turn.node_id) (some sock)).sockets := by
          rw [hsockets', net.State.set_sockets, net.State.set_sockets, hsockets, net.State.set_sockets,
            Function.update_comm (by simp), Function.update_idem, ← hfree, Function.update_eq_self]
          rfl
        refine ⟨trace, s'', hexec, ?_, by simp⟩
        intro conns' hconns
        obtain rfl := Except.ok.inj hconns
        exact (h.added hnew howned).congr hadded (hplain'.trans hplain)

theorem Holding.try_node (h : Holding t start conns s) (hsock : start.sockets (.sock t) = none)
    (hstart : ∀ id, start.sockets (.conn t id) = none) (turn : Turn) :
    Leads s (try_node router strerror t conns turn).2 (Holding t start (try_node router strerror t conns turn).1) := by
  have hconnection := @Holding.backend_connection router strerror t start s conns h hsock hstart turn
  rcases hcall : descriptors.backend_connection router strerror t conns turn with ⟨result, calls⟩
  simp only [hcall] at hconnection
  simp only [descriptors.try_node, hcall]
  cases result with
  | error what =>
    refine hconnection.append ?_
    rintro s' ⟨_, hfailed⟩
    exact (hfailed what rfl).erase hstart turn.node_id
  | ok conns' =>
    by_cases hexchanged : turn.exchanged = true
    · simp only [hexchanged, if_true]
      intro hlegal
      obtain ⟨trace, s', hexec, hholds, _⟩ := hconnection hlegal
      exact ⟨trace, s', hexec, hholds conns' rfl⟩
    · simp only [hexchanged]
      refine hconnection.append ?_
      rintro s' ⟨hholds, _⟩
      exact (hholds conns' rfl).erase hstart turn.node_id

theorem Holding.try_nodes (h : Holding t start conns s) (hsock : start.sockets (.sock t) = none)
    (hstart : ∀ id, start.sockets (.conn t id) = none) (turns : List Turn) :
    Leads s (try_nodes router strerror t conns turns).2
      (Holding t start (try_nodes router strerror t conns turns).1) := by
  induction turns generalizing conns s with
  | nil => exact .nil h
  | cons turn turns ih =>
    refine (h.try_node hsock hstart turn).append ?_
    intro s' hholds
    exact ih hholds

theorem Holding.destroy_all (h : Holding t start conns s) (hstart : ∀ id, start.sockets (.conn t id) = none) :
    Leads s (destroy_all t conns) (Holding t start []) := by
  induction conns generalizing s with
  | nil => exact .nil h
  | cons node_id conns ih =>
    refine Leads.append (h.destroy hstart List.mem_cons_self) ?_
    intro s' hleft
    rw [List.erase_cons_head] at hleft
    exact ih hleft

/-- The return: nothing is left of the connections, and the client's descriptor is
    given up. -/
theorem Holding.returns (h : Holding t start conns s) (hstart : ∀ id, start.sockets (.conn t id) = none)
    {client_fd : Int} (hclient : client_fd ∈ start.plain) (unwound : Bool) :
    Leads s (leave t client_fd (.ok ()) unwound conns)
      (Holding t { start with plain := start.plain.erase client_fd } []) := by
  have hstep :
      s.step (.close client_fd) = some ({ s with plain := s.plain.erase client_fd }.close (some client_fd)) := by
    simp [net.State.step, h.plain, hclient]
  have hholds : Holding t { start with plain := start.plain.erase client_fd } conns
      ({ s with plain := s.plain.erase client_fd }.close (some client_fd)).1 :=
    ⟨h.nodup, h.held, h.frame, by simp [net.State.close, h.plain]⟩
  refine Leads.append (.step hstep hholds) ?_
  intro s' hholds'
  exact hholds'.destroy_all hstart

/-- An exception: what is left depends on the unwinding. -/
theorem Holding.throws (h : Holding t start conns s) (hstart : ∀ id, start.sockets (.conn t id) = none)
    (client_fd : Int) (what : Bytes) (unwound : Bool) :
    Leads s (leave t client_fd (.error what) unwound conns) (Holding t start (if unwound then [] else conns)) := by
  cases unwound with
  | true => exact h.destroy_all hstart
  | false => exact .nil h

/-- What is open, by who owns it. -/
theorem Holding.isOpen_iff (h : Holding t start conns s) (hstart : ∀ id, start.sockets (.conn t id) = none)
    (hown : s.ledger.Exclusive) (fd : Int) :
    s.isOpen fd = true ↔ (fd ∈ start.plain ∨ ∃ x, start.owned x = some fd) ∨
      ∃ id ∈ conns, s.owned (.conn t id) = some fd := by
  have hopen : s.isOpen fd = true ↔ fd ∈ s.plain ∨ ∃ x, s.owned x = some fd := hown.live_iff fd
  have hframe (x : Var) (hx : ∀ id ∈ conns, x ≠ .conn t id) : s.owned x = start.owned x := by
    rw [net.State.owned, h.frame x hx, net.State.owned]
  rw [hopen, h.plain, or_assoc]
  refine or_congr_right ?_
  constructor
  · rintro ⟨x, hx⟩
    by_cases hconn : ∃ id ∈ conns, x = .conn t id
    · obtain ⟨id, hid, rfl⟩ := hconn
      exact .inr ⟨id, hid, hx⟩
    · refine .inl ⟨x, ?_⟩
      rw [← hframe x fun id hid heq => hconn ⟨id, hid, heq⟩]
      exact hx
  · rintro (⟨x, hx⟩ | ⟨id, _, hid⟩)
    · refine ⟨x, ?_⟩
      rw [hframe x, hx]
      rintro id _ rfl
      simp [net.State.owned, hstart] at hx
    · exact ⟨_, hid⟩

end

/-- What a client leaves behind. From any state that the process can be in,
    whatever addresses, connections and exchanges fail on the way, a thread that
    returns from `handle_client` has closed every descriptor that it opened and the
    client's, and none that is not its own. Where an exception leaves it, the
    client's descriptor stays open, and so do the connections that the thread had,
    unless the stack is unwound. -/
theorem handle_client_closes_all (router : Router) (strerror : Nat → Bytes) {t : Nat} {trace : List net.Event}
    {s : net.State Var} (hrun : Run (net.system Var) (fun _ => True) (net.system Var).init trace s)
    (hsock : s.sockets (.sock t) = none) (hconns : ∀ id, s.sockets (.conn t id) = none) {client_fd : Int}
    (hclient : client_fd ∈ s.plain) (turns : List Turn) (outcome : Except Bytes Unit) (unwound : Bool)
    (hlegal : Legal s (descriptor_calls router strerror t client_fd turns outcome unwound)) :
    ∃ calls final, (net.system Var).exec s (descriptor_calls router strerror t client_fd turns outcome unwound) =
        some (calls, final) ∧
      (outcome = .ok () → final.sockets = s.sockets ∧ final.plain = s.plain.erase client_fd ∧
        ∀ fd, final.isOpen fd = true ↔ s.isOpen fd = true ∧ fd ≠ client_fd) ∧
      ∀ what, outcome = .error what →
        let left := if unwound then [] else (try_nodes router strerror t [] turns).1
        final.plain = s.plain ∧ (∀ id ∈ left, (final.owned (.conn t id)).isSome) ∧
        ∀ fd, final.isOpen fd = true ↔ s.isOpen fd = true ∨ ∃ id ∈ left, final.owned (.conn t id) = some fd := by
  have hholds : Holding t s [] s := ⟨.nil, by simp, fun _ _ => rfl, rfl⟩
  have hserved : Leads s (try_nodes router strerror t [] turns).2
      (Holding t s (try_nodes router strerror t [] turns).1) := hholds.try_nodes hsock hconns turns
  have hown := (owned_of_run hrun).1
  have hopen (fd : Int) : s.isOpen fd = true ↔ fd ∈ s.plain ∨ ∃ x, s.owned x = some fd := hown.live_iff fd
  have hexclusive {calls : List net.Event} {labels : List (net.Label Var)} {final : net.State Var}
      (hexec : (net.system Var).exec s labels = some (calls, final)) : final.ledger.Exclusive :=
    (owned_of_run (hrun.append (.of_exec (fun _ _ => trivial) hexec))).1
  cases outcome with
  | ok _ =>
    obtain ⟨calls, final, hexec, hleft⟩ := hserved.append (fun _ h => h.returns hconns hclient unwound) hlegal
    refine ⟨calls, final, hexec, ?_, by simp⟩
    rintro -
    refine ⟨funext fun x => hleft.frame x (by simp), hleft.plain, ?_⟩
    intro fd
    have hnodup : s.plain.Nodup := hown.nodup
    have hopen' := hleft.isOpen_iff hconns (hexclusive hexec) fd
    rw [hopen', hopen, hnodup.mem_erase_iff]
    constructor
    · rintro ((⟨hne, hmem⟩ | ⟨x, hx⟩) | ⟨_, hmem, _⟩)
      · exact ⟨.inl hmem, hne⟩
      · refine ⟨.inr ⟨x, hx⟩, ?_⟩
        rintro rfl
        exact hown.apart x fd hx hclient
      · simp at hmem
    · rintro ⟨hmem | hx, hne⟩
      · exact .inl (.inl ⟨hne, hmem⟩)
      · exact .inl (.inr hx)
  | error what =>
    obtain ⟨calls, final, hexec, hleft⟩ :=
      hserved.append (fun _ h => h.throws hconns client_fd what unwound) hlegal
    refine ⟨calls, final, hexec, by simp, ?_⟩
    rintro _ -
    refine ⟨hleft.plain, hleft.held, ?_⟩
    intro fd
    rw [hopen]
    exact hleft.isOpen_iff hconns (hexclusive hexec) fd

/-- An address that refuses before one that connects; an exchange that fails, so
    that the entry is erased; and a connection whose options cannot be set. The
    kernel hands out the same number each time. If the write to the client fails
    after that, the client's descriptor and the last connection stay open. -/
theorem handle_client_closes_all_example :
    let router := Router.create [⟨ascii "a", 1⟩] 1 1
    let turn (exchanged : Bool) (nodelay : Except Bytes Unit) : Turn :=
      ⟨ascii "a:1", .ok [.refused 8 111, .no_socket 24, .connected 8], nodelay, exchanged⟩
    let turns := [turn true (.ok ()), turn false (.ok ()), turn true (.error []), turn true (.ok ())]
    let start : net.State Var := { plain := [7], isOpen := Function.update (fun _ => false) 7 true }
    (∃ calls final, (net.system Var).exec start
        (descriptor_calls router (fun _ => []) 0 7 turns (.ok ()) false) = some (calls, final) ∧
      ∀ fd, final.isOpen fd = true ↔ start.isOpen fd = true ∧ fd ≠ 7) ∧
    ∃ calls final, (net.system Var).exec start
        (descriptor_calls router (fun _ => []) 0 7 turns (.error (ascii "write failed: ")) false) =
          some (calls, final) ∧
      final.plain = [7] ∧ (final.owned (.conn 0 (ascii "a:1"))).isSome := by
  intro router turn turns start
  have haccept : (net.system Var).exec (net.system Var).init [.opens 7] = some ([.opened 7], start) := rfl
  have hrun : Run (net.system Var) (fun _ => True) (net.system Var).init [.opened 7] start :=
    .of_exec (fun _ _ => trivial) haccept
  have hsock : start.sockets (.sock 0) = none := rfl
  have hclient : (7 : Int) ∈ start.plain := List.mem_cons_self
  constructor
  · have hexec : ((net.system Var).exec start
        (descriptor_calls router (fun _ => []) 0 7 turns (.ok ()) false)).isSome := by decide +kernel
    obtain ⟨calls, final, hcalls, hok, _⟩ := handle_client_closes_all router (fun _ => []) hrun hsock (fun _ => rfl)
      hclient turns (.ok ()) false (.of_exec hexec)
    exact ⟨calls, final, hcalls, (hok rfl).2.2⟩
  · have hexec : ((net.system Var).exec start
        (descriptor_calls router (fun _ => []) 0 7 turns (.error (ascii "write failed: ")) false)).isSome := by
      decide +kernel
    obtain ⟨calls, final, hcalls, _, herror⟩ := handle_client_closes_all router (fun _ => []) hrun hsock (fun _ => rfl)
      hclient turns (.error (ascii "write failed: ")) false (.of_exec hexec)
    obtain ⟨hplain, hheld, _⟩ := herror _ rfl
    refine ⟨calls, final, hcalls, hplain, hheld (ascii "a:1") ?_⟩
    decide +kernel

end kv.router.descriptors
