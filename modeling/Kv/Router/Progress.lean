import Kv.Router.History

namespace kv.router

open kv.protocol Transition

/-- The nodes of the list that have not executed the request. -/
def Routing.remaining (r : Routing) : List Bytes :=
  match r.phase with
  | .await _ => r.todo.tail
  | _ => r.todo

/-- A request on its way through the preference list: the nodes it has passed
    and that are still up have executed it, the others have not, and no node
    has answered otherwise than a plain map would. -/
structure Progress (nodes : Bytes → Node) (req : Request) (held : Option Bytes) (r : Routing) : Prop where
  stores : ∀ id ∈ r.preference_list, (nodes id).up = true →
    (nodes id).store.get req.key = if id ∈ r.remaining then held else result req held
  reply : ∀ bytes, r.phase = .await bytes → bytes = kv.reply req held
  success : ∀ resp, r.first_success = some resp → encode_response resp = kv.reply req held ∧ resp.type ≠ .Error
  silent : r.first_success = none → ∀ id ∈ r.preference_list, id ∉ r.todo → (nodes id).up = false

variable {nodes nodes' : Bytes → Node} {req : Request} {held : Option Bytes} {r : Routing}

theorem Routing.remaining_eq (hphase : ∀ bytes, r.phase ≠ .await bytes) : r.remaining = r.todo := by
  unfold remaining
  split
  · rename_i bytes heq
    exact absurd heq (hphase bytes)
  · rfl

/-- What matters to a request is what the nodes that are up hold for its key. -/
def Keeps (nodes nodes' : Bytes → Node) (key : Bytes) : Prop :=
  ∀ id, (nodes' id).up = true → (nodes id).up = true ∧ (nodes' id).store.get key = (nodes id).store.get key

theorem Keeps.refl (nodes : Bytes → Node) (key : Bytes) : Keeps nodes nodes key := fun _ hup => ⟨hup, rfl⟩

theorem Keeps.setNode {shared : Shared} {node_id key : Bytes} {node : Node}
    (hnode : node.up = true →
      (shared.nodes node_id).up = true ∧ node.store.get key = (shared.nodes node_id).store.get key) :
    Keeps shared.nodes (shared.setNode node_id node).nodes key :=
  (Function.forall_update_iff shared.nodes fun id node => node.up = true →
    (shared.nodes id).up = true ∧ node.store.get key = (shared.nodes id).store.get key).mpr
    ⟨hnode, fun _ _ hup => ⟨hup, rfl⟩⟩

theorem Keeps.down {key id : Bytes} (hkeeps : Keeps nodes nodes' key) (hdown : (nodes id).up = false) :
    (nodes' id).up = false := by
  by_contra hup
  have hup' := (hkeeps id (by simpa using hup)).1
  simp [hdown] at hup'

theorem Progress.keeps (hkeeps : Keeps nodes nodes' req.key) (hprogress : Progress nodes req held r) :
    Progress nodes' req held r where
  stores id hid hup := by
    obtain ⟨hup', hget⟩ := hkeeps id hup
    rw [hget]
    exact hprogress.stores id hid hup'
  reply := hprogress.reply
  success := hprogress.success
  silent hnone id hid hpassed := hkeeps.down (hprogress.silent hnone id hid hpassed)

/-- Another phase before the request is sent. -/
theorem Progress.turn (hprogress : Progress nodes req held r) (hphase : ∀ bytes, r.phase ≠ .await bytes)
    {phase : Phase} (hphase' : ∀ bytes, phase ≠ .await bytes) : Progress nodes req held { r with phase } where
  stores id hid hup := by
    have hget := hprogress.stores id hid hup
    rw [Routing.remaining_eq hphase] at hget
    rwa [Routing.remaining_eq hphase']
  reply bytes heq := absurd heq (hphase' bytes)
  success := hprogress.success
  silent := hprogress.silent

/-- A node that is down is passed over. -/
theorem Progress.pass (hprogress : Progress nodes req held r) (hphase : ∀ bytes, r.phase ≠ .await bytes)
    {node_id : Bytes} {todo : List Bytes} (htodo : r.todo = node_id :: todo) (hdown : (nodes node_id).up = false) :
    Progress nodes req held { r with todo, phase := .check } where
  stores id hid hup := by
    have hne : id ≠ node_id := by
      rintro rfl
      simp [hdown] at hup
    have hget := hprogress.stores id hid hup
    simp only [Routing.remaining_eq hphase, htodo, List.mem_cons, hne, false_or] at hget
    rwa [Routing.remaining_eq (by simp)]
  reply bytes heq := absurd heq (by simp)
  success := hprogress.success
  silent hnone id hid hpassed := by
    by_cases heq : id = node_id
    · exact heq ▸ hdown
    · apply hprogress.silent hnone id hid
      simpa [htodo, heq] using hpassed

/-- The reply is lost with the node that sent it. -/
theorem Progress.lose (hprogress : Progress nodes req held r) {node_id : Bytes} {todo : List Bytes} {bytes : Bytes}
    (htodo : r.todo = node_id :: todo) (hphase : r.phase = .await bytes) (hdown : (nodes node_id).up = false) :
    Progress nodes req held { r with phase := .failed } where
  stores id hid hup := by
    have hne : id ≠ node_id := by
      rintro rfl
      simp [hdown] at hup
    have hget := hprogress.stores id hid hup
    simp only [Routing.remaining, hphase, htodo, List.tail_cons] at hget
    rw [Routing.remaining_eq (by simp)]
    simpa only [htodo, List.mem_cons, hne, false_or] using hget
  reply bytes heq := absurd heq (by simp)
  success := hprogress.success
  silent := hprogress.silent

/-- The node executes the request, and answers as the plain map would. -/
theorem Progress.execute {shared : Shared} (hprogress : Progress shared.nodes req held r) {node_id : Bytes}
    {todo : List Bytes} (hmem : node_id ∈ r.preference_list) (hfresh : node_id ∉ todo)
    (htodo : r.todo = node_id :: todo) (hphase : r.phase = .forward) (hup : (shared.nodes node_id).up = true) :
    Progress
      (shared.setNode node_id
        { shared.nodes node_id with store := ((shared.nodes node_id).store.handle_request req).2 }).nodes
      req held { r with phase := .await (kv.reply req ((shared.nodes node_id).store.get req.key)) } := by
  have hheld : (shared.nodes node_id).store.get req.key = held := by
    have hget := hprogress.stores node_id hmem hup
    rwa [Routing.remaining_eq (by simp [hphase]), if_pos (by simp [htodo])] at hget
  constructor
  · intro id hid hup'
    simp only [Routing.remaining, htodo, List.tail_cons, Shared.setNode_nodes] at hup' ⊢
    by_cases heq : id = node_id
    · subst heq
      rw [Function.update_self, KVStore.get_handle_request, if_pos rfl, hheld, if_neg hfresh]
    · rw [Function.update_of_ne heq] at hup' ⊢
      have hget := hprogress.stores id hid hup'
      have hbefore : r.remaining = node_id :: todo := by rw [Routing.remaining_eq (by simp [hphase]), htodo]
      simpa only [hbefore, List.mem_cons, heq, false_or] using hget
  · intro bytes heq
    obtain rfl := Phase.await.inj heq
    rw [hheld]
  · exact hprogress.success
  · intro hnone id hid hpassed
    have hdown := hprogress.silent hnone id hid hpassed
    have hne : id ≠ node_id := by
      rintro rfl
      simp [hup] at hdown
    rwa [Shared.setNode_nodes, Function.update_of_ne hne]

/-- The answer arrives, and the write goes on with the next node. -/
theorem Progress.answer (hprogress : Progress nodes req held r) {node_id : Bytes} {todo : List Bytes} {resp : Response}
    (htodo : r.todo = node_id :: todo) (hphase : r.phase = .await (encode_response resp))
    (htype : resp.type ≠ .Error) :
    Progress nodes req held
      { r with todo, phase := .check, first_success := some (r.first_success.getD resp) } where
  stores id hid hup := by
    have hget := hprogress.stores id hid hup
    simp only [Routing.remaining, hphase, htodo, List.tail_cons] at hget
    rwa [Routing.remaining_eq (by simp)]
  reply bytes heq := absurd heq (by simp)
  success resp' heq := by
    obtain rfl := Option.some.inj heq
    cases hsuccess : r.first_success with
    | none => exact ⟨hprogress.reply _ hphase, htype⟩
    | some first => exact hprogress.success first hsuccess
  silent hnone := absurd hnone (by simp)

/-- A request sets out, and all nodes that are up agree. -/
theorem progress_start {ids : List Bytes}
    (hagree : ∀ id ∈ ids, (nodes id).up = true → (nodes id).store.get req.key = held) :
    Progress nodes req held { preference_list := ids, todo := ids } where
  stores id hid hup := by
    rw [hagree id hid hup, Routing.remaining_eq (by simp)]
    exact (if_pos hid).symm
  reply bytes heq := absurd heq (by simp)
  success resp heq := absurd heq (by simp)
  silent _ id hid hpassed := absurd hid hpassed

/-- How a move of a routed request ends: the request goes on, or returns what a
    plain map would reply, or returns an error because every node is down. -/
inductive Outcome (t : Nat) (thread : Thread) (shared : Shared) (held : Option Bytes) (r : Routing) :
    Thread → Shared → List Event → Prop
  | goes {r' : Routing} {thread' : Thread} {shared' : Shared} {events : List Event} (hpc : thread'.pc = .routing r')
      (hreq : thread'.req = thread.req) (hlist : r'.preference_list = r.preference_list)
      (hprogress : Progress shared'.nodes thread.req held r')
      (hkeeps : ∀ key, key ≠ thread.req.key → Keeps shared.nodes shared'.nodes key)
      (hup : ∀ id, (shared'.nodes id).up = (shared.nodes id).up)
      (hsilent : ∀ event ∈ events, event.Silent) : Outcome t thread shared held r thread' shared' events
  | returns {resp : Response}
      (hreply : resp.type ≠ .Error → encode_response resp = kv.reply thread.req held)
      (herror : resp.type = .Error → resp = no_live_replica_error r.preference_list.length ∧
        ∀ id ∈ r.preference_list, (shared.nodes id).up = false)
      (hstores : ∀ id ∈ r.preference_list, (shared.nodes id).up = true →
        (shared.nodes id).store.get thread.req.key = result thread.req held) :
      Outcome t thread shared held r (thread.returns resp) shared [.returned t thread.req resp]

theorem Outcome.of_same {t : Nat} {thread thread' : Thread} {shared shared' : Shared} {r' : Routing}
    (hpc : thread'.pc = .routing r') (hreq : thread'.req = thread.req) (hlist : r'.preference_list = r.preference_list)
    (hnodes : shared'.nodes = shared.nodes) (hprogress : Progress shared.nodes thread.req held r') :
    Outcome t thread shared held r thread' shared' [] := by
  apply Outcome.goes hpc hreq hlist
  · rwa [hnodes]
  · rw [hnodes]
    exact fun key _ => Keeps.refl _ key
  · rw [hnodes]
    exact fun _ => rfl
  · simp

/-- At the end of the list, every node that is up has executed the request. -/
theorem Outcome.of_exhausted {t : Nat} {thread : Thread} {shared : Shared}
    (hprogress : Progress shared.nodes thread.req held r) (htodo : r.todo = []) :
    Outcome t thread shared held r
      (thread.returns (r.first_success.getD (no_live_replica_error r.preference_list.length))) shared
      [.returned t thread.req (r.first_success.getD (no_live_replica_error r.preference_list.length))] := by
  have hremaining : r.remaining = [] := by
    unfold Routing.remaining
    split <;> simp [htodo]
  apply Outcome.returns
  · intro htype
    cases hsuccess : r.first_success with
    | none => simp [hsuccess, no_live_replica_error] at htype
    | some first => exact (hprogress.success first hsuccess).1
  · intro htype
    cases hsuccess : r.first_success with
    | none => exact ⟨rfl, fun id hid => hprogress.silent hsuccess id hid (by simp [htodo])⟩
    | some first => exact absurd (by simpa [hsuccess] using htype) (hprogress.success first hsuccess).2
  · intro id hid hup
    have hget := hprogress.stores id hid hup
    rwa [hremaining, if_neg List.not_mem_nil] at hget

/-- A read returns the first reply, and leaves the stores as they are. -/
theorem Outcome.of_read {t : Nat} {thread : Thread} {shared : Shared} {resp : Response}
    (hprogress : Progress shared.nodes thread.req held r) (hphase : r.phase = .await (encode_response resp))
    (htype : resp.type ≠ .Error) (hget : thread.req.command = .Get) :
    Outcome t thread shared held r (thread.returns resp) shared [.returned t thread.req resp] := by
  have hread : result thread.req held = held := by simp [result, hget]
  apply Outcome.returns
  · exact fun _ => hprogress.reply _ hphase
  · exact fun herror => absurd herror htype
  · intro id hid hup
    have hstore := hprogress.stores id hid hup
    rwa [hread, ite_self, ← hread] at hstore

theorem RouteStep.outcome {router : Router} {t : Nat} {thread thread' : Thread} {shared shared' : Shared}
    {events : List Event} (hr : RoutingOk router shared.nodes thread r)
    (hdead : ∀ id ∈ r.preference_list, shared.is_alive id = false → (shared.nodes id).up = false)
    (hprogress : Progress shared.nodes thread.req held r)
    (hmove : RouteStep t thread shared r thread' shared' events) :
    Outcome t thread shared held r thread' shared' events := by
  cases hmove with
  | exhausted htodo => exact .of_exhausted hprogress htodo
  | skipped htodo hphase hdown =>
    have hnode := hdead _ (hr.mem_of_todo htodo) hdown
    exact .of_same rfl rfl rfl rfl (hprogress.pass (by simp [hphase]) htodo hnode)
  | chosen htodo hphase => exact .of_same rfl rfl rfl rfl (hprogress.turn (by simp [hphase]) (by simp))
  | cached htodo hphase => exact .of_same rfl rfl rfl rfl (hprogress.turn (by simp [hphase]) (by simp))
  | opened htodo hphase => exact .of_same rfl rfl rfl rfl (hprogress.turn (by simp [hphase]) (by simp))
  | refused htodo hphase => exact .of_same rfl rfl rfl rfl (hprogress.turn (by simp [hphase]) (by simp))
  | broken htodo hphase => exact .of_same rfl rfl rfl rfl (hprogress.turn (by simp [hphase]) (by simp))
  | @executed node_id todo conn parser htodo hphase hconn hconnected =>
    have hup : (shared.nodes node_id).up = true := (Bool.and_eq_true _ _ ▸ hconnected).1
    refine .goes rfl rfl rfl
      (hprogress.execute (hr.mem_of_todo htodo) (hr.not_mem_todo htodo) htodo hphase hup) ?_ ?_ ?_
    · intro key hkey
      refine Keeps.setNode fun _ => ⟨hup, ?_⟩
      rw [KVStore.get_handle_request, if_neg hkey]
    · exact (Function.forall_update_iff shared.nodes fun id node => node.up = (shared.nodes id).up).mpr
        ⟨rfl, fun _ _ => rfl⟩
    · simp [Event.Silent]
  | read htodo hphase hencode htype hget =>
    subst hencode
    exact .of_read hprogress hphase htype hget
  | wrote htodo hphase hencode htype hget =>
    subst hencode
    exact .of_same rfl rfl rfl rfl (hprogress.answer htodo hphase htype)
  | marked htodo hphase =>
    have hdown := hr.phase_of htodo hphase
    exact .of_same rfl rfl rfl rfl (hprogress.pass (by simp [hphase]) htodo hdown)

end kv.router
