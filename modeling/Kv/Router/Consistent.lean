import Kv.Router.System

namespace kv.router

open kv.protocol Transition

variable {router : Router}

/-- What the phase of an iteration says about the node it is for. -/
def PhaseOk (nodes : Bytes → Node) (thread : Thread) (node_id : Bytes) : Phase → Prop
  | .check => True
  | .connect => True
  | .forward => ∃ conn, thread.backend_conns node_id = some conn
  | .await bytes => (∃ conn, thread.backend_conns node_id = some conn) ∧
      ∃ held, bytes = reply thread.req held ∧ ∀ value, held = some value → value.length ≤ kMaxValueLen
  | .failed => (nodes node_id).up = false

structure RoutingOk (router : Router) (nodes : Bytes → Node) (thread : Thread) (r : Routing) : Prop where
  wellFormed : thread.req.WellFormed
  command : thread.req.command ≠ .Ping
  listed : router.preference_list thread.req.key = some r.preference_list
  todo : ∃ visited, r.preference_list = visited ++ r.todo
  phase : ∀ node_id todo, r.todo = node_id :: todo → PhaseOk nodes thread node_id r.phase

/-- A cached connection leads to the running incarnation of its node, which has
    no unfinished request on it. -/
structure ThreadOk (router : Router) (nodes : Bytes → Node) (thread : Thread) : Prop where
  conns : ∀ node_id conn, thread.backend_conns node_id = some conn →
    conn.epoch = (nodes node_id).epoch ∧ conn.parser.buffer_ = []
  routing : ∀ r, thread.pc = .routing r → RoutingOk router nodes thread r

/-- The invariant of crash-stop runs. Only crashed nodes are ever flagged down. -/
structure Consistent (router : Router) (s : State) : Prop where
  threads : ∀ t, ThreadOk router s.shared.nodes (s.threads t)
  values : ∀ node_id key value, (s.shared.nodes node_id).store.get key = some value → value.length ≤ kMaxValueLen
  flags : ∀ node_id, s.shared.alive_ node_id = some false → (s.shared.nodes node_id).up = false
  known : ∀ addr ∈ router.nodes_, s.shared.alive_ addr.id ≠ none
  heartbeat : ∀ addr todo, s.heartbeat = .marking addr false todo → (s.shared.nodes addr.id).up = false

/-- Without restarts, a node keeps its incarnation, and stays down once down. -/
def Ages (nodes nodes' : Bytes → Node) : Prop :=
  ∀ node_id, (nodes' node_id).epoch = (nodes node_id).epoch ∧
    ((nodes node_id).up = false → (nodes' node_id).up = false)

theorem Ages.refl (nodes : Bytes → Node) : Ages nodes nodes := fun _ => ⟨rfl, id⟩

theorem Ages.setNode {shared : Shared} {node_id : Bytes} {node : Node}
    (hepoch : node.epoch = (shared.nodes node_id).epoch)
    (hup : (shared.nodes node_id).up = false → node.up = false) :
    Ages shared.nodes (shared.setNode node_id node).nodes := by
  intro other
  by_cases heq : other = node_id
  · subst heq
    simpa [Shared.setNode] using ⟨hepoch, hup⟩
  · simp [Shared.setNode, Function.update_of_ne heq]

theorem PhaseOk.mono {nodes nodes' : Bytes → Node} (hages : Ages nodes nodes') {thread : Thread} {node_id : Bytes}
    {phase : Phase} (hok : PhaseOk nodes thread node_id phase) : PhaseOk nodes' thread node_id phase := by
  cases phase with
  | failed => exact (hages node_id).2 hok
  | check => exact hok
  | connect => exact hok
  | forward => exact hok
  | await bytes => exact hok

theorem ThreadOk.mono {nodes nodes' : Bytes → Node} (hages : Ages nodes nodes') {thread : Thread}
    (hok : ThreadOk router nodes thread) : ThreadOk router nodes' thread where
  conns node_id conn hconn := by
    rw [(hages node_id).1]
    exact hok.conns node_id conn hconn
  routing r hpc :=
    let hr := hok.routing r hpc
    { hr with phase := fun node_id todo htodo => (hr.phase node_id todo htodo).mono hages }

theorem is_alive_eq_false {router : Router} {s : State} (hok : Consistent router s) {addr : NodeAddress}
    (haddr : addr ∈ router.nodes_) (hdead : s.shared.is_alive addr.id = false) :
    (s.shared.nodes addr.id).up = false := by
  apply hok.flags
  have hknown := hok.known addr haddr
  unfold Shared.is_alive Liveness.is_alive at hdead
  cases hflag : s.shared.alive_ addr.id with
  | none => exact absurd hflag hknown
  | some alive =>
    rw [hflag] at hdead
    simpa using hdead

end kv.router
