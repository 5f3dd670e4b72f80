import Kv.Router.Calm
import Kv.Router.Progress

namespace kv.router

open kv.protocol Transition

/-- The writes to a key that a node has executed, in order, each with the thread
    that it came from. -/
def writes (trace : List Event) (node_id key : Bytes) : List (Nat × Request) :=
  trace.filterMap fun event =>
    match event with
    | .executed id t req => if id = node_id ∧ req.key = key ∧ req.command ≠ .Get then some (t, req) else none
    | _ => none

/-- The threads whose writes to a key have returned, once for each of them. -/
def acknowledged (trace : List Event) (key : Bytes) : List Nat :=
  trace.filterMap fun event =>
    match event with
    | .returned t req _ => if req.key = key ∧ req.command ≠ .Get then some t else none
    | _ => none

/-- What a node holds for a key after the writes that it has executed. -/
def replay (trace : List Event) (node_id key : Bytes) : Option Bytes :=
  PlainMap.after ((writes trace node_id key).map Prod.snd) key

/-- Whether the write of a thread is in flight to a key and has been executed
    by a node, as a number. -/
def Thread.delivered (self : Thread) (key node_id : Bytes) : Nat :=
  match self.pc with
  | .routing r => if self.req.key = key ∧ self.req.command ≠ .Get ∧ ¬ r.remaining.contains node_id then 1 else 0
  | _ => 0

variable {trace events : List Event} {node_id key : Bytes} {t : Nat} {req : Request}

theorem writes_append (trace events : List Event) (node_id key : Bytes) :
    writes (trace ++ events) node_id key = writes trace node_id key ++ writes events node_id key :=
  List.filterMap_append

theorem acknowledged_append (trace events : List Event) (key : Bytes) :
    acknowledged (trace ++ events) key = acknowledged trace key ++ acknowledged events key :=
  List.filterMap_append

theorem writes_executed (hkey : req.key = key) (hget : req.command ≠ .Get) (node_id : Bytes) (t : Nat) :
    writes [.executed node_id t req] node_id key = [(t, req)] := by
  simp [writes, hkey, hget]

theorem writes_executed_ne {node_id' : Bytes} (hne : node_id' ≠ node_id) (t : Nat) (req : Request) (key : Bytes) :
    writes [.executed node_id' t req] node_id key = [] := by
  simp [writes, hne]

theorem writes_executed_other (hother : ¬ (req.key = key ∧ req.command ≠ .Get)) (node_id node_id' : Bytes) (t : Nat) :
    writes [.executed node_id' t req] node_id key = [] := by
  simp only [writes, List.filterMap_cons, List.filterMap_nil]
  rw [if_neg fun h => hother h.2]

/-- What a node holds for a key changes when it executes a write to the key. -/
theorem replay_executed (trace : List Event) (node_id : Bytes) (t : Nat) (req : Request) (id key : Bytes) :
    replay (trace ++ [.executed node_id t req]) id key =
      if id = node_id ∧ key = req.key then result req (replay trace node_id req.key) else replay trace id key := by
  rw [replay, writes_append]
  by_cases hid : id = node_id
  · subst hid
    by_cases hkey : key = req.key
    · subst hkey
      rw [if_pos ⟨rfl, rfl⟩]
      by_cases hget : req.command = .Get
      · rw [writes_executed_other (by simp [hget]), List.append_nil]
        simp [result, hget, replay]
      · rw [writes_executed rfl hget, List.map_append, List.map_singleton, PlainMap.after_snoc, if_pos rfl]
        rfl
    · rw [if_neg (by simp [hkey]), writes_executed_other (by simp [Ne.symm hkey]), List.append_nil]
      rfl
  · rw [if_neg (by simp [hid]), writes_executed_ne (Ne.symm hid), List.append_nil]
    rfl

theorem replay_of_writes (hwrites : writes events node_id key = []) (trace : List Event) :
    replay (trace ++ events) node_id key = replay trace node_id key := by
  rw [replay, writes_append, hwrites, List.append_nil]
  rfl

variable {router : Router} {thread thread' : Thread} {shared shared' : Shared} {r : Routing}

theorem Thread.delivered_of_routing (hpc : thread.pc = .routing r) (key node_id : Bytes) :
    thread.delivered key node_id =
      if thread.req.key = key ∧ thread.req.command ≠ .Get ∧ node_id ∉ r.remaining then 1 else 0 := by
  simp [delivered, hpc]

theorem Thread.delivered_of_not_routing (hpc : ∀ r, thread.pc ≠ .routing r) (key node_id : Bytes) :
    thread.delivered key node_id = 0 := by
  unfold delivered
  split
  · exact absurd ‹_› (hpc _)
  · rfl

/-- A step of a write leaves the balance between the writes that a node has
    executed and those that have returned. -/
theorem CalmMove.balance (hr : RoutingOk router shared.nodes thread r) (hstraight : r.Straight thread.req)
    (hpc : thread.pc = .routing r) (hmove : CalmMove t thread shared r thread' shared' events) (key id : Bytes) :
    ((writes events id key).map Prod.fst).count t + thread.delivered key id =
      (acknowledged events key).count t + thread'.delivered key id := by
  cases hmove with
  | @answered resp htodo hsuccess =>
    have hwrite := (hstraight.later resp hsuccess).1
    have hremaining : r.remaining = [] := by
      unfold Routing.remaining
      split <;> simp [htodo]
    rw [Thread.delivered_of_routing hpc, Thread.delivered_of_not_routing (by simp), hremaining]
    by_cases hkey : thread.req.key = key <;> simp [writes, acknowledged, hkey, hwrite]
  | prepared hbefore hafter hpc' hreq =>
    rw [Thread.delivered_of_routing hpc, Thread.delivered_of_routing hpc', hreq, Routing.remaining_eq hbefore,
      Routing.remaining_eq hafter]
    rfl
  | @executed node_id todo _ htodo hphase hpc' hreq =>
    have hbefore : r.remaining = node_id :: todo := by rw [Routing.remaining_eq (by simp [hphase]), htodo]
    have hafter : ({ r with phase := .await (reply thread.req ((shared.nodes node_id).store.get thread.req.key)) } :
        Routing).remaining = todo := by simp [Routing.remaining, htodo]
    have hfresh := hr.not_mem_todo htodo
    rw [Thread.delivered_of_routing hpc, Thread.delivered_of_routing hpc', hreq, hbefore, hafter]
    by_cases hwrite : thread.req.key = key ∧ thread.req.command ≠ .Get
    · by_cases hid : id = node_id
      · subst hid
        rw [writes_executed hwrite.1 hwrite.2]
        simp [acknowledged, hwrite, hfresh]
      · rw [writes_executed_ne (Ne.symm hid)]
        simp [acknowledged, hid]
    · rw [writes_executed_other hwrite, if_neg fun h => hwrite ⟨h.1, h.2.1⟩, if_neg fun h => hwrite ⟨h.1, h.2.1⟩]
      simp [acknowledged]
  | read htodo hphase hencode hget =>
    rw [Thread.delivered_of_routing hpc, Thread.delivered_of_not_routing (by simp), if_neg (by simp [hget])]
    simp [writes, acknowledged, hget]
  | wrote htodo hphase hencode hget =>
    rw [Thread.delivered_of_routing hpc, Thread.delivered_of_routing (Thread.routes_pc _ _), Thread.routes_req]
    have hbefore : r.remaining = r.todo.tail := by simp [Routing.remaining, hphase]
    rw [hbefore, htodo, Routing.remaining_eq (by simp)]
    rfl

theorem writes_eq_nil (hevents : ∀ node_id t req, Event.executed node_id t req ∉ events) (id key : Bytes) :
    writes events id key = [] := by
  rw [writes, List.filterMap_eq_nil_iff]
  intro event hmem
  cases event with
  | executed node_id t req => exact absurd hmem (hevents node_id t req)
  | _ => rfl

variable {s s' : State} {label : Label}

/-- A step executes one request at one node, or leaves all stores alone. -/
theorem SystemStep.executes (hlabel : CrashStop label) (hmove : SystemStep router s label s' events) :
    (∃ node_id t req, events = [.executed node_id t req] ∧
      s'.shared.nodes = Function.update s.shared.nodes node_id
        { s.shared.nodes node_id with store := ((s.shared.nodes node_id).store.handle_request req).2 }) ∨
    ((∀ node_id t req, Event.executed node_id t req ∉ events) ∧
      ∀ id, (s'.shared.nodes id).store = (s.shared.nodes id).store) := by
  cases hmove with
  | moved hmove =>
    cases hmove with
    | routed hpc hroute =>
      cases hroute with
      | @executed node_id => exact .inl ⟨node_id, _, _, rfl, rfl⟩
      | _ => exact .inr ⟨by simp, fun _ => rfl⟩
    | _ => exact .inr ⟨by simp, fun _ => rfl⟩
  | @crashed node_id =>
    refine .inr ⟨by simp, fun id => ?_⟩
    rw [Shared.setNode_nodes]
    by_cases heq : id = node_id
    · subst heq
      rw [Function.update_self]
    · rw [Function.update_of_ne heq]
  | restarted => exact absurd hlabel (by simp [CrashStop])
  | _ => exact .inr ⟨by simp, fun _ => rfl⟩

/-- Every store is what its executed writes make of it. -/
theorem SystemStep.stores (hlabel : CrashStop label) (hmove : SystemStep router s label s' events)
    (hstores : ∀ id key, (s.shared.nodes id).store.get key = replay trace id key) (id key : Bytes) :
    (s'.shared.nodes id).store.get key = replay (trace ++ events) id key := by
  rcases hmove.executes hlabel with ⟨node_id, t, req, rfl, hnodes⟩ | ⟨hevents, hsame⟩
  · rw [hnodes, replay_executed]
    by_cases hid : id = node_id
    · subst hid
      rw [Function.update_self, KVStore.get_handle_request]
      simp only [true_and, hstores]
    · rw [Function.update_of_ne hid, if_neg (by simp [hid])]
      exact hstores id key
  · rw [hsame, replay_of_writes (writes_eq_nil hevents id key)]
    exact hstores id key

end kv.router
