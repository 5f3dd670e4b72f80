import Kv.Router.CrashStop

namespace kv

/-- The first node of the key's preference list. -/
def Router.primary (self : Router) (key : Bytes) : Option Bytes := (self.preference_list key).bind List.head?

theorem Router.primary_eq {self : Router} {key primary : Bytes} {rest : List Bytes}
    (hlist : self.preference_list key = some (primary :: rest)) : self.primary key = some primary := by
  simp [Router.primary, hlist]

/-- A preference list has a primary. -/
def Router.Led (self : Router) : Prop := ∀ key, self.preference_list key ≠ some []

theorem Router.led_create {nodes : List NodeAddress} {vnodes replicas : Nat} :
    (create nodes vnodes replicas).Led := by
  intro key hlist
  have hsound : (create nodes vnodes replicas).ring_.Sound := ConsistentHashRing.sound_of_nodes vnodes _
  have hcount : 1 ≤ (create nodes vnodes replicas).replication_factor_ := Nat.le_max_left 1 replicas
  exact hsound.get_nodes_ne_nil hcount (preference_list_eq_some_iff.mp hlist) rfl

end kv

namespace kv.router

open kv.protocol Transition

/-- A request where no node fails: it stays at the primary until that one has
    answered, and visits the other replicas afterwards. Reads end at the primary. -/
structure Routing.Straight (req : Request) (r : Routing) : Prop where
  first : r.first_success = none → r.todo = r.preference_list
  later : ∀ resp, r.first_success = some resp →
    req.command ≠ .Get ∧ ∃ primary rest, r.preference_list = primary :: rest ∧ r.todo <:+ rest

/-- The invariant of runs without failures. -/
structure Calm (s : State) : Prop where
  up : ∀ id, (s.shared.nodes id).up = true
  straight : ∀ t r, (s.threads t).pc = .routing r → r.Straight (s.threads t).req

variable {router : Router} {t : Nat} {thread thread' : Thread} {shared shared' : Shared} {events : List Event}

theorem straight_start (req : Request) (ids : List Bytes) :
    Routing.Straight req { preference_list := ids, todo := ids } where
  first _ := rfl
  later _ hsuccess := absurd hsuccess (by simp)

theorem Routing.Straight.phase {req : Request} {r : Routing} (hstraight : r.Straight req) (phase : Phase) :
    Routing.Straight req { r with phase } where
  first := hstraight.first
  later := hstraight.later

/-- A node answers a write. -/
theorem Routing.Straight.answer {req : Request} {r : Routing} (hstraight : r.Straight req) {node_id : Bytes}
    {todo : List Bytes} (htodo : r.todo = node_id :: todo) (hget : req.command ≠ .Get) (resp : Response) :
    Routing.Straight req { r with todo, phase := .check, first_success := some (r.first_success.getD resp) } where
  first hnone := absurd hnone (by simp)
  later _ _ := by
    refine ⟨hget, ?_⟩
    cases hsuccess : r.first_success with
    | none => exact ⟨node_id, todo, by rw [← hstraight.first hsuccess, htodo], List.suffix_rfl⟩
    | some resp' =>
      obtain ⟨_, primary, rest, hlist, hrest⟩ := hstraight.later resp' hsuccess
      refine ⟨primary, rest, hlist, List.IsSuffix.trans ?_ hrest⟩
      rw [htodo]
      exact List.suffix_cons node_id todo

/-- What a thread does in `route_write` and `route_read` where no node fails. -/
inductive CalmMove (t : Nat) (thread : Thread) (shared : Shared) (r : Routing) : Thread → Shared → List Event → Prop
  | answered {resp : Response} (htodo : r.todo = []) (hsuccess : r.first_success = some resp) :
      CalmMove t thread shared r (thread.returns resp) shared [.returned t thread.req resp]
  | prepared {phase : Phase} {thread' : Thread} (hbefore : ∀ bytes, r.phase ≠ .await bytes)
      (hafter : ∀ bytes, phase ≠ .await bytes) (hpc : thread'.pc = .routing { r with phase })
      (hreq : thread'.req = thread.req) (hparser : thread'.parser = thread.parser) :
      CalmMove t thread shared r thread' shared []
  | executed {node_id : Bytes} {todo : List Bytes} {thread' : Thread} (htodo : r.todo = node_id :: todo)
      (hphase : r.phase = .forward)
      (hpc : thread'.pc = .routing
        { r with phase := .await (reply thread.req ((shared.nodes node_id).store.get thread.req.key)) })
      (hreq : thread'.req = thread.req) (hparser : thread'.parser = thread.parser) :
      CalmMove t thread shared r thread'
        (shared.setNode node_id
          { shared.nodes node_id with store := ((shared.nodes node_id).store.handle_request thread.req).2 })
        [.executed node_id t thread.req]
  | read {node_id : Bytes} {todo : List Bytes} {bytes : Bytes} {resp : Response} (htodo : r.todo = node_id :: todo)
      (hphase : r.phase = .await bytes) (hencode : encode_response resp = bytes)
      (hget : thread.req.command = .Get) :
      CalmMove t thread shared r (thread.returns resp) shared [.returned t thread.req resp]
  | wrote {node_id : Bytes} {todo : List Bytes} {bytes : Bytes} {resp : Response} (htodo : r.todo = node_id :: todo)
      (hphase : r.phase = .await bytes) (hencode : encode_response resp = bytes)
      (hget : thread.req.command ≠ .Get) :
      CalmMove t thread shared r
        (thread.routes { r with todo, phase := .check, first_success := some (r.first_success.getD resp) }) shared []

theorem Calm.connected {s : State} (hok : Consistent router s) (hcalm : Calm s) {node_id : Bytes} {conn : BackendConn}
    (hconn : (s.threads t).backend_conns node_id = some conn) : s.shared.connected node_id conn = true := by
  rw [(hok.threads t).connected_eq hconn]
  exact hcalm.up node_id

theorem Calm.move {s : State} (hled : router.Led) (hknown : router.Known) (hok : Consistent router s)
    (hcalm : Calm s) {r : Routing} (hpc : (s.threads t).pc = .routing r)
    (hmove : RouteStep t (s.threads t) s.shared r thread' shared' events) :
    CalmMove t (s.threads t) s.shared r thread' shared' events := by
  have hr := (hok.threads t).routing r hpc
  have hstraight := hcalm.straight t r hpc
  cases hmove with
  | exhausted htodo =>
    cases hsuccess : r.first_success with
    | some resp => exact .answered htodo hsuccess
    | none =>
      -- A request that no node has answered is still at its primary.
      refine absurd ?_ (hled (s.threads t).req.key)
      rw [hr.listed, ← hstraight.first hsuccess, htodo]
  | skipped htodo hphase hdead =>
    obtain ⟨addr, haddr, hid⟩ := hknown _ _ hr.listed _ (hr.mem_of_todo htodo)
    have hdown := is_alive_eq_false hok haddr (hid ▸ hdead)
    simp [hcalm.up] at hdown
  | chosen htodo hphase => exact .prepared (by simp [hphase]) (by simp) rfl rfl rfl
  | cached htodo hphase => exact .prepared (by simp [hphase]) (by simp) rfl rfl rfl
  | opened htodo hphase => exact .prepared (by simp [hphase]) (by simp) rfl rfl rfl
  | refused htodo hphase hdown => simp [hcalm.up] at hdown
  | broken htodo hphase hconn hbroken => simp [hcalm.connected hok hconn] at hbroken
  | executed htodo hphase => exact .executed htodo hphase rfl rfl rfl
  | read htodo hphase hencode _ hget => exact .read htodo hphase hencode hget
  | wrote htodo hphase hencode _ hget => exact .wrote htodo hphase hencode hget
  | marked htodo hphase =>
    have hdown : (s.shared.nodes _).up = false := hr.phase_of htodo hphase
    simp [hcalm.up] at hdown

theorem CalmMove.straight {r r' : Routing} (hstraight : r.Straight thread.req)
    (hmove : CalmMove t thread shared r thread' shared' events) (hpc : thread'.pc = .routing r') :
    r'.Straight thread'.req := by
  cases hmove with
  | answered => exact absurd hpc (by simp)
  | read => exact absurd hpc (by simp)
  | prepared _ _ hpc' hreq =>
    obtain rfl := Pc.routing.inj (hpc'.symm.trans hpc)
    rw [hreq]
    exact hstraight.phase _
  | executed _ _ hpc' hreq =>
    obtain rfl := Pc.routing.inj (hpc'.symm.trans hpc)
    rw [hreq]
    exact hstraight.phase _
  | wrote htodo _ _ hget =>
    obtain rfl := Pc.routing.inj hpc
    exact hstraight.answer htodo hget _

theorem CalmMove.up {r : Routing} (hmove : CalmMove t thread shared r thread' shared' events) (id : Bytes) :
    (shared'.nodes id).up = (shared.nodes id).up := by
  cases hmove with
  | @executed node_id =>
    rw [Shared.setNode_nodes]
    by_cases heq : id = node_id
    · subst heq
      rw [Function.update_self]
    · rw [Function.update_of_ne heq]
  | _ => rfl

theorem calm_init : Calm (system router).init where
  up _ := rfl
  straight _ _ hpc := absurd hpc (by simp [system])

/-- One thread changes, and no node goes down. -/
theorem Calm.setThread {s : State} (hcalm : Calm s) (t : Nat) (thread : Thread) (shared : Shared)
    (hup : ∀ id, (shared.nodes id).up = (s.shared.nodes id).up)
    (hstraight : ∀ r, thread.pc = .routing r → r.Straight thread.req) :
    Calm { s.setThread t thread with shared } where
  up id := (hup id).trans (hcalm.up id)
  straight t' r hpc := by
    change (Function.update s.threads t thread t').pc = _ at hpc
    change r.Straight (Function.update s.threads t thread t').req
    by_cases heq : t' = t
    · subst heq
      rw [Function.update_self] at hpc ⊢
      exact hstraight r hpc
    · rw [Function.update_of_ne heq] at hpc ⊢
      exact hcalm.straight t' r hpc

theorem Calm.keep {s s' : State} {label : Label} (hled : router.Led) (hknown : router.Known)
    (hok : Consistent router s) (hcalm : Calm s) (hlabel : NoFailure label)
    (hmove : SystemStep router s label s' events) : Calm s' := by
  cases hmove with
  | @received t => exact hcalm.setThread t _ s.shared (fun _ => rfl) (by simp)
  | @closed t => exact hcalm.setThread t _ s.shared (fun _ => rfl) (by simp)
  | lost _ _ _ hconn hbroken => simp [hcalm.connected hok hconn] at hbroken
  | swept => exact ⟨hcalm.up, hcalm.straight⟩
  | pinging => exact ⟨hcalm.up, hcalm.straight⟩
  | pinged => exact ⟨hcalm.up, hcalm.straight⟩
  | marked => exact ⟨hcalm.up, hcalm.straight⟩
  | crashed => exact absurd hlabel (by simp [NoFailure])
  | restarted => exact absurd hlabel (by simp [NoFailure])
  | @moved t thread shared events hmove =>
    cases hmove with
    | drained => exact hcalm.setThread t _ s.shared (fun _ => rfl) (by simp)
    | rejected => exact hcalm.setThread t _ s.shared (fun _ => rfl) (by simp)
    | pinged => exact hcalm.setThread t _ s.shared (fun _ => rfl) (by simp)
    | replied => exact hcalm.setThread t _ s.shared (fun _ => rfl) (by simp)
    | invoked =>
      refine hcalm.setThread t _ s.shared (fun _ => rfl) fun r hpc => ?_
      obtain rfl := Pc.routing.inj hpc
      exact straight_start _ _
    | routed hpc hroute =>
      have hmove := hcalm.move hled hknown hok hpc hroute
      exact hcalm.setThread t _ _ hmove.up fun r' hpc' => hmove.straight (hcalm.straight t _ hpc) hpc'

theorem NoFailure.crashStop {label : Label} (hlabel : NoFailure label) : CrashStop label := by
  cases label with
  | restart => exact hlabel
  | _ => exact trivial

/-- Runs without failures keep to the calm moves. -/
theorem calm_invariant (hled : router.Led) (hknown : router.Known)
    {C : List Event → Prop} {I : List Event → State → Prop}
    (hclosed : ∀ trace events, C (trace ++ events) → C trace) (hinit : I [] (system router).init)
    (hkeep : ∀ trace s label s' events, Consistent router s → Calm s → I trace s → NoFailure label →
      C (trace ++ events) → SystemStep router s label s' events → I (trace ++ events) s')
    {trace : List Event} {s : State} (hrun : Run (system router) NoFailure (system router).init trace s)
    (htrace : C trace) : Consistent router s ∧ Calm s ∧ I trace s := by
  refine run_invariant (I := fun trace s => Calm s ∧ I trace s) hknown (fun _ => NoFailure.crashStop) hclosed
    ⟨calm_init, hinit⟩ ?_ hrun htrace
  rintro trace s label s' events hok ⟨hcalm, hI⟩ hlabel hC hmove
  exact ⟨hcalm.keep hled hknown hok hlabel hmove, hkeep trace s label s' events hok hcalm hI hlabel hC hmove⟩

end kv.router
