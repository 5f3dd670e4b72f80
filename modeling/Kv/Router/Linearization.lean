import Kv.Router.Simulation

namespace kv.router

open kv.protocol Transition

/-- The events that start a request of a thread, execute it at its primary, or
    end it. -/
def Event.Concerns (router : Router) (t : Nat) : Event → Prop
  | .invoked t' _ => t' = t
  | .executed node_id t' req => t' = t ∧ router.primary req.key = some node_id
  | .returned t' _ _ => t' = t
  | _ => False

/-- The last thing that happened to thread `t` is that it was given `req`. -/
def Waiting (router : Router) (trace : List Event) (t : Nat) (req : Request) : Prop :=
  ∃ earlier waiting, trace = earlier ++ .invoked t req :: waiting ∧ ∀ event ∈ waiting, ¬ event.Concerns router t

/-- The last two things that happened to thread `t` are that it was given `req`,
    and that the primary executed it. -/
def Served (router : Router) (trace : List Event) (t : Nat) (req : Request) : Prop :=
  ∃ before primary later, trace = before ++ .executed primary t req :: later ∧ Waiting router before t req ∧
    router.primary req.key = some primary ∧ ∀ event ∈ later, ¬ event.Concerns router t

/-- The primary executes every request once, after the client has sent it and
    before the router has answered it. -/
def Linearized (router : Router) (before : List Event) (event : Event) : Prop :=
  (∀ node_id t req, event = .executed node_id t req → router.primary req.key = some node_id →
    Waiting router before t req) ∧
  ∀ t req resp, event = .returned t req resp → Served router before t req

variable {router : Router} {trace events : List Event} {t : Nat} {req : Request}

theorem Waiting.append (hwaiting : Waiting router trace t req)
    (hevents : ∀ event ∈ events, ¬ event.Concerns router t) :
    Waiting router (trace ++ events) t req := by
  obtain ⟨earlier, waiting, rfl, hquiet⟩ := hwaiting
  refine ⟨earlier, waiting ++ events, by simp, fun event hmem => ?_⟩
  rcases List.mem_append.mp hmem with hmem | hmem
  · exact hquiet event hmem
  · exact hevents event hmem

theorem Served.append (hserved : Served router trace t req) (hevents : ∀ event ∈ events, ¬ event.Concerns router t) :
    Served router (trace ++ events) t req := by
  obtain ⟨before, primary, later, rfl, hwaiting, hprimary, hquiet⟩ := hserved
  refine ⟨before, primary, later ++ events, by simp, hwaiting, hprimary, fun event hmem => ?_⟩
  rcases List.mem_append.mp hmem with hmem | hmem
  · exact hquiet event hmem
  · exact hevents event hmem

theorem waiting_invoked (trace : List Event) (t : Nat) (req : Request) :
    Waiting router (trace ++ [.invoked t req]) t req :=
  ⟨trace, [], rfl, by simp⟩

theorem Waiting.served (hwaiting : Waiting router trace t req) {primary : Bytes}
    (hprimary : router.primary req.key = some primary) :
    Served router (trace ++ [.executed primary t req]) t req :=
  ⟨trace, primary, [], rfl, hwaiting, hprimary, by simp⟩

/-- Events of no request: bytes from and to the clients, and failures. -/
def Event.Outside : Event → Prop
  | .received _ _ => True
  | .sent _ _ => True
  | .crashed _ => True
  | _ => False

theorem Event.Outside.not_concerns {event : Event} (houtside : event.Outside) (t : Nat) :
    ¬ event.Concerns router t := by
  cases event <;> simp_all [Event.Outside, Event.Concerns]

theorem linearized_of_ne {event : Event} (hexecuted : ∀ node_id t req, event ≠ .executed node_id t req)
    (hreturned : ∀ t req resp, event ≠ .returned t req resp) (before : List Event) : Linearized router before event :=
  ⟨fun node_id t req heq => absurd heq (hexecuted node_id t req),
    fun t req resp heq => absurd heq (hreturned t req resp)⟩

theorem Event.Outside.linearized {event : Event} (houtside : event.Outside) (before : List Event) :
    Linearized router before event := by
  apply linearized_of_ne
  · rintro node_id t req rfl
    exact houtside
  · rintro t req resp rfl
    exact houtside

/-- What each thread is doing is what last happened to it. -/
structure Located (router : Router) (trace : List Event) (s : State) : Prop where
  waiting : ∀ t req, (s.threads t).connection.pc = .executing req → Waiting router trace t req
  served : ∀ t r bytes, (s.threads t).pc = .routing r → (s.threads t).connection.pc = .replying bytes →
    Served router trace t (s.threads t).req
  points : Always (Linearized router) trace

variable {s s' : State} {thread : Thread} {shared : Shared}

theorem located_init : Located router [] (system router).init where
  waiting _ _ hpc := absurd hpc (by simp [system, Thread.connection])
  served _ _ _ hpc := absurd hpc (by simp [system])
  points := always_nil

theorem Located.setThread (hlocated : Located router trace s)
    (hothers : ∀ event ∈ events, ∀ t', t' ≠ t → ¬ event.Concerns router t')
    (hwaiting : ∀ req, thread.connection.pc = .executing req → Waiting router (trace ++ events) t req)
    (hserved : ∀ r bytes, thread.pc = .routing r → thread.connection.pc = .replying bytes →
      Served router (trace ++ events) t thread.req)
    (hpoints : Always (Linearized router) (trace ++ events)) :
    Located router (trace ++ events) { s.setThread t thread with shared } := by
  have hself : ({ s.setThread t thread with shared } : State).threads t = thread := Function.update_self ..
  have hother {t' : Nat} (hne : t' ≠ t) : ({ s.setThread t thread with shared } : State).threads t' = s.threads t' :=
    Function.update_of_ne hne ..
  constructor
  · intro t' req hpc
    by_cases heq : t' = t
    · subst heq
      rw [hself] at hpc
      exact hwaiting req hpc
    · rw [hother heq] at hpc
      exact (hlocated.waiting t' req hpc).append fun event hmem => hothers event hmem t' heq
  · intro t' r bytes hpc hreply
    by_cases heq : t' = t
    · subst heq
      rw [hself] at hpc hreply ⊢
      exact hserved r bytes hpc hreply
    · rw [hother heq] at hpc hreply ⊢
      exact (hlocated.served t' r bytes hpc hreply).append fun event hmem => hothers event hmem t' heq
  · exact hpoints

theorem Located.still (hlocated : Located router trace s) (hthreads : s'.threads = s.threads) :
    Located router (trace ++ []) s' := by
  rw [List.append_nil]
  constructor
  · rw [hthreads]
    exact hlocated.waiting
  · rw [hthreads]
    exact hlocated.served
  · exact hlocated.points

/-- A step of a thread that is not routing and does not start to. -/
theorem Located.quiet (hlocated : Located router trace s) (hpc : ∀ r, thread.pc ≠ .routing r)
    (hevents : ∀ event ∈ events, event.Outside) :
    Located router (trace ++ events) { s.setThread t thread with shared } := by
  apply hlocated.setThread
  · exact fun event hmem t' _ => (hevents event hmem).not_concerns t'
  · intro req hexecuting
    exfalso
    simp only [Thread.connection] at hexecuting
    split at hexecuting <;> first | exact absurd hexecuting (by simp) | exact absurd ‹_› (hpc _)
  · exact fun r _ hrouting => absurd hrouting (hpc r)
  · exact hlocated.points.append fun before event hmem => (hevents event hmem).linearized before

/-- A step within a request that does not show. -/
theorem Located.prepare (hlocated : Located router trace s) {r : Routing} (hpc : (s.threads t).pc = .routing r)
    (hreq : thread.req = (s.threads t).req)
    (hconnection : thread.connection.pc = (s.threads t).connection.pc) :
    Located router (trace ++ []) { s.setThread t thread with shared } := by
  have hsame : trace ++ [] = trace := List.append_nil trace
  apply hlocated.setThread (by simp)
  · intro req hexecuting
    rw [hsame]
    exact hlocated.waiting t req (hconnection ▸ hexecuting)
  · intro _ bytes _ hreply
    rw [hsame, hreq]
    exact hlocated.served t r bytes hpc (hconnection ▸ hreply)
  · rw [hsame]
    exact hlocated.points

theorem Located.invoke (hlocated : Located router trace s) (thread : Thread)
    (hexecuting : thread.connection.pc = .executing thread.req) :
    Located router (trace ++ [.invoked t thread.req]) { s.setThread t thread with shared } := by
  apply hlocated.setThread
  · intro event hmem t' hne
    obtain rfl := List.mem_singleton.mp hmem
    exact Ne.symm hne
  · intro req heq
    obtain rfl := server.Pc.executing.inj (hexecuting.symm.trans heq)
    exact waiting_invoked trace t thread.req
  · intro _ _ _ hreply
    exact absurd (hexecuting.symm.trans hreply) (by simp)
  · exact hlocated.points.snoc (linearized_of_ne (by simp) (by simp) trace)

theorem Located.finish (hlocated : Located router trace s) {r : Routing} {bytes : Bytes} {resp : Response}
    (hpc : (s.threads t).pc = .routing r) (hreply : (s.threads t).connection.pc = .replying bytes) :
    Located router (trace ++ [.returned t (s.threads t).req resp])
      { s.setThread t ((s.threads t).returns resp) with shared } := by
  apply hlocated.setThread
  · intro event hmem t' hne
    obtain rfl := List.mem_singleton.mp hmem
    exact Ne.symm hne
  · exact fun _ hexecuting => absurd hexecuting (by simp [Thread.connection])
  · exact fun _ _ hrouting => absurd hrouting (by simp)
  · apply hlocated.points.snoc
    refine ⟨by simp, fun t' req resp' heq => ?_⟩
    obtain ⟨rfl, rfl, rfl⟩ := Event.returned.inj heq
    exact hlocated.served t r bytes hpc hreply

theorem Located.execute (hlocated : Located router trace s) {r : Routing} (hpc : (s.threads t).pc = .routing r)
    (hreq : thread.req = (s.threads t).req) {node_id bytes : Bytes}
    (hprimary : router.primary (s.threads t).req.key = some node_id →
      (s.threads t).connection.pc = .executing (s.threads t).req)
    (hother : router.primary (s.threads t).req.key ≠ some node_id →
      ∃ bytes, (s.threads t).connection.pc = .replying bytes)
    (hreply : thread.connection.pc = .replying bytes) :
    Located router (trace ++ [.executed node_id t (s.threads t).req]) { s.setThread t thread with shared } := by
  apply hlocated.setThread
  · intro event hmem t' hne
    obtain rfl := List.mem_singleton.mp hmem
    exact fun hconcerns => hne hconcerns.1.symm
  · exact fun _ hexecuting => absurd (hreply.symm.trans hexecuting) (by simp)
  · intro _ _ _ _
    rw [hreq]
    by_cases heq : router.primary (s.threads t).req.key = some node_id
    · exact (hlocated.waiting t _ (hprimary heq)).served heq
    · obtain ⟨bytes, hbytes⟩ := hother heq
      refine (hlocated.served t r bytes hpc hbytes).append fun event hmem hconcerns => heq ?_
      obtain rfl := List.mem_singleton.mp hmem
      exact hconcerns.2
  · apply hlocated.points.snoc
    refine ⟨fun id t' req heq hid => ?_, by simp⟩
    obtain ⟨rfl, rfl, rfl⟩ := Event.executed.inj heq
    exact hlocated.waiting t _ (hprimary hid)

theorem Located.route (hlocated : Located router trace s) {r : Routing}
    (hr : RoutingOk router s.shared.nodes (s.threads t) r) (hstraight : r.Straight (s.threads t).req)
    (hpc : (s.threads t).pc = .routing r) (hmove : CalmMove t (s.threads t) s.shared r thread shared events) :
    Located router (trace ++ events) { s.setThread t thread with shared } := by
  have hquiet := hmove.connection_eq hpc hstraight
  cases hmove with
  | answered => exact hlocated.finish hpc (congrArg server.Connection.pc (hquiet (by simp))).symm
  | read => exact hlocated.finish hpc (congrArg server.Connection.pc (hquiet (by simp))).symm
  | prepared _ _ _ hreq => exact hlocated.prepare hpc hreq (congrArg server.Connection.pc (hquiet (by simp)))
  | wrote => exact hlocated.prepare hpc rfl (congrArg server.Connection.pc (hquiet (by simp)))
  | @executed node_id todo _ htodo hphase hpc' hreq =>
    have hiff := hstraight.primary_iff hr.listed htodo
    cases hsuccess : r.first_success with
    | none =>
      have hexecuting := Thread.connection_executing hpc hsuccess (by simp [hphase])
      exact hlocated.execute hpc hreq (fun _ => hexecuting) (fun hother => absurd (hiff.mpr hsuccess) hother)
        (Thread.connection_await hpc' hsuccess rfl)
    | some resp =>
      have hreply := Thread.connection_answered hpc hsuccess
      refine hlocated.execute hpc hreq (fun hprimary => ?_) (fun _ => ⟨_, hreply⟩)
        (Thread.connection_answered hpc' hsuccess)
      simp [hiff, hsuccess] at hprimary

theorem Located.keep (hled : router.Led) (hknown : router.Known) (hok : Consistent router s) (hcalm : Calm s)
    (hlocated : Located router trace s) {label : Label} (hlabel : NoFailure label)
    (hmove : SystemStep router s label s' events) : Located router (trace ++ events) s' := by
  cases hmove with
  | received => exact hlocated.quiet (by simp) (by simp [Event.Outside])
  | closed => exact hlocated.quiet (by simp) (by simp)
  | lost _ _ _ hconn hbroken => simp [hcalm.connected hok hconn] at hbroken
  | swept => exact hlocated.still rfl
  | pinging => exact hlocated.still rfl
  | pinged => exact hlocated.still rfl
  | marked => exact hlocated.still rfl
  | crashed => exact absurd hlabel (by simp [NoFailure])
  | restarted => exact absurd hlabel (by simp [NoFailure])
  | @moved t thread shared events hmove =>
    cases hmove with
    | drained => exact hlocated.quiet (by simp) (by simp)
    | rejected => exact hlocated.quiet (by simp) (by simp)
    | pinged => exact hlocated.quiet (by simp) (by simp)
    | replied => exact hlocated.quiet (by simp) (by simp [Event.Outside])
    | @invoked req parser ids =>
      exact hlocated.invoke
        { s.threads t with pc := .routing { preference_list := ids, todo := ids }, parser, req } rfl
    | @routed r _ _ _ hpc hroute =>
      have hmove := hcalm.move hled hknown hok hpc hroute
      exact hlocated.route ((hok.threads t).routing r hpc) (hcalm.straight t r hpc) hpc hmove

end kv.router
