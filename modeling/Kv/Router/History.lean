import Kv.Router.CrashStop

namespace kv

open kv.protocol

/-- A plain map after some requests. -/
def PlainMap.after (reqs : List Request) : PlainMap :=
  reqs.foldl (fun map req => (map.handle_request req).2) fun _ => none

theorem PlainMap.after_snoc (reqs : List Request) (req : Request) (key : Bytes) :
    PlainMap.after (reqs ++ [req]) key =
      if key = req.key then result req (PlainMap.after reqs req.key) else PlainMap.after reqs key := by
  simp [after, handle_request, Function.update_apply]

end kv

namespace kv.router

open kv.protocol Transition

def Event.follow (t : Nat) (current : Option Request) : Event → Option Request
  | .invoked t' req => if t' = t then some req else current
  | .returned t' _ _ => if t' = t then none else current
  | _ => current

/-- The request that a thread is routing after these events, if any. -/
def pending (trace : List Event) (t : Nat) : Option Request := trace.foldl (Event.follow t) none

/-- The requests on a key that `route_read` or `route_write` has returned from. -/
def completed (trace : List Event) (key : Bytes) : List Request :=
  trace.filterMap fun event =>
    match event with
    | .returned _ req _ => if req.key = key then some req else none
    | _ => none

/-- What a plain map holds for a key after the completed requests on it. -/
def held (trace : List Event) (key : Bytes) : Option Bytes := PlainMap.after (completed trace key) key

/-- Requests for the same key do not overlap. -/
def SameKeyDisjoint (trace : List Event) : Prop :=
  Always (fun before event => ∀ t req, event = .invoked t req →
    ∀ t' req', pending before t' = some req' → req'.key ≠ req.key) trace

/-- The request a thread is routing. -/
def Thread.routed (self : Thread) : Option Request :=
  match self.pc with
  | .routing _ => some self.req
  | _ => none

theorem Thread.routed_of_pc {thread : Thread} {r : Routing} (hpc : thread.pc = .routing r) :
    thread.routed = some thread.req := by
  simp [routed, hpc]

theorem Thread.pc_ne_of_routed {thread : Thread} (hrouted : thread.routed = none) (r : Routing) :
    thread.pc ≠ .routing r := by
  intro hpc
  simp [routed, hpc] at hrouted

theorem pending_append (trace events : List Event) (t : Nat) :
    pending (trace ++ events) t = events.foldl (Event.follow t) (pending trace t) := by
  rw [pending, List.foldl_append]
  rfl

theorem pending_of_not_invoked {trace : List Event} {t : Nat} (hnever : ∀ req, Event.invoked t req ∉ trace) :
    pending trace t = none := by
  induction trace using List.reverseRecOn with
  | nil => rfl
  | append_singleton trace event ih =>
    have hbefore := ih fun req hmem => hnever req (List.mem_append_left _ hmem)
    rw [pending_append, hbefore]
    cases event with
    | invoked t' req =>
      have hne : t' ≠ t := by
        rintro rfl
        exact hnever req (by simp)
      simp [Event.follow, hne]
    | returned => simp [Event.follow]
    | _ => rfl

theorem completed_append (trace events : List Event) (key : Bytes) :
    completed (trace ++ events) key = completed trace key ++ completed events key := by
  rw [completed, List.filterMap_append]
  rfl

theorem held_returned (trace : List Event) (t : Nat) (req : Request) (resp : Response) (key : Bytes) :
    held (trace ++ [.returned t req resp]) key =
      if req.key = key then result req (held trace key) else held trace key := by
  rw [held, completed_append]
  by_cases hkey : req.key = key
  · subst hkey
    have hlast : completed [.returned t req resp] req.key = [req] := by simp [completed]
    rw [hlast, if_pos rfl, PlainMap.after_snoc, if_pos rfl]
    rfl
  · have hlast : completed [.returned t req resp] key = [] := by simp [completed, hkey]
    rw [hlast, List.append_nil, if_neg hkey]
    rfl

/-- An event that neither starts nor ends a request. -/
def Event.Silent : Event → Prop
  | .invoked _ _ => False
  | .returned _ _ _ => False
  | _ => True

theorem held_silent {events : List Event} (hsilent : ∀ event ∈ events, event.Silent) (trace : List Event)
    (key : Bytes) :
    held (trace ++ events) key = held trace key := by
  have hnone : completed events key = [] := by
    rw [completed, List.filterMap_eq_nil_iff]
    intro event hmem
    have hevent := hsilent event hmem
    cases event with
    | returned => exact absurd hevent (by simp [Event.Silent])
    | _ => rfl
  rw [held, completed_append, hnone, List.append_nil]
  rfl

theorem held_invoked (trace : List Event) (t : Nat) (req : Request) (key : Bytes) :
    held (trace ++ [.invoked t req]) key = held trace key := by
  rw [held, completed_append]
  simp [completed, held]

theorem SameKeyDisjoint.append_silent {trace events : List Event} (hall : SameKeyDisjoint trace)
    (hevents : ∀ event ∈ events, ∀ t req, event ≠ .invoked t req) : SameKeyDisjoint (trace ++ events) :=
  hall.append fun _ event hmem t req heq => absurd heq (hevents event hmem t req)

theorem SameKeyDisjoint.append_invoked {trace : List Event} (hall : SameKeyDisjoint trace) (t : Nat) (req : Request)
    (hfree : ∀ t', pending trace t' = none) : SameKeyDisjoint (trace ++ [.invoked t req]) := by
  apply Always.snoc hall
  intro _ _ _ t' req' hpending
  simp [hfree t'] at hpending

section

variable {router : Router} {t : Nat} {thread thread' : Thread} {shared shared' : Shared} {trace events : List Event}
  {s s' : State} {label : Label}

theorem ThreadStep.follow (hmove : ThreadStep router t thread shared thread' shared' events) :
    events.foldl (Event.follow t) thread.routed = thread'.routed := by
  cases hmove with
  | drained hpc => simp [Thread.routed, hpc]
  | rejected hpc => simp [Thread.routed, hpc]
  | pinged hpc => simp [Thread.routed, hpc]
  | invoked => simp [Thread.routed, Event.follow]
  | replied hpc => simp [Thread.routed, hpc, Event.follow]
  | routed hpc hroute =>
    rw [Thread.routed_of_pc hpc]
    cases hroute <;> simp [Thread.routed, Event.follow]

theorem ThreadStep.follow_other (hmove : ThreadStep router t thread shared thread' shared' events) {t' : Nat}
    (hne : t ≠ t')
    (current : Option Request) : events.foldl (Event.follow t') current = current := by
  cases hmove with
  | invoked => simp [Event.follow, hne]
  | routed hpc hroute => cases hroute <;> simp [Event.follow, hne]
  | _ => rfl

theorem pending_setThread (hpending : ∀ t, pending trace t = (s.threads t).routed)
    (hself : events.foldl (Event.follow t) (s.threads t).routed = thread.routed)
    (hothers : ∀ t', t ≠ t' → ∀ current, events.foldl (Event.follow t') current = current) (t' : Nat) :
    pending (trace ++ events) t' = ((s.setThread t thread).threads t').routed := by
  rw [pending_append, hpending, setThread_threads]
  by_cases heq : t' = t
  · subst heq
    rw [Function.update_self, hself]
  · rw [Function.update_of_ne heq, hothers t' (Ne.symm heq)]

/-- The requests that are pending are those that the threads are routing. -/
theorem SystemStep.pending (hmove : SystemStep router s label s' events)
    (hpending : ∀ t, kv.router.pending trace t = (s.threads t).routed) (t : Nat) :
    kv.router.pending (trace ++ events) t = (s'.threads t).routed := by
  cases hmove with
  | received hpc => exact pending_setThread hpending (by simp [Thread.routed, hpc, Event.follow]) (fun _ _ _ => rfl) t
  | closed hpc => exact pending_setThread hpending (by simp [Thread.routed, hpc]) (fun _ _ _ => rfl) t
  | lost hpc => exact pending_setThread hpending (by simp [Thread.routed, hpc]) (fun _ _ _ => rfl) t
  | moved hmove => exact pending_setThread hpending hmove.follow (fun _ hne => hmove.follow_other hne) t
  | _ =>
    rw [pending_append]
    exact hpending t

end

end kv.router
