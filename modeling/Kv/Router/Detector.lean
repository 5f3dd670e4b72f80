import Kv.Router.Restarts

namespace kv.router

open kv.protocol Transition

/-- A step of the router, with the states before and after it. -/
abbrev Taken := Transition.Step State Label Event

/-- The node for which a request thread calls `mark_down` in this step, after a
    forward to it has failed. -/
def markedDown (step : Taken) : Option Bytes :=
  match step.label with
  | .step t =>
    match (step.before.threads t).pc with
    | .routing r => if r.phase = .failed then r.todo.head? else none
    | _ => none
  | _ => none

/-- The heartbeat thread starts a ping to the node. -/
def startsPing (node_id : Bytes) (step : Taken) : Bool :=
  match step.label, step.before.heartbeat with
  | .heartbeat, .sweeping (addr :: _) => addr.id = node_id
  | _, _ => false

/-- A ping to the node succeeds. -/
def pingSucceeds (node_id : Bytes) (step : Taken) : Bool :=
  match step.label, step.before.heartbeat with
  | .heartbeat, .pinging addr _ => addr.id = node_id ∧ (step.before.shared.nodes addr.id).ping_once
  | _, _ => false

/-- A ping to the node has been started and has succeeded in these steps. -/
def Recovered (node_id : Bytes) (log : List Taken) : Prop :=
  ∃ earlier start between success later, log = earlier ++ start :: between ++ success :: later ∧
    startsPing node_id start ∧ pingSucceeds node_id success

/-- A ping to the node is in progress, or has succeeded with the flag not
    written yet. -/
def Heartbeat.concerns (node_id : Bytes) : Heartbeat → Bool
  | .sweeping _ => false
  | .pinging addr _ => addr.id = node_id
  | .marking addr up _ => addr.id = node_id ∧ up

/-- No request thread marks a node down while a ping to it is under way. -/
def undisturbed (step : Taken) : Bool :=
  match markedDown step with
  | none => true
  | some node_id => !step.before.heartbeat.concerns node_id

/-- What keeps a node flagged down: no verdict in its favour is about to be
    written, and a ping under way was started in these steps. -/
structure StaysDown (node_id : Bytes) (log : List Taken) (s : State) : Prop where
  flag : s.shared.is_alive node_id = false
  verdict : ∀ addr todo, s.heartbeat = .marking addr true todo → addr.id ≠ node_id
  started : ∀ addr todo, s.heartbeat = .pinging addr todo → addr.id = node_id → ∃ start ∈ log, startsPing node_id start

variable {router : Router} {s s' : State} {label : Label} {events : List Event} {node_id : Bytes} {log : List Taken}

theorem Recovered.append (hrecovered : Recovered node_id log) (more : List Taken) :
    Recovered node_id (log ++ more) := by
  obtain ⟨earlier, start, between, success, later, rfl, hstart, hsuccess⟩ := hrecovered
  exact ⟨earlier, start, between, success, later ++ more, by simp, hstart, hsuccess⟩

theorem StaysDown.of_heartbeat (hdown : StaysDown node_id log s) (hheartbeat : s'.heartbeat = s.heartbeat)
    (hflag : s'.shared.is_alive node_id = false) (more : List Taken) : StaysDown node_id (log ++ more) s' where
  flag := hflag
  verdict addr todo hmarking := hdown.verdict addr todo (hheartbeat ▸ hmarking)
  started addr todo hpinging haddr := by
    obtain ⟨start, hmem, hstart⟩ := hdown.started addr todo (hheartbeat ▸ hpinging) haddr
    exact ⟨start, List.mem_append_left _ hmem, hstart⟩

/-- One step: the node stays down, or a ping that was started meanwhile has
    succeeded. -/
theorem StaysDown.step (hdown : StaysDown node_id log s) (hstep : SystemStep router s label s' events) :
    Recovered node_id (log ++ [⟨s, label, events, s'⟩]) ∨ StaysDown node_id (log ++ [⟨s, label, events, s'⟩]) s' := by
  have hsame {s' : State} {more : List Taken} (hheartbeat : s'.heartbeat = s.heartbeat)
      (halive : s'.shared.alive_ = s.shared.alive_) : StaysDown node_id (log ++ more) s' := by
    refine hdown.of_heartbeat hheartbeat ?_ more
    rw [Shared.is_alive, halive]
    exact hdown.flag
  cases hstep with
  | received => exact .inr (hsame (by rfl) (by rfl))
  | closed => exact .inr (hsame (by rfl) (by rfl))
  | lost => exact .inr (hsame (by rfl) (by rfl))
  | crashed => exact .inr (hsame (by rfl) (by rfl))
  | restarted => exact .inr (hsame (by rfl) (by rfl))
  | moved htaken =>
    rcases htaken.shared_cases with rfl | ⟨other, rfl⟩ | ⟨other, rfl, -⟩
    · exact .inr (hsame (by rfl) (by rfl))
    · exact .inr (hdown.of_heartbeat (by rfl) (by simp [Shared.is_alive_mark, hdown.flag]) _)
    · exact .inr (hsame (by rfl) (by rfl))
  | swept => exact .inr ⟨hdown.flag, by simp, by simp⟩
  | @pinging addr todo hheartbeat =>
    refine .inr ⟨hdown.flag, by simp, ?_⟩
    rintro addr' todo' hpinging rfl
    obtain ⟨rfl, rfl⟩ := Heartbeat.pinging.inj hpinging
    exact ⟨_, List.mem_append_right _ (List.mem_singleton_self _), by simp [startsPing, hheartbeat]⟩
  | @pinged addr todo hheartbeat =>
    by_cases hsuccess : addr.id = node_id ∧ (s.shared.nodes addr.id).up = true
    · obtain ⟨start, hmem, hstart⟩ := hdown.started addr todo hheartbeat hsuccess.1
      obtain ⟨earlier, between, rfl⟩ := List.append_of_mem hmem
      refine .inl ⟨earlier, start, between, _, [], rfl, hstart, ?_⟩
      simp [pingSucceeds, hheartbeat, hsuccess.1, Node.ping_once_eq, ← hsuccess.2]
    · refine .inr ⟨hdown.flag, ?_, by simp⟩
      rintro addr' todo' hmarking rfl
      obtain ⟨rfl, hup, rfl⟩ := Heartbeat.marking.inj hmarking
      exact hsuccess ⟨rfl, hup⟩
  | @marked addr up todo hheartbeat =>
    have hverdict (hup : up = true) : node_id ≠ addr.id := by
      subst hup
      exact (hdown.verdict addr todo hheartbeat).symm
    refine .inr ⟨?_, by simp, by simp⟩
    rw [Shared.is_alive_mark]
    split
    · next heq => simpa using fun hup => hverdict hup heq
    · exact hdown.flag

theorem markedDown_cases {step : Taken} (hmarks : markedDown step = some node_id) :
    ∃ t r todo, step.label = .step t ∧ (step.before.threads t).pc = .routing r ∧ r.todo = node_id :: todo ∧
      r.phase = .failed := by
  unfold markedDown at hmarks
  split at hmarks
  · rename_i t hlabel
    split at hmarks
    · rename_i r hpc
      split at hmarks
      · rename_i hphase
        obtain ⟨todo, htodo⟩ := List.head?_eq_some_iff.mp hmarks
        exact ⟨t, r, todo, hlabel, hpc, htodo, hphase⟩
      · simp at hmarks
    · simp at hmarks
  · simp at hmarks

theorem staysDown_of_markedDown (hstep : SystemStep router s label s' events)
    (hmarks : markedDown ⟨s, label, events, s'⟩ = some node_id) (hfree : undisturbed ⟨s, label, events, s'⟩) :
    StaysDown node_id [] s' := by
  have hidle : s.heartbeat.concerns node_id = false := by simpa [undisturbed, hmarks] using hfree
  obtain ⟨t, r, todo, rfl, hpc, htodo, hphase⟩ := markedDown_cases hmarks
  cases hstep with
  | moved htaken =>
    cases htaken.route hpc with
    | marked htodo' =>
      obtain ⟨rfl, -⟩ := List.cons.inj (htodo.symm.trans htodo')
      refine ⟨by simp [Shared.is_alive_mark], ?_, ?_⟩
      · intro addr todo hmarking
        simpa [Heartbeat.concerns, show s.heartbeat = _ from hmarking] using hidle
      · intro addr todo hpinging haddr
        simp [Heartbeat.concerns, show s.heartbeat = _ from hpinging, haddr] at hidle
    | exhausted htodo' => simp [htodo] at htodo'
    | skipped _ hphase' => simp [hphase] at hphase'
    | chosen _ hphase' => simp [hphase] at hphase'
    | cached _ hphase' => simp [hphase] at hphase'
    | opened _ hphase' => simp [hphase] at hphase'
    | refused _ hphase' => simp [hphase] at hphase'
    | broken _ hphase' => simp [hphase] at hphase'
    | executed _ hphase' => simp [hphase] at hphase'
    | read _ hphase' => simp [hphase] at hphase'
    | wrote _ hphase' => simp [hphase] at hphase'

/-- Reactive marking lasts. In every run of a router in which no request thread
    marks a node down while a ping to it is under way, a node that was marked
    down stays flagged down until a ping started after that has succeeded. -/
theorem mark_down_lasts {nodes : List NodeAddress} {vnodes replicas : Nat} {log : List Taken} {final : State}
    (hrun : Run (system (Router.create nodes vnodes replicas)).logged (fun _ => True)
      (system (Router.create nodes vnodes replicas)).init log final)
    (hlog : ∀ step ∈ log, undisturbed step) {before after : List Taken} {mark : Taken}
    (hsplit : log = before ++ mark :: after) {node_id : Bytes} (hmarks : markedDown mark = some node_id) :
    Recovered node_id after ∨ final.shared.is_alive node_id = false := by
  let router := Router.create nodes vnodes replicas
  have hinv : Sane router final ∧ ∀ before mark after, log = before ++ mark :: after →
      ∀ node_id, markedDown mark = some node_id → Recovered node_id after ∨ StaysDown node_id after final := by
    refine hrun.logged_invariant (G := fun step => undisturbed step)
      (I := fun log s => Sane router s ∧ ∀ before mark after,
      log = before ++ mark :: after → ∀ node_id, markedDown mark = some node_id →
        Recovered node_id after ∨ StaysDown node_id after s) ⟨sane_init, by simp⟩ ?_ hlog
    rintro log s label s' events ⟨hsane, hdown⟩ - hfree htaken
    have hstep := hsane.step Router.known_create htaken
    refine ⟨hsane.keep hstep, ?_⟩
    intro before mark after hsplit node_id hmarks
    rcases snoc_eq_append_cons hsplit with ⟨rfl, -, rfl⟩ | ⟨after', rfl, hold⟩
    · exact .inr (staysDown_of_markedDown hstep hmarks hfree)
    · rcases hdown before mark after' hold node_id hmarks with hrecovered | hstays
      · exact .inl (hrecovered.append _)
      · exact hstays.step hstep
  rcases hinv.2 before mark after hsplit node_id hmarks with hrecovered | hstays
  · exact .inl hrecovered
  · exact .inr hstays.flag

/-- The only node crashes. A request finds out and marks it down, and the
    heartbeat agrees in its next sweep. -/
theorem mark_down_lasts_example :
    let router := Router.create [⟨ascii "a", 1⟩] 1 1
    ∃ before mark after final,
      Run (system router).logged (fun _ => True) (system router).init (before ++ mark :: after) final ∧
      (∀ step ∈ before ++ mark :: after, undisturbed step) ∧ markedDown mark = some (ascii "a:1") ∧
      after.length = 4 ∧ (Recovered (ascii "a:1") after ∨ final.shared.is_alive (ascii "a:1") = false) := by
  intro router
  let check (before : List Taken) (mark : Taken) (after : List Taken) (_ : State) : Bool :=
    (before ++ mark :: after).all undisturbed && markedDown mark = some (ascii "a:1") && after.length = 4
  obtain ⟨before, mark, after, final, hrun, hcheck⟩ : ∃ before mark after final,
      Run (system router).logged (fun _ => True) (system router).init (before ++ mark :: after) final ∧
      check before mark after final := by
    refine Run.exists_split_of_exec ([Label.crash (ascii "a:1"), .recv 0 (ascii "GET k" ++ [LF])] ++
      List.replicate 4 (Label.step 0) ++ List.replicate 4 Label.heartbeat) 5 check (fun _ _ => trivial) ?_
    decide +kernel
  simp only [check, Bool.and_eq_true, List.all_eq_true, decide_eq_true_eq] at hcheck
  obtain ⟨⟨hlog, hmarks⟩, hlength⟩ := hcheck
  exact ⟨before, mark, after, final, hrun, hlog, hmarks, hlength, mark_down_lasts hrun hlog rfl hmarks⟩

theorem Recovered.two_le_length (hrecovered : Recovered node_id log) : 2 ≤ log.length := by
  obtain ⟨earlier, start, between, success, later, rfl, -⟩ := hrecovered
  simp only [List.length_append, List.length_cons]
  omega

/-- A stale heartbeat undoes the marking. The heartbeat has the answer of a
    node that crashes before the answer is written down. A request finds the
    node down and marks it; then the heartbeat writes its old verdict, and the
    next requests try a node that is down. -/
theorem mark_down_undone :
    let router := Router.create [⟨ascii "a", 1⟩] 1 1
    ∃ before mark after final,
      Run (system router).logged (fun _ => True) (system router).init (before ++ mark :: after) final ∧
      markedDown mark = some (ascii "a:1") ∧ ¬ Recovered (ascii "a:1") after ∧
      final.shared.is_alive (ascii "a:1") = true ∧ (final.shared.nodes (ascii "a:1")).up = false := by
  intro router
  let check (_ : List Taken) (mark : Taken) (after : List Taken) (final : State) : Bool :=
    markedDown mark = some (ascii "a:1") && after.length = 1 && final.shared.is_alive (ascii "a:1") &&
      !(final.shared.nodes (ascii "a:1")).up
  obtain ⟨before, mark, after, final, hrun, hcheck⟩ : ∃ before mark after final,
      Run (system router).logged (fun _ => True) (system router).init (before ++ mark :: after) final ∧
      check before mark after final := by
    refine Run.exists_split_of_exec (List.replicate 3 Label.heartbeat ++
      [Label.crash (ascii "a:1"), .recv 0 (ascii "GET k" ++ [LF])] ++ List.replicate 4 (Label.step 0) ++
      [Label.heartbeat]) 8 check (fun _ _ => trivial) ?_
    decide +kernel
  simp only [check, Bool.and_eq_true, decide_eq_true_eq, Bool.not_eq_true'] at hcheck
  obtain ⟨⟨⟨hmarks, hlength⟩, halive⟩, hdown⟩ := hcheck
  refine ⟨before, mark, after, final, hrun, hmarks, ?_, halive, hdown⟩
  intro hrecovered
  have htwo := hrecovered.two_le_length
  omega

end kv.router
