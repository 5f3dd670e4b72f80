import Kv.Router.Heartbeat
import Kv.Router.PingOnce
import Kv.Router.Steps

namespace kv.router

open kv.protocol kv.detector Transition

/-- How the calls of `ping_once` come out at a node. One that is down does not
    accept the connection; one that is up takes the request and sends its reply,
    which the reads deliver in any pieces. -/
inductive Reaches (node : Node) : Except Bytes Unit → Except Bytes Unit → List Syscall → (Nat → Bytes) → Prop
  | down {what : Bytes} {timeouts : Except Bytes Unit} {writes : List Syscall} {peer : Nat → Bytes}
      (hdown : node.up = false) : Reaches node (.error what) timeouts writes peer
  | up {writes : List Syscall} {peer : Nat → Bytes} {bytes : Bytes} {parser : IncrementalParser}
      {store : KVStore} {n : Nat} (hup : node.up = true)
      (hwrite : (write_loop (fun _ => ascii "failed to write request") writes (encode_request ⟨.Ping, [], []⟩)).1 =
        .ok ())
      (hserved : service_client KVStore.handle_request {} (encode_request ⟨.Ping, [], []⟩) node.store =
        some (bytes, parser, store))
      (harrived : arrived n peer = bytes) : Reaches node (.ok ()) (.ok ()) writes peer

/-- `ping_once` with its reads and writes comes to the same as in one piece. -/
theorem ping_once_node {node : Node} {connected timeouts : Except Bytes Unit} {writes : List Syscall}
    {peer : Nat → Bytes}
    (hreaches : Reaches node connected timeouts writes peer) {fuel : Nat} (hfuel : kMaxPending + 1 < fuel) :
    ∃ reads, detector.ping_once fuel connected timeouts writes peer = some (node.ping_once, reads) := by
  rw [Node.ping_once_eq]
  cases hreaches with
  | down hdown =>
    rw [hdown]
    exact ⟨0, rfl⟩
  | @up _ _ bytes _ _ n hup hwrite hserved harrived =>
    obtain ⟨parser, hservice, _⟩ := service_client_encode_request KVStore.handle_request
      (show ({} : IncrementalParser).buffer_ = [] from rfl) (show Request.WellFormed ⟨.Ping, [], []⟩ from ⟨rfl, rfl⟩)
      node.store
    have hbytes : encode_pong_response = bytes :=
      (Prod.mk.inj (Option.some.inj (hservice.symm.trans hserved))).1
    have hpong : PongFirst (arrived n peer) := by
      rw [harrived, ← hbytes]
      exact .inl List.prefix_rfl
    obtain ⟨outcome, reads, hloop, hheard⟩ := exists_read_loop (kMaxPending + 1) peer {} ⟨.Ok, [], []⟩
      (Nat.sub_le ..)
    obtain ⟨resp, rfl, htype⟩ := hheard.pong.mpr ⟨n, hpong⟩
    refine ⟨reads, ?_⟩
    rcases hwritten : write_loop (fun _ => ascii "failed to write request") writes
      (encode_request ⟨.Ping, [], []⟩) with
      ⟨written, wire, left⟩
    obtain rfl : written = .ok () := by
      rw [hwritten] at hwrite
      exact hwrite
    simp [detector.ping_once, stream.send_request, hwritten, hloop fuel hfuel, htype, hup]

/-- Where the thread of the detector stands in its sweep, without the tests of
    `running_` and the sleep. -/
def sweepOf : detector.Pc → Heartbeat
  | .top | .sleeping | .ended => .sweeping []
  | .sweep todo => .sweeping todo
  | .tested addr todo => .sweeping (addr :: todo)
  | .pinging addr todo => .pinging addr todo
  | .marking addr up todo => .marking addr up todo

/-- What a ping in progress finds. -/
def pings (nodes : Bytes → Node) : detector.Pc → Bool
  | .pinging addr _ => (nodes addr.id).ping_once
  | _ => false

/-- The router with its `FailureDetector`, in which the flags are, and its nodes. -/
structure Watched where
  failure_detector_ : FailureDetector
  threads : Nat → Thread := fun _ => {}
  nodes : Bytes → Node := fun _ => {}

/-- The router as its client threads see it. -/
def Watched.state (self : Watched) : State where
  threads := self.threads
  shared := { alive_ := self.failure_detector_.alive_, nodes := self.nodes }
  heartbeat := sweepOf (self.failure_detector_.thread_.getD .top)

/-- A step of the detector's thread, or of anybody else. -/
def Watched.step (router : Router) (self : Watched) (label : Label) : Option (Watched × List Event) :=
  match label with
  | .heartbeat =>
    let up := pings self.nodes (self.failure_detector_.thread_.getD .top)
    (self.failure_detector_.step (.beat up)).map fun beaten => ({ self with failure_detector_ := beaten.1 }, [])
  | _ =>
    (kv.router.step router self.state label).map fun taken =>
      ({ failure_detector_ := { self.failure_detector_ with alive_ := taken.1.shared.alive_ }
         threads := taken.1.threads
         nodes := taken.1.shared.nodes }, taken.2)

/-- The detector of a router that is constructed: it has been started. -/
def started (nodes : List NodeAddress) : FailureDetector :=
  { FailureDetector.create nodes with running_ := true, thread_ := some .top }

def watched (router : Router) : System Watched Label Event where
  init := { failure_detector_ := started router.nodes_ }
  step := Watched.step router

/-- A detector that nobody stops. -/
structure Watches (router : Router) (d : FailureDetector) : Prop where
  nodes : d.nodes_ = router.nodes_
  running : d.running_ = true
  thread : ∃ pc, d.thread_ = some pc ∧ pc ≠ .ended
  terminated : d.terminated = false

section

variable {router : Router} {self next : Watched} {label : Label} {events : List Event}

theorem watches_started (router : Router) : Watches router (started router.nodes_) :=
  ⟨rfl, rfl, ⟨.top, rfl, by simp⟩, rfl⟩

theorem Watches.flag {d : FailureDetector} (h : Watches router d) (alive_ : Liveness) :
    Watches router { d with alive_ } :=
  ⟨h.nodes, h.running, h.thread, h.terminated⟩

/-- A step of `heartbeat_loop` is one of the sweep, or none. -/
theorem heartbeat_loop_sweep {d d' : FailureDetector} {pc pc' : detector.Pc} {shown : List detector.Event}
    (hnodes : d.nodes_ = router.nodes_) (hrunning : d.running_ = true) {nodes : Bytes → Node}
    (hloop : d.heartbeat_loop (pings nodes pc) pc = some (d', pc', shown)) :
    (∃ alive_, d' = { d with alive_ }) ∧ pc' ≠ .ended ∧
      ((sweepOf pc' = sweepOf pc ∧ d' = d) ∨
        (sweepOf pc).step router { alive_ := d.alive_, nodes } =
          (sweepOf pc', { alive_ := d'.alive_, nodes })) := by
  have hsame : ∃ alive_, d = { d with alive_ } := ⟨_, rfl⟩
  cases pc with
  | ended => simp [FailureDetector.heartbeat_loop] at hloop
  | top =>
    simp only [FailureDetector.heartbeat_loop, hrunning, if_true, Option.some.injEq, Prod.mk.injEq] at hloop
    obtain ⟨rfl, rfl, rfl⟩ := hloop
    exact ⟨hsame, by simp, .inr (by simp [sweepOf, Heartbeat.step, hnodes])⟩
  | sweep todo =>
    cases todo with
    | nil =>
      simp only [FailureDetector.heartbeat_loop, Option.some.injEq, Prod.mk.injEq] at hloop
      obtain ⟨rfl, rfl, rfl⟩ := hloop
      exact ⟨hsame, by simp, .inl ⟨rfl, rfl⟩⟩
    | cons addr todo =>
      simp only [FailureDetector.heartbeat_loop, hrunning, if_true, Option.some.injEq, Prod.mk.injEq] at hloop
      obtain ⟨rfl, rfl, rfl⟩ := hloop
      exact ⟨hsame, by simp, .inl ⟨rfl, rfl⟩⟩
  | sleeping =>
    obtain ⟨rfl, rfl, rfl⟩ : _ ∧ _ ∧ _ := by simpa [FailureDetector.heartbeat_loop] using hloop
    exact ⟨hsame, by simp, .inl ⟨rfl, rfl⟩⟩
  | tested addr todo =>
    obtain ⟨rfl, rfl, rfl⟩ : _ ∧ _ ∧ _ := by simpa [FailureDetector.heartbeat_loop] using hloop
    exact ⟨hsame, by simp, .inr rfl⟩
  | pinging addr todo =>
    obtain ⟨rfl, rfl, rfl⟩ : _ ∧ _ ∧ _ := by simpa [FailureDetector.heartbeat_loop] using hloop
    exact ⟨hsame, by simp, .inr rfl⟩
  | marking addr up todo =>
    obtain ⟨rfl, rfl, rfl⟩ : _ ∧ _ ∧ _ := by simpa [FailureDetector.heartbeat_loop] using hloop
    exact ⟨⟨_, rfl⟩, by simp, .inr rfl⟩

/-- The detector's thread takes a step of its sweep, or one that nobody sees. -/
theorem Watches.beat (h : Watches router self.failure_detector_)
    (hstep : self.step router .heartbeat = some (next, events)) :
    Watches router next.failure_detector_ ∧ events = [] ∧
      (next.state = self.state ∨ step router self.state .heartbeat = some (next.state, [])) := by
  obtain ⟨hnodes, hrunning, ⟨pc, hpc, _⟩, hterminated⟩ := h
  simp only [Watched.step, hpc, Option.getD_some] at hstep
  obtain ⟨⟨beaten, shown⟩, hbeat, hnext⟩ := Option.map_eq_some_iff.mp hstep
  obtain ⟨rfl, rfl⟩ := Prod.mk.inj hnext
  simp only [FailureDetector.step, hterminated, hpc] at hbeat
  obtain ⟨⟨d, pc', shown'⟩, hloop, hbeaten⟩ := Option.map_eq_some_iff.mp hbeat
  obtain ⟨rfl, rfl⟩ := Prod.mk.inj hbeaten
  obtain ⟨⟨alive_, halive⟩, hgoing, hsweep⟩ := heartbeat_loop_sweep hnodes hrunning hloop
  refine ⟨?_, rfl, ?_⟩
  · rw [halive]
    exact ⟨hnodes, hrunning, ⟨pc', rfl, hgoing⟩, hterminated⟩
  · rcases hsweep with ⟨hsweep, rfl⟩ | hsweep
    · exact .inl (by simp [Watched.state, hpc, hsweep])
    · exact .inr (by simp [Watched.state, step, hpc, hsweep])

/-- What a thread does to the flags is a `mark_down`. -/
theorem Thread.step_flags {t : Nat} {thread thread' : Thread} {shared shared' : Shared}
    (hstep : thread.step router t shared = some (thread', shared', events)) :
    shared'.alive_ = shared.alive_ ∨ ∃ id, shared'.alive_ = shared.alive_.mark id false := by
  unfold Thread.step at hstep
  split at hstep
  · simp at hstep
  · obtain ⟨_, _, htaken⟩ := Option.map_eq_some_iff.mp hstep
    obtain ⟨-, rfl, -⟩ : _ ∧ _ ∧ _ := by simpa only [Prod.mk.injEq] using htaken
    exact .inl rfl
  · next r _ =>
    unfold Thread.route at hstep
    split at hstep
    · obtain ⟨-, rfl, -⟩ : _ ∧ _ ∧ _ := by simpa only [Option.some.injEq, Prod.mk.injEq] using hstep
      exact .inl rfl
    · next node_id todo _ =>
      split at hstep
      · split at hstep
        all_goals
          obtain ⟨-, rfl, -⟩ : _ ∧ _ ∧ _ := by simpa only [Option.some.injEq, Prod.mk.injEq] using hstep
          exact .inl rfl
      · obtain ⟨-, rfl, -⟩ : _ ∧ _ ∧ _ := by simpa only [Option.some.injEq, Prod.mk.injEq] using hstep
        exact .inl rfl
      · unfold Thread.forward at hstep
        split at hstep
        · simp at hstep
        · split at hstep
          · split at hstep
            · simp at hstep
            · obtain ⟨-, rfl, -⟩ : _ ∧ _ ∧ _ := by simpa only [Option.some.injEq, Prod.mk.injEq] using hstep
              exact .inl rfl
          · obtain ⟨-, rfl, -⟩ : _ ∧ _ ∧ _ := by simpa only [Option.some.injEq, Prod.mk.injEq] using hstep
            exact .inl rfl
      · obtain ⟨_, _, htaken⟩ := Option.map_eq_some_iff.mp hstep
        obtain ⟨-, rfl, -⟩ : _ ∧ _ ∧ _ := by simpa only [Prod.mk.injEq] using htaken
        exact .inl rfl
      · obtain ⟨-, rfl, -⟩ : _ ∧ _ ∧ _ := by simpa only [Option.some.injEq, Prod.mk.injEq] using hstep
        exact .inr ⟨node_id, rfl⟩
  · obtain ⟨-, rfl, -⟩ : _ ∧ _ ∧ _ := by simpa only [Option.some.injEq, Prod.mk.injEq] using hstep
    exact .inl rfl
  · simp at hstep

/-- Nobody else moves the heartbeat, and what a thread does to the flags is a
    `mark_down`. -/
theorem step_flags {s s' : State} (hlabel : label ≠ .heartbeat) (hstep : step router s label = some (s', events)) :
    s'.heartbeat = s.heartbeat ∧
      (s'.shared.alive_ = s.shared.alive_ ∨ ∃ id, s'.shared.alive_ = s.shared.alive_.mark id false) := by
  cases label with
  | heartbeat => exact absurd rfl hlabel
  | crash node_id | restart node_id =>
    obtain ⟨rfl, rfl⟩ := Prod.mk.inj (Option.some.inj hstep)
    exact ⟨rfl, .inl rfl⟩
  | recv | hangup | lose =>
    obtain ⟨_, _, htaken⟩ := Option.map_eq_some_iff.mp hstep
    obtain ⟨rfl, rfl⟩ := Prod.mk.inj htaken
    exact ⟨rfl, .inl rfl⟩
  | step t =>
    obtain ⟨⟨thread, shared, shown⟩, htaken, hstate⟩ := Option.map_eq_some_iff.mp hstep
    obtain ⟨rfl, rfl⟩ := Prod.mk.inj hstate
    exact ⟨rfl, Thread.step_flags htaken⟩

theorem Watched.step_of_ne (hlabel : label ≠ .heartbeat) :
    self.step router label = (kv.router.step router self.state label).map fun taken =>
      ({ failure_detector_ := { self.failure_detector_ with alive_ := taken.1.shared.alive_ }
         threads := taken.1.threads
         nodes := taken.1.shared.nodes }, taken.2) := by
  cases label with
  | heartbeat => exact absurd rfl hlabel
  | _ => rfl

/-- Everybody else sees the flags of the detector, and at most calls `mark_down`. -/
theorem Watches.other (h : Watches router self.failure_detector_) (hlabel : label ≠ .heartbeat)
    (hstep : self.step router label = some (next, events)) :
    Watches router next.failure_detector_ ∧ step router self.state label = some (next.state, events) ∧
      (next.failure_detector_ = self.failure_detector_ ∨ ∃ id,
        self.failure_detector_.step (.mark_down id) = some (next.failure_detector_, [.reported id])) := by
  rw [Watched.step_of_ne hlabel] at hstep
  obtain ⟨⟨s, shown⟩, htaken, hnext⟩ := Option.map_eq_some_iff.mp hstep
  obtain ⟨rfl, rfl⟩ := Prod.mk.inj hnext
  obtain ⟨hheartbeat, hflags⟩ := step_flags hlabel htaken
  refine ⟨h.flag _, ?_, ?_⟩
  · rw [htaken]
    simp only [Watched.state, Option.some.injEq, Prod.mk.injEq, and_true]
    rw [← show s.heartbeat = sweepOf (self.failure_detector_.thread_.getD .top) from hheartbeat]
  · rcases hflags with hsame | ⟨id, hmarked⟩
    · exact .inl (by simp [hsame, Watched.state])
    · refine .inr ⟨id, ?_⟩
      simp [FailureDetector.step, h.terminated, FailureDetector.mark, hmarked, Watched.state]

end

/-- The heartbeat of the router is its detector. Every run of the router with its
    `FailureDetector`, from the state in which the constructor leaves it, is a run of
    the router with a heartbeat, with the same events, threads, flags and nodes; and
    what happens to the detector in it is a run of the detector. -/
theorem heartbeat_of_detector {router : Router} {P : Label → Prop} {trace : List Event} {final : Watched}
    (hrun : Run (watched router) P (watched router).init trace final) :
    Run (system router) P (system router).init trace final.state ∧
      ∃ shown, Run (detector.system router.nodes_) (fun _ => True) (detector.system router.nodes_).init shown
        final.failure_detector_ := by
  have hstarted : Run (detector.system router.nodes_) (fun _ => True) (detector.system router.nodes_).init [.started]
      (started router.nodes_) := by
    have hexec : (detector.system router.nodes_).exec (detector.system router.nodes_).init [.start, .owner] =
        some ([.started], started router.nodes_) := rfl
    exact .of_exec (fun _ _ => trivial) hexec
  have hinvariant := hrun.invariant (C := fun _ => True)
    (I := fun trace self => Watches router self.failure_detector_ ∧
      Run (system router) P (system router).init trace self.state ∧
      ∃ shown, Run (detector.system router.nodes_) (fun _ => True) (detector.system router.nodes_).init shown
        self.failure_detector_)
    (fun _ _ _ => trivial) ⟨watches_started router, .nil, _, hstarted⟩ ?_ trivial
  · exact hinvariant.2
  rintro trace self label next events ⟨hwatches, hsystem, shown, hdetector⟩ hlabel - hstep
  have hfollow {label : detector.Label} {d : FailureDetector} {shown' : List detector.Event}
      (htaken : self.failure_detector_.step label = some (d, shown')) :
      ∃ shown, Run (detector.system router.nodes_) (fun _ => True) (detector.system router.nodes_).init shown d := by
    have hstep : (detector.system router.nodes_).step self.failure_detector_ label = some (d, shown') := htaken
    exact ⟨_, hdetector.snoc trivial hstep⟩
  by_cases hbeat : label = .heartbeat
  · subst hbeat
    obtain ⟨hwatches', rfl, hstate⟩ := hwatches.beat hstep
    refine ⟨hwatches', ?_, ?_⟩
    · rcases hstate with hsame | htaken
      · rw [List.append_nil, hsame]
        exact hsystem
      · exact hsystem.snoc hlabel htaken
    · obtain ⟨⟨d, shown'⟩, htaken, hnext⟩ := Option.map_eq_some_iff.mp hstep
      obtain ⟨rfl, -⟩ := Prod.mk.inj hnext
      exact hfollow htaken
  · obtain ⟨hwatches', htaken, hsame | ⟨id, hmarked⟩⟩ := hwatches.other hbeat hstep
    · exact ⟨hwatches', hsystem.snoc hlabel htaken, shown, hsame ▸ hdetector⟩
    · exact ⟨hwatches', hsystem.snoc hlabel htaken, hfollow hmarked⟩

end kv.router
