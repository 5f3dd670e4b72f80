import Kv.Router.Answers
import Kv.Router.Linearization

namespace kv.router

open kv.protocol Transition

variable {router : Router} {trace : List Event} {s : State}

/-- Every run without failures is a run of one server over a plain map. -/
theorem exists_plainServer_run (hled : router.Led) (hknown : router.Known)
    (hrun : Run (system router) NoFailure (system router).init trace s) :
    ∃ a, Run plainServer (fun _ => True) plainServer.init (trace.filterMap (observe router)) a ∧
      Matches router s a := by
  have hsim : ∃ a, Run plainServer (fun _ => True) plainServer.init (trace.filterMap (observe router)) a ∧
      Consistent router s ∧ Calm s ∧ Matches router s a := by
    refine Run.simulate (R := fun s a => Consistent router s ∧ Calm s ∧ Matches router s a) ?_
      ⟨consistent_init, calm_init, matches_init⟩ hrun
    rintro s a label s' events ⟨hok, hcalm, hmatches⟩ hlabel hstep
    have hmove := hok.system_step hknown hstep
    obtain ⟨a', hserver, hmatches'⟩ := hmatches.move hled hknown hok hcalm hlabel hmove
    exact ⟨a', hserver, hok.keep hlabel.crashStop hmove, hcalm.keep hled hknown hok hlabel hmove, hmatches'⟩
  obtain ⟨a, hserver, _, _, hmatches⟩ := hsim
  exact ⟨a, hserver, hmatches⟩

theorem calm_located (hled : router.Led) (hknown : router.Known)
    (hrun : Run (system router) NoFailure (system router).init trace s) :
    Consistent router s ∧ Located router trace s ∧ Buffered trace s := by
  have hinv := calm_invariant (C := fun _ => True) (I := fun trace s => Located router trace s ∧ Buffered trace s)
    hled hknown (fun _ _ _ => trivial) ⟨located_init, fun _ => .start⟩ ?_ hrun trivial
  · exact ⟨hinv.1, hinv.2.2⟩
  · rintro trace s label s' events hok hcalm ⟨hlocated, hbuffered⟩ hlabel _ hmove
    exact ⟨hlocated.keep hled hknown hok hcalm hlabel hmove, hbuffered.keep hmove⟩

/-- The router is a drop-in replacement for one server. While no node fails, the
    bytes exchanged with the clients are those of one server over a plain map,
    which executes each request when the primary of its key does. The primary
    does so once, between the arrival of the request and its answer, so this
    order respects each client's own order and that of requests which do not
    overlap. No thread is kept from answering all that its client has sent. -/
theorem drop_in_replacement {nodes : List NodeAddress} {vnodes replicas : Nat} (hne : nodes ≠ [])
    (hids : (nodes.map NodeAddress.id).Nodup) (hvnodes : 1 ≤ vnodes)
    (hcoll : ConsistentHashRing.NoCollisions fnv1a_hash vnodes (nodes.map NodeAddress.id))
    {trace : List Event} {s : State}
    (hrun : Run (system (Router.create nodes vnodes replicas)) NoFailure
      (system (Router.create nodes vnodes replicas)).init trace s) :
    (∃ a, Run plainServer (fun _ => True) plainServer.init
        (trace.filterMap (observe (Router.create nodes vnodes replicas))) a ∧
      ∀ t, a.connections t = (s.threads t).connection) ∧
    Always (Linearized (Router.create nodes vnodes replicas)) trace ∧
    ∀ t, requestFormat.LinesBounded (stream trace t) →
      ∃ later s', Run (system (Router.create nodes vnodes replicas)) (· = .step t) s later s' ∧
        ((s'.threads t).pc = .reading ∨ (s'.threads t).pc = .closed) := by
  have hserves : (Router.create nodes vnodes replicas).Serves := Router.exists_preference_list hne hids hvnodes hcoll
  obtain ⟨a, hserver, hmatches⟩ := exists_plainServer_run Router.led_create Router.known_create hrun
  obtain ⟨hok, hlocated, hbuffered⟩ := calm_located Router.led_create Router.known_create hrun
  refine ⟨⟨a, hserver, hmatches.connections⟩, hlocated.points, fun t hlines => ?_⟩
  obtain ⟨later, s', hlater, _, hidle⟩ := comes_idle hserves Router.known_create hok hbuffered hlines
  exact ⟨later, s', hlater, hidle⟩

/-- Two clients write and read a key on two replicas at the same time. -/
theorem drop_in_replacement_example :
    let router := Router.create [⟨ascii "a", 1⟩, ⟨ascii "b", 1⟩] 1 2
    let write : Request := ⟨.Set, ascii "k", ascii "x"⟩
    let read : Request := ⟨.Get, ascii "k", []⟩
    let trace : List Event := [.received 0 (encode_request write), .received 1 (encode_request read),
      .invoked 0 write, .invoked 1 read, .executed (ascii "a:1") 0 write, .executed (ascii "a:1") 1 read,
      .returned 1 read ⟨.Value, ascii "x", []⟩, .sent 1 (encode_value_response (ascii "x")),
      .executed (ascii "b:1") 0 write, .returned 0 write ⟨.Ok, [], []⟩, .sent 0 encode_ok_response]
    ∃ s a, Run (system router) NoFailure (system router).init trace s ∧
      trace.filterMap (observe router) = [.received 0 (encode_request write), .received 1 (encode_request read),
        .invoked 0 write, .invoked 1 read, .executed 0 write, .executed 1 read,
        .sent 1 (encode_value_response (ascii "x")), .sent 0 encode_ok_response] ∧
      Run plainServer (fun _ => True) plainServer.init (trace.filterMap (observe router)) a ∧
      Always (Linearized router) trace := by
  intro router write read trace
  obtain ⟨s, hrun⟩ : ∃ s, Run (system router) NoFailure (system router).init trace s := by
    apply Run.exists_of_exec ([Label.recv 0 (encode_request write), .recv 1 (encode_request read), .step 0, .step 1] ++
      List.replicate 3 (Label.step 0) ++ List.replicate 5 (Label.step 1) ++ List.replicate 7 (Label.step 0))
    · decide +kernel
    · decide +kernel
  obtain ⟨⟨a, hserver, _⟩, hpoints, _⟩ :=
    drop_in_replacement (by decide) (by decide +kernel) (by decide) (by decide +kernel) hrun
  exact ⟨s, a, hrun, by decide +kernel, hserver, hpoints⟩

end kv.router
