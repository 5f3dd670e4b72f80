import Kv.Wire.Thread

namespace kv.wire

open kv.protocol Transition

variable {router : Router} {trace events : List Event} {s s' : State} {c : Nat} {node_id : Bytes}

/-- A connection changes on its own. -/
theorem Sound.rewire (hsound : Sound router trace s) {channel : Channel}
    (hnode : channel.node_id = (s.channels c).node_id) (hidle : (s.channels c).Idle → channel.Idle)
    (hexchange : ∀ req sent arrived log, Exchange c req sent arrived (s.channels c) log →
      Exchange c req sent arrived channel log) : Sound router (trace ++ []) (s.setChannel c channel) := by
  refine hsound.setChannel hnode hsound.values hidle ?_ (by simp)
  intro req sent arrived log _ hold
  rw [List.append_nil]
  exact hexchange req sent arrived log hold

theorem values_update {stores : Bytes → KVStore} {store : KVStore}
    (hvalues : ∀ node_id key value, (stores node_id).get key = some value → value.length ≤ kMaxValueLen)
    (hstore : ∀ key value, store.get key = some value → value.length ≤ kMaxValueLen) (id key value : Bytes)
    (hget : (Function.update stores node_id store id).get key = some value) : value.length ≤ kMaxValueLen :=
  (Function.forall_update_iff stores fun _ store =>
    ∀ key value, store.get key = some value → value.length ≤ kMaxValueLen).mpr ⟨hstore, fun id _ => hvalues id⟩
    id key value hget

/-- A statement of a node's `service_client`. -/
theorem Sound.work (hsound : Sound router trace s) {channel : Channel} {store : KVStore}
    (hmove : WorkMove c (s.channels c) (s.stores (s.channels c).node_id) channel store events) :
    Sound router (trace ++ events)
      { s.setChannel c channel with stores := Function.update s.stores (s.channels c).node_id store } := by
  have hvalues := hsound.values (s.channels c).node_id
  obtain ⟨hbounded, hclean⟩ : (∀ key value, store.get key = some value → value.length ≤ kMaxValueLen) ∧
      .rejected c ∉ events := by
    rcases hsound.serving c with hidle | ⟨req, sent, arrived, log, hwf, hexchange⟩
    · obtain ⟨_, rfl, rfl⟩ := hidle.work hmove
      exact ⟨hvalues, by simp⟩
    · obtain ⟨_, rfl | rfl, hclean⟩ := hexchange.work hwf hvalues hmove
      · exact ⟨hvalues, hclean⟩
      · exact ⟨fun _ _ => KVStore.length_get_handle_request hwf.length_value hvalues, hclean⟩
  refine hsound.setChannel hmove.node_id (values_update hsound.values hbounded) (fun hidle => (hidle.work hmove).1) ?_
    (hmove.events_work hclean)
  intro req sent arrived log hwf hexchange
  exact (hexchange.work hwf hvalues hmove).1

/-- A node restarts with an empty store, and its connections are gone. -/
theorem Sound.restart (hsound : Sound router trace s) (node_id : Bytes) :
    Sound router trace { s with
      stores := Function.update s.stores node_id {}
      channels := fun c => if (s.channels c).node_id = node_id then (s.channels c).kill else s.channels c } where
  values := values_update hsound.values (by simp)
  cached := by
    intro id c hid
    refine ⟨(hsound.cached id c hid).1, ?_⟩
    dsimp only
    split <;> exact (hsound.cached id c hid).2
  serving := by
    intro c
    dsimp only
    split
    · exact (hsound.serving c).imp Channel.Idle.kill fun ⟨req, sent, arrived, log, hwf, hexchange⟩ =>
        ⟨req, sent, arrived, log, hwf, hexchange.kill⟩
    · exact hsound.serving c
  idle := by
    intro id c hid hother
    dsimp only
    split
    · exact (hsound.idle id c hid hother).kill
    · exact hsound.idle id c hid hother
  busy := by
    intro c sent arrived huse
    obtain ⟨hcached, hexchange⟩ := hsound.busy c sent arrived huse
    refine ⟨hcached, ?_⟩
    dsimp only
    split
    · exact hexchange.kill
    · exact hexchange
  routing := hsound.routing
  points := hsound.points

theorem Sound.step (hsound : Sound router trace s) {label : Label} (hstep : step router s label = some (s', events)) :
    Sound router (trace ++ events) s' := by
  cases label with
  | recv data => exact hsound.recv hstep
  | hangup => exact hsound.hangup hstep
  | step => exact hsound.advance hstep
  | connect accepted => exact hsound.connect hstep
  | write n => exact hsound.write hstep
  | write_error => exact hsound.write_error hstep
  | read n => exact hsound.read hstep
  | read_error => exact hsound.read_error hstep
  | serve c n =>
    obtain ⟨channel, hserve, heq⟩ := Option.map_eq_some_iff.mp hstep
    obtain ⟨rfl, rfl⟩ := Prod.mk.inj heq
    obtain ⟨_, _, hchannel⟩ := Channel.serve_eq hserve
    exact hsound.rewire (by rw [hchannel]) (fun hidle => hidle.serve hserve) fun _ _ _ _ hold => hold.serve hserve
  | work c =>
    obtain ⟨⟨channel, store, worked⟩, hwork, heq⟩ := Option.map_eq_some_iff.mp hstep
    obtain ⟨rfl, rfl⟩ := Prod.mk.inj heq
    exact hsound.work (Channel.work_move hwork)
  | close c =>
    obtain ⟨channel, hclose, heq⟩ := Option.map_eq_some_iff.mp hstep
    obtain ⟨rfl, rfl⟩ := Prod.mk.inj heq
    obtain ⟨_, _, hchannel⟩ := Channel.close_eq hclose
    exact hsound.rewire (by rw [hchannel]) (fun hidle => hidle.close hclose) fun _ _ _ _ hold => hold.close hclose
  | cut c up down =>
    obtain ⟨rfl, rfl⟩ := Prod.mk.inj (Option.some.inj hstep)
    exact hsound.rewire rfl (fun hidle => hidle.cut up down) fun _ _ _ _ hold => hold.cut up down
  | restart node_id =>
    obtain ⟨rfl, rfl⟩ := Prod.mk.inj (Option.some.inj hstep)
    rw [List.append_nil]
    exact hsound.restart node_id
  | other node_id req =>
    rw [wire.step] at hstep
    split at hstep
    · rename_i hwf
      obtain ⟨rfl, rfl⟩ := Prod.mk.inj (Option.some.inj hstep)
      rw [List.append_nil]
      exact { hsound with
        values := values_update hsound.values fun _ _ =>
          KVStore.length_get_handle_request hwf.length_value (hsound.values node_id) }
    · exact absurd hstep (by simp)
  | flag node_id up =>
    obtain ⟨rfl, rfl⟩ := Prod.mk.inj (Option.some.inj hstep)
    rw [List.append_nil]
    exact { hsound with }

theorem sound_init (router : Router) : Sound router [] (system router).init where
  values := by simp [system]
  cached := by simp [system]
  serving := fun _ => .inl ⟨.inl rfl, rfl, rfl, rfl⟩
  idle := by simp [system]
  busy := by simp [system, Thread.exchanging]
  routing := by simp [system]
  points := always_nil

theorem Sound.of_run (hrun : Run (system router) (fun _ => True) (system router).init trace s) :
    Sound router trace s :=
  hrun.invariant (C := fun _ => True) (I := Sound router) (fun _ _ _ => trivial) (sound_init router)
    (fun _ _ _ _ _ hsound _ _ hstep => hsound.step hstep) trivial

/-- Whatever the client sends, and however the connections to the nodes break
    and the nodes restart, no reply is attributed to the wrong request. A cached
    connection that no `send_request` is using has no unanswered request and no
    unread bytes on it. -/
theorem replies_attributed (router : Router) (trace : List Event) (s : State)
    (hrun : Run (system router) (fun _ => True) (system router).init trace s) :
    Always (Attributed router) trace ∧
      ∀ node_id c, s.thread.backend_conns node_id = some c → s.thread.current ≠ some node_id → (s.channels c).Idle :=
  ⟨(Sound.of_run hrun).points, (Sound.of_run hrun).idle⟩

/-- The connection to the first node breaks in the middle of its reply, and the
    second node answers. -/
theorem replies_attributed_example :
    let router := Router.create [⟨ascii "a", 1⟩, ⟨ascii "b", 1⟩] 1 2
    let read : Request := ⟨.Get, ascii "k", []⟩
    let bytes := encode_not_found_response
    let trace : List Event := [.received (encode_request read), .invoked read,
      .transmitted 0 read, .parsed 0 read, .executed 0 read bytes, .replied 0 bytes,
      .transmitted 1 read, .parsed 1 read, .executed 1 read bytes, .replied 1 bytes,
      .answered 1 read ⟨.NotFound, [], []⟩, .returned read ⟨.NotFound, [], []⟩]
    ∃ s, Run (system router) (fun _ => True) (system router).init trace s ∧ Always (Attributed router) trace ∧
      ∀ node_id c, s.thread.backend_conns node_id = some c → s.thread.current ≠ some node_id →
        (s.channels c).Idle := by
  intro router read bytes trace
  obtain ⟨s, hrun⟩ : ∃ s, Run (system router) (fun _ => True) (system router).init trace s := by
    apply Run.exists_of_exec [Label.recv (encode_request read), .step,
      .step, .connect true, .write 4, .write 2, .serve 0 5, .work 0, .serve 0 1, .work 0, .work 0, .work 0,
      .read 3, .cut 0 0 2, .read 2, .read_error, .step,
      .step, .connect true, .write 6, .serve 1 6, .work 1, .work 1, .work 1, .read 4, .read 6]
    · exact fun _ _ => trivial
    · decide +kernel
  exact ⟨s, hrun, replies_attributed router trace s hrun⟩

end kv.wire
