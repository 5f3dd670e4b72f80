import Kv.Wire.Sound

namespace kv.wire

open kv.protocol Transition

variable {router : Router} {trace trace' events : List Event} {s s' : State} {r r' : Routing} {c : Nat}
    {node_id : Bytes}
  {todo : List Bytes}

/-- A thread that is not in `route_read` or `route_write`. -/
theorem Sound.leave (hsound : Sound router trace s) {thread : Thread}
    (hconns : thread.backend_conns = s.thread.backend_conns) (hcurrent : s.thread.current = none)
    (hpc : ∀ r, thread.pc ≠ .routing r) (hpoints : Always (Attributed router) (trace ++ events)) :
    Sound router (trace ++ events) { s with thread } := by
  refine hsound.setThread hconns (by simp [hcurrent]) ?_ (fun r hr => absurd hr (hpc r)) hpoints
  intro c sent arrived huse
  obtain ⟨r, hr⟩ := Thread.exchanging_routing huse
  exact absurd hr (hpc r)

theorem Thread.current_of_pc {thread : Thread} (hpc : ∀ r, thread.pc ≠ .routing r) : thread.current = none := by
  unfold current
  split
  · exact absurd ‹_› (hpc _)
  · rfl

theorem Sound.recv (hsound : Sound router trace s) {data : Bytes} (hrecv : s.recv data = some (s', events)) :
    Sound router (trace ++ events) s' := by
  unfold State.recv at hrecv
  split at hrecv
  · rename_i hpc
    split at hrecv
    · obtain ⟨rfl, rfl⟩ := Prod.mk.inj (Option.some.inj hrecv)
      exact hsound.leave rfl (Thread.current_of_pc (by simp [hpc])) (by simp) (hsound.points.snoc trivial)
    · exact absurd hrecv (by simp)
  · exact absurd hrecv (by simp)

theorem Sound.hangup (hsound : Sound router trace s) (hhangup : s.hangup = some (s', events)) :
    Sound router (trace ++ events) s' := by
  unfold State.hangup at hhangup
  split at hhangup
  · rename_i hpc
    obtain ⟨rfl, rfl⟩ := Prod.mk.inj (Option.some.inj hhangup)
    refine hsound.leave rfl (Thread.current_of_pc (by simp [hpc])) (by simp) ?_
    rw [List.append_nil]
    exact hsound.points
  · exact absurd hhangup (by simp)

theorem Sound.dispatch (hsound : Sound router trace s) (hpc : s.thread.pc = .draining)
    (hdispatch : s.dispatch router = some (s', events)) : Sound router (trace ++ events) s' := by
  have hcurrent : s.thread.current = none := Thread.current_of_pc (by simp [hpc])
  have hpoints : Always (Attributed router) (trace ++ []) := by
    rw [List.append_nil]
    exact hsound.points
  unfold State.dispatch at hdispatch
  split at hdispatch
  · obtain ⟨rfl, rfl⟩ := Prod.mk.inj (Option.some.inj hdispatch)
    exact hsound.leave rfl hcurrent (by simp) hpoints
  · obtain ⟨rfl, rfl⟩ := Prod.mk.inj (Option.some.inj hdispatch)
    exact hsound.leave rfl hcurrent (by simp) hpoints
  · rename_i req parser hcall
    have hwf := IncrementalParser.try_parse_request_wellFormed hcall
    split at hdispatch
    · obtain ⟨rfl, rfl⟩ := Prod.mk.inj (Option.some.inj hdispatch)
      exact hsound.leave rfl hcurrent (by simp) hpoints
    · split at hdispatch
      · exact absurd hdispatch (by simp)
      · rename_i nodes hlist
        obtain ⟨rfl, rfl⟩ := Prod.mk.inj (Option.some.inj hdispatch)
        refine hsound.setThread rfl (by simp [hcurrent]) ?_ ?_ (hsound.points.snoc (reencoded_of_wellFormed hwf))
        · simp [Thread.exchanging]
        · rintro r hr
          obtain rfl := Pc.routing.inj hr
          exact ⟨hwf, hlist, ⟨[], by rw [routed_append]; rfl, rfl⟩, fun _ => rfl, by simp⟩

theorem Thread.current_of_idle_phase {thread : Thread} (hpc : thread.pc = .routing r)
    (hphase : r.phase = .check ∨ r.phase = .connect) : thread.current = none := by
  rcases hphase with hphase | hphase <;> simp [current, hpc, hphase]

theorem Thread.exchanging_none {thread : Thread} (hpc : thread.pc = .routing r)
    (hphase : r.phase = .check ∨ r.phase = .connect ∨ r.phase = .failed) : thread.exchanging = none := by
  rcases hphase with hphase | hphase | hphase <;> simp [exchanging, hpc, hphase]

/-- The thread goes on in the loop with no connection in use. -/
theorem Sound.goOn (hsound : Sound router trace s) {alive_ : Liveness} (hpc : s.thread.pc = .routing r)
    (hcurrent : ∀ node_id c, s.thread.backend_conns node_id = some c → s.thread.current = some node_id →
      { s.thread with pc := .routing r' }.current = some node_id)
    (hlist : r'.preference_list = r.preference_list) (hfirst : r'.first_success = r.first_success)
    (hphase : r'.phase = .check ∨ r'.phase = .connect ∨ r'.phase = .failed) :
    Sound router (trace ++ []) { s with thread := { s.thread with pc := .routing r' }, alive_ } := by
  rw [List.append_nil]
  refine hsound.setThread rfl hcurrent ?_ ?_ hsound.points
  · intro c sent arrived huse
    rw [Thread.exchanging_none rfl hphase] at huse
    exact absurd huse (by simp)
  · rintro r hr
    obtain rfl := Pc.routing.inj hr
    refine (hsound.routing _ hpc).move hlist hfirst rfl ?_
    rcases hphase with hphase | hphase | hphase <;> simp [hphase]

/-- The catch block of the loop. -/
theorem Sound.erase (hsound : Sound router trace s) {alive_ : Liveness} (hpc : s.thread.pc = .routing r)
    (htodo : r.todo = node_id :: todo) (hphase : r.phase = .failed) :
    Sound router (trace ++ [])
      { (s.erase node_id).setPc (.routing { r with todo, phase := .check }) with alive_ } := by
  have hcurrent : s.thread.current = some node_id := by simp [Thread.current, hpc, hphase, htodo]
  cases hcached : s.thread.backend_conns node_id with
  | none =>
    have heq : s.erase node_id = s := by rw [State.erase, hcached]
    rw [heq]
    refine hsound.goOn hpc ?_ rfl rfl (.inl rfl)
    intro id c hid huse
    obtain rfl := Option.some.inj (hcurrent.symm.trans huse)
    simp [hcached] at hid
  | some c =>
    have heq : s.erase node_id = { s.setChannel c { s.channels c with broken := true } with
        thread := { s.thread with backend_conns := Function.update s.thread.backend_conns node_id none } } := by
      rw [State.erase, hcached]
    rw [heq, List.append_nil]
    refine hsound.use hcurrent hcached ?_ rfl ?_ ?_ ?_ ?_ hsound.points
    · intro id c' hid
      by_cases hsame : id = node_id
      · subst hsame
        simp [State.setPc] at hid
      · simpa [State.setPc, hsame] using hid
    · exact (hsound.serving c).abandon
    · intro hkept
      simp [State.setPc] at hkept
    · simp [State.setPc, Thread.exchanging]
    · rintro r' hr
      obtain rfl := Pc.routing.inj hr
      exact (hsound.routing r hpc).move rfl rfl rfl (by simp)

/-- A request is started on an idle connection. -/
theorem Sound.transmit (hsound : Sound router trace s) (hpc : s.thread.pc = .routing r)
    (htodo : r.todo = node_id :: todo) (hphase : r.phase = .connect)
    (hcached : s.thread.backend_conns node_id = some c) :
    Sound router (trace ++ [.transmitted c s.thread.req]) (s.setPc (.routing { r with phase := .sending c 0 })) := by
  have hcurrent : s.thread.current = none := Thread.current_of_idle_phase hpc (.inr hphase)
  have hok := hsound.routing r hpc
  obtain ⟨resps, hrouted, _⟩ := hok.progress
  refine hsound.setThread rfl (by simp [hcurrent]) ?_ ?_
    (hsound.points.snoc ⟨reencoded_of_wellFormed hok.wellFormed, resps, hrouted⟩)
  · intro c' sent arrived huse
    obtain ⟨rfl, rfl, rfl⟩ : c = c' ∧ 0 = sent ∧ [] = arrived := by simpa [Thread.exchanging] using huse
    refine ⟨⟨node_id, by simp [Thread.current, htodo], hcached⟩, ?_⟩
    rw [exchange_transmitted]
    exact (hsound.idle node_id c hcached (by simp [hcurrent])).start c s.thread.req
  · rintro r' hr
    obtain rfl := Pc.routing.inj hr
    refine hok.move rfl rfl ?_ (by simp)
    rw [routed_append]
    rfl

theorem Sound.route (hsound : Sound router trace s) (hpc : s.thread.pc = .routing r)
    (hroute : s.route r = some (s', events)) : Sound router (trace ++ events) s' := by
  have hok := hsound.routing r hpc
  unfold State.route at hroute
  split at hroute
  · rename_i htodo
    obtain ⟨rfl, rfl⟩ := Prod.mk.inj (Option.some.inj hroute)
    have hcurrent : s.thread.current = none := by
      cases hphase : r.phase <;> simp [Thread.current, hpc, htodo, hphase]
    refine hsound.leave rfl hcurrent (by simp) (hsound.points.snoc ?_)
    obtain ⟨resps, hrouted, hhead⟩ := hok.progress
    refine ⟨resps, hrouted, ?_⟩
    cases hfirst : r.first_success with
    | some resp => exact .inl (hhead.trans hfirst)
    | none => exact .inr ⟨List.head?_eq_none_iff.mp (hhead.trans hfirst), _, hok.listed, rfl⟩
  · rename_i node_id todo htodo
    split at hroute
    · rename_i hphase
      have hcurrent : s.thread.current = none := Thread.current_of_idle_phase hpc (.inl hphase)
      split at hroute <;>
      · obtain ⟨rfl, rfl⟩ := Prod.mk.inj (Option.some.inj hroute)
        exact hsound.goOn hpc (by simp [hcurrent]) rfl rfl (by simp [hphase])
    · rename_i hphase
      split at hroute
      · rename_i c hcached
        obtain ⟨rfl, rfl⟩ := Prod.mk.inj (Option.some.inj hroute)
        exact hsound.transmit hpc htodo hphase hcached
      · exact absurd hroute (by simp)
    · exact absurd hroute (by simp)
    · exact absurd hroute (by simp)
    · rename_i hphase
      obtain ⟨rfl, rfl⟩ := Prod.mk.inj (Option.some.inj hroute)
      exact hsound.erase hpc htodo hphase

/-- A new connection is idle. -/
theorem Sound.open (hsound : Sound router trace s) (hpc : s.thread.pc = .routing r) (hphase : r.phase = .connect)
    (node_id : Bytes) : Sound router trace (s.open node_id) := by
  have hfresh : ({ node_id } : Channel).Idle := ⟨.inl rfl, rfl, rfl, rfl⟩
  have hkept {id : Bytes} {c : Nat} (hid : (s.open node_id).thread.backend_conns id = some c) :
      (id = node_id ∧ c = s.opened) ∨ (s.thread.backend_conns id = some c ∧ c < s.opened) := by
    by_cases hsame : id = node_id
    · subst hsame
      exact .inl ⟨rfl, by simpa [State.open] using hid.symm⟩
    · have hold : s.thread.backend_conns id = some c := by simpa [State.open, hsame] using hid
      exact .inr ⟨hold, (hsound.cached id c hold).1⟩
  constructor
  · exact hsound.values
  · intro id c hid
    rcases hkept hid with ⟨rfl, rfl⟩ | ⟨hold, hlt⟩
    · exact ⟨Nat.lt_succ_self _, congrArg Channel.node_id (s.setChannel_self ..)⟩
    · exact ⟨Nat.lt_succ_of_lt hlt, s.setChannel_of_ne _ hlt.ne ▸ (hsound.cached id c hold).2⟩
  · exact hsound.serving_setChannel (.inl hfresh)
  · intro id c hid _
    rcases hkept hid with ⟨rfl, rfl⟩ | ⟨hold, hlt⟩
    · exact s.setChannel_self .. ▸ hfresh
    · have hquiet := hsound.idle id c hold (by simp [Thread.current_of_idle_phase hpc (.inr hphase)])
      exact s.setChannel_of_ne _ hlt.ne ▸ hquiet
  · intro c sent arrived huse
    have hnone := Thread.exchanging_none hpc (.inr (.inl hphase))
    exact absurd (hnone.symm.trans huse) (by simp)
  · exact hsound.routing
  · exact hsound.points

/-- A call has failed, and the thread throws. -/
theorem Sound.throw (hsound : Sound router trace s) (hpc : s.thread.pc = .routing r)
    (hphase : r.phase ≠ .check) :
    Sound router (trace ++ []) (s.setPc (.routing { r with phase := .failed })) := by
  refine hsound.goOn hpc ?_ rfl rfl (.inr (.inr rfl))
  intro node_id c _ huse
  cases h : r.phase <;> simp_all [Thread.current]

theorem Sound.connect (hsound : Sound router trace s) {accepted : Bool}
    (hconnect : s.connect router accepted = some (s', events)) : Sound router (trace ++ events) s' := by
  unfold State.connect at hconnect
  split at hconnect
  · rename_i r hpc
    split at hconnect
    · rename_i node_id todo htodo hphase
      split at hconnect
      · obtain ⟨rfl, rfl⟩ := Prod.mk.inj (Option.some.inj hconnect)
        exact (hsound.open hpc hphase node_id).transmit hpc htodo hphase (by simp [State.open])
      · obtain ⟨rfl, rfl⟩ := Prod.mk.inj (Option.some.inj hconnect)
        exact hsound.throw hpc (by simp [hphase])
      · exact absurd hconnect (by simp)
    · exact absurd hconnect (by simp)
  · exact absurd hconnect (by simp)

theorem Sound.write_error (hsound : Sound router trace s) (herror : s.write_error = some (s', events)) :
    Sound router (trace ++ events) s' := by
  unfold State.write_error at herror
  split at herror
  · rename_i r hpc
    split at herror
    · rename_i hphase
      obtain ⟨rfl, rfl⟩ := Prod.mk.inj (Option.some.inj herror)
      exact hsound.throw hpc (by simp [hphase])
    · exact absurd herror (by simp)
  · exact absurd herror (by simp)

theorem Sound.read_error (hsound : Sound router trace s) (herror : s.read_error = some (s', events)) :
    Sound router (trace ++ events) s' := by
  unfold State.read_error at herror
  split at herror
  · rename_i r hpc
    split at herror
    · rename_i hphase
      obtain ⟨rfl, rfl⟩ := Prod.mk.inj (Option.some.inj herror)
      exact hsound.throw hpc (by simp [hphase])
    · exact absurd herror (by simp)
  · exact absurd herror (by simp)

theorem Thread.write_phase (thread : Thread) (r : Routing) (c : Nat) {sent n : Nat} {phase : Phase}
    (hroom : sent + n ≤ (encode_request thread.req).length)
    (hphase : phase =
      if sent + n < (encode_request thread.req).length then .sending c (sent + n) else .receiving c {} ⟨.Ok, [], []⟩) :
    { thread with pc := .routing { r with phase } }.current = r.todo.head? ∧
      { thread with pc := .routing { r with phase } }.exchanging = some (c, sent + n, []) := by
  split at hphase
  · simp [current, exchanging, hphase]
  · have hall : (encode_request thread.req).length = sent + n := by omega
    simp [current, exchanging, hphase, hall]

/-- The next bytes of the request go out. -/
theorem Sound.write (hsound : Sound router trace s) {n : Nat} (hwrite : s.write n = some (s', events)) :
    Sound router (trace ++ events) s' := by
  unfold State.write at hwrite
  split at hwrite
  · rename_i r hpc
    split at hwrite
    · rename_i c sent hphase
      dsimp only at hwrite
      split at hwrite
      · rename_i hroom
        obtain ⟨rfl, rfl⟩ := Prod.mk.inj (Option.some.inj hwrite)
        obtain ⟨⟨node_id, hcurrent, hcached⟩, hexchange⟩ :=
          hsound.busy c sent [] (by simp [Thread.exchanging, hpc, hphase])
        have hok := hsound.routing r hpc
        have hpushed := hexchange.push hroom.1 hroom.2
        have hhead : r.todo.head? = some node_id := by simpa [Thread.current, hpc, hphase] using hcurrent
        have hnow := Thread.write_phase s.thread r c hroom.2 rfl
        rw [List.append_nil]
        refine hsound.use hcurrent hcached (fun _ _ hid => hid) ?_
          (.inr ⟨_, _, _, _, hok.wellFormed, hpushed⟩) ?_ ?_ ?_
          hsound.points
        · unfold Channel.push
          split <;> rfl
        · intro _ hother
          exact absurd (hnow.1.trans hhead) hother
        · intro c' sent' arrived huse
          obtain ⟨rfl, rfl, rfl⟩ : c = c' ∧ sent + n = sent' ∧ [] = arrived := by simpa using hnow.2.symm.trans huse
          exact ⟨rfl, hnow.1.trans hhead, hcached, hpushed⟩
        · rintro r' hr
          obtain rfl := Pc.routing.inj hr
          refine hok.move rfl rfl rfl ?_
          intro c' parser resp hreceiving
          dsimp only at hreceiving
          split at hreceiving
          · exact absurd hreceiving (by simp)
          · exact (Phase.receiving.inj hreceiving).2.2.symm
      · exact absurd hwrite (by simp)
    · exact absurd hwrite (by simp)
  · exact absurd hwrite (by simp)

/-- A reply has arrived, to the request that was sent. -/
theorem RoutingOk.attributed {req : Request} {resp : Response} {bytes : Bytes} (hok : RoutingOk router trace req r)
    (hlog : exchange trace c = [.transmitted c req, .parsed c req, .executed c req bytes, .replied c bytes])
    (hreply : receive bytes = (.Complete, resp) ∧ encode_response resp = bytes ∧ resp.type ≠ .Error)
    (hpoints : Always (Attributed router) trace) :
    Always (Attributed router) (trace ++ [.answered c req resp]) ∧
      ∃ resps, routed (trace ++ [.answered c req resp]) = some (req, resps) ∧
        resps.head? = some (r.first_success.getD resp) := by
  refine ⟨hpoints.snoc ⟨bytes, hlog, hreply⟩, ?_⟩
  obtain ⟨resps, hrouted, hhead⟩ := hok.progress
  refine ⟨resps ++ [resp], ?_, ?_⟩
  · rw [routed_append, hrouted]
    rfl
  · rw [List.head?_append, hhead]
    cases r.first_success <;> rfl

/-- The thread is done with a connection, which is idle again. -/
theorem Sound.release (hsound : Sound router trace s) (hcurrent : s.thread.current = some node_id)
    (hcached : s.thread.backend_conns node_id = some c) {channel : Channel} {pc : Pc}
    (hnode : channel.node_id = (s.channels c).node_id) (hidle : channel.Idle)
    (hdone : { s.thread with pc }.exchanging = none)
    (hrouting : ∀ r, pc = .routing r → RoutingOk router trace' s.thread.req r)
    (hpoints : Always (Attributed router) trace') : Sound router trace' ((s.setChannel c channel).setPc pc) := by
  refine hsound.use hcurrent hcached (fun _ _ hid => hid) hnode (.inl hidle) (fun _ _ => hidle) ?_ hrouting hpoints
  intro c' sent arrived huse
  exact absurd (hdone.symm.trans huse) (by simp)

/-- Some of the reply has come in. -/
theorem Sound.receive (hsound : Sound router trace s) {parser parser' : ResponseParser} {channel : Channel}
    (hpc : s.thread.pc = .routing r) (hphase : r.phase = .receiving c parser ⟨.Ok, [], []⟩)
    (hcurrent : s.thread.current = some node_id) (hcached : s.thread.backend_conns node_id = some c)
    (hnode : channel.node_id = (s.channels c).node_id)
    (hexchange : Exchange c s.thread.req (encode_request s.thread.req).length parser'.buffer_ channel
      (exchange trace c)) :
    Sound router trace
      ((s.setChannel c channel).setPc (.routing { r with phase := .receiving c parser' ⟨.Ok, [], []⟩ })) := by
  have hok := hsound.routing r hpc
  have hstill : { s.thread with pc := .routing { r with phase := .receiving c parser' ⟨.Ok, [], []⟩ } }.current =
      some node_id := by simpa [Thread.current, hpc, hphase] using hcurrent
  refine hsound.use hcurrent hcached (fun _ _ hid => hid) hnode (.inr ⟨_, _, _, _, hok.wellFormed, hexchange⟩)
    (fun _ hother => absurd hstill hother) ?_ ?_ hsound.points
  · intro c' sent arrived huse
    obtain ⟨rfl, rfl, rfl⟩ : c = c' ∧ (encode_request s.thread.req).length = sent ∧ parser'.buffer_ = arrived := by
      simpa [Thread.exchanging, State.setPc, State.setChannel] using huse
    exact ⟨rfl, hstill, hcached, hexchange⟩
  · rintro r' hr
    obtain rfl := Pc.routing.inj hr
    refine hok.move rfl rfl rfl ?_
    intro c' parser resp hreceiving
    exact (Phase.receiving.inj hreceiving).2.2.symm

/-- The next bytes of the reply come in. -/
theorem Sound.read (hsound : Sound router trace s) {n : Nat} (hread : s.read n = some (s', events)) :
    Sound router (trace ++ events) s' := by
  unfold State.read at hread
  split at hread
  · rename_i r hpc
    split at hread
    · rename_i head todo c parser resp htodo hphase
      have hok := hsound.routing r hpc
      obtain rfl := hok.fresh c parser resp hphase
      obtain ⟨⟨node_id, hcurrent, hcached⟩, hexchange⟩ :=
        hsound.busy c (encode_request s.thread.req).length parser.buffer_ (by simp [Thread.exchanging, hpc, hphase])
      dsimp only at hread
      split at hread
      · rename_i hsome
        rcases hexchange.read hsome.1 with ⟨parser', hcall, hmore, -⟩ |
          ⟨bytes, resp, parser', hcall, hidle, hlog, hreply⟩
        · rw [hcall] at hread
          obtain ⟨rfl, rfl⟩ := Prod.mk.inj (Option.some.inj hread)
          rw [List.append_nil]
          exact hsound.receive hpc hphase hcurrent hcached rfl hmore
        · rw [hcall] at hread
          obtain ⟨hpoints, resps, hrouted, hhead⟩ := hok.attributed hlog hreply hsound.points
          dsimp only at hread
          split at hread
          · rename_i hget
            obtain ⟨rfl, rfl⟩ := Prod.mk.inj (Option.some.inj hread)
            rw [hok.first hget] at hhead
            rw [← List.singleton_append, ← List.append_assoc]
            exact hsound.release hcurrent hcached rfl hidle rfl (by simp) (hpoints.snoc ⟨resps, hrouted, .inl hhead⟩)
          · rename_i hput
            obtain ⟨rfl, rfl⟩ := Prod.mk.inj (Option.some.inj hread)
            refine hsound.release hcurrent hcached rfl hidle rfl ?_ hpoints
            rintro r' hr
            obtain rfl := Pc.routing.inj hr
            exact ⟨hok.wellFormed, hok.listed, ⟨resps, hrouted, hhead⟩, fun hget => absurd hget hput, by simp⟩
      · exact absurd hread (by simp)
    · exact absurd hread (by simp)
  · exact absurd hread (by simp)

theorem Sound.advance (hsound : Sound router trace s) (hadvance : s.advance router = some (s', events)) :
    Sound router (trace ++ events) s' := by
  unfold State.advance at hadvance
  split at hadvance
  · exact absurd hadvance (by simp)
  · rename_i hpc
    exact hsound.dispatch hpc hadvance
  · rename_i r hpc
    exact hsound.route hpc hadvance
  · rename_i bytes hpc
    obtain ⟨rfl, rfl⟩ := Prod.mk.inj (Option.some.inj hadvance)
    exact hsound.leave rfl (Thread.current_of_pc (by simp [hpc])) (by simp) (hsound.points.snoc trivial)
  · exact absurd hadvance (by simp)

end kv.wire
