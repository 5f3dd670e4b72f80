import Kv.Router.DropIn
import Kv.Wire.Abstraction

namespace kv.wire

open kv.protocol Transition

variable {router : Router} {trace trace' events : List Event} {s s' : State} {a a' : kv.router.State}
    {r : Routing} {c : Nat}

theorem Refines.recv (hrefines : Refines trace s a) {data : Bytes} (hrecv : s.recv data = some (s', events)) :
    Simulated router trace events s' a := by
  unfold State.recv at hrecv
  split at hrecv
  · rename_i hpc
    split at hrecv
    · rename_i hdata
      obtain ⟨rfl, rfl⟩ := Prod.mk.inj (Option.some.inj hrecv)
      have hpc' : (a.threads 0).pc = .reading := by
        rw [hrefines.thread.pc, hpc]
        rfl
      have hthread : (a.threads 0).recv data = some { a.threads 0 with
          pc := .draining, parser := s.thread.parser.feed data, req := ⟨.Ping, [], []⟩ } := by
        rw [kv.router.Thread.recv, if_pos ⟨hpc', hdata⟩, hrefines.thread.parser]
      have hlabel : kv.router.NoFailure (.recv 0 data) := trivial
      refine simulated_step hlabel (by rw [kv.router.step, hthread, Option.map_some]) rfl ?_
      exact hrefines.setThread (Thread.exchanging_of_pc (by simp [hpc]))
        (by simp) ⟨rfl, rfl, rfl, hrefines.thread.conns⟩
    · exact absurd hrecv (by simp)
  · exact absurd hrecv (by simp)

theorem Refines.hangup (hrefines : Refines trace s a) (hhangup : s.hangup = some (s', events)) :
    Simulated router trace events s' a := by
  unfold State.hangup at hhangup
  split at hhangup
  · rename_i hpc
    obtain ⟨rfl, rfl⟩ := Prod.mk.inj (Option.some.inj hhangup)
    have hpc' : (a.threads 0).pc = .reading := by
      rw [hrefines.thread.pc, hpc]
      rfl
    have hthread : (a.threads 0).hangup = some { a.threads 0 with pc := .closed } := if_pos hpc'
    have hlabel : kv.router.NoFailure (.hangup 0) := trivial
    refine simulated_step hlabel (by rw [kv.router.step, hthread, Option.map_some]) rfl ?_
    exact hrefines.setThread (Thread.exchanging_of_pc (by simp [hpc])) (by simp) (hrefines.thread.setPc rfl)
  · exact absurd hhangup (by simp)

theorem Refines.dispatch (hrefines : Refines trace s a) (hpc : s.thread.pc = .draining)
    (hdispatch : s.dispatch router = some (s', events)) : Simulated router trace events s' a := by
  have hpc' : (a.threads 0).pc = .draining := by
    rw [hrefines.thread.pc, hpc]
    rfl
  have hfree : s.thread.exchanging = none := Thread.exchanging_of_pc (by simp [hpc])
  have hstep : (a.threads 0).step router 0 a.shared =
      ((a.threads 0).dispatch router 0).map fun out => (out.1, a.shared, out.2) := by
    rw [kv.router.Thread.step, hpc']
  rw [kv.router.Thread.dispatch, hrefines.thread.parser, hrefines.thread.req] at hstep
  unfold State.dispatch at hdispatch
  split at hdispatch
  · rename_i req parser hcall
    obtain ⟨rfl, rfl⟩ := Prod.mk.inj (Option.some.inj hdispatch)
    rw [hcall] at hstep
    exact simulated_follow hstep rfl
      (hrefines.setThread hfree (by simp) ⟨rfl, rfl, rfl, hrefines.thread.conns⟩)
  · rename_i req parser hcall
    obtain ⟨rfl, rfl⟩ := Prod.mk.inj (Option.some.inj hdispatch)
    rw [hcall] at hstep
    exact simulated_follow hstep rfl
      (hrefines.setThread hfree (by simp) ⟨rfl, rfl, rfl, hrefines.thread.conns⟩)
  · rename_i req parser hcall
    rw [hcall] at hstep
    dsimp only at hstep
    split at hdispatch
    · rename_i hping
      obtain ⟨rfl, rfl⟩ := Prod.mk.inj (Option.some.inj hdispatch)
      rw [if_pos hping] at hstep
      exact simulated_follow hstep rfl
        (hrefines.setThread hfree (by simp) ⟨rfl, rfl, rfl, hrefines.thread.conns⟩)
    · rename_i hping
      rw [if_neg hping] at hstep
      split at hdispatch
      · exact absurd hdispatch (by simp)
      · rename_i nodes hlist
        obtain ⟨rfl, rfl⟩ := Prod.mk.inj (Option.some.inj hdispatch)
        rw [hlist] at hstep
        exact simulated_follow hstep rfl
          (hrefines.setThread hfree (by simp) ⟨rfl, rfl, rfl, hrefines.thread.conns⟩)

/-- At the end of the preference list no connection is in use. -/
theorem Sound.free_of_todo (hsound : Sound router trace s) (hpc : s.thread.pc = .routing r) (htodo : r.todo = []) :
    s.thread.exchanging = none := by
  cases huse : s.thread.exchanging with
  | none => rfl
  | some use =>
    obtain ⟨c, sent, arrived⟩ := use
    obtain ⟨⟨node_id, hcurrent, _⟩, _⟩ := hsound.busy c sent arrived huse
    cases hphase : r.phase <;> simp [Thread.current, hpc, hphase, htodo] at hcurrent

/-- The thread goes on in the loop with no connection in use. -/
theorem Refines.goOn (hrefines : Refines trace s a) {r' : Routing} (hpc : s.thread.pc = .routing r)
    (hphase : r.phase = .check) (hphase' : r'.phase = .check ∨ r'.phase = .connect) :
    Refines (trace ++ []) (s.setPc (.routing r'))
      (a.setThread 0 ((a.threads 0).routes (r'.abstract (reported trace)))) := by
  rw [List.append_nil]
  refine hrefines.setThread (Thread.exchanging_none hpc (.inl hphase)) ?_ (hrefines.thread.setPc rfl)
  rintro r₁ hr
  obtain rfl := Pc.routing.inj hr
  rcases hphase' with hphase' | hphase' <;> simp [hphase']

theorem Refines.transmit (hrefines : Refines trace s a) (hpc : s.thread.pc = .routing r) (hphase : r.phase = .connect)
    (c : Nat) :
    Refines (trace ++ [.transmitted c s.thread.req]) (s.setPc (.routing { r with phase := .sending c 0 }))
      (a.setThread 0 ((a.threads 0).routes { r.abstract (reported trace) with phase := .forward })) := by
  refine hrefines.setThread (Thread.exchanging_none hpc (.inr (.inl hphase))) ?_ (hrefines.thread.setPc ?_)
  · rintro r' hr
    obtain rfl := Pc.routing.inj hr
    simp
  · simp [Pc.abstract, Routing.abstract, Phase.abstract, reported_transmitted]

theorem Refines.route (hsound : Sound router trace s) (hrefines : Refines trace s a) (hpc : s.thread.pc = .routing r)
    (hroute : s.route r = some (s', events)) : Simulated router trace events s' a := by
  have hstep : (a.threads 0).step router 0 a.shared = _ := hrefines.step_eq hpc
  unfold State.route at hroute
  split at hroute
  · rename_i htodo
    obtain ⟨rfl, rfl⟩ := Prod.mk.inj (Option.some.inj hroute)
    have htodo' : (r.abstract (reported trace)).todo = [] := htodo
    rw [kv.router.Thread.route, htodo'] at hstep
    refine simulated_follow hstep ?_ (hrefines.setThread (hsound.free_of_todo hpc htodo) (by simp) ?_)
    · rw [hrefines.thread.req]
      rfl
    · exact hrefines.thread.setPc rfl
  · rename_i node_id todo htodo
    rw [route_cons _ _ (show (r.abstract (reported trace)).todo = node_id :: todo from htodo)] at hstep
    split at hroute
    · rename_i hphase
      have hphase' : (r.abstract (reported trace)).phase = .check := by simp [Routing.abstract, hphase, Phase.abstract]
      simp only [hphase', hrefines.is_alive] at hstep
      split at hroute
      · rename_i halive
        obtain ⟨rfl, rfl⟩ := Prod.mk.inj (Option.some.inj hroute)
        rw [if_pos halive] at hstep
        exact simulated_follow hstep rfl (hrefines.goOn hpc hphase (.inr rfl))
      · rename_i hdead
        obtain ⟨rfl, rfl⟩ := Prod.mk.inj (Option.some.inj hroute)
        rw [if_neg hdead] at hstep
        exact simulated_follow hstep rfl (hphase' ▸ hrefines.goOn hpc hphase (.inl hphase))
    · rename_i hphase
      have hphase' : (r.abstract (reported trace)).phase = .connect := by
        simp [Routing.abstract, hphase, Phase.abstract]
      simp only [hphase', kv.router.Thread.connect] at hstep
      split at hroute
      · rename_i c hcached
        obtain ⟨rfl, rfl⟩ := Prod.mk.inj (Option.some.inj hroute)
        cases hconn : (a.threads 0).backend_conns node_id with
        | none => simp [(hrefines.thread.conns node_id).mp hconn] at hcached
        | some conn =>
          rw [hconn] at hstep
          exact simulated_follow hstep rfl (hrefines.transmit hpc hphase c)
      · exact absurd hroute (by simp)
    · exact absurd hroute (by simp)
    · exact absurd hroute (by simp)
    · rename_i hphase
      exact absurd hphase (hrefines.running r hpc)

theorem Refines.connect (hknown : router.Known) (hok : kv.router.Consistent router a) (hrefines : Refines trace s a)
    (hconnect : s.connect router true = some (s', events)) : Simulated router trace events s' a := by
  unfold State.connect at hconnect
  split at hconnect
  · rename_i r hpc
    split at hconnect
    · rename_i node_id todo htodo hphase
      have hpc' : (a.threads 0).pc = .routing (r.abstract (reported trace)) := by
        rw [hrefines.thread.pc, hpc]
        rfl
      have hr := (hok.threads 0).routing _ hpc'
      obtain ⟨addr, hfind⟩ := hknown.find_address hr.listed (hr.mem_of_todo htodo)
      cases hcached : s.thread.backend_conns node_id with
      | some c => simp [hcached] at hconnect
      | none =>
        simp only [hcached, hfind] at hconnect
        obtain ⟨rfl, rfl⟩ := Prod.mk.inj (Option.some.inj hconnect)
        have hphase' : (r.abstract (reported trace)).phase = .connect := by
          simp [Routing.abstract, hphase, Phase.abstract]
        have hstep : (a.threads 0).step router 0 a.shared = _ := hrefines.step_eq hpc
        rw [route_cons _ _ (show (r.abstract (reported trace)).todo = node_id :: todo from htodo), hphase',
          kv.router.Thread.connect, (hrefines.thread.conns node_id).mpr hcached, hfind] at hstep
        simp only [hrefines.nodes, if_true] at hstep
        have hnext := (hrefines.open hpc hphase node_id { epoch := 0 }).transmit hpc hphase s.opened
        rw [setThread_setThread, kv.router.setThread_threads, Function.update_self] at hnext
        exact simulated_follow hstep rfl hnext
    · exact absurd hconnect (by simp)
  · exact absurd hconnect (by simp)

theorem Refines.write (hrefines : Refines trace s a) {n : Nat} (hwrite : s.write n = some (s', events)) :
    Simulated router trace events s' a := by
  unfold State.write at hwrite
  split at hwrite
  · rename_i r hpc
    split at hwrite
    · rename_i c sent hphase
      dsimp only at hwrite
      split at hwrite
      · rename_i hroom
        obtain ⟨rfl, rfl⟩ := Prod.mk.inj (Option.some.inj hwrite)
        have hnow := Thread.write_phase s.thread r c hroom.2 rfl
        have huse : s.thread.exchanging = some (c, sent, []) := by simp [Thread.exchanging, hpc, hphase]
        refine simulated_stay rfl ?_
        rw [List.append_nil, ← setThread_same a]
        refine hrefines.use huse ?_ (.inr ⟨_, _, hnow.2⟩) ?_ ?_
        · rw [Channel.push_broken]
          exact hrefines.whole c
        · rintro r' hr
          obtain rfl := Pc.routing.inj hr
          dsimp only
          split <;> simp
        · refine ⟨?_, hrefines.thread.parser, hrefines.thread.req, hrefines.thread.conns⟩
          rw [hrefines.thread.pc, hpc]
          dsimp only [State.setPc]
          split <;> simp [Pc.abstract, Routing.abstract, Phase.abstract, hphase]
      · exact absurd hwrite (by simp)
    · exact absurd hwrite (by simp)
  · exact absurd hwrite (by simp)

theorem Refines.read (hsound : Sound router trace s) (hrefines : Refines trace s a) {n : Nat}
    (hread : s.read n = some (s', events)) : Simulated router trace events s' a := by
  unfold State.read at hread
  split at hread
  · rename_i r hpc
    split at hread
    · rename_i node_id todo c parser resp htodo hphase
      obtain rfl := (hsound.routing r hpc).fresh c parser resp hphase
      have huse : s.thread.exchanging = some (c, (encode_request s.thread.req).length, parser.buffer_) := by
        simp [Thread.exchanging, hpc, hphase]
      obtain ⟨_, hexchange⟩ := hsound.busy _ _ _ huse
      dsimp only at hread
      split at hread
      · rename_i hsome
        rcases hexchange.read hsome.1 with ⟨parser', hcall, _⟩ |
          ⟨bytes, resp, parser', hcall, hidle, hlog, hreceive, _⟩
        · rw [hcall] at hread
          obtain ⟨rfl, rfl⟩ := Prod.mk.inj (Option.some.inj hread)
          refine simulated_stay rfl ?_
          rw [List.append_nil, ← setThread_same a]
          refine hrefines.use huse (hrefines.whole c) (.inr ⟨_, _, rfl⟩) ?_ ?_
          · rintro r' hr
            obtain rfl := Pc.routing.inj hr
            simp
          · refine ⟨?_, hrefines.thread.parser, hrefines.thread.req, hrefines.thread.conns⟩
            rw [hrefines.thread.pc, hpc]
            simp [Pc.abstract, Routing.abstract, Phase.abstract, hphase]
        · rw [hcall] at hread
          have hreported : reported trace c = some bytes := by
            rw [reported, hlog]
            rfl
          have hphase' : (r.abstract (reported trace)).phase = .await bytes := by
            simp [Routing.abstract, hphase, Phase.abstract, hreported]
          have hstep : (a.threads 0).step router 0 a.shared = _ := hrefines.step_eq hpc
          rw [route_cons _ _ (show (r.abstract (reported trace)).todo = node_id :: todo from htodo)] at hstep
          simp only [hphase', kv.router.Thread.await, hreceive, hrefines.thread.req] at hstep
          dsimp only at hread
          split at hread
          · rename_i hget
            obtain ⟨rfl, rfl⟩ := Prod.mk.inj (Option.some.inj hread)
            rw [if_pos (show s.thread.req.command = .Get from hget), Option.map_some] at hstep
            exact simulated_follow hstep rfl
              (hrefines.use huse (hrefines.whole c) (.inl hidle) (by simp) (hrefines.thread.setPc rfl))
          · rename_i hput
            obtain ⟨rfl, rfl⟩ := Prod.mk.inj (Option.some.inj hread)
            rw [if_neg (show s.thread.req.command ≠ .Get from hput), Option.map_some] at hstep
            refine simulated_follow hstep rfl
              (hrefines.use huse (hrefines.whole c) (.inl hidle) ?_ (hrefines.thread.setPc rfl))
            rintro r' hr
            obtain rfl := Pc.routing.inj hr
            simp
      · exact absurd hread (by simp)
    · exact absurd hread (by simp)
  · exact absurd hread (by simp)

theorem Refines.serve (hrefines : Refines trace s a) {n : Nat} {channel : Channel}
    (hserve : (s.channels c).serve n = some channel) : Simulated router trace [] (s.setChannel c channel) a := by
  refine simulated_stay rfl ?_
  rw [List.append_nil]
  refine hrefines.setChannel ?_ (fun hspare => (hrefines.spare c hspare).serve hserve) hrefines.alive hrefines.nodes
    hrefines.thread
  rw [(Channel.serve_eq hserve).2.2]
  exact hrefines.whole c

/-- The node works on the request in use, but does not execute it. -/
theorem Refines.stutter (hrefines : Refines trace s a) {sent : Nat} {arrived : Bytes} {channel : Channel}
    (huse : s.thread.exchanging = some (c, sent, arrived)) (hwhole : channel.broken = false)
    (hwork : ∀ event ∈ events, event.Work c) (hreply : events.findSome? Event.reply = none) :
    Simulated router trace events (s.setChannel c channel) a := by
  refine simulated_stay (observe_work hwork) (hrefines.setChannel hwhole
    (fun hspare => absurd huse (hspare sent arrived))
    hrefines.alive hrefines.nodes (hrefines.thread.log ?_))
  intro c' sent' arrived' huse'
  obtain rfl : c = c' := congrArg Prod.fst (Option.some.inj (huse.symm.trans huse'))
  rw [reported_work hwork, hreply, Option.or_none]

/-- The node executes the request, and the router forwards it. -/
theorem Refines.execute (hsound : Sound router trace s) (hok : kv.router.Consistent router a)
    (hrefines : Refines trace s a) {sent : Nat} {arrived : Bytes} {req : Request}
    (huse : s.thread.exchanging = some (c, sent, arrived)) (hbusy : (s.channels c).served.pc = .executing req) :
    Simulated router trace
      [.executed c req (reply req ((s.stores (s.channels c).node_id).get req.key))]
      { s.setChannel c { s.channels c with
          served := { (s.channels c).served with
            pc := .replying (reply req ((s.stores (s.channels c).node_id).get req.key)) } } with
        stores := Function.update s.stores (s.channels c).node_id
          ((s.stores (s.channels c).node_id).handle_request req).2 } a := by
  obtain ⟨⟨node_id, hcurrent, hcached⟩, hexchange⟩ := hsound.busy c sent arrived huse
  obtain ⟨rfl, hlog⟩ := hexchange.executing hbusy
  obtain ⟨r, hpc⟩ := Thread.exchanging_routing huse
  obtain ⟨hhead, hphase⟩ := Thread.exchanging_phase hpc huse
  obtain ⟨todo, htodo⟩ : ∃ todo, r.todo = node_id :: todo := List.head?_eq_some_iff.mp (hhead ▸ hcurrent)
  rw [(hsound.cached node_id c hcached).2]
  have hreported : reported trace c = none := by
    rw [reported, hlog]
    rfl
  -- The router's side of the step.
  obtain ⟨conn, hconn⟩ : ∃ conn, (a.threads 0).backend_conns node_id = some conn := by
    cases hconn : (a.threads 0).backend_conns node_id with
    | none => simp [(hrefines.thread.conns node_id).mp hconn] at hcached
    | some conn => exact ⟨conn, rfl⟩
  obtain ⟨parser, hservice, _⟩ := service_client_encode_request KVStore.handle_request
    ((hok.threads 0).conns node_id conn hconn).2 (hsound.wellFormed_of_exchanging huse) (s.stores node_id)
  have hstep : (a.threads 0).step router 0 a.shared = _ := hrefines.step_eq hpc
  have hforward : (r.abstract (reported trace)).phase = .forward := by
    rw [Routing.abstract, hphase, hreported]
    rfl
  rw [route_cons _ _ (show (r.abstract (reported trace)).todo = node_id :: todo from htodo)] at hstep
  simp only [hforward, kv.router.Thread.forward, hconn, (hok.threads 0).connected_eq hconn, hrefines.nodes,
    hrefines.thread.req, hservice, if_true, KVStore.handle_request_fst] at hstep
  refine simulated_follow hstep rfl (hrefines.setChannel (hrefines.whole c)
    (fun hspare => absurd huse (hspare sent arrived)) hrefines.alive ?_ ?_)
  · intro id
    dsimp only
    rw [kv.router.Shared.setNode_nodes]
    by_cases hid : id = node_id
    · subst hid
      rw [Function.update_self, Function.update_self]
    · rw [Function.update_of_ne hid, Function.update_of_ne hid, hrefines.nodes]
  · dsimp only
    rw [kv.router.setThread_threads, Function.update_self]
    refine ⟨?_, hrefines.thread.parser, hrefines.thread.req, fun id => ?_⟩
    · have hnow :
          ∀ event ∈ [Event.executed c s.thread.req (reply s.thread.req ((s.stores node_id).get s.thread.req.key))],
          event.Work c := by
        intro event hmem
        exact List.mem_singleton.mp hmem ▸ .executed _ _
      have hreply := reported_work hnow trace
      rw [hreported] at hreply
      simp [hpc, Pc.abstract, Routing.abstract, hphase, hreply, Event.reply]
    · by_cases hid : id = node_id
      · subst hid
        simp [hcached]
      · simpa [hid] using hrefines.thread.conns id

theorem Refines.work (hsound : Sound router trace s) (hok : kv.router.Consistent router a)
    (hrefines : Refines trace s a)
    {channel : Channel} {store : KVStore}
    (hmove : WorkMove c (s.channels c) (s.stores (s.channels c).node_id) channel store events) :
    Simulated router trace events
      { s.setChannel c channel with stores := Function.update s.stores (s.channels c).node_id store } a := by
  have hwhole : channel.broken = false := hmove.broken.trans (hrefines.whole c)
  by_cases hspare : ∀ sent arrived, s.thread.exchanging ≠ some (c, sent, arrived)
  · obtain ⟨hidle, rfl, rfl⟩ := (hrefines.spare c hspare).work hmove
    refine simulated_stay rfl ?_
    rw [List.append_nil, Function.update_eq_self]
    exact hrefines.setChannel hwhole (fun _ => hidle) hrefines.alive hrefines.nodes hrefines.thread
  · simp only [not_forall, not_not] at hspare
    obtain ⟨sent, arrived, huse⟩ := hspare
    have hexchange := (hsound.busy c sent arrived huse).2
    have hclean := (hexchange.work (hsound.wellFormed_of_exchanging huse) (hsound.values _) hmove).2.2
    have hwork := hmove.events_work hclean
    cases hmove with
    | executed hbusy => exact hrefines.execute hsound hok huse hbusy
    | rejected => exact absurd List.mem_cons_self hclean
    | waited =>
      rw [Function.update_eq_self]
      exact hrefines.stutter huse hwhole hwork rfl
    | parsed =>
      rw [Function.update_eq_self]
      exact hrefines.stutter huse hwhole hwork rfl
    | replied =>
      rw [Function.update_eq_self]
      exact hrefines.stutter huse hwhole hwork rfl

theorem Refines.step (hknown : router.Known) (hsound : Sound router trace s) (hok : kv.router.Consistent router a)
    (hrefines : Refines trace s a) {label : Label} (hlabel : Undisturbed label)
    (hstep : step router s label = some (s', events)) : Simulated router trace events s' a := by
  cases label with
  | recv data => exact hrefines.recv hstep
  | hangup => exact hrefines.hangup hstep
  | step =>
    rw [wire.step, State.advance] at hstep
    split at hstep
    · exact absurd hstep (by simp)
    · rename_i hpc
      exact hrefines.dispatch hpc hstep
    · rename_i r hpc
      exact hrefines.route hsound hpc hstep
    · rename_i bytes hpc
      obtain ⟨rfl, rfl⟩ := Prod.mk.inj (Option.some.inj hstep)
      have hrouter : (a.threads 0).step router 0 a.shared =
          some ({ a.threads 0 with pc := .draining }, a.shared, [.sent 0 bytes]) := by
        rw [kv.router.Thread.step, hrefines.thread.pc, hpc]
        rfl
      exact simulated_follow hrouter rfl
        (hrefines.setThread (Thread.exchanging_of_pc (by simp [hpc])) (by simp) (hrefines.thread.setPc rfl))
    · exact absurd hstep (by simp)
  | connect accepted =>
    obtain rfl : accepted = true := hlabel
    exact hrefines.connect hknown hok hstep
  | write n => exact hrefines.write hstep
  | read n => exact hrefines.read hsound hstep
  | serve c n =>
    obtain ⟨channel, hserve, heq⟩ := Option.map_eq_some_iff.mp hstep
    obtain ⟨rfl, rfl⟩ := Prod.mk.inj heq
    exact hrefines.serve hserve
  | work c =>
    obtain ⟨⟨channel, store, worked⟩, hwork, heq⟩ := Option.map_eq_some_iff.mp hstep
    obtain ⟨rfl, rfl⟩ := Prod.mk.inj heq
    exact hrefines.work hsound hok (Channel.work_move hwork)
  | _ => exact hlabel.elim

theorem refines_init : Refines [] (system router).init (kv.router.system router).init where
  whole _ := rfl
  spare _ _ := ⟨.inl rfl, rfl, rfl, rfl⟩
  running r hpc := absurd hpc (by simp [system])
  alive := rfl
  nodes _ := rfl
  thread := ⟨rfl, rfl, rfl, fun _ => iff_of_true rfl rfl⟩

/-- A run of reads and writes in which nothing fails is a run of the router, in
    which each request and each reply travels in one step. -/
theorem exists_router_run (hknown : router.Known)
    (hrun : Run (system router) Undisturbed (system router).init trace s) :
    ∃ trace' a, Run (kv.router.system router) kv.router.NoFailure (kv.router.system router).init trace' a ∧
      trace'.filterMap visible = trace.filterMap observe ∧ Refines trace s a := by
  have hinv : Sound router trace s ∧ ∃ trace' a,
      Run (kv.router.system router) kv.router.NoFailure (kv.router.system router).init trace' a ∧
        trace'.filterMap visible = trace.filterMap observe ∧ Refines trace s a := by
    refine hrun.invariant (C := fun _ => True) (I := fun trace s => Sound router trace s ∧ ∃ trace' a,
      Run (kv.router.system router) kv.router.NoFailure (kv.router.system router).init trace' a ∧
        trace'.filterMap visible = trace.filterMap observe ∧ Refines trace s a) (fun _ _ _ => trivial)
      ⟨sound_init router, [], _, .nil, rfl, refines_init⟩ ?_ trivial
    rintro trace s label s' events ⟨hsound, trace', a, hrouter, hsame, hrefines⟩ hlabel _ hstep
    have hok : kv.router.Consistent router a :=
      (kv.router.run_invariant (C := fun _ => True) (I := fun _ _ => True) hknown
        (fun _ => kv.router.NoFailure.crashStop)
        (fun _ _ _ => trivial) trivial (fun _ _ _ _ _ _ _ _ _ _ => trivial) hrouter trivial).1
    obtain ⟨later, a', hlater, hmore, hrefines'⟩ := hrefines.step hknown hsound hok hlabel hstep
    refine ⟨hsound.step hstep, trace' ++ later, a', hrouter.append hlater, ?_, hrefines'⟩
    rw [List.filterMap_append, List.filterMap_append, hsame, hmore]
  exact hinv.2

/-- The bytes that go to and from the client. -/
def Event.bytes : Event → Option server.Event
  | .received data => some (.received 0 data)
  | .sent bytes => some (.sent 0 bytes)
  | _ => none

def bytesOf : server.Event → Option server.Event
  | .received t data => some (.received t data)
  | .sent t bytes => some (.sent t bytes)
  | _ => none

/-- While nothing fails, no client can tell the router from one server over a
    plain map, however its bytes and those of the nodes are cut up. -/
theorem exists_plainServer_bytes {nodes : List NodeAddress} {vnodes replicas : Nat}
    (hrun : Run (system (Router.create nodes vnodes replicas)) Undisturbed
      (system (Router.create nodes vnodes replicas)).init trace s) :
    ∃ served b, Run kv.router.plainServer (fun _ => True) kv.router.plainServer.init served b ∧
      served.filterMap bytesOf = trace.filterMap Event.bytes := by
  obtain ⟨trace', a, hrouter, hsame, _⟩ := exists_router_run Router.known_create hrun
  obtain ⟨b, hserver, _⟩ := kv.router.exists_plainServer_run Router.led_create Router.known_create hrouter
  refine ⟨_, b, hserver, ?_⟩
  -- Both sides are read off the events that the two levels share.
  have hleft : (trace'.filterMap (kv.router.observe (Router.create nodes vnodes replicas))).filterMap bytesOf =
      (trace'.filterMap visible).filterMap fun event =>
        (kv.router.observe (Router.create nodes vnodes replicas) event).bind bytesOf := by
    rw [List.filterMap_filterMap, List.filterMap_filterMap]
    congr 1
    funext event
    cases event with
    | executed node_id t req =>
      simp only [kv.router.observe, visible, Option.bind_none]
      split <;> rfl
    | _ => rfl
  have hright : trace.filterMap Event.bytes = (trace.filterMap observe).filterMap fun event =>
      (kv.router.observe (Router.create nodes vnodes replicas) event).bind bytesOf := by
    rw [List.filterMap_filterMap]
    congr 1
    funext event
    cases event <;> rfl
  rw [hleft, hsame, hright]

end kv.wire
