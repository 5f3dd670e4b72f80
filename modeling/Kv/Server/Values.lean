import Kv.Protocol.Request.RoundTrip
import Kv.Server.Answers

namespace kv

open protocol Transition

/-- Every value is one that the protocol can carry. -/
def KVStore.Bounded (store : KVStore) : Prop := ∀ key value, store.get key = some value → value.length ≤ kMaxValueLen

theorem KVStore.Bounded.handle_request {store : KVStore} (hstore : store.Bounded) {req : Request}
    (hwf : req.WellFormed) : (store.handle_request req).2.Bounded := fun _ _ hget =>
  KVStore.length_get_handle_request hwf.length_value hstore hget

namespace server

/-- What a request goes through before it is executed keeps the values short. -/
structure Sound (s : State KVStore) : Prop where
  values : s.store.Bounded
  executing : ∀ t req, (s.connections t).pc = .executing req → req.WellFormed

variable {s s' : State KVStore} {events : List Event}

theorem wellFormed_of_decode {buffer rest : Bytes} {req : Request}
    (hdecode : requestFormat.decode buffer = some (.Complete req, rest)) : req.WellFormed := by
  have hparse := IncrementalParser.try_parse_request_eq { buffer_ := buffer } ⟨.Ping, [], []⟩
  rw [hdecode] at hparse
  exact IncrementalParser.try_parse_request_wellFormed hparse

theorem Sound.setConnection (hsound : Sound s) {t : Nat} {connection : Connection} {store : KVStore}
    (hstore : store.Bounded) (hconnection : ∀ req, connection.pc = .executing req → req.WellFormed) :
    Sound { s.setConnection t connection with store } where
  values := hstore
  executing := by
    intro t' req hpc
    by_cases heq : t' = t
    · subst heq
      exact hconnection req (by simpa [State.setConnection] using hpc)
    · exact hsound.executing t' req (by simpa [State.setConnection, Function.update_of_ne heq] using hpc)

theorem Sound.step (hsound : Sound s) {label : Label}
    (hstep : step KVStore.handle_request s label = some (s', events)) : Sound s' := by
  cases label with
  | recv t data =>
    obtain ⟨connection, hrecv, hstate⟩ := Option.map_eq_some_iff.mp hstep
    obtain ⟨rfl, -⟩ := Prod.mk.inj hstate
    refine hsound.setConnection hsound.values fun req hpc => ?_
    unfold Connection.recv at hrecv
    split at hrecv
    · obtain rfl := Option.some.inj hrecv
      cases hpc
    · simp at hrecv
  | hangup t =>
    obtain ⟨connection, hhangup, hstate⟩ := Option.map_eq_some_iff.mp hstep
    obtain ⟨rfl, -⟩ := Prod.mk.inj hstate
    exact hsound.setConnection hsound.values fun req hpc => by simp [Connection.pc_of_hangup hhangup] at hpc
  | step t =>
    obtain ⟨⟨connection, store, _⟩, hserved, hstate⟩ := Option.map_eq_some_iff.mp hstep
    obtain ⟨rfl, -⟩ := Prod.mk.inj hstate
    cases ConnectionStep.of_step hserved with
    | drained => exact hsound.setConnection hsound.values nofun
    | rejected => exact hsound.setConnection hsound.values nofun
    | replied => exact hsound.setConnection hsound.values nofun
    | parsed _ hemit =>
      refine hsound.setConnection hsound.values fun req hpc => ?_
      obtain rfl := Pc.executing.inj hpc
      exact wellFormed_of_decode hemit
    | executed hpc =>
      exact hsound.setConnection (hsound.values.handle_request (hsound.executing t _ hpc)) nofun

theorem sound_of_run {store : KVStore} (hstore : store.Bounded) {P : Label → Prop} {trace : List Event}
    (hrun : Run (system KVStore.handle_request store) P (system KVStore.handle_request store).init trace s) :
    Sound s := by
  induction hrun with
  | nil => exact ⟨hstore, nofun⟩
  | snoc _ _ hstep ih => exact ih.step hstep

end server

end kv
