import Kv.Wire.Channel

namespace kv.wire

open kv.protocol Transition

/-- The events of a connection: a request is started on it, what the node does
    with it, and its reply is read. -/
def Event.On (c : Nat) : Event → Prop
  | .transmitted c' _ => c' = c
  | .parsed c' _ => c' = c
  | .rejected c' => c' = c
  | .executed c' _ _ => c' = c
  | .replied c' _ => c' = c
  | .answered c' _ _ => c' = c
  | _ => False

instance (c : Nat) : DecidablePred (Event.On c)
  | .transmitted c' _ | .parsed c' _ | .rejected c' | .executed c' _ _ | .replied c' _ | .answered c' _ _ =>
    inferInstanceAs (Decidable (c' = c))
  | .received _ | .invoked _ | .returned _ _ | .sent _ => isFalse id

def Event.follow (c : Nat) (log : List Event) (event : Event) : List Event :=
  if event.On c then
    match event with
    | .transmitted _ _ => [event]
    | _ => log ++ [event]
  else log

/-- The events of a connection since the last request was started on it. -/
def exchange (trace : List Event) (c : Nat) : List Event := trace.foldl (Event.follow c) []

def Event.collect (current : Option (Request × List Response)) : Event → Option (Request × List Response)
  | .invoked req => some (req, [])
  | .answered _ _ resp => current.map fun (req, resps) => (req, resps ++ [resp])
  | .returned _ _ => none
  | _ => current

/-- The request that the thread is routing after these events, with the replies
    that `send_request` has returned for it. -/
def routed (trace : List Event) : Option (Request × List Response) := trace.foldl Event.collect none

/-- What a node does with a request it has parsed. -/
inductive Event.Work (c : Nat) : Event → Prop
  | parsed (req : Request) : Work c (.parsed c req)
  | executed (req : Request) (bytes : Bytes) : Work c (.executed c req bytes)
  | replied (bytes : Bytes) : Work c (.replied c bytes)

variable {trace events : List Event} {c : Nat} {event : Event}

theorem Event.Work.not_on (hwork : event.Work c) {c' : Nat} (hne : c' ≠ c) : ¬ event.On c' := by
  cases hwork <;> exact Ne.symm hne

theorem Event.Work.follow (hwork : event.Work c) (log : List Event) : Event.follow c log event = log ++ [event] := by
  cases hwork <;> exact if_pos rfl

theorem WorkMove.events_work {channel channel' : Channel} {store store' : KVStore}
    (hmove : WorkMove c channel store channel' store' events) (hrejected : .rejected c ∉ events) :
    ∀ event ∈ events, event.Work c := by
  cases hmove with
  | rejected => exact absurd List.mem_cons_self hrejected
  | waited => simp
  | parsed =>
    intro event hmem
    exact List.mem_singleton.mp hmem ▸ .parsed _
  | executed =>
    intro event hmem
    exact List.mem_singleton.mp hmem ▸ .executed _ _
  | replied =>
    intro event hmem
    exact List.mem_singleton.mp hmem ▸ .replied _

theorem exchange_append (trace events : List Event) (c : Nat) :
    exchange (trace ++ events) c = events.foldl (Event.follow c) (exchange trace c) := by
  rw [exchange, List.foldl_append]
  rfl

theorem exchange_transmitted (trace : List Event) (c : Nat) (req : Request) :
    exchange (trace ++ [.transmitted c req]) c = [.transmitted c req] := by
  rw [exchange_append]
  exact if_pos rfl

theorem exchange_off (hoff : ∀ event ∈ events, ¬ event.On c) (trace : List Event) :
    exchange (trace ++ events) c = exchange trace c := by
  rw [exchange_append]
  induction events with
  | nil => rfl
  | cons event events ih =>
    have hnext : Event.follow c (exchange trace c) event = exchange trace c := if_neg (hoff event List.mem_cons_self)
    rw [List.foldl_cons, hnext]
    exact ih fun event' hmem => hoff event' (List.mem_cons_of_mem _ hmem)

theorem exchange_work (hwork : ∀ event ∈ events, event.Work c) (trace : List Event) :
    exchange (trace ++ events) c = exchange trace c ++ events := by
  rw [exchange_append]
  generalize exchange trace c = log
  induction events generalizing log with
  | nil => rw [List.foldl_nil, List.append_nil]
  | cons event events ih =>
    rw [List.foldl_cons, (hwork event List.mem_cons_self).follow,
      ih (fun event' hmem => hwork event' (List.mem_cons_of_mem _ hmem)), List.append_assoc]
    rfl

theorem routed_append (trace events : List Event) :
    routed (trace ++ events) = events.foldl Event.collect (routed trace) := by
  rw [routed, List.foldl_append]
  rfl

theorem routed_work (hwork : ∀ event ∈ events, event.Work c) (trace : List Event) :
    routed (trace ++ events) = routed trace := by
  rw [routed_append]
  induction events with
  | nil => rfl
  | cons event events ih =>
    have hnext : Event.collect (routed trace) event = routed trace := by
      cases hwork event List.mem_cons_self <;> rfl
    rw [List.foldl_cons, hnext]
    exact ih fun event' hmem => hwork event' (List.mem_cons_of_mem _ hmem)

end kv.wire
