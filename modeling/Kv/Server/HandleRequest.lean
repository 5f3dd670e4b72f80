import Kv.Protocol.Messages
import Kv.Server.KVStore

namespace kv

open kv.protocol

/-- `sizeof(buf)` of `WorkerReactor::service_client`. -/
def kReadSize : Nat := 4096

/-- `WorkerReactor::handle_request`. -/
def KVStore.handle_request (store_ : KVStore) (req : Request) : Bytes × KVStore :=
  match req.command with
  | .Get =>
    match store_.get req.key with
    | some value => (encode_value_response value, store_)
    | none => (encode_not_found_response, store_)
  | .Set => (encode_ok_response, store_.set req.key req.value)
  | .Delete =>
    match store_.remove req.key with
    | (true, store_) => (encode_deleted_response, store_)
    | (false, store_) => (encode_not_found_response, store_)
  | .Ping => (encode_pong_response, store_)

/-- What a key-value server is about: one map, and what each request reads and
    writes of it. -/
abbrev PlainMap := Bytes → Option Bytes

/-- The answer of a plain map, from what it holds for the request's key. -/
def reply (req : Request) (held : Option Bytes) : Bytes :=
  match req.command with
  | .Get =>
    match held with
    | some value => encode_value_response value
    | none => encode_not_found_response
  | .Set => encode_ok_response
  | .Delete => if held.isSome then encode_deleted_response else encode_not_found_response
  | .Ping => encode_pong_response

/-- What a plain map holds for the request's key afterwards. -/
def result (req : Request) (held : Option Bytes) : Option Bytes :=
  match req.command with
  | .Get => held
  | .Set => some req.value
  | .Delete => none
  | .Ping => held

def PlainMap.handle_request (map : PlainMap) (req : Request) : Bytes × PlainMap :=
  (reply req (map req.key), Function.update map req.key (result req (map req.key)))

/-- The contents of a sharded store, as a plain map. -/
def KVStore.contents (store_ : KVStore) : PlainMap := store_.get

theorem KVStore.handle_request_fst (store_ : KVStore) (req : Request) :
    (store_.handle_request req).1 = reply req (store_.get req.key) := by
  obtain ⟨command, key, value⟩ := req
  cases command with
  | Get => cases hget : store_.get key <;> simp [handle_request, reply, hget]
  | Set => rfl
  | Ping => rfl
  | Delete =>
    have hremove := store_.remove_fst key
    cases hcall : store_.remove key with
    | mk removed store' =>
      rw [hcall] at hremove
      cases removed <;> simp [handle_request, reply, hcall, ← hremove]

/-- A request changes what its key holds, and nothing else. -/
theorem KVStore.get_handle_request (store_ : KVStore) (req : Request) (key : Bytes) :
    (store_.handle_request req).2.get key =
      if key = req.key then result req (store_.get req.key) else store_.get key := by
  obtain ⟨command, rkey, value⟩ := req
  cases command with
  | Set => exact store_.get_set rkey value key
  | Ping =>
    change store_.get key = if key = rkey then store_.get rkey else store_.get key
    split
    · rename_i heq
      rw [heq]
    · rfl
  | Get =>
    have hsame : (store_.handle_request ⟨.Get, rkey, value⟩).2 = store_ := by
      cases hget : store_.get rkey <;> simp [handle_request, hget]
    change _ = if key = rkey then store_.get rkey else store_.get key
    rw [hsame]
    split
    · rename_i heq
      rw [heq]
    · rfl
  | Delete =>
    have hremove := store_.get_remove rkey key
    change _ = if key = rkey then none else store_.get key
    rw [← hremove]
    cases hcall : store_.remove rkey with
    | mk removed store' => cases removed <;> simp [handle_request, hcall]

/-- A store that holds only values the protocol can carry goes on doing so. -/
theorem KVStore.length_get_handle_request {store_ : KVStore} {req : Request}
    (hvalue : req.command = .Set → req.value.length ≤ kMaxValueLen)
    (hstore : ∀ key value, store_.get key = some value → value.length ≤ kMaxValueLen) {key value : Bytes}
    (hget : (store_.handle_request req).2.get key = some value) : value.length ≤ kMaxValueLen := by
  rw [get_handle_request] at hget
  split at hget
  · cases hcommand : req.command with
    | Set =>
      rw [result, hcommand, Option.some.injEq] at hget
      exact hget ▸ hvalue hcommand
    | Get =>
      rw [result, hcommand] at hget
      exact hstore _ _ hget
    | Ping =>
      rw [result, hcommand] at hget
      exact hstore _ _ hget
    | Delete => simp [result, hcommand] at hget
  · exact hstore key value hget

/-- The sharded store refines the plain map. -/
theorem KVStore.handle_request_contents (store_ : KVStore) (req : Request) :
    (store_.handle_request req).1 = (PlainMap.handle_request store_.contents req).1 ∧
      (store_.handle_request req).2.contents = (PlainMap.handle_request store_.contents req).2 := by
  refine ⟨store_.handle_request_fst req, ?_⟩
  funext key
  simp only [PlainMap.handle_request, Function.update_apply]
  exact store_.get_handle_request req key

end kv
