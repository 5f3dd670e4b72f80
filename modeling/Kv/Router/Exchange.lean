import Kv.Router.Relay
import Kv.Server.Service

namespace kv

open kv.protocol

/-- The read loop of `send_request` once all of `bytes` has arrived. -/
def receive (bytes : Bytes) : ParseStatus × Response :=
  let (status, resp, _) := (({} : ResponseParser).feed bytes).try_parse_response ⟨.Ok, [], []⟩
  (status, resp)

/-- A received response is re-encoded into the bytes it came in. -/
theorem receive_encoded {resp : Response} {bytes : Bytes} (hwf : resp.WellFormed) (hencoded : resp.Encoded bytes) :
    ∃ resp', receive bytes = (.Complete, resp') ∧ resp'.type = resp.type ∧ encode_response resp' = bytes := by
  have hdecode :
      responseFormat.decode (({} : ResponseParser).feed bytes).buffer_ = some (.Complete resp.carried, []) := by
    simpa [ResponseParser.feed] using inverts_encoded.whole (resp, bytes) ⟨hwf, hencoded⟩ []
  refine ⟨(⟨.Ok, [], []⟩ : Response).assign resp.carried, ?_, ?_, ?_⟩
  · rw [receive, ResponseParser.try_parse_response_eq, hdecode]
    rfl
  · obtain ⟨type, value, message⟩ := resp
    cases type <;> rfl
  · rw [← encode_response_carried, Response.assign_carried, Response.carried_carried, encode_response_carried]
    exact hencoded.eq_encode_response.symm

/-- Every answer of a store whose values fit the protocol can be carried by it,
    and none of them is an `ERROR`. -/
theorem exists_encoded_reply (req : Request) {held : Option Bytes}
    (hheld : ∀ value, held = some value → value.length ≤ kMaxValueLen) :
    ∃ resp : Response, resp.WellFormed ∧ resp.Encoded (reply req held) ∧ resp.type ≠ .Error := by
  obtain ⟨command, key, value⟩ := req
  cases command with
  | Get =>
    cases held with
    | none => exact ⟨⟨.NotFound, [], []⟩, trivial, .not_found, by simp⟩
    | some held => exact ⟨⟨.Value, held, []⟩, hheld held rfl, .value, by simp⟩
  | Set => exact ⟨⟨.Ok, [], []⟩, trivial, .ok, by simp⟩
  | Ping => exact ⟨⟨.Pong, [], []⟩, trivial, .pong, by simp⟩
  | Delete =>
    cases held with
    | none => exact ⟨⟨.NotFound, [], []⟩, trivial, .not_found, by simp⟩
    | some held => exact ⟨⟨.Deleted, [], []⟩, trivial, .deleted, by simp⟩

/-- What the router makes of a store's answer. -/
theorem receive_reply (req : Request) {held : Option Bytes}
    (hheld : ∀ value, held = some value → value.length ≤ kMaxValueLen) :
    ∃ resp, receive (reply req held) = (.Complete, resp) ∧ encode_response resp = reply req held ∧
      resp.type ≠ .Error := by
  obtain ⟨resp, hwf, hencoded, htype⟩ := exists_encoded_reply req hheld
  obtain ⟨resp', hreceive, htype', hencode⟩ := receive_encoded hwf hencoded
  exact ⟨resp', hreceive, hencode, htype' ▸ htype⟩

end kv
