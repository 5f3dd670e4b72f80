import Kv.Protocol.Response.RoundTrip

open Incremental

namespace kv

open kv.protocol

/-- The router's switch over a parsed response. Its final `return` is not
    reachable from a value of the enumeration. -/
def encode_response (resp : Response) : Bytes :=
  match resp.type with
  | .Value => encode_value_response resp.value
  | .NotFound => encode_not_found_response
  | .Ok => encode_ok_response
  | .Deleted => encode_deleted_response
  | .Error => encode_error_response resp.message
  | .Pong => encode_pong_response

/-- Re-encoding reads nothing but what a response says. -/
theorem encode_response_carried (resp : Response) : encode_response resp.carried = encode_response resp := by
  obtain ⟨type, value, message⟩ := resp
  cases type <;> rfl

theorem protocol.Response.Encoded.eq_encode_response {resp : Response} {bytes : Bytes}
    (hencoded : resp.Encoded bytes) : bytes = encode_response resp := by
  cases hencoded <;> rfl

/-- Response streams survive any segmentation, and the router relays them byte
    for byte. The parsed responses say what the sent ones said, and each of
    them is re-encoded into the bytes that it was parsed from. -/
theorem feed_chunks_relay {responses : List (Response × Bytes)}
    (hsent : ∀ m ∈ responses, m.1.WellFormed ∧ m.1.Encoded m.2) {chunks : List Bytes}
    (hchunks : chunks.flatten = (responses.map Prod.snd).flatten) {fuel : Nat}
    (hfuel : chunks.flatten.length < fuel) (resp : Response) :
    ∃ parsed resp' self,
      ({} : ResponseParser).feed_chunks fuel resp chunks = some (parsed.map .Complete, resp', self) ∧
      self.buffer_ = [] ∧
      List.Forall₂ (fun p m => p.carried = m.1.carried ∧ encode_response p = m.2) parsed responses := by
  have hcut : Cut Prod.snd responses chunks.flatten responses [] [] :=
    ⟨by simp, by simpa using hchunks, fun _ => rfl, by simp⟩
  have hfeeds : Feeds responseFormat.decode ({} : ResponseParser).buffer_ chunks
      (responses.map fun m => .Complete m.1.carried) [] :=
    inverts_encoded.feeds_cut LineFormat.lawful_decode LineFormat.decode_nil hsent hcut
  obtain ⟨results, resp', self, hself, hbuffer, hcarried⟩ :=
    ResponseParser.feed_chunks_of_feeds hfeeds (by simpa using hfuel) resp
  suffices hparsed : ∃ parsed : List Response, results = parsed.map .Complete ∧
      List.Forall₂ (fun p m => p.carried = m.1.carried ∧ encode_response p = m.2) parsed responses by
    obtain ⟨parsed, rfl, hall⟩ := hparsed
    exact ⟨parsed, resp', self, hself, hbuffer, hall⟩
  clear hself hfeeds hcut hchunks
  induction responses generalizing results with
  | nil => exact ⟨[], by simpa using hcarried, .nil⟩
  | cons m responses ih =>
    obtain ⟨result, results, rfl⟩ : ∃ r rs, results = r :: rs := by
      cases results with
      | nil => simp at hcarried
      | cons r rs => exact ⟨r, rs, rfl⟩
    simp only [List.map_cons, List.cons.injEq] at hcarried
    obtain ⟨parsed, rfl, hall⟩ := ih (fun m' hm' => hsent m' (by simp [hm'])) results hcarried.2
    cases result with
    | Error message => simp [ResponseResult.carried] at hcarried
    | Complete p =>
      have hp : p.carried = m.1.carried := by simpa [ResponseResult.carried] using hcarried.1
      refine ⟨p :: parsed, rfl, .cons ⟨hp, ?_⟩ hall⟩
      rw [← encode_response_carried, hp, encode_response_carried]
      exact (hsent m (by simp)).2.eq_encode_response.symm

/-- A value that looks like a reply, cut in the middle of its length. -/
theorem feed_chunks_relay_example :
    let responses : List (Response × Bytes) :=
      [(⟨.Value, ascii "OK" ++ [LF], []⟩, encode_value_response (ascii "OK" ++ [LF])),
        (⟨.Error, [], ascii "no"⟩, encode_error_response (ascii "no"))]
    let chunks := [ascii "VALUE", ascii " 3" ++ LF :: ascii "OK" ++ [LF, LF] ++ ascii "ERR", ascii "OR no" ++ [LF]]
    ∃ parsed resp' self,
      ({} : ResponseParser).feed_chunks 24 ⟨.Ok, [], []⟩ chunks = some (parsed.map .Complete, resp', self) ∧
      self.buffer_ = [] ∧
      List.Forall₂ (fun p m => p.carried = m.1.carried ∧ encode_response p = m.2) parsed responses := by
  intro responses chunks
  refine feed_chunks_relay (fun m hm => ?_) (by decide) (by decide) _
  simp only [responses, List.mem_cons, List.not_mem_nil, or_false] at hm
  rcases hm with rfl | rfl
  · exact ⟨by decide, .value⟩
  · exact ⟨by decide, .error⟩

end kv
