import Kv.Protocol.Request.RoundTrip
import Kv.Server.HandleRequest

namespace kv

open kv.protocol Incremental

universe u

variable {σ : Type u} (handle_request : σ → Request → Bytes × σ)

/-- The drain loop of `service_client`, over any store. The bytes are what it
    writes to the client, in order; `none` is a loop that has not ended yet. -/
def service_loop : Nat → IncrementalParser → Request → σ → Option (Bytes × IncrementalParser × σ)
  | 0, _, _, _ => none
  | fuel + 1, parser, req, store =>
    match parser.try_parse_request req with
    | (.Incomplete, _, parser) => some ([], parser, store)
    | (.Error, req, parser) =>
      (service_loop fuel parser req store).map fun (later, final) =>
        (encode_error_response parser.error_message_ ++ later, final)
    | (.Complete, req, parser) =>
      (service_loop fuel parser req (handle_request store req).2).map fun (later, final) =>
        ((handle_request store req).1 ++ later, final)

/-- One read of `service_client`. A read adds a byte at most per call, so the
    buffered bytes bound the calls of a loop that ends. -/
def service_client (parser : IncrementalParser) (data : Bytes) (store : σ) :
    Option (Bytes × IncrementalParser × σ) :=
  service_loop handle_request ((parser.feed data).buffer_.length + 1) (parser.feed data) ⟨.Ping, [], []⟩ store

/-- A well-formed request that arrives on a quiet connection is executed once,
    answered once, and leaves the connection quiet. -/
theorem service_client_encode_request {parser : IncrementalParser} (hparser : parser.buffer_ = []) {req : Request}
    (hwf : req.WellFormed) (store : σ) :
    ∃ parser', service_client handle_request parser (encode_request req) store =
      some ((handle_request store req).1, parser', (handle_request store req).2) ∧ parser'.buffer_ = [] := by
  have hlen : 1 ≤ (parser.feed (encode_request req)).buffer_.length := by
    simp only [IncrementalParser.feed, hparser, List.nil_append]
    exact List.length_pos_iff.mpr (encode_request_ne_nil req)
  obtain ⟨fuel, hfuel⟩ := Nat.exists_eq_add_of_le' hlen
  refine ⟨parser, ?_, hparser⟩
  rw [service_client, hfuel, service_loop, IncrementalParser.try_parse_request_encode_request hparser hwf]
  simp only [service_loop, IncrementalParser.try_parse_request_empty hparser, Option.map_some, List.append_nil]

end kv
