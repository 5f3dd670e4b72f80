import Kv.Lib.LineCodec
import Kv.Protocol.Request.Drain

open Incremental

namespace kv.protocol

/-- A request the protocol can carry. Fields that the command does not transmit
    are empty, as `try_parse_request` leaves them. -/
def Request.WellFormed (req : Request) : Prop :=
  match req.command with
  | .Get => ValidKey req.key ∧ req.value = []
  | .Delete => ValidKey req.key ∧ req.value = []
  | .Set => ValidKey req.key ∧ req.value.length ≤ kMaxValueLen
  | .Ping => req.key = [] ∧ req.value = []

instance Request.decidableWellFormed (req : Request) : Decidable req.WellFormed :=
  match req with
  | ⟨.Get, key, value⟩ => inferInstanceAs (Decidable (ValidKey key ∧ value = []))
  | ⟨.Delete, key, value⟩ => inferInstanceAs (Decidable (ValidKey key ∧ value = []))
  | ⟨.Set, key, value⟩ => inferInstanceAs (Decidable (ValidKey key ∧ value.length ≤ kMaxValueLen))
  | ⟨.Ping, key, value⟩ => inferInstanceAs (Decidable (key = [] ∧ value = []))

theorem Request.WellFormed.length_value {req : Request} (hwf : req.WellFormed) (hset : req.command = .Set) :
    req.value.length ≤ kMaxValueLen := by
  obtain ⟨command, key, value⟩ := req
  obtain rfl : command = .Set := hset
  exact hwf.2

theorem ValidKey.ne_nil {key : Bytes} (hkey : ValidKey key) : key ≠ [] := by
  rintro rfl
  exact absurd hkey.1 (by decide)

/-- The shape shared by `GET` and `DELETE`. -/
private theorem frame_key (cmd : Bytes) (req : Request) (hcmd : LF ∉ cmd) (hlen : cmd.length ≤ 6)
    (hkey : ValidKey req.key) (hverdict : requestVerdict (cmd ++ SP :: req.key) = .item (.Complete req)) :
    requestFormat.Frame (cmd ++ SP :: req.key ++ [LF]) (.Complete req) := by
  obtain ⟨c, hlast, hc⟩ := exists_getLast?_of_gt_space cmd hkey.ne_nil hkey.2.2
  refine .line (F := requestFormat) ?_ ?_ ?_
  · simp only [requestFormat, List.mem_append, List.mem_cons, not_or]
    exact ⟨hcmd, by decide, hkey.not_mem (by decide)⟩
  · have hbound := hkey.2.1
    simp only [requestFormat, List.length_append, List.length_cons, kMaxCommandLineLen, kMaxKeyLen]
    omega
  · simpa only [requestFormat, strip_of_gt_space hlast hc] using hverdict

theorem encode_request_ne_nil (req : Request) : encode_request req ≠ [] := by
  obtain ⟨command, key, value⟩ := req
  cases command <;> simp [encode_request]

theorem encode_request_set (key value : Bytes) :
    encode_request ⟨.Set, key, value⟩ =
      (ascii "SET" ++ SP :: key ++ SP :: to_string value.length) ++ LF :: (value ++ [LF]) := by
  rw [encode_request, show ascii "SET " = ascii "SET" ++ [SP] from by decide]
  simp

private theorem frame_set {key value : Bytes} (hkey : ValidKey key) (hvalue : value.length ≤ kMaxValueLen) :
    requestFormat.Frame (encode_request ⟨.Set, key, value⟩) (.Complete ⟨.Set, key, value⟩) := by
  have hlen : Denotes (to_string value.length) value.length := denotes_to_string hvalue
  have hset : SetHeader (ascii "SET" ++ SP :: key ++ SP :: to_string value.length) key value.length :=
    ⟨_, rfl, hkey, hlen⟩
  obtain ⟨c, hlast, hc⟩ :=
    exists_getLast?_of_gt_space (ascii "SET" ++ SP :: key) (to_string_ne_nil _) hlen.gt_space
  have hline : LF ∉ ascii "SET" ++ SP :: key ++ SP :: to_string value.length := by
    simp only [List.mem_append, List.mem_cons, not_or]
    exact ⟨⟨by decide, by decide, hkey.not_mem (by decide)⟩, by decide,
      not_mem_of_gt_space hlen.gt_space (by decide)⟩
  have hlimit : (ascii "SET" ++ SP :: key ++ SP :: to_string value.length).length ≤ kMaxCommandLineLen := by
    have hkeyLen := hkey.2.1
    have hlenLen := hlen.2.1
    have hcmd : (ascii "SET").length = 3 := by decide
    simp only [List.length_append, List.length_cons, kMaxCommandLineLen, kMaxKeyLen, hcmd]
    omega
  have hverdict : requestFormat.verdict (ascii "SET" ++ SP :: key ++ SP :: to_string value.length) =
      setVerdict key value.length := by
    simp only [requestFormat, strip_of_gt_space hlast hc]
    exact hset.verdict_eq
  rw [encode_request_set]
  exact LineFormat.Frame.payload (F := requestFormat) hline hlimit hverdict

theorem Request.WellFormed.frame {req : Request} (hwf : req.WellFormed) :
    requestFormat.Frame (encode_request req) (.Complete req) := by
  obtain ⟨command, key, value⟩ := req
  cases command with
  | Get =>
    obtain ⟨hkey, rfl⟩ : ValidKey key ∧ value = [] := hwf
    have hframe := frame_key (ascii "GET") ⟨.Get, key, []⟩ (by decide) (by decide) hkey (requestVerdict_get hkey)
    simpa [encode_request, show ascii "GET " = ascii "GET" ++ [SP] from by decide] using hframe
  | Delete =>
    obtain ⟨hkey, rfl⟩ : ValidKey key ∧ value = [] := hwf
    have hframe := frame_key (ascii "DELETE") ⟨.Delete, key, []⟩ (by decide) (by decide) hkey
      (requestVerdict_delete hkey)
    simpa [encode_request, show ascii "DELETE " = ascii "DELETE" ++ [SP] from by decide] using hframe
  | Set =>
    obtain ⟨hkey, hvalue⟩ : ValidKey key ∧ value.length ≤ kMaxValueLen := hwf
    exact frame_set hkey hvalue
  | Ping =>
    obtain ⟨rfl, rfl⟩ : key = [] ∧ value = [] := hwf
    exact .line (F := requestFormat) (by decide) (by decide) requestVerdict_ping

/-- The request parser inverts `encode_request`. -/
theorem inverts_encode_request :
    Inverts requestFormat.decode encode_request ParseResult.Complete Request.WellFormed :=
  LineFormat.inverts_of_frame fun _ hwf => hwf.frame

/-- A well-formed request on a quiet connection is taken whole. -/
theorem IncrementalParser.try_parse_request_encode_request {self : IncrementalParser} (hself : self.buffer_ = [])
    {req : Request} (hwf : req.WellFormed) (out_request : Request) :
    (self.feed (encode_request req)).try_parse_request out_request = (.Complete, req, self) := by
  have hbuffer : (self.feed (encode_request req)).buffer_ = encode_request req ++ [] := by
    simp [feed, hself]
  rw [try_parse_request_eq, hbuffer, inverts_encode_request.whole req hwf []]
  obtain ⟨buffer_, error_message_⟩ := self
  obtain rfl : buffer_ = [] := hself
  rfl

theorem IncrementalParser.try_parse_request_empty {self : IncrementalParser} (hself : self.buffer_ = [])
    (out_request : Request) : self.try_parse_request out_request = (.Incomplete, out_request, self) := by
  rw [try_parse_request_eq, hself, LineFormat.decode_nil]
  rfl

theorem Accepts.wellFormed {line rest final : Bytes} {req : Request} (haccept : Accepts line rest req final) :
    req.WellFormed := by
  cases haccept with
  | get hkey => exact ⟨hkey, rfl⟩
  | delete hkey => exact ⟨hkey, rfl⟩
  | ping => exact ⟨rfl, rfl⟩
  | set hheader =>
    obtain ⟨len, _, hkey, hlen⟩ := hheader
    exact ⟨hkey, hlen.2.2.2.2⟩

/-- Whatever the bytes it came from, a parsed request can be sent on. -/
theorem IncrementalParser.try_parse_request_wellFormed {self self' : IncrementalParser} {out_request req : Request}
    (hcall : self.try_parse_request out_request = (.Complete, req, self')) : req.WellFormed := by
  by_cases hmem : LF ∈ self.buffer_
  · obtain ⟨line, rest, hbuffer, hline⟩ := List.eq_append_cons_of_mem hmem
    rw [self.try_parse_request_line out_request hbuffer hline] at hcall
    cases hfinish : (requestVerdict (strip_trailing_cr line)).finish LF rest with
    | none => simp [hfinish, after] at hcall
    | some emitted =>
      obtain ⟨result, final⟩ := emitted
      cases result with
      | Error message => simp [hfinish, after] at hcall
      | Complete req' =>
        simp only [hfinish, after, Prod.mk.injEq, true_and] at hcall
        obtain ⟨rfl, _⟩ := hcall
        exact ((finish_eq_complete_iff _ _ _ _).mp hfinish).wellFormed
  · rw [self.try_parse_request_open out_request hmem] at hcall
    split at hcall <;> simp [after] at hcall

/-- Request streams survive any segmentation and any cut. Whatever part of the
    encodings of well-formed requests has arrived, in whatever chunks, the
    parser has given back exactly the requests that arrived in full, and keeps
    exactly the bytes of the one that did not. -/
theorem IncrementalParser.feed_chunks_encode_request {requests : List Request}
    (hwf : ∀ req ∈ requests, req.WellFormed) {chunks : List Bytes}
    (hpart : chunks.flatten <+: (requests.map encode_request).flatten)
    {fuel : Nat} (hfuel : chunks.flatten.length < fuel) (req : Request) :
    ∃ done pending rest self,
      requests = done ++ pending ∧
      chunks.flatten = (done.map encode_request).flatten ++ rest ∧
      (pending = [] → rest = []) ∧
      (∀ next later, pending = next :: later → rest <+: encode_request next ∧ rest ≠ encode_request next) ∧
      ({} : IncrementalParser).feed_chunks fuel req chunks = some (done.map .Complete, self) ∧
      self.buffer_ = rest := by
  obtain ⟨done, pending, rest, hcut⟩ := exists_cut requests hpart
  have hfeeds : Feeds requestFormat.decode ({} : IncrementalParser).buffer_ chunks (done.map .Complete) rest :=
    inverts_encode_request.feeds_cut LineFormat.lawful_decode LineFormat.decode_nil hwf hcut
  obtain ⟨self, hself, hbuffer⟩ := feed_chunks_of_feeds hfeeds (by simpa using hfuel) req
  exact ⟨done, pending, rest, self, hcut.messages_eq, hcut.input_eq, hcut.rest_nil, hcut.rest_cut, hself, hbuffer⟩

/-- A `SET` whose value looks like a command, cut inside its last byte. -/
theorem IncrementalParser.feed_chunks_encode_request_example :
    let requests : List Request := [⟨.Get, ascii "a", []⟩, ⟨.Set, ascii "k", ascii "x" ++ [LF]⟩]
    let chunks := [ascii "GET a" ++ LF :: ascii "SET", ascii " k 2" ++ LF :: ascii "x" ++ [LF]]
    (∀ req ∈ requests, req.WellFormed) ∧ ∃ done pending rest self,
      requests = done ++ pending ∧
      chunks.flatten = (done.map encode_request).flatten ++ rest ∧
      (pending = [] → rest = []) ∧
      (∀ next later, pending = next :: later → rest <+: encode_request next ∧ rest ≠ encode_request next) ∧
      ({} : IncrementalParser).feed_chunks 20 ⟨.Ping, [], []⟩ chunks = some (done.map .Complete, self) ∧
      self.buffer_ = rest := by
  intro requests chunks
  have hwf : ∀ req ∈ requests, req.WellFormed := by decide
  exact ⟨hwf, feed_chunks_encode_request hwf ⟨[LF], by decide⟩ (by decide) _⟩

end kv.protocol
