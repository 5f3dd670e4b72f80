import Kv.Lib.LineCodec
import Kv.Protocol.Response.Parser

open Incremental

namespace kv.protocol

/-- What a response says: its type, and the one field that this type carries. -/
def Response.carried (resp : Response) : Response := (⟨resp.type, [], []⟩ : Response).assign resp

@[simp]
theorem Response.assign_carried (out resp : Response) : (out.assign resp).carried = resp.carried := by
  obtain ⟨type, value, message⟩ := resp
  cases type <;> rfl

@[simp]
theorem Response.carried_carried (resp : Response) : resp.carried.carried = resp.carried :=
  assign_carried _ resp

def ResponseResult.carried : ResponseResult → ResponseResult
  | .Complete resp => .Complete resp.carried
  | .Error message => .Error message

/-- A response the protocol can carry. -/
def Response.WellFormed (resp : Response) : Prop :=
  match resp.type with
  | .Value => resp.value.length ≤ kMaxValueLen
  | .Error => LF ∉ resp.message ∧ resp.message.getLast? ≠ some CR ∧
      (ascii "ERROR ").length + resp.message.length ≤ kMaxResponseLineLen
  | _ => True

instance Response.decidableWellFormed (resp : Response) : Decidable resp.WellFormed :=
  match resp with
  | ⟨.Value, value, _⟩ => inferInstanceAs (Decidable (value.length ≤ kMaxValueLen))
  | ⟨.Error, _, message⟩ => inferInstanceAs (Decidable (LF ∉ message ∧ message.getLast? ≠ some CR ∧
      (ascii "ERROR ").length + message.length ≤ kMaxResponseLineLen))
  | ⟨.NotFound, _, _⟩ | ⟨.Ok, _, _⟩ | ⟨.Deleted, _, _⟩ | ⟨.Pong, _, _⟩ => inferInstanceAs (Decidable True)

/-- The bytes of a response, by the encoder that a server calls for its type. -/
inductive Response.Encoded : Response → Bytes → Prop
  | value {value message : Bytes} : Encoded ⟨.Value, value, message⟩ (encode_value_response value)
  | not_found {value message : Bytes} : Encoded ⟨.NotFound, value, message⟩ encode_not_found_response
  | ok {value message : Bytes} : Encoded ⟨.Ok, value, message⟩ encode_ok_response
  | deleted {value message : Bytes} : Encoded ⟨.Deleted, value, message⟩ encode_deleted_response
  | error {value message : Bytes} : Encoded ⟨.Error, value, message⟩ (encode_error_response message)
  | pong {value message : Bytes} : Encoded ⟨.Pong, value, message⟩ encode_pong_response

theorem responseVerdict_error (message : Bytes) :
    responseVerdict (ascii "ERROR " ++ message) = .item (.Complete ⟨.Error, [], message⟩) := by
  have hfirst (s : String) (hs : (ascii s).head? ≠ some 0x45) : ascii "ERROR " ++ message ≠ ascii s := by
    intro heq
    rw [← heq] at hs
    exact hs rfl
  have hstart : (ascii "ERROR ").isPrefixOf (ascii "ERROR " ++ message) = true := by simp
  have hmessage : (if (ascii "ERROR " ++ message).length > 6 then (ascii "ERROR " ++ message).drop 6 else []) =
      message := by
    have hlen : (ascii "ERROR ").length = 6 := by decide
    rw [List.length_append, hlen]
    cases message with
    | nil => rfl
    | cons c message => rw [if_pos (by simp), List.drop_append, hlen]; rfl
  unfold responseVerdict
  rw [if_neg (hfirst "OK" (by decide)), if_neg (hfirst "DELETED" (by decide)),
    if_neg (hfirst "NOT_FOUND" (by decide)), if_neg (hfirst "PONG" (by decide)),
    if_pos (by rw [hstart, Bool.or_true]), hmessage]

private theorem frame_error {message : Bytes} (hlf : LF ∉ message) (hcr : message.getLast? ≠ some CR)
    (hlimit : (ascii "ERROR ").length + message.length ≤ kMaxResponseLineLen) :
    responseFormat.Frame (encode_error_response message) (.Complete ⟨.Error, [], message⟩) := by
  refine .line (F := responseFormat) ?_ ?_ ?_
  · simp only [responseFormat, List.mem_append, not_or]
    exact ⟨by decide, hlf⟩
  · simpa only [responseFormat, List.length_append] using hlimit
  · have hlast : (ascii "ERROR " ++ message).getLast? ≠ some CR := by
      rw [List.getLast?_append]
      cases hmessage : message.getLast? with
      | none => decide
      | some c => rwa [hmessage] at hcr
    simp only [responseFormat, strip_trailing_cr_of_ne hlast, responseVerdict_error]

private theorem responseVerdict_value {len : Bytes} {n : Nat} (hlen : Denotes len n) :
    responseVerdict (ascii "VALUE " ++ len) =
      .payload n (fun value => .Complete ⟨.Value, value, []⟩) (.Error (ascii "expected newline after value")) := by
  have hfirst (s : String) (hs : (ascii s).head? ≠ some 0x56) : ascii "VALUE " ++ len ≠ ascii s := by
    intro heq
    rw [← heq] at hs
    exact hs rfl
  have hdrop : (ascii "VALUE " ++ len).drop 6 = len := rfl
  have herror : ¬ (decide (ascii "VALUE " ++ len = ascii "ERROR") ||
      (ascii "ERROR ").isPrefixOf (ascii "VALUE " ++ len)) = true := by
    rw [Bool.or_eq_true, decide_eq_true_eq, not_or]
    exact ⟨hfirst "ERROR" (by decide), by rintro ⟨⟩⟩
  unfold responseVerdict
  rw [if_neg (hfirst "OK" (by decide)), if_neg (hfirst "DELETED" (by decide)),
    if_neg (hfirst "NOT_FOUND" (by decide)), if_neg (hfirst "PONG" (by decide)), if_neg herror,
    if_pos (by simp), hdrop, (parse_length_eq_some_iff len n).mpr hlen]

private theorem frame_value {value : Bytes} (hvalue : value.length ≤ kMaxValueLen) :
    responseFormat.Frame (encode_value_response value) (.Complete ⟨.Value, value, []⟩) := by
  have hlen : Denotes (to_string value.length) value.length := denotes_to_string hvalue
  have hline : LF ∉ ascii "VALUE " ++ to_string value.length := by
    rw [List.mem_append, not_or]
    exact ⟨by decide, not_mem_of_gt_space hlen.gt_space (by decide)⟩
  have hlimit : (ascii "VALUE " ++ to_string value.length).length ≤ kMaxResponseLineLen := by
    have hdigits := hlen.2.1
    have hword : (ascii "VALUE ").length = 6 := by decide
    simp only [List.length_append, kMaxResponseLineLen, hword]
    omega
  obtain ⟨c, hlast, hc⟩ := exists_getLast?_of_gt_space (ascii "VALUE") (to_string_ne_nil _) hlen.gt_space
  have hstrip :
      strip_trailing_cr (ascii "VALUE " ++ to_string value.length) = ascii "VALUE " ++ to_string value.length :=
    strip_of_gt_space hlast hc
  have hverdict := responseVerdict_value hlen
  rw [← hstrip] at hverdict
  rw [encode_value_response, List.append_assoc, List.append_assoc, List.singleton_append]
  exact LineFormat.Frame.payload (F := responseFormat) hline hlimit hverdict

/-- What a server sends for a well-formed response is one frame that says it. -/
theorem Response.Encoded.frame {resp : Response} {bytes : Bytes} (hencoded : resp.Encoded bytes)
    (hwf : resp.WellFormed) : responseFormat.Frame bytes (.Complete resp.carried) := by
  cases hencoded with
  | value => exact frame_value hwf
  | error => exact frame_error hwf.1 hwf.2.1 hwf.2.2
  | not_found => exact .line (F := responseFormat) (by decide) (by decide) rfl
  | ok => exact .line (F := responseFormat) (by decide) (by decide) rfl
  | deleted => exact .line (F := responseFormat) (by decide) (by decide) rfl
  | pong => exact .line (F := responseFormat) (by decide) (by decide) rfl

/-- The response parser inverts the server's encoders. -/
theorem inverts_encoded :
    Inverts responseFormat.decode Prod.snd (fun m : Response × Bytes => ResponseResult.Complete m.1.carried)
      (fun m => m.1.WellFormed ∧ m.1.Encoded m.2) :=
  LineFormat.inverts_of_frame fun _ hm => hm.2.frame hm.1

theorem ResponseParser.drain_of_drains {fuel : Nat} {self : ResponseParser} {results : List ResponseResult}
    {final : Bytes} (hdrain : Drains responseFormat.decode self.buffer_ results final)
    (hfuel : results.length < fuel) (resp : Response) :
    ∃ results' resp' self', self.drain fuel resp = some (results', resp', self') ∧ self'.buffer_ = final ∧
      results'.map ResponseResult.carried = results.map ResponseResult.carried := by
  induction results generalizing fuel self resp with
  | nil =>
    obtain ⟨fuel, rfl⟩ : ∃ n, fuel = n + 1 := ⟨fuel - 1, by simp only [List.length_nil] at hfuel; omega⟩
    cases hdrain with
    | wait hwait => exact ⟨[], resp, self, by simp [drain, try_parse_response_eq, hwait, after], rfl, rfl⟩
  | cons result results ih =>
    obtain ⟨fuel, rfl⟩ : ∃ n, fuel = n + 1 := ⟨fuel - 1, by omega⟩
    simp only [List.length_cons, Nat.add_lt_add_iff_right] at hfuel
    cases hdrain with
    | @emit _ rest _ _ _ hemit htail =>
      cases result with
      | Complete parsed =>
        have htail' : Drains responseFormat.decode ({ self with buffer_ := rest } : ResponseParser).buffer_
          results final := htail
        obtain ⟨results', resp', self', hself, hbuffer, hcarried⟩ := ih htail' hfuel (resp.assign parsed)
        refine ⟨.Complete (resp.assign parsed) :: results', resp', self', ?_, hbuffer, ?_⟩
        · simp [drain, try_parse_response_eq, hemit, after, hself]
        · simp [ResponseResult.carried, hcarried]
      | Error message =>
        have htail' : Drains responseFormat.decode ({ buffer_ := rest, error_message_ := message } :
          ResponseParser).buffer_ results final := htail
        obtain ⟨results', resp', self', hself, hbuffer, hcarried⟩ := ih htail' hfuel resp
        refine ⟨.Error message :: results', resp', self', ?_, hbuffer, by simp [hcarried]⟩
        simp [drain, try_parse_response_eq, hemit, after, hself]

theorem ResponseParser.drains_of_drain {fuel : Nat} {self self' : ResponseParser} {resp resp' : Response}
    {results : List ResponseResult} (hdrain : self.drain fuel resp = some (results, resp', self')) :
    ∃ items, Drains responseFormat.decode self.buffer_ items self'.buffer_ ∧
      results.map ResponseResult.carried = items.map ResponseResult.carried := by
  induction fuel generalizing self resp results with
  | zero => simp [drain] at hdrain
  | succ fuel ih =>
    rw [drain, try_parse_response_eq] at hdrain
    cases hdecode : responseFormat.decode self.buffer_ with
    | none =>
      simp only [hdecode, after, Option.some.injEq, Prod.mk.injEq] at hdrain
      obtain ⟨rfl, _, rfl⟩ := hdrain
      exact ⟨[], .wait hdecode, rfl⟩
    | some emitted =>
      obtain ⟨result, rest⟩ := emitted
      cases result with
      | Complete parsed =>
        simp only [hdecode, after, Option.map_eq_some_iff, Prod.mk.injEq, Prod.exists] at hdrain
        obtain ⟨later, _, _, hlater, rfl, rfl, rfl⟩ := hdrain
        obtain ⟨items, hitems, hcarried⟩ := ih hlater
        exact ⟨.Complete parsed :: items, .emit hdecode hitems, by simp [ResponseResult.carried, hcarried]⟩
      | Error message =>
        simp only [hdecode, after, Option.map_eq_some_iff, Prod.mk.injEq, Prod.exists] at hdrain
        obtain ⟨later, _, _, hlater, rfl, rfl, rfl⟩ := hdrain
        obtain ⟨items, hitems, hcarried⟩ := ih hlater
        exact ⟨.Error message :: items, .emit hdecode hitems, by simp [hcarried]⟩

theorem ResponseParser.feeds_of_feed_chunks {fuel : Nat} {self self' : ResponseParser} {resp resp' : Response}
    {chunks : List Bytes} {results : List ResponseResult}
    (hfeed : self.feed_chunks fuel resp chunks = some (results, resp', self')) :
    ∃ items, Feeds responseFormat.decode self.buffer_ chunks items self'.buffer_ ∧
      results.map ResponseResult.carried = items.map ResponseResult.carried := by
  induction chunks generalizing self resp results with
  | nil =>
    simp only [feed_chunks, Option.some.injEq, Prod.mk.injEq] at hfeed
    obtain ⟨rfl, _, rfl⟩ := hfeed
    exact ⟨[], .nil, rfl⟩
  | cons chunk chunks ih =>
    simp only [feed_chunks, Option.bind_eq_bind, Option.bind_eq_some_iff, Prod.exists, Option.some.injEq,
      Prod.mk.injEq] at hfeed
    obtain ⟨first, _, middle, hdrain, later, _, final, hrest, rfl, rfl, rfl⟩ := hfeed
    obtain ⟨items, hitems, hcarried⟩ := drains_of_drain hdrain
    obtain ⟨more, hmore, hcarried'⟩ := ih hrest
    exact ⟨items ++ more, .cons hitems hmore, by rw [List.map_append, List.map_append, hcarried, hcarried']⟩

theorem ResponseParser.feed_chunks_of_feeds {fuel : Nat} {self : ResponseParser} {chunks : List Bytes}
    {results : List ResponseResult} {final : Bytes}
    (hfeed : Feeds responseFormat.decode self.buffer_ chunks results final)
    (hfuel : self.buffer_.length + chunks.flatten.length < fuel) (resp : Response) :
    ∃ results' resp' self', self.feed_chunks fuel resp chunks = some (results', resp', self') ∧
      self'.buffer_ = final ∧ results'.map ResponseResult.carried = results.map ResponseResult.carried := by
  induction chunks generalizing self results resp with
  | nil =>
    cases hfeed
    exact ⟨[], resp, self, rfl, rfl, rfl⟩
  | cons chunk chunks ih =>
    simp only [List.flatten_cons, List.length_append] at hfuel
    cases hfeed with
    | @cons _ _ middle _ _ first later hdrain hrest =>
      have hbound := hdrain.items_length_le LineFormat.lawful_decode
      rw [List.length_append] at hbound
      have hfed : Drains responseFormat.decode (self.feed chunk).buffer_ first middle := hdrain
      have hcalls : first.length < fuel := by omega
      obtain ⟨results₁, resp₁, self₁, hself₁, rfl, hfirst⟩ := drain_of_drains hfed hcalls resp
      obtain ⟨results₂, resp₂, self₂, hself₂, hfinal, hlater⟩ := ih hrest (by omega) resp₁
      refine ⟨results₁ ++ results₂, resp₂, self₂, by simp [feed_chunks, hself₁, hself₂], hfinal, ?_⟩
      rw [List.map_append, List.map_append, hfirst, hlater]

end kv.protocol
