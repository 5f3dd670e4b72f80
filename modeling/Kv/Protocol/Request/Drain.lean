import Kv.Protocol.Request.Grammar

open Incremental

namespace kv.protocol

theorem IncrementalParser.drains_of_drain {fuel : Nat} {self self' : IncrementalParser} {req : Request}
    {results : List ParseResult} (hdrain : self.drain fuel req = some (results, self')) :
    Drains requestFormat.decode self.buffer_ results self'.buffer_ := by
  induction fuel generalizing self req results with
  | zero => simp [drain] at hdrain
  | succ fuel ih =>
    rw [drain, try_parse_request_eq] at hdrain
    cases hdecode : requestFormat.decode self.buffer_ with
    | none =>
      simp only [hdecode, after, Option.some.injEq, Prod.mk.injEq] at hdrain
      obtain ⟨rfl, rfl⟩ := hdrain
      exact .wait hdecode
    | some emitted =>
      obtain ⟨result, rest⟩ := emitted
      cases result with
      | Complete req' =>
        simp only [hdecode, after, Option.map_eq_some_iff, Prod.mk.injEq, Prod.exists] at hdrain
        obtain ⟨later, final, hlater, rfl, rfl⟩ := hdrain
        exact .emit hdecode (ih hlater)
      | Error message =>
        simp only [hdecode, after, Option.map_eq_some_iff, Prod.mk.injEq, Prod.exists] at hdrain
        obtain ⟨later, final, hlater, rfl, rfl⟩ := hdrain
        exact .emit hdecode (ih hlater)

/-- A loop that ends does so within one call more than the results it gives. -/
theorem IncrementalParser.drain_of_drains {fuel : Nat} {self : IncrementalParser} {results : List ParseResult}
    {final : Bytes} (hdrain : Drains requestFormat.decode self.buffer_ results final) (hfuel : results.length < fuel)
    (req : Request) : ∃ self', self.drain fuel req = some (results, self') ∧ self'.buffer_ = final := by
  induction results generalizing fuel self req with
  | nil =>
    obtain ⟨fuel, rfl⟩ : ∃ n, fuel = n + 1 := ⟨fuel - 1, by simp only [List.length_nil] at hfuel; omega⟩
    cases hdrain with
    | wait hwait => exact ⟨self, by simp [drain, try_parse_request_eq, hwait, after], rfl⟩
  | cons result results ih =>
    obtain ⟨fuel, rfl⟩ : ∃ n, fuel = n + 1 := ⟨fuel - 1, by omega⟩
    simp only [List.length_cons, Nat.add_lt_add_iff_right] at hfuel
    cases hdrain with
    | emit hemit htail =>
      rename_i rest
      cases result with
      | Complete req' =>
        have htail' : Drains requestFormat.decode ({ self with buffer_ := rest } : IncrementalParser).buffer_
          results final := htail
        obtain ⟨self', hself, hbuffer⟩ := ih htail' hfuel req'
        exact ⟨self', by simp [drain, try_parse_request_eq, hemit, after, hself], hbuffer⟩
      | Error message =>
        have htail' : Drains requestFormat.decode ({ buffer_ := rest, error_message_ := message } :
          IncrementalParser).buffer_ results final := htail
        obtain ⟨self', hself, hbuffer⟩ := ih htail' hfuel req
        exact ⟨self', by simp [drain, try_parse_request_eq, hemit, after, hself], hbuffer⟩

theorem IncrementalParser.reaches_of_try_parse_request {self self' : IncrementalParser} {out_request req : Request}
    {status : ParseStatus} (hcall : self.try_parse_request out_request = (status, req, self')) :
    Reaches requestFormat.decode self.buffer_ self'.buffer_ := by
  rw [try_parse_request_eq] at hcall
  cases hdecode : requestFormat.decode self.buffer_ with
  | none =>
    simp only [hdecode, after, Prod.mk.injEq] at hcall
    obtain ⟨_, _, rfl⟩ := hcall
    exact .start
  | some emitted =>
    obtain ⟨result, rest⟩ := emitted
    have hrest : self'.buffer_ = rest := by
      cases result <;>
      · simp only [hdecode, after, Prod.mk.injEq] at hcall
        obtain ⟨_, _, rfl⟩ := hcall
        rfl
    rw [hrest]
    exact .next .start hdecode

theorem IncrementalParser.feeds_of_feed_chunks {fuel : Nat} {self self' : IncrementalParser} {req : Request}
    {chunks : List Bytes} {results : List ParseResult}
    (hfeed : self.feed_chunks fuel req chunks = some (results, self')) :
    Feeds requestFormat.decode self.buffer_ chunks results self'.buffer_ := by
  induction chunks generalizing self results with
  | nil =>
    simp only [feed_chunks, Option.some.injEq, Prod.mk.injEq] at hfeed
    obtain ⟨rfl, rfl⟩ := hfeed
    exact .nil
  | cons chunk chunks ih =>
    simp only [feed_chunks, Option.bind_eq_bind, Option.bind_eq_some_iff, Prod.exists, Option.some.injEq,
      Prod.mk.injEq] at hfeed
    obtain ⟨first, middle, hdrain, later, final, hrest, rfl, rfl⟩ := hfeed
    exact .cons (drains_of_drain hdrain) (ih hrest)

theorem IncrementalParser.feed_chunks_cons {fuel : Nat} {self parser : IncrementalParser} {req : Request}
    {chunk : Bytes}
    {chunks : List Bytes} {results : List ParseResult}
    (hfeed : self.feed_chunks fuel req (chunk :: chunks) = some (results, parser)) :
    ∃ first middle later, (self.feed chunk).drain fuel req = some (first, middle) ∧
      middle.feed_chunks fuel req chunks = some (later, parser) ∧ results = first ++ later := by
  simp only [feed_chunks, Option.bind_eq_bind, Option.bind_eq_some_iff, Prod.exists, Option.some.injEq,
    Prod.mk.injEq] at hfeed
  obtain ⟨first, middle, hdrain, later, final, hrest, rfl, rfl⟩ := hfeed
  exact ⟨first, middle, later, hdrain, hrest, rfl⟩

theorem IncrementalParser.feed_chunks_append {fuel : Nat} {self parser : IncrementalParser} {req : Request}
    {before after : List Bytes} {results : List ParseResult}
    (hfeed : self.feed_chunks fuel req (before ++ after) = some (results, parser)) :
    ∃ first middle later, self.feed_chunks fuel req before = some (first, middle) ∧
      middle.feed_chunks fuel req after = some (later, parser) ∧ results = first ++ later := by
  induction before generalizing self results with
  | nil => exact ⟨[], self, results, rfl, hfeed, rfl⟩
  | cons chunk before ih =>
    obtain ⟨first, middle, rest, hdrain, hrest, rfl⟩ := feed_chunks_cons hfeed
    obtain ⟨second, last, later, hbefore, hafter, rfl⟩ := ih hrest
    exact ⟨first ++ second, last, later, by simp [feed_chunks, hdrain, hbefore], hafter,
      (List.append_assoc _ _ _).symm⟩

/-- The bytes received bound the calls of every drain. -/
theorem IncrementalParser.feed_chunks_of_feeds {fuel : Nat} {self : IncrementalParser} {chunks : List Bytes}
    {results : List ParseResult} {final : Bytes} (hfeed : Feeds requestFormat.decode self.buffer_ chunks results final)
    (hfuel : self.buffer_.length + chunks.flatten.length < fuel) (req : Request) :
    ∃ self', self.feed_chunks fuel req chunks = some (results, self') ∧ self'.buffer_ = final := by
  induction chunks generalizing self results with
  | nil =>
    cases hfeed
    exact ⟨self, rfl, rfl⟩
  | cons chunk chunks ih =>
    simp only [List.flatten_cons, List.length_append] at hfuel
    cases hfeed with
    | @cons _ _ middle _ _ first later hdrain hrest =>
      have hbound := hdrain.items_length_le LineFormat.lawful_decode
      rw [List.length_append] at hbound
      have hfed : Drains requestFormat.decode (self.feed chunk).buffer_ first middle := hdrain
      have hcalls : first.length < fuel := by omega
      obtain ⟨self₁, hself₁, rfl⟩ := drain_of_drains hfed hcalls req
      obtain ⟨self₂, hself₂, hfinal⟩ := ih hrest (by omega)
      exact ⟨self₂, by simp [feed_chunks, hself₁, hself₂], hfinal⟩

end kv.protocol
