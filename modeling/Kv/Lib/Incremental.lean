import Mathlib.Data.List.Basic
import Mathlib.Data.List.Infix

namespace Incremental

universe u v

/-- An incremental decoder inspects the input buffered so far. It either waits
    for more, or emits one item together with the input it leaves buffered. -/
abbrev Decoder (α : Type u) (β : Type v) := List α → Option (β × List α)

variable {α : Type u} {β : Type v}

/-- The loop run after every read: emit until the decoder waits. The relation
    holds exactly when that loop ends, with the items it emitted in order and
    the input still buffered at its end. -/
inductive Drains (decode : Decoder α β) : List α → List β → List α → Prop
  | wait {buffer : List α} (hwait : decode buffer = none) : Drains decode buffer [] buffer
  | emit {buffer rest final : List α} {item : β} {items : List β}
      (hemit : decode buffer = some (item, rest)) (htail : Drains decode rest items final) :
      Drains decode buffer (item :: items) final

/-- Reading a list of chunks, draining after each of them. -/
inductive Feeds (decode : Decoder α β) : List α → List (List α) → List β → List α → Prop
  | nil {buffer : List α} : Feeds decode buffer [] [] buffer
  | cons {buffer chunk middle final : List α} {chunks : List (List α)} {items later : List β}
      (hdrain : Drains decode (buffer ++ chunk) items middle)
      (hfeed : Feeds decode middle chunks later final) :
      Feeds decode buffer (chunk :: chunks) (items ++ later) final

/-- The buffers the drain loop meets, its first one included. -/
inductive Reaches (decode : Decoder α β) (start : List α) : List α → Prop
  | start : Reaches decode start start
  | next {buffer rest : List α} {item : β} (hreach : Reaches decode start buffer)
      (hemit : decode buffer = some (item, rest)) : Reaches decode start rest

/-- The decoder emits here without consuming anything, so the drain loop can
    never leave this buffer. -/
def Stuck (decode : Decoder α β) (buffer : List α) : Prop :=
  ∃ item, decode buffer = some (item, buffer)

/-- Every emission is stuck, or it shortens the buffer and is a verdict that
    input arriving later cannot change. -/
def Lawful (decode : Decoder α β) : Prop :=
  ∀ buffer item rest, decode buffer = some (item, rest) → ¬ Stuck decode buffer →
    rest.length < buffer.length ∧
      ∀ tail, decode (buffer ++ tail) = some (item, rest ++ tail)

variable {decode : Decoder α β}

theorem Drains.final_waits {buffer final : List α} {items : List β}
    (hdrain : Drains decode buffer items final) : decode final = none := by
  induction hdrain with
  | wait hwait => exact hwait
  | emit _ _ ih => exact ih

/-- A drain loop that ends goes on with what an emission leaves. -/
theorem Drains.of_emit {buffer rest final : List α} {item : β} {items : List β}
    (hdrain : Drains decode buffer items final) (hemit : decode buffer = some (item, rest)) :
    ∃ later, items = item :: later ∧ Drains decode rest later final := by
  cases hdrain with
  | wait hwait => simp [hwait] at hemit
  | emit hemit' htail =>
    rw [hemit', Option.some.injEq, Prod.mk.injEq] at hemit
    obtain ⟨rfl, rfl⟩ := hemit
    exact ⟨_, rfl, htail⟩

theorem Drains.deterministic {buffer final final' : List α} {items items' : List β}
    (hdrain : Drains decode buffer items final) (hdrain' : Drains decode buffer items' final') :
    items = items' ∧ final = final' := by
  induction hdrain generalizing items' with
  | wait hwait =>
    cases hdrain' with
    | wait => exact ⟨rfl, rfl⟩
    | emit hemit => simp [hwait] at hemit
  | emit hemit _ ih =>
    obtain ⟨later, rfl, htail'⟩ := hdrain'.of_emit hemit
    obtain ⟨rfl, rfl⟩ := ih htail'
    exact ⟨rfl, rfl⟩

/-- A drain loop that ends never meets a buffer where the decoder is stuck. -/
theorem Drains.not_stuck {buffer final : List α} {items : List β}
    (hdrain : Drains decode buffer items final) : ¬ Stuck decode buffer := by
  rintro ⟨item, hstuck⟩
  induction hdrain with
  | wait hwait => simp [hwait] at hstuck
  | emit hemit htail ih =>
    -- The loop would have to drain this same buffer again, one item later.
    rw [hemit, Option.some.injEq, Prod.mk.injEq] at hstuck
    obtain ⟨rfl, rfl⟩ := hstuck
    exact ih hemit

/-- Draining can be resumed: what a drain leaves behind, extended by later
    input, drains to the rest of the items. -/
theorem Drains.append {buffer middle tail final : List α} {items later : List β}
    (hlawful : Lawful decode) (hdrain : Drains decode buffer items middle)
    (hlater : Drains decode (middle ++ tail) later final) :
    Drains decode (buffer ++ tail) (items ++ later) final := by
  induction hdrain with
  | wait => exact hlater
  | @emit buffer rest _ item items hemit htail ih =>
    have hlive := (Drains.emit hemit htail).not_stuck
    obtain ⟨_, hstable⟩ := hlawful buffer item rest hemit hlive
    exact .emit (hstable tail) (ih hlater)

theorem Drains.split {buffer tail final : List α} {items : List β}
    (hlawful : Lawful decode) (hall : Drains decode (buffer ++ tail) items final)
    {first : List β} {middle : List α} (hdrain : Drains decode buffer first middle) :
    ∃ later, items = first ++ later ∧ Drains decode (middle ++ tail) later final := by
  induction hdrain generalizing items with
  | wait => exact ⟨items, rfl, hall⟩
  | @emit buffer rest _ item first hemit htail ih =>
    have hlive := (Drains.emit hemit htail).not_stuck
    obtain ⟨_, hstable⟩ := hlawful buffer item rest hemit hlive
    obtain ⟨items, rfl, htail'⟩ := hall.of_emit (hstable tail)
    obtain ⟨later, rfl, hlater⟩ := ih htail'
    exact ⟨later, rfl, hlater⟩

/-- Draining from a buffer the loop meets completes a drain from its start. -/
theorem Reaches.drains {start buffer final : List α} {items : List β}
    (hreach : Reaches decode start buffer) (hdrain : Drains decode buffer items final) :
    ∃ all, Drains decode start all final := by
  induction hreach generalizing items with
  | start => exact ⟨items, hdrain⟩
  | next _ hemit ih => exact ih (.emit hemit hdrain)

theorem Reaches.trans {start middle buffer : List α} (hfirst : Reaches decode start middle)
    (hsecond : Reaches decode middle buffer) : Reaches decode start buffer := by
  induction hsecond with
  | start => exact hfirst
  | next _ hemit ih => exact .next ih hemit

/-- Where no verdict can be changed by later input, the buffers met are those
    of any longer input, cut short. -/
theorem Reaches.append {start buffer : List α} (tail : List α)
    (hstable : ∀ buffer item rest, decode buffer = some (item, rest) →
      decode (buffer ++ tail) = some (item, rest ++ tail))
    (hreach : Reaches decode start buffer) : Reaches decode (start ++ tail) (buffer ++ tail) := by
  induction hreach with
  | start => exact .start
  | next _ hemit ih => exact .next ih (hstable _ _ _ hemit)

/-- A drain loop that ends goes on from every buffer it meets. -/
theorem Drains.of_reaches {start buffer final : List α} {items : List β} (hdrain : Drains decode start items final)
    (hreach : Reaches decode start buffer) : ∃ earlier later, items = earlier ++ later ∧
      Drains decode buffer later final := by
  induction hreach with
  | start => exact ⟨[], items, rfl, hdrain⟩
  | @next _ _ item _ hemit ih =>
    obtain ⟨earlier, later, rfl, hlater⟩ := ih
    obtain ⟨later', rfl, htail⟩ := hlater.of_emit hemit
    exact ⟨earlier ++ [item], later', by simp, htail⟩

/-- A drain loop emits what the decoder emits on the buffers it meets. -/
theorem Drains.mem_items_iff {start final : List α} {items : List β} (hdrain : Drains decode start items final)
    {item : β} : item ∈ items ↔ ∃ buffer rest, Reaches decode start buffer ∧ decode buffer = some (item, rest) := by
  constructor
  · intro hmem
    induction hdrain with
    | wait => simp at hmem
    | @emit start rest _ first items hemit _ ih =>
      rcases List.mem_cons.mp hmem with rfl | hlater
      · exact ⟨start, rest, .start, hemit⟩
      · obtain ⟨buffer, rest', hreach, hemit'⟩ := ih hlater
        exact ⟨buffer, rest', (Reaches.next .start hemit).trans hreach, hemit'⟩
  · rintro ⟨buffer, rest, hreach, hemit⟩
    obtain ⟨earlier, later, rfl, hlater⟩ := hdrain.of_reaches hreach
    obtain ⟨later', rfl, _⟩ := hlater.of_emit hemit
    simp

/-- A lawful drain loop ends exactly when no buffer it meets is stuck. -/
theorem exists_drains_iff (hlawful : Lawful decode) (start : List α) :
    (∃ items final, Drains decode start items final) ↔
      ∀ buffer, Reaches decode start buffer → ¬ Stuck decode buffer := by
  constructor
  · rintro ⟨items, final, hdrain⟩ buffer hreach
    obtain ⟨_, _, _, hlater⟩ := hdrain.of_reaches hreach
    exact hlater.not_stuck
  · intro hlive
    -- Induction on the length of the buffers still to be drained.
    suffices hbound : ∀ n buffer, Reaches decode start buffer → buffer.length ≤ n →
        ∃ items final, Drains decode buffer items final from
      hbound start.length start .start le_rfl
    intro n
    induction n with
    | zero =>
      intro buffer hreach hlen
      cases hdecode : decode buffer with
      | none => exact ⟨[], buffer, .wait hdecode⟩
      | some emitted =>
        obtain ⟨hshorter, _⟩ := hlawful buffer emitted.1 emitted.2 hdecode (hlive buffer hreach)
        omega
    | succ n ih =>
      intro buffer hreach hlen
      cases hdecode : decode buffer with
      | none => exact ⟨[], buffer, .wait hdecode⟩
      | some emitted =>
        obtain ⟨hshorter, _⟩ := hlawful buffer emitted.1 emitted.2 hdecode (hlive buffer hreach)
        obtain ⟨items, final, htail⟩ := ih emitted.2 (.next hreach hdecode) (by omega)
        exact ⟨emitted.1 :: items, final, .emit hdecode htail⟩

/-- A drain loop emits at most one item per buffered element. -/
theorem Drains.items_length_le (hlawful : Lawful decode) {buffer final : List α} {items : List β}
    (hdrain : Drains decode buffer items final) : items.length + final.length ≤ buffer.length := by
  induction hdrain with
  | wait => simp
  | @emit buffer rest _ item items hemit htail ih =>
    have hlive := (Drains.emit hemit htail).not_stuck
    obtain ⟨hshorter, _⟩ := hlawful buffer item rest hemit hlive
    simp only [List.length_cons]
    omega

/-- One more chunk. -/
theorem Feeds.snoc {buffer middle chunk final : List α} {chunks : List (List α)} {items later : List β}
    (hfeed : Feeds decode buffer chunks items middle) (hdrain : Drains decode (middle ++ chunk) later final) :
    Feeds decode buffer (chunks ++ [chunk]) (items ++ later) final := by
  induction hfeed with
  | nil => simpa using Feeds.cons hdrain .nil
  | cons hfirst _ ih =>
    rw [List.cons_append, List.append_assoc]
    exact .cons hfirst (ih hdrain)

/-- Chunked reading that ends has the outcome of one drain over all the input. -/
theorem Feeds.drains (hlawful : Lawful decode) {buffer final : List α} {chunks : List (List α)}
    {items : List β} (hwait : decode buffer = none) (hfeed : Feeds decode buffer chunks items final) :
    Drains decode (buffer ++ chunks.flatten) items final := by
  induction hfeed with
  | nil => simpa using Drains.wait hwait
  | @cons buffer chunk middle final chunks items later hdrain hfeed ih =>
    have hlater := ih hdrain.final_waits
    have hall := hdrain.append hlawful hlater
    simpa only [List.flatten_cons, List.append_assoc] using hall

/-- Chunked reading ends exactly when the input received up to each chunk
    boundary can be drained in one go. -/
theorem exists_feeds_iff (hlawful : Lawful decode) {buffer : List α} (chunks : List (List α))
    (hwait : decode buffer = none) :
    (∃ items final, Feeds decode buffer chunks items final) ↔
      ∀ k ≤ chunks.length, ∃ items final,
        Drains decode (buffer ++ (chunks.take k).flatten) items final := by
  induction chunks generalizing buffer with
  | nil =>
    constructor
    · intro _ k _
      exact ⟨[], buffer, by simpa using Drains.wait hwait⟩
    · intro _
      exact ⟨[], buffer, .nil⟩
  | cons chunk chunks ih =>
    constructor
    · rintro ⟨items, final, hfeed⟩ k hk
      cases hfeed with
      | @cons _ _ middle _ _ first later hdrain hrest =>
        cases k with
        | zero => exact ⟨[], buffer, by simpa using Drains.wait hwait⟩
        | succ k =>
          have hk' : k ≤ chunks.length := by simpa using hk
          obtain ⟨items', final', hdrain'⟩ := (ih hdrain.final_waits).mp ⟨later, final, hrest⟩ k hk'
          refine ⟨first ++ items', final', ?_⟩
          simpa only [List.take_succ_cons, List.flatten_cons, List.append_assoc] using
            hdrain.append hlawful hdrain'
    · intro hall
      obtain ⟨first, middle, hdrain⟩ := hall 1 (by simp)
      have hfirst : Drains decode (buffer ++ chunk) first middle := by simpa using hdrain
      have hrest : ∃ items final, Feeds decode middle chunks items final := by
        refine (ih hfirst.final_waits).mpr ?_
        intro k hk
        obtain ⟨items, final, hdrain'⟩ := hall (k + 1) (by simpa using hk)
        have hall' : Drains decode (buffer ++ chunk ++ (chunks.take k).flatten) items final := by
          simpa only [List.take_succ_cons, List.flatten_cons, List.append_assoc] using hdrain'
        obtain ⟨later, _, hlater⟩ := Drains.split hlawful hall' hfirst
        exact ⟨later, final, hlater⟩
      obtain ⟨later, final, hfeed⟩ := hrest
      exact ⟨first ++ later, final, .cons hfirst hfeed⟩

/-- If every prefix of the input drains, every way of cutting it into chunks
    gives the items and the remaining buffer of draining it at once. -/
theorem Feeds.of_drains (hlawful : Lawful decode) {chunks : List (List α)} {items : List β}
    {final : List α} (hempty : decode [] = none)
    (hall : ∀ part, part <+: chunks.flatten → ∃ items final, Drains decode part items final)
    (hdrain : Drains decode chunks.flatten items final) : Feeds decode [] chunks items final := by
  have hends : ∃ items final, Feeds decode [] chunks items final := by
    refine (exists_feeds_iff hlawful chunks hempty).mpr ?_
    intro k _
    apply hall
    refine ⟨(chunks.drop k).flatten, ?_⟩
    rw [List.nil_append, ← List.flatten_append, List.take_append_drop]
  obtain ⟨items', final', hfeed⟩ := hends
  have hdrain' := hfeed.drains hlawful hempty
  rw [List.nil_append] at hdrain'
  obtain ⟨rfl, rfl⟩ := hdrain.deterministic hdrain'
  exact hfeed

end Incremental
