import Kv.Lib.LineFraming

namespace Incremental

universe u v

variable {α : Type u} {β : Type v} [DecidableEq α] {F : LineFormat α β}

theorem LineFormat.frame_open {buffer : List α} (hopen : F.eol ∉ buffer) : F.frame buffer = none := by
  unfold frame
  rw [List.idxOf?_eq_none_iff.mpr hopen]

theorem LineFormat.Overlong.frame_eq_none {buffer : List α} (hover : F.Overlong buffer) : F.frame buffer = none :=
  frame_open hover.1

private theorem LineFormat.frame_line {line : List α} (rest : List α) (hline : F.eol ∉ line) :
    F.frame (line ++ F.eol :: rest) =
      match F.verdict line with
      | .item _ => some (line ++ [F.eol], rest)
      | .payload n _ _ =>
        if rest.length < n + 1 then none
        else some (line ++ F.eol :: rest.take (n + 1), rest.drop (n + 1)) := by
  have hlength : (line ++ F.eol :: rest).length = line.length + 1 + rest.length := by
    simp only [List.length_append, List.length_cons]
    omega
  have htake (n : Nat) : (line ++ F.eol :: rest).take (line.length + 1 + n) = line ++ F.eol :: rest.take n := by
    rw [Nat.add_assoc, List.take_append, Nat.add_comm 1 n]
    simp
  have hdrop (n : Nat) : (line ++ F.eol :: rest).drop (line.length + 1 + n) = rest.drop n := by
    rw [Nat.add_assoc, List.drop_append, Nat.add_comm 1 n]
    simp
  unfold frame
  rw [idxOf?_append_cons rest hline]
  simp only [List.take_left]
  cases F.verdict line with
  | item x =>
    dsimp only
    rw [hlength, if_neg (Nat.not_lt.mpr (Nat.le_add_right _ _))]
    simpa using And.intro (htake 0) (hdrop 0)
  | payload n accept reject => simp only [hlength, Nat.add_lt_add_iff_left, htake, hdrop]

/-- Later input does not change where a frame ends. -/
theorem LineFormat.frame_append {buffer frame rest : List α} (tail : List α)
    (hframe : F.frame buffer = some (frame, rest)) : F.frame (buffer ++ tail) = some (frame, rest ++ tail) := by
  by_cases hmem : F.eol ∈ buffer
  · obtain ⟨line, after, rfl, hline⟩ := List.eq_append_cons_of_mem hmem
    rw [List.append_assoc, List.cons_append, frame_line _ hline]
    rw [frame_line after hline] at hframe
    cases hverdict : F.verdict line with
    | item x => simpa [hverdict] using hframe
    | payload n accept reject =>
      simp only [hverdict] at hframe ⊢
      split at hframe
      · simp at hframe
      · rename_i hlen
        simp only [Option.some.injEq, Prod.mk.injEq] at hframe
        obtain ⟨rfl, rfl⟩ := hframe
        rw [if_neg (by simp only [List.length_append]; omega), List.take_append_of_le_length (by omega),
          List.drop_append_of_le_length (by omega)]
  · simp [frame_open hmem] at hframe

/-- Away from overlong lines, the decoder consumes exactly one frame. -/
theorem LineFormat.decode_rest_eq_frame_rest {buffer : List α} (hlive : ¬ F.Overlong buffer) :
    (F.decode buffer).map Prod.snd = (F.frame buffer).map Prod.snd := by
  by_cases hmem : F.eol ∈ buffer
  · obtain ⟨line, rest, rfl, hline⟩ := List.eq_append_cons_of_mem hmem
    rw [decode_line rest hline, frame_line rest hline]
    cases F.verdict line with
    | item x => rfl
    | payload n accept reject =>
      simp only [Verdict.finish]
      split
      · rfl
      split <;> rfl
  · rw [decode_open hmem, frame_open hmem, if_neg (fun hlong => hlive ⟨hmem, hlong⟩)]
    rfl

private theorem LineFormat.exists_frame {buffer rest : List α} {x : β}
    (hemit : F.decode buffer = some (x, rest)) (hlive : ¬ F.Overlong buffer) :
    ∃ frame, F.frame buffer = some (frame, rest) := by
  have hrest := decode_rest_eq_frame_rest hlive
  rw [hemit, Option.map_some, eq_comm, Option.map_eq_some_iff] at hrest
  obtain ⟨⟨frame, rest'⟩, hframe, rfl⟩ := hrest
  exact ⟨frame, hframe⟩

/-- The decoder meets the buffers at the frame boundaries, and no others. -/
theorem LineFormat.reaches_frame {start buffer : List α} (hreach : Reaches F.decode start buffer) :
    Reaches F.frame start buffer := by
  induction hreach with
  | start => exact .start
  | @next buffer rest x _ hemit ih =>
    by_cases hover : F.Overlong buffer
    · -- Reporting an overlong line keeps the buffer, so this boundary was met already.
      rw [decode_open hover.1, if_pos hover.2, Option.some.injEq, Prod.mk.injEq] at hemit
      obtain ⟨_, rfl⟩ := hemit
      exact ih
    · obtain ⟨frame, hframe⟩ := exists_frame hemit hover
      exact .next ih hframe

theorem LineFormat.reaches_decode_iff {start buffer : List α} :
    Reaches F.decode start buffer ↔ Reaches F.frame start buffer := by
  refine ⟨reaches_frame, fun hreach => ?_⟩
  induction hreach with
  | start => exact .start
  | @next buffer rest frame _ hframe ih =>
    -- A frame has a line, so its buffer is not overlong.
    have hlive : ¬ F.Overlong buffer := fun hover => by simp [hover.frame_eq_none] at hframe
    have hrest := decode_rest_eq_frame_rest hlive
    rw [hframe, Option.map_some, Option.map_eq_some_iff] at hrest
    obtain ⟨⟨x, rest'⟩, hemit, rfl⟩ := hrest
    exact .next ih hemit

theorem LineFormat.drains_frame {buffer final : List α} {items : List β}
    (hdrain : Drains F.decode buffer items final) : ∃ frames, Drains F.frame buffer frames final := by
  induction hdrain with
  | @wait buffer hwait =>
    refine ⟨[], .wait ?_⟩
    by_cases hover : F.Overlong buffer
    · exact hover.frame_eq_none
    · simpa [hwait] using (decode_rest_eq_frame_rest hover).symm
  | emit hemit htail ih =>
    obtain ⟨frames, hframes⟩ := ih
    have hlive := (Drains.emit hemit htail).not_stuck
    rw [stuck_decode_iff] at hlive
    obtain ⟨frame, hframe⟩ := exists_frame hemit hlive
    exact ⟨frame :: frames, .emit hframe hframes⟩

/-- Draining ends exactly when what follows the last frame is no overlong line. -/
theorem LineFormat.exists_drains_decode_iff (input : List α) :
    (∃ items final, Drains F.decode input items final) ↔
      ∀ frames tail, Drains F.frame input frames tail → ¬ F.Overlong tail := by
  constructor
  · rintro ⟨items, final, hdrain⟩ frames tail hframes hover
    obtain ⟨frames', hframes'⟩ := drains_frame hdrain
    obtain ⟨rfl, rfl⟩ := hframes.deterministic hframes'
    have hwait := hdrain.final_waits
    rw [decode_open hover.1, if_pos hover.2] at hwait
    simp at hwait
  · intro htail
    rw [exists_drains_iff lawful_decode]
    intro buffer hreach hstuck
    rw [stuck_decode_iff] at hstuck
    obtain ⟨frames, hframes⟩ := (reaches_frame hreach).drains (.wait hstuck.frame_eq_none)
    exact htail frames buffer hframes hstuck

theorem LineFormat.frame_rest_length_lt {buffer frame rest : List α} (hframe : F.frame buffer = some (frame, rest)) :
    rest.length < buffer.length := by
  by_cases hmem : F.eol ∈ buffer
  · have hlive : ¬ F.Overlong buffer := fun hover => hover.1 hmem
    have hrest := decode_rest_eq_frame_rest hlive
    rw [hframe, Option.map_some, Option.map_eq_some_iff] at hrest
    obtain ⟨⟨x, rest'⟩, hemit, rfl⟩ := hrest
    rw [← stuck_decode_iff] at hlive
    exact (lawful_decode _ _ _ hemit hlive).1
  · simp [frame_open hmem] at hframe

/-- Input that is no longer than one line may be has no line too long. -/
theorem LineFormat.linesBounded_of_length_le {input : List α} (hlen : input.length ≤ F.limit) :
    F.LinesBounded input := by
  intro buffer hreach
  have hbuffer : buffer.length ≤ input.length := by
    induction hreach with
    | start => exact le_rfl
    | next _ hframe ih => exact le_of_lt (lt_of_lt_of_le (frame_rest_length_lt hframe) ih)
  have htake := (List.takeWhile_sublist (fun c => c != F.eol) (l := buffer)).length_le
  omega

/-- After some of its frames, input with bounded lines still has bounded lines. -/
theorem LineFormat.LinesBounded.of_reaches {input rest : List α} (hlines : F.LinesBounded input)
    (hreach : Reaches F.frame input rest) : F.LinesBounded rest :=
  fun buffer hmore => hlines buffer (hreach.trans hmore)

/-- Every part of input with bounded lines can be drained: the limit is never
    exceeded by a line that is merely cut short. -/
theorem LineFormat.LinesBounded.exists_drains {input part : List α} (hlines : F.LinesBounded input)
    (hpart : part <+: input) : ∃ items final, Drains F.decode part items final := by
  obtain ⟨tail, rfl⟩ := hpart
  rw [exists_drains_iff lawful_decode]
  intro buffer hreach hstuck
  rw [stuck_decode_iff] at hstuck
  have hwhole := (reaches_frame hreach).append tail fun _ _ _ => frame_append tail
  have hbound := hlines _ hwhole
  have hline : ∀ c ∈ buffer, (c != F.eol) = true := by
    intro c hc
    simpa using fun h : c = F.eol => hstuck.1 (h ▸ hc)
  rw [List.takeWhile_append_of_pos hline, List.length_append] at hbound
  have hlong := hstuck.2
  omega

/-- The outcome of input with bounded lines does not depend on how it is cut
    into chunks. -/
theorem LineFormat.LinesBounded.feeds {input : List α} (hlines : F.LinesBounded input) :
    ∃ items final, Drains F.decode input items final ∧
      ∀ chunks : List (List α), chunks.flatten = input → Feeds F.decode [] chunks items final := by
  obtain ⟨items, final, hdrain⟩ := hlines.exists_drains List.prefix_rfl
  refine ⟨items, final, hdrain, ?_⟩
  rintro chunks rfl
  exact Feeds.of_drains lawful_decode decode_nil (fun part hpart => hlines.exists_drains hpart) hdrain

/-- Chunked reading ends exactly when the input received up to each chunk
    boundary does not end, after its last frame, in an overlong line. -/
theorem LineFormat.exists_feeds_decode_iff (chunks : List (List α)) :
    (∃ items final, Feeds F.decode [] chunks items final) ↔
      ∀ k ≤ chunks.length, ∀ frames tail,
        Drains F.frame (chunks.take k).flatten frames tail → ¬ F.Overlong tail := by
  rw [exists_feeds_iff lawful_decode chunks decode_nil]
  simp only [List.nil_append, exists_drains_decode_iff]

end Incremental
