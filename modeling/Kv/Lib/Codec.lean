import Kv.Lib.Incremental

namespace Incremental

universe u v w

variable {α : Type u} {β : Type v} {μ : Type w}

/-- A decoder inverts an encoder on the messages satisfying `P`: it takes one
    encoding off the front of the input and emits that message's item, and it
    waits on every encoding that is cut short. -/
structure Inverts (decode : Decoder α β) (encode : μ → List α) (item : μ → β) (P : μ → Prop) : Prop where
  whole : ∀ m, P m → ∀ rest, decode (encode m ++ rest) = some (item m, rest)
  cut : ∀ m, P m → ∀ part, part <+: encode m → part ≠ encode m → decode part = none

variable {decode : Decoder α β} {encode : μ → List α} {item : μ → β} {P : μ → Prop}

/-- A cut through a sequence of encodings: the messages before the cut are
    whole, and the remaining input is a proper part of the next encoding. -/
structure Cut (encode : μ → List α) (messages : List μ) (input : List α) (done pending : List μ)
    (rest : List α) : Prop where
  messages_eq : messages = done ++ pending
  input_eq : input = (done.map encode).flatten ++ rest
  rest_nil : pending = [] → rest = []
  rest_cut : ∀ next later, pending = next :: later → rest <+: encode next ∧ rest ≠ encode next

theorem exists_cut (messages : List μ) {input : List α} (hinput : input <+: (messages.map encode).flatten) :
    ∃ done pending rest, Cut encode messages input done pending rest := by
  induction messages generalizing input with
  | nil =>
    have hnil : input = [] := by simpa using hinput
    exact ⟨[], [], [], rfl, hnil, fun _ => rfl, by simp⟩
  | cons m messages ih =>
    rw [List.map_cons, List.flatten_cons] at hinput
    obtain ⟨tail, htail⟩ := hinput
    rcases List.append_eq_append_iff.mp htail with ⟨more, hwithin, _⟩ | ⟨later, rfl, hlater⟩
    · by_cases hwhole : input = encode m
      · obtain ⟨done, pending, rest, hcut⟩ := ih List.nil_prefix
        refine ⟨m :: done, pending, rest, by rw [hcut.messages_eq]; rfl, ?_, hcut.rest_nil, hcut.rest_cut⟩
        rw [List.map_cons, List.flatten_cons, List.append_assoc, ← hcut.input_eq, hwhole, List.append_nil]
      · refine ⟨[], m :: messages, input, rfl, rfl, by simp, ?_⟩
        rintro next later hnext
        obtain ⟨rfl, rfl⟩ := List.cons.inj hnext
        exact ⟨⟨more, hwithin.symm⟩, hwhole⟩
    · obtain ⟨done, pending, rest, hcut⟩ := ih ⟨tail, hlater.symm⟩
      refine ⟨m :: done, pending, rest, by rw [hcut.messages_eq]; rfl, ?_, hcut.rest_nil, hcut.rest_cut⟩
      rw [List.map_cons, List.flatten_cons, List.append_assoc, ← hcut.input_eq]

/-- Draining a cut sequence of encodings emits the whole messages and keeps the
    unfinished one. -/
theorem Inverts.drains_cut (hinv : Inverts decode encode item P) (hempty : decode [] = none)
    {messages done pending : List μ} {input rest : List α} (hmessages : ∀ m ∈ messages, P m)
    (hcut : Cut encode messages input done pending rest) : Drains decode input (done.map item) rest := by
  obtain ⟨rfl, rfl, hnil, hnext⟩ := hcut
  induction done with
  | nil =>
    refine .wait ?_
    cases pending with
    | nil => simpa [hnil rfl] using hempty
    | cons next later =>
      obtain ⟨hpart, hne⟩ := hnext next later rfl
      exact hinv.cut next (hmessages next (by simp)) rest hpart hne
  | cons m done ih =>
    have hm := hmessages m (by simp)
    have htail := ih fun m' hm' => hmessages m' (by simp only [List.cons_append, List.mem_cons, hm', or_true])
    refine .emit ?_ htail
    rw [List.map_cons, List.flatten_cons, List.append_assoc]
    exact hinv.whole m hm _

/-- The same through any cutting of the input into chunks. -/
theorem Inverts.feeds_cut (hinv : Inverts decode encode item P) (hlawful : Lawful decode)
    (hempty : decode [] = none) {messages done pending : List μ} {chunks : List (List α)} {rest : List α}
    (hmessages : ∀ m ∈ messages, P m) (hcut : Cut encode messages chunks.flatten done pending rest) :
    Feeds decode [] chunks (done.map item) rest := by
  refine Feeds.of_drains hlawful hempty ?_ (hinv.drains_cut hempty hmessages hcut)
  intro part hpart
  have hinput : chunks.flatten <+: (messages.map encode).flatten := by
    obtain ⟨rfl, hinput, hnil, hnext⟩ := hcut
    rw [hinput, List.map_append, List.flatten_append]
    refine (List.prefix_append_right_inj _).mpr ?_
    cases pending with
    | nil => simp [hnil rfl]
    | cons next later =>
      rw [List.map_cons, List.flatten_cons]
      exact (hnext next later rfl).1.trans (List.prefix_append _ _)
  obtain ⟨done', pending', rest', hcut'⟩ := exists_cut messages (hpart.trans hinput)
  exact ⟨_, _, hinv.drains_cut hempty hmessages hcut'⟩

end Incremental
