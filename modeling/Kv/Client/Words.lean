import Kv.Client.BuildRequest

namespace kv.client

open protocol

/-- The lines that `std::getline` delivers, given the part of a line read so far.
    What follows the last LF is a line if it is not empty. -/
def getline_loop : Bytes → Bytes → List Bytes
  | line, [] => if line = [] then [] else [line]
  | line, c :: rest => if c = LF then line :: getline_loop [] rest else getline_loop (line ++ [c]) rest

def lines (stdin : Bytes) : List Bytes := getline_loop [] stdin

/-- `iss >> tok` until it fails, given the part of a token read so far. -/
def split_loop : Bytes → Bytes → List Bytes
  | tok, [] => if tok = [] then [] else [tok]
  | tok, c :: rest =>
    if isspace c then
      if tok = [] then split_loop [] rest else tok :: split_loop [] rest
    else split_loop (tok ++ [c]) rest

def split_whitespace (line : Bytes) : List Bytes := split_loop [] line

/-- The request that a line gives, if it is accepted. -/
def line_request (line : Bytes) : Option Request := (build_request (split_whitespace line) ⟨.Ping, [], []⟩).toOption

/-- The requests that the lines of a session give. -/
def requests (stdin : Bytes) : List Request := (lines stdin).filterMap line_request

theorem line_request_eq_some_iff {line : Bytes} {req : Request} :
    line_request line = some req ↔ build_request (split_whitespace line) ⟨.Ping, [], []⟩ = .ok req := by
  rw [line_request]
  cases build_request (split_whitespace line) ⟨.Ping, [], []⟩ <;> simp [Except.toOption]

/-- The requests that can be typed: a key is one word, and a value is one or more
    words with one blank between each two. -/
def Typable (req : Request) : Prop :=
  match req.command with
  | .Get => IsToken req.key ∧ req.value = []
  | .Delete => IsToken req.key ∧ req.value = []
  | .Set => IsToken req.key ∧ ∃ words, words ≠ [] ∧ (∀ word ∈ words, IsToken word) ∧ req.value = [SP].intercalate words
  | .Ping => req.key = [] ∧ req.value = []

theorem isToken_of_mem_split_loop {tok rest : Bytes} (htok : ∀ c ∈ tok, isspace c = false) {token : Bytes}
    (htoken : token ∈ split_loop tok rest) : IsToken token := by
  induction rest generalizing tok with
  | nil =>
    rw [split_loop] at htoken
    split at htoken
    · simp at htoken
    · obtain rfl := List.mem_singleton.mp htoken
      exact ⟨‹_›, htok⟩
  | cons c rest ih =>
    rw [split_loop] at htoken
    split at htoken
    · split at htoken
      · exact ih (by simp) htoken
      · rcases List.mem_cons.mp htoken with rfl | hlater
        · exact ⟨‹_›, htok⟩
        · exact ih (by simp) hlater
    · rename_i hc
      refine ih (fun d hd => ?_) htoken
      rcases List.mem_append.mp hd with hd | hd
      · exact htok d hd
      · obtain rfl := List.mem_singleton.mp hd
        simpa using hc

theorem split_loop_append {word : Bytes} (hword : ∀ c ∈ word, isspace c = false) (tok rest : Bytes) :
    split_loop tok (word ++ rest) = split_loop (tok ++ word) rest := by
  induction word generalizing tok with
  | nil => simp
  | cons c word ih =>
    rw [List.cons_append, split_loop, hword c List.mem_cons_self, if_neg (by simp),
      ih (fun d hd => hword d (List.mem_cons_of_mem _ hd)), List.append_assoc]
    rfl

/-- Words with one blank between each two are split into these words. -/
theorem split_whitespace_intercalate {tokens : List Bytes} (htokens : ∀ token ∈ tokens, IsToken token) :
    split_whitespace ([SP].intercalate tokens) = tokens := by
  unfold split_whitespace
  induction tokens with
  | nil => rfl
  | cons token tokens ih =>
    obtain ⟨hne, hword⟩ := htokens token List.mem_cons_self
    cases tokens with
    | nil =>
      rw [List.intercalate_singleton, ← List.append_nil token, split_loop_append hword]
      simp [split_loop, hne]
    | cons next tokens =>
      rw [List.intercalate_cons_of_ne_nil (by simp), List.append_assoc, split_loop_append hword, List.nil_append,
        List.singleton_append, split_loop, if_pos (by decide), if_neg hne,
        ih fun token htoken => htokens token (List.mem_cons_of_mem _ htoken)]

theorem getline_loop_append {text : Bytes} (htext : LF ∉ text) (line rest : Bytes) :
    getline_loop line (text ++ LF :: rest) = (line ++ text) :: getline_loop [] rest := by
  induction text generalizing line with
  | nil => simp [getline_loop]
  | cons c text ih =>
    obtain ⟨hc, htext⟩ := List.ne_and_not_mem_of_not_mem_cons htext
    rw [List.cons_append, getline_loop, if_neg (Ne.symm hc), ih htext, List.append_assoc]
    rfl

/-- Lines with an LF after each are read as these lines. -/
theorem lines_flatMap {texts : List Bytes} (htexts : ∀ text ∈ texts, LF ∉ text) :
    lines (texts.flatMap fun text => text ++ [LF]) = texts := by
  unfold lines
  induction texts with
  | nil => rfl
  | cons text texts ih =>
    rw [List.flatMap_cons, List.append_assoc, List.singleton_append,
      getline_loop_append (htexts text List.mem_cons_self),
      List.nil_append, ih fun text htext => htexts text (List.mem_cons_of_mem _ htext)]

theorem not_mem_intercalate {tokens : List Bytes} (htokens : ∀ token ∈ tokens, IsToken token) :
    LF ∉ [SP].intercalate tokens := by
  induction tokens with
  | nil => simp
  | cons token tokens ih =>
    have hword : LF ∉ token := (htokens token List.mem_cons_self).not_mem (by decide)
    cases tokens with
    | nil => simpa using hword
    | cons next tokens =>
      have hrest := ih fun token htoken => htokens token (List.mem_cons_of_mem _ htoken)
      rw [List.intercalate_cons_of_ne_nil (by simp)]
      simp only [List.mem_append, List.mem_singleton, not_or]
      exact ⟨⟨hword, by decide⟩, hrest⟩

/-- The words to type for a request. -/
theorem Typable.exists_tokens {req : Request} (hreq : Typable req) :
    ∃ tokens, (∀ token ∈ tokens, IsToken token) ∧ build_request tokens ⟨.Ping, [], []⟩ = .ok req := by
  obtain ⟨command, key, value⟩ := req
  cases command with
  | Get =>
    obtain ⟨hkey, rfl⟩ := hreq
    have hcmd : IsToken (ascii "GET") := by decide
    exact ⟨[ascii "GET", key], by simp [hcmd, hkey], by rfl⟩
  | Delete =>
    obtain ⟨hkey, rfl⟩ := hreq
    have hcmd : IsToken (ascii "DELETE") := by decide
    exact ⟨[ascii "DELETE", key], by simp [hcmd, hkey], by rfl⟩
  | Set =>
    obtain ⟨hkey, words, hne, hwords, rfl⟩ := hreq
    have hcmd : IsToken (ascii "SET") := by decide
    obtain ⟨word, words, rfl⟩ := List.exists_cons_of_ne_nil hne
    refine ⟨ascii "SET" :: key :: word :: words, ?_, ?_⟩
    · intro token htoken
      simp only [List.mem_cons] at htoken
      rcases htoken with rfl | rfl | hword
      · exact hcmd
      · exact hkey
      · exact hwords token (List.mem_cons.mpr hword)
    · rw [← foldl_append_space]
      rfl
  | Ping =>
    obtain ⟨rfl, rfl⟩ := hreq
    have hcmd : IsToken (ascii "PING") := by decide
    exact ⟨[ascii "PING"], by simp [hcmd], by rfl⟩

theorem typable_of_build_request {tokens : List Bytes} (htokens : ∀ token ∈ tokens, IsToken token) {req : Request}
    (hbuild : build_request tokens ⟨.Ping, [], []⟩ = .ok req) : Typable req := by
  rcases build_request_cases hbuild with ⟨cmd, key, _, rfl, rfl⟩ | ⟨cmd, key, _, rfl, rfl⟩ |
    ⟨cmd, key, word, words, _, rfl, rfl⟩ | ⟨cmd, _, rfl, rfl⟩
  · exact ⟨htokens key (by simp), rfl⟩
  · exact ⟨htokens key (by simp), rfl⟩
  · refine ⟨htokens key (by simp), word :: words, by simp, ?_, rfl⟩
    intro token htoken
    exact htokens token (List.mem_cons_of_mem _ (List.mem_cons_of_mem _ htoken))
  · exact ⟨rfl, rfl⟩

/-- The requests that a session can send, in any order and number: exactly the
    typable ones. No session can store an empty value, or one with a tab, an LF or
    two blanks in a row. -/
theorem requests_iff (reqs : List Request) : (∃ stdin, requests stdin = reqs) ↔ ∀ req ∈ reqs, Typable req := by
  constructor
  · rintro ⟨stdin, rfl⟩ req hreq
    obtain ⟨line, _, hline⟩ := List.mem_filterMap.mp hreq
    exact typable_of_build_request (fun token htoken => isToken_of_mem_split_loop (by simp) htoken)
      (line_request_eq_some_iff.mp hline)
  · intro hreqs
    suffices htexts : ∃ texts : List Bytes, (∀ text ∈ texts, LF ∉ text) ∧
        texts.filterMap line_request = reqs by
      obtain ⟨texts, hlf, hsent⟩ := htexts
      refine ⟨texts.flatMap fun text => text ++ [LF], ?_⟩
      rw [requests, lines_flatMap hlf, hsent]
    induction reqs with
    | nil => exact ⟨[], by simp, rfl⟩
    | cons req reqs ih =>
      obtain ⟨tokens, htokens, hbuild⟩ := (hreqs req List.mem_cons_self).exists_tokens
      obtain ⟨texts, hlf, hsent⟩ := ih fun req hreq => hreqs req (List.mem_cons_of_mem _ hreq)
      refine ⟨[SP].intercalate tokens :: texts, ?_, ?_⟩
      · intro text htext
        rcases List.mem_cons.mp htext with rfl | hlater
        · exact not_mem_intercalate htokens
        · exact hlf text hlater
      · rw [← split_whitespace_intercalate htokens] at hbuild
        rw [List.filterMap_cons_some (line_request_eq_some_iff.mpr hbuild), hsent]

end kv.client
