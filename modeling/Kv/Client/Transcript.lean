import Kv.Client.Plan
import Kv.Client.Words

namespace kv.client

open protocol Transition wire

inductive Channel
  | cout
  | cerr
  deriving DecidableEq, Repr

/-- What is printed, and the exit status of a one-shot command. -/
def print_response (resp : Response) : (Channel × Bytes) × Nat :=
  match resp.type with
  | .Ok => ((.cout, ascii "OK" ++ [LF]), 0)
  | .Deleted => ((.cout, ascii "DELETED" ++ [LF]), 0)
  | .NotFound => ((.cout, ascii "NOT_FOUND" ++ [LF]), 0)
  | .Value => ((.cout, resp.value ++ [LF]), 0)
  | .Pong => ((.cout, ascii "PONG" ++ [LF]), 0)
  | .Error => ((.cerr, ascii "ERROR " ++ resp.message ++ [LF]), 1)

/-- Whether `main` is in `send_request`, or has returned. -/
inductive Progress
  | waiting (req : Request)
  | exited (status : Nat)
  deriving DecidableEq

/-- The loop of `main`: what it has printed once its calls of `send_request` have come
    to these outcomes, and where it stands then. An exception ends the program. -/
def repl_loop : List Bytes → List Outcome → List (Channel × Bytes) × Progress
  | [], _ => ([], .exited 0)
  | line :: lines, outcomes =>
    let tokens := split_whitespace line
    if tokens = [] then repl_loop lines outcomes
    else
      match build_request tokens ⟨.Ping, [], []⟩ with
      | .error err =>
        let (printed, progress) := repl_loop lines outcomes
        ((.cerr, ascii "kvclient: " ++ err ++ [LF]) :: printed, progress)
      | .ok req =>
        match outcomes with
        | [] => ([], .waiting req)
        | .error what :: _ => ([(.cerr, ascii "kvclient: fatal: " ++ what ++ [LF])], .exited 1)
        | .ok resp :: outcomes =>
          let (printed, progress) := repl_loop lines outcomes
          ((print_response resp).1 :: printed, progress)

/-- `main`, once it is connected. -/
def kvclient (command_args : List Bytes) (stdin : Bytes) (outcomes : List Outcome) :
    List (Channel × Bytes) × Progress :=
  if command_args = [] then repl_loop (lines stdin) outcomes
  else
    match build_request command_args ⟨.Ping, [], []⟩ with
    | .error err => ([(.cerr, ascii "kvclient: " ++ err ++ [LF])], .exited 1)
    | .ok req =>
      match outcomes with
      | [] => ([], .waiting req)
      | .error what :: _ => ([(.cerr, ascii "kvclient: fatal: " ++ what ++ [LF])], .exited 1)
      | .ok resp :: _ => ([(print_response resp).1], .exited (print_response resp).2)

/-- The calls that `main` makes. -/
def kvclient_calls (command_args : List Bytes) (stdin : Bytes) : Program := fun outcomes =>
  match (kvclient command_args stdin outcomes).2 with
  | .waiting req => some req
  | .exited _ => none

/-- What a plain map answers, from what it holds for the request's key. -/
def answer (req : Request) (held : Option Bytes) : Response :=
  match req.command, held with
  | .Get, some value => ⟨.Value, value, []⟩
  | .Get, none => ⟨.NotFound, [], []⟩
  | .Set, _ => ⟨.Ok, [], []⟩
  | .Delete, some _ => ⟨.Deleted, [], []⟩
  | .Delete, none => ⟨.NotFound, [], []⟩
  | .Ping, _ => ⟨.Pong, [], []⟩

/-- A typed line, with a plain map in the place of the connection. -/
def interpret (map : PlainMap) (line : Bytes) : List (Channel × Bytes) × PlainMap :=
  if split_whitespace line = [] then ([], map)
  else
    match build_request (split_whitespace line) ⟨.Ping, [], []⟩ with
    | .error err => ([(.cerr, ascii "kvclient: " ++ err ++ [LF])], map)
    | .ok req => ([(print_response (answer req (map req.key))).1], (map.handle_request req).2)

def transcript : PlainMap → List Bytes → List (Channel × Bytes) × PlainMap
  | map, [] => ([], map)
  | map, line :: lines =>
    let (printed, map) := interpret map line
    let (later, map) := transcript map lines
    (printed ++ later, map)

/-- The answers of a plain map to some requests, and the map after them. -/
def answers : PlainMap → List Request → List Response × PlainMap
  | map, [] => ([], map)
  | map, req :: reqs =>
    let (later, final) := answers (map.handle_request req).2 reqs
    (answer req (map req.key) :: later, final)

theorem answers_snoc (map : PlainMap) (reqs : List Request) (req : Request) :
    answers map (reqs ++ [req]) =
      ((answers map reqs).1 ++ [answer req ((answers map reqs).2 req.key)],
        ((answers map reqs).2.handle_request req).2) := by
  induction reqs generalizing map with
  | nil => rfl
  | cons first reqs ih => simp [answers, ih]

/-- What a client parses the reply to. -/
theorem receive_reply_eq (req : Request) {held : Option Bytes}
    (hheld : ∀ value, held = some value → value.length ≤ kMaxValueLen) :
    receive (reply req held) = (.Complete, answer req held) := by
  have hparse {resp : Response} {bytes : Bytes} (hwf : resp.WellFormed) (hencoded : resp.Encoded bytes)
      (hresp : (⟨.Ok, [], []⟩ : Response).assign resp.carried = resp) : receive bytes = (.Complete, resp) := by
    have hdecode := inverts_encoded.whole (resp, bytes) ⟨hwf, hencoded⟩ []
    dsimp only at hdecode
    rw [List.append_nil] at hdecode
    simp only [receive, ResponseParser.try_parse_response_eq, ResponseParser.feed, List.nil_append, hdecode,
      ResponseParser.after, hresp]
  obtain ⟨command, key, value⟩ := req
  cases command with
  | Get =>
    cases held with
    | none => exact hparse trivial .not_found rfl
    | some held => exact hparse (hheld held rfl) .value rfl
  | Set => exact hparse trivial .ok rfl
  | Ping => exact hparse trivial .pong rfl
  | Delete =>
    cases held with
    | none => exact hparse trivial .not_found rfl
    | some held => exact hparse trivial .deleted rfl

/-- What the session and the store have to do with a plain map that started out as
    `start`: the requests that have returned, and the one that may have been executed. -/
def Tracked (start : PlainMap) (plan : List Request) (session : Session) (store : KVStore) (log : List wire.Event) :
    Prop :=
  let (resps, map) := answers start (plan.take session.outcomes.length)
  session.outcomes = resps.map .ok ∧
    match performed log with
    | none => store.contents = map
    | some (req, bytes) =>
      plan[session.outcomes.length]? = some req ∧ (∀ value, map req.key = some value → value.length ≤ kMaxValueLen) ∧
        bytes = reply req (map req.key) ∧ store.contents = (map.handle_request req).2

theorem Tracked.turn {start : PlainMap} {plan : List Request} {t n : Nat} {session session' : Session}
    {store store' : KVStore} {log log' : List wire.Event} (htracked : Tracked start plan session store log)
    (hkept : Kept plan t n session log) (hvalues : store.Bounded)
    (hturn : session.Turn store log session' store' log') : Tracked start plan session' store' log' := by
  obtain ⟨houtcomes, hmap⟩ := htracked
  cases hturn with
  | moved hsame hlog => exact ⟨by rw [hsame]; exact houtcomes, by rw [hsame, hlog]; exact hmap⟩
  | executed hcall hsame hlog hlog' =>
    rw [hlog] at hmap
    refine ⟨by rw [hsame]; exact houtcomes, ?_⟩
    rw [hlog', hsame]
    refine ⟨hkept.planned _ hcall, ?_, ?_, ?_⟩
    · exact hmap ▸ hvalues _
    · rw [← hmap]
      rfl
    · rw [← hmap]
      exact (store.handle_request_contents _).2
  | @returned call _ _ hcall hlog hreceive _ hsame =>
    rw [hlog] at hmap
    obtain ⟨hplan, hheld, rfl, hcontents⟩ := hmap
    rw [receive_reply_eq _ hheld] at hreceive
    obtain rfl := (Prod.mk.inj hreceive).2
    have htake : plan.take session'.outcomes.length = plan.take session.outcomes.length ++ [call.req] := by
      rw [hsame, List.length_append, List.length_singleton, List.take_add_one, hplan]
      rfl
    rw [Tracked, htake, answers_snoc]
    exact ⟨by rw [hsame]; nth_rewrite 1 [houtcomes]; simp, hcontents⟩

section Repl

variable {line : Bytes} {lines : List Bytes} {outcomes : List Outcome}

theorem line_request_blank (hblank : split_whitespace line = []) : line_request line = none := by
  rw [line_request, hblank]
  rfl

theorem line_request_error {err : Bytes}
    (hbuild : build_request (split_whitespace line) ⟨.Ping, [], []⟩ = .error err) : line_request line = none := by
  rw [line_request, hbuild]
  rfl

theorem repl_loop_blank (hblank : split_whitespace line = []) :
    repl_loop (line :: lines) outcomes = repl_loop lines outcomes := by
  rw [repl_loop, if_pos hblank]

theorem repl_loop_error {err : Bytes} (hblank : split_whitespace line ≠ [])
    (hbuild : build_request (split_whitespace line) ⟨.Ping, [], []⟩ = .error err) :
    repl_loop (line :: lines) outcomes =
      ((.cerr, ascii "kvclient: " ++ err ++ [LF]) :: (repl_loop lines outcomes).1, (repl_loop lines outcomes).2) := by
  rw [repl_loop, if_neg hblank, hbuild]

theorem repl_loop_ok {req : Request} {resp : Response} (hblank : split_whitespace line ≠ [])
    (hbuild : build_request (split_whitespace line) ⟨.Ping, [], []⟩ = .ok req) :
    repl_loop (line :: lines) (.ok resp :: outcomes) =
      ((print_response resp).1 :: (repl_loop lines outcomes).1, (repl_loop lines outcomes).2) := by
  rw [repl_loop, if_neg hblank, hbuild]

theorem repl_loop_waiting {req : Request} (hblank : split_whitespace line ≠ [])
    (hbuild : build_request (split_whitespace line) ⟨.Ping, [], []⟩ = .ok req) :
    repl_loop (line :: lines) [] = ([], .waiting req) := by
  rw [repl_loop, if_neg hblank, hbuild]

/-- While no call fails, the program sends what is typed, line by line. -/
theorem progress_repl_loop (lines : List Bytes) {outcomes : List Outcome}
    (hgood : ∀ outcome ∈ outcomes, outcome.failed = false) :
    (repl_loop lines outcomes).2 = ((lines.filterMap line_request)[outcomes.length]?.elim (.exited 0) .waiting) := by
  induction lines generalizing outcomes with
  | nil => rfl
  | cons line lines ih =>
    by_cases hblank : split_whitespace line = []
    · rw [repl_loop_blank hblank, List.filterMap_cons_none (line_request_blank hblank), ih hgood]
    · cases hbuild : build_request (split_whitespace line) ⟨.Ping, [], []⟩ with
      | error err => rw [repl_loop_error hblank hbuild, List.filterMap_cons_none (line_request_error hbuild), ih hgood]
      | ok req =>
        rw [List.filterMap_cons_some (line_request_eq_some_iff.mpr hbuild)]
        cases outcomes with
        | nil => rw [repl_loop_waiting hblank hbuild]; rfl
        | cons outcome outcomes =>
          cases outcome with
          | error what => simp [Outcome.failed] at hgood
          | ok resp =>
            rw [repl_loop_ok hblank hbuild, List.length_cons, List.getElem?_cons_succ]
            exact ih fun outcome hmem => hgood outcome (List.mem_cons_of_mem _ hmem)

/-- With the answers of a plain map to the first `k` requests, the program has printed a
    part of the transcript with that map, and all of it once there are no more requests. -/
theorem repl_loop_answers (map : PlainMap) (lines : List Bytes) (k : Nat) :
    (repl_loop lines ((answers map ((lines.filterMap line_request).take k)).1.map .ok)).1 <+:
      (transcript map lines).1 ∧
      ((lines.filterMap line_request).length ≤ k →
        repl_loop lines ((answers map ((lines.filterMap line_request).take k)).1.map .ok) =
            ((transcript map lines).1, .exited 0) ∧
          (answers map (lines.filterMap line_request)).2 = (transcript map lines).2) := by
  induction lines generalizing map k with
  | nil => simp [repl_loop, transcript, answers]
  | cons line lines ih =>
    by_cases hblank : split_whitespace line = []
    · have hline : transcript map (line :: lines) = transcript map lines := by
        simp [transcript, interpret, hblank]
      rw [repl_loop_blank hblank, List.filterMap_cons_none (line_request_blank hblank), hline]
      exact ih map k
    · cases hbuild : build_request (split_whitespace line) ⟨.Ping, [], []⟩ with
      | error err =>
        have hline : transcript map (line :: lines) =
            ((.cerr, ascii "kvclient: " ++ err ++ [LF]) :: (transcript map lines).1, (transcript map lines).2) := by
          simp [transcript, interpret, hblank, hbuild]
        rw [repl_loop_error hblank hbuild, List.filterMap_cons_none (line_request_error hbuild), hline]
        obtain ⟨hpart, hall⟩ := ih map k
        refine ⟨(List.prefix_cons_inj _).mpr hpart, fun hlength => ?_⟩
        obtain ⟨hloop, hmap⟩ := hall hlength
        exact ⟨by rw [hloop], hmap⟩
      | ok req =>
        have hline : transcript map (line :: lines) =
            ((print_response (answer req (map req.key))).1 :: (transcript (map.handle_request req).2 lines).1,
              (transcript (map.handle_request req).2 lines).2) := by
          simp [transcript, interpret, hblank, hbuild]
        rw [List.filterMap_cons_some (line_request_eq_some_iff.mpr hbuild), hline]
        cases k with
        | zero => simp [answers, repl_loop_waiting hblank hbuild]
        | succ k =>
          simp only [List.take_succ_cons, answers, List.map_cons, repl_loop_ok hblank hbuild]
          obtain ⟨hpart, hall⟩ := ih (map.handle_request req).2 k
          refine ⟨(List.prefix_cons_inj _).mpr hpart, fun hlength => ?_⟩
          obtain ⟨hloop, hmap⟩ := hall (Nat.le_of_succ_le_succ hlength)
          exact ⟨by rw [hloop], hmap⟩

end Repl

theorem follows_kvclient (stdin : Bytes) : Follows (kvclient_calls [] stdin) (requests stdin) := by
  intro outcomes hgood
  rw [kvclient_calls, kvclient, if_pos rfl, progress_repl_loop (lines stdin) hgood, requests]
  cases ((lines stdin).filterMap line_request)[outcomes.length]? <;> rfl

end kv.client
