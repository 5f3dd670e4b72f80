import Kv.Bench.Run
import Kv.Client.Plan
import Mathlib.Data.List.Infix

open Incremental

namespace kv.bench

open protocol client wire

/-- The lines of the errors that follow a value above the limit. -/
def complaints : List Bytes := [ascii "ERROR malformed SET request", ascii "ERROR command line too long"]

/-- A part of a stream of such errors, from anywhere in a line to the end of a line. -/
def Complaining (bytes : Bytes) : Prop :=
  ∃ lines : List Bytes, (∀ line ∈ lines, line ∈ complaints) ∧ bytes <:+ (lines.map (· ++ [LF])).flatten

section Complaints

variable {bytes line : Bytes}

theorem complaining_nil : Complaining [] := ⟨[], by simp, List.suffix_rfl⟩

theorem Complaining.of_suffix {part : Bytes} (hbytes : Complaining bytes) (hpart : part <:+ bytes) :
    Complaining part := by
  obtain ⟨lines, hlines, hsuffix⟩ := hbytes
  exact ⟨lines, hlines, hpart.trans hsuffix⟩

theorem Complaining.append (hbytes : Complaining bytes) (hline : line ∈ complaints) :
    Complaining (bytes ++ (line ++ [LF])) := by
  obtain ⟨lines, hlines, front, hfront⟩ := hbytes
  refine ⟨lines ++ [line], ?_, front, ?_⟩
  · intro later hlater
    rcases List.mem_append.mp hlater with hlater | hlater
    · exact hlines later hlater
    · rwa [List.mem_singleton.mp hlater]
  · rw [← List.append_assoc, hfront]
    simp

/-- Such a part starts with the end of a line. -/
theorem Complaining.cases (hbytes : Complaining bytes) :
    bytes = [] ∨ ∃ whole ∈ complaints, ∃ line rest, line <:+ whole ∧ bytes = line ++ LF :: rest := by
  obtain ⟨lines, hlines, hsuffix⟩ := hbytes
  induction lines with
  | nil => exact .inl (List.suffix_nil.mp hsuffix)
  | cons whole lines ih =>
    have hlater := ih fun line hline => hlines line (List.mem_cons_of_mem _ hline)
    obtain ⟨front, hfront⟩ := hsuffix
    rw [List.map_cons, List.flatten_cons] at hfront
    rcases List.append_eq_append_iff.mp hfront with ⟨part, hpart, hrest⟩ | ⟨part, hpart, hrest⟩
    · rcases List.eq_nil_or_concat part with rfl | ⟨line, c, rfl⟩
      · exact hlater ⟨[], by simpa using hrest⟩
      · rw [List.concat_eq_append, ← List.append_assoc] at hpart
        obtain ⟨hwhole, hc⟩ := List.append_inj' hpart rfl
        obtain rfl := (List.cons.inj hc).1
        exact .inr ⟨whole, hlines whole List.mem_cons_self, line, _, ⟨front, hwhole.symm⟩, by simpa using hrest⟩
    · exact hlater ⟨part, hrest.symm⟩

/-- The end of such a line is an error, or no response at all. -/
def IsFailure (line : Bytes) : Bool :=
  match responseVerdict (strip_trailing_cr line) with
  | .item (.Error _) => true
  | .item (.Complete resp) => resp.type = .Error
  | .payload _ _ _ => false

theorem isFailure_of_suffix {whole : Bytes} (hwhole : whole ∈ complaints) (hline : line <:+ whole) :
    IsFailure line = true ∧ LF ∉ line ∧ line.length ≤ kMaxResponseLineLen := by
  have hends : ∀ whole ∈ complaints, ∀ line ∈ whole.tails, IsFailure line = true := by decide
  have hwholes : ∀ whole ∈ complaints, LF ∉ whole ∧ whole.length ≤ kMaxResponseLineLen := by decide
  obtain ⟨hlf, hlength⟩ := hwholes whole hwhole
  exact ⟨hends whole hwhole line ((List.mem_tails _ _).mpr hline), fun hmem => hlf (hline.subset hmem),
    hline.length_le.trans hlength⟩

/-- Whatever a client reads of the errors, it waits for the end of the line or fails. -/
theorem Complaining.try_parse_response {parser : ResponseParser} {rest : Bytes}
    (hbytes : Complaining (parser.buffer_ ++ rest)) (out : Response) :
    parser.try_parse_response out = (.Incomplete, out, parser) ∨
      ∃ status resp parser', parser.try_parse_response out = (status, resp, parser') ∧
        (status = .Error ∨ status = .Complete ∧ resp.type = .Error) := by
  rw [ResponseParser.try_parse_response_eq]
  rcases hbytes.cases with hnil | ⟨whole, hwhole, line, more, hline, heq⟩
  · left
    rw [(List.append_eq_nil_iff.mp hnil).1, LineFormat.decode_nil]
    rfl
  obtain ⟨hfailure, hlf, hlength⟩ := isFailure_of_suffix hwhole hline
  rcases prefix_line_cases hlf (heq ▸ List.prefix_append parser.buffer_ rest) with ⟨hpart, hopen⟩ | ⟨after, hbuffer, -⟩
  · left
    have hwait : responseFormat.decode parser.buffer_ = none := LineFormat.decode_part_of_line hlength hpart hopen
    rw [hwait]
    rfl
  · right
    have hdecode : responseFormat.decode (line ++ LF :: after) =
        (responseVerdict (strip_trailing_cr line)).finish LF after := LineFormat.decode_line after hlf
    rw [hbuffer, hdecode]
    unfold IsFailure at hfailure
    split at hfailure
    · rename_i message hverdict
      rw [hverdict]
      exact ⟨_, _, _, rfl, .inl rfl⟩
    · rename_i resp hverdict
      rw [hverdict]
      refine ⟨_, _, _, rfl, .inr ⟨rfl, ?_⟩⟩
      simp [Response.assign, of_decide_eq_true hfailure]
    · cases hfailure

end Complaints

/-- The byte that all values consist of. -/
def fill : UInt8 := 0x78

/-- Where the server is with a `SET` of `n` bytes above the limit, with `ahead` still
    to come on the connection: it reads the header, it has the header and is about to
    reject it, or it takes the value for a command line. It never comes to the end of
    the value. -/
inductive Sinking (header : Bytes) (n : Nat) (served : server.Connection) (ahead : Bytes) : Prop
  | heading {later : Bytes} (hpc : served.pc = .reading ∨ served.pc = .draining)
      (hpart : served.parser.buffer_ <+: header)
      (hahead : served.parser.buffer_ ++ ahead = header ++ LF :: (List.replicate n fill ++ LF :: later)) :
      Sinking header n served ahead
  | headed {j : Nat} {later : Bytes} (hpc : served.pc = .draining) (hj : j ≤ kReadSize)
      (hbuffer : served.parser.buffer_ = header ++ LF :: List.replicate j fill)
      (hahead : ahead = List.replicate (n - j) fill ++ LF :: later) : Sinking header n served ahead
  | flooding {j : Nat} {later : Bytes}
      (hpc : (served.pc = .reading ∧ j ≤ kMaxCommandLineLen) ∨ served.pc = .draining ∨
        ∃ line ∈ complaints, served.pc = .replying (line ++ [LF]))
      (hj : j ≤ kMaxCommandLineLen + kReadSize) (hbuffer : served.parser.buffer_ = List.replicate j fill)
      (hahead : ahead = List.replicate (n - j) fill ++ LF :: later) : Sinking header n served ahead

section Server

variable {header ahead : Bytes} {n : Nat} {served : server.Connection}

/-- What follows on the connection makes no difference. -/
theorem Sinking.append (hsinking : Sinking header n served ahead) (more : Bytes) :
    Sinking header n served (ahead ++ more) := by
  cases hsinking with
  | @heading later hpc hpart hahead =>
    exact @Sinking.heading _ _ _ _ (later ++ more) hpc hpart (by rw [← List.append_assoc, hahead]; simp)
  | @headed j later hpc hj hbuffer hahead =>
    exact @Sinking.headed _ _ _ _ j (later ++ more) hpc hj hbuffer (by rw [hahead]; simp)
  | @flooding j later hpc hj hbuffer hahead =>
    exact @Sinking.flooding _ _ _ _ j (later ++ more) hpc hj hbuffer (by rw [hahead]; simp)

/-- The first bytes of what is to come are all of the value. -/
theorem replicate_split {m : Nat} {taken rest later : Bytes}
    (heq : taken ++ rest = List.replicate m fill ++ LF :: later) (hshort : taken.length ≤ m) :
    taken = List.replicate taken.length fill ∧ rest = List.replicate (m - taken.length) fill ++ LF :: later := by
  have hsplit : List.replicate m fill ++ LF :: later =
      List.replicate taken.length fill ++ (List.replicate (m - taken.length) fill ++ LF :: later) := by
    rw [← List.append_assoc, List.replicate_append_replicate, Nat.add_sub_cancel' hshort]
  rw [hsplit] at heq
  exact List.append_inj heq (by simp)

/-- The server reads on. -/
theorem Sinking.recv (hsinking : Sinking header n served ahead) (hheader : LF ∉ header) (hn : kMaxValueLen < n)
    {data rest : Bytes} (hahead : ahead = data ++ rest) {served' : server.Connection}
    (hrecv : served.recv data = some served') : Sinking header n served' rest := by
  have hroom : kMaxCommandLineLen + kReadSize ≤ kMaxValueLen := by decide
  unfold server.Connection.recv at hrecv
  split at hrecv
  · rename_i hready
    obtain ⟨hreading, -, hsize⟩ := hready
    obtain rfl := Option.some.inj hrecv
    cases hsinking with
    | heading _ hpart heq =>
      rw [hahead, ← List.append_assoc] at heq
      have hprefix : served.parser.buffer_ ++ data <+: header ++ LF :: (List.replicate n fill ++ LF :: _) :=
        ⟨rest, heq⟩
      rcases prefix_line_cases hheader hprefix with ⟨hwithin, -⟩ | ⟨value, hvalue, -⟩
      · exact .heading (.inr rfl) hwithin heq
      · have hlength := congrArg List.length hvalue
        have hle := hpart.length_le
        simp only [List.length_append, List.length_cons] at hlength
        rw [hvalue, List.append_assoc, List.cons_append, List.append_cancel_left_eq, List.cons.injEq] at heq
        obtain ⟨hreplicate, hrest⟩ := replicate_split heq.2 (by omega)
        exact .headed (j := value.length) rfl (by omega) (hvalue.trans (by rw [← hreplicate])) hrest
    | headed hpc => simp [hreading] at hpc
    | @flooding j later hpc hj hbuffer heq =>
      have hshort : j ≤ kMaxCommandLineLen := by
        rcases hpc with hpc | hpc | ⟨line, -, hpc⟩
        · exact hpc.2
        · simp [hreading] at hpc
        · simp [hreading] at hpc
      obtain ⟨hreplicate, hrest⟩ := replicate_split (hahead.symm.trans heq) (by omega)
      refine .flooding (j := j + data.length) (.inr (.inl rfl)) (by omega) ?_ (hrest.trans (by rw [Nat.sub_sub]))
      change served.parser.buffer_ ++ data = _
      rw [hbuffer, List.replicate_add, ← hreplicate]
  · simp at hrecv

theorem decode_header {header : Bytes} (hheader : LF ∉ header) (hlength : header.length ≤ kMaxCommandLineLen)
    {part : Bytes} (hpart : part <+: header) : requestFormat.decode part = none :=
  LineFormat.decode_part_of_line hlength hpart fun hmem => hheader (hpart.subset hmem)

theorem decode_value (j : Nat) :
    requestFormat.decode (List.replicate j fill) = if j > kMaxCommandLineLen then
      some (.Error (ascii "command line too long"), List.replicate j fill) else none := by
  have hopen : requestFormat.eol ∉ List.replicate j fill := fun hmem =>
    absurd (List.eq_of_mem_replicate hmem) (by decide)
  rw [LineFormat.decode_open hopen, List.length_replicate]
  rfl

variable {t : Nat} {channel channel' : wire.Channel} {store store' : KVStore} {events : List wire.Event}

/-- The node finds a malformed request. -/
theorem rejects_of_decode (hmove : WorkMove t channel store channel' store' events)
    (hpc : channel.served.pc = .draining) {message rest : Bytes}
    (hdecode : requestFormat.decode channel.served.parser.buffer_ = some (.Error message, rest)) :
    channel' = { channel with
      served := ⟨.replying (encode_error_response message), ⟨rest, message⟩, channel.served.req⟩ } := by
  have hnext : channel.served.parser.try_parse_request channel.served.req =
      (.Error, channel.served.req, ⟨rest, message⟩) := by
    rw [IncrementalParser.try_parse_request_eq, hdecode]
    rfl
  cases hmove with
  | waited _ hcall => simp [hnext] at hcall
  | parsed _ hcall => simp [hnext] at hcall
  | executed hbusy => simp [hpc] at hbusy
  | replied hbusy => simp [hpc] at hbusy
  | rejected _ hcall =>
    rw [hnext] at hcall
    obtain ⟨-, rfl, rfl⟩ : _ ∧ _ ∧ _ := by simpa only [Prod.mk.injEq] using hcall
    rfl

theorem waits_of_decode (hmove : WorkMove t channel store channel' store' events)
    (hpc : channel.served.pc = .draining) (hdecode : requestFormat.decode channel.served.parser.buffer_ = none) :
    channel' = { channel with served := { channel.served with pc := .reading } } := by
  have hnext : channel.served.parser.try_parse_request channel.served.req =
      (.Incomplete, channel.served.req, channel.served.parser) := by
    rw [IncrementalParser.try_parse_request_eq, hdecode]
    rfl
  exact (hmove.waits hnext (by simp [hpc]) (by simp [hpc])).1

/-- What a step of the server comes to, and that it only ever writes complaints. -/
theorem Sinking.work (hsinking : Sinking header n channel.served ahead) (hheader : LF ∉ header)
    (hlength : header.length ≤ kMaxCommandLineLen)
    (hreject : ∀ rest, requestFormat.decode (header ++ LF :: rest) =
      some (.Error (ascii "malformed SET request"), rest))
    (hunbroken : channel.broken = false) (hmove : WorkMove t channel store channel' store' events) :
    Sinking header n channel'.served ahead ∧ channel'.broken = false ∧ channel'.up = channel.up ∧
      (channel'.down = channel.down ∨ ∃ line ∈ complaints, channel'.down = channel.down ++ (line ++ [LF])) := by
  cases hsinking with
  | heading hpc hpart hahead =>
    obtain rfl := waits_of_decode hmove (draining_of_work hmove hpc) (decode_header hheader hlength hpart)
    exact ⟨.heading (.inl rfl) hpart hahead, hunbroken, rfl, .inl rfl⟩
  | headed hpc hj hbuffer hahead =>
    obtain rfl := rejects_of_decode hmove hpc (by rw [hbuffer]; exact hreject _)
    have hreply :
        encode_error_response (ascii "malformed SET request") = ascii "ERROR malformed SET request" ++ [LF] := by
      decide
    exact ⟨.flooding (.inr (.inr ⟨_, by decide, congrArg server.Pc.replying hreply⟩)) (by omega) rfl hahead,
      hunbroken, rfl, .inl rfl⟩
  | @flooding j later hpc hj hbuffer hahead =>
    rcases hpc with ⟨hpc, -⟩ | hpc | ⟨line, hline, hpc⟩
    · simpa [hpc] using draining_of_work hmove (.inl hpc)
    · have hdecode := decode_value j
      rw [← hbuffer] at hdecode
      by_cases hlong : j > kMaxCommandLineLen
      · rw [if_pos hlong] at hdecode
        obtain rfl := rejects_of_decode hmove hpc hdecode
        have hreply : encode_error_response (ascii "command line too long") =
            ascii "ERROR command line too long" ++ [LF] := by decide
        exact ⟨.flooding (.inr (.inr ⟨_, by decide, congrArg server.Pc.replying hreply⟩)) hj hbuffer hahead,
          hunbroken, rfl, .inl rfl⟩
      · rw [if_neg hlong] at hdecode
        obtain rfl := waits_of_decode hmove hpc hdecode
        exact ⟨.flooding (.inl ⟨rfl, by omega⟩) hj hbuffer hahead, hunbroken, rfl, .inl rfl⟩
    · obtain ⟨rfl, -, -⟩ := hmove.replies hpc
      exact ⟨.flooding (.inr (.inl rfl)) hj hbuffer hahead, hunbroken, rfl, .inr ⟨line, hline, by simp [hunbroken]⟩⟩

end Server

/-- What a session has still to write of its request. -/
def unsent (session : Session) : Bytes :=
  match session.call with
  | some (.sending req sent) => (encode_request req).drop sent
  | _ => []

/-- What has come for a session that it has made nothing of. -/
def unread (session : Session) : Bytes :=
  match session.call with
  | some (.receiving _ parser _) => parser.buffer_ ++ session.channel.down
  | _ => session.channel.down

/-- A session from its first value above the limit on: its request number `first` and
    all that follow fail. -/
structure Sunk (header : Bytes) (n first : Nat) (session : Session) : Prop where
  unbroken : session.channel.broken = false
  sinking : Sinking header n session.channel.served (session.channel.up ++ unsent session)
  complaining : Complaining (unread session)
  outcomes : ∀ i outcome, session.outcomes[i]? = some outcome → outcome.failed = decide (first ≤ i)
  begun : first ≤ session.outcomes.length

section Client

variable {header : Bytes} {n first : Nat} {program : Program} {t : Nat} {session session' : Session}
  {store store' : KVStore}

theorem Sunk.begin (hsunk : Sunk header n first session) (hcall : session.call = none) (req : Request) :
    Sunk header n first { session with call := some (.sending req 0) } := by
  have hsinking := hsunk.sinking.append (encode_request req)
  have hcomplaining := hsunk.complaining
  simp only [unsent, unread, hcall, List.append_nil] at hsinking hcomplaining
  exact ⟨hsunk.unbroken, hsinking, hcomplaining, hsunk.outcomes, hsunk.begun⟩

/-- Some of the request goes on its way. -/
theorem Sunk.write (hsunk : Sunk header n first session) {req : Request} {sent : Nat}
    (hcall : session.call = some (.sending req sent)) (k : Nat) {call : Call}
    (hunsent : unsent { session with call := some call } = (encode_request req).drop (sent + k))
    (hunread : unread { session with call := some call } = unread session) :
    Sunk header n first
      { session with
        call := some call
        channel := session.channel.push (((encode_request req).drop sent).take k) } := by
  have hchannel : session.channel.push (((encode_request req).drop sent).take k) =
      { session.channel with up := session.channel.up ++ ((encode_request req).drop sent).take k } := by
    simp [Channel.push, hsunk.unbroken]
  have hsplit : unsent session =
      ((encode_request req).drop sent).take k ++ unsent { session with call := some call } := by
    rw [hunsent, ← List.drop_drop, List.take_append_drop, unsent, hcall]
  have hsinking := hsunk.sinking
  rw [hsplit, ← List.append_assoc] at hsinking
  rw [hchannel]
  exact ⟨hsunk.unbroken, hsinking, hunread.symm ▸ hsunk.complaining, hsunk.outcomes, hsunk.begun⟩

/-- A call that returns has failed. -/
theorem Sunk.returns (hsunk : Sunk header n first session) {channel : wire.Channel} {outcome : Outcome}
    (hfailed : outcome.failed = true) (hunbroken : channel.broken = false)
    (hsinking : Sinking header n channel.served channel.up) (hcomplaining : Complaining channel.down) :
    Sunk header n first (Session.returns { session with channel } outcome) where
  unbroken := hunbroken
  sinking := by simpa [unsent, Session.returns] using hsinking
  complaining := hcomplaining
  outcomes := by
    intro i found hfound
    have hbegun := hsunk.begun
    rw [Session.returns] at hfound
    by_cases hold : i < session.outcomes.length
    · rw [List.getElem?_append_left hold] at hfound
      exact hsunk.outcomes i found hfound
    · rw [List.getElem?_append_right (Nat.le_of_not_lt hold)] at hfound
      obtain rfl := List.mem_singleton.mp (List.mem_of_getElem? hfound)
      rw [hfailed, eq_comm, decide_eq_true_eq]
      omega
  begun := by
    have hbegun := hsunk.begun
    simp only [Session.returns, List.length_append]
    omega

/-- What a read leaves, in the parser and on the way. -/
theorem Sunk.feed (hsunk : Sunk header n first session) {req : Request} {parser : ResponseParser} {resp : Response}
    (hcall : session.call = some (.receiving req parser resp)) (k : Nat) :
    Sinking header n session.channel.served session.channel.up ∧
      Complaining ((parser.feed (session.channel.down.take k)).buffer_ ++ session.channel.down.drop k) := by
  have hsinking := hsunk.sinking
  have hcomplaining := hsunk.complaining
  simp only [unsent, unread, hcall, List.append_nil] at hsinking hcomplaining
  refine ⟨hsinking, ?_⟩
  rwa [ResponseParser.feed, List.append_assoc, List.take_append_drop]

theorem unread_append {channel : wire.Channel} {more : Bytes} (hdown : channel.down = session.channel.down ++ more) :
    unread { session with channel } = unread session ++ more := by
  simp only [unread, hdown]
  split <;> simp

variable (hheader : LF ∉ header) (hlength : header.length ≤ kMaxCommandLineLen) (hn : kMaxValueLen < n)
  (hreject : ∀ rest, requestFormat.decode (header ++ LF :: rest) = some (.Error (ascii "malformed SET request"), rest))

include hheader hlength hn hreject

/-- Nothing that either side does gets the connection back in order. -/
theorem Sunk.step (hsunk : Sunk header n first session) {action : Action} {events : List wire.Event}
    (hstep : SessionStep program t session store action session' store' events) : Sunk header n first session' := by
  cases hstep with
  | begun hcall => exact hsunk.begin hcall _
  | wrote hcall => exact hsunk.write hcall _ rfl (by simp [unread, hcall])
  | sent hcall hpos hall =>
    exact hsunk.write hcall _ (List.drop_eq_nil_of_le hall.ge).symm (by simp [unread, hcall])
  | @returned k _ _ _ resp _ hcall _ hparse =>
    obtain ⟨hsinking, hcomplaining⟩ := hsunk.feed hcall k
    refine hsunk.returns ?_ hsunk.unbroken hsinking (hcomplaining.of_suffix (List.suffix_append _ _))
    rcases hcomplaining.try_parse_response resp with hcalled | ⟨status, _, _, hcalled, rfl | ⟨rfl, htype⟩⟩
    · simp [hparse] at hcalled
    · simp [hparse] at hcalled
    · obtain ⟨-, rfl, rfl⟩ : _ ∧ _ ∧ _ := by simpa only [Prod.mk.injEq] using hparse.symm.trans hcalled
      simpa [Outcome.failed] using htype
  | @threw k _ _ _ _ _ hcall =>
    obtain ⟨hsinking, hcomplaining⟩ := hsunk.feed hcall k
    exact hsunk.returns rfl hsunk.unbroken hsinking (hcomplaining.of_suffix (List.suffix_append _ _))
  | @waited k _ _ _ _ _ hcall _ hparse =>
    obtain ⟨rfl, rfl⟩ := ResponseParser.eq_of_incomplete hparse
    obtain ⟨hsinking, hcomplaining⟩ := hsunk.feed hcall k
    refine ⟨hsunk.unbroken, ?_, hcomplaining, hsunk.outcomes, hsunk.begun⟩
    simpa [unsent] using hsinking
  | @served k _ hserve =>
    obtain ⟨served, hrecv, rfl⟩ := Option.map_eq_some_iff.mp hserve
    have hahead : session.channel.up ++ unsent session =
        session.channel.up.take k ++ (session.channel.up.drop k ++ unsent session) := by
      rw [← List.append_assoc, List.take_append_drop]
    exact ⟨hsunk.unbroken, hsunk.sinking.recv hheader hn hahead hrecv, hsunk.complaining, hsunk.outcomes, hsunk.begun⟩
  | @worked channel _ _ hwork =>
    obtain ⟨hsinking, hunbroken, hup, hdown⟩ := hsunk.sinking.work hheader hlength hreject hsunk.unbroken
      (Channel.work_move hwork)
    refine ⟨hunbroken, ?_, ?_, hsunk.outcomes, hsunk.begun⟩
    · exact hup ▸ hsinking
    · rcases hdown with hdown | ⟨line, hline, hdown⟩
      · have hsame : channel.down = session.channel.down ++ [] := by simpa using hdown
        rw [unread_append hsame, List.append_nil]
        exact hsunk.complaining
      · rw [unread_append hdown]
        exact hsunk.complaining.append hline

end Client

end kv.bench
