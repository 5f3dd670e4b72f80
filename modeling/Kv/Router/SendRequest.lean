import Kv.Router.Exchange
import Kv.Syscalls

open Incremental

namespace kv.protocol

/-- `sizeof(buf)` in `send_request`. -/
def kResponseReadSize : Nat := 4096

/-- The read loop of `send_request`, on the bytes that the peer sends before it
    closes. The calls after the last outcome go through in full. -/
def read_loop : Nat → List Syscall → Bytes → ResponseParser → Response → Option (Except Bytes Response)
  | 0, _, _, _, _ => none
  | fuel + 1, reads, incoming, parser, resp =>
    match parser.try_parse_response resp with
    | (.Complete, resp, _) => some (.ok resp)
    | (.Error, _, parser) => some (.error (ascii "protocol error: " ++ parser.error_message_))
    | (.Incomplete, resp, parser) =>
      match reads.head?.getD (.count kResponseReadSize), incoming with
      | .count n, c :: incoming =>
        let size := min (n + 1) kResponseReadSize
        read_loop fuel reads.tail ((c :: incoming).drop size) (parser.feed ((c :: incoming).take size)) resp
      -- Unlike the write loop, this one does not look at `errno`.
      | _, _ => some (.error (ascii "connection closed while waiting for response"))

/-- A request to a peer that answers with `reply`: the result, and what was
    written. Each turn of the read loop uses up an outcome or a byte. -/
def send_request (req : Request) (reply : Bytes) (writes reads : List Syscall) :
    Option (Except Bytes Response) × Bytes :=
  match write_loop (fun _ => ascii "failed to write request") writes (encode_request req) with
  | (.error what, wire, _) => (some (.error what), wire)
  | (.ok _, wire, _) => (read_loop (reads.length + reply.length + 1) reads reply {} ⟨.Ok, [], []⟩, wire)

namespace stream

/-- The read loop of `send_request` on whatever a peer sends, which may go on for
    ever: `peer i` is what the `i`-th `read` finds, and nothing where the stream has
    ended, the call has failed or its time is over. It gives the number of reads. -/
def read_loop : Nat → (Nat → Bytes) → ResponseParser → Response → Option (Except Bytes Response × Nat)
  | 0, _, _, _ => none
  | fuel + 1, peer, parser, resp =>
    match parser.try_parse_response resp with
    | (.Complete, resp, _) => some (.ok resp, 0)
    | (.Error, _, parser) => some (.error (ascii "protocol error: " ++ parser.error_message_), 0)
    | (.Incomplete, resp, parser) =>
      match (peer 0).take kResponseReadSize with
      | [] => some (.error (ascii "connection closed while waiting for response"), 1)
      | c :: data =>
        (read_loop fuel (fun i => peer (i + 1)) (parser.feed (c :: data)) resp).map fun (result, n) => (result, n + 1)

def send_request (fuel : Nat) (req : Request) (writes : List Syscall) (peer : Nat → Bytes) :
    Option (Except Bytes Response × Nat) :=
  match write_loop (fun _ => ascii "failed to write request") writes (encode_request req) with
  | (.error what, _, _) => some (.error what, 0)
  | (.ok _, _, _) => read_loop fuel peer {} ⟨.Ok, [], []⟩

/-- What the reads find where the peer sends these bytes and closes. -/
def sliced : List Syscall → Bytes → Nat → Bytes
  | reads, incoming, 0 =>
    match reads.head?.getD (.count kResponseReadSize) with
    | .count n => incoming.take (n + 1)
    | _ => []
  | reads, incoming, i + 1 =>
    match reads.head?.getD (.count kResponseReadSize) with
    | .count n => sliced reads.tail (incoming.drop (min (n + 1) kResponseReadSize)) i
    | _ => []

/-- The loop on a stream that ends is the loop on its bytes. -/
theorem read_loop_sliced (fuel : Nat) (reads : List Syscall) (incoming : Bytes) (parser : ResponseParser)
    (out : Response) :
    (read_loop fuel (sliced reads incoming) parser out).map Prod.fst =
      protocol.read_loop fuel reads incoming parser out := by
  induction fuel generalizing reads incoming parser out with
  | zero => rfl
  | succ fuel ih =>
    rcases hparse : parser.try_parse_response out with ⟨status, resp, next⟩
    rw [read_loop, protocol.read_loop, hparse]
    cases status with
    | Complete => rfl
    | Error => rfl
    | Incomplete =>
      dsimp only
      cases hcall : reads.head?.getD (.count kResponseReadSize) with
      | eintr => simp [sliced, hcall]
      | fail error => simp [sliced, hcall]
      | count n =>
        have hnext : (fun i => sliced reads incoming (i + 1)) =
            sliced reads.tail (incoming.drop (min (n + 1) kResponseReadSize)) := by
          funext i
          simp [sliced, hcall]
        have hdata :
            (sliced reads incoming 0).take kResponseReadSize = incoming.take (min (n + 1) kResponseReadSize) := by
          simp [sliced, hcall, List.take_take, Nat.min_comm]
        rw [hdata, hnext]
        cases incoming with
        | nil => simp
        | cons c incoming =>
          obtain ⟨size, hsize⟩ : ∃ size, min (n + 1) kResponseReadSize = size + 1 :=
            ⟨min n 4095, by simp only [kResponseReadSize]; omega⟩
          have hturn := ih reads.tail ((c :: incoming).drop (size + 1))
            (next.feed ((c :: incoming).take (size + 1))) resp
          simp only [hsize, List.take_succ_cons, Option.map_map]
          exact hturn

/-- A peer that answers and closes. -/
theorem send_request_sliced (req : Request) (reply : Bytes) (writes reads : List Syscall) :
    (send_request (reads.length + reply.length + 1) req writes (sliced reads reply)).map Prod.fst =
      (protocol.send_request req reply writes reads).1 := by
  rw [send_request, protocol.send_request]
  rcases write_loop (fun _ => ascii "failed to write request") writes (encode_request req) with ⟨written, wire, left⟩
  cases written with
  | error what => rfl
  | ok _ => exact read_loop_sliced ..

end stream

/-- The bytes that these reads can deliver. -/
def delivered : List Syscall → Nat
  | [] => 0
  | .count n :: reads => min (n + 1) kResponseReadSize + delivered reads
  | _ :: reads => delivered reads

/-- A read is interrupted before `n` bytes have been delivered. -/
def Interrupted (reads : List Syscall) (n : Nat) : Prop :=
  ∃ before after, reads = before ++ .eintr :: after ∧ delivered before < n

theorem not_interrupted_nil (n : Nat) : ¬ Interrupted [] n := by
  rintro ⟨before, after, hreads, _⟩
  simp at hreads

theorem interrupted_eintr_iff {reads : List Syscall} {n : Nat} : Interrupted (.eintr :: reads) n ↔ 0 < n := by
  constructor
  · rintro ⟨_, _, _, hless⟩
    omega
  · intro hpos
    exact ⟨[], reads, rfl, hpos⟩

theorem interrupted_count_iff {k n : Nat} {reads : List Syscall} :
    Interrupted (.count k :: reads) n ↔ Interrupted reads (n - min (k + 1) kResponseReadSize) := by
  constructor
  · rintro ⟨before, after, hreads, hless⟩
    cases before with
    | nil => simp at hreads
    | cons call before =>
      obtain ⟨rfl, rfl⟩ := List.cons.inj hreads
      refine ⟨before, after, rfl, ?_⟩
      rw [delivered] at hless
      omega
  · rintro ⟨before, after, rfl, hless⟩
    refine ⟨.count k :: before, after, rfl, ?_⟩
    rw [delivered]
    omega

/-- What a parser makes of the part of a reply that it holds. -/
theorem try_parse_response_part {resp : Response} {reply : Bytes} (hwf : resp.WellFormed)
    (hencoded : resp.Encoded reply)
    (parser : ResponseParser) (incoming : Bytes) (hparser : parser.buffer_ ++ incoming = reply) (out : Response) :
    (incoming = [] → (parser.try_parse_response out).1 = .Complete ∧
      (parser.try_parse_response out).2.1 = out.assign resp.carried) ∧
    (incoming ≠ [] → parser.try_parse_response out = (.Incomplete, out, parser)) := by
  constructor
  · rintro rfl
    have hwhole := inverts_encoded.whole (resp, reply) ⟨hwf, hencoded⟩ []
    rw [← hparser] at hwhole
    simp only [List.append_nil] at hwhole
    rw [ResponseParser.try_parse_response_eq, hwhole]
    exact ⟨rfl, rfl⟩
  · intro hne
    have hcut := inverts_encoded.cut (resp, reply) ⟨hwf, hencoded⟩ parser.buffer_ ⟨incoming, hparser⟩
      (fun hall => hne (by simpa [← hparser] using hall))
    rw [ResponseParser.try_parse_response_eq, hcut]
    rfl

theorem not_interrupted_zero (reads : List Syscall) : ¬ Interrupted reads 0 := by
  rintro ⟨_, _, _, hless⟩
  omega

/-- The read loop ends with the reply, unless it is interrupted on the way. -/
theorem read_loop_eq {resp : Response} {reply : Bytes} (hwf : resp.WellFormed) (hencoded : resp.Encoded reply)
    {fuel : Nat} {reads : List Syscall} (hreads : ∀ call ∈ reads, call.fails = false) (incoming : Bytes)
    (parser : ResponseParser) (hparser : parser.buffer_ ++ incoming = reply)
    (hfuel : reads.length + incoming.length < fuel) (out : Response) :
    (Interrupted reads incoming.length ∧
      read_loop fuel reads incoming parser out =
        some (.error (ascii "connection closed while waiting for response"))) ∨
    (¬ Interrupted reads incoming.length ∧
      read_loop fuel reads incoming parser out = some (.ok (out.assign resp.carried))) := by
  induction fuel generalizing reads incoming parser with
  | zero => omega
  | succ fuel ih =>
    obtain ⟨hdone, hwait⟩ := try_parse_response_part hwf hencoded parser _ hparser out
    cases incoming with
    | nil =>
      obtain ⟨hstatus, hresp⟩ := hdone rfl
      refine .inr ⟨not_interrupted_zero reads, ?_⟩
      rw [read_loop, ← hresp]
      split <;> simp_all
    | cons c incoming =>
      -- One read, of `size` bytes, whatever the outcomes after it are.
      have hturn (later : List Syscall) (hlater : ∀ call ∈ later, call.fails = false) (size : Nat)
          (hless : later.length + ((c :: incoming).drop size).length < fuel) :=
        ih hlater ((c :: incoming).drop size) (parser.feed ((c :: incoming).take size))
          (by simpa [ResponseParser.feed] using hparser) hless
      rw [read_loop, hwait (by simp)]
      cases reads with
      | nil =>
        rcases hturn [] (by simp) kResponseReadSize (by simp [kResponseReadSize] at hfuel ⊢; omega) with ⟨hint, _⟩ |
          ⟨_, hloop⟩
        · exact absurd hint (not_interrupted_nil _)
        · exact .inr ⟨not_interrupted_nil _, hloop⟩
      | cons call reads =>
        have hrest : ∀ call ∈ reads, call.fails = false := fun call hcall => hreads call (List.mem_cons_of_mem _ hcall)
        cases call with
        | count n =>
          rw [interrupted_count_iff, ← List.length_drop]
          exact hturn reads hrest _ (by simp [kResponseReadSize] at hfuel ⊢; omega)
        | eintr => exact .inl ⟨interrupted_eintr_iff.mpr (by simp), rfl⟩
        | fail error => exact absurd (hreads _ List.mem_cons_self) (by simp [Syscall.fails])

/-- How the kernel slices the calls does not matter: the request is written once
    and in order, and `send_request` returns what it returns when every call goes
    through in full, exactly if no read is interrupted before the reply is there. -/
theorem send_request_sliced_iff (req : Request) {resp : Response} {reply : Bytes} (hwf : resp.WellFormed)
    (hencoded : resp.Encoded reply) {writes reads : List Syscall} (hwrites : ∀ call ∈ writes, call.fails = false)
    (hreads : ∀ call ∈ reads, call.fails = false) :
    (send_request req reply writes reads).2 = encode_request req ∧
    (send_request req reply writes reads).1.isSome ∧
    send_request req reply [] [] = (some (.ok (receive reply).2), encode_request req) ∧
    (send_request req reply writes reads = send_request req reply [] [] ↔ ¬ Interrupted reads reply.length) := by
  have hreceive : (receive reply).2 = (⟨.Ok, [], []⟩ : Response).assign resp.carried :=
    ((try_parse_response_part hwf hencoded (({} : ResponseParser).feed reply) [] (by simp [ResponseParser.feed])
      ⟨.Ok, [], []⟩).1 rfl).2
  have hsend (writes reads : List Syscall) (hwrites : ∀ call ∈ writes, call.fails = false) :
      send_request req reply writes reads =
        (read_loop (reads.length + reply.length + 1) reads reply {} ⟨.Ok, [], []⟩, encode_request req) := by
    obtain ⟨left, hwritten⟩ := write_loop_complete (fun _ => ascii "failed to write request") hwrites
      (encode_request req)
    rw [send_request, hwritten]
  have hread (reads : List Syscall) (hreads : ∀ call ∈ reads, call.fails = false) :=
    read_loop_eq hwf hencoded hreads reply {} rfl (Nat.lt_succ_self _) ⟨.Ok, [], []⟩
  have hfull : send_request req reply [] [] = (some (.ok (receive reply).2), encode_request req) := by
    rcases hread [] (by simp) with ⟨hint, _⟩ | ⟨_, hloop⟩
    · exact absurd hint (not_interrupted_nil _)
    · rw [hsend [] [] (by simp), hloop, hreceive]
  rw [hfull, hsend writes reads hwrites]
  refine ⟨rfl, ?_, rfl, ?_⟩
  · rcases hread reads hreads with ⟨_, hloop⟩ | ⟨_, hloop⟩ <;> rw [hloop] <;> rfl
  · rcases hread reads hreads with ⟨hint, hloop⟩ | ⟨hint, hloop⟩
    · simp [hloop, hint]
    · simp [hloop, hint, hreceive]

/-- A `GET` written in pieces with an interruption, and its reply read in pieces. -/
theorem send_request_sliced_get :
    let req : Request := ⟨.Get, ascii "k", []⟩
    let reply := encode_value_response (ascii "v")
    let writes : List Syscall := [.count 1, .eintr, .count 0]
    let reads : List Syscall := [.count 3, .count 0]
    send_request req reply writes reads = send_request req reply [] [] := by
  intro req reply writes reads
  have hresp : (⟨.Value, ascii "v", []⟩ : Response).WellFormed := by decide
  refine (send_request_sliced_iff req hresp .value (by decide) (by decide)).2.2.2.mpr ?_
  rw [interrupted_count_iff, interrupted_count_iff]
  exact not_interrupted_nil _

/-- A `PING` whose first read is interrupted: the exchange is given up, although
    the peer answers. An interrupted write is simply repeated. -/
theorem send_request_interrupted :
    send_request ⟨.Ping, [], []⟩ encode_pong_response [] [] = (some (.ok ⟨.Pong, [], []⟩), ascii "PING" ++ [LF]) ∧
    send_request ⟨.Ping, [], []⟩ encode_pong_response [.eintr] [] =
      (some (.ok ⟨.Pong, [], []⟩), ascii "PING" ++ [LF]) ∧
    send_request ⟨.Ping, [], []⟩ encode_pong_response [] [.eintr] =
      (some (.error (ascii "connection closed while waiting for response")), ascii "PING" ++ [LF]) := by
  exact ⟨by rfl, by rfl, by rfl⟩

end kv.protocol
