import Kv.Bytes

namespace kv

/-- What the kernel makes of one `read` or `write`: it transfers at most `n + 1`
    bytes, interrupts the call, or fails it with this `strerror(errno)`. A call
    that returns 0 counts as failed. -/
inductive Syscall
  | count (n : Nat)
  | eintr
  | fail (error : Bytes)
  deriving DecidableEq, Repr

def Syscall.fails : Syscall → Bool
  | .fail _ => true
  | _ => false

/-- A loop that writes all of `data`, retries interrupted calls, and throws where
    a call fails. It gives the bytes written and the outcomes not yet used; the
    calls after the last outcome go through in full. -/
def write_loop (thrown : Bytes → Bytes) : List Syscall → Bytes → Except Bytes Unit × Bytes × List Syscall
  | writes, [] => (.ok (), [], writes)
  | [], data => (.ok (), data, [])
  | .count n :: writes, c :: data =>
    let (outcome, wire, left) := write_loop thrown writes ((c :: data).drop (n + 1))
    (outcome, (c :: data).take (n + 1) ++ wire, left)
  | .eintr :: writes, c :: data => write_loop thrown writes (c :: data)
  | .fail error :: writes, _ :: _ => (.error (thrown error), [], writes)

/-- Without a failed call, all of the data is written, once and in order,
    whatever is interrupted or cut short. -/
theorem write_loop_complete (thrown : Bytes → Bytes) {writes : List Syscall}
    (hwrites : ∀ call ∈ writes, call.fails = false)
    (data : Bytes) : ∃ left, write_loop thrown writes data = (.ok (), data, left) := by
  induction writes generalizing data with
  | nil => cases data <;> exact ⟨[], rfl⟩
  | cons call writes ih =>
    have hrest : ∀ call ∈ writes, call.fails = false := fun call hcall => hwrites call (List.mem_cons_of_mem _ hcall)
    cases data with
    | nil => exact ⟨call :: writes, rfl⟩
    | cons c data =>
      cases call with
      | count n =>
        obtain ⟨left, hleft⟩ := ih hrest ((c :: data).drop (n + 1))
        refine ⟨left, ?_⟩
        rw [write_loop, hleft]
        exact Prod.ext rfl (Prod.ext (List.take_append_drop _ _) rfl)
      | eintr => exact ih hrest (c :: data)
      | fail error => exact absurd (hwrites _ List.mem_cons_self) (by simp [Syscall.fails])

/-- What a write leaves are outcomes that it was given. -/
theorem write_loop_left_suffix (thrown : Bytes → Bytes) (writes : List Syscall) (data : Bytes) :
    (write_loop thrown writes data).2.2 <:+ writes := by
  induction writes generalizing data with
  | nil => cases data <;> exact List.suffix_rfl
  | cons call writes ih =>
    cases data with
    | nil => exact List.suffix_rfl
    | cons c data =>
      cases call with
      | count n => exact (ih _).trans (List.suffix_cons _ _)
      | eintr => exact (ih _).trans (List.suffix_cons _ _)
      | fail error => exact List.suffix_cons _ _

/-- A write of at least one byte throws, or comes closer to a call that fails. -/
theorem write_loop_fail (thrown : Bytes → Bytes) (before after : List Syscall) (error : Bytes) {data : Bytes}
    (hdata : data ≠ []) :
    (∃ what, (write_loop thrown (before ++ .fail error :: after) data).1 = .error what) ∨
    ∃ wire before', write_loop thrown (before ++ .fail error :: after) data =
        (.ok (), wire, before' ++ .fail error :: after) ∧ before'.length < before.length := by
  obtain ⟨c, data, rfl⟩ := List.exists_cons_of_ne_nil hdata
  induction before generalizing c data with
  | nil => exact .inl ⟨thrown error, rfl⟩
  | cons call before ih =>
    rw [List.cons_append]
    cases call with
    | fail first => exact .inl ⟨thrown first, rfl⟩
    | eintr =>
      rw [write_loop]
      rcases ih c data (by simp) with hthrows | ⟨wire, before', hloop, hless⟩
      · exact .inl hthrows
      · exact .inr ⟨wire, before', hloop, by rw [List.length_cons]; omega⟩
    | count n =>
      rw [write_loop]
      cases hrest : (c :: data).drop (n + 1) with
      | nil => exact .inr ⟨(c :: data).take (n + 1), before, by simp [write_loop], by simp⟩
      | cons d rest =>
        rcases ih d rest (by simp) with hthrows | ⟨wire, before', hloop, hless⟩
        · exact .inl hthrows
        · exact .inr ⟨_, before', by rw [hloop], by rw [List.length_cons]; omega⟩

end kv
