import Mathlib.Data.List.Nodup
import Mathlib.Logic.Function.Basic
import Kv.Lib.Transition

namespace Linearizability

open Transition

universe u v w

/-- A sequential object: what an operation gives and leaves behind. -/
structure Spec (σ : Type u) (Op : Type v) (Res : Type w) where
  init : σ
  perform : σ → Op → Res × σ

/-- A thread and the number of its call. -/
abbrev CallId := Nat × Nat

/-- What is seen of operations that overlap: their calls and their returns. -/
inductive Event (Op : Type v) (Res : Type w)
  | call (id : CallId) (op : Op)
  | ret (id : CallId) (res : Res)
  deriving DecidableEq

/-- An operation with its result, in a sequential history. -/
structure Entry (Op : Type v) (Res : Type w) where
  id : CallId
  op : Op
  res : Res

variable {σ : Type u} {Op : Type v} {Res : Type w} {spec : Spec σ Op Res}

/-- The object after a sequential history. -/
def Spec.replay (spec : Spec σ Op Res) (value : σ) (entries : List (Entry Op Res)) : σ :=
  entries.foldl (fun value entry => (spec.perform value entry.op).2) value

/-- Every operation of a sequential history has the result that the object
    gives. -/
def Spec.Legal (spec : Spec σ Op Res) (value : σ) : List (Entry Op Res) → Prop
  | [] => True
  | entry :: entries =>
    (spec.perform value entry.op).1 = entry.res ∧ spec.Legal (spec.perform value entry.op).2 entries

theorem Spec.replay_snoc (value : σ) (entries : List (Entry Op Res)) (entry : Entry Op Res) :
    spec.replay value (entries ++ [entry]) = (spec.perform (spec.replay value entries) entry.op).2 := by
  simp [replay]

theorem Spec.Legal.snoc {value : σ} {entries : List (Entry Op Res)} (hlegal : spec.Legal value entries)
    {entry : Entry Op Res} (hres : (spec.perform (spec.replay value entries) entry.op).1 = entry.res) :
    spec.Legal value (entries ++ [entry]) := by
  induction entries generalizing value with
  | nil => exact ⟨hres, trivial⟩
  | cons first entries ih => exact ⟨hlegal.1, ih hlegal.2 hres⟩

/-- The first operation has returned before the second one is called. -/
def Precedes (history : List (Event Op Res)) (a b : CallId) : Prop :=
  ∃ before during after res op, history = before ++ .ret a res :: (during ++ .call b op :: after)

theorem Precedes.ret_mem {history : List (Event Op Res)} {a b : CallId} (hprecedes : Precedes history a b) :
    ∃ res, .ret a res ∈ history := by
  obtain ⟨before, during, after, res, op, rfl⟩ := hprecedes
  exact ⟨res, by simp⟩

/-- An order is new only where the last event is a call. -/
theorem Precedes.of_snoc {history : List (Event Op Res)} {last : Event Op Res} {a b : CallId}
    (hprecedes : Precedes (history ++ [last]) a b) : Precedes history a b ∨ ∃ op, last = .call b op := by
  obtain ⟨before, during, after, res, op, hsplit⟩ := hprecedes
  rw [← List.cons_append, ← List.append_assoc] at hsplit
  rcases snoc_eq_append_cons hsplit with ⟨-, -, hlast⟩ | ⟨after', -, hhistory⟩
  · exact .inr ⟨op, hlast⟩
  · exact .inl ⟨before, during, after', res, op, by simpa using hhistory⟩

/-- A sequential history that explains what is seen: operations that were
    called, among them all that have returned, with the results they returned,
    in an order that the object allows and that keeps the order of operations
    which do not overlap. -/
structure Linearization (spec : Spec σ Op Res) (history : List (Event Op Res)) (entries : List (Entry Op Res)) :
    Prop where
  nodup : (entries.map Entry.id).Nodup
  legal : spec.Legal spec.init entries
  called : ∀ entry ∈ entries, .call entry.id entry.op ∈ history
  returned : ∀ id res, .ret id res ∈ history → ∃ op, ⟨id, op, res⟩ ∈ entries
  ordered : ∀ a b, Precedes history a b → b ∈ entries.map Entry.id → [a, b].Sublist (entries.map Entry.id)

def Linearizable (spec : Spec σ Op Res) (history : List (Event Op Res)) : Prop :=
  ∃ entries, Linearization spec history entries

section Steps

variable {history : List (Event Op Res)} {entries : List (Entry Op Res)} {id : CallId}

theorem linearization_nil : Linearization spec [] [] where
  nodup := List.nodup_nil
  legal := trivial
  called _ hentry := nomatch hentry
  returned _ _ hret := nomatch hret
  ordered a b hprecedes := by
    obtain ⟨res, hmem⟩ := hprecedes.ret_mem
    simp at hmem

theorem Linearization.call (hlin : Linearization spec history entries) (hnew : id ∉ entries.map Entry.id) (op : Op) :
    Linearization spec (history ++ [.call id op]) entries where
  nodup := hlin.nodup
  legal := hlin.legal
  called entry hentry := List.mem_append_left _ (hlin.called entry hentry)
  returned id' res hret := hlin.returned id' res (by simpa using hret)
  ordered a b hprecedes hb := by
    rcases hprecedes.of_snoc with hold | ⟨op', hlast⟩
    · exact hlin.ordered a b hold hb
    · obtain ⟨rfl, -⟩ := Event.call.inj hlast
      exact absurd hb hnew

/-- An operation takes effect, after all that returned before its call. -/
theorem Linearization.commit (hlin : Linearization spec history entries) (hnew : id ∉ entries.map Entry.id) {op : Op}
    (hcall : .call id op ∈ history) :
    Linearization spec history
      (entries ++ [⟨id, op, (spec.perform (spec.replay spec.init entries) op).1⟩]) where
  nodup := by
    rw [List.map_append, List.map_singleton]
    exact hlin.nodup.append (List.nodup_singleton _) (by simpa using hnew)
  legal := hlin.legal.snoc rfl
  called entry hentry := by
    rcases List.mem_append.mp hentry with hold | hlast
    · exact hlin.called entry hold
    · obtain rfl := List.mem_singleton.mp hlast
      exact hcall
  returned id' res hret := by
    obtain ⟨op', hmem⟩ := hlin.returned id' res hret
    exact ⟨op', List.mem_append_left _ hmem⟩
  ordered a b hprecedes hb := by
    rw [List.map_append, List.map_singleton] at hb ⊢
    rcases List.mem_append.mp hb with hold | hlast
    · exact (hlin.ordered a b hprecedes hold).trans (List.sublist_append_left _ _)
    · obtain rfl := List.mem_singleton.mp hlast
      obtain ⟨res, hret⟩ := hprecedes.ret_mem
      obtain ⟨op', hmem⟩ := hlin.returned a res hret
      have ha : a ∈ entries.map Entry.id := List.mem_map.mpr ⟨_, hmem, rfl⟩
      exact (List.singleton_sublist.mpr ha).append (List.Sublist.refl [b])

theorem Linearization.ret (hlin : Linearization spec history entries) {op : Op} {res : Res}
    (hentry : ⟨id, op, res⟩ ∈ entries) : Linearization spec (history ++ [.ret id res]) entries where
  nodup := hlin.nodup
  legal := hlin.legal
  called entry hmem := List.mem_append_left _ (hlin.called entry hmem)
  returned id' res' hret := by
    rcases List.mem_append.mp hret with hold | hlast
    · exact hlin.returned id' res' hold
    · obtain ⟨rfl, rfl⟩ := Event.ret.inj (List.mem_singleton.mp hlast)
      exact ⟨op, hentry⟩
  ordered a b hprecedes hb := by
    rcases hprecedes.of_snoc with hold | ⟨op', hlast⟩
    · exact hlin.ordered a b hold hb
    · exact nomatch hlast

end Steps

/-- Where a thread stands in its current call. -/
inductive Status (Op : Type v) (Res : Type w)
  | idle
  | pending (op : Op)
  | done (res : Res)

/-- A thread of the atomic object, which has made this many calls before. -/
structure Client (Op : Type v) (Res : Type w) where
  calls : Nat := 0
  status : Status Op Res := .idle

/-- An object whose operations take effect at once, some time between their
    call and their return. -/
structure Atomic (σ : Type u) (Op : Type v) (Res : Type w) where
  value : σ
  clients : Nat → Client Op Res := fun _ => {}

inductive Label (Op : Type v)
  | call (t : Nat) (op : Op)
  | commit (t : Nat)
  | ret (t : Nat)

def Atomic.setClient (self : Atomic σ Op Res) (t : Nat) (client : Client Op Res) : Atomic σ Op Res :=
  { self with clients := Function.update self.clients t client }

def Atomic.step (spec : Spec σ Op Res) (self : Atomic σ Op Res) :
    Label Op → Option (Atomic σ Op Res × List (Event Op Res))
  | .call t op =>
    match self.clients t with
    | ⟨calls, .idle⟩ => some (self.setClient t ⟨calls, .pending op⟩, [.call (t, calls) op])
    | _ => none
  | .commit t =>
    match self.clients t with
    | ⟨calls, .pending op⟩ =>
      let (res, value) := spec.perform self.value op
      some ({ self.setClient t ⟨calls, .done res⟩ with value }, [])
    | _ => none
  | .ret t =>
    match self.clients t with
    | ⟨calls, .done res⟩ => some (self.setClient t ⟨calls + 1, .idle⟩, [.ret (t, calls) res])
    | _ => none

def Spec.atomic (spec : Spec σ Op Res) : System (Atomic σ Op Res) (Label Op) (Event Op Res) where
  init := { value := spec.init }
  step := Atomic.step spec

section Atomic

variable {history events : List (Event Op Res)} {entries : List (Entry Op Res)} {a a' : Atomic σ Op Res}

/-- What a linearization says about a thread. -/
structure Explains (history : List (Event Op Res)) (entries : List (Entry Op Res)) (t : Nat) (client : Client Op Res) :
    Prop where
  future : ∀ n, client.calls < n → (t, n) ∉ entries.map Entry.id
  idle : client.status = .idle → (t, client.calls) ∉ entries.map Entry.id
  pending : ∀ op, client.status = .pending op →
    .call (t, client.calls) op ∈ history ∧ (t, client.calls) ∉ entries.map Entry.id
  done : ∀ res, client.status = .done res → ∃ op, ⟨(t, client.calls), op, res⟩ ∈ entries

/-- More history changes nothing for a thread; more entries change nothing for
    the other threads. -/
theorem Explains.mono {t : Nat} {client : Client Op Res} {history' : List (Event Op Res)} {later : List (Entry Op Res)}
    (hexplains : Explains history entries t client) (hhistory : history ⊆ history')
    (hlater : ∀ entry ∈ later, entry.id.1 ≠ t) : Explains history' (entries ++ later) t client := by
  have hnew (n : Nat) (hn : (t, n) ∉ entries.map Entry.id) : (t, n) ∉ (entries ++ later).map Entry.id := by
    rw [List.map_append, List.mem_append, not_or]
    refine ⟨hn, fun hmem => ?_⟩
    obtain ⟨entry, hentry, hid⟩ := List.mem_map.mp hmem
    exact hlater entry hentry (congrArg Prod.fst hid)
  refine ⟨fun n hn => hnew n (hexplains.future n hn), fun hidle => hnew _ (hexplains.idle hidle), ?_, ?_⟩
  · intro op hpending
    obtain ⟨hcall, hfresh⟩ := hexplains.pending op hpending
    exact ⟨hhistory hcall, hnew _ hfresh⟩
  · intro res hdone
    obtain ⟨op, hmem⟩ := hexplains.done res hdone
    exact ⟨op, List.mem_append_left _ hmem⟩

structure Explained (spec : Spec σ Op Res) (history : List (Event Op Res)) (a : Atomic σ Op Res)
    (entries : List (Entry Op Res)) : Prop where
  linearization : Linearization spec history entries
  value : a.value = spec.replay spec.init entries
  clients : ∀ t, Explains history entries t (a.clients t)

theorem Explained.update (hexplained : Explained spec history a entries) {t : Nat} {client : Client Op Res}
    {later : List (Entry Op Res)} (hlater : ∀ entry ∈ later, entry.id.1 = t)
    (hlin : Linearization spec (history ++ events) (entries ++ later))
    (hvalue : a'.value = spec.replay spec.init (entries ++ later))
    (hclients : a'.clients = Function.update a.clients t client)
    (hself : Explains (history ++ events) (entries ++ later) t client) :
    Explained spec (history ++ events) a' (entries ++ later) where
  linearization := hlin
  value := hvalue
  clients t' := by
    rw [hclients]
    by_cases heq : t' = t
    · subst heq
      rwa [Function.update_self]
    · rw [Function.update_of_ne heq]
      refine (hexplained.clients t').mono (List.subset_append_left _ _) fun entry hentry => ?_
      rw [hlater entry hentry]
      exact Ne.symm heq

theorem Explained.call (hexplained : Explained spec history a entries) {t calls : Nat}
    (hclient : a.clients t = ⟨calls, .idle⟩) (op : Op) :
    Explained spec (history ++ [.call (t, calls) op]) (a.setClient t ⟨calls, .pending op⟩) entries := by
  have hold := hexplained.clients t
  rw [hclient] at hold
  have hfresh := hold.idle rfl
  have hlin := hexplained.linearization.call hfresh op
  have hself : Explains (history ++ [.call (t, calls) op]) entries t ⟨calls, .pending op⟩ :=
    ⟨hold.future, nofun, fun op' hop => by cases hop; exact ⟨by simp, hfresh⟩, nofun⟩
  rw [← List.append_nil entries] at hlin hself ⊢
  exact hexplained.update (by simp) hlin (by rw [List.append_nil]; exact hexplained.value) rfl hself

/-- The entries grow when an operation takes effect, and never otherwise. -/
theorem Explained.commit (hexplained : Explained spec history a entries) {t calls : Nat} {op : Op}
    (hclient : a.clients t = ⟨calls, .pending op⟩) :
    Explained spec (history ++ [])
      { a.setClient t ⟨calls, .done (spec.perform a.value op).1⟩ with value := (spec.perform a.value op).2 }
      (entries ++ [⟨(t, calls), op, (spec.perform a.value op).1⟩]) := by
  have hold := hexplained.clients t
  rw [hclient] at hold
  obtain ⟨hcall, hfresh⟩ := hold.pending op rfl
  have hlin := hexplained.linearization.commit hfresh hcall
  rw [← hexplained.value, ← List.append_nil history] at hlin
  refine hexplained.update (t := t) (by simp) hlin ?_ (by rfl) ?_
  · rw [Spec.replay_snoc, ← hexplained.value]
  · refine ⟨fun n hn => ?_, nofun, nofun, fun res hres => ?_⟩
    · rw [List.map_append, List.mem_append, not_or]
      refine ⟨hold.future n hn, ?_⟩
      simp only [List.map_singleton, List.mem_singleton, Prod.mk.injEq, true_and]
      exact Nat.ne_of_gt hn
    · cases hres
      exact ⟨op, by simp⟩

theorem Explained.ret (hexplained : Explained spec history a entries) {t calls : Nat} {res : Res}
    (hclient : a.clients t = ⟨calls, .done res⟩) :
    Explained spec (history ++ [.ret (t, calls) res]) (a.setClient t ⟨calls + 1, .idle⟩) entries := by
  have hold := hexplained.clients t
  rw [hclient] at hold
  obtain ⟨op, hentry⟩ := hold.done res rfl
  have hlin := hexplained.linearization.ret hentry
  have hself : Explains (history ++ [.ret (t, calls) res]) entries t ⟨calls + 1, .idle⟩ :=
    ⟨fun n hn => hold.future n (Nat.lt_of_succ_lt hn), fun _ => hold.future _ (Nat.lt_succ_self _), nofun, nofun⟩
  rw [← List.append_nil entries] at hlin hself ⊢
  exact hexplained.update (by simp) hlin (by rw [List.append_nil]; exact hexplained.value) rfl hself

theorem Explained.keep (hexplained : Explained spec history a entries) {label : Label Op}
    (hstep : Atomic.step spec a label = some (a', events)) :
    ∃ entries', Explained spec (history ++ events) a' entries' := by
  cases label with
  | call t op =>
    simp only [Atomic.step] at hstep
    split at hstep
    · rename_i calls hclient
      obtain ⟨rfl, rfl⟩ := Prod.mk.inj (Option.some.inj hstep)
      exact ⟨entries, hexplained.call hclient op⟩
    · simp at hstep
  | commit t =>
    simp only [Atomic.step] at hstep
    split at hstep
    · rename_i calls op hclient
      obtain ⟨rfl, rfl⟩ := Prod.mk.inj (Option.some.inj hstep)
      exact ⟨_, hexplained.commit hclient⟩
    · simp at hstep
  | ret t =>
    simp only [Atomic.step] at hstep
    split at hstep
    · rename_i calls res hclient
      obtain ⟨rfl, rfl⟩ := Prod.mk.inj (Option.some.inj hstep)
      exact ⟨entries, hexplained.ret hclient⟩
    · simp at hstep

/-- What is seen of an atomic object is linearizable. So is, by simulation, what
    is seen of everything that behaves like one. -/
theorem linearizable_of_atomic {P : Label Op → Prop} (hrun : Run spec.atomic P spec.atomic.init history a) :
    Linearizable spec history := by
  have hexplained := hrun.invariant (C := fun _ => True)
    (I := fun history a => ∃ entries, Explained spec history a entries) (fun _ _ _ => trivial) ?_ ?_ trivial
  · obtain ⟨entries, hexplained⟩ := hexplained
    exact ⟨entries, hexplained.linearization⟩
  · refine ⟨[], linearization_nil, rfl, fun t => ⟨?_, ?_, nofun, nofun⟩⟩
    · simp
    · simp
  · rintro history a label a' events ⟨entries, hexplained⟩ _ _ hstep
    exact hexplained.keep hstep

end Atomic

end Linearizability
