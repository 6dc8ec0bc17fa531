/-
  OpenU60.SmsForward.Log — the forward log: pushing with a cap, clearing, and writing a
  held forward's outcome back.

  A held (`pending`) entry is the only copy of its forward, and a failed entry is what
  the log remembers of a failed forward. `keepEntry` protects both from trimming and
  clearing, the failed one only while an entry of the same SMS is held. So what a push
  or a clear can lose is: a failed entry none of whose siblings is held yet, and, once
  the log is full of protected entries, whichever stands first (`makeRoom`).
-/

import OpenU60.Lib.FirstMatch
import OpenU60.SmsForward.Model

namespace OpenU60.SmsForward

open OpenU60.Lib.FirstMatch

def heldIds (log : List ForwardLogEntry) : List Nat := (log.filter (·.pending)).map (·.smsId)

def keepEntry (held : List Nat) (e : ForwardLogEntry) : Bool := e.pending || (!e.success && held.contains e.smsId)

/-- The `retain` of `push_log`: drop what `keep` refuses while `excess` lasts; also what
    is left of it. -/
def retainExcess (keep : ForwardLogEntry → Bool) : Nat → List ForwardLogEntry → List ForwardLogEntry × Nat
  | excess, [] => ([], excess)
  | excess, e :: es =>
    if 0 < excess ∧ keep e = false then retainExcess keep (excess - 1) es
    else
      let r := retainExcess keep excess es
      (e :: r.1, r.2)

def pushLog (log : List ForwardLogEntry) (entry : ForwardLogEntry) : List ForwardLogEntry :=
  let log := log ++ [entry]
  let excess := log.length - maxLogEntries
  if excess = 0 then log
  else
    let r := retainExcess (keepEntry (heldIds log)) excess log
    r.1.drop r.2

def clearLog (log : List ForwardLogEntry) : List ForwardLogEntry := log.filter (keepEntry (heldIds log))

/-- The test `update_pending` finds its entry by. -/
def heldAs (smsId : Nat) (ruleId : UInt32) (e : ForwardLogEntry) : Bool :=
  e.pending && e.smsId == smsId && e.ruleId == ruleId

def writeOutcome (error : Option String) (pending : Bool) (now : Int) (e : ForwardLogEntry) : ForwardLogEntry :=
  { e with success := error.isNone, error := error, pending := pending,
           timestamp := if pending then e.timestamp else now }

def updatePending (log : List ForwardLogEntry) (smsId : Nat) (ruleId : UInt32) (error : Option String)
    (pending : Bool) (now : Int) : List ForwardLogEntry × Bool :=
  match log.find? (heldAs smsId ruleId) with
  | none => (log, false)
  | some _ => (updateFirst (heldAs smsId ruleId) (writeOutcome error pending now) log, true)

/-- `updatePending`, and whether every forward of that SMS the log knows has now gone out. -/
def settlePending (log : List ForwardLogEntry) (smsId : Nat) (ruleId : UInt32) (error : Option String)
    (pending : Bool) (now : Int) : List ForwardLogEntry × Bool :=
  let sent := error.isNone && !pending
  let r := updatePending log smsId ruleId error pending now
  (r.1, r.2 && sent && (r.1.filter (·.smsId == smsId)).all (·.success))

/-! ## Writing an outcome back -/

section Outcome

variable (smsId : Nat) (ruleId : UInt32) (error : Option String) (pending : Bool) (now : Int)

theorem heldAs_iff {smsId : Nat} {ruleId : UInt32} {e : ForwardLogEntry} :
    heldAs smsId ruleId e = true ↔ e.pending = true ∧ e.smsId = smsId ∧ e.ruleId = ruleId := by
  simp [heldAs, and_assoc]

@[simp] theorem writeOutcome_smsId (e : ForwardLogEntry) : (writeOutcome error pending now e).smsId = e.smsId := rfl
@[simp] theorem writeOutcome_ruleId (e : ForwardLogEntry) : (writeOutcome error pending now e).ruleId = e.ruleId := rfl
@[simp] theorem writeOutcome_maker (e : ForwardLogEntry) : (writeOutcome error pending now e).maker = e.maker := rfl
@[simp] theorem writeOutcome_pending (e : ForwardLogEntry) : (writeOutcome error pending now e).pending = pending := rfl
@[simp] theorem writeOutcome_success (e : ForwardLogEntry) :
    (writeOutcome error pending now e).success = error.isNone := rfl

theorem settlePending_log (log : List ForwardLogEntry) :
    (settlePending log smsId ruleId error pending now).1 =
      updateFirst (heldAs smsId ruleId) (writeOutcome error pending now) log := by
  unfold settlePending updatePending
  cases h : log.find? (heldAs smsId ruleId) with
  | none => exact (updateFirst_none h).symm
  | some v => rfl

variable {smsId ruleId error pending now}

/-- An SMS is done when a held forward of it went out and every forward of it in the
    updated log is a success. -/
theorem settlePending_done {log : List ForwardLogEntry} (h : (settlePending log smsId ruleId error pending now).2 = true) :
    (∃ v, log.find? (heldAs smsId ruleId) = some v) ∧ error = none ∧ pending = false ∧
      ∀ x ∈ updateFirst (heldAs smsId ruleId) (writeOutcome error pending now) log, x.smsId = smsId → x.success = true := by
  rw [← settlePending_log]
  simp only [settlePending, Bool.and_eq_true, List.all_eq_true, List.mem_filter, beq_iff_eq, and_imp] at h ⊢
  obtain ⟨⟨hfound, hsent⟩, hall⟩ := h
  refine ⟨?_, by simpa using hsent.1, by simpa using hsent.2, hall⟩
  cases hf : log.find? (heldAs smsId ruleId) with
  | none => simp [updatePending, hf] at hfound
  | some v => exact ⟨v, rfl⟩

theorem mem_settled {log : List ForwardLogEntry} {x : ForwardLogEntry}
    (h : x ∈ updateFirst (heldAs smsId ruleId) (writeOutcome error pending now) log) :
    x ∈ log ∨ ∃ v ∈ log, v.pending = true ∧ v.smsId = smsId ∧ v.ruleId = ruleId ∧ x = writeOutcome error pending now v := by
  rcases mem_updateFirst h with h | ⟨v, hv, rfl⟩
  · exact Or.inl h
  · obtain ⟨hp, hs, hr⟩ := heldAs_iff.mp (List.find?_some hv)
    exact Or.inr ⟨v, List.mem_of_find?_eq_some hv, hp, hs, hr, rfl⟩

end Outcome

/-! ## What a push drops -/

/-- The entry a full log gives up for the last one, and what is left: the oldest entry
    that is neither held nor the failed sibling of a held one, else the first. -/
def makeRoom (log : List ForwardLogEntry) : Option (ForwardLogEntry × List ForwardLogEntry) :=
  if log.length ≤ maxLogEntries then none
  else
    match log.find? (fun e => !keepEntry (heldIds log) e), log with
    | some v, _ => some (v, log.eraseP fun e => !keepEntry (heldIds log) e)
    | none, v :: rest => some (v, rest)
    | none, [] => none

theorem retainExcess_zero (keep : ForwardLogEntry → Bool) (l : List ForwardLogEntry) :
    retainExcess keep 0 l = (l, 0) := by
  induction l with
  | nil => rfl
  | cons e es ih => simp [retainExcess, ih]

theorem retainExcess_one (keep : ForwardLogEntry → Bool) (l : List ForwardLogEntry) :
    retainExcess keep 1 l =
      match l.find? (fun e => !keep e) with
      | some _ => (l.eraseP fun e => !keep e, 0)
      | none => (l, 1) := by
  induction l with
  | nil => rfl
  | cons e es ih =>
    cases hk : keep e with
    | false => simp [retainExcess, hk, retainExcess_zero]
    | true =>
      simp only [retainExcess, hk, ih, List.find?_cons, List.eraseP_cons]
      cases es.find? (fun e => !keep e) <;> simp

/-- A push onto a log within its cap appends, and drops what `makeRoom` names. -/
theorem pushLog_eq {log : List ForwardLogEntry} (hcap : log.length ≤ maxLogEntries) (e : ForwardLogEntry) :
    pushLog log e = match makeRoom (log ++ [e]) with
      | none => log ++ [e]
      | some (_, rest) => rest := by
  have hlen : (log ++ [e]).length = log.length + 1 := by simp
  by_cases hle : (log ++ [e]).length ≤ maxLogEntries
  · simp only [pushLog, makeRoom, if_pos hle]
    rw [if_pos (by omega)]
  · have hex : (log ++ [e]).length - maxLogEntries = 1 := by omega
    simp only [pushLog, makeRoom, if_neg hle, hex, retainExcess_one]
    rw [if_neg (by omega)]
    cases hf : (log ++ [e]).find? (fun x => !keepEntry (heldIds (log ++ [e])) x) with
    | some v => simp
    | none =>
      cases hl : log ++ [e] with
      | nil => simp at hl
      | cons v rest => simp

theorem makeRoom_mem {log rest : List ForwardLogEntry} {v : ForwardLogEntry} (h : makeRoom log = some (v, rest)) :
    ∀ x, x ∈ log ↔ x = v ∨ x ∈ rest := by
  unfold makeRoom at h
  split at h
  · cases h
  · split at h
    · rename_i hf
      simp only [Option.some.injEq, Prod.mk.injEq] at h
      obtain ⟨rfl, rfl⟩ := h
      exact mem_eraseP_find hf
    · simp only [Option.some.injEq, Prod.mk.injEq] at h
      obtain ⟨rfl, rfl⟩ := h
      intro x; exact List.mem_cons
    · cases h

theorem makeRoom_length {log rest : List ForwardLogEntry} {v : ForwardLogEntry} (h : makeRoom log = some (v, rest)) :
    rest.length + 1 = log.length := by
  unfold makeRoom at h
  split at h
  · cases h
  · split at h
    · rename_i hf
      simp only [Option.some.injEq, Prod.mk.injEq] at h
      obtain ⟨-, rfl⟩ := h
      have hmem := List.mem_of_find?_eq_some hf
      rw [List.length_eraseP_of_mem hmem (List.find?_some hf)]
      have := List.length_pos_of_mem hmem
      omega
    · simp only [Option.some.injEq, Prod.mk.injEq] at h
      obtain ⟨-, rfl⟩ := h
      rfl
    · cases h

theorem makeRoom_none {log : List ForwardLogEntry} (h : makeRoom log = none) : log.length ≤ maxLogEntries := by
  unfold makeRoom at h
  split at h
  · assumption
  · split at h
    · cases h
    · cases h
    · exact Nat.zero_le _

theorem length_pushLog {log : List ForwardLogEntry} (hcap : log.length ≤ maxLogEntries) (e : ForwardLogEntry) :
    (pushLog log e).length ≤ maxLogEntries := by
  rw [pushLog_eq hcap]
  cases h : makeRoom (log ++ [e]) with
  | none => exact makeRoom_none h
  | some x =>
    have := makeRoom_length h
    simp only [List.length_append, List.length_singleton] at this
    show x.2.length ≤ maxLogEntries
    omega

theorem retainExcess_sublist (keep : ForwardLogEntry → Bool) (excess : Nat) (l : List ForwardLogEntry) :
    (retainExcess keep excess l).1.Sublist l := by
  induction l generalizing excess with
  | nil => exact List.Sublist.refl _
  | cons e es ih =>
    unfold retainExcess
    split
    · exact (ih _).trans (List.sublist_cons_self e es)
    · exact (ih _).cons_cons e

/-- A push may drop entries, it neither changes nor reorders one. -/
theorem pushLog_sublist (log : List ForwardLogEntry) (e : ForwardLogEntry) : (pushLog log e).Sublist (log ++ [e]) := by
  unfold pushLog
  dsimp only
  split
  · exact List.Sublist.refl _
  · exact (List.drop_sublist _ _).trans (retainExcess_sublist _ _ _)

theorem mem_pushLog {log : List ForwardLogEntry} (hcap : log.length ≤ maxLogEntries) {e x : ForwardLogEntry}
    (h : x ∈ pushLog log e) : x ∈ log ∨ x = e := by
  rw [pushLog_eq hcap] at h
  have hmem : x ∈ log ++ [e] := by
    cases hr : makeRoom (log ++ [e]) with
    | none => rwa [hr] at h
    | some y => rw [hr] at h; exact (makeRoom_mem hr x).mpr (Or.inr h)
  simpa using hmem

end OpenU60.SmsForward
