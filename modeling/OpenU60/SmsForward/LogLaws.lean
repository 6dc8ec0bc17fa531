/-
  OpenU60.SmsForward.LogLaws — every sequence of calls on the forward log, from any log.

  - `retainExcess_spec`: what trimming drops, what it keeps and what is left over the cap.
  - `filed_sublist`: whatever a call writes, the log stays a part of what was filed, in that order.
  - `log_calls_lawful`: a push leaves at most the cap and loses a held entry only once nothing
    unprotected is left; a clear removes the unprotected entries and no others; a write loses none.
-/

import OpenU60.Lib.Machine
import OpenU60.SmsForward.Log
import OpenU60.SmsForward.Retry

namespace OpenU60.SmsForward

open OpenU60.Lib OpenU60.Lib.FirstMatch

inductive LogCall where
  | push (entry : ForwardLogEntry)
  | updatePending (smsId : Nat) (ruleId : UInt32) (error : Option String) (pending : Bool) (now : Int)
  | updateRetried (target : ForwardLogEntry) (result : Except String Unit) (now : Int)
  | settlePending (smsId : Nat) (ruleId : UInt32) (error : Option String) (pending : Bool) (now : Int)
  | clear

def LogCall.run (log : List ForwardLogEntry) : LogCall → List ForwardLogEntry
  | push entry => pushLog log entry
  | updatePending smsId ruleId error pending now => (SmsForward.updatePending log smsId ruleId error pending now).1
  | updateRetried target result now => SmsForward.updateRetried log target result now
  | settlePending smsId ruleId error pending now => (SmsForward.settlePending log smsId ruleId error pending now).1
  | clear => clearLog log

/-- An entry as it was filed: what no later write changes. -/
def ForwardLogEntry.filed (e : ForwardLogEntry) : ForwardLogEntry :=
  { e with success := false, error := none, pending := false, timestamp := 0 }

def filings (calls : List LogCall) : List ForwardLogEntry :=
  calls.filterMap fun
    | .push entry => some entry
    | _ => none

/-- Held, or a failed sibling of a held entry. -/
def Protected (log : List ForwardLogEntry) (e : ForwardLogEntry) : Prop :=
  e.pending = true ∨ e.success = false ∧ ∃ h ∈ log, h.pending = true ∧ h.smsId = e.smsId

instance (log : List ForwardLogEntry) : DecidablePred (Protected log) := fun _ => by unfold Protected; infer_instance

/-- What a call may do to the log. -/
def LogCall.Lawful (log : List ForwardLogEntry) : LogCall → Prop
  | push entry => (pushLog log entry).length ≤ maxLogEntries ∧ ∃ dropped, (dropped ++ pushLog log entry).Perm (log ++ [entry]) ∧
      ((∃ v ∈ dropped, v.pending = true) → ∀ x ∈ pushLog log entry, Protected (log ++ [entry]) x) ∧
      (log.length ≤ maxLogEntries → dropped.length ≤ 1)
  | clear => clearLog log = log.filter fun e => Protected log e
  | call => (call.run log).map (·.filed) = log.map (·.filed)

variable {log : List ForwardLogEntry}

/-! ## One call -/

theorem keepEntry_iff (e : ForwardLogEntry) : keepEntry (heldIds log) e = true ↔ Protected log e := by
  have hheld : (heldIds log).contains e.smsId = true ↔ ∃ h ∈ log, h.pending = true ∧ h.smsId = e.smsId := by
    simp [heldIds, and_assoc]
  unfold keepEntry Protected
  rw [Bool.or_eq_true, Bool.and_eq_true, hheld, Bool.not_eq_true']

/-- What is dropped is unprotected, and nothing unprotected stays while there is an excess. -/
theorem retainExcess_spec (keep : ForwardLogEntry → Bool) (excess : Nat) (l : List ForwardLogEntry) : ∃ dropped, (dropped ++ (retainExcess keep excess l).1).Perm l ∧
    (∀ v ∈ dropped, keep v = false) ∧ dropped.length + (retainExcess keep excess l).2 = excess ∧
    (0 < (retainExcess keep excess l).2 → ∀ x ∈ (retainExcess keep excess l).1, keep x = true) := by
  induction l generalizing excess with
  | nil => exact ⟨[], List.Perm.refl _, nofun, Nat.zero_add _, fun _ => nofun⟩
  | cons e es ih =>
    unfold retainExcess
    by_cases hdrop : 0 < excess ∧ keep e = false
    · rw [if_pos hdrop]
      obtain ⟨dropped, hperm, hunprotected, hlen, hrest⟩ := ih (excess - 1)
      refine ⟨e :: dropped, hperm.cons e, ?_, ?_, hrest⟩
      · intro v hv
        rcases List.mem_cons.mp hv with rfl | hv
        · exact hdrop.2
        · exact hunprotected v hv
      · rw [List.length_cons]
        omega
    · rw [if_neg hdrop]
      obtain ⟨dropped, hperm, hunprotected, hlen, hrest⟩ := ih excess
      refine ⟨dropped, List.perm_middle.trans (hperm.cons e), hunprotected, hlen, ?_⟩
      intro hleft x hx
      dsimp only at hleft hx
      rcases List.mem_cons.mp hx with rfl | hx
      · have hpos : 0 < excess := by omega
        simpa using fun hk => hdrop ⟨hpos, hk⟩
      · exact hrest hleft x hx

theorem push_lawful (log : List ForwardLogEntry) (entry : ForwardLogEntry) : LogCall.Lawful log (.push entry) := by
  unfold LogCall.Lawful pushLog
  dsimp only
  have hlength : (log ++ [entry]).length = log.length + 1 := List.length_append
  by_cases hroom : (log ++ [entry]).length - maxLogEntries = 0
  · rw [if_pos hroom]
    refine ⟨by omega, [], List.Perm.refl _, ?_, fun _ => Nat.zero_le _⟩
    rintro ⟨v, hv, -⟩
    cases hv
  · rw [if_neg hroom]
    obtain ⟨dropped, hperm, hunprotected, hexcess, hrest⟩ :=
      retainExcess_spec (keepEntry (heldIds (log ++ [entry]))) ((log ++ [entry]).length - maxLogEntries) (log ++ [entry])
    generalize retainExcess (keepEntry (heldIds (log ++ [entry]))) ((log ++ [entry]).length - maxLogEntries) (log ++ [entry]) = r at *
    have hlen := hperm.length_eq
    rw [List.length_append] at hlen
    refine ⟨?_, dropped ++ r.1.take r.2, ?_, ?_, ?_⟩
    · rw [List.length_drop]
      omega
    · rw [List.append_assoc, List.take_append_drop]
      exact hperm
    · rintro ⟨v, hv, hheld⟩ x hx
      rcases List.mem_append.mp hv with hv | hv
      · have hkept : keepEntry (heldIds (log ++ [entry])) v = true := (keepEntry_iff v).mpr (.inl hheld)
        rw [hunprotected v hv] at hkept
        cases hkept
      · -- a held entry goes only for what is left over the cap
        have hleft : 0 < r.2 := by
          by_contra hzero
          have : r.2 = 0 := by omega
          rw [this] at hv
          cases hv
        exact (keepEntry_iff x).mp (hrest hleft x (List.mem_of_mem_drop hx))
    · intro hcap
      rw [List.length_append]
      have htake := List.length_take_le r.2 r.1
      omega

theorem filed_settled (log : List ForwardLogEntry) (smsId : Nat) (ruleId : UInt32) (error : Option String) (pending : Bool) (now : Int) :
    (settlePending log smsId ruleId error pending now).1.map (·.filed) = log.map (·.filed) := by
  rw [settlePending_log]
  refine map_updateFirst (fun e _ => ?_) log
  rfl

theorem lawful (log : List ForwardLogEntry) (call : LogCall) : call.Lawful log := by
  cases call with
  | push entry => exact push_lawful log entry
  | updatePending smsId ruleId error pending now => exact filed_settled log smsId ruleId error pending now
  | settlePending smsId ruleId error pending now => exact filed_settled log smsId ruleId error pending now
  | updateRetried target result now =>
    refine map_updateFirst (fun e _ => ?_) log
    cases result <;> rfl
  | clear =>
    refine List.filter_congr fun e _ => ?_
    rw [Bool.eq_iff_iff, keepEntry_iff, decide_eq_true_iff]

/-! ## Arrival order -/

theorem filed_run (log : List ForwardLogEntry) (call : LogCall) :
    ((call.run log).map (·.filed)).Sublist ((log ++ filings [call]).map (·.filed)) := by
  have hkeeps : ∀ {log' : List ForwardLogEntry}, log'.map (·.filed) = log.map (·.filed) → filings [call] = [] →
      (log'.map (·.filed)).Sublist ((log ++ filings [call]).map (·.filed)) := by
    intro log' h hnone
    rw [h, hnone, List.append_nil]
  have hlawful := lawful log call
  cases call with
  | push entry => exact (pushLog_sublist log entry).map _
  | clear => exact (List.filter_sublist.trans (List.sublist_append_left log [])).map _
  | updatePending smsId ruleId error pending now => exact hkeeps hlawful rfl
  | updateRetried target result now => exact hkeeps hlawful rfl
  | settlePending smsId ruleId error pending now => exact hkeeps hlawful rfl

theorem filed_sublist (start : List ForwardLogEntry) (calls : List LogCall) :
    ((Machine.exec LogCall.run start calls).map (·.filed)).Sublist ((start ++ filings calls).map (·.filed)) := by
  induction calls generalizing start with
  | nil =>
    rw [Machine.exec_nil]
    exact (List.sublist_append_left start []).map _
  | cons call calls ih =>
    have hfilings : filings (call :: calls) = filings [call] ++ filings calls := List.filterMap_append (l := [call])
    rw [Machine.exec_cons, hfilings, ← List.append_assoc, List.map_append]
    refine (ih (call.run start)).trans ?_
    rw [List.map_append]
    exact (filed_run start call).append_right _

/-- Whatever is called in whatever order, each call is lawful and the log is a part of what was filed, in the order it
    was filed. -/
theorem log_calls_lawful (start : List ForwardLogEntry) (calls : List LogCall) :
    Machine.Along LogCall.run LogCall.Lawful start calls ∧
      ((Machine.exec LogCall.run start calls).map (·.filed)).Sublist ((start ++ filings calls).map (·.filed)) := by
  refine ⟨?_, filed_sublist start calls⟩
  exact Machine.along_invariant (I := fun _ => True) (fun _ _ _ => trivial) (fun log call _ => lawful log call) trivial

end OpenU60.SmsForward
