/-
  OpenU60.Esim.Reconnect — data is left as the user wants it (`zte-agent/src/esim_network.rs`, `reconnect`).

  A conversation of `reconnect` with any environment has one of the shapes of `Shape`: no write at all, or the disable
  write, a wait without writes, and one of the ends of `Ends`. What is owed is read off them:
  - at most the disable and the enable write, in this order, with the roaming value first read, the enable write
    right after a restore was allowed;
  - with the disable write out and the restore always allowed, the enable write, unless a later read reports
    another connect mode or roaming value.

  `Cut`: where the last read succeeds without a field, that is taken for a change, and data stays off. `reconnect_iff`: this
  is the only way, and a whole verification keeps to its bounds.
-/

import OpenU60.Esim.Network

namespace OpenU60.Esim.Network

open OpenU60.Lib
open OpenU60.Lib.Dialogue

/-! ## A conversation -/

def written : Exchange Ask Ask.Answer → Option Json
  | ⟨.write body, _⟩ => some body
  | _ => none

def readIn : Exchange Ask Ask.Answer → Option (Option Json)
  | ⟨.read, v⟩ => some v
  | _ => none

namespace Talk

def writes (c : Talk) : List Json := c.filterMap written

def reads (c : Talk) : List (Option Json) := c.filterMap readIn

/-- What follows the first write. -/
def later (c : Talk) : Talk := (c.dropWhile fun x => (written x).isNone).tail

end Talk

/-- The modem reports another connect mode, or another roaming value. -/
def Differs (roaming : Int) (v : Json) : Prop :=
  v.get "connect_mode" ≠ .null ∧ integer (v.get "connect_mode") ≠ some 1 ∨
    v.get "roam_enable" ≠ .null ∧ integer (v.get "roam_enable") ≠ some roaming

def Lacks (v : Json) : Prop := v.get "connect_mode" = .null ∨ v.get "roam_enable" = .null

/-- What `reconnect` owes in a conversation. -/
structure Owed (c : Talk) : Prop where
  writes : c.writes = [] ∨ ∃ before roaming, c.reads.head? = some (some before) ∧
    integer (before.get "roam_enable") = some roaming ∧
      (c.writes = [disableBody roaming] ∨ c.writes = [disableBody roaming, enableBody roaming])
  allowed : ∀ past roaming a rest, c = past ++ ⟨.write (enableBody roaming), a⟩ :: rest →
    past.getLast? = some ⟨.restoreAllowed, true⟩
  restored : ∀ roaming, disableBody roaming ∈ c.writes → ⟨.restoreAllowed, false⟩ ∉ c →
    enableBody roaming ∈ c.writes ∨ ∃ v, ⟨.read, some v⟩ ∈ c.later ∧ Differs roaming v

/-- After the disable write and with the restore always allowed, the last read answers without a field, and no read
    has reported a change. -/
def Cut (c : Talk) : Prop := ∃ roaming v, disableBody roaming ∈ c.writes ∧ ⟨.restoreAllowed, false⟩ ∉ c ∧
  c.reads.getLast? = some (some v) ∧ Lacks v ∧ ∀ v', ⟨.read, some v'⟩ ∈ c.later → ¬ Differs roaming v'

/-! ## The shapes -/

def Same (roaming : Int) (v : Json) : Prop :=
  integer (v.get "connect_mode") = some 1 ∧ integer (v.get "roam_enable") = some roaming

/-- How a reconnect ends after the wait. -/
inductive Ends (roaming : Int) : Talk → Prop
  | refused : Ends roaming [⟨.restoreAllowed, false⟩]
  | unread : Ends roaming [⟨.restoreAllowed, true⟩, ⟨.read, none⟩, ⟨.restoreAllowed, false⟩]
  | blind (a : Bool) : Ends roaming
      [⟨.restoreAllowed, true⟩, ⟨.read, none⟩, ⟨.restoreAllowed, true⟩, ⟨.write (enableBody roaming), a⟩]
  | changed (v : Json) : ¬ Same roaming v → Ends roaming [⟨.restoreAllowed, true⟩, ⟨.read, some v⟩]
  | late (v : Json) : Same roaming v → Ends roaming [⟨.restoreAllowed, true⟩, ⟨.read, some v⟩, ⟨.restoreAllowed, false⟩]
  | restored (v : Json) (a : Bool) : Same roaming v → Ends roaming
      [⟨.restoreAllowed, true⟩, ⟨.read, some v⟩, ⟨.restoreAllowed, true⟩, ⟨.write (enableBody roaming), a⟩]

/-- Part of the wait: no write, and the restore is still allowed. -/
def Waits (x : Exchange Ask Ask.Answer) : Prop := written x = none ∧ x ≠ ⟨.restoreAllowed, false⟩

inductive Shape : Talk → Prop
  | still (c : Talk) : c.writes = [] → Shape c
  | went (before : Json) (roaming : Int) (a : Bool) (wait ends : Talk) : roamingOf before = some roaming →
      (∀ x ∈ wait, Waits x) → Ends roaming ends →
      Shape ([⟨.allowed, true⟩, ⟨.read, some before⟩, ⟨.allowed, true⟩, ⟨.write (disableBody roaming), a⟩] ++ wait ++ ends)

/-- The monitor that keeps the whole conversation. -/
abbrev Leads {α : Type} (p : Steps α) (c : Talk) (P : Talk → α → Prop) : Prop :=
  Keeps (fun c x => c ++ [x]) (fun _ _ => True) p c P

theorem leads_await {P : Talk → Bool → Prop} (n : Nat) {c : Talk} (hgo : ∀ wait, (∀ x ∈ wait, Waits x) → P (c ++ wait) true)
    (hstop : ∀ wait, (∀ x ∈ wait, Waits x) → P (c ++ wait ++ [⟨.restoreAllowed, false⟩]) false) : Leads (await n) c P := by
  induction n generalizing c with
  | zero =>
    have := hgo [] nofun
    rw [List.append_nil] at this
    exact this
  | succ n ih =>
    have hallowed : Waits ⟨.restoreAllowed, true⟩ := ⟨rfl, nofun⟩
    refine ⟨trivial, fun restore => ?_⟩
    cases restore with
    | false =>
      have := hstop [] nofun
      rw [List.append_nil] at this
      exact this
    | true =>
      refine ⟨trivial, fun allowed => ?_⟩
      cases allowed with
      | false =>
        have := hgo [⟨.restoreAllowed, true⟩, ⟨.allowed, false⟩]
          (List.forall_mem_cons.mpr ⟨hallowed, List.forall_mem_singleton.mpr ⟨rfl, nofun⟩⟩)
        rw [List.append_cons] at this
        exact this
      | true =>
        refine ⟨trivial, fun v => ?_⟩
        have hthree : ∀ x ∈ ([⟨.restoreAllowed, true⟩, ⟨.allowed, true⟩, ⟨.read, v⟩] : Talk), Waits x :=
          List.forall_mem_cons.mpr ⟨hallowed, List.forall_mem_cons.mpr ⟨⟨rfl, nofun⟩, List.forall_mem_singleton.mpr ⟨rfl, nofun⟩⟩⟩
        change Leads (if Option.any disconnected v = true then pure true else do pause; await n) _ _
        split
        · have := hgo _ hthree
          rw [List.append_cons, List.append_cons] at this
          exact this
        · refine ⟨trivial, fun u => ?_⟩
          have hfour : ∀ wait : Talk, (∀ x ∈ wait, Waits x) →
              ∀ x ∈ [⟨.restoreAllowed, true⟩, ⟨.allowed, true⟩, ⟨.read, v⟩, ⟨.pause, u⟩] ++ wait, Waits x := by
            intro wait hwait x hx
            rcases List.mem_append.mp hx with hx | hx
            · rcases List.mem_append.mp (show x ∈ [_, _, _] ++ [_] from hx) with hx | hx
              · exact hthree x hx
              · rw [List.mem_singleton.mp hx]
                exact ⟨rfl, nofun⟩
            · exact hwait x hx
          refine ih (fun wait hwait => ?_) fun wait hwait => ?_
          · have := hgo _ (hfour wait hwait)
            simpa only [List.append_assoc, List.cons_append, List.nil_append] using this
          · have := hstop _ (hfour wait hwait)
            simpa only [List.append_assoc, List.cons_append, List.nil_append] using this

theorem leads_enable {P : Talk → Recovery → Prop} {c : Talk} {roaming : Int}
    (h : ∀ a r, P (c ++ [⟨.write (enableBody roaming), a⟩]) r) : Leads (enable roaming) c P :=
  ⟨trivial, fun a => h a _⟩

/-- From the disable write to the end: a wait, and one of the ends. -/
theorem leads_restore {c : Talk} {roaming : Int} : Leads (restore roaming) c fun c' _ =>
    ∃ wait ends, c' = c ++ wait ++ ends ∧ (∀ x ∈ wait, Waits x) ∧ Ends roaming ends := by
  refine keeps_bind.mpr (leads_await 5 (fun wait hwait => ?_) fun wait hwait => ⟨wait, _, rfl, hwait, .refused⟩)
  refine ⟨trivial, fun restore => ?_⟩
  cases restore with
  | false => exact ⟨wait, _, rfl, hwait, .refused⟩
  | true =>
    refine ⟨trivial, fun latest => ?_⟩
    cases latest with
    | none =>
      refine ⟨trivial, fun restore => ?_⟩
      cases restore with
      | false => exact ⟨wait, _, by simp, hwait, .unread⟩
      | true => exact leads_enable fun a _ => ⟨wait, _, by simp, hwait, .blind a⟩
    | some latest =>
      change Leads (ite _ (pure Recovery.cancelled) _) _ _
      split
      · rename_i hchanged
        refine ⟨wait, _, by simp, hwait, .changed latest fun hsame => ?_⟩
        rw [hsame.1, hsame.2] at hchanged
        simp at hchanged
      · rename_i hsame
        have hsame : integer (latest.get "connect_mode") = some 1 ∧ integer (latest.get "roam_enable") = some roaming := by
          simpa [not_or] using hsame
        refine ⟨trivial, fun restore => ?_⟩
        cases restore with
        | false => exact ⟨wait, _, by simp, hwait, .late latest hsame⟩
        | true => exact leads_enable fun a _ => ⟨wait, _, by simp, hwait, .restored latest a hsame⟩

theorem leads_reconnect : Leads reconnect [] fun c _ => Shape c := by
  refine ⟨trivial, fun allowed => ?_⟩
  cases allowed with
  | false => exact .still _ rfl
  | true =>
    refine ⟨trivial, fun before => ?_⟩
    cases before with
    | none => exact .still _ rfl
    | some before =>
      simp only [Dialogue.bind]
      cases hroaming : roamingOf before with
      | none => exact .still _ rfl
      | some roaming =>
        refine ⟨trivial, fun allowed => ?_⟩
        cases allowed with
        | false => exact .still _ rfl
        | true =>
          refine ⟨trivial, fun a => ?_⟩
          refine Keeps.mono leads_restore fun c _ => ?_
          rintro ⟨wait, ends, rfl, hwait, hends⟩
          exact .went before roaming a wait ends hroaming hwait hends

/-- Every conversation has one of the shapes. -/
theorem reconnect_shape (env : Talk → (q : Ask) → q.Answer) : Shape (reconnect.play env []).1 := by
  have hshape := leads_reconnect.of_play env (rfl : [].foldl (fun c x => c ++ [x]) [] = ([] : Talk))
  have hfold : ∀ c past : Talk, c.foldl (fun c x => c ++ [x]) past = past ++ c := by
    intro c
    induction c with
    | nil => simp
    | cons x c ih =>
      intro past
      rw [List.foldl_cons, ih]
      simp
  rw [hfold] at hshape
  exact hshape

/-! ## What is owed -/

theorem disable_ne_enable (r r' : Int) : disableBody r ≠ enableBody r' := by
  intro h
  simp [disableBody, enableBody] at h

theorem disableBody_inj {r r' : Int} (h : disableBody r = disableBody r') : r = r' := by
  simpa [disableBody] using h

theorem roamingOf_some {before : Json} {roaming : Int} (h : roamingOf before = some roaming) :
    integer (before.get "roam_enable") = some roaming := by
  unfold roamingOf at h
  split at h
  · cases h
  · exact (Option.filter_eq_some_iff.mp h).1

variable {roaming : Int} {ends wait : Talk}

/-- Only the enable write is left to the end, and a restore was allowed right before it. -/
theorem Ends.guarded (h : Ends roaming ends) {past rest : Talk} {body : Json} {a : Bool}
    (hends : ends = past ++ ⟨.write body, a⟩ :: rest) :
    body = enableBody roaming ∧ past.getLast? = some ⟨.restoreAllowed, true⟩ := by
  cases h with
  | refused =>
    rcases past with _ | ⟨y₁, _ | ⟨y₂, past⟩⟩ <;> simp at hends
  | unread | late =>
    rcases past with _ | ⟨y₁, _ | ⟨y₂, _ | ⟨y₃, past⟩⟩⟩ <;> simp at hends
  | changed =>
    rcases past with _ | ⟨y₁, _ | ⟨y₂, past⟩⟩ <;> simp at hends
  | blind | restored =>
    rcases past with _ | ⟨y₁, _ | ⟨y₂, _ | ⟨y₃, _ | ⟨y₄, past⟩⟩⟩⟩ <;> simp at hends
    obtain ⟨rfl, rfl, rfl, ⟨rfl, -⟩, -⟩ := hends
    exact ⟨rfl, rfl⟩

theorem Same.not_lacks {v : Json} (h : Same roaming v) : ¬ Lacks v := by
  rintro (hnull | hnull)
  · have := h.1
    rw [hnull] at this
    cases this
  · have := h.2
    rw [hnull] at this
    cases this

/-- A read that reports no change and yet is not the same lacks a field. -/
theorem lacks_of {v : Json} (hsame : ¬ Same roaming v) (hdiffers : ¬ Differs roaming v) : Lacks v := by
  unfold Lacks
  by_cases hmode : v.get "connect_mode" = .null
  · exact .inl hmode
  · by_cases hroam : v.get "roam_enable" = .null
    · exact .inr hroam
    · refine absurd ⟨?_, ?_⟩ hsame
      · exact Classical.byContradiction fun h => hdiffers (.inl ⟨hmode, h⟩)
      · exact Classical.byContradiction fun h => hdiffers (.inr ⟨hroam, h⟩)

theorem wait_writes (hwait : ∀ x ∈ wait, Waits x) : wait.writes = [] :=
  List.filterMap_eq_nil_iff.mpr fun x hx => (hwait x hx).1

theorem Ends.writes (h : Ends roaming ends) : ends.writes = [] ∨ ends.writes = [enableBody roaming] := by
  cases h with
  | refused | unread | changed | late => exact .inl rfl
  | blind | restored => exact .inr rfl

section

variable (before : Json) (a : Bool)

/-- A conversation in which data was disabled. -/
abbrev Talk.went (roaming : Int) (wait ends : Talk) : Talk :=
  [⟨.allowed, true⟩, ⟨.read, some before⟩, ⟨.allowed, true⟩, ⟨.write (disableBody roaming), a⟩] ++ wait ++ ends

theorem went_writes (hwait : ∀ x ∈ wait, Waits x) :
    (Talk.went before a roaming wait ends).writes = disableBody roaming :: ends.writes := by
  show disableBody roaming :: List.filterMap written (wait ++ ends) = _
  rw [List.filterMap_append, show List.filterMap written wait = [] from wait_writes hwait]
  rfl

theorem went_reads : (Talk.went before a roaming wait ends).reads = some before :: (wait.reads ++ ends.reads) := by
  show some before :: List.filterMap readIn (wait ++ ends) = _
  rw [List.filterMap_append]
  rfl

variable {before a}

theorem went_refused (hends : ⟨.restoreAllowed, false⟩ ∈ ends) :
    (⟨.restoreAllowed, false⟩ : Exchange Ask Ask.Answer) ∈ Talk.went before a roaming wait ends :=
  List.mem_append_right _ hends

/-- The writes of such a conversation are as they should be. -/
theorem went_guarded (hwait : ∀ x ∈ wait, Waits x) (hends : Ends roaming ends) {past rest : Talk} {r : Int} {b : Bool}
    (h : Talk.went before a roaming wait ends = past ++ ⟨.write (enableBody r), b⟩ :: rest) :
    past.getLast? = some ⟨.restoreAllowed, true⟩ := by
  rcases List.append_eq_append_iff.mp h with ⟨front, rfl, hsplit⟩ | ⟨front, hfront, hsplit⟩
  · rw [List.getLast?_append, (hends.guarded hsplit).2]
    rfl
  · cases front with
    | nil =>
      have hfirst := hends.guarded (show ends = [] ++ _ :: rest from hsplit.symm)
      cases hfirst.2
    | cons x front =>
      -- an enable write before the end
      obtain rfl := (List.cons.inj hsplit).1
      have hmem : (⟨.write (enableBody r), b⟩ : Exchange Ask Ask.Answer) ∈
          [⟨.allowed, true⟩, ⟨.read, some before⟩, ⟨.allowed, true⟩, ⟨.write (disableBody roaming), a⟩] ++ wait := by
        rw [hfront]
        exact List.mem_append_right _ List.mem_cons_self
      rcases List.mem_append.mp hmem with hmem | hmem
      · simp [Ne.symm (disable_ne_enable roaming r)] at hmem
      · cases (hwait _ hmem).1

theorem went_owed (hroaming : roamingOf before = some roaming) (hwait : ∀ x ∈ wait, Waits x) (hends : Ends roaming ends) :
    Owed (Talk.went before a roaming wait ends) ↔ ¬ Cut (Talk.went before a roaming wait ends) := by
  have hwrites : (Talk.went before a roaming wait ends).writes = _ := went_writes before a hwait
  have hreads : (Talk.went before a roaming wait ends).reads = _ := went_reads before a
  have howed : (∀ r, disableBody r ∈ (Talk.went before a roaming wait ends).writes →
      ⟨.restoreAllowed, false⟩ ∉ Talk.went before a roaming wait ends →
        enableBody r ∈ (Talk.went before a roaming wait ends).writes ∨
          ∃ v, ⟨.read, some v⟩ ∈ (Talk.went before a roaming wait ends).later ∧ Differs r v) →
      Owed (Talk.went before a roaming wait ends) := by
    refine fun hrestored => ⟨.inr ⟨before, roaming, by rw [hreads]; rfl, roamingOf_some hroaming, ?_⟩, ?_, hrestored⟩
    · rw [hwrites]
      rcases hends.writes with hends | hends
      · exact .inl (by rw [hends])
      · exact .inr (by rw [hends])
    · exact fun past r b rest h => went_guarded hwait hends h
  have hroam : ∀ r, disableBody r ∈ (Talk.went before a roaming wait ends).writes → r = roaming := by
    intro r hr
    rw [hwrites] at hr
    rcases List.mem_cons.mp hr with hr | hr
    · exact disableBody_inj hr
    · rcases hends.writes with hends | hends
      · rw [hends] at hr
        cases hr
      · rw [hends] at hr
        exact absurd (List.mem_singleton.mp hr) (disable_ne_enable r roaming)
  have hlast : ∀ v, ends.reads.getLast? = some v → (Talk.went before a roaming wait ends).reads.getLast? = some v := by
    intro v hv
    rw [hreads, ← List.cons_append, List.getLast?_append, hv]
    rfl
  cases hends with
  | refused | unread | late =>
    refine iff_of_true (howed fun r _ hallowed => absurd (went_refused (by simp)) hallowed) ?_
    rintro ⟨r, v, -, hallowed, -⟩
    exact hallowed (went_refused (by simp))
  | blind b =>
    refine iff_of_true (howed fun r hr _ => .inl ?_) ?_
    · rw [hroam r hr, hwrites]
      exact List.mem_cons_of_mem _ List.mem_cons_self
    · rintro ⟨r, v, -, -, hv, -⟩
      cases (hlast none rfl).symm.trans hv
  | restored v b hsame =>
    refine iff_of_true (howed fun r hr _ => .inl ?_) ?_
    · rw [hroam r hr, hwrites]
      exact List.mem_cons_of_mem _ List.mem_cons_self
    · rintro ⟨r, v', -, -, hv, hlacks, -⟩
      obtain rfl : v = v' := Option.some.inj (Option.some.inj ((hlast (some v) rfl).symm.trans hv))
      exact hsame.not_lacks hlacks
  | changed v hsame =>
    constructor
    · rintro h ⟨r, v', hr, hallowed, -, -, hno⟩
      obtain rfl := hroam r hr
      rcases h.restored r hr hallowed with henabled | ⟨v', hread, hdiffers⟩
      · rw [hwrites] at henabled
        exact disable_ne_enable r r (List.mem_singleton.mp henabled).symm
      · exact hno v' hread hdiffers
    · refine fun hcut => howed fun r hr hallowed => ?_
      obtain rfl := hroam r hr
      by_cases hdiffers : ∃ v', ⟨.read, some v'⟩ ∈ (Talk.went before a r wait [⟨.restoreAllowed, true⟩, ⟨.read, some v⟩]).later ∧
          Differs r v'
      · exact .inr hdiffers
      · -- the last read reports nothing, and data stays off
        have hno : ∀ v', ⟨.read, some v'⟩ ∈ (Talk.went before a r wait [⟨.restoreAllowed, true⟩, ⟨.read, some v⟩]).later →
            ¬ Differs r v' := fun v' hread hd => hdiffers ⟨v', hread, hd⟩
        have hread : (⟨.read, some v⟩ : Exchange Ask Ask.Answer) ∈ wait ++ [⟨.restoreAllowed, true⟩, ⟨.read, some v⟩] :=
          List.mem_append_right _ (by simp)
        exact (hcut ⟨r, v, hr, hallowed, hlast (some v) rfl, lacks_of hsame (hno v hread), hno⟩).elim

theorem owed_iff {c : Talk} (h : Shape c) : Owed c ↔ ¬ Cut c := by
  cases h with
  | still _ hnone =>
    have hmem : ∀ body, body ∉ c.writes := by
      intro body
      rw [hnone]
      exact List.not_mem_nil
    refine iff_of_true ⟨.inl hnone, fun past r b rest hc => ?_, fun r hr => absurd hr (hmem _)⟩ fun ⟨r, _, hr, _⟩ => hmem _ hr
    refine absurd ?_ (hmem (enableBody r))
    unfold Talk.writes
    rw [hc, List.filterMap_append]
    exact List.mem_append_right _ List.mem_cons_self
  | went before roaming a wait ends hroaming hwait hends => exact went_owed hroaming hwait hends

end

/-- Over a whole verification: one reconnect at most, and data is ready after the stable time, all of it healthy. -/
structure Bounded (recoveryEnabled : Bool) (policy : Policy) (passes : List Pass) : Prop where
  recoveries : (Checking.after recoveryEnabled policy passes).recoveries ≤ 1
  stable : ∀ past p rest, passes = past ++ p :: rest →
    (Checking.after recoveryEnabled policy past).decides recoveryEnabled policy p = some .ready →
      ∃ before first stretch, past = before ++ first :: stretch ∧ first.now + stable ≤ p.now ∧
        ∀ q ∈ first :: stretch ++ [p], q.Healthy recoveryEnabled

/-- Data is left as the user wants it unless the last read answers without a field and is taken for a change. -/
theorem reconnect_iff (env : Talk → (q : Ask) → q.Answer) (recoveryEnabled : Bool) (policy : Policy) (passes : List Pass) :
    Owed (reconnect.play env []).1 ∧ Bounded recoveryEnabled policy passes ↔ ¬ Cut (reconnect.play env []).1 := by
  have hbounded : Bounded recoveryEnabled policy passes :=
    ⟨Checking.recoveries_le passes, fun past p _ _ h => Checking.ready_after past p h⟩
  rw [and_iff_left hbounded]
  exact owed_iff (reconnect_shape env)

/-- Connected and not roaming at first; then the modem reports the disconnect and no more. -/
def terse (past : Talk) : (q : Ask) → q.Answer
  | .read => if past.length = 1 then some (.obj [("enable", .int 1), ("connect_mode", .int 1), ("roam_enable", .int 0)])
    else some (.obj [("connect_status", .str "disconnected")])
  | .pause => ()
  | .takeCard | .takeCommands | .current | .allowed | .restoreAllowed | .write _ => true

theorem stays_off : ¬ Owed (reconnect.play terse []).1 := by
  have hplay : (reconnect.play terse []).1 = [⟨.allowed, true⟩,
      ⟨.read, some (.obj [("enable", .int 1), ("connect_mode", .int 1), ("roam_enable", .int 0)])⟩, ⟨.allowed, true⟩,
      ⟨.write (disableBody 0), true⟩, ⟨.restoreAllowed, true⟩, ⟨.allowed, true⟩,
      ⟨.read, some (.obj [("connect_status", .str "disconnected")])⟩, ⟨.restoreAllowed, true⟩,
      ⟨.read, some (.obj [("connect_status", .str "disconnected")])⟩] := by
    rfl
  intro h
  rw [hplay] at h
  rcases h.restored 0 (.head _) (by simp) with henabled | ⟨v, hread, hdiffers⟩
  · exact disable_ne_enable 0 0 (List.mem_singleton.mp henabled).symm
  · have hv : v = .obj [("connect_status", .str "disconnected")] := by simpa [Talk.later, written] using hread
    rw [hv] at hdiffers
    rcases hdiffers with ⟨hmode, -⟩ | ⟨hroam, -⟩
    · exact hmode rfl
    · exact hroam rfl

end OpenU60.Esim.Network
