/-
  OpenU60.DnsControl.Rollback — what a request for other DNS settings leaves behind.

  The lock keeps two requests' scripts apart, but each has read the encrypted configuration
  before it takes it, and installs what it has read. A rollback switches the configuration on
  or off by the proxy it found, and stops at its first failure wherever the proxy is then.

  - `requests_serve`: where no request takes the lock with another's changes unread, a
    rollback found the configuration on exactly if the proxy ran, and no step of a rollback
    fails with the proxy stopped and the forwarding loaded, every request is served or rolled back as a whole
    and the requests leave what they leave one after the other.
  - `update_lost_and_rollback_differs`: a run of each kind that goes wrong.
-/

import OpenU60.DnsControl.Transaction
import OpenU60.Lib.Machine
import OpenU60.Lib.Script

namespace OpenU60.DnsControl

open OpenU60.Lib.Machine OpenU60.Lib.Script

/-! ## The scripts -/

/-- The forwarding file is there, and loaded, exactly when the proxy runs. -/
structure Dns.Steady (s : Dns) : Prop where
  forwarding : s.forwarding = s.running
  pointed : s.pointed = s.running

/-- dnsmasq forwards to a running proxy if at all. -/
def Dns.Answering (s : Dns) : Prop := s.pointed = true → s.running = true

/-- The settings in force. -/
structure Dns.Same (before s : Dns) : Prop where
  router : s.router = before.router
  config : s.config = before.config
  running : s.running = before.running
  forwarding : s.forwarding = before.forwarding

/-- All is as the candidate wants it, from what was there before. -/
structure Demanded (c : Candidate) (before s : Dns) : Prop where
  router : s.router = routerFor c
  config : s.config = { (if c.mode.encrypted then c.encrypted else before.config) with enabled := c.mode.encrypted }
  saved : s.saved = s.config
  running : s.running = c.mode.encrypted
  forwarding : s.forwarding = c.mode.encrypted
  pointed : s.pointed = c.mode.encrypted

/-- What a rollback that gets to its end leaves. -/
structure Restored (before s : Dns) : Prop where
  router : s.router = before.router
  config : s.config = { before.config with enabled := before.running }
  saved : s.saved = s.config
  running : s.running = before.running
  forwarding : s.forwarding = before.running
  pointed : s.pointed = before.running

theorem Restored.same {before s : Dns} (h : Restored before s) (hsteady : before.Steady)
    (henabled : before.config.enabled = before.running) : before.Same s := by
  refine ⟨h.router, ?_, h.running, h.forwarding.trans hsteady.forwarding.symm⟩
  rw [h.config, ← henabled]

/-- A failing statement leaves the proxy and dnsmasq as they are. -/
theorem Stmt.exec_failed {t : Stmt} {s : Dns} {x : Outcome} (h : (t.exec s x).2 = false) :
    (t.exec s x).1.running = s.running ∧ (t.exec s x).1.pointed = s.pointed := by
  cases t with
  | stop => cases h
  | setConfig next enabled => cases h
  | setRouterDns r => simp only [exec]; split <;> exact ⟨rfl, rfl⟩
  | save => simp only [exec]; split <;> exact ⟨rfl, rfl⟩
  | dotClient => simp only [exec]; split <;> exact ⟨rfl, rfl⟩
  | verify encrypted => exact ⟨rfl, rfl⟩
  | removeForwarding => simp only [exec]; split <;> exact ⟨rfl, rfl⟩
  | writeForwarding => simp only [exec]; split <;> exact ⟨rfl, rfl⟩
  | start =>
    simp only [exec] at h ⊢
    split
    · exact ⟨rfl, rfl⟩
    · rename_i hr
      rw [if_neg hr] at h
      exact ⟨h.trans (Bool.eq_false_iff.mpr hr).symm, rfl⟩
  | restartDnsmasq =>
    have hx : x.ok = false := h
    simp [exec, hx]

/-- What a statement that succeeds leaves. -/
def Stmt.effect (s : Dns) : Stmt → Dns
  | .setRouterDns r => { s with router := r }
  | .stop => { s with running := false }
  | .setConfig next enabled => { s with config := { next.getD s.config with enabled := enabled } }
  | .dotClient => { s with dotClient := true }
  | .start => { s with running := true }
  | .save => { s with saved := s.config }
  | .writeForwarding => { s with forwarding := true }
  | .removeForwarding => { s with forwarding := false }
  | .restartDnsmasq => { s with pointed := s.forwarding }
  | .verify _ => s

theorem Stmt.exec_ok (t : Stmt) (s : Dns) (x : Outcome) (h : (t.exec s x).2 = true) : (t.exec s x).1 = Stmt.effect s t := by
  cases t with
  | stop => rfl
  | setConfig next enabled => rfl
  | verify encrypted => rfl
  | dotClient =>
    simp only [exec, effect] at h ⊢
    by_cases hd : s.dotClient = true
    · rw [if_pos hd, ← hd]
    · rw [if_neg hd] at h ⊢
      rw [show x.ok = true from h]
  | start =>
    simp only [exec, effect] at h ⊢
    by_cases hr : s.running = true
    · rw [if_pos hr] at h
      cases h
    · rw [if_neg hr] at h ⊢
      rw [show x.ok = true from h]
  | writeForwarding =>
    simp only [exec, effect] at h ⊢
    by_cases hf : s.forwarding = true
    · rw [if_pos hf, ← hf]
    · rw [if_neg hf] at h ⊢
      rw [show x.ok = true from h]
  | _ =>
    have hx : x.ok = true := h
    simp [exec, effect, hx]

theorem apply_wp (c : Candidate) (before : Dns) {s : Dns} (hs : s.config = before.config) :
    Wp Stmt.exec (applyCandidate c) (Demanded c before) s := by
  refine wp_of_effect Stmt.exec_ok ?_
  unfold applyCandidate
  cases hm : c.mode.encrypted with
  | true => exact ⟨rfl, by rw [hm]; rfl, rfl, hm.symm, hm.symm, hm.symm⟩
  | false => exact ⟨rfl, by rw [hm, ← hs]; rfl, rfl, hm.symm, hm.symm, hm.symm⟩

theorem restore_wp (before s : Dns) : Wp Stmt.exec (restore (snapshot before)) (Restored before) s := by
  refine wp_of_effect Stmt.exec_ok ?_
  have hsnap : (snapshot before).proxyRunning = before.running := rfl
  unfold restore
  cases hr : before.running with
  | true => rw [hsnap, hr]; exact ⟨rfl, by rw [hr]; rfl, rfl, hr.symm, hr.symm, hr.symm⟩
  | false => rw [hsnap, hr]; exact ⟨rfl, by rw [hr]; rfl, rfl, hr.symm, hr.symm, hr.symm⟩

/-! ## A request -/

/-- What is still to be done leads where it should. -/
def Control.Leads (c : Candidate) (s : Dns) : Control → Prop
  | .snapshotting => s.Answering
  | .applying before todo => Wp Stmt.exec todo (Demanded c before) s
  | .restoring before todo => Wp Stmt.exec todo (Restored before) s
  | .answered _ => s.Answering

/-- No step of a rollback fails with the proxy stopped and the forwarding loaded. -/
def Control.Sound (s : Dns) (x : Outcome) : Control → Prop
  | .restoring _ (t :: _) => (t.exec s x).2 = false → s.pointed = true → s.running = true
  | _ => True

theorem Control.Leads.step {c : Candidate} {s : Dns} {k : Control} (h : k.Leads c s) {x : Outcome} (hx : k.Sound s x) :
    (Control.step c (s, k) x).2.Leads c (Control.step c (s, k) x).1 := by
  cases k with
  | answered a => exact h
  | snapshotting =>
    simp only [Control.step]
    by_cases hok : x.ok = true
    · rw [if_pos hok]
      exact apply_wp c s rfl
    · rw [if_neg hok]
      exact h
  | applying before todo =>
    cases todo with
    | nil =>
      have hd : Demanded c before s := h
      intro hp
      show s.running = true
      rw [hd.running, ← hd.pointed]
      exact hp
    | cons t todo =>
      simp only [Control.step]
      by_cases hok : (t.exec s x).2 = true
      · rw [if_pos hok]
        exact Wp.head h hok
      · rw [if_neg hok]
        exact restore_wp before _
  | restoring before todo =>
    cases todo with
    | nil =>
      have hr : Restored before s := h
      intro hp
      show s.running = true
      rw [hr.running, ← hr.pointed]
      exact hp
    | cons t todo =>
      simp only [Control.step]
      by_cases hok : (t.exec s x).2 = true
      · rw [if_pos hok]
        exact Wp.head h hok
      · rw [if_neg hok]
        have hno : (t.exec s x).2 = false := Bool.eq_false_iff.mpr hok
        obtain ⟨hrun, hpoint⟩ := Stmt.exec_failed hno
        intro hp
        rw [hrun]
        rw [hpoint] at hp
        exact hx hno hp

theorem Control.step_congr {c c' : Candidate} (h : applyCandidate c = applyCandidate c') (p : Dns × Control) (x : Outcome) :
    Control.step c p x = Control.step c' p x := by
  obtain ⟨s, k⟩ := p
  cases k with
  | snapshotting => simp only [Control.step, h]
  | applying before todo => cases todo <;> rfl
  | restoring before todo => cases todo <;> rfl
  | answered a => rfl

/-- A candidate asks for the same whatever configuration it was made from, if that is not
    part of what it installs. -/
theorem apply_congr {r : Checked} {config config' : DohConfig}
    (h : r.mode.encrypted = true → (r.candidate config).encrypted = (r.candidate config').encrypted) :
    applyCandidate (r.candidate config) = applyCandidate (r.candidate config') := by
  have hmode : ∀ config, (r.candidate config).mode = r.mode := fun _ => rfl
  have hrouter : routerFor (r.candidate config) = routerFor (r.candidate config') := rfl
  unfold applyCandidate
  rw [hrouter, hmode, hmode]
  cases hm : r.mode.encrypted with
  | true => rw [h hm]
  | false => rfl

/-! ## Requests at the same time -/

def Phase.holds : Phase → Bool
  | .holding _ _ => true
  | _ => false

namespace World

/-- The requests that have been served, one after the other. -/
def inTurn (s : Dns) (served : List (Checked × List Outcome)) : Dns :=
  served.foldl (fun s r => (serve r.1 s r.2).1) s

/-- A request that takes the lock would read the configuration as it has read it, in what it
    installs of it; a rollback that gets to its end found the configuration on exactly if the
    proxy ran; and none fails with the proxy stopped and the forwarding loaded. -/
def OrderlyAt (w : World) (x : Outcome) : Phase → Prop
  | .waiting r c => w.transaction = none → r.mode.encrypted = true → c.encrypted = (r.candidate w.dns.config).encrypted
  | .holding _ (.restoring before []) => before.config.enabled = before.running
  | .holding _ (.restoring _ (t :: _)) => (t.exec w.dns x).2 = false → w.dns.pointed = true → w.dns.running = true
  | _ => True

instance (w : World) (x : Outcome) : ∀ p, Decidable (w.OrderlyAt x p)
  | .waiting _ _ => inferInstanceAs (Decidable (_ → _ → _))
  | .holding _ (.restoring _ []) => inferInstanceAs (Decidable (_ = _))
  | .holding _ (.restoring _ (_ :: _)) => inferInstanceAs (Decidable (_ → _ → _))
  | .holding _ .snapshotting | .holding _ (.applying _ _) | .holding _ (.answered _) => .isTrue trivial
  | .idle | .reading _ | .testing _ _ | .done _ => .isTrue trivial

def Orderly (w : World) : Event → Prop
  | .run i x => w.OrderlyAt x (w.requests i)
  | .apply _ _ _ => True

instance (w : World) : ∀ e, Decidable (w.Orderly e)
  | .run i x => inferInstanceAs (Decidable (w.OrderlyAt x (w.requests i)))
  | .apply _ _ _ => .isTrue trivial

/-- A request that has held the lock is answered success with all as it demands, or, if
    every step of the rollback has succeeded and only then, a rollback with all as it was. -/
def Proper (checks : Checks) (w : World) (e : Event) : Prop :=
  ∀ i x c k a, e = .run i x → w.requests i = .holding c k → (w.step checks e).requests i = .done a →
    (a = .applied → ∃ before, k = .applying before [] ∧ Demanded c before (w.step checks e).dns) ∧
      (a.reportsRollback = some true ↔ ∃ before, k = .restoring before []) ∧
      ∀ before, k = .restoring before [] → before.Steady → before.Same (w.step checks e).dns

structure Inv (start : Dns) (w : World) : Prop where
  owns : ∀ i c k, w.requests i = .holding c k → w.transaction = some i
  open' : ∀ i c a, w.requests i ≠ .holding c (.answered a)
  leads : ∀ i c k, w.requests i = .holding c k → k.Leads c w.dns
  served : ∀ i c k, w.requests i = .holding c k → ∃ earlier r xs, w.served = earlier ++ [(r, xs)] ∧
    (w.dns, k) = serve r (inTurn start earlier) xs ∧
    applyCandidate c = applyCandidate (r.candidate (inTurn start earlier).config)
  candidates : ∀ i r c, w.requests i = .waiting r c ∨ w.requests i = .testing r c → ∃ config, c = r.candidate config
  free : w.transaction = none → w.dns.Answering ∧ w.dns = inTurn start w.served

theorem moved_self (w : World) (i : Nat) (p : Phase) : (w.moved i p).requests i = p := by simp [moved]

theorem moved_other (w : World) {i j : Nat} (p : Phase) (h : j ≠ i) : (w.moved i p).requests j = w.requests j := by
  simp [moved, h]

theorem noted_served {w : World} {earlier : List (Checked × List Outcome)} {r : Checked} {xs : List Outcome}
    (h : w.served = earlier ++ [(r, xs)]) (x : Outcome) : (w.noted x).served = earlier ++ [(r, xs ++ [x])] := by
  simp [noted, h]

theorem inTurn_snoc (s : Dns) (earlier : List (Checked × List Outcome)) (r : Checked) (xs : List Outcome) :
    inTurn s (earlier ++ [(r, xs)]) = (serve r (inTurn s earlier) xs).1 := by
  unfold inTurn
  rw [List.foldl_append]
  rfl

theorem serve_snoc (r : Checked) (s : Dns) (xs : List Outcome) (x : Outcome) :
    serve r s (xs ++ [x]) = Control.step (r.candidate s.config) (serve r s xs) x := by
  unfold serve
  rw [List.foldl_append]
  rfl

variable {start : Dns} {w : World} {i : Nat}

theorem holding_of_moved {p : Phase} (hp : p.holds = false) {j : Nat} {c : Candidate} {k : Control}
    (hj : (w.moved i p).requests j = .holding c k) : j ≠ i ∧ w.requests j = .holding c k := by
  by_cases hji : j = i
  · subst hji
    rw [moved_self] at hj
    rw [hj] at hp
    cases hp
  · rw [moved_other _ _ hji] at hj
    exact ⟨hji, hj⟩

/-- Where no other request holds the lock. -/
theorem holding_of_moved_alone {c c' : Candidate} {k k' : Control} (h : ∀ j, j ≠ i → ∀ c k, w.requests j ≠ .holding c k) {j : Nat}
    (hj : (w.moved i (.holding c k)).requests j = .holding c' k') : j = i ∧ c' = c ∧ k' = k := by
  by_cases hji : j = i
  · subst hji
    rw [moved_self] at hj
    cases hj
    exact ⟨rfl, rfl, rfl⟩
  · rw [moved_other _ _ hji] at hj
    exact absurd hj (h j hji c' k')

theorem Inv.candidates_moved (h : Inv start w) {p : Phase}
    (hmade : ∀ r c, p = .waiting r c ∨ p = .testing r c → ∃ config, c = r.candidate config) (j : Nat) (r : Checked) (c : Candidate)
    (hj : (w.moved i p).requests j = .waiting r c ∨ (w.moved i p).requests j = .testing r c) : ∃ config, c = r.candidate config := by
  by_cases hji : j = i
  · subst hji
    rw [moved_self] at hj
    exact hmade r c hj
  · rw [moved_other _ _ hji] at hj
    exact h.candidates j r c hj

/-- A step of a request before it has the lock, or after. -/
theorem Inv.outside (h : Inv start w) {p : Phase} (hnew : p.holds = false)
    (hmade : ∀ r c, p = .waiting r c ∨ p = .testing r c → ∃ config, c = r.candidate config) : Inv start (w.moved i p) where
  owns j c k hj := h.owns j c k (holding_of_moved hnew hj).2
  open' j c a hj := h.open' j c a (holding_of_moved hnew hj).2
  leads j c k hj := h.leads j c k (holding_of_moved hnew hj).2
  served j c k hj := h.served j c k (holding_of_moved hnew hj).2
  candidates := h.candidates_moved hmade
  free := h.free

theorem Inv.takes (h : Inv start w) {r : Checked} {c : Candidate} (hw : w.requests i = .waiting r c)
    (hfree : w.transaction = none)
    (hfresh : r.mode.encrypted = true → c.encrypted = (r.candidate w.dns.config).encrypted) :
    Inv start { w.moved i (.holding c .snapshotting) with transaction := some i, served := w.served ++ [(r, [])] } := by
  obtain ⟨hans, hdns⟩ := h.free hfree
  obtain ⟨config, rfl⟩ := h.candidates i r c (.inl hw)
  have hnone : ∀ j c k, w.requests j ≠ .holding c k := by
    intro j c k hj
    have := h.owns j c k hj
    rw [hfree] at this
    cases this
  have hback : ∀ {j c' k}, (w.moved i (.holding (r.candidate config) .snapshotting)).requests j = .holding c' k →
      j = i ∧ c' = r.candidate config ∧ k = .snapshotting := holding_of_moved_alone fun j _ => hnone j
  refine ⟨fun j c' k hj => (hback hj).1 ▸ rfl, fun j c' a hj => (by cases (hback hj).2.2), fun j c' k hj => ?_, fun j c' k hj => ?_,
    h.candidates_moved fun r' c' h => (by rcases h with h | h <;> cases h), nofun⟩
  · obtain ⟨-, -, rfl⟩ := hback hj
    exact hans
  · obtain ⟨-, rfl, rfl⟩ := hback hj
    refine ⟨w.served, r, [], rfl, ?_, ?_⟩
    · show (w.dns, _) = _
      rw [← hdns]
      rfl
    · rw [← hdns]
      exact apply_congr hfresh

/-- The lock's holder is the only one. -/
theorem Inv.alone (h : Inv start w) {c : Candidate} {k : Control} (hk : w.requests i = .holding c k) {j : Nat} (hj : j ≠ i)
    (c' : Candidate) (k' : Control) : w.requests j ≠ .holding c' k' := by
  intro hj'
  have hi := h.owns i c k hk
  rw [h.owns j c' k' hj'] at hi
  exact hj (Option.some.inj hi)

theorem Inv.holds (h : Inv start w) {c : Candidate} {k : Control} (hk : w.requests i = .holding c k) {x : Outcome}
    (hsound : k.Sound w.dns x) : Inv start (w.run i x) := by
  obtain ⟨earlier, r, xs, hserved, hserve, hsame⟩ := h.served i c k hk
  have hleads := (h.leads i c k hk).step hsound
  have hserve' : Control.step c (w.dns, k) x = serve r (inTurn start earlier) (xs ++ [x]) := by
    rw [serve_snoc, ← hserve]
    exact Control.step_congr hsame _ _
  have hnoted := noted_served hserved x
  unfold World.run
  rw [hk]
  simp only
  generalize hp : Control.step c (w.dns, k) x = p at hleads hserve'
  obtain ⟨s, k'⟩ := p
  have hanswered : ∀ a, k' = .answered a →
      Inv start { (w.noted x).moved i (.done a) with dns := s, transaction := none } := by
    rintro a rfl
    have hnone : ∀ j c k, (w.moved i (.done a)).requests j ≠ .holding c k := by
      intro j c' k' hj
      obtain ⟨hji, hj⟩ := holding_of_moved rfl hj
      exact h.alone hk hji c' k' hj
    refine ⟨fun j c k hj => absurd hj (hnone j c k), fun j c a hj => hnone j c _ hj, fun j c k hj => absurd hj (hnone j c k),
      fun j c k hj => absurd hj (hnone j c k), h.candidates_moved fun r c h => (by rcases h with h | h <;> cases h), fun _ => ⟨hleads, ?_⟩⟩
    show s = inTurn start (w.noted x).served
    rw [hnoted, inTurn_snoc, ← hserve']
  have hgoing : (∀ a, k' ≠ .answered a) → Inv start { (w.noted x).moved i (.holding c k') with dns := s } := by
    intro hopen
    have hback : ∀ {j c' k''}, (w.moved i (.holding c k')).requests j = .holding c' k'' → j = i ∧ c' = c ∧ k'' = k' :=
      holding_of_moved_alone fun j hji => h.alone hk hji
    refine ⟨fun j c' k'' hj => ?_, fun j c' a hj => ?_, fun j c' k'' hj => ?_, fun j c' k'' hj => ?_,
      h.candidates_moved fun r c h => (by rcases h with h | h <;> cases h), fun hnone => ?_⟩
    · obtain ⟨rfl, -, -⟩ := hback hj
      exact h.owns _ c k hk
    · obtain ⟨-, -, hk'⟩ := hback hj
      exact hopen a hk'.symm
    · obtain ⟨-, rfl, rfl⟩ := hback hj
      exact hleads
    · obtain ⟨-, rfl, rfl⟩ := hback hj
      exact ⟨earlier, r, xs ++ [x], hnoted, hserve', hsame⟩
    · have := h.owns i c k hk
      rw [show w.transaction = none from hnone] at this
      cases this
  cases k' with
  | answered a => exact hanswered a rfl
  | _ => exact hgoing nofun

theorem Inv.init (hs : start.Steady) : Inv start { dns := start } := by
  have hidle : ∀ {i : Nat} {p : Phase}, ({ dns := start } : World).requests i = p → p = .idle := fun h => h.symm
  refine ⟨fun i c k h => ?_, fun i c a h => ?_, fun i c k h => ?_, fun i c k h => ?_, fun i r c h => ?_, fun _ => ⟨fun hp => ?_, rfl⟩⟩
  · cases hidle h
  · cases hidle h
  · cases hidle h
  · cases hidle h
  · rcases h with h | h <;> cases hidle h
  · exact hs.pointed ▸ hp

theorem Inv.step (h : Inv start w) {checks : Checks} {e : Event} (he : w.Orderly e) : Inv start (w.step checks e) := by
  cases e with
  | apply i lan r =>
    cases hidle : w.requests i with
    | idle =>
      cases hc : checkRequest checks lan r with
      | ok r =>
        simp only [World.step, hidle, hc]
        exact h.outside rfl (by rintro r c (h | h) <;> cases h)
      | error e =>
        simp only [World.step, hidle, hc]
        exact h.outside rfl (by rintro r c (h | h) <;> cases h)
    | _ =>
      simp only [World.step, hidle]
      exact h
  | run i x =>
    show Inv start (w.run i x)
    cases hp : w.requests i with
    | idle => simp only [World.run, hp]; exact h
    | done a => simp only [World.run, hp]; exact h
    | reading r =>
      simp only [World.run, hp]
      refine h.outside rfl ?_
      rintro r' c (hc | hc) <;> cases hc
      exact ⟨_, rfl⟩
    | testing r c =>
      obtain ⟨config, rfl⟩ := h.candidates i r c (.inr hp)
      simp only [World.run, hp]
      split
      · refine h.outside rfl ?_
        rintro r' c (hc | hc) <;> cases hc
        exact ⟨_, rfl⟩
      · exact h.outside rfl (by rintro r c (h | h) <;> cases h)
    | waiting r c =>
      simp only [World.Orderly, World.OrderlyAt, hp] at he
      simp only [World.run, hp]
      split
      · exact h
      · rename_i hfree
        exact h.takes hp hfree (he hfree)
    | holding c k =>
      refine h.holds hp ?_
      simp only [World.Orderly, hp] at he
      cases k with
      | restoring before todo =>
        cases todo with
        | nil => trivial
        | cons t todo => exact he
      | _ => trivial

theorem not_restored {c : Candidate} {k : Control} {a : Answer} {s : Dns} (ha : a ≠ .applied) (hr : a ≠ .rolledBack)
    (hk : ∀ before, k ≠ .restoring before []) :
    (a = .applied → ∃ before, k = .applying before [] ∧ Demanded c before s) ∧
      (a.reportsRollback = some true ↔ ∃ before, k = .restoring before []) ∧
      ∀ before, k = .restoring before [] → before.Steady → before.Same s := by
  refine ⟨fun h => absurd h ha, ⟨fun h => ?_, fun ⟨b, hb⟩ => absurd hb (hk b)⟩, fun b hb => absurd hb (hk b)⟩
  cases a with
  | rolledBack => exact absurd rfl hr
  | _ => cases h

/-- How a request comes to hold no lock any more. -/
theorem Inv.proper (h : Inv start w) {checks : Checks} {e : Event} (he : w.Orderly e) : w.Proper checks e := by
  rintro i x c k a rfl hk hdone
  simp only [World.Orderly, hk] at he
  have hleads := h.leads i c k hk
  have hdone' : (w.run i x).requests i = .done a := hdone
  show (_ → ∃ before, _ ∧ Demanded c before (w.run i x).dns) ∧ _ ∧ ∀ before : Dns, _ → _ → before.Same (w.run i x).dns
  unfold World.run at hdone' ⊢
  rw [hk] at hdone' ⊢
  cases k with
  | answered b => exact absurd hk (h.open' i c b)
  | snapshotting =>
    simp only [Control.step] at hdone' ⊢
    by_cases hok : x.ok = true
    · simp only [if_pos hok, moved_self] at hdone'
      cases hdone'
    · simp only [if_neg hok, moved_self] at hdone'
      cases hdone'
      exact not_restored (fun h => by cases h) (fun h => by cases h) fun b h => by cases h
  | applying before todo =>
    cases todo with
    | nil =>
      simp only [Control.step, moved_self] at hdone' ⊢
      cases hdone'
      refine ⟨fun _ => ⟨before, rfl, hleads⟩, ⟨fun h => ?_, fun ⟨b, hb⟩ => ?_⟩, fun b hb => ?_⟩
      · cases h
      · cases hb
      · cases hb
    | cons t todo =>
      simp only [Control.step] at hdone'
      by_cases hok : (t.exec w.dns x).2 = true
      · simp only [if_pos hok, moved_self] at hdone'
        cases hdone'
      · simp only [if_neg hok, moved_self] at hdone'
        cases hdone'
  | restoring before todo =>
    cases todo with
    | nil =>
      simp only [Control.step, moved_self] at hdone' ⊢
      cases hdone'
      refine ⟨fun h => (by cases h), ⟨fun _ => ⟨before, rfl⟩, fun _ => rfl⟩, fun b hb hsteady => ?_⟩
      cases hb
      have hr : Restored before w.dns := hleads
      exact hr.same hsteady he
    | cons t todo =>
      simp only [Control.step] at hdone'
      by_cases hok : (t.exec w.dns x).2 = true
      · simp only [if_pos hok, moved_self] at hdone'
        cases hdone'
      · simp only [if_neg hok, moved_self] at hdone'
        cases hdone'
        exact not_restored (fun h => by cases h) (fun h => by cases h) fun b h => by cases h

end World

open World

/-- From a state in which the forwarding file is there and loaded exactly when the proxy runs,
    requests that are made in order are each served or rolled back as a whole, and leave
    together what they leave in turn, with dnsmasq forwarding to a running proxy if at all. -/
theorem requests_serve (checks : Checks) (start : Dns) (hs : start.Steady) (es : List Event)
    (h : Along (World.step checks) Orderly { dns := start } es) :
    Along (World.step checks) (Proper checks) { dns := start } es ∧
      let w := exec (World.step checks) { dns := start } es
      w.transaction = none → w.dns.Answering ∧ w.dns = inTurn start w.served := by
  have hinit := Inv.init hs
  refine ⟨along_of_invariant (fun _ _ hi he => hi.step he) (fun _ _ hi he => hi.proper he) hinit h, ?_⟩
  exact (invariant_along (fun _ _ hi he => hi.step he) hinit h).free

section

/-- Checks that take the texts below as they are. -/
def plainChecks : Checks where
  server value label required :=
    if value = "" then if required then .error (label ++ " is required") else .ok none else .ok (some value)
  dohUrl _ := .ok ()
  dotEndpoint value := .ok value
  serverName _ := .ok ()

def overHttps : Request := { mode := "doh", primary := "9.9.9.9", dohUrl := "https://dns.quad9.net/dns-query" }
def overTls : Request := { mode := "dot", primary := "8.8.8.8", dotEndpoint := "8.8.8.8:853", dotServerName := "dns.google" }

def plainDns : Dns := { router := ⟨"auto", "", ""⟩, config := {}, saved := {} }

/-- The request is read, tested and gets the lock. -/
def locks (i : Nat) : List Event := List.replicate 3 (.run i {})

def runs (i n : Nat) : List Event := List.replicate n (.run i {})

def fails (i : Nat) : Event := .run i { ok := false }

/-- One after the other, and the second fails at the end and is rolled back. -/
def orderly : List Event :=
  [.apply 0 none overHttps] ++ locks 0 ++ runs 0 11 ++ [.apply 1 none overTls] ++ locks 1 ++ runs 1 9 ++ [fails 1] ++ runs 1 9

theorem served_and_rolled_back :
    let w := exec (World.step plainChecks) { dns := plainDns } orderly
    w.transaction = none ∧ w.dns.config.upstreamUrl = "https://dns.quad9.net/dns-query" ∧ w.dns.running = true ∧
      Along (World.step plainChecks) (Proper plainChecks) { dns := plainDns } orderly ∧
      (w.transaction = none → w.dns.Answering ∧ w.dns = inTurn plainDns w.served) :=
  ⟨by decide +kernel, by decide +kernel, by decide +kernel, requests_serve plainChecks plainDns ⟨rfl, rfl⟩ orderly (by decide +kernel)⟩

/-- Both have read the configuration before either takes the lock. -/
def interleaved : List Event :=
  [.apply 0 none overHttps, .apply 1 none overTls] ++ runs 0 2 ++ runs 1 2 ++ runs 0 12 ++ runs 1 12

/-- Switched on, but the proxy did not start at boot. -/
def unstarted : Dns := { plainDns with config := { enabled := true }, saved := { enabled := true } }

def manually : Request := { mode := "manual", primary := "9.9.9.9" }

/-- The last step fails and the rollback succeeds. -/
def undone : List Event := [.apply 0 none manually] ++ locks 0 ++ runs 0 8 ++ [fails 0] ++ runs 0 8

def encrypted : Dns :=
  { router := ⟨"manual", "9.9.9.9", ""⟩, config := { enabled := true }, saved := { enabled := true },
    running := true, forwarding := true, pointed := true }

/-- dnsmasq does not restart, and the router does not take its settings back. -/
def stranded : List Event :=
  [.apply 0 none { mode := "automatic" }] ++ locks 0 ++ runs 0 7 ++ [fails 0, fails 0]

/-- The second of two requests takes the first one's DoH server back; a rollback that succeeds
    has switched encrypted DNS off; one that fails leaves dnsmasq with a stopped proxy. -/
theorem update_lost_and_rollback_differs :
    (∃ a b, (exec (World.step plainChecks) { dns := plainDns } interleaved).served = [a, b] ∧
        (exec (World.step plainChecks) { dns := plainDns } interleaved).transaction = none ∧
        (exec (World.step plainChecks) { dns := plainDns } interleaved).dns ≠ inTurn plainDns [a, b] ∧
        (exec (World.step plainChecks) { dns := plainDns } interleaved).dns ≠ inTurn plainDns [b, a]) ∧
      (¬ Along (World.step plainChecks) (Proper plainChecks) { dns := unstarted } undone) ∧
      (exec (World.step plainChecks) { dns := encrypted } stranded).transaction = none ∧
      ¬ (exec (World.step plainChecks) { dns := encrypted } stranded).dns.Answering := by
  refine ⟨?_, fun h => ?_, by decide +kernel, fun h => ?_⟩
  · refine ⟨(⟨.doh, some "9.9.9.9", none, "https://dns.quad9.net/dns-query", "", ""⟩, List.replicate 11 {}),
      (⟨.dot, some "8.8.8.8", none, "", "8.8.8.8:853", "dns.google"⟩, List.replicate 11 {}), ?_⟩
    decide +kernel
  · have hlast := (along_append.mp (show Along _ _ _ (undone.dropLast ++ [.run 0 {}]) from h)).2.1
    have hsame := (hlast 0 {} ((⟨.manual, some "9.9.9.9", none, "", "", ""⟩ : Checked).candidate unstarted.config)
      (.restoring unstarted []) .rolledBack rfl (by decide +kernel) (by decide +kernel)).2.2 unstarted rfl ⟨rfl, rfl⟩
    have hconfig := hsame.config
    revert hconfig
    decide +kernel
  · have := h (by decide +kernel)
    revert this
    decide +kernel

end

end OpenU60.DnsControl
