/-
  OpenU60.Tailscale.Update — updates of the two Tailscale binaries (`zte-agent/src/tailscale/mod.rs`:
  `run_update`, `run_update_inner`, `recover_binaries`).

  A step is one operation on a file of the directory (copy, rename, removal), with its outcome where
  one may fail, or a decision: the download and its check, the smoke test with the handshake of the
  supervisor, the health check. Power may be lost before any step; then the agent starts again and
  recovers the binaries.

  `sound` says which steps keep the pair: the rollback renames only what it finds to be the release
  before the update (a `.prev` of an earlier update is not), and does not fail to where the binary is
  gone or replaced; power is not lost while one binary is replaced and the other is not; a first
  installation, for which there is nothing to go back to, does not stop halfway. Along every such run the
  two binaries match whenever no update runs, and are of the release the outcome says (`pair_kept`).
  `stale_prev_restored` is a run that leaves two releases.
-/

import OpenU60.Lib.Machine

namespace OpenU60.Tailscale

open OpenU60.Lib.Machine

inductive Name where
  | tailscaled
  | tailscale
  deriving DecidableEq

/-- A binary of a release, or part of one. -/
inductive File where
  | release (version : String)
  | torn (bytes : Nat)
  deriving DecidableEq

/-- The files of one binary. -/
structure Slot where
  current : Option File
  prev : Option File
  new : Option File
  deriving DecidableEq

structure BinDir where
  tailscaled : Slot
  tailscale : Slot
  deriving DecidableEq

namespace BinDir

def get (b : BinDir) : Name → Slot
  | .tailscaled => b.tailscaled
  | .tailscale => b.tailscale

def set (b : BinDir) (n : Name) (s : Slot) : BinDir :=
  match n with
  | .tailscaled => { b with tailscaled := s }
  | .tailscale => { b with tailscale := s }

end BinDir

/-- The known-good `.prev` first, else `.new`. -/
def Slot.recover (s : Slot) : Slot :=
  if s.current.isSome then s
  else if s.prev.isSome then { s with current := s.prev, prev := none }
  else { s with current := s.new, new := none }

def BinDir.recoverBinaries (b : BinDir) : BinDir := ⟨b.tailscaled.recover, b.tailscale.recover⟩

/-! ## An update, step by step -/

inductive Stage where
  /-- Downloads, checks and extracts the release. -/
  | fetching
  | copying (n : Name)
  /-- The smoke test of the staged daemon, then the handshake. -/
  | staged
  | backing (n : Name)
  | installing (n : Name)
  /-- Swapped; whether the daemon comes up. -/
  | checking
  | restoring (n : Name)
  | cleaning (n : Name) (ok : Bool)
  deriving DecidableEq

structure Job where
  version : String
  /-- What was installed when the update began. -/
  before : Option File
  stage : Stage
  /-- The swap was complete. -/
  swapped : Bool
  deriving DecidableEq

inductive Outcome where
  | success
  | error
  | lost (swapped : Bool)
  deriving DecidableEq

/-- The update that ended last. -/
structure Last where
  version : String
  before : Option File
  outcome : Outcome
  deriving DecidableEq

structure World where
  bin : BinDir
  job : Option Job
  last : Option Last
  deriving DecidableEq

inductive Verdict where
  /-- It is up, or was not running and enrolled before. -/
  | kept
  /-- It is not, and the supervisor quiesces for the rollback. -/
  | unhealthy
  /-- It is not, and the supervisor does not quiesce. -/
  | stuck
  deriving DecidableEq

inductive Event where
  | update (version : String)
  /-- The download, or the test of what is staged. -/
  | check (ok : Bool)
  | file (ok : Bool)
  /-- The copy fails and leaves this. -/
  | spoilt (left : Option File)
  | verdict (v : Verdict)
  | powerLoss
  deriving DecidableEq

/-- A binary's swap begins: it is backed up if there is one. -/
def swapStage (b : BinDir) (n : Name) : Stage := if (b.get n).current.isSome then .backing n else .installing n

/-- The rollback renames what has a `.prev`. -/
def restoreStage (b : BinDir) : Name → Stage
  | .tailscaled =>
    if b.tailscaled.prev.isSome then .restoring .tailscaled
    else if b.tailscale.prev.isSome then .restoring .tailscale else .cleaning .tailscaled false
  | .tailscale => if b.tailscale.prev.isSome then .restoring .tailscale else .cleaning .tailscaled false

def Slot.copied (s : Slot) (version : String) : Slot := { s with new := some (.release version) }
def Slot.backedUp (s : Slot) : Slot := { s with current := none, prev := s.current }
def Slot.installed (s : Slot) : Slot := { s with current := s.new, new := none }
def Slot.restored (s : Slot) : Slot := { s with current := s.prev, prev := none }
def Slot.cleaned (s : Slot) : Slot := { s with new := none }

namespace World

def goes (w : World) (j : Job) (bin : BinDir) (stage : Stage) : World := { w with bin, job := some { j with stage } }

def ends (w : World) (j : Job) (bin : BinDir) (outcome : Outcome) : World :=
  { w with bin, job := none, last := some ⟨j.version, j.before, outcome⟩ }

/-- The operation of this stage, that fails or not. -/
def fileStep (w : World) (j : Job) (ok : Bool) : World :=
  let b := w.bin
  match j.stage with
  | .copying n =>
    if ok then w.goes j (b.set n ((b.get n).copied j.version)) (if n = .tailscaled then .copying .tailscale else .staged)
    else w.goes j b (.cleaning .tailscaled false)
  | .backing n =>
    if ok then w.goes j (b.set n (b.get n).backedUp) (.installing n) else w.goes j b (restoreStage b .tailscaled)
  | .installing n =>
    if ok then
      let b := b.set n (b.get n).installed
      if n = .tailscaled then w.goes j b (swapStage b .tailscale) else w.goes { j with swapped := true } b .checking
    else w.goes j b (restoreStage b .tailscaled)
  | .restoring n =>
    -- a rename that fails is passed over
    let b := if ok then b.set n (b.get n).restored else b
    w.goes j b (if n = .tailscaled then restoreStage b .tailscale else .cleaning .tailscaled false)
  | .cleaning n success =>
    let b := b.set n (b.get n).cleaned
    if n = .tailscaled then w.goes j b (.cleaning .tailscale success) else w.ends j b (if success then .success else .error)
  | .fetching | .staged | .checking => w

def checkStep (w : World) (j : Job) (ok : Bool) : World :=
  match j.stage with
  | .fetching => w.goes j w.bin (if ok then .copying .tailscaled else .cleaning .tailscaled false)
  | .staged => w.goes j w.bin (if ok then swapStage w.bin .tailscaled else .cleaning .tailscaled false)
  | _ => w

def verdictStep (w : World) (j : Job) (v : Verdict) : World :=
  if j.stage = .checking then
    match v with
    | .kept => w.goes j w.bin (.cleaning .tailscaled true)
    | .unhealthy => w.goes j w.bin (restoreStage w.bin .tailscaled)
    | .stuck => w.goes j w.bin (.cleaning .tailscaled false)
  else w

def step (w : World) : Event → World
  | .update version =>
    match w.job with
    | none => { w with job := some ⟨version, w.bin.tailscaled.current, .fetching, false⟩ }
    | some _ => w
  | .check ok =>
    match w.job with
    | some j => w.checkStep j ok
    | none => w
  | .file ok =>
    match w.job with
    | some j => w.fileStep j ok
    | none => w
  | .spoilt left =>
    match w.job with
    | some j =>
      match j.stage with
      | .copying n => w.goes j (w.bin.set n { w.bin.get n with new := left }) (.cleaning .tailscaled false)
      | _ => w
    | none => w
  | .verdict v =>
    match w.job with
    | some j => w.verdictStep j v
    | none => w
  | .powerLoss =>
    match w.job with
    | some j => w.ends j w.bin.recoverBinaries (.lost j.swapped)
    | none => { w with bin := w.bin.recoverBinaries }

/-- The agent starts. -/
def start (b : BinDir) : World := ⟨b.recoverBinaries, none, none⟩

end World

/-! ## Pairs -/

/-- Both absent, or both of one release. -/
def BinDir.Matched (b : BinDir) : Prop :=
  b.tailscaled.current = b.tailscale.current ∧ ∀ f ∈ b.tailscaled.current, ∃ v, f = .release v

/-- What of a binary is left to start: the installed one, or its backup. -/
def Slot.stands (s : Slot) : Option File := s.current.or s.prev

/-- The directory after an update, as its outcome says. -/
def Last.Told (l : Last) (b : BinDir) : Prop :=
  match l.outcome with
  | .success => b.tailscaled.current = some (.release l.version)
  | .error | .lost false => b.tailscaled.current = l.before
  | .lost true => True

/-- Between updates the binaries match and are of the release that the last one's outcome says. -/
def World.Paired (w : World) : Prop := w.job = none → w.bin.Matched ∧ ∀ l ∈ w.last, l.Told w.bin

/-- The steps that keep the pair. -/
def World.sound (w : World) (e : Event) : Prop :=
  match w.job with
  | none => True
  | some j =>
    match e, j.stage with
    | .file true, .restoring n => (w.bin.get n).prev = j.before
    | .file false, .restoring n => (w.bin.get n).current = j.before
    | .file false, .installing .tailscale => j.before ≠ none
    | .verdict .unhealthy, .checking => j.before ≠ none
    | .verdict .stuck, .checking => j.before = some (.release j.version)
    | .powerLoss, _ =>
      if j.before = none then j.swapped = true ∨ ∀ n, (w.bin.get n).current = none ∧ (w.bin.get n).new = none
      else w.bin.tailscaled.stands = w.bin.tailscale.stands
    | _, _ => True

namespace Slot

variable (before : Option File) (version : String) (s : Slot)

def Untouched : Prop := s.current = before ∧ (before = none → s.prev = none)

/-- Moved away, or never there. -/
def Gone : Prop := s.current = none ∧ s.prev = before

def Replaced : Prop := s.current = some (.release version) ∧ s.prev = before

/-- One of the three. -/
def Swapping : Prop := s.Untouched before ∨ s.Gone before ∨ s.Replaced before version

variable {before version s}

theorem recover_current : s.recover.current = s.stands.or s.new := by
  unfold recover stands
  cases hc : s.current with
  | some f => simp [hc]
  | none => cases hp : s.prev <;> simp

/-- Where nothing is left to recover. -/
theorem recover_rests (h : s.recover.current = none) : s.recover.prev = none ∧ s.recover.new = none := by
  have hnone := recover_current.symm.trans h
  rw [Option.or_eq_none_iff, stands, Option.or_eq_none_iff] at hnone
  obtain ⟨⟨hcurrent, hprev⟩, hnew⟩ := hnone
  simp [recover, hcurrent, hprev, hnew]

theorem recover_installed {f : File} (h : s.current = some f) : s.recover = s := by simp [recover, h]

theorem Swapping.stands (h : s.Swapping before version) (hbefore : before ≠ none) :
    s.stands = before ∨ s.Replaced before version ∧ s.stands = some (.release version) := by
  obtain ⟨f, rfl⟩ := Option.ne_none_iff_exists'.mp hbefore
  rcases h with ⟨hcurrent, -⟩ | ⟨hcurrent, hprev⟩ | ⟨hcurrent, hprev⟩
  · exact .inl (by rw [Slot.stands, hcurrent]; rfl)
  · exact .inl (by rw [Slot.stands, hcurrent, hprev]; rfl)
  · exact .inr ⟨⟨hcurrent, hprev⟩, by rw [Slot.stands, hcurrent]; rfl⟩

end Slot

/-! ## What a stage finds -/

/-- Between updates a binary that is absent has nothing left of it. -/
structure BinDir.Rested (b : BinDir) : Prop where
  matched : b.Matched
  absent : ∀ n, (b.get n).current = none → (b.get n).prev = none ∧ (b.get n).new = none

/-- The stages, and the files each finds. -/
inductive Finds (b : BinDir) (before : Option File) (version : String) (swapped : Bool) : Stage → Prop
  | fetching : b.tailscaled.Untouched before → b.tailscale.Untouched before → swapped = false → Finds b before version swapped .fetching
  | copying (n : Name) : b.tailscaled.Untouched before → b.tailscale.Untouched before → swapped = false →
      (n = .tailscale → b.tailscaled.new = some (.release version)) → Finds b before version swapped (.copying n)
  | staged : b.tailscaled.Untouched before → b.tailscale.Untouched before → swapped = false →
      b.tailscaled.new = some (.release version) → b.tailscale.new = some (.release version) → Finds b before version swapped .staged
  | backingFirst : b.tailscaled.Untouched before → b.tailscale.Untouched before → swapped = false →
      b.tailscaled.new = some (.release version) → b.tailscale.new = some (.release version) → before ≠ none →
      Finds b before version swapped (.backing .tailscaled)
  | installingFirst : b.tailscaled.Gone before → b.tailscale.Untouched before → swapped = false →
      b.tailscaled.new = some (.release version) → b.tailscale.new = some (.release version) → Finds b before version swapped (.installing .tailscaled)
  | backingSecond : b.tailscaled.Replaced before version → b.tailscale.Untouched before → swapped = false →
      b.tailscale.new = some (.release version) → before ≠ none → Finds b before version swapped (.backing .tailscale)
  | installingSecond : b.tailscaled.Replaced before version → b.tailscale.Gone before → swapped = false →
      b.tailscale.new = some (.release version) → Finds b before version swapped (.installing .tailscale)
  | checking : b.tailscaled.Replaced before version → b.tailscale.Replaced before version → swapped = true → Finds b before version swapped .checking
  | restoringFirst : b.tailscaled.Swapping before version → b.tailscale.Swapping before version →
      (swapped = false → b.tailscale.stands = before) → before ≠ none → Finds b before version swapped (.restoring .tailscaled)
  | restoringSecond : b.tailscaled.current = before → b.tailscale.Swapping before version →
      (swapped = false → b.tailscale.stands = before) → before ≠ none → Finds b before version swapped (.restoring .tailscale)
  | failed (n : Name) : b.tailscaled.current = before → b.tailscale.current = before →
      (before = none → swapped = false ∧ b.tailscaled.prev = none ∧ b.tailscale.prev = none) → (before = none → n = .tailscale → b.tailscaled.new = none) →
      Finds b before version swapped (.cleaning n false)
  | done (n : Name) : b.tailscaled.current = some (.release version) → b.tailscale.current = some (.release version) → swapped = true →
      Finds b before version swapped (.cleaning n true)

namespace World

structure Busy (w : World) (j : Job) : Prop where
  before : ∀ f ∈ j.before, ∃ v, f = .release v
  finds : Finds w.bin j.before j.version j.swapped j.stage

def Inv (w : World) : Prop :=
  match w.job with
  | none => w.bin.Rested ∧ ∀ l ∈ w.last, l.Told w.bin
  | some j => w.Busy j

variable {w : World} {j : Job}

theorem Busy.goes (h : w.Busy j) {bin : BinDir} {stage : Stage} (hfinds : Finds bin j.before j.version j.swapped stage) :
    (w.goes j bin stage).Inv := ⟨h.before, hfinds⟩

/-- The rollback begins: it has nothing to rename only where nothing was installed and nothing is. -/
theorem Busy.restores (h : w.Busy j) (hfirst : w.bin.tailscaled.Swapping j.before j.version) (hsecond : w.bin.tailscale.Swapping j.before j.version)
    (hstands : j.before ≠ none → j.swapped = false → w.bin.tailscale.stands = j.before)
    (hfresh : j.before = none → j.swapped = false ∧ w.bin.tailscaled.current = none ∧ w.bin.tailscale.current = none) :
    (w.goes j w.bin (restoreStage w.bin .tailscaled)).Inv := by
  apply h.goes
  by_cases hbefore : j.before = none
  · obtain ⟨hswapped, hc, hc'⟩ := hfresh hbefore
    have hprev : ∀ s : Slot, s.Swapping j.before j.version → s.current = none → s.prev = none := by
      rintro s (⟨-, hp⟩ | ⟨-, hp⟩ | ⟨hr, -⟩) hcurrent
      · exact hp hbefore
      · rw [hp, hbefore]
      · rw [hcurrent] at hr; cases hr
    have hp := hprev _ hfirst hc
    have hp' := hprev _ hsecond hc'
    simp only [restoreStage, hp, hp', Option.isSome_none, Bool.false_eq_true, if_false]
    exact .failed _ (by rw [hc, hbefore]) (by rw [hc', hbefore]) (fun _ => ⟨hswapped, hp, hp'⟩) (fun _ hn => by cases hn)
  · have hkept : ∀ s : Slot, s.Swapping j.before j.version → s.prev = none → s.current = j.before := by
      rintro s (⟨hc, -⟩ | ⟨-, hp⟩ | ⟨-, hp⟩) hprev
      · exact hc
      · exact absurd (hp.symm.trans hprev) hbefore
      · exact absurd (hp.symm.trans hprev) hbefore
    unfold restoreStage
    dsimp only
    split
    · exact .restoringFirst hfirst hsecond (hstands hbefore) hbefore
    · rename_i hp
      have hfirst := hkept _ hfirst (by simpa using hp)
      split
      · exact .restoringSecond hfirst hsecond (hstands hbefore) hbefore
      · rename_i hp'
        exact .failed _ hfirst (hkept _ hsecond (by simpa using hp')) (fun h => absurd h hbefore) (fun h => absurd h hbefore)

/-- The first binary is back. -/
theorem Busy.restoresSecond (h : w.Busy j) {bin : BinDir} (hbefore : j.before ≠ none) (hfirst : bin.tailscaled.current = j.before)
    (hsecond : bin.tailscale.Swapping j.before j.version) (hstands : j.swapped = false → bin.tailscale.stands = j.before) :
    (w.goes j bin (restoreStage bin .tailscale)).Inv := by
  apply h.goes
  unfold restoreStage
  dsimp only
  split
  · exact .restoringSecond hfirst hsecond hstands hbefore
  · rename_i hp
    have hprev : bin.tailscale.prev = none := by simpa using hp
    refine .failed _ hfirst ?_ (fun h => absurd h hbefore) (fun h => absurd h hbefore)
    rcases hsecond with ⟨hc, -⟩ | ⟨-, hp⟩ | ⟨-, hp⟩
    · exact hc
    · exact absurd (hp.symm.trans hprev) hbefore
    · exact absurd (hp.symm.trans hprev) hbefore

/-- A binary's swap begins. -/
theorem finds_swap {b : BinDir} {n : Name} {before : Option File} {version : String} {swapped : Bool} (h : (b.get n).Untouched before)
    (hbacking : before ≠ none → Finds b before version swapped (.backing n))
    (hinstalling : (b.get n).Gone before → Finds b before version swapped (.installing n)) : Finds b before version swapped (swapStage b n) := by
  obtain ⟨hc, hp⟩ := h
  unfold swapStage
  split
  · rename_i hsome
    apply hbacking
    rintro rfl
    rw [hc] at hsome
    cases hsome
  · rename_i hnone
    have hnone : (b.get n).current = none := by simpa using hnone
    have hbefore : before = none := hc.symm.trans hnone
    exact hinstalling ⟨hnone, by rw [hp hbefore, hbefore]⟩

theorem stands_kept {s : Slot} {before : Option File} (h : s.Untouched before ∨ s.Gone before) (hbefore : before ≠ none) : s.stands = before := by
  obtain ⟨f, rfl⟩ := Option.ne_none_iff_exists'.mp hbefore
  rcases h with ⟨hc, -⟩ | ⟨hc, hp⟩
  · rw [Slot.stands, hc]; rfl
  · rw [Slot.stands, hc, hp]; rfl

/-- Nothing of the swap was done. -/
theorem failed_untouched {b : BinDir} {before : Option File} {version : String} {swapped : Bool} (h : b.tailscaled.Untouched before)
    (h' : b.tailscale.Untouched before) (hswapped : swapped = false) : Finds b before version swapped (.cleaning .tailscaled false) :=
  .failed _ h.1 h'.1 (fun h0 => ⟨hswapped, h.2 h0, h'.2 h0⟩) (fun _ hn => by cases hn)

theorem Busy.fileStep (h : w.Busy j) (ok : Bool) (hjob : w.job = some j) (hsound : w.sound (.file ok)) : (w.fileStep j ok).Inv := by
  have hfinds := h.finds
  unfold sound at hsound
  rw [hjob] at hsound
  dsimp only at hsound
  unfold World.fileStep
  generalize hstage : j.stage = stage at hfinds hsound
  cases hfinds with
  | fetching | staged | checking =>
    simp only [Inv, hjob]
    exact h
  | copying n hfirst hsecond hswapped hnew =>
    cases ok with
    | true =>
      cases n with
      | tailscaled => exact h.goes (.copying _ hfirst hsecond hswapped fun _ => rfl)
      | tailscale => exact h.goes (.staged hfirst hsecond hswapped (hnew rfl) rfl)
    | false => exact h.goes (failed_untouched hfirst hsecond hswapped)
  | backingFirst hfirst hsecond hswapped hnew hnew' hbefore =>
    cases ok with
    | true => exact h.goes (.installingFirst ⟨rfl, hfirst.1⟩ hsecond hswapped hnew hnew')
    | false => exact h.restores (.inl hfirst) (.inl hsecond) (fun hb _ => stands_kept (.inl hsecond) hb) (fun h0 => absurd h0 hbefore)
  | installingFirst hfirst hsecond hswapped hnew hnew' =>
    cases ok with
    | true =>
      apply h.goes
      have hreplaced : w.bin.tailscaled.installed.Replaced j.before j.version := ⟨hnew, hfirst.2⟩
      refine finds_swap (b := w.bin.set .tailscaled w.bin.tailscaled.installed) (n := .tailscale) hsecond ?_ ?_
      · exact fun hbefore => .backingSecond hreplaced hsecond hswapped hnew' hbefore
      · exact fun hgone => .installingSecond hreplaced hgone hswapped hnew'
    | false =>
      exact h.restores (.inr (.inl hfirst)) (.inl hsecond) (fun hb _ => stands_kept (.inl hsecond) hb) (fun h0 => ⟨hswapped, hfirst.1, by rw [hsecond.1, h0]⟩)
  | backingSecond hfirst hsecond hswapped hnew hbefore =>
    cases ok with
    | true => exact h.goes (.installingSecond hfirst ⟨rfl, hsecond.1⟩ hswapped hnew)
    | false =>
      exact h.restores (.inr (.inr hfirst)) (.inl hsecond) (fun hb _ => stands_kept (.inl hsecond) hb) (fun h0 => absurd h0 hbefore)
  | installingSecond hfirst hsecond hswapped hnew =>
    cases ok with
    | true =>
      have hreplaced : w.bin.tailscale.installed.Replaced j.before j.version := ⟨hnew, hsecond.2⟩
      exact ⟨h.before, .checking hfirst hreplaced rfl⟩
    | false =>
      exact h.restores (.inr (.inr hfirst)) (.inr (.inl hsecond)) (fun hb _ => stands_kept (.inr hsecond) hb) (fun h0 => absurd h0 hsound)
  | restoringFirst hfirst hsecond hstands hbefore =>
    cases ok with
    | true => exact h.restoresSecond hbefore hsound hsecond hstands
    | false => exact h.restoresSecond hbefore hsound hsecond hstands
  | restoringSecond hfirst hsecond hstands hbefore =>
    cases ok with
    | true => exact h.goes (.failed _ hfirst hsound (fun h0 => absurd h0 hbefore) (fun h0 => absurd h0 hbefore))
    | false => exact h.goes (.failed _ hfirst hsound (fun h0 => absurd h0 hbefore) (fun h0 => absurd h0 hbefore))
  | failed n hfirst hsecond hprev hnew =>
    cases n with
    | tailscaled => exact h.goes (.failed _ hfirst hsecond hprev fun _ _ => rfl)
    | tailscale =>
      refine ⟨⟨⟨hfirst.trans hsecond.symm, fun f hf => h.before f (hfirst ▸ hf)⟩, ?_⟩, ?_⟩
      · intro n hn
        have hnone : j.before = none := by
          cases n with
          | tailscaled => exact hfirst.symm.trans hn
          | tailscale => exact hsecond.symm.trans hn
        cases n with
        | tailscaled => exact ⟨(hprev hnone).2.1, hnew hnone rfl⟩
        | tailscale => exact ⟨(hprev hnone).2.2, rfl⟩
      · rintro l ⟨⟩
        exact hfirst
  | done n hfirst hsecond hswapped =>
    cases n with
    | tailscaled => exact h.goes (.done _ hfirst hsecond hswapped)
    | tailscale =>
      refine ⟨⟨⟨hfirst.trans hsecond.symm, ?_⟩, ?_⟩, ?_⟩
      · intro f hf
        exact ⟨j.version, Option.some.inj (hf.symm.trans hfirst)⟩
      · intro n hn
        cases n with
        | tailscaled => cases hfirst.symm.trans hn
        | tailscale => cases hsecond.symm.trans hn
      · rintro l ⟨⟩
        exact hfirst

theorem Busy.checkStep (h : w.Busy j) (ok : Bool) (hjob : w.job = some j) : (w.checkStep j ok).Inv := by
  have hfinds := h.finds
  unfold World.checkStep
  generalize hstage : j.stage = stage at hfinds
  cases hfinds with
  | fetching hfirst hsecond hswapped =>
    cases ok with
    | true => exact h.goes (.copying _ hfirst hsecond hswapped fun hn => by cases hn)
    | false => exact h.goes (failed_untouched hfirst hsecond hswapped)
  | staged hfirst hsecond hswapped hnew hnew' =>
    cases ok with
    | true =>
      apply h.goes
      apply finds_swap (n := .tailscaled) hfirst
      · exact fun hbefore => .backingFirst hfirst hsecond hswapped hnew hnew' hbefore
      · exact fun hgone => .installingFirst hgone hsecond hswapped hnew hnew'
    | false => exact h.goes (failed_untouched hfirst hsecond hswapped)
  | _ =>
    simp only [Inv, hjob]
    exact h

theorem Busy.verdictStep (h : w.Busy j) (v : Verdict) (hjob : w.job = some j) (hsound : w.sound (.verdict v)) : (w.verdictStep j v).Inv := by
  have hfinds := h.finds
  unfold sound at hsound
  rw [hjob] at hsound
  dsimp only at hsound
  unfold World.verdictStep
  generalize hstage : j.stage = stage at hfinds hsound
  cases hfinds with
  | checking hfirst hsecond hswapped =>
    rw [if_pos rfl]
    cases v with
    | kept => exact h.goes (.done _ hfirst.1 hsecond.1 hswapped)
    | unhealthy =>
      refine h.restores (.inr (.inr hfirst)) (.inr (.inr hsecond)) (fun _ hs => ?_) (fun h0 => absurd h0 hsound)
      rw [hswapped] at hs
      cases hs
    | stuck =>
      have hbefore : j.before ≠ none := by rw [hsound]; exact Option.some_ne_none _
      exact h.goes (.failed _ (hfirst.1.trans hsound.symm) (hsecond.1.trans hsound.symm) (fun h0 => absurd h0 hbefore) (fun h0 => absurd h0 hbefore))
  | _ =>
    rw [if_neg (by simp)]
    simp only [Inv, hjob]
    exact h

/-! ## Power loss -/

theorem stands_release {s : Slot} {before : Option File} {version : String} (h : s.Swapping before version) (hbefore : before ≠ none) :
    s.stands = before ∨ s.stands = some (.release version) := by
  rcases h.stands hbefore with h | ⟨-, h⟩
  · exact .inl h
  · exact .inr h

/-- What is left of the two binaries: at every stage the old release or the new one, and of the second
    the old one until the swap is complete. -/
theorem finds_stands {b : BinDir} {before : Option File} {version : String} {swapped : Bool} {stage : Stage}
    (h : Finds b before version swapped stage) (hbefore : before ≠ none) :
    (b.tailscale.stands = before ∨ b.tailscale.stands = some (.release version)) ∧ (swapped = false → b.tailscale.stands = before) := by
  have hreplaced : ∀ {s : Slot}, s.Replaced before version → s.stands = some (.release version) := by
    rintro s ⟨hc, -⟩
    rw [Slot.stands, hc]
    rfl
  have hinstalled : ∀ {s : Slot} {f : Option File}, f ≠ none → s.current = f → s.stands = f := by
    rintro s f hf hc
    obtain ⟨f, rfl⟩ := Option.ne_none_iff_exists'.mp hf
    rw [Slot.stands, hc]
    rfl
  cases h with
  | fetching _ h | copying _ _ h | staged _ h | backingFirst _ h | installingFirst _ h | backingSecond _ h =>
    have := stands_kept (.inl h) hbefore
    exact ⟨.inl this, fun _ => this⟩
  | installingSecond _ h =>
    have := stands_kept (.inr h) hbefore
    exact ⟨.inl this, fun _ => this⟩
  | checking _ h hs => exact ⟨.inr (hreplaced h), fun hs' => by rw [hs] at hs'; cases hs'⟩
  | restoringFirst _ h hstands => exact ⟨stands_release h hbefore, hstands⟩
  | restoringSecond _ h hstands => exact ⟨stands_release h hbefore, hstands⟩
  | failed _ _ h =>
    have := hinstalled hbefore h
    exact ⟨.inl this, fun _ => this⟩
  | done _ _ h hs => exact ⟨.inr (hinstalled (Option.some_ne_none _) h), fun hs' => by rw [hs] at hs'; cases hs'⟩

/-- A first installation that was swapped stays. -/
theorem finds_fresh {b : BinDir} {version : String} {stage : Stage} (h : Finds b none version true stage) :
    b.tailscaled.current = some (.release version) ∧ b.tailscale.current = some (.release version) := by
  cases h with
  | fetching _ _ hs | copying _ _ _ hs | staged _ _ hs | backingFirst _ _ hs | installingFirst _ _ hs | backingSecond _ _ hs
  | installingSecond _ _ hs => cases hs
  | checking h h' => exact ⟨h.1, h'.1⟩
  | restoringFirst _ _ _ hbefore | restoringSecond _ _ _ hbefore => exact absurd rfl hbefore
  | failed _ _ _ hs => cases (hs rfl).1
  | done _ h h' => exact ⟨h, h'⟩

/-- Where nothing is installed before or now, there is no backup either. -/
theorem finds_nothing {b : BinDir} {version : String} {swapped : Bool} {stage : Stage} (h : Finds b none version swapped stage)
    (hfirst : b.tailscaled.current = none) : b.tailscaled.prev = none ∧ b.tailscale.prev = none := by
  have hreplaced : ∀ {s : Slot}, s.current = none → ¬ s.Replaced none version := by
    rintro s hc ⟨hr, -⟩
    rw [hc] at hr
    cases hr
  cases h with
  | fetching h h' | copying _ h h' | staged h h' | backingFirst h h' => exact ⟨h.2 rfl, h'.2 rfl⟩
  | installingFirst h h' => exact ⟨h.2, h'.2 rfl⟩
  | backingSecond h | installingSecond h | checking h => exact absurd h (hreplaced hfirst)
  | restoringFirst _ _ _ hbefore | restoringSecond _ _ _ hbefore => exact absurd rfl hbefore
  | failed _ _ _ h => exact (h rfl).2
  | done _ h => cases hfirst.symm.trans h

theorem recover_rested {b : BinDir} (h : b.recoverBinaries.Matched) : b.recoverBinaries.Rested := by
  refine ⟨h, fun n hn => ?_⟩
  cases n with
  | tailscaled => exact Slot.recover_rests hn
  | tailscale => exact Slot.recover_rests hn

theorem Busy.powerLoss (h : w.Busy j) (hjob : w.job = some j) (hsound : w.sound .powerLoss) :
    (w.ends j w.bin.recoverBinaries (.lost j.swapped)).Inv := by
  unfold sound at hsound
  rw [hjob] at hsound
  dsimp only at hsound
  have hrecover : ∀ s : Slot, s.recover.current = s.stands.or s.new := fun s => Slot.recover_current
  split at hsound
  · rename_i hbefore
    rcases hsound with hswapped | hnothing
    · have hfinds := h.finds
      rw [hbefore, hswapped] at hfinds
      obtain ⟨hfirst, hsecond⟩ := finds_fresh hfinds
      have hmatched : w.bin.recoverBinaries.Matched := by
        unfold BinDir.recoverBinaries
        rw [Slot.recover_installed hfirst, Slot.recover_installed hsecond]
        refine ⟨hfirst.trans hsecond.symm, fun f hf => ⟨j.version, ?_⟩⟩
        exact (Option.some.inj (hfirst.symm.trans hf)).symm
      refine ⟨recover_rested hmatched, ?_⟩
      rintro l ⟨⟩
      rw [hswapped]
      trivial
    · have hfinds := h.finds
      rw [hbefore] at hfinds
      obtain ⟨hprev, hprev'⟩ := finds_nothing hfinds (hnothing .tailscaled).1
      have hnone : ∀ s : Slot, s.current = none ∧ s.new = none → s.prev = none → s.recover.current = none := by
        rintro s ⟨hc, hn⟩ hp
        rw [hrecover, Slot.stands, hc, hp, hn]
        rfl
      have hfirst : w.bin.recoverBinaries.tailscaled.current = none := hnone _ (hnothing .tailscaled) hprev
      have hsecond : w.bin.recoverBinaries.tailscale.current = none := hnone _ (hnothing .tailscale) hprev'
      refine ⟨recover_rested ⟨hfirst.trans hsecond.symm, fun f hf => by cases hfirst.symm.trans hf⟩, ?_⟩
      rintro l ⟨⟩
      cases j.swapped with
      | true => trivial
      | false => exact hfirst.trans hbefore.symm
  · rename_i hbefore
    obtain ⟨hrelease, hkept⟩ := finds_stands h.finds hbefore
    obtain ⟨v, hv⟩ : ∃ v, w.bin.tailscale.stands = some (.release v) := by
      rcases hrelease with hs | hs
      · obtain ⟨f, hf⟩ := Option.ne_none_iff_exists'.mp hbefore
        obtain ⟨v, rfl⟩ := h.before f hf
        exact ⟨v, hs.trans hf⟩
      · exact ⟨j.version, hs⟩
    have hcurrent : ∀ s : Slot, s.stands = some (.release v) → s.recover.current = some (.release v) := by
      intro s hs
      rw [hrecover, hs]
      rfl
    have hfirst : w.bin.recoverBinaries.tailscaled.current = some (.release v) := hcurrent _ (hsound.trans hv)
    have hsecond : w.bin.recoverBinaries.tailscale.current = some (.release v) := hcurrent _ hv
    refine ⟨recover_rested ⟨hfirst.trans hsecond.symm, fun f hf => ⟨v, ?_⟩⟩, ?_⟩
    · exact (Option.some.inj (hfirst.symm.trans hf)).symm
    · rintro l ⟨⟩
      cases hswapped : j.swapped with
      | true => trivial
      | false => exact hfirst.trans (hv.symm.trans (hkept hswapped))

theorem inv_step (h : w.Inv) (e : Event) (hsound : w.sound e) : (w.step e).Inv := by
  cases hjob : w.job with
  | none =>
    simp only [Inv, hjob] at h
    cases e with
    | update version =>
      simp only [step, hjob]
      obtain ⟨⟨hmatched, habsent⟩, -⟩ := h
      refine ⟨hmatched.2, .fetching ⟨rfl, fun h0 => (habsent .tailscaled h0).1⟩ ⟨hmatched.1.symm, fun h0 => ?_⟩ rfl⟩
      exact (habsent .tailscale (hmatched.1.symm.trans h0)).1
    | powerLoss =>
      have hsame : ∀ n, (w.bin.get n).recover = w.bin.get n := by
        intro n
        cases hc : (w.bin.get n).current with
        | some f => exact Slot.recover_installed hc
        | none =>
          obtain ⟨hp, hn⟩ := h.1.absent n hc
          simp only [Slot.recover, hc, hp, hn, Option.isSome_none, Bool.false_eq_true, if_false]
          cases hs : w.bin.get n
          rw [hs] at hc hn
          simp_all
      have hbin : w.bin.recoverBinaries = w.bin := by
        have hfirst := hsame .tailscaled
        have hsecond := hsame .tailscale
        simp only [BinDir.get] at hfirst hsecond
        rw [BinDir.recoverBinaries, hfirst, hsecond]
      simp only [step, hjob, hbin, Inv]
      exact h
    | _ =>
      simp only [step, hjob, Inv]
      exact h
  | some j =>
    simp only [Inv, hjob] at h
    cases e with
    | update version =>
      simp only [step, hjob, Inv]
      exact h
    | check ok =>
      simp only [step, hjob]
      exact h.checkStep ok hjob
    | file ok =>
      simp only [step, hjob]
      exact h.fileStep ok hjob hsound
    | spoilt left =>
      have hfinds := h.finds
      simp only [step, hjob]
      generalize hstage : j.stage = stage at hfinds
      cases hfinds with
      | copying n hfirst hsecond hswapped =>
        apply h.goes
        cases n with
        | tailscaled => exact failed_untouched hfirst hsecond hswapped
        | tailscale => exact failed_untouched hfirst hsecond hswapped
      | _ =>
        simp only [Inv, hjob]
        exact h
    | verdict v =>
      simp only [step, hjob]
      exact h.verdictStep v hjob hsound
    | powerLoss =>
      simp only [step, hjob]
      exact h.powerLoss hjob hsound

end World

/-- Of every run whose steps are sound. -/
theorem pair_kept (b : BinDir) (hb : b.recoverBinaries.Matched) (es : List Event) (h : Along World.step World.sound (World.start b) es) :
    (exec World.step (World.start b) es).Paired := by
  have hstart : (World.start b).Inv := ⟨World.recover_rested hb, by rintro l ⟨⟩⟩
  have hinv := invariant_along (I := World.Inv) (fun _ e hi hs => World.inv_step hi e hs) hstart h
  intro hjob
  simp only [World.Inv, hjob] at hinv
  exact ⟨hinv.1.matched, hinv.2⟩

/-- Release 1.98 with the backups of 1.90. -/
def upgraded : BinDir :=
  ⟨⟨some (.release "1.98"), some (.release "1.90"), none⟩, ⟨some (.release "1.98"), some (.release "1.90"), none⟩⟩

def staging : List Event := [.update "1.99", .check true, .file true, .file true, .check true]

/-- The second binary cannot be installed; both are renamed back. -/
theorem swap_undone :
    let w := exec World.step (World.start upgraded) (staging ++ [.file true, .file true, .file true, .file false, .file true, .file true, .file true, .file true])
    w.Paired ∧ w.last = some ⟨"1.99", some (.release "1.98"), .error⟩ := by
  refine ⟨pair_kept upgraded ⟨rfl, ?_⟩ _ ?_, by decide⟩
  · rintro f ⟨⟩
    exact ⟨"1.98", rfl⟩
  · exact ⟨trivial, trivial, trivial, trivial, trivial, trivial, trivial, trivial, nofun, rfl, rfl, trivial, trivial, trivial⟩

/-- The second binary cannot be backed up, and its backup of an earlier update is put in its place. -/
theorem stale_prev_restored : ¬ (exec World.step (World.start upgraded)
    (staging ++ [.file true, .file true, .file false, .file true, .file true, .file true, .file true])).Paired :=
  fun h => absurd (h (by decide)).1.1 (by decide)

-- power is lost between the swaps of the two
example : ¬ (exec World.step (World.start upgraded) (staging ++ [.file true, .file true, .powerLoss])).Paired :=
  fun h => absurd (h (by decide)).1.1 (by decide)

end OpenU60.Tailscale
