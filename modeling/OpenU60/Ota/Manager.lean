/-
  OpenU60.Ota.Manager — the agent's side of an update (`ota/mod.rs`, `OtaManager`).

  An operation holds the `operation` flag from `begin` to its last state change and is cut
  at every file it touches: `Operation` says how far it has got. What the network, the
  clock and the file system answer comes with each step; `saved` is how the write of
  `state.json` at its end went (memory is changed either way).

  Everything here is the manager and the disk only. `launchHelper` starts another process
  and is with the machine of all processes.
-/

import OpenU60.Ota.Verify

namespace OpenU60.Ota

open OpenU60.Lib

def requiredHeadroom : Nat := 8 * 1024 * 1024

/-- What `launch_helper` is called with, and the helper's arguments. -/
structure Handover where
  candidate : Slot
  previous : Slot
  version : String
  deriving DecidableEq

inductive DownloadStage (Bytes : Type) where
  | begun
  | fetching (m : ReleaseManifest) (slot : Slot)
  /-- Both temporary files are in place: the build checked, its metadata written. -/
  | swappingBinary (m : ReleaseManifest) (slot : Slot) (build : Bytes)
  | swappingMeta (m : ReleaseManifest) (slot : Slot)
  | retiringDigest (m : ReleaseManifest) (slot : Slot)
  | staging (m : ReleaseManifest) (slot : Slot)

inductive LaunchStage where
  | clearReady
  | writePending
  | spawn
  | waiting (helper : Nat)
  | abortReady (error : String)
  | abortPending (error : String) (readyError : Option String)

inductive Operation (Bytes : Type) where
  | checking
  | downloading (stage : DownloadStage Bytes)
  | installing
  | rollingBack
  | launching (l : Handover) (stage : LaunchStage)

/-- A running agent. `trialEnv` is the `ZTE_OTA_TRIAL` of its environment, which what it
    starts inherits; `trialThread` whether its `ota-trial-state` thread still waits. -/
structure Manager (Bytes : Type) where
  pid : Nat
  exe : Bytes
  trialEnv : Bool
  trialThread : Bool
  settings : Settings
  state : PersistentState
  op : Option (Operation Bytes)
  exiting : Bool

variable {Bytes : Type} (P : Platform Bytes)

/-! ## Starting -/

def reconcileStartupState (d : Disk Bytes) (p : PersistentState) : Option (PersistentState × String) :=
  if d.inTrial then none
  else
    match p.phase with
    | .installing =>
      let candidate := p.slot
      let completed := candidate.isSome && candidate == d.activeSlot
      let p := { p with phase := .idle, staged := none, stagedSlot := none }
      if completed then
        some ({ p with available := none, lastError := none }, "reconciled a completed update after restart")
      else
        some ({ p with
          lastError := some "the previous update trial was interrupted; the previous agent was restored" },
          "recovered an interrupted update trial at startup")
    | .rollingBack =>
      some ({ p with
        phase := .idle, staged := none, stagedSlot := none
        lastError := some "the previous rollback trial was interrupted; an active agent was restored" },
        "recovered an interrupted rollback trial at startup")
    | .checking | .downloading =>
      some ({ p with
        phase := if p.staged.isSome then .staged else .idle
        lastError := some "the previous update operation was interrupted; retry the operation" },
        "recovered an interrupted update operation at startup")
    | .idle | .staged | .failed => none

/-- What goes right when an agent starts: `prepare` (its last act removes the handshake),
    the repair of the boot script, and the write of the reconciled state. -/
structure Startup where
  prepared : Bool
  supervisor : Io
  saved : Io

def ensureSupervisor (d : Disk Bytes) (io : Io) : Disk Bytes × Option String :=
  ({ d with supervisor := d.supervisor || io.effect }, if d.supervisor then none else io.error?)

/-- `OtaManager::system`, then `start`. -/
def startAgent (pid : Nat) (exe : Bytes) (trialEnv : Bool) (d : Disk Bytes) (s : Startup) :
    Manager Bytes × Disk Bytes :=
  let d := { d with helperReady := !s.prepared && d.helperReady }
  let d := if trialEnv then d else (ensureSupervisor d s.supervisor).1
  let settings := { d.settings.getD .default with automaticInstall := false }
  let persistent := d.state.getD .default
  match reconcileStartupState d persistent with
  | some (p, _) => (⟨pid, exe, trialEnv, trialEnv, settings, p, none, false⟩, d.writeState p s.saved)
  | none => (⟨pid, exe, trialEnv, trialEnv, settings, persistent, none, false⟩, d)

namespace Manager

/-! ## The state and the flag -/

def change (g : Manager Bytes) (d : Disk Bytes) (f : PersistentState → PersistentState) (saved : Io) :
    Manager Bytes × Disk Bytes :=
  ({ g with state := f g.state }, d.writeState (f g.state) saved)

/-- `begin`; a manager whose flag is taken refuses and changes nothing. -/
def beginOp (g : Manager Bytes) (d : Disk Bytes) (phase : Phase) (op : Operation Bytes) (saved : Io) :
    Manager Bytes × Disk Bytes :=
  if g.op.isSome then (g, d)
  else { g with op := some op }.change d (fun p => { p with phase := phase, lastError := none }) saved

/-- `fail`, and the flag is dropped with the guard. -/
def fail (g : Manager Bytes) (d : Disk Bytes) (error : String) (saved : Io) : Manager Bytes × Disk Bytes :=
  { g with op := none }.change d (fun p => { p with phase := .failed, lastError := some error }) saved

def next (g : Manager Bytes) (op : Operation Bytes) : Manager Bytes := { g with op := some op }

/-- The trial-state thread finds the marker gone. -/
def trialState (g : Manager Bytes) (d : Disk Bytes) (supervisor saved : Io) : Manager Bytes × Disk Bytes :=
  if g.trialThread && !d.inTrial then
    { g with trialThread := false }.change (ensureSupervisor d supervisor).1 (fun p =>
      { p with phase := .idle, available := none, staged := none, stagedSlot := none, lastError := none }) saved
  else (g, d)

/-! ## Settings -/

structure SettingsInput where
  channel : Channel
  automaticChecks : Bool
  automaticDownloads : Bool

/-- `body` is the request read as `Input`. -/
def updateSettings (g : Manager Bytes) (d : Disk Bytes) (body : Option SettingsInput) (io saved : Io) :
    Manager Bytes × Disk Bytes :=
  match g.op, body with
  | none, some input =>
    let next : Settings := ⟨input.channel, input.automaticChecks, input.automaticDownloads, false⟩
    let d := d.writeSettings next io
    if io.ok then
      if g.settings.channel ≠ next.channel then
        { g with settings := next }.change d (fun p =>
          { p with phase := .idle, available := none, staged := none, stagedSlot := none, lastCheck := none
                   lastError := none }) saved
      else ({ g with settings := next }, d)
    else (g, d)
  | _, _ => (g, d)

/-! ## Check -/

/-- What the release channels answer, and whether the build has a signing key. -/
structure Channels where
  configured : Bool
  stable : Except String (Option ReleaseManifest)
  beta : Except String (Option ReleaseManifest)

/-- `verify` ends with the manifest's validation. -/
def fetchManifest (answer : Except String (Option ReleaseManifest)) : Except String (Option ReleaseManifest) :=
  match answer with
  | .error e => .error e
  | .ok none => .ok none
  | .ok (some m) =>
    match m.validate P.toLibrary with
    | .error e => .error e.text
    | .ok () => .ok (some m)

def checkInner (g : Manager Bytes) (d : Disk Bytes) (c : Channels) : Except String (Option ReleaseManifest) := do
  if !c.configured then throw "this build has no OTA release signing key"
  let channel := g.settings.channel
  let stable ← fetchManifest P c.stable
  let beta ← if channel = .beta then fetchManifest P c.beta else pure none
  match P.parseVersion (P.version g.exe) with
  | none => throw "current build has an invalid version"
  | some current => selectCandidate P.toLibrary channel (P.version g.exe) current stable beta d.blocked

def checked (g : Manager Bytes) (d : Disk Bytes) (c : Channels) (now : Nat) (saved : Io) :
    Manager Bytes × Disk Bytes :=
  match g.op with
  | some .checking =>
    match checkInner P g d c with
    | .ok available =>
      { g with op := none }.change d (fun p =>
        { p with available := available, lastCheck := some now, lastError := none
                 phase := if p.staged.isSome then .staged else .idle }) saved
    | .error e => g.fail d e saved
  | _ => (g, d)

/-! ## Download -/

/-- The head of `download_inner`: the release on offer and the slot it goes to. -/
def downloadTarget (g : Manager Bytes) (d : Disk Bytes) (free : Except String Nat) :
    Except String (ReleaseManifest × Slot) :=
  match g.state.available with
  | none => .error "check for an update first"
  | some m =>
    match m.validate P.toLibrary with
    | .error e => .error e.text
    | .ok () =>
      let slot := (d.activeSlot.getD .a).other
      match free with
      | .error e => .error e
      | .ok available =>
        if available < m.size + requiredHeadroom then .error "not enough free storage for a safe update"
        else .ok (m, slot)

/-- `stream_verified_binary` and the probe, on what was received. -/
def received (m : ReleaseManifest) (answer : Except String Bytes) : Except String Bytes :=
  match answer with
  | .error e => .error e
  | .ok b =>
    if P.size b != m.size || m.sha256 != P.sha256 b then
      .error "download failed signed size or SHA-256 verification"
    else
      match probe P b m.version with
      | .error e => .error e
      | .ok () => .ok b

/-- What one step of a download is told: the free space, the bytes received, and how its
    file operation went. -/
structure DownloadTurn (Bytes : Type) where
  free : Except String Nat
  answer : Except String Bytes
  io : Io
  saved : Io

/-- The next stage, or the operation's failure. -/
def afterIo (g : Manager Bytes) (d : Disk Bytes) (error? : Option String) (stage : DownloadStage Bytes) (saved : Io) :
    Manager Bytes × Disk Bytes :=
  match error? with
  | none => (g.next (.downloading stage), d)
  | some e => g.fail d e saved

/-- `download_inner` from one file operation to the next. -/
def downloadStep (g : Manager Bytes) (d : Disk Bytes) (t : DownloadTurn Bytes) : Manager Bytes × Disk Bytes :=
  match g.op with
  | some (.downloading .begun) =>
    match g.downloadTarget P d t.free with
    | .ok (m, slot) => (g.next (.downloading (.fetching m slot)), d)
    | .error e => g.fail d e t.saved
  | some (.downloading (.fetching m slot)) =>
    match received P m t.answer with
    | .ok b => (g.next (.downloading (.swappingBinary m slot b)), d)
    | .error e => g.fail d e t.saved
  | some (.downloading (.swappingBinary m slot b)) =>
    let d := if t.io.effect then d.setSlot slot { d.slot slot with binary := some ⟨b, true⟩ } else d
    g.afterIo d t.io.error? (.swappingMeta m slot) t.saved
  | some (.downloading (.swappingMeta m slot)) =>
    let d := if t.io.effect then d.setSlot slot { d.slot slot with metadata := some (.written m) } else d
    g.afterIo d t.io.error? (.retiringDigest m slot) t.saved
  | some (.downloading (.retiringDigest m slot)) =>
    -- `remove_if_present` does not sync, so it fails without effect or not at all
    let io := Disk.clearIo (d.slot slot).bootstrapDigest.isSome t.io
    let d := if io.effect then d.setSlot slot { d.slot slot with bootstrapDigest := none } else d
    g.afterIo d (io.error?.map ("cannot retire bootstrap digest: " ++ ·)) (.staging m slot) t.saved
  | some (.downloading (.staging m slot)) =>
    { g with op := none }.change d (fun p =>
      { p with staged := some m, stagedSlot := some slot.asStr, phase := .staged, lastError := none }) t.saved
  | _ => (g, d)

/-! ## Install and rollback, up to the launch of the helper -/

/-- `install_inner` up to `launch_helper`, which it calls with the result. -/
def installCheck (g : Manager Bytes) (d : Disk Bytes) (supervisor : Io) : Disk Bytes × Except String Handover :=
  if d.inTrial then (d, .error "an agent health trial is already in progress")
  else
    let (d, repair) := ensureSupervisor d supervisor
    match repair with
    | some e => (d, .error ("update supervisor is not repairable: " ++ e))
    | none =>
      if !d.bootstrapReady then (d, .error "OTA bootstrap supervisor is not installed yet")
      else
        match g.state.staged with
        | none => (d, .error "download an update first")
        | some m =>
          match g.state.slot with
          | none => (d, .error "staged update slot is invalid")
          | some slot =>
            match d.activeSlot with
            | none => (d, .error "active OTA slot is missing")
            | some previous =>
              if slot = previous then (d, .error "staged update must be in the inactive slot")
              else
                match verifyStagedSlot P (d.slot slot) m with
                | .error e => (d, .error e)
                | .ok () =>
                  match verifyActiveSlot P (P.version g.exe) (d.slot previous) with
                  | .error e => (d, .error e)
                  | .ok () => (d, .ok ⟨slot, previous, m.version⟩)

def rollbackCheck (g : Manager Bytes) (d : Disk Bytes) (supervisor : Io) : Disk Bytes × Except String Handover :=
  if d.inTrial then (d, .error "an agent health trial is already in progress")
  else
    let (d, repair) := ensureSupervisor d supervisor
    match repair with
    | some e => (d, .error ("update supervisor is not repairable: " ++ e))
    | none =>
      match d.activeSlot with
      | none => (d, .error "active OTA slot is missing")
      | some active =>
        match verifyActiveSlot P (P.version g.exe) (d.slot active) with
        | .error e => (d, .error e)
        | .ok () =>
          let previous := active.other
          if g.state.slot = some previous then
            (d, .error "the inactive slot contains a staged update, not a rollback build")
          else
            match verifyRollbackSlot P (d.slot previous) with
            | .error e => (d, .error e)
            | .ok version => (d, .ok ⟨previous, active, version⟩)

/-- The launch, or the operation's failure; `other` is an error of something else the
    operation asks for (its own path). -/
def launchAfter (g : Manager Bytes) (check : Disk Bytes × Except String Handover) (other : Option String) (saved : Io) :
    Manager Bytes × Disk Bytes :=
  match check.2, other with
  | .ok l, none => (g.next (.launching l .clearReady), check.1)
  | .ok _, some e => g.fail check.1 e saved
  | .error e, _ => g.fail check.1 e saved

def preflight (g : Manager Bytes) (d : Disk Bytes) (supervisor : Io) (other : Option String) (saved : Io) :
    Manager Bytes × Disk Bytes :=
  match g.op with
  | some .installing => g.launchAfter (g.installCheck P d supervisor) other saved
  | some .rollingBack => g.launchAfter (g.rollbackCheck P d supervisor) other saved
  | _ => (g, d)

end Manager

/-! ## What the manager leaves alone

Outside the three swaps of a download the manager writes its state and settings, the boot
script and the handshake, never a build or a marker. -/

theorem keeps_ensureSupervisor (d : Disk Bytes) (io : Io) : d.Keeps (ensureSupervisor d io).1 :=
  ⟨rfl, rfl, rfl, rfl, rfl⟩

theorem keeps_startAgent (pid : Nat) (exe : Bytes) (trialEnv : Bool) (d : Disk Bytes) (s : Startup) :
    d.Keeps (startAgent pid exe trialEnv d s).2 := by
  unfold startAgent
  have hd : d.Keeps (if trialEnv then { d with helperReady := !s.prepared && d.helperReady }
      else (ensureSupervisor { d with helperReady := !s.prepared && d.helperReady } s.supervisor).1) := by
    cases trialEnv <;> exact ⟨rfl, rfl, rfl, rfl, rfl⟩
  dsimp only
  split
  · exact hd.trans (Disk.keeps_writeState _ _ _)
  · exact hd

theorem startAgent_fields (pid : Nat) (exe : Bytes) (trialEnv : Bool) (d : Disk Bytes) (s : Startup) :
    (startAgent pid exe trialEnv d s).1.op = none ∧ (startAgent pid exe trialEnv d s).1.exe = exe ∧
      (startAgent pid exe trialEnv d s).1.pid = pid := by
  unfold startAgent
  dsimp only
  split <;> exact ⟨rfl, rfl, rfl⟩

namespace Operation

/-- The operation has found no pending marker and relies on there being none. -/
def reliesOnClear : Operation Bytes → Bool
  | .downloading .begun => false
  | .downloading _ => true
  | .launching _ .clearReady => true
  | .launching _ .writePending => true
  | _ => false

/-- The operation has written the pending marker. -/
def handedOver : Operation Bytes → Bool
  | .launching _ .clearReady => false
  | .launching _ .writePending => false
  | .launching _ _ => true
  | _ => false

/-- The operation is at its first stage. -/
def begins : Operation Bytes → Bool
  | .checking | .downloading .begun | .installing | .rollingBack => true
  | _ => false

theorem of_begins {o : Operation Bytes} (h : o.begins) : o.reliesOnClear = false ∧ o.handedOver = false := by
  cases o with
  | downloading stage => cases stage <;> first | exact ⟨rfl, rfl⟩ | cases h
  | launching l stage => cases h
  | _ => exact ⟨rfl, rfl⟩

end Operation

namespace Manager

/-- What a step of the manager alone does to its operation: it comes to rely on the marker
    being absent only where it is, and never hands over. -/
structure Local (g g' : Manager Bytes) (d : Disk Bytes) : Prop where
  pid : g'.pid = g.pid
  clear : ∀ op, g'.op = some op → op.reliesOnClear → d.pending = none ∨ ∃ o, g.op = some o ∧ o.reliesOnClear
  handed : ∀ op, g'.op = some op → op.handedOver → g.op = some op

/-- The step at most ends the operation or begins another, and touches no build or marker. -/
structure Quiet (g g' : Manager Bytes) (d d' : Disk Bytes) : Prop where
  pid : g'.pid = g.pid
  op : g'.op = g.op ∨ ∀ o, g'.op = some o → o.begins
  keeps : d.Keeps d'

theorem Quiet.local {g g' : Manager Bytes} {d d' : Disk Bytes} (h : Quiet g g' d d') : Local g g' d := by
  rcases h.op with ho | ho
  · exact ⟨h.pid, fun op hop hr => .inr ⟨op, ho ▸ hop, hr⟩, fun op hop _ => ho ▸ hop⟩
  · refine ⟨h.pid, fun op hop hr => ?_, fun op hop hd => ?_⟩
    · simp [(Operation.of_begins (ho op hop)).1] at hr
    · simp [(Operation.of_begins (ho op hop)).2] at hd

theorem quiet_refl (g : Manager Bytes) (d : Disk Bytes) : Quiet g g d d := ⟨rfl, .inl rfl, .refl d⟩

theorem keeps_change (g : Manager Bytes) (d : Disk Bytes) (f : PersistentState → PersistentState) (saved : Io) :
    d.Keeps (g.change d f saved).2 := Disk.keeps_writeState _ _ _

theorem beginOp_quiet (g : Manager Bytes) (d : Disk Bytes) (phase : Phase) {o : Operation Bytes} (saved : Io)
    (ho : o.begins) : Quiet g (g.beginOp d phase o saved).1 d (g.beginOp d phase o saved).2 := by
  unfold beginOp
  split
  · exact quiet_refl g d
  · refine ⟨rfl, .inr fun o' h => ?_, keeps_change ..⟩
    obtain rfl := Option.some.inj h
    exact ho

theorem fail_quiet (g : Manager Bytes) (d : Disk Bytes) (error : String) (saved : Io) :
    Quiet g (g.fail d error saved).1 d (g.fail d error saved).2 :=
  ⟨rfl, .inr fun _ h => by simp [fail, change] at h, keeps_change ..⟩

theorem trialState_quiet (g : Manager Bytes) (d : Disk Bytes) (supervisor saved : Io) :
    Quiet g (g.trialState d supervisor saved).1 d (g.trialState d supervisor saved).2 := by
  unfold trialState
  split
  · exact ⟨rfl, .inl rfl, (keeps_ensureSupervisor d supervisor).trans (keeps_change ..)⟩
  · exact quiet_refl g d

theorem updateSettings_quiet (g : Manager Bytes) (d : Disk Bytes) (body : Option SettingsInput) (io saved : Io) :
    Quiet g (g.updateSettings d body io saved).1 d (g.updateSettings d body io saved).2 := by
  unfold updateSettings
  split
  · dsimp only
    split
    · split
      · exact ⟨rfl, .inl rfl, (Disk.keeps_writeSettings d _ io).trans (keeps_change ..)⟩
      · exact ⟨rfl, .inl rfl, Disk.keeps_writeSettings d _ io⟩
    · exact ⟨rfl, .inl rfl, Disk.keeps_writeSettings d _ io⟩
  · exact quiet_refl g d

theorem checked_quiet (g : Manager Bytes) (d : Disk Bytes) (c : Channels) (now : Nat) (saved : Io) :
    Quiet g (g.checked P d c now saved).1 d (g.checked P d c now saved).2 := by
  unfold checked
  split
  · split
    · exact ⟨rfl, .inr fun _ h => by simp [change] at h, keeps_change ..⟩
    · exact fail_quiet ..
  · exact quiet_refl g d

variable {d : Disk Bytes}

/-- The operation is over. -/
theorem ended {g g' : Manager Bytes} (hp : g'.pid = g.pid) (h : g'.op = none) : Local g g' d :=
  ⟨hp, fun op ho _ => by simp [h] at ho, fun op ho _ => by simp [h] at ho⟩

theorem fail_local (g : Manager Bytes) (d d' : Disk Bytes) (error : String) (saved : Io) :
    Local g (g.fail d' error saved).1 d := ended rfl rfl

theorem keeps_installCheck (g : Manager Bytes) (d : Disk Bytes) (io : Io) : d.Keeps (g.installCheck P d io).1 := by
  unfold installCheck
  split
  · exact .refl d
  · dsimp only
    repeat' split
    all_goals exact keeps_ensureSupervisor d io

theorem keeps_rollbackCheck (g : Manager Bytes) (d : Disk Bytes) (io : Io) : d.Keeps (g.rollbackCheck P d io).1 := by
  unfold rollbackCheck
  split
  · exact .refl d
  · dsimp only
    repeat' split
    all_goals exact keeps_ensureSupervisor d io

variable {g : Manager Bytes} {io : Io} {l : Handover}

/-- A launch is set up only with no trial in progress. -/
theorem clear_of_installCheck
    (h : (g.installCheck P d io).2 = .ok l) : d.pending = none := by
  unfold installCheck at h
  split at h
  · cases h
  · next hp => simpa [Disk.inTrial] using hp

theorem clear_of_rollbackCheck
    (h : (g.rollbackCheck P d io).2 = .ok l) : d.pending = none := by
  unfold rollbackCheck at h
  split at h
  · cases h
  · next hp => simpa [Disk.inTrial] using hp

/-- What an install that passes its checks is of: the staged release in the slot recorded
    for it, next to the active slot. -/
theorem installCheck_ok
    (h : (g.installCheck P d io).2 = .ok l) :
    d.activeSlot = some l.previous ∧ l.candidate = l.previous.other ∧ g.state.slot = some l.candidate ∧
      ∃ m, g.state.staged = some m ∧ l.version = m.version ∧ verifyStagedSlot P (d.slot l.candidate) m = .ok () := by
  unfold installCheck at h
  split at h
  · cases h
  dsimp only at h
  split at h
  · cases h
  split at h
  · cases h
  split at h
  · cases h
  next m hm =>
  split at h
  · cases h
  next slot hslot =>
  split at h
  · cases h
  next previous hprev =>
  split at h
  · cases h
  next hne =>
  split at h
  · cases h
  next hv =>
  split at h
  · cases h
  cases h
  exact ⟨hprev, Slot.ne_iff_other.mp hne, hslot, m, hm, rfl, hv⟩

/-- What a rollback that passes its checks goes to: the other slot, not recorded as staged,
    under the version its files give. -/
theorem rollbackCheck_ok
    (h : (g.rollbackCheck P d io).2 = .ok l) :
    d.activeSlot = some l.previous ∧ l.candidate = l.previous.other ∧ g.state.slot ≠ some l.candidate ∧
      verifyRollbackSlot P (d.slot l.candidate) = .ok l.version := by
  unfold rollbackCheck at h
  split at h
  · cases h
  dsimp only at h
  split at h
  · cases h
  split at h
  · cases h
  next active hactive =>
  split at h
  · cases h
  split at h
  · cases h
  next hrec =>
  split at h
  · cases h
  next version hv =>
  cases h
  exact ⟨hactive, rfl, hrec, hv⟩

theorem launchAfter_spec {check : Disk Bytes × Except String Handover}
    {other : Option String} {saved : Io} (hk : d.Keeps check.1) (hc : ∀ l, check.2 = .ok l → d.pending = none) :
    Local g (g.launchAfter check other saved).1 d ∧ d.Keeps (g.launchAfter check other saved).2 := by
  unfold launchAfter
  cases hl : check.2 with
  | error e => exact ⟨fail_local .., hk.trans (fail_quiet ..).keeps⟩
  | ok l =>
    cases other with
    | some e => exact ⟨fail_local .., hk.trans (fail_quiet ..).keeps⟩
    | none =>
      refine ⟨⟨rfl, fun _ _ _ => .inl (hc l hl), fun op ho hh => ?_⟩, hk⟩
      obtain rfl := Option.some.inj ho
      cases hh

theorem preflight_spec (g : Manager Bytes) (d : Disk Bytes) (supervisor : Io) (other : Option String) (saved : Io) :
    Local g (g.preflight P d supervisor other saved).1 d ∧ d.Keeps (g.preflight P d supervisor other saved).2 := by
  unfold preflight
  split
  · exact launchAfter_spec (keeps_installCheck P g d supervisor) fun _ => clear_of_installCheck P
  · exact launchAfter_spec (keeps_rollbackCheck P g d supervisor) fun _ => clear_of_rollbackCheck P
  · exact ⟨(quiet_refl g d).local, .refl d⟩

/-- After its checks the manager launches, with what they passed, or is done. -/
theorem preflight_launching {g g' : Manager Bytes} {supervisor : Io} {other : Option String}
    {saved : Io} (h : (g.preflight P d supervisor other saved).1 = g') :
    g'.op = g.op ∨ g'.op = none ∨ ∃ l, g'.op = some (.launching l .clearReady) ∧
      (g.op = some .installing ∧ (g.installCheck P d supervisor).2 = .ok l ∨
        g.op = some .rollingBack ∧ (g.rollbackCheck P d supervisor).2 = .ok l) := by
  have after : ∀ check : Disk Bytes × Except String Handover, (g.launchAfter check other saved).1 = g' →
      g'.op = none ∨ ∃ l, g'.op = some (.launching l .clearReady) ∧ check.2 = .ok l := by
    intro check hc
    unfold launchAfter at hc
    cases hl : check.2 with
    | error e => rw [hl] at hc; exact .inl (by rw [← hc]; rfl)
    | ok l =>
      rw [hl] at hc
      cases other with
      | some e => exact .inl (by rw [← hc]; rfl)
      | none => exact .inr ⟨l, by rw [← hc]; rfl, rfl⟩
  unfold preflight at h
  split at h
  · next ho =>
    rcases after _ h with h' | ⟨l, h', hl⟩
    · exact .inr (.inl h')
    · exact .inr (.inr ⟨l, h', .inl ⟨ho, hl⟩⟩)
  · next ho =>
    rcases after _ h with h' | ⟨l, h', hl⟩
    · exact .inr (.inl h')
    · exact .inr (.inr ⟨l, h', .inr ⟨ho, hl⟩⟩)
  · exact .inl (by rw [← h])

/-! ## What a download changes -/

/-- The manager is about to choose the slot its download goes to. -/
def picksSlot (g : Manager Bytes) : Bool :=
  match g.op with
  | some (.downloading .begun) => true
  | _ => false

/-- The slot a download has chosen and writes next. -/
def writesSlot (g : Manager Bytes) : Option Slot :=
  match g.op with
  | some (.downloading (.swappingBinary _ s _)) => some s
  | some (.downloading (.swappingMeta _ s)) => some s
  | some (.downloading (.retiringDigest _ s)) => some s
  | _ => none

/-- A download goes to the slot the active marker does not name. -/
theorem downloadTarget_slot {free : Except String Nat} {m : ReleaseManifest}
    {s : Slot} (h : g.downloadTarget P d free = .ok (m, s)) : s = (d.activeSlot.getD .a).other := by
  unfold downloadTarget at h
  split at h
  · cases h
  split at h
  · cases h
  dsimp only at h
  split at h
  · cases h
  split at h
  · cases h
  exact (Prod.mk.inj (Except.ok.inj h)).2.symm

theorem afterIo_spec {d d' : Disk Bytes} {o : DownloadStage Bytes} {error? : Option String}
    {stage : DownloadStage Bytes} {saved : Io} (ho : g.op = some (.downloading o))
    (hr : (Operation.downloading o).reliesOnClear) :
    Local g (g.afterIo d' error? stage saved).1 d ∧ d'.Keeps (g.afterIo d' error? stage saved).2 := by
  unfold afterIo
  split
  · refine ⟨⟨rfl, fun _ _ _ => .inr ⟨_, ho, hr⟩, fun op hop hh => ?_⟩, .refl _⟩
    obtain rfl := Option.some.inj hop
    cases hh
  · exact ⟨fail_local .., (fail_quiet ..).keeps⟩

/-- One step of a download touches no marker, and no slot but the one it has chosen. -/
theorem downloadStep_spec (g : Manager Bytes) (d : Disk Bytes) (t : DownloadTurn Bytes)
    (hc : g.picksSlot → d.pending = none) :
    Local g (g.downloadStep P d t).1 d ∧
      ∃ d', d'.Keeps (g.downloadStep P d t).2 ∧
        (d' = d ∨ ∃ s dir, g.writesSlot = some s ∧ d' = d.setSlot s dir) := by
  unfold downloadStep
  split
  · next ho =>
    have hp : d.pending = none := hc (by simp [picksSlot, ho])
    split
    · refine ⟨⟨rfl, fun _ _ _ => .inl hp, fun op hop hh => ?_⟩, d, .refl d, .inl rfl⟩
      obtain rfl := Option.some.inj hop
      cases hh
    · exact ⟨fail_local .., d, (fail_quiet ..).keeps, .inl rfl⟩
  · next ho =>
    split
    · refine ⟨⟨rfl, fun _ _ _ => .inr ⟨_, ho, rfl⟩, fun op hop hh => ?_⟩, d, .refl d, .inl rfl⟩
      obtain rfl := Option.some.inj hop
      cases hh
    · exact ⟨fail_local .., d, (fail_quiet ..).keeps, .inl rfl⟩
  · next ho =>
    refine ⟨(afterIo_spec ho rfl).1, _, (afterIo_spec (d := d) ho rfl).2, ?_⟩
    split
    · exact .inr ⟨_, _, by simp [writesSlot, ho], rfl⟩
    · exact .inl rfl
  · next ho =>
    refine ⟨(afterIo_spec ho rfl).1, _, (afterIo_spec (d := d) ho rfl).2, ?_⟩
    split
    · exact .inr ⟨_, _, by simp [writesSlot, ho], rfl⟩
    · exact .inl rfl
  · next ho =>
    refine ⟨(afterIo_spec ho rfl).1, _, (afterIo_spec (d := d) ho rfl).2, ?_⟩
    split
    · exact .inr ⟨_, _, by simp [writesSlot, ho], rfl⟩
    · exact .inl rfl
  · exact ⟨ended rfl rfl, d, keeps_change .., .inl rfl⟩
  · exact ⟨(quiet_refl g d).local, d, .refl d, .inl rfl⟩

end Manager

end OpenU60.Ota
