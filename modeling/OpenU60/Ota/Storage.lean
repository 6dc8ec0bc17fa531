/-
  OpenU60.Ota.Storage — the update directory (`zte-agent/src/ota/storage.rs`) and the
  state the manager keeps in it (`ota/mod.rs`).

  Two programs read the marker files, each in its own way, so they are text here: the
  agent trims a marker whole, the boot script reads its first lines. A release's metadata
  is read by the agent as JSON and by the script with three `sed` expressions; `Metadata`
  has both readings of one file, and `Metadata.written` is the file the agent writes.

  The temporary files a download goes through and the log are left out: no check reads
  them.
-/

import OpenU60.Ota.Manifest

namespace OpenU60.Ota

open OpenU60.Lib

inductive Slot where
  | a
  | b
  deriving DecidableEq, Repr

namespace Slot

def asStr : Slot → List Char
  | a => ['a']
  | b => ['b']

def other : Slot → Slot
  | a => b
  | b => a

def parse (value : List Char) : Option Slot :=
  match Text.trim value with
  | ['a'] => some a
  | ['b'] => some b
  | _ => none

@[simp] theorem other_other (s : Slot) : s.other.other = s := by cases s <;> rfl

@[simp] theorem other_ne (s : Slot) : s.other ≠ s := by cases s <;> decide

@[simp] theorem ne_other (s : Slot) : s ≠ s.other := by cases s <;> decide

theorem eq_or_other (s t : Slot) : t = s ∨ t = s.other := by cases s <;> cases t <;> decide

theorem ne_iff_other {s t : Slot} : t ≠ s ↔ t = s.other := by cases s <;> cases t <;> decide

end Slot

/-- What a binary file is, and what running it does: its length and digest, why it cannot
    be started here (if it cannot), and the version and target it was compiled for. -/
structure Platform (Bytes : Type) extends Library where
  size : Bytes → Nat
  sha256 : Bytes → String
  startError : Bytes → Option String
  version : Bytes → String
  target : Bytes → String

/-! ## Settings and state -/

structure Settings where
  channel : Channel
  automaticChecks : Bool
  automaticDownloads : Bool
  automaticInstall : Bool
  deriving DecidableEq

def Settings.default : Settings := ⟨.stable, true, false, false⟩

inductive Phase where
  | idle
  | checking
  | downloading
  | staged
  | installing
  | rollingBack
  | failed
  deriving DecidableEq

structure PersistentState where
  phase : Phase
  available : Option ReleaseManifest
  staged : Option ReleaseManifest
  stagedSlot : Option (List Char)
  lastCheck : Option Nat
  lastError : Option String
  deriving DecidableEq

namespace PersistentState

def default : PersistentState := ⟨.idle, none, none, none, none, none⟩

/-- The slot `staged_slot` names. -/
def slot (p : PersistentState) : Option Slot := p.stagedSlot.bind Slot.parse

end PersistentState

/-! ## Files -/

/-- How a file operation went. A write that could not sync its directory has taken
    effect and is still reported as failed. -/
inductive Io where
  | done
  | unsynced (error : String)
  | failed (error : String)
  deriving DecidableEq

namespace Io

def effect : Io → Bool
  | failed _ => false
  | _ => true

def error? : Io → Option String
  | done => none
  | unsynced e | failed e => some e

def ok (io : Io) : Bool := io.error?.isNone

theorem effect_of_ok {io : Io} (h : io.ok) : io.effect := by
  cases io <;> simp_all [ok, error?, effect]

end Io

structure Binary (Bytes : Type) where
  bytes : Bytes
  executable : Bool

/-- A `release.json`: what serde makes of it, and what the script's expressions extract. -/
structure Metadata where
  json : Option ReleaseManifest
  version : String
  size : String
  sha256 : String

def Metadata.written (m : ReleaseManifest) : Metadata := ⟨some m, m.version, toString m.size, m.sha256⟩

structure SlotDir (Bytes : Type) where
  binary : Option (Binary Bytes)
  metadata : Option Metadata
  bootstrapDigest : Option (List Char)

inductive Target where
  | slot (s : Slot)
  | stable
  deriving DecidableEq

/-- `blocked` is the list in `blocked.json`. The script looks for a version between double
    quotes in that file's text, which no version contains: for it too this is membership. -/
structure Disk (Bytes : Type) where
  settings : Option Settings
  state : Option PersistentState
  active : Option (List Char)
  pending : Option (List Char)
  helperReady : Bool
  blocked : List String
  supervisor : Bool
  legacyLink : Option Target
  slot : Slot → SlotDir Bytes
  stable : SlotDir Bytes

/-- A line of a text, empty past its end. -/
def line : Nat → List Char → List Char
  | 0, cs => cs.takeWhile (· != '\n')
  | n + 1, cs => line n ((cs.dropWhile (· != '\n')).drop 1)

variable {Bytes : Type}

namespace Disk

def activeSlot (d : Disk Bytes) : Option Slot := d.active.bind Slot.parse

/-- Whether the pending marker exists. -/
def inTrial (d : Disk Bytes) : Bool := d.pending.isSome

def executable (b : Option (Binary Bytes)) : Bool := b.any (·.executable)

@[simps] def setSlot (d : Disk Bytes) (s : Slot) (dir : SlotDir Bytes) : Disk Bytes :=
  { d with slot := Function.update d.slot s dir }

def bootstrapReady (d : Disk Bytes) : Bool :=
  d.activeSlot.any (fun s => executable (d.slot s).binary) && d.supervisor

def markerText (s : Slot) : List Char := s.asStr ++ ['\n']

def rescueText : List Char := "rescue\n".toList

@[simps] def writeActive (d : Disk Bytes) (s : Slot) (io : Io) : Disk Bytes :=
  { d with active := if io.effect then some (markerText s) else d.active }

@[simps] def writeRescue (d : Disk Bytes) (io : Io) : Disk Bytes :=
  { d with active := if io.effect then some rescueText else d.active }

def pendingText (candidate previous : Slot) (version : List Char) : List Char :=
  candidate.asStr ++ '\n' :: (previous.asStr ++ '\n' :: (version ++ ['\n']))

/-- `write_pending` refuses a version that spans lines before it touches the file. -/
def pendingIo (version : String) (io : Io) : Io :=
  if version.toList.contains '\n' || version.toList.contains '\r' then .failed "invalid version" else io

@[simps] def writePending (d : Disk Bytes) (candidate previous : Slot) (version : String) (io : Io) : Disk Bytes :=
  { d with
    pending := if (pendingIo version io).effect then some (pendingText candidate previous version.toList)
      else d.pending }

/-- Removing a marker that is not there is no failure. -/
def clearIo (present : Bool) (io : Io) : Io := if present then io else .done

@[simps] def clearPending (d : Disk Bytes) (io : Io) : Disk Bytes :=
  { d with pending := if io.effect then none else d.pending }

@[simps] def clearHelperReady (d : Disk Bytes) (io : Io) : Disk Bytes :=
  { d with helperReady := !io.effect && d.helperReady }

@[simps] def writeHelperReady (d : Disk Bytes) (io : Io) : Disk Bytes :=
  { d with helperReady := io.effect || d.helperReady }

@[simps] def pointLegacyLink (d : Disk Bytes) (t : Target) (io : Io) : Disk Bytes :=
  { d with legacyLink := if io.effect then some t else d.legacyLink }

@[simps] def writeState (d : Disk Bytes) (p : PersistentState) (io : Io) : Disk Bytes :=
  { d with state := if io.effect then some p else d.state }

@[simps] def writeSettings (d : Disk Bytes) (s : Settings) (io : Io) : Disk Bytes :=
  { d with settings := if io.effect then some s else d.settings }

/-- Nothing that decides which build runs has changed. -/
structure Keeps (d d' : Disk Bytes) : Prop where
  slot : d'.slot = d.slot
  stable : d'.stable = d.stable
  active : d'.active = d.active
  pending : d'.pending = d.pending
  blocked : d'.blocked = d.blocked

theorem Keeps.refl (d : Disk Bytes) : Keeps d d := ⟨rfl, rfl, rfl, rfl, rfl⟩

theorem Keeps.trans {d d' d'' : Disk Bytes} (h : Keeps d d') (h' : Keeps d' d'') : Keeps d d'' :=
  ⟨h'.slot.trans h.slot, h'.stable.trans h.stable, h'.active.trans h.active, h'.pending.trans h.pending,
    h'.blocked.trans h.blocked⟩

theorem keeps_writeState (d : Disk Bytes) (p : PersistentState) (io : Io) : Keeps d (d.writeState p io) :=
  ⟨rfl, rfl, rfl, rfl, rfl⟩

theorem keeps_writeSettings (d : Disk Bytes) (s : Settings) (io : Io) : Keeps d (d.writeSettings s io) :=
  ⟨rfl, rfl, rfl, rfl, rfl⟩

end Disk

/-! ## What the markers read as -/

theorem Slot.parse_markerText (s : Slot) : Slot.parse (Disk.markerText s) = some s := by cases s <;> decide

theorem Slot.parse_rescueText : Slot.parse Disk.rescueText = none := by decide

theorem line_pendingText (candidate previous : Slot) (v : List Char) :
    line 0 (Disk.pendingText candidate previous v) = candidate.asStr ∧
      line 1 (Disk.pendingText candidate previous v) = previous.asStr := by
  cases candidate <;> cases previous <;> simp [line, Disk.pendingText, Slot.asStr]

end OpenU60.Ota
