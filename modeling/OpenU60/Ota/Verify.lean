/-
  OpenU60.Ota.Verify — the checks a build passes before the agent starts it or rests a
  trial on it (`ota/mod.rs`: `probe` and the `verify_*` functions).

  Each is a function of the directory it looks at. `verifyReleaseBinary_ok` and
  `verifyBootstrapSlot_ok` say what a passed check means; the trial modules use nothing
  else of this one.
-/

import OpenU60.Ota.Storage

namespace OpenU60.Ota

open OpenU60.Lib

variable {Bytes : Type} (P : Platform Bytes)

def probeCli (b : Bytes) (expected : String) : Bool := expected == P.version b && P.target b == releaseTarget

def probe (b : Bytes) (expected : String) : Except String Unit :=
  match P.startError b with
  | some e => .error ("downloaded agent cannot run: " ++ e)
  | none => if probeCli P b expected then .ok () else .error "downloaded agent failed its compatibility probe"

def missingFile : String := "No such file or directory (os error 2)"

def verifyFileIntegrity (binary : Option (Binary Bytes)) (expectedSize : Nat) (expectedSha256 : String) :
    Except String Bytes :=
  match binary with
  | none => .error ("update binary is missing: " ++ missingFile)
  | some file =>
    if P.size file.bytes != expectedSize then .error "update binary size no longer matches the signed manifest"
    else if expectedSha256 != P.sha256 file.bytes then
      .error "update binary SHA-256 no longer matches the signed manifest"
    else .ok file.bytes

/-- The check of a build against its manifest, with the build it passed. -/
def verifyReleaseBinary (binary : Option (Binary Bytes)) (m : ReleaseManifest) : Except String Bytes :=
  match m.validate P.toLibrary with
  | .error e => .error e.text
  | .ok () =>
    if !Disk.executable binary then .error "update binary is not executable"
    else
      match verifyFileIntegrity P binary m.size m.sha256 with
      | .error e => .error e
      | .ok b =>
        match probe P b m.version with
        | .error e => .error e
        | .ok () => .ok b

/-- `str::lines` also takes the carriage return of a line end. -/
def textLine (n : Nat) (cs : List Char) : List Char :=
  let l := line n cs
  if l.getLast? = some '\r' then l.dropLast else l

def verifyBootstrapSlot (dir : SlotDir Bytes) (expectedVersion : Option String) : Except String String :=
  match dir.bootstrapDigest with
  | none => .error ("bootstrap digest is unreadable: " ++ missingFile)
  | some identity =>
    let sha256 := String.ofList (textLine 0 identity)
    let version := String.ofList (textLine 1 identity)
    if !isSha256 sha256 || (P.parseVersion version).isNone then .error "bootstrap identity is malformed"
    else if expectedVersion.any (· != version) then .error "bootstrap identity does not match the running agent"
    else if !Disk.executable dir.binary then .error "bootstrap binary is not executable"
    else
      let size := (dir.binary.map fun f => P.size f.bytes).getD 0
      match verifyFileIntegrity P dir.binary size sha256 with
      | .error e => .error e
      | .ok b =>
        match probe P b version with
        | .error e => .error e
        | .ok () => .ok version

def readJson (dir : SlotDir Bytes) : Option ReleaseManifest := dir.metadata.bind (·.json)

def verifyStagedSlot (dir : SlotDir Bytes) (m : ReleaseManifest) : Except String Unit :=
  match readJson dir with
  | none => .error "staged update metadata is missing or corrupted"
  | some stored =>
    if stored ≠ m then .error "staged update metadata changed after download"
    else
      match verifyReleaseBinary P dir.binary m with
      | .error e => .error ("staged update failed preflight verification: " ++ e)
      | .ok _ => .ok ()

/-- `running` is the version of the agent that asks. -/
def verifyActiveSlot (running : String) (dir : SlotDir Bytes) : Except String Unit :=
  match readJson dir with
  | some m =>
    if m.version != running then .error "active rollback slot metadata does not match the running agent"
    else
      match verifyReleaseBinary P dir.binary m with
      | .error e => .error ("active rollback slot failed preflight verification: " ++ e)
      | .ok _ => .ok ()
  | none =>
    if dir.bootstrapDigest.isSome then
      match verifyBootstrapSlot P dir (some running) with
      | .error e => .error ("active bootstrap slot failed preflight verification: " ++ e)
      | .ok _ => .ok ()
    else
      match dir.binary with
      | none => .error "active rollback slot is missing"
      | some file =>
        if !file.executable then .error "active rollback slot is missing"
        else
          match probe P file.bytes running with
          | .error e => .error ("active rollback slot failed preflight verification: " ++ e)
          | .ok () => .ok ()

/-- The version a rollback to the slot goes by. -/
def verifyRollbackSlot (dir : SlotDir Bytes) : Except String String :=
  match readJson dir with
  | some m =>
    match verifyReleaseBinary P dir.binary m with
    | .error e => .error ("rollback slot failed preflight verification: " ++ e)
    | .ok _ => .ok m.version
  | none =>
    if dir.bootstrapDigest.isSome then
      match verifyBootstrapSlot P dir none with
      | .error e => .error ("rollback bootstrap slot failed preflight: " ++ e)
      | .ok version => .ok version
    else if Disk.executable dir.binary then .ok "bootstrap-slot"
    else .error "no previous agent slot is available"

/-! ## What a passed check says -/

variable {P}

theorem verifyFileIntegrity_ok {binary : Option (Binary Bytes)} {n : Nat} {sha : String} {b : Bytes}
    (h : verifyFileIntegrity P binary n sha = .ok b) :
    (∃ f, binary = some f ∧ f.bytes = b) ∧ P.size b = n ∧ P.sha256 b = sha := by
  unfold verifyFileIntegrity at h
  split at h
  · cases h
  · next file =>
    split at h
    · cases h
    · next hsize =>
      split at h
      · cases h
      · next hsha =>
        cases h
        have hsha' : sha = P.sha256 file.bytes := by simpa using hsha
        exact ⟨⟨file, rfl, rfl⟩, by simpa using hsize, hsha'.symm⟩

theorem verifyReleaseBinary_ok {binary : Option (Binary Bytes)} {m : ReleaseManifest} {b : Bytes}
    (h : verifyReleaseBinary P binary m = .ok b) :
    (∃ f, binary = some f ∧ f.bytes = b ∧ f.executable = true) ∧ P.size b = m.size ∧ P.sha256 b = m.sha256 ∧
      probe P b m.version = .ok () := by
  unfold verifyReleaseBinary at h
  split at h
  · cases h
  split at h
  · cases h
  next hx =>
  split at h
  · cases h
  next b' hint =>
  split at h
  · cases h
  next hprobe =>
  cases h
  obtain ⟨⟨f, rfl, hf⟩, hs, hd⟩ := verifyFileIntegrity_ok hint
  exact ⟨⟨f, rfl, hf, by simpa [Disk.executable] using hx⟩, hs, hd, hprobe⟩

theorem verifyBootstrapSlot_ok {dir : SlotDir Bytes} {expected : Option String} {v : String}
    (h : verifyBootstrapSlot P dir expected = .ok v) :
    ∃ text f, dir.bootstrapDigest = some text ∧ v = String.ofList (textLine 1 text) ∧ dir.binary = some f ∧
      f.executable = true ∧ P.sha256 f.bytes = String.ofList (textLine 0 text) ∧ probe P f.bytes v = .ok () := by
  unfold verifyBootstrapSlot at h
  split at h
  · cases h
  next text htext =>
  dsimp only at h
  split at h
  · cases h
  split at h
  · cases h
  split at h
  · cases h
  next hx =>
  split at h
  · cases h
  next b hint =>
  split at h
  · cases h
  next hprobe =>
  cases h
  obtain ⟨⟨f, hf, rfl⟩, -, hd⟩ := verifyFileIntegrity_ok hint
  exact ⟨text, f, htext, rfl, hf, by simpa [Disk.executable, hf] using hx, hd, hprobe⟩

end OpenU60.Ota
