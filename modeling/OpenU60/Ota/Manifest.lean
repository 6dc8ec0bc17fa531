/-
  OpenU60.Ota.Manifest — release manifests (`zte-agent/src/ota/manifest.rs`): their
  validation, and which release a check offers (`select_candidate`).

  The version and URL parsers are libraries of other crates and come in as `Library`,
  with the order of versions. Signature checking is not here: a fetched manifest is one
  whose envelope verified.
-/

import Mathlib
import OpenU60.Lib.Text

namespace OpenU60.Ota

open OpenU60.Lib

/-- A semantic version; `pre` is its pre-release part. -/
structure Version where
  major : Nat
  minor : Nat
  patch : Nat
  pre : String
  build : String
  deriving DecidableEq

structure Url where
  scheme : String
  host : Option String
  username : String
  password : Option String
  path : String
  query : Option String
  fragment : Option String
  deriving DecidableEq

/-- The version and URL parsers, and the total order of versions. -/
structure Library where
  parseVersion : String → Option Version
  versionLe : Version → Version → Bool
  parseUrl : String → Option Url

inductive Channel where
  | stable
  | beta
  deriving DecidableEq

structure ReleaseManifest where
  schema : Nat
  channel : Channel
  version : String
  tag : String
  commit : String
  target : String
  size : Nat
  sha256 : String
  binaryUrl : String
  notesUrl : String
  publishedAt : String
  minimumUpdaterVersion : String
  deriving DecidableEq

inductive ManifestError where
  | unsupportedManifestSchema
  | invalidVersion
  | invalidMinimumVersion
  | tagMismatch
  | channelMismatch
  | wrongTarget
  | invalidSize
  | invalidDigest
  | invalidCommit
  | invalidPublishedAt
  | invalidUrl
  deriving DecidableEq

def ManifestError.text : ManifestError → String
  | .unsupportedManifestSchema => "unsupported release manifest schema"
  | .invalidVersion => "invalid release version"
  | .invalidMinimumVersion => "invalid minimum updater version"
  | .tagMismatch => "release tag does not match its version"
  | .channelMismatch => "release channel does not match its version"
  | .wrongTarget => "release is for a different target"
  | .invalidSize => "release binary size is outside the accepted range"
  | .invalidDigest => "release digest is invalid"
  | .invalidCommit => "release commit is invalid"
  | .invalidPublishedAt => "release publication time is invalid"
  | .invalidUrl => "release URL is not an allowed immutable GitHub URL"

def maxBinaryBytes : Nat := 32 * 1024 * 1024
def releaseTarget : String := "aarch64-unknown-linux-musl"

/-- `is_ascii_hexdigit` and, for a digest, not upper case. -/
def isHex (upper : Bool) (c : Char) : Bool := (Text.digitVal 16 c).isSome && (upper || !('A' ≤ c && c ≤ 'F'))

/-- 64 lower-case hexadecimal digits. -/
def isSha256 (s : String) : Bool := Text.byteLen s.toList == 64 && s.toList.all (isHex false)

variable (L : Library)

def validateReleaseUrl (value tag : String) (binary : Bool) : Except ManifestError Unit :=
  match L.parseUrl value with
  | none => .error .invalidUrl
  | some url =>
    if url.scheme != "https" || url.host != some "github.com" || url.username != "" || url.password.isSome ||
        url.query.isSome || url.fragment.isSome then
      .error .invalidUrl
    else
      let expected :=
        if binary then "/jesther-ai/open-u60-pro/releases/download/" ++ tag ++ "/zte-agent"
        else "/jesther-ai/open-u60-pro/releases/tag/" ++ tag
      if url.path != expected then .error .invalidUrl else .ok ()

namespace ReleaseManifest

def semver (m : ReleaseManifest) : Except ManifestError Version :=
  match L.parseVersion m.version with
  | some v => .ok v
  | none => .error .invalidVersion

def minimumUpdaterSemver (m : ReleaseManifest) : Except ManifestError Version :=
  match L.parseVersion m.minimumUpdaterVersion with
  | some v => .ok v
  | none => .error .invalidMinimumVersion

def channelMatches (m : ReleaseManifest) (version : Version) : Bool :=
  match m.channel with
  | .stable => version.pre == ""
  | .beta => version.pre.toList.takeWhile (· != '.') == "beta".toList

def validate (m : ReleaseManifest) : Except ManifestError Unit := do
  if m.schema != 1 then throw .unsupportedManifestSchema
  let version ← m.semver L
  if m.tag != "v" ++ m.version then throw .tagMismatch
  if !m.channelMatches version then throw .channelMismatch
  if m.target != releaseTarget then throw .wrongTarget
  if !(decide (1024 ≤ m.size) && decide (m.size ≤ maxBinaryBytes)) then throw .invalidSize
  if !isSha256 m.sha256 then throw .invalidDigest
  let commit := m.commit.toList
  if !(decide (7 ≤ Text.byteLen commit) && decide (Text.byteLen commit ≤ 64)) || !commit.all (isHex true) then
    throw .invalidCommit
  if m.publishedAt.toList.isEmpty || decide (64 < Text.byteLen m.publishedAt.toList) then throw .invalidPublishedAt
  let _ ← m.minimumUpdaterSemver L
  validateReleaseUrl L m.binaryUrl m.tag true
  validateReleaseUrl L m.notesUrl m.tag false

end ReleaseManifest

/-! ## What a check offers -/

def newer (v current : Version) : Bool := !L.versionLe v current

/-- The order of `Option<Version>`: nothing comes before a version. -/
def semverLe (a b : ReleaseManifest) : Bool :=
  match a.semver L, b.semver L with
  | .error _, _ => true
  | .ok _, .error _ => false
  | .ok v, .ok w => L.versionLe v w

/-- `running` is the version the agent was built with, `current` the same parsed. -/
def selectCandidate (channel : Channel) (running : String) (current : Version) (stable beta : Option ReleaseManifest)
    (blocked : List String) : Except String (Option ReleaseManifest) := do
  let candidate ← (match channel with
    | .stable =>
      match stable with
      | none => .ok none
      | some stable =>
        match stable.semver L with
        | .error e => .error e.text
        | .ok version =>
          -- leaving Beta returns to the newest Stable, even an older one
          .ok (if stable.version != running && !blocked.contains stable.version &&
              (newer L version current || current.pre != "") then some stable else none)
    | .beta =>
      let releases := (stable.toList ++ beta.toList).insertionSort fun a b => semverLe L a b
      let offered := (releases.filter fun r => !blocked.contains r.version).filter fun r =>
        match r.semver L with
        | .ok version => newer L version current
        | .error _ => false
      .ok offered.getLast? : Except String (Option ReleaseManifest))
  match candidate with
  | none => return none
  | some release =>
    match release.minimumUpdaterSemver L with
    | .error e => throw e.text
    | .ok minimum =>
      if newer L minimum current then
        throw (release.version ++ " requires updater " ++ release.minimumUpdaterVersion ++ " or newer")
      else return some release

end OpenU60.Ota
