/-
  OpenU60.Ota.Select — which release a check offers (`zte-agent/src/ota/mod.rs`, `select_candidate`).

  `Eligible` is what a release needs but for the updater: it is not blocked, not the running one and not
  older, except when a pre-release is left for Stable. What is asked for is where the release is from:
  Stable reads its own pointer, Beta both, whatever channel a manifest names. `candidate_greatest`: a
  check offers the greatest eligible release, nothing only if there is none, and if that release needs a
  newer updater it fails and says so; it does not fall back to a lesser one (`updater_not_passed_over`).
-/

import Mathlib
import OpenU60.Ota.Manifest

namespace OpenU60.Ota

open OpenU60.Lib

/-- What the version library promises: a total order, and one text for each version. -/
structure Library.Lawful (L : Library) : Prop where
  total : ∀ v w, L.versionLe v w = true ∨ L.versionLe w v = true
  trans : ∀ {u v w}, L.versionLe u v = true → L.versionLe v w = true → L.versionLe u w = true
  antisymm : ∀ {v w}, L.versionLe v w = true → L.versionLe w v = true → v = w
  parse_inj : ∀ {s t v}, L.parseVersion s = some v → L.parseVersion t = some v → s = t

/-- What the pointers of the channel gave. -/
def entries (channel : Channel) (stable beta : Option ReleaseManifest) : List ReleaseManifest :=
  match channel with
  | .stable => stable.toList
  | .beta => stable.toList ++ beta.toList

/-- What a release needs, but for the updater. -/
def Eligible (L : Library) (channel : Channel) (running : String) (current : Version) (blocked : List String) (m : ReleaseManifest) : Prop :=
  m.version ∉ blocked ∧ m.version ≠ running ∧
    ∃ v, L.parseVersion m.version = some v ∧ (L.versionLe current v = true ∨ channel = .stable ∧ current.pre ≠ "")

/-- The updater it needs is no newer than the running one. -/
def UpdaterSuffices (L : Library) (current : Version) (m : ReleaseManifest) : Prop :=
  ∃ v, L.parseVersion m.minimumUpdaterVersion = some v ∧ L.versionLe v current = true

/-- Greatest of those eligible among the entries. -/
def Greatest (L : Library) (channel : Channel) (running : String) (current : Version) (blocked : List String) (releases : List ReleaseManifest)
    (m : ReleaseManifest) : Prop :=
  m ∈ releases ∧ Eligible L channel running current blocked m ∧
    ∀ e ∈ releases, Eligible L channel running current blocked e → semverLe L e m = true

section

variable {L : Library} (hL : L.Lawful) {channel : Channel} {running : String} {current : Version} {blocked : List String}

theorem semver_ok {m : ReleaseManifest} {v : Version} (h : L.parseVersion m.version = some v) : m.semver L = .ok v := by
  simp [ReleaseManifest.semver, h]

include hL

theorem newer_le {v w : Version} (h : newer L v w = true) : L.versionLe w v = true := by
  rcases hL.total v w with hle | hle
  · simp [newer, hle] at h
  · exact hle

/-- Another release of the order's is a newer one. -/
theorem newer_of_ne {v : Version} {text : String} (hparse : L.parseVersion text = some v) (hrunning : L.parseVersion running = some current)
    (hne : text ≠ running) (hle : L.versionLe current v = true) : newer L v current = true := by
  cases hback : L.versionLe v current with
  | false => simp [newer, hback]
  | true =>
    have hsame := hL.antisymm hback hle
    rw [hsame] at hparse
    exact absurd (hL.parse_inj hparse hrunning) hne

theorem ne_of_newer {v : Version} {text : String} (hparse : L.parseVersion text = some v) (hrunning : L.parseVersion running = some current)
    (h : newer L v current = true) : text ≠ running := by
  rintro rfl
  rw [hrunning] at hparse
  cases hparse
  rcases hL.total current current with hle | hle <;> simp [newer, hle] at h

/-- What the Beta channel keeps of its releases. -/
theorem eligible_beta (hrunning : L.parseVersion running = some current) {m : ReleaseManifest} : Eligible L .beta running current blocked m ↔
    (!blocked.contains m.version) = true ∧ (match m.semver L with | .ok v => newer L v current | .error _ => false) = true := by
  constructor
  · rintro ⟨hblocked, hne, v, hparse, hle⟩
    refine ⟨by simpa using hblocked, ?_⟩
    rw [semver_ok hparse]
    rcases hle with hle | ⟨hstable, -⟩
    · exact newer_of_ne hL hparse hrunning hne hle
    · cases hstable
  · rintro ⟨hblocked, hnewer⟩
    cases hparse : L.parseVersion m.version with
    | none => simp [ReleaseManifest.semver, hparse] at hnewer
    | some v =>
      rw [semver_ok hparse] at hnewer
      exact ⟨by simpa using hblocked, ne_of_newer hL hparse hrunning hnewer, v, hparse, .inl (newer_le hL hnewer)⟩

theorem eligible_stable (hrunning : L.parseVersion running = some current) {m : ReleaseManifest} {v : Version} (hparse : L.parseVersion m.version = some v) :
    Eligible L .stable running current blocked m ↔
      (m.version != running && !blocked.contains m.version && (newer L v current || current.pre != "")) = true := by
  constructor
  · rintro ⟨hblocked, hne, w, hw, hle⟩
    cases hparse.symm.trans hw
    have hallowed : newer L v current = true ∨ current.pre ≠ "" := by
      rcases hle with hle | ⟨-, hpre⟩
      · exact .inl (newer_of_ne hL hparse hrunning hne hle)
      · exact .inr hpre
    simpa [hne, hblocked] using hallowed
  · intro h
    simp only [Bool.and_eq_true, bne_iff_ne, Bool.not_eq_true', List.contains_eq_mem, decide_eq_false_iff_not, Bool.or_eq_true] at h
    obtain ⟨⟨hne, hblocked⟩, hallowed⟩ := h
    refine ⟨hblocked, hne, v, hparse, ?_⟩
    rcases hallowed with hnewer | hpre
    · exact .inl (newer_le hL hnewer)
    · exact .inr ⟨rfl, hpre⟩

theorem semverLe_total (a b : ReleaseManifest) : semverLe L a b = true ∨ semverLe L b a = true := by
  unfold semverLe
  cases ha : a.semver L with
  | error e => exact .inl rfl
  | ok v =>
    cases hb : b.semver L with
    | error e => exact .inr rfl
    | ok w => exact hL.total v w

theorem semverLe_trans {a b c : ReleaseManifest} (h : semverLe L a b = true) (h' : semverLe L b c = true) : semverLe L a c = true := by
  unfold semverLe at *
  cases ha : a.semver L with
  | error e => rfl
  | ok u =>
    rw [ha] at h
    cases hb : b.semver L with
    | error e => rw [hb] at h; cases h
    | ok v =>
      rw [hb] at h h'
      cases hc : c.semver L with
      | error e => rw [hc] at h'; cases h'
      | ok w =>
        rw [hc] at h'
        exact hL.trans h h'

/-- The last of the sorted releases that are eligible is the greatest. -/
theorem greatest_last {releases : List ReleaseManifest} {keep : ReleaseManifest → Bool}
    (hkeep : ∀ m, keep m = true ↔ Eligible L channel running current blocked m) {m : ReleaseManifest}
    (h : ((releases.insertionSort fun a b => semverLe L a b).filter keep).getLast? = some m) :
    Greatest L channel running current blocked releases m := by
  have hmem : ∀ e, e ∈ (releases.insertionSort fun a b => semverLe L a b).filter keep ↔ e ∈ releases ∧ Eligible L channel running current blocked e := by
    intro e
    rw [List.mem_filter, (List.perm_insertionSort _ releases).mem_iff, hkeep]
  have : Std.Total fun a b => (semverLe L a b : Prop) := ⟨semverLe_total hL⟩
  have : IsTrans _ fun a b => (semverLe L a b : Prop) := ⟨fun _ _ _ => semverLe_trans hL⟩
  have hsorted := (List.pairwise_insertionSort (fun a b => (semverLe L a b : Prop)) releases).filter keep
  obtain ⟨front, hfront⟩ := List.getLast?_eq_some_iff.mp h
  have hlast := (hmem m).mp (List.mem_of_getLast? h)
  refine ⟨hlast.1, hlast.2, fun e he heligible => ?_⟩
  have hin := (hmem e).mpr ⟨he, heligible⟩
  rw [hfront] at hin hsorted
  rcases List.mem_append.mp hin with hin | hin
  · exact (List.pairwise_append.mp hsorted).2.2 e hin m (List.mem_singleton_self m)
  · rw [List.mem_singleton.mp hin]
    rcases semverLe_total hL m m with hself | hself <;> exact hself

end

/-- What a check answers. -/
def Answers (L : Library) (channel : Channel) (running : String) (current : Version) (blocked : List String) (stable beta : Option ReleaseManifest) :
    Except String (Option ReleaseManifest) → Prop
  | .ok (some m) => Greatest L channel running current blocked (entries channel stable beta) m ∧ UpdaterSuffices L current m
  | .ok none => ∀ e ∈ entries channel stable beta, ¬ Eligible L channel running current blocked e
  | .error text =>
    (channel = .stable ∧ ∃ m ∈ stable, L.parseVersion m.version = none ∧ text = ManifestError.invalidVersion.text) ∨
      ∃ m, Greatest L channel running current blocked (entries channel stable beta) m ∧
        (L.parseVersion m.minimumUpdaterVersion = none ∧ text = ManifestError.invalidMinimumVersion.text ∨
          ∃ v, L.parseVersion m.minimumUpdaterVersion = some v ∧ newer L v current = true ∧
            text = m.version ++ " requires updater " ++ m.minimumUpdaterVersion ++ " or newer")

section

variable {L : Library} {channel : Channel} {running : String} {current : Version} {blocked : List String} {stable beta : Option ReleaseManifest}

/-- The second half of a check: whether the updater suffices. -/
def requireUpdater (L : Library) (current : Version) : Option ReleaseManifest → Except String (Option ReleaseManifest)
  | none => .ok none
  | some release =>
    match release.minimumUpdaterSemver L with
    | .error e => .error e.text
    | .ok minimum =>
      if newer L minimum current then .error (release.version ++ " requires updater " ++ release.minimumUpdaterVersion ++ " or newer")
      else .ok (some release)

theorem requireUpdater_some {m : ReleaseManifest} (h : Greatest L channel running current blocked (entries channel stable beta) m) :
    Answers L channel running current blocked stable beta (requireUpdater L current (some m)) := by
  cases hparse : L.parseVersion m.minimumUpdaterVersion with
  | none =>
    have herror : requireUpdater L current (some m) = .error ManifestError.invalidMinimumVersion.text := by
      simp only [requireUpdater, ReleaseManifest.minimumUpdaterSemver, hparse]
    rw [herror]
    exact .inr ⟨m, h, .inl ⟨hparse, rfl⟩⟩
  | some v =>
    have hresult : requireUpdater L current (some m) =
        if newer L v current then .error (m.version ++ " requires updater " ++ m.minimumUpdaterVersion ++ " or newer") else .ok (some m) := by
      simp only [requireUpdater, ReleaseManifest.minimumUpdaterSemver, hparse]
    rw [hresult]
    split
    · rename_i hnewer
      exact .inr ⟨m, h, .inr ⟨v, hparse, hnewer, rfl⟩⟩
    · rename_i hnewer
      exact ⟨h, v, hparse, by simpa [newer] using hnewer⟩

theorem answers_stable (hL : L.Lawful) (hrunning : L.parseVersion running = some current) :
    Answers L .stable running current blocked stable beta (selectCandidate L .stable running current stable beta blocked) := by
  cases stable with
  | none =>
    intro e he
    cases he
  | some m =>
    cases hparse : L.parseVersion m.version with
    | none =>
      have herror : selectCandidate L .stable running current (some m) beta blocked = .error ManifestError.invalidVersion.text := by
        simp only [selectCandidate, ReleaseManifest.semver, hparse]
        rfl
      rw [herror]
      exact .inl ⟨rfl, m, rfl, hparse, rfl⟩
    | some v =>
      have hselect : selectCandidate L .stable running current (some m) beta blocked = requireUpdater L current
          (if m.version != running && !blocked.contains m.version && (newer L v current || current.pre != "") then some m else none) := by
        simp only [selectCandidate, semver_ok hparse]
        rfl
      have heligible : Eligible L .stable running current blocked m ↔
          (m.version != running && !blocked.contains m.version && (newer L v current || current.pre != "")) = true :=
        eligible_stable hL hrunning hparse
      rw [hselect]
      split
      · rename_i hallowed
        refine requireUpdater_some ⟨List.mem_singleton_self m, heligible.mpr hallowed, fun e he _ => ?_⟩
        rw [List.mem_singleton.mp he]
        rcases semverLe_total hL m m with hself | hself <;> exact hself
      · rename_i hrefused
        intro e he
        rw [List.mem_singleton.mp he]
        exact fun h => hrefused (heligible.mp h)

theorem answers_beta (hL : L.Lawful) (hrunning : L.parseVersion running = some current) :
    Answers L .beta running current blocked stable beta (selectCandidate L .beta running current stable beta blocked) := by
  have hselect : selectCandidate L .beta running current stable beta blocked = requireUpdater L current
      (((entries .beta stable beta).insertionSort fun a b => semverLe L a b).filter fun r =>
        (match r.semver L with | .ok v => newer L v current | .error _ => false) && !blocked.contains r.version).getLast? := by
    simp only [selectCandidate, List.filter_filter]
    rfl
  rw [hselect]
  have hkeep : ∀ m : ReleaseManifest, ((match m.semver L with | .ok v => newer L v current | .error _ => false) && !blocked.contains m.version) = true ↔
      Eligible L .beta running current blocked m := by
    intro m
    rw [Bool.and_eq_true, and_comm]
    exact (eligible_beta hL hrunning).symm
  generalize hlast : List.getLast? _ = last
  cases last with
  | none =>
    intro e he heligible
    have hempty := List.getLast?_eq_none_iff.mp hlast
    have hin : e ∈ ((entries .beta stable beta).insertionSort fun a b => semverLe L a b) := (List.perm_insertionSort _ _).mem_iff.mpr he
    exact List.filter_eq_nil_iff.mp hempty e hin ((hkeep e).mpr heligible)
  | some m => exact requireUpdater_some (greatest_last hL hkeep hlast)

end

theorem candidate_greatest (L : Library) (hL : L.Lawful) (channel : Channel) (running : String) (current : Version)
    (hrunning : L.parseVersion running = some current) (stable beta : Option ReleaseManifest) (blocked : List String) :
    Answers L channel running current blocked stable beta (selectCandidate L channel running current stable beta blocked) := by
  cases channel with
  | stable => exact answers_stable hL hrunning
  | beta => exact answers_beta hL hrunning

/-! ## Some releases

The order of semantic versions: the numbers, then a version before its pre-releases' release, then the
identifiers, numbers before texts. -/

namespace Releases

def identifier (s : List Char) : Nat ×ₗ Nat ×ₗ List Char :=
  if s.all Char.isDigit then toLex (0, toLex (s.length, s)) else toLex (1, toLex (0, s))

def preOrder (pre : String) : WithTop (List (Nat ×ₗ Nat ×ₗ List Char)) :=
  if pre = "" then ⊤ else some ((pre.toList.splitOn '.').map identifier)

def order (v : Version) : Nat ×ₗ Nat ×ₗ Nat ×ₗ WithTop (List (Nat ×ₗ Nat ×ₗ List Char)) ×ₗ List Char ×ₗ List Char :=
  toLex (v.major, toLex (v.minor, toLex (v.patch, toLex (preOrder v.pre, toLex (v.pre.toList, v.build.toList)))))

/-- The versions that are read here. -/
def versions : List (String × Version) :=
  [("2.4.0", ⟨2, 4, 0, "", ""⟩), ("2.4.0-beta.2", ⟨2, 4, 0, "beta.2", ""⟩), ("2.5.0", ⟨2, 5, 0, "", ""⟩),
    ("2.6.0-beta.10", ⟨2, 6, 0, "beta.10", ""⟩)]

def library : Library where
  parseVersion s := versions.lookup s
  versionLe v w := decide (order v ≤ order w)
  parseUrl _ := none

theorem order_inj {v w : Version} (h : order v = order w) : v = w := by
  have hfields := congrArg ofLex h
  simp only [order, ofLex_toLex, Prod.mk.injEq, toLex_inj, String.toList_inj] at hfields
  obtain ⟨hmajor, hminor, hpatch, -, hpre, hbuild⟩ := hfields
  cases v
  cases w
  simp_all

theorem library_lawful : library.Lawful where
  total v w := by simpa [library] using le_total (order v) (order w)
  trans h h' := by
    simp only [library, decide_eq_true_eq] at *
    exact h.trans h'
  antisymm h h' := by
    simp only [library, decide_eq_true_eq] at *
    exact order_inj (le_antisymm h h')
  parse_inj := by
    intro s t v hs ht
    have hmem : ∀ s, library.parseVersion s = some v → (s, v) ∈ versions := by
      intro s h
      obtain ⟨front, rest, hsplit, -⟩ := List.lookup_eq_some_iff.mp h
      rw [hsplit]
      exact List.mem_append_right _ List.mem_cons_self
    have hall : ∀ p ∈ versions, ∀ q ∈ versions, p.2 = q.2 → p.1 = q.1 := by decide
    exact hall _ (hmem s hs) _ (hmem t ht) rfl

def release (channel : Channel) (version updater : String) : ReleaseManifest where
  schema := 1
  channel := channel
  version := version
  tag := "v" ++ version
  commit := "1234567890ab"
  target := releaseTarget
  size := 7000000
  sha256 := String.ofList (List.replicate 64 'a')
  binaryUrl := "https://github.com/jesther-ai/open-u60-pro/releases/download/v" ++ version ++ "/zte-agent"
  notesUrl := "https://github.com/jesther-ai/open-u60-pro/releases/tag/v" ++ version
  publishedAt := "2026-11-02T00:00:00Z"
  minimumUpdaterVersion := updater

/-- Beta 2 is left for the older Stable. -/
theorem stable_after_beta :
    selectCandidate library .stable "2.4.0-beta.2" ⟨2, 4, 0, "beta.2", ""⟩ (some (release .stable "2.4.0" "2.4.0-beta.2")) none [] =
        .ok (some (release .stable "2.4.0" "2.4.0-beta.2")) ∧
      Answers library .stable "2.4.0-beta.2" ⟨2, 4, 0, "beta.2", ""⟩ [] (some (release .stable "2.4.0" "2.4.0-beta.2")) none
        (selectCandidate library .stable "2.4.0-beta.2" ⟨2, 4, 0, "beta.2", ""⟩ (some (release .stable "2.4.0" "2.4.0-beta.2")) none []) :=
  ⟨by decide, candidate_greatest library library_lawful .stable "2.4.0-beta.2" ⟨2, 4, 0, "beta.2", ""⟩ rfl _ none []⟩

/-- 2.5.0 could be installed, but the check fails for the newer pre-release; and a manifest that names
    Beta is offered on Stable. -/
theorem updater_not_passed_over :
    selectCandidate library .beta "2.4.0" ⟨2, 4, 0, "", ""⟩ (some (release .stable "2.5.0" "2.4.0")) (some (release .beta "2.6.0-beta.10" "2.5.0")) [] =
        .error "2.6.0-beta.10 requires updater 2.5.0 or newer" ∧
      Eligible library .beta "2.4.0" ⟨2, 4, 0, "", ""⟩ [] (release .stable "2.5.0" "2.4.0") ∧
      UpdaterSuffices library ⟨2, 4, 0, "", ""⟩ (release .stable "2.5.0" "2.4.0") ∧
      selectCandidate library .stable "2.4.0" ⟨2, 4, 0, "", ""⟩ (some (release .beta "2.6.0-beta.10" "2.4.0")) none [] =
        .ok (some (release .beta "2.6.0-beta.10" "2.4.0")) := by
  refine ⟨by decide, ⟨by decide, by decide, ⟨2, 5, 0, "", ""⟩, rfl, .inl (by decide)⟩, ⟨⟨2, 4, 0, "", ""⟩, rfl, by decide⟩, by decide⟩

end Releases

end OpenU60.Ota
