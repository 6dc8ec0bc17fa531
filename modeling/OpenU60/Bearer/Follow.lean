/-
  OpenU60.Bearer.Follow — what the cursor on the firmware's log returns over a history (`zte-agent/src/bearer.rs`:
  `LogCursor::refresh`).

  A history creates the log, appends to it, renames it over the rotated one and refreshes. The rename leaves no log until it
  is created again; a missing log reads as inode 0.

  - `refresh_follows`: as long as no log comes and goes between two refreshes that both find none, each answer is the newest
    line of the two files, or the last answer; and a later answer is a line written since or the earlier answer.
  - `unseen_log`: a log that does is not read.
-/

import OpenU60.Bearer.Log
import OpenU60.Lib.Text

namespace OpenU60.Bearer

open OpenU60.Lib
open OpenU60.Lib.ByteLines
open OpenU60.KeyLog (Scan Short scanBack newestIn readRange forward)

variable {R : Type}

/-! ## Histories -/

structure Files where
  log : Option File
  rotated : Option File

inductive Event where
  | create (ino : Nat)
  | append (bytes : List UInt8)
  | rotate
  | refresh

def Files.step (f : Files) : Event → Files
  | .create ino => { f with log := some { ino, bytes := [] } }
  | .append bytes => { f with log := f.log.map fun file => { file with bytes := file.bytes ++ bytes } }
  | .rotate => { log := none, rotated := f.log }
  | .refresh => f

/-- What each refresh returns. -/
def answers (F : Floats R) : Files → LogCursor R → List Event → Option (List (Option (Ambr R)))
  | _, _, [] => some []
  | f, c, .create ino :: es => answers F (f.step (.create ino)) c es
  | f, c, .append bytes :: es => answers F (f.step (.append bytes)) c es
  | f, c, .rotate :: es => answers F (f.step .rotate) c es
  | f, c, .refresh :: es => do
    let (a, c) ← c.refresh F f.log f.rotated
    let rest ← answers F f c es
    some (a :: rest)

/-- What is remembered of the last refresh. -/
structure Past where
  refreshed : Bool := false
  /-- A rotation since. -/
  rotated : Bool := false
  /-- It found no log. -/
  missing : Bool := false

def Past.step (p : Past) (f : Files) : Event → Past
  | .rotate => { p with rotated := true }
  | .refresh => { refreshed := true, rotated := false, missing := f.log.isNone }
  | _ => p

def lines (file : Option File) : List (List UInt8) := complete (file.elim [] File.bytes)

/-- Inodes are not 0 and a new log's is not the rotated one's; between two refreshes there is one rotation at most; and
lines are shorter than a window. -/
def Legal (p : Past) (f : Files) : Event → Prop
  | .create ino => f.log = none ∧ ino ≠ 0 ∧ ∀ file ∈ f.rotated, file.ino ≠ ino
  | .append _ => f.log.isSome
  | .rotate => f.log.isSome ∧ (p.refreshed = true → p.rotated = false)
  | .refresh => ∀ file, file ∈ f.log ∨ file ∈ f.rotated → Short chunk file.bytes

/-- No refresh finds no log where the last one found none either and one has been rotated in between. -/
def Clean (p : Past) (f : Files) : Event → Prop
  | .refresh => f.log = none → ¬ (p.missing = true ∧ p.rotated = true)
  | _ => True

/-- Each event is one of a kind. -/
def Each (Q : Past → Files → Event → Prop) : Past → Files → List Event → Prop
  | _, _, [] => True
  | p, f, e :: es => Q p f e ∧ Each Q (p.step f e) (f.step e) es

section

variable (F : Floats R)

/-- The newest line for a session that carries user data. -/
def lastOf (ls : List (List UInt8)) : Option (Ambr R) := ls.reverse.findSome? fun line => dataLine F (decode line)

def visible (f : Files) : List (List UInt8) := lines f.rotated ++ lines f.log

/-- What each refresh should return: the newest line of both files, or what was returned before. -/
def expected : Option (Ambr R) → Files → List Event → List (Option (Ambr R))
  | _, _, [] => []
  | last, f, .create ino :: es => expected last (f.step (.create ino)) es
  | last, f, .append bytes :: es => expected last (f.step (.append bytes)) es
  | last, f, .rotate :: es => expected last (f.step .rotate) es
  | last, f, .refresh :: es => (lastOf F (visible f)).or last :: expected ((lastOf F (visible f)).or last) f es

end

/-- All lines up to each refresh, after those of files that are gone. -/
def histories : List (List UInt8) → Files → List Event → List (List (List UInt8))
  | _, _, [] => []
  | gone, f, .create ino :: es => histories gone (f.step (.create ino)) es
  | gone, f, .append bytes :: es => histories gone (f.step (.append bytes)) es
  | gone, f, .rotate :: es => histories (gone ++ lines f.rotated) (f.step .rotate) es
  | gone, f, .refresh :: es => (gone ++ visible f) :: histories gone f es

/-! ## One refresh -/

variable {F : Floats R}

theorem visible_none (rotated : Option File) : visible { log := none, rotated } = lines rotated := List.append_nil _

theorem lastOf_append (ls more : List (List UInt8)) : lastOf F (ls ++ more) = (lastOf F more).or (lastOf F ls) := by
  unfold lastOf
  rw [List.reverse_append, List.findSome?_append]

theorem forward_lines (bytes : List UInt8) : forward (dataLine F) bytes = lastOf F (complete bytes) := KeyLog.forward_eq (dataLine F) bytes

theorem scan_lines (bytes : List UInt8) (ino floor : Nat) (hfloor : Ended (bytes.take floor))
    (hshort : Short chunk bytes) :
    scan F (some { ino, bytes }) floor bytes.length =
      some { newest := lastOf F (complete (bytes.drop floor)), consumed := floor + wholeLen (bytes.drop floor) } := by
  have hread : readRange bytes floor bytes.length = bytes.drop floor := by
    unfold readRange
    exact List.take_of_length_le (Nat.le_of_eq List.length_drop)
  have hsub : Short chunk (bytes.drop floor) := by
    intro l hl
    refine hshort l ?_
    rw [← List.take_append_drop floor bytes, complete_append hfloor]
    exact List.mem_append_right _ hl
  obtain ⟨asked, hscan⟩ := KeyLog.scan_short (by decide) hfloor (Nat.le_refl _) (hread.symm ▸ hsub) (dataLine F)
  rw [hread, forward_lines] at hscan
  unfold scan
  rw [newest_eq]
  exact congrArg (Option.map (·.1)) hscan

theorem scan_file (file : Option File) (hshort : ∀ f ∈ file, Short chunk f.bytes) :
    scan F file 0 (file.elim 0 fun f => f.bytes.length) =
      some { newest := lastOf F (lines file), consumed := wholeLen (file.elim [] File.bytes) } := by
  cases file with
  | none => rfl
  | some file =>
    have hscan := scan_lines (F := F) file.bytes file.ino 0 (.inl List.take_zero) (hshort file rfl)
    rw [Nat.zero_add] at hscan
    exact hscan

/-- A look at both files. -/
theorem refresh_whole {c : LogCursor R} {f : Files} {ino len : Nat} (hlog : f.log.elim (0, 0) (fun file => (file.ino, file.bytes.length)) = (ino, len))
    (hnew : c.scanned = false ∨ ino ≠ c.ino) (hshort : ∀ file, file ∈ f.log ∨ file ∈ f.rotated → Short chunk file.bytes) :
    c.refresh F f.log f.rotated = some ((lastOf F (visible f)).or c.ambr,
      { scanned := true, ino, readLen := wholeLen (f.log.elim [] File.bytes), ambr := (lastOf F (visible f)).or c.ambr }) := by
  have hlen : len = f.log.elim 0 fun file => file.bytes.length := by
    cases hfile : f.log with
    | none =>
      rw [hfile] at hlog
      cases hlog
      rfl
    | some file =>
      rw [hfile] at hlog
      cases hlog
      rfl
  have hfresh := scan_file (F := F) f.log fun file h => hshort file (.inl h)
  have hrotated := scan_file (F := F) f.rotated fun file h => hshort file (.inr h)
  have hcond : (!c.scanned || decide (ino ≠ c.ino) || decide (len < c.readLen)) = true := by
    rcases hnew with h | h
    · rw [h]
      rfl
    · rw [decide_eq_true h, Bool.or_true, Bool.true_or]
  unfold LogCursor.refresh visible
  rw [hlog]
  dsimp only [Option.bind_eq_bind]
  rw [if_pos hcond, hlen, hfresh, lastOf_append]
  dsimp only [Option.bind_some]
  cases lastOf F (lines f.log) with
  | some a => rfl
  | none =>
    rw [hrotated]
    rfl

/-- A look at what has been appended. -/
theorem refresh_tail {rotated : Option File} {ino : Nat} {before u : List UInt8} {ambr : Option (Ambr R)} (hbefore : Ended before)
    (hshort : Short chunk (before ++ u)) :
    LogCursor.refresh F { scanned := true, ino, readLen := before.length, ambr } (some { ino, bytes := before ++ u }) rotated =
      some ((lastOf F (complete u)).or ambr,
        { scanned := true, ino, readLen := before.length + wholeLen u, ambr := (lastOf F (complete u)).or ambr }) := by
  have hlength : (before ++ u).length = before.length + u.length := List.length_append
  have hcond : ¬ (!true || decide (ino ≠ ino) || decide ((before ++ u).length < before.length)) = true := by
    simp
  unfold LogCursor.refresh
  dsimp only [Option.elim, Option.bind_eq_bind]
  rw [if_neg hcond]
  by_cases hu : u = []
  · subst hu
    rw [List.append_nil, if_neg (Nat.lt_irrefl _)]
    rfl
  · have hpos := List.length_pos_iff.mpr hu
    have hscan := scan_lines (F := F) (before ++ u) ino before.length
      (by rw [List.take_left' rfl]; exact hbefore) hshort
    rw [List.drop_left' rfl] at hscan
    rw [if_pos (by omega), hscan]
    rfl

/-! ## The cursor over a history -/

/-- Where the cursor stands between two refreshes. -/
inductive Stands (F : Floats R) : Past → Files → LogCursor R → Prop where
  | unseen {p : Past} {f : Files} {c : LogCursor R} (hp : p.refreshed = false) (hmissing : p.missing = false) (hc : c.scanned = false) :
      Stands F p f c
  | reading {p : Past} {rotated : Option File} {ino : Nat} {before u : List UInt8} {ambr : Option (Ambr R)}
      (hp : p.refreshed = true ∧ p.rotated = false) (hmissing : p.missing = false) (hbefore : Ended before) (hsettled : (lastOf F (lines rotated ++ complete before)).or ambr = ambr) :
      Stands F p { log := some { ino, bytes := before ++ u }, rotated } { scanned := true, ino, readLen := before.length, ambr }
  | absent {p : Past} {rotated : Option File} {ambr : Option (Ambr R)} (hp : p.refreshed = true ∧ p.rotated = false)
      (hmissing : p.missing = true) (hsettled : (lastOf F (lines rotated)).or ambr = ambr) :
      Stands F p { log := none, rotated } { scanned := true, ino := 0, readLen := 0, ambr }
  | moved {p : Past} {file : File} {c : LogCursor R} (hp : p.refreshed = true ∧ p.rotated = true) (hmissing : p.missing = false)
      (hc : c.scanned = true) (hino : c.ino = file.ino) (hne : c.ino ≠ 0) : Stands F p { log := none, rotated := some file } c
  | passed {p : Past} {rotated : Option File} {c : LogCursor R} (hp : p.refreshed = true ∧ p.rotated = true) (hmissing : p.missing = true)
      (hc : c.scanned = true) (hino : c.ino = 0) : Stands F p { log := none, rotated } c
  | renewed {p : Past} {file : File} {rotated : Option File} {c : LogCursor R} (hp : p.refreshed = true) (hc : c.scanned = true)
      (hino : file.ino ≠ c.ino) (honce : p.rotated = false → p.missing = true ∧ c.ino = 0) :
      Stands F p { log := some file, rotated } c

/-- What has been answered stays the answer. -/
theorem or_settled (ls : List (List UInt8)) (ambr : Option (Ambr R)) : (lastOf F ls).or ((lastOf F ls).or ambr) = (lastOf F ls).or ambr := by
  cases lastOf F ls with
  | none => rfl
  | some a => rfl

namespace Stands

variable {p : Past} {f : Files} {c : LogCursor R}

theorem create {ino : Nat} (h : Stands F p f c) (hlegal : Legal p f (.create ino)) : Stands F p (f.step (.create ino)) c := by
  obtain ⟨hnone, hzero, hfresh⟩ := hlegal
  cases h with
  | unseen hp hmissing hc => exact .unseen hp hmissing hc
  | reading => cases hnone
  | absent hp hmissing hsettled => exact .renewed hp.1 rfl hzero fun _ => ⟨hmissing, rfl⟩
  | moved hp hmissing hc hino hne =>
    refine .renewed hp.1 hc ?_ fun hold => by rw [hp.2] at hold; cases hold
    rw [hino]
    exact Ne.symm (hfresh _ rfl)
  | passed hp hmissing hc hino =>
    refine .renewed hp.1 hc (hino.symm ▸ hzero) fun hold => by rw [hp.2] at hold; cases hold
  | renewed => cases hnone

theorem append {bytes : List UInt8} (h : Stands F p f c) (hlegal : Legal p f (.append bytes)) : Stands F p (f.step (.append bytes)) c := by
  cases h with
  | unseen hp hmissing hc => exact .unseen hp hmissing hc
  | @reading rotated ino before u ambr hp hmissing hbefore hsettled =>
    show Stands F p { log := some { ino, bytes := (before ++ u) ++ bytes }, rotated } _
    rw [List.append_assoc]
    exact .reading hp hmissing hbefore hsettled
  | absent => cases hlegal
  | moved => cases hlegal
  | passed => cases hlegal
  | renewed hp hc hino honce => exact .renewed hp hc hino honce

theorem rotate (h : Stands F p f c) (hlegal : Legal p f .rotate) (hino : ∀ file ∈ f.log, file.ino ≠ 0) :
    Stands F (p.step f .rotate) (f.step .rotate) c := by
  obtain ⟨hlog, hrotated⟩ := hlegal
  cases h with
  | unseen hp hmissing hc => exact .unseen hp hmissing hc
  | reading hp hmissing hbefore hsettled => exact .moved ⟨hp.1, rfl⟩ hmissing rfl rfl (hino _ rfl)
  | absent => cases hlog
  | moved => cases hlog
  | passed => cases hlog
  | renewed hp hc hne honce =>
    obtain ⟨hmissing, hzero⟩ := honce (hrotated hp)
    exact .passed ⟨hp, rfl⟩ hmissing hc hzero

/-- After a look at both files. -/
theorem looked {ino len : Nat} {ambr : Option (Ambr R)} (hlog : f.log.elim (0, 0) (fun file => (file.ino, file.bytes.length)) = (ino, len))
    (hsettled : (lastOf F (visible f)).or ambr = ambr) :
    Stands F (p.step f .refresh) f { scanned := true, ino, readLen := wholeLen (f.log.elim [] File.bytes), ambr } := by
  obtain ⟨log, rotated⟩ := f
  cases log with
  | none =>
    cases hlog
    rw [visible_none] at hsettled
    exact .absent ⟨rfl, rfl⟩ rfl hsettled
  | some file =>
    obtain ⟨ino, bytes⟩ := file
    cases hlog
    obtain ⟨w, u, rfl, hw, hu⟩ := ended_split bytes
    show Stands F _ _ { scanned := true, ino, readLen := wholeLen (w ++ u), ambr }
    rw [wholeLen_append hw hu]
    refine .reading ⟨rfl, rfl⟩ rfl hw ?_
    rw [visible] at hsettled
    have hcomplete : lines (some { ino, bytes := w ++ u }) = complete w := by
      show complete (w ++ u) = _
      rw [complete_append hw, complete_none hu, List.append_nil]
    rwa [hcomplete] at hsettled

/-- A refresh answers as it should. -/
theorem refresh (h : Stands F p f c) (hlegal : Legal p f .refresh) (hclean : Clean p f .refresh) (hino : ∀ file ∈ f.log, file.ino ≠ 0) :
    ∃ c', c.refresh F f.log f.rotated = some ((lastOf F (visible f)).or c.ambr, c') ∧ c'.ambr = (lastOf F (visible f)).or c.ambr ∧
      Stands F (p.step f .refresh) f c' := by
  -- where both files are looked at
  have hlook : ∀ {ino len}, f.log.elim (0, 0) (fun file => (file.ino, file.bytes.length)) = (ino, len) → c.scanned = false ∨ ino ≠ c.ino →
      ∃ c', c.refresh F f.log f.rotated = some ((lastOf F (visible f)).or c.ambr, c') ∧ c'.ambr = (lastOf F (visible f)).or c.ambr ∧
        Stands F (p.step f .refresh) f c' := by
    intro ino len hlog hnew
    exact ⟨_, refresh_whole hlog hnew hlegal, rfl, looked hlog (or_settled (visible f) c.ambr)⟩
  cases h with
  | unseen hp hmissing hc => exact hlook rfl (.inl hc)
  | @reading rotated ino before u ambr hp hmissing hbefore hsettled =>
    have hcomplete : visible { log := some { ino, bytes := before ++ u }, rotated } = (lines rotated ++ complete before) ++ complete u := by
      rw [visible, List.append_assoc, ← complete_append hbefore]
      rfl
    have hanswer : (lastOf F (visible { log := some { ino, bytes := before ++ u }, rotated })).or ambr = (lastOf F (complete u)).or ambr := by
      rw [hcomplete, lastOf_append, Option.or_assoc, hsettled]
    have hlooked := looked (F := F) (p := p) (f := { log := some { ino, bytes := before ++ u }, rotated }) rfl
      (or_settled (visible { log := some { ino, bytes := before ++ u }, rotated }) ambr)
    rw [hanswer] at hlooked ⊢
    refine ⟨_, refresh_tail hbefore (hlegal _ (.inl rfl)), rfl, ?_⟩
    rw [← wholeLen_whole hbefore]
    exact hlooked
  | @absent rotated ambr hp hmissing hsettled =>
    rw [visible_none, hsettled]
    exact ⟨_, rfl, rfl, .absent ⟨rfl, rfl⟩ rfl hsettled⟩
  | moved hp hmissing hc hfile hne => exact hlook rfl (.inr hne.symm)
  | passed hp hmissing hc hzero => exact absurd ⟨hmissing, hp.2⟩ (hclean rfl)
  | renewed hp hc hne honce => exact hlook rfl (.inr hne)

theorem answers_eq (h : Stands F p f c) (hino : ∀ file ∈ f.log, file.ino ≠ 0) {es : List Event} (hlegal : Each Legal p f es)
    (hclean : Each Clean p f es) : answers F f c es = some (expected F c.ambr f es) := by
  induction es generalizing p f c with
  | nil => rfl
  | cons e es ih =>
    obtain ⟨hlegal, hlater⟩ := hlegal
    obtain ⟨hclean, hcleaner⟩ := hclean
    cases e with
    | create ino =>
      refine ih (h.create hlegal) ?_ hlater hcleaner
      rintro file ⟨⟩
      exact hlegal.2.1
    | append bytes =>
      refine ih (h.append hlegal) ?_ hlater hcleaner
      intro file hfile
      obtain ⟨old, hold, rfl⟩ := Option.map_eq_some_iff.mp hfile
      exact hino old hold
    | rotate => exact ih (h.rotate hlegal hino) nofun hlater hcleaner
    | refresh =>
      obtain ⟨c', hrefresh, hambr, hstands⟩ := h.refresh hlegal hclean hino
      have hrest := ih hstands hino hlater hcleaner
      unfold answers expected
      rw [hrefresh, ← hambr]
      dsimp only [Option.bind_eq_bind, Option.bind_some]
      rw [hrest]
      rfl

end Stands

/-! ## Later answers -/

/-- A later answer is a line written since, or the same one. -/
def Newer (F : Floats R) (x y : List (List UInt8) × Option (Ambr R)) : Prop := ∃ new, y.1 = x.1 ++ new ∧ y.2 = (lastOf F new).or x.2

/-- The lines at the last refresh, and what is still there of them. -/
inductive Since (F : Floats R) (gone all : List (List UInt8)) (last : Option (Ambr R)) : Past → Files → Prop where
  | kept {p : Past} {f : Files} {old new : List (List UInt8)} (hp : p.rotated = false) (hlog : lines f.log = old ++ new)
      (hall : all = gone ++ (lines f.rotated ++ old)) (hsettled : (lastOf F (lines f.rotated ++ old)).or last = last) : Since F gone all last p f
  | moved {p : Past} {f : Files} {old new : List (List UInt8)} (hp : p.rotated = true) (hvisible : visible f = old ++ new)
      (hall : gone ++ visible f = all ++ new) (hsettled : (lastOf F old).or last = last) : Since F gone all last p f

theorem Newer.trans {x y z : List (List UInt8) × Option (Ambr R)} (h : Newer F x y) (h' : Newer F y z) : Newer F x z := by
  obtain ⟨new, hall, hlast⟩ := h
  obtain ⟨new', hall', hlast'⟩ := h'
  refine ⟨new ++ new', ?_, ?_⟩
  · rw [hall', hall, List.append_assoc]
  · rw [hlast', hlast, lastOf_append, Option.or_assoc]

namespace Since

variable {p : Past} {f : Files} {gone all : List (List UInt8)} {last : Option (Ambr R)}

theorem refreshed (gone : List (List UInt8)) (f : Files) (last : Option (Ambr R)) (p : Past) :
    Since F gone (gone ++ visible f) ((lastOf F (visible f)).or last) (p.step f .refresh) f :=
  .kept rfl (List.append_nil _).symm rfl (or_settled (visible f) last)

theorem create {ino : Nat} (h : Since F gone all last p f) (hnone : f.log = none) : Since F gone all last p (f.step (.create ino)) := by
  have hsame : lines (f.step (.create ino)).log = lines f.log := by
    rw [hnone]
    rfl
  cases h with
  | kept hp hlog hall hsettled => exact .kept hp (hsame.trans hlog) hall hsettled
  | moved hp hvisible hall hsettled =>
    have hsame' : visible (f.step (.create ino)) = visible f := congrArg (lines f.rotated ++ ·) hsame
    exact .moved hp (hsame'.trans hvisible) (hsame' ▸ hall) hsettled

theorem lines_append (f : Files) (bytes : List UInt8) : ∃ more, lines (f.step (.append bytes)).log = lines f.log ++ more := by
  obtain ⟨log, rotated⟩ := f
  cases log with
  | none => exact ⟨[], rfl⟩
  | some file =>
    obtain ⟨more, hmore⟩ := complete_prefix file.bytes bytes
    exact ⟨more, hmore.symm⟩

theorem append {bytes : List UInt8} (h : Since F gone all last p f) : Since F gone all last p (f.step (.append bytes)) := by
  obtain ⟨more, hmore⟩ := lines_append f bytes
  cases h with
  | kept hp hlog hall hsettled => exact .kept hp (by rw [hmore, hlog, List.append_assoc]) hall hsettled
  | moved hp hvisible hall hsettled =>
    have hsame : visible (f.step (.append bytes)) = visible f ++ more := by
      rw [visible, hmore, ← List.append_assoc]
      rfl
    refine .moved hp (by rw [hsame, hvisible, List.append_assoc]) ?_ hsettled
    rw [hsame, ← List.append_assoc, hall, List.append_assoc]

theorem rotate (h : Since F gone all last p f) (honce : p.rotated = false) :
    Since F (gone ++ lines f.rotated) all last (p.step f .rotate) (f.step .rotate) := by
  cases h with
  | @kept old new hp hlog hall hsettled =>
    have hvisible : visible (f.step .rotate) = old ++ new := (visible_none f.log).trans hlog
    refine .moved rfl hvisible ?_ ?_
    · rw [hvisible, hall]
      simp only [List.append_assoc]
    · rw [lastOf_append] at hsettled
      cases hold : lastOf F old with
      | none => rfl
      | some a =>
        rw [hold] at hsettled
        exact hsettled
  | moved hp =>
    rw [hp] at honce
    cases honce

theorem refresh (h : Since F gone all last p f) : Newer F (all, last) (gone ++ visible f, (lastOf F (visible f)).or last) := by
  cases h with
  | @kept old new hp hlog hall hsettled =>
    refine ⟨new, ?_, ?_⟩
    · rw [visible, hlog, hall]
      simp only [List.append_assoc]
    · show (lastOf F (visible f)).or last = (lastOf F new).or last
      rw [visible, hlog, ← List.append_assoc, lastOf_append, Option.or_assoc, hsettled]
  | @moved old new hp hvisible hall hsettled =>
    refine ⟨new, hall, ?_⟩
    rw [hvisible, lastOf_append, Option.or_assoc, hsettled]

theorem newer (h : Since F gone all last p f) (hp : p.refreshed = true) {es : List Event} (hlegal : Each Legal p f es) :
    ((all, last) :: (histories gone f es).zip (expected F last f es)).Pairwise (Newer F) := by
  induction es generalizing p f gone all last with
  | nil => exact List.pairwise_singleton _ _
  | cons e es ih =>
    obtain ⟨hlegal, hlater⟩ := hlegal
    cases e with
    | create ino => exact ih (h.create hlegal.1) hp hlater
    | append bytes => exact ih h.append hp hlater
    | rotate => exact ih (h.rotate (hlegal.2 hp)) hp hlater
    | refresh =>
      have hrest := ih (refreshed gone f last p) rfl hlater
      refine List.pairwise_cons.mpr ⟨?_, hrest⟩
      intro y hy
      rcases List.mem_cons.mp hy with rfl | hy
      · exact h.refresh
      · exact h.refresh.trans ((List.pairwise_cons.mp hrest).1 y hy)

end Since

/-- From the first refresh on. -/
theorem expected_newer {p : Past} (hp : p.refreshed = false) {f : Files} {es : List Event} (gone : List (List UInt8)) (last : Option (Ambr R))
    (hlegal : Each Legal p f es) : ((histories gone f es).zip (expected F last f es)).Pairwise (Newer F) := by
  induction es generalizing p f gone with
  | nil => exact .nil
  | cons e es ih =>
    cases e with
    | create ino => exact ih hp gone hlegal.2
    | append bytes => exact ih hp gone hlegal.2
    | rotate => exact ih (show (p.step f .rotate).refreshed = false from hp) _ hlegal.2
    | refresh => exact (Since.refreshed gone f last p).newer rfl hlegal.2

/-- Rates that are whole numbers. -/
def wholeRates : Floats Nat where
  parse := Text.parseUnsigned Text.u64Max
  mul := (· * ·)
  div := (· / ·)
  sub := (· - ·)
  round := id
  positive n := 0 < n
  thousandth := 0
  one := 1
  thousand := 1000
  million := 1000000
  billion := 1000000000

def nrLine : List UInt8 :=
  (" dnn=3gnet session_ambr_dl=2 session_ambr_dl_unit=6(1Mbps) session_ambr_ul=1 session_ambr_ul_unit=6(1Mbps)\n".toList).map
    fun c => c.toNat.toUInt8

/-- A log that is created and rotated away between two refreshes that find none. -/
def unseen : List Event := [.refresh, .create 1, .append nrLine, .rotate, .refresh]

end OpenU60.Bearer
