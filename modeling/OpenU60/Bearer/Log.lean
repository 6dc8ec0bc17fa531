/-
  OpenU60.Bearer.Log — the rate cap of the data session, read from the firmware's log (`zte-agent/src/bearer.rs`: `LogCursor`,
  `newest`, `is_data_apn`, `parse_line`).

  What `f64` computes is up to `Floats`. The log and the one it is renamed to are files with an inode, if they are there;
  `refresh` looks at both at one moment. A scan has no more windows than its range has bytes (`fuel`).
-/

import OpenU60.KeyLog.Backward
import OpenU60.Lib.Split

namespace OpenU60.Bearer

open OpenU60.Lib
open OpenU60.Lib.ByteLines
open OpenU60.Lib.Split
open OpenU60.KeyLog (Scan Short scanBack newestIn readRange)

variable {R : Type}

/-- The arithmetic of the rates, and the literals in it. -/
structure Floats (R : Type) where
  parse : List Char → Option R
  mul : R → R → R
  div : R → R → R
  sub : R → R → R
  round : R → R
  /-- `> 0.0` -/
  positive : R → Bool
  thousandth : R
  one : R
  thousand : R
  million : R
  billion : R

structure Ambr (R : Type) where
  apn : List Char
  dlMbps : R
  ulMbps : R
  deriving DecidableEq

/-! ## A line -/

def nonDataApns : List String := ["ims", "sos"]

def isDataApn (apn : List Char) : Bool :=
  let label := apn.takeWhile (· ≠ '.')
  !nonDataApns.any fun n => label.map Char.toLower = n.toList.map Char.toLower

/-- The value after ` key=`, up to the next space. -/
def field (line : List Char) (key : String) : Option (List Char) :=
  (splitOnce (" " ++ key ++ "=").toList line).map fun (_, value) => value.takeWhile (· ≠ ' ')

def stripSuffix (suffix cs : List Char) : Option (List Char) := if suffix <:+ cs then some (cs.take (cs.length - suffix.length)) else none

section

variable (F : Floats R)

/-- Rounds to the kbps and rejects 0. -/
def mbps (value : R) : Option R :=
  let rounded := F.div (F.round (F.mul value F.thousand)) F.thousand
  if F.positive rounded then some rounded else none

/-- The first character of a unit's name is the first that is no digit and no point. -/
def nrRate (line : List Char) (dir : String) : Option R := do
  let value ← F.parse (← field line ("session_ambr_" ++ dir))
  let (_, unit) ← splitOnce ['('] (← field line ("session_ambr_" ++ dir ++ "_unit"))
  let unit ← stripSuffix [')'] unit
  let (multiplier, name) := unit.span fun c => c.isDigit || c = '.'
  let scale ←
    match String.ofList (name.map Char.toLower) with
    | "kbps" => some F.thousandth
    | "mbps" => some F.one
    | "gbps" => some F.thousand
    | "tbps" => some F.million
    | "pbps" => some F.billion
    | _ => none
  mbps F (F.mul (F.mul value (← F.parse multiplier)) scale)

/-- A non-zero extended octet replaces the base octet, which the extended-2 total also counts. -/
def lteRate (line : List Char) (dir : String) : Option R := do
  let num := fun (key suffix : String) => do F.parse (← stripSuffix suffix.toList (← field line key))
  let base := F.div (← num ("apn_ambr_" ++ dir) "kbps") F.thousand
  let ext ← num ("apn_ambr_" ++ dir ++ "_ext") "Mbps"
  let ext2 ← num ("apn_ambr_" ++ dir ++ "_ext2") "Mbps"
  mbps F
    (match F.positive ext2, F.positive ext with
    | true, true => F.sub ext2 base
    | true, false => ext2
    | false, true => ext
    | false, false => base)

def parseLine (line : List Char) : Option (Ambr R) :=
  if Text.contains " session_ambr_dl=".toList line then do
    some { apn := ← field line "dnn", dlMbps := ← nrRate F line "dl", ulMbps := ← nrRate F line "ul" }
  else if Text.contains " apn_ambr_dl=".toList line then do
    some { apn := ← field line "access_point", dlMbps := ← lteRate F line "dl", ulMbps := ← lteRate F line "ul" }
  else none

/-- The newest AMBR line in `text` for a session that carries user data. -/
def newest (text : List Char) : Option (Ambr R) :=
  ((Text.lines text).reverse.filterMap (parseLine F)).find? fun a => isDataApn a.apn

/-- The rates of a line for a session that carries user data. -/
def dataLine (line : List Char) : Option (Ambr R) := (parseLine F line).filter fun a => isDataApn a.apn

theorem newest_eq : newest F = newestIn (dataLine F) := by
  funext text
  unfold newest newestIn
  induction (Text.lines text).reverse with
  | nil => rfl
  | cons line lines ih =>
    unfold dataLine at ih ⊢
    cases hline : parseLine F line with
    | none =>
      rw [List.filterMap_cons_none hline, List.findSome?_cons, hline]
      exact ih
    | some a =>
      rw [List.filterMap_cons_some hline, List.find?_cons, List.findSome?_cons, hline]
      cases hdata : isDataApn a.apn with
      | false =>
        rw [Option.filter_some, hdata, if_neg nofun]
        exact ih
      | true =>
        rw [Option.filter_some, hdata, if_pos rfl]

end

/-! ## The cursor -/

structure File where
  ino : Nat
  bytes : List UInt8

def chunk : Nat := 256 * 1024

/-- How far the log has been read, and the newest data-session AMBR seen in it. -/
structure LogCursor (R : Type) where
  scanned : Bool := false
  ino : Nat := 0
  readLen : Nat := 0
  ambr : Option (Ambr R) := none

def scan (F : Floats R) (file : Option File) (floor stop : Nat) : Option (Scan (Ambr R)) :=
  (scanBack (file.map File.bytes) floor stop chunk (newest F) (stop + 1)).map (·.1)

def LogCursor.refresh (F : Floats R) (c : LogCursor R) (log rotated : Option File) : Option (Option (Ambr R) × LogCursor R) := do
  let (ino, len) := log.elim (0, 0) fun file => (file.ino, file.bytes.length)
  if !c.scanned || ino ≠ c.ino || len < c.readLen then
    let fresh ← scan F log 0 len
    let found ←
      match fresh.newest with
      | some a => some (some a)
      | none => (scan F rotated 0 (rotated.elim 0 fun file => file.bytes.length)).map (·.newest)
    let c := { scanned := true, ino, readLen := fresh.consumed, ambr := found.or c.ambr }
    some (c.ambr, c)
  else if c.readLen < len then
    let tail ← scan F log c.readLen len
    let c := { c with readLen := tail.consumed, ambr := tail.newest.or c.ambr }
    some (c.ambr, c)
  else some (c.ambr, c)

end OpenU60.Bearer
