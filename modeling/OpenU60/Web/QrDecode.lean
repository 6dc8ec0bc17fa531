/-
  OpenU60.Web.QrDecode — photos of QR codes, around the decoders (`zte-agent/src/web/qr_decode.rs`).

  Arithmetic that the code does not check is checked here: a sum past 32 bits, a difference below zero, a
  quotient by zero and an index out of range are `none`. The crates that decode images and find the codes are
  left out; what they give is a photo's rows and its payloads.
-/

import OpenU60.Lib.BigEndian
import OpenU60.Lib.Split
import OpenU60.Lib.Utf8

namespace OpenU60.Web.QrDecode

open OpenU60.Lib

abbrev Bytes := List UInt8
abbrev Chars := List Char

inductive Fail where
  | notImage
  | tooLarge
  | unreadable
  | busy
  | timedOut
  deriving DecidableEq

def maxCodes : Nat := 4
def maxPayload : Nat := 1024
def maxSide : Nat := 12000
def maxPixels : Nat := 50000000

def check (w h : Nat) : Except Fail Unit :=
  if w = 0 ∨ h = 0 then .error .unreadable
  else if maxSide < w ∨ maxSide < h ∨ maxPixels < w * h then .error .tooLarge
  else .ok ()

/-! ## Arithmetic -/

/-- A `u32` -/
def u32 (n : Nat) : Option Nat := if n < 2 ^ 32 then some n else none

def minus (a b : Nat) : Option Nat := if b ≤ a then some (a - b) else none

def divided (a b : Nat) : Option Nat := if b = 0 then none else some (a / b)

def remainder (a b : Nat) : Option Nat := if b = 0 then none else some (a % b)

def divCeil (a b : Nat) : Nat := (a + b - 1) / b

/-! ## Scaling -/

/-- Grey of 1 to 4 channels: alpha over white. -/
def grey (p : Bytes) : Option UInt8 := do
  let (l, a) ← match p with
    | [] => some (255, 255)
    | [l] => some (l.toNat, 255)
    | [l, a] => some (l.toNat, a.toNat)
    | r :: g :: b :: rest => do
      let sum ← u32 (r.toNat * 77 + g.toNat * 150 + b.toNat * 29)
      some (sum / 256, (rest.head?.map UInt8.toNat).getD 255)
  let clear ← minus 255 a
  let sum ← u32 (l * a + 255 * clear)
  some (UInt8.ofNat (sum / 255))

/-- From `f` on, the first factor that fits; a factor of the longer side does. -/
def findFactor (w h budget : Nat) : Nat → Nat → Option Nat
  | 0, _ => none
  | fuel + 1, f => if divCeil w f * divCeil h f ≤ budget then some f else findFactor w h budget fuel (f + 1)

def shrinkFactor (w h budget : Nat) : Option Nat := findFactor w h budget (max w h) 1

structure Shrink where
  f : Nat
  w : Nat
  h : Nat
  acc : List Nat
  out : Bytes
  deriving DecidableEq

structure Grey where
  w : Nat
  h : Nat
  px : Bytes
  deriving DecidableEq

/-- A row's samples, and the bytes of each. -/
structure Row where
  n : Nat
  line : Bytes

/-- `chunks_exact` -/
def Row.samples (row : Row) : List Bytes := (List.range (row.line.length / row.n)).map fun x => (row.line.drop (x * row.n)).take row.n

namespace Shrink

def new (w h budget : Nat) : Option Shrink := do
  let f ← shrinkFactor w h budget
  some ⟨f, w, h, List.replicate (divCeil w f) 0, []⟩

/-- Samples from `x` on are added to their blocks. -/
def addSamples (f : Nat) : Nat → List Nat → List Bytes → Option (List Nat)
  | _, acc, [] => some acc
  | x, acc, p :: samples => do
    let i ← divided x f
    let g ← grey p
    let a ← acc[i]?
    let sum ← u32 (a + g.toNat)
    addSamples f (x + 1) (acc.set i sum) samples

/-- The means of the blocks from `i` on. -/
def means (f w rows : Nat) : Nat → List Nat → Option Bytes
  | _, [] => some []
  | i, a :: acc => do
    let left ← minus w (i * f)
    let area ← u32 (rows * min left f)
    let mean ← divided a area
    let later ← means f w rows (i + 1) acc
    some (UInt8.ofNat mean :: later)

def row (s : Shrink) (y : Nat) (row : Row) : Option Shrink := do
  let acc ← addSamples s.f 0 s.acc (row.samples.take s.w)
  let line ← remainder y s.f
  let last ← minus s.f 1
  if line = last ∨ y + 1 = s.h then
    let pixels ← means s.f s.w (line + 1) 0 acc
    some { s with acc := List.replicate acc.length 0, out := s.out ++ pixels }
  else some { s with acc }

def rows (s : Shrink) : Nat → List Row → Option Shrink
  | _, [] => some s
  | y, line :: lines => do
    let s ← s.row y line
    rows s (y + 1) lines

def done (s : Shrink) : Option Grey := do
  let h ← divided s.out.length s.acc.length
  some ⟨s.acc.length, h, s.out⟩

end Shrink

/-- A photo's rows, box-averaged. -/
def shrunk (w h budget : Nat) (lines : List Row) : Option Grey := do
  let s ← Shrink.new w h budget
  let s ← s.rows 0 lines
  s.done

/-! ## Scans -/

/-- The walk from `i` on; `fuel` is a turn for each byte. -/
def scanFrom (b : Bytes) : Nat → Nat → Nat → Option Nat
  | 0, _, _ => none
  | fuel + 1, i, n =>
    match b[i]?, b[i + 1]? with
    | some first, some m =>
      if first ≠ 0xff then scanFrom b fuel (i + 1) n
      else if m = 0xff then scanFrom b fuel (i + 1) n
      else if m = 0x00 ∨ m = 0x01 ∨ 0xd0 ≤ m ∧ m ≤ 0xd8 then scanFrom b fuel (i + 2) n
      else if m = 0xd9 then some n
      else
        let n := n + if m = 0xda then 1 else 0
        match b[i + 2]?, b[i + 3]? with
        | some high, some low => scanFrom b fuel (i + 2 + max (high.toNat * 256 + low.toNat) 2) n
        | _, _ => some n
    | _, _ => some n

def scanCount (b : Bytes) : Option Nat := scanFrom b (b.length + 1) 2 0

/-! ## The child's answer -/

/-- A payload that is found. -/
def addCode (out : List Chars) (s : Chars) : List Chars :=
  if Text.byteLen s ≤ maxPayload ∧ s ∉ out ∧ out.length < maxCodes then out ++ [s] else out

/-- The payloads that are kept of those found. -/
def read (found : List Chars) : List Chars := found.foldl addCode []

def magic : Bytes := [0x51, 0x52, 0x44, 0x31]

def frame : Except Fail (List Chars) → Bytes
  | .ok codes =>
    let codes := (codes.filter (Text.byteLen · ≤ maxPayload)).take maxCodes
    magic ++ [0, UInt8.ofNat codes.length] ++ codes.flatMap fun c => BigEndian.toBytes 2 (Text.byteLen c) ++ Utf8.utf8 c
  | .error .notImage => magic ++ [1]
  | .error .tooLarge => magic ++ [2]
  | .error _ => magic ++ [3]

/-- So many codes, each after its length. -/
def takeCodes : Nat → Bytes → Option (List Chars)
  | 0, _ => some []
  | n + 1, high :: low :: rest => do
    let len := high.toNat * 256 + low.toNat
    if rest.length < len ∨ maxPayload < len then none
    else do
      let code ← Utf8.fromUtf8 (rest.take len)
      let codes ← takeCodes n (rest.drop len)
      some (code :: codes)
  | _ + 1, _ => none

def answer (out : Bytes) : Option (Except Fail (List Chars)) :=
  match Split.splitOnce magic out with
  | none => none
  | some (_, []) => none
  | some (_, status :: rest) =>
    if status = 1 then some (.error .notImage)
    else if status = 2 then some (.error .tooLarge)
    else if status ≠ 0 then some (.error .unreadable)
    else
      match rest with
      | [] => none
      | n :: rest => (takeCodes (min n.toNat maxCodes) rest).map .ok

end OpenU60.Web.QrDecode
