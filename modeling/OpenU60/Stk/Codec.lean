/-
  OpenU60.Stk.Codec — SIM Toolkit commands and what is answered to them
  (`zte-agent/src/stk/codec.rs`): `Command::parse`, `response`, `select`, `input_response`, `view`.

  The three bytes of the command details are its number, its type and its qualifier. Texts are lists of
  characters.
-/

import OpenU60.Lib.BigEndian
import OpenU60.Lib.Json

namespace OpenU60.Stk

open OpenU60.Lib

abbrev Bytes := List UInt8
abbrev Chars := List Char

structure Command where
  number : UInt8
  kind : UInt8
  qualifier : UInt8
  title : Chars
  text : Chars
  items : List (UInt8 × Chars)
  min : UInt8
  max : UInt8

/-! ## Reading -/

def takeBytes (data : Bytes) (n : Nat) : Except String (Bytes × Bytes) :=
  if data.length < n then .error "truncated CAT data" else .ok (data.take n, data.drop n)

def length (data : Bytes) : Except String (Nat × Bytes) := do
  let (first, data) ← takeBytes data 1
  let n := first.headD 0
  if n = 0x81 then
    let (v, data) ← takeBytes data 1
    return (BigEndian.ofBytes v, data)
  else if n = 0x82 then
    let (v, data) ← takeBytes data 2
    return (BigEndian.ofBytes v, data)
  else if n ≤ 0x7F then return (n.toNat, data)
  else .error "unsupported CAT length"

/-- Pairs of hex digits. -/
def unhexPairs : Chars → Except String Bytes
  | [] => .ok []
  | [_] => .ok []
  | a :: b :: rest =>
    match Text.digitVal 16 a, Text.digitVal 16 b with
    | some a, some b => (unhexPairs rest).map (UInt8.ofNat (a * 16 + b) :: ·)
    | _, _ => .error "invalid CAT hex"

def unhex (text : Chars) : Except String Bytes :=
  if text.any (128 ≤ ·.toNat) ∨ text.length % 2 ≠ 0 ∨ 16384 < text.length then .error "invalid CAT hex" else unhexPairs text

/-- `{:02X}` of each byte. -/
def hex (data : Bytes) : Chars := data.flatMap fun b => [Text.hexChar (b.toNat / 16), Text.hexChar b.toNat]

/-- GSM 03.38 default alphabet. -/
def gsmTable : Chars :=
  "@£$¥èéùìòÇ\nØø\rÅåΔ_ΦΓΛΩΠΨΣΘΞ\x1bÆæßÉ !\"#¤%&'()*+,-./0123456789:;<=>?¡ABCDEFGHIJKLMNOPQRSTUVWXYZÄÖÑÜ§¿abcdefghijklmnopqrstuvwxyzäöñüà".toList

def gsmExtension (b : UInt8) : Option Char :=
  [(10, '\x0c'), (20, '^'), (40, '\x7b'), (41, '\x7d'), (47, '\\'), (60, '['), (61, '~'), (62, ']'), (64, '|'), (101, '€')].lookup b

/-- Whether the byte before was an escape is told. -/
def gsmFrom : Bool → Bytes → Except String Chars
  | false, [] => .ok []
  | true, [] => .error "truncated GSM escape"
  | true, b :: data =>
    match gsmExtension b with
    | some c => (gsmFrom false data).map (c :: ·)
    | none => .error "unknown GSM extension"
  | false, b :: data =>
    if b = 27 then gsmFrom true data
    else
      match gsmTable[b.toNat]? with
      | some c => (gsmFrom false data).map (c :: ·)
      | none => .error "invalid GSM character"

def gsm (data : Bytes) : Except String Chars := gsmFrom false data

/-- `char::from_u32`. -/
def charOf (n : Nat) : Option Char := if n.isValidChar then some (Char.ofNat n) else none

def ucs2Pairs : Bytes → Except String Chars
  | a :: b :: rest =>
    match charOf (a.toNat * 256 + b.toNat) with
    | some c => (ucs2Pairs rest).map (c :: ·)
    | none => .error "invalid UCS-2"
  | _ => .ok []

def ucs2 (data : Bytes) : Except String Chars := if data.length % 2 ≠ 0 then .error "odd UCS-2 length" else ucs2Pairs data

/-- Characters above a base, and the default alphabet between them; `fuel` is one a byte. -/
def alphaFrom (base : Nat) : Nat → Bytes → Except String Chars
  | _, [] => .ok []
  | 0, _ :: _ => .ok []
  | fuel + 1, b :: chars =>
    if b &&& 0x80 ≠ 0 then
      match charOf (base + (b &&& 0x7F).toNat) with
      | some c => (alphaFrom base fuel chars).map (c :: ·)
      | none => .error "invalid alpha character"
    else if b = 27 then
      match chars with
      | [] => .error "truncated GSM escape"
      | c :: chars => do
        let escaped ← gsm [b, c]
        return escaped ++ (← alphaFrom base fuel chars)
    else do
      let plain ← gsm [b]
      return plain ++ (← alphaFrom base fuel chars)

def alpha (data : Bytes) : Except String Chars :=
  let coded (header base : Nat) : Except String Chars :=
    let n := (data.getD 1 0).toNat
    if data.length < header + n then .error "truncated alpha identifier" else alphaFrom base n ((data.drop header).take n)
  if data.head? = some 0x80 then ucs2 data.tail
  else if data.head? = some 0x81 then
    if data.length < 3 then .error "truncated alpha identifier" else coded 3 ((data.getD 2 0).toNat * 128)
  else if data.head? = some 0x82 then
    if data.length < 4 then .error "truncated alpha identifier" else coded 4 ((data.getD 2 0).toNat * 256 + (data.getD 3 0).toNat)
  else gsm data

/-- The seven bits of packed text from `bit` on. -/
def septet (data : Bytes) (bit : Nat) : UInt8 :=
  let word := (data.getD (bit / 8) 0).toNat + (data.getD (bit / 8 + 1) 0).toNat * 256
  UInt8.ofNat (word / 2 ^ (bit % 8) % 128)

def textString : Bytes → Except String Chars
  | [] => .ok []
  | dcs :: data =>
    if dcs = 8 then ucs2 data
    else if dcs = 4 then gsm data
    else if dcs = 0 then gsm ((List.range (data.length * 8 / 7)).map fun i => septet data (i * 7))
    else .error "unsupported CAT text encoding"

/-- A command that is read, and whether its details and its devices were. -/
structure Reading where
  cmd : Command
  details : Bool
  devices : Bool

/-- One element of a command. -/
def Reading.element (r : Reading) (tag : UInt8) (val : Bytes) : Except String Reading :=
  let n := val.length
  let t := tag &&& 0x7F
  if t = 1 ∧ n = 3 ∧ r.details = false then
    .ok { r with cmd := { r.cmd with number := val.getD 0 0, kind := val.getD 1 0, qualifier := val.getD 2 0 }, details := true }
  else if t = 2 ∧ val = [0x81, 0x82] ∧ r.devices = false then .ok { r with devices := true }
  else if t = 5 then (alpha val).map fun title => { r with cmd := { r.cmd with title } }
  else if t = 13 then (textString val).map fun text => { r with cmd := { r.cmd with text } }
  else if t = 15 ∧ 0 < n then
    let id := val.headD 0
    if id = 0 ∨ r.cmd.items.any (·.1 = id) then .error "invalid CAT item ID"
    else (alpha val.tail).map fun label => { r with cmd := { r.cmd with items := r.cmd.items ++ [(id, label)] } }
  else if t = 15 then .ok r
  else if t = 17 ∧ n = 2 then .ok { r with cmd := { r.cmd with min := val.getD 0 0, max := val.getD 1 0 } }
  else if t ∈ [4, 16, 24, 25, 30, 31, 43, 80, 81] then .ok r
  else if tag &&& 0x80 = 0 then .ok r
  else .error ("unsupported required CAT tag " ++ String.ofList (hex [tag]))

/-- Elements up to the end; each takes two bytes at least. -/
def Reading.elements : Nat → Reading → Bytes → Except String Reading
  | _, r, [] => .ok r
  | 0, r, _ :: _ => .ok r
  | fuel + 1, r, tag :: data => do
    let (n, data) ← length data
    let (val, data) ← takeBytes data n
    Reading.elements fuel (← r.element tag val) data

def Command.parse (raw : Bytes) : Except String Command := do
  let (tag, data) ← takeBytes raw 1
  if tag ≠ [0xD0] then .error "expected proactive CAT command"
  else
    let (n, data) ← length data
    if n ≠ data.length then .error "CAT envelope length mismatch"
    else
      let r ← Reading.elements data.length ⟨⟨0, 0, 0, [], [], [], 0, 0⟩, false, false⟩ data
      if ¬ (r.details ∧ r.devices) then .error "missing CAT command details or devices"
      else if r.cmd.kind = 0x24 ∧ r.cmd.items.isEmpty then .error "empty SELECT ITEM"
      else if r.cmd.kind = 0x23 ∧ r.cmd.max < r.cmd.min then .error "invalid input limits"
      else .ok r.cmd

/-! ## Answering -/

namespace Command

def response (cmd : Command) (result : UInt8) (extra : Bytes) : Bytes :=
  [0x81, 3, cmd.number, cmd.kind, cmd.qualifier, 0x82, 2, 0x82, 0x81, 0x83, 1, result] ++ extra

/-- What is written for an item: an envelope from the root menu, else a response. -/
def select (cmd : Command) (item : UInt8) : Except String (Nat × Bytes) :=
  if ¬ cmd.items.any (·.1 = item) then .error "item is not in the current menu"
  else if cmd.kind = 0x25 then .ok (69, [0xD3, 7, 0x82, 2, 1, 0x81, 0x90, 1, item])
  else if cmd.kind = 0x24 then .ok (70, cmd.response 0 [0x90, 1, item])
  else .error "no selectable menu"

/-- The septets of a text, eight to seven bytes. -/
def pack (septets : List Nat) : Bytes :=
  (List.range ((septets.length * 7 + 7) / 8)).map fun i => UInt8.ofNat (((List.range septets.length).map fun j =>
    if i = j * 7 / 8 then septets.getD j 0 * 2 ^ (j * 7 % 8)
    else if i = j * 7 / 8 + 1 ∧ 1 < j * 7 % 8 then septets.getD j 0 / 2 ^ (8 - j * 7 % 8) else 0).foldl (· ||| ·) 0)

/-- The text with its coding before it. -/
def encoded (cmd : Command) (text : Chars) : Except String Bytes :=
  if cmd.qualifier &&& 2 ≠ 0 then
    if text.all (·.toNat < 65536) then .ok (8 :: text.flatMap fun c => BigEndian.toBytes 2 c.toNat)
    else .error "SIM requires UCS-2 characters"
  else
    match text.mapM fun c => if c = '\x1b' then none else gsmTable.idxOf? c with
    | none => .error "character is not supported by the SIM's input alphabet"
    | some septets => .ok (if cmd.kind = 0x23 ∧ cmd.qualifier &&& 8 ≠ 0 then 0 :: pack septets else 4 :: septets.map UInt8.ofNat)

def inputBytes (cmd : Command) (value : Json) : Except String Bytes :=
  if cmd.kind = 0x22 ∧ cmd.qualifier &&& 4 ≠ 0 then
    match (value.get "yes").asBool with
    | some yes => .ok [4, if yes then 1 else 0]
    | none => .error "yes must be a boolean"
  else
    match (value.get "text").asStr with
    | none => .error "missing text"
    | some text =>
      let text := text.toList
      let (min, max) := if cmd.kind = 0x22 then (1, 1) else (cmd.min.toNat, cmd.max.toNat)
      if text.length < min ∨ max < text.length then .error s!"input must contain {min}–{max} characters"
      else if cmd.qualifier &&& 1 = 0 ∧ ¬ text.all ("0123456789*#+".toList.contains ·) then .error "SIM requests digits only"
      else cmd.encoded text

def inputResponse (cmd : Command) (value : Json) : Except String Bytes :=
  if cmd.kind = 0x21 then .ok (cmd.response 0 [])
  else if cmd.kind ≠ 0x22 ∧ cmd.kind ≠ 0x23 then .error "no input request pending"
  else do
    let bytes ← cmd.inputBytes value
    if 255 < bytes.length then .error "encoded input exceeds CAT limit"
    else return cmd.response 0 ([0x8D] ++ (if 128 ≤ bytes.length then [0x81] else []) ++ [UInt8.ofNat bytes.length] ++ bytes)

/-- What a page is shown of the command. -/
def view (cmd : Command) : List (String × Json) :=
  let kind := if cmd.kind = 0x25 ∨ cmd.kind = 0x24 then "menu" else if cmd.kind = 0x21 then "display"
    else if cmd.kind = 0x22 ∨ cmd.kind = 0x23 then "input" else "unsupported"
  let chars (text : Chars) : Json := .str (String.ofList text)
  [("type", .str kind), ("title", chars cmd.title), ("text", chars cmd.text), ("data", chars cmd.text),
    ("items", .arr (cmd.items.map fun (id, label) => .obj [("id", .int id.toNat), ("label", chars label)])),
    ("root_menu", .bool (cmd.kind = 0x25)),
    ("input", .obj [("min", .int (if cmd.kind = 0x22 then 1 else cmd.min.toNat)), ("max", .int (if cmd.kind = 0x22 then 1 else cmd.max.toNat)),
      ("yes_no", .bool (cmd.kind = 0x22 ∧ cmd.qualifier &&& 4 ≠ 0)), ("hidden", .bool (cmd.kind = 0x23 ∧ cmd.qualifier &&& 4 ≠ 0)),
      ("digits_only", .bool (cmd.qualifier &&& 1 = 0))])]

end Command

end OpenU60.Stk
