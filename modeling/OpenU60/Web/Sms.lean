/-
  OpenU60.Web.Sms — the SMS pages' text and conversations (`web/sms.rs`).

  A message body is decoded if it is UCS-2 hex and that leaves text. Messages are sorted by
  ordered insertion of their indices, taken out of their slots newest first and filed under
  the key of their number; each conversation is then turned oldest first.
-/

import Mathlib
import OpenU60.Lib.Insertion
import OpenU60.Lib.Utf8
import OpenU60.SmsForward.Ucs2

namespace OpenU60.Web.Sms

open OpenU60.Lib OpenU60.Lib.Insertion

/-! ## Messages -/

def unreadTag : Nat := 1

structure Msg where
  id : Nat
  number : String
  content : String
  /-- Unix seconds, none when the date does not parse. -/
  date : Option Int
  tag : Nat
  deriving DecidableEq, Repr, Inhabited

structure Conv where
  key : String
  /-- The longest number variant. -/
  number : String
  /-- Oldest first. -/
  msgs : List Msg
  unread : Nat
  deriving DecidableEq, Repr

/-- The count and the newest id. -/
def Conv.fingerprint (c : Conv) : String := toString c.msgs.length ++ "-" ++ toString ((c.msgs.map (·.id)).max?.getD 0)

/-! ## Text -/

/-- `char::to_digit(16)` of a byte. -/
def hexDigit (b : UInt8) : Option Nat := Text.digitVal 16 (Char.ofNat b.toNat)

/-- A group of four digits. The accumulator is below 2^12 before each shift. -/
def group4 (a b c d : UInt8) : Option Nat :=
  [a, b, c, d].foldlM (fun acc x => (hexDigit x).map (acc * 16 + ·)) 0

/-- `chunks_exact(4)`, without the groups that are not hex. -/
def quads : List UInt8 → List Nat
  | a :: b :: c :: d :: rest => (group4 a b c d).toList ++ quads rest
  | _ => []

def replacement : Char := '\uFFFD'

/-- A code unit that is no surrogate. -/
def unitChar (u : Nat) : Char := Char.ofNat u

def isSurrogate (u : Nat) : Bool := 0xD800 ≤ u && u ≤ 0xDFFF

/-- `String::from_utf16_lossy`: an unpaired surrogate becomes U+FFFD. -/
def fromUtf16Lossy : List Nat → List Char
  | [] => []
  | u :: rest =>
    if !isSurrogate u then unitChar u :: fromUtf16Lossy rest
    else if 0xDC00 ≤ u then replacement :: fromUtf16Lossy rest
    else
      match rest with
      | [] => [replacement]
      | v :: rest' =>
        if 0xDC00 ≤ v && v ≤ 0xDFFF then Char.ofNat (0x10000 + (u - 0xD800) * 0x400 + (v - 0xDC00)) :: fromUtf16Lossy rest'
        else replacement :: fromUtf16Lossy (v :: rest')

def decodeUcs2 (bytes : List UInt8) : List Char := fromUtf16Lossy (quads bytes)

/-- `char::is_control`. -/
def isControl (c : Char) : Bool := c.toNat < 0x20 || (0x7F ≤ c.toNat && c.toNat ≤ 0x9F)

def keep (c : Char) : Bool := !isControl c || c == '\t' || c == '\n' || c == '\r'

def isHex (bytes : List UInt8) : Bool := bytes.length % 4 == 0 && bytes.all fun b => (hexDigit b).isSome

def content (raw : String) : String :=
  let bytes := Utf8.utf8 raw.toList
  let text := (if isHex bytes then decodeUcs2 bytes else []).filter keep
  String.ofList (if text.isEmpty then raw.toList.filter keep else text)

def encodeUcs2 (text : String) : String := String.ofList ((text.toList.flatMap SmsForward.encodeUtf16).flatMap Text.hex4)

/-! ## Conversations -/

/-- The tables of Unicode that `normalize` asks. -/
structure Unicode where
  /-- `char::is_alphabetic`. -/
  isAlphabetic : Char → Bool
  /-- `char::is_numeric`. -/
  isNumeric : Char → Bool
  /-- `char::to_uppercase`. -/
  toUppercase : Char → List Char

/-- A sender's name in capitals, or the last eight digits of a number. -/
def normalize (u : Unicode) (number : String) : String :=
  let t := Text.trim number.toList
  if t.any u.isAlphabetic then String.ofList (t.flatMap u.toUppercase)
  else
    let digits := t.filter u.isNumeric
    if digits.isEmpty then String.ofList t else String.ofList (digits.drop (digits.length - 8))

/-- A message without a date counts as `now`; ids break ties. -/
def Msg.time (now : Int) (m : Msg) : Int ×ₗ Nat := toLex (m.date.getD now, m.id)

/-- The indices of the messages, newest first. -/
def order (now : Int) (msgs : List Msg) : List Nat :=
  msgs.zipIdx.foldl (fun order x => order.insertIdx (partitionPoint (fun j => x.1.time now < msgs[j]!.time now) order) x.2) []

/-- `filter_map(|i| slots[i].take())`. -/
def takeSlots : List Nat → List (Option Msg) → List Msg
  | [], _ => []
  | i :: is, slots =>
    match slots[i]! with
    | some m => m :: takeSlots is (slots.set i none)
    | none => takeSlots is (slots.set i none)

/-- The first conversation with the key gets the message, else a new one. -/
def file (key : String) (m : Msg) : List Conv → List Conv
  | [] => [⟨key, "", [m], 0⟩]
  | c :: convs => if c.key = key then { c with msgs := c.msgs ++ [m] } :: convs else c :: file key m convs

def fileAll (u : Unicode) (msgs : List Msg) : List Conv := msgs.foldl (fun convs m => file (normalize u m.number) m convs) []

/-- A conversation whose messages are all filed: the longest number, the messages oldest
    first and how many are unread. -/
def settle (c : Conv) : Conv :=
  let longest := (c.msgs.map fun m => m.number.length).max?.getD 0
  { c with
    number := ((c.msgs.find? fun m => m.number.length == longest).map (·.number)).getD ""
    msgs := c.msgs.reverse
    unread := c.msgs.reverse.countP fun m => m.tag == unreadTag }

def group (u : Unicode) (msgs : List Msg) (now : Int) : List Conv :=
  (fileAll u (takeSlots (order now msgs) (msgs.map some))).map settle

end OpenU60.Web.Sms
