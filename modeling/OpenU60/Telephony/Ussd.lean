/-
  OpenU60.Telephony.Ussd — replies of the network to a USSD code (`zte-agent/src/telephony.rs`).

  Text is its characters. A slice of a text by byte positions is `none` where the code panics: at a position
  inside of a character. The table is the code's as it stands, 114 letters.
-/

import OpenU60.Lib.Decimal
import OpenU60.Lib.Split
import OpenU60.Lib.Utf8
import OpenU60.SmsForward.Fetch

namespace OpenU60.Telephony

open OpenU60.Lib OpenU60.Lib.Utf8

abbrev Chars := List Char
abbrev Bytes := List UInt8

/-! ## Decoding -/

/-- `GSM7_TABLE` -/
def gsm7Table : Chars :=
  ['@', '£', '$', '¥', 'è', 'é', 'ù', 'ì', 'ò', 'Ç', '\n', 'Ø', 'ø', '\r', 'Å', 'å', '_', '_', ' ', '!', '"', '#', '¤', '%', '&', '\'',
   '(', ')', '*', '+', ',', '-', '.', '/', '0', '1', '2', '3', '4', '5', '6', '7', '8', '9', ':', ';', '<', '=', '>', '?', '¡', 'A', 'B',
   'C', 'D', 'E', 'F', 'G', 'H', 'I', 'J', 'K', 'L', 'M', 'N', 'O', 'P', 'Q', 'R', 'S', 'T', 'U', 'V', 'W', 'X', 'Y', 'Z', 'Ä', 'Ö', 'Ñ',
   'Ü', '§', '¿', 'a', 'b', 'c', 'd', 'e', 'f', 'g', 'h', 'i', 'j', 'k', 'l', 'm', 'n', 'o', 'p', 'q', 'r', 's', 't', 'u', 'v', 'w', 'x',
   'y', 'z', 'ä', 'ö', 'ñ', 'ü', 'à']

/-- The slices `[i..i + n]` of a loop by `n` bytes, one a turn. -/
def slicesFrom (n : Nat) : Nat → Chars → Option (List Chars)
  | 0, _ => some []
  | turns + 1, text => do
    let (slice, rest) ← splitAtByte n text
    let slices ← slicesFrom n turns rest
    return slice :: slices

/-- The loop runs while a whole slice is left. -/
def slices (n : Nat) (text : Chars) : Option (List Chars) := slicesFrom n (Text.byteLen text / n) text

/-- What is not two hex digits is passed over. -/
def hexToBytes (hex : Chars) : Option Bytes := do
  let pairs ← slices 2 hex
  return pairs.filterMap fun pair => (Text.parseRadix 16 Text.u8Max pair).map UInt8.ofNat

/-- The septets of octets, from `shift` bits of the octet before on. -/
def septetsFrom (shift : Nat) (before : Option UInt8) : Bytes → List Nat
  | [] => []
  | byte :: bytes =>
    let val := match before with
      | some before => byte.toNat * 2 ^ shift + before.toNat / 2 ^ (8 - shift)
      | none => byte.toNat
    val % 128 :: if shift + 1 = 7 then byte.toNat / 2 :: septetsFrom 0 (some byte) bytes else septetsFrom (shift + 1) (some byte) bytes

/-- A septet past the table is left out. -/
def decodeGsm7 (hex : Chars) : Option Chars :=
  if hex = [] then some []
  else do
    let bytes ← hexToBytes hex
    return (septetsFrom 0 none bytes).filterMap (gsm7Table[·]?)

/-- Each unit is taken for a character. -/
def decodeUcs2 (hex : Chars) : Option Chars :=
  if hex = [] then some []
  else do
    let units ← slices 4 hex
    return units.filterMap fun unit => (Text.parseRadix 16 (2 ^ 32 - 1) unit).bind SmsForward.charOfCode

/-- The octets that are printable ASCII, or the hex where none is. -/
def fallback (hex : Chars) : Option Chars := do
  let bytes ← hexToBytes hex
  let out := (bytes.filter fun b => 32 ≤ b && b < 127).map fun b => Char.ofNat b.toNat
  return if out ≠ [] then out else hex

def decodeUssdResponse (hex : Chars) (dcs : Nat) : Option Chars :=
  let coding := dcs % 16
  if hex = [] then some []
  else if coding = 8 then decodeUcs2 hex
  else if coding = 0 ∨ coding = 15 then do
    let decoded ← decodeGsm7 hex
    if decoded ≠ [] then return decoded else fallback hex
  else fallback hex

/-! ## The modem's line -/

structure Cusd where
  status : Int
  body : Chars
  dcs : Nat
  deriving DecidableEq

/-- The number at the start of a text, as far as its digits go. -/
def leading (text : Chars) : Chars := text.takeWhile Char.isDigit

/-- What is between the first two quotes, and the coding after them. -/
def quoted (text : Chars) : Chars × Nat :=
  match Split.splitOnce ['"'] text with
  | none => ([], 15)
  | some (_, afterQ1) =>
    match Split.splitOnce ['"'] afterQ1 with
    | none => ([], 15)
    | some (body, afterBody) =>
      match Split.splitOnce [','] afterBody with
      | none => (body, 15)
      | some (_, dcs) => (body, (Text.parseUnsigned (2 ^ 32 - 1) (leading (Text.trim dcs))).getD 15)

/-- Of a line `+CUSD: status[,"body"[,dcs]]`. -/
def cusdLine (line : Chars) : Option Cusd :=
  if "+CUSD:".toList.isPrefixOf line then
    let rest := Text.trim (line.drop 6)
    let status := (Decimal.parseSigned Decimal.i64Max (leading rest)).getD (-1)
    let (body, dcs) := quoted (rest.drop (leading rest).length)
    some ⟨status, body, dcs⟩
  else none

def parseCusd (raw : Chars) : Option Cusd := (Text.lines raw).findSome? cusdLine

structure Response where
  response : Chars
  rawResponse : Chars
  status : Int
  dcs : Nat
  sessionActive : Bool
  deriving DecidableEq

def formatUssdResponse (parsed : Cusd) : Option Response := do
  let decoded ← decodeUssdResponse parsed.body parsed.dcs
  return { response := if decoded = [] then parsed.body else decoded, rawResponse := parsed.body, status := parsed.status,
           dcs := parsed.dcs, sessionActive := parsed.status = 1 }

end OpenU60.Telephony
