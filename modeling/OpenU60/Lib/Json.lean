/-
  OpenU60.Lib.Json — a parsed JSON value as the handlers read it (`serde_json::Value`).

  An integer is kept unbounded: the reader makes it a u64 or an i64 when it fits and a
  float otherwise, so `asU64` answers exactly for the integers of a u64.
-/

import OpenU60.Lib.Text

namespace OpenU60.Lib

inductive Json where
  | null
  | bool (b : Bool)
  | int (n : Int)
  | float (text : String)
  | str (s : String)
  | arr (items : List Json)
  | obj (fields : List (String × Json))

namespace Json

/-- `value[key]`: null for a missing key and for anything but an object. -/
def get (v : Json) (key : String) : Json :=
  match v with
  | .obj fields => ((fields.find? (·.1 == key)).map (·.2)).getD .null
  | _ => .null

def asU64 : Json → Option Nat
  | .int n => if 0 ≤ n ∧ n ≤ Text.u64Max then some n.toNat else none
  | _ => none

def asBool : Json → Option Bool
  | .bool b => some b
  | _ => none

def asStr : Json → Option String
  | .str s => some s
  | _ => none

/-- `as_u64().or_else(|| as_str().and_then(|s| s.parse().ok()))`. -/
def asU64OrText (v : Json) : Option Nat :=
  v.asU64 <|> v.asStr.bind fun s => Text.parseUnsigned Text.u64Max s.toList

theorem asU64_int {v : Json} {n : Nat} (h : v.asU64 = some n) : v = .int n ∧ n ≤ Text.u64Max := by
  cases v with
  | int m =>
    simp only [asU64] at h
    split at h
    · cases h
      refine ⟨?_, by omega⟩
      congr 1; omega
    · cases h
  | _ => cases h

end Json

end OpenU60.Lib
