/-
  OpenU60.Lib.Text — the parts of Rust's string library the agent's checks rest on, over
  the characters of a string: unsigned integer parsing, `trim`, substring search, byte
  lengths and zero-padded numbers.

  `parseUnsigned` is `str::parse` for an unsigned type: an optional `+`, at least one
  ASCII digit, no other character, and a value that fits.
-/

import Mathlib

namespace OpenU60.Lib.Text

/-- `char::to_digit`. -/
def digitVal (base : Nat) (c : Char) : Option Nat :=
  let d :=
    if '0' ≤ c ∧ c ≤ '9' then some (c.toNat - '0'.toNat)
    else if 'a' ≤ c ∧ c ≤ 'f' then some (c.toNat - 'a'.toNat + 10)
    else if 'A' ≤ c ∧ c ≤ 'F' then some (c.toNat - 'A'.toNat + 10)
    else none
  d.filter (· < base)

/-- The value of a run of digits after `acc`, `none` at any other character or as soon as
    the value passes `max`. -/
def digitsFrom (base max : Nat) : Nat → List Char → Option Nat
  | acc, [] => some acc
  | acc, c :: cs =>
    match digitVal base c with
    | none => none
    | some d => if acc * base + d ≤ max then digitsFrom base max (acc * base + d) cs else none

/-- `from_str_radix` for an unsigned type whose largest value is `max`, bases up to 16. -/
def parseRadix (base max : Nat) : List Char → Option Nat
  | [] => none
  | ['+'] => none
  | '+' :: cs => digitsFrom base max 0 cs
  | cs => digitsFrom base max 0 cs

/-- `str::parse` for an unsigned type. -/
def parseUnsigned (max : Nat) (cs : List Char) : Option Nat := parseRadix 10 max cs

def u8Max : Nat := 2 ^ 8 - 1
def u16Max : Nat := 2 ^ 16 - 1
def u64Max : Nat := 2 ^ 64 - 1

/-- What the bytes after a first byte of UTF-8 are between. -/
def utf8Next (b : UInt8) : Option (List (UInt8 × UInt8)) :=
  if b < 0x80 then some []
  else if 0xC2 ≤ b ∧ b ≤ 0xDF then some [(0x80, 0xBF)]
  else if b = 0xE0 then some [(0xA0, 0xBF), (0x80, 0xBF)]
  else if b = 0xED then some [(0x80, 0x9F), (0x80, 0xBF)]
  else if 0xE1 ≤ b ∧ b ≤ 0xEF then some [(0x80, 0xBF), (0x80, 0xBF)]
  else if b = 0xF0 then some [(0x90, 0xBF), (0x80, 0xBF), (0x80, 0xBF)]
  else if 0xF1 ≤ b ∧ b ≤ 0xF3 then some [(0x80, 0xBF), (0x80, 0xBF), (0x80, 0xBF)]
  else if b = 0xF4 then some [(0x80, 0x8F), (0x80, 0xBF), (0x80, 0xBF)]
  else none

/-- The rest of a character, and UTF-8 after it. -/
def utf8From : List (UInt8 × UInt8) → List UInt8 → Bool
  | [], [] => true
  | _ :: _, [] => false
  | [], b :: rest =>
    match utf8Next b with
    | some ranges => utf8From ranges rest
    | none => false
  | (low, high) :: ranges, b :: rest => low ≤ b && b ≤ high && utf8From ranges rest

/-- `str::from_utf8` takes the bytes. -/
def utf8Valid (bytes : List UInt8) : Bool := utf8From [] bytes

/-- `char::is_whitespace`: the Unicode White_Space property. -/
def isWhitespace (c : Char) : Bool :=
  let n := c.toNat
  (9 ≤ n && n ≤ 13) || n == 0x20 || n == 0x85 || n == 0xA0 || n == 0x1680 || (0x2000 ≤ n && n ≤ 0x200A) ||
    n == 0x2028 || n == 0x2029 || n == 0x202F || n == 0x205F || n == 0x3000

/-- `str::trim`. -/
def trim (cs : List Char) : List Char :=
  ((cs.dropWhile isWhitespace).reverse.dropWhile isWhitespace).reverse

/-- A line without the carriage return before its line feed. -/
def dropCr (line : List Char) : List Char := if line.getLast? = some '\r' then line.dropLast else line

/-- `str::lines`, after the start of a line. -/
def linesFrom : List Char → List Char → List (List Char)
  | line, [] => if line = [] then [] else [line]
  | line, c :: cs => if c = '\n' then dropCr line :: linesFrom [] cs else linesFrom (line ++ [c]) cs

def lines (cs : List Char) : List (List Char) := linesFrom [] cs

/-- `str::contains`. -/
def contains (sub : List Char) : List Char → Bool
  | [] => sub.isEmpty
  | c :: cs => sub.isPrefixOf (c :: cs) || contains sub cs

/-- `str::len`: bytes of UTF-8. -/
def byteLen (cs : List Char) : Nat := (cs.map Char.utf8Size).sum

/-- `s[..s.floor_char_boundary(max)]`: the longest prefix of at most `max` bytes. -/
def floorBoundary : Nat → List Char → List Char
  | _, [] => []
  | max, c :: cs => if c.utf8Size ≤ max then c :: floorBoundary (max - c.utf8Size) cs else []

/-- The ASCII digit of a value below ten. -/
def digitChar (n : Nat) : Char := Char.ofNat ('0'.toNat + n % 10)

/-- `{:02}` for a value below a hundred. -/
def pad2 (n : Nat) : List Char := [digitChar (n / 10), digitChar n]

/-- The upper-case digit of a value below sixteen. -/
def hexChar (n : Nat) : Char := if n % 16 < 10 then digitChar (n % 16) else Char.ofNat ('A'.toNat + (n % 16 - 10))

/-- `{:04X}` for a value below 65536. -/
def hex4 (n : Nat) : List Char := [hexChar (n / 4096), hexChar (n / 256), hexChar (n / 16), hexChar n]

theorem byteLen_cons (c : Char) (cs : List Char) : byteLen (c :: cs) = c.utf8Size + byteLen cs := by
  rw [byteLen, List.map_cons, List.sum_cons]
  rfl

theorem byteLen_append (a b : List Char) : byteLen (a ++ b) = byteLen a + byteLen b := by
  rw [byteLen, List.map_append, List.sum_append]
  rfl

theorem byteLen_ascii {cs : List Char} (h : ∀ c ∈ cs, c.toNat < 0x80) : byteLen cs = cs.length := by
  induction cs with
  | nil => rfl
  | cons c cs ih =>
    have hc := h c List.mem_cons_self
    have hone : c.val ≤ 0x7F := UInt32.le_iff_toNat_le.mpr (Nat.le_of_lt_succ hc)
    have hsize : c.utf8Size = 1 := if_pos hone
    rw [byteLen_cons, ih fun d hd => h d (List.mem_cons_of_mem c hd), hsize, List.length_cons]
    omega

theorem alphanum_ascii {c : Char} (h : c.isAlphanum = true) : c.toNat < 0x80 := by
  simp only [Char.isAlphanum, Char.isAlpha, Char.isUpper, Char.isLower, Char.isDigit, Bool.or_eq_true, Bool.and_eq_true,
    decide_eq_true_eq, ge_iff_le, UInt32.le_iff_toNat_le] at h
  show c.val.toNat < 128
  have hZ : 'Z'.val.toNat = 90 := rfl
  have hz : 'z'.val.toNat = 122 := rfl
  have h9 : '9'.val.toNat = 57 := rfl
  omega

/-- One character of the first 128 after the other. -/
theorem forall_ascii {p : Char → Prop} (h : ∀ n < 128, p (Char.ofNat n)) {c : Char} (hc : c.toNat < 0x80) : p c := by
  have hown := h c.toNat hc
  rw [Char.ofNat_toNat] at hown
  exact hown

theorem dropWhile_eq_self {q : Char → Bool} {cs : List Char} (h : ∀ c ∈ cs.head?, q c = false) : cs.dropWhile q = cs := by
  cases cs with
  | nil => rfl
  | cons c cs => exact List.dropWhile_cons_of_neg (by rw [h c rfl]; exact Bool.false_ne_true)

theorem head_dropWhile (q : Char → Bool) (cs : List Char) : ∀ c ∈ (cs.dropWhile q).head?, q c = false := by
  induction cs with
  | nil => exact fun c hc => by cases hc
  | cons a cs ih =>
    by_cases ha : q a = true
    · rw [List.dropWhile_cons_of_pos ha]
      exact ih
    · rw [List.dropWhile_cons_of_neg ha]
      intro c hc
      cases hc
      exact Bool.eq_false_iff.mpr ha

theorem linesFrom_append {line u : List Char} (h : '\n' ∉ u) (v : List Char) :
    linesFrom line (u ++ '\n' :: v) = dropCr (line ++ u) :: lines v := by
  induction u generalizing line with
  | nil => simp [linesFrom, lines]
  | cons c u ih =>
    rw [List.mem_cons, not_or] at h
    rw [List.cons_append, linesFrom, if_neg (fun hc => h.1 hc.symm), ih h.2]
    simp

/-- A line that ends in no carriage return is read as it is. -/
theorem lines_append {u : List Char} (h : '\n' ∉ u) (hlast : u.getLast? ≠ some '\r') (v : List Char) :
    lines (u ++ '\n' :: v) = u :: lines v := by
  unfold lines
  rw [linesFrom_append h, List.nil_append, dropCr, if_neg hlast]
  rfl

/-- Trimmed text does not begin with a space. -/
theorem head_trim (cs : List Char) : ∀ c ∈ (trim cs).head?, isWhitespace c = false := by
  unfold trim
  have hpre : ((cs.dropWhile isWhitespace).reverse.dropWhile isWhitespace).reverse <+: cs.dropWhile isWhitespace := by
    rw [← List.reverse_suffix, List.reverse_reverse]
    exact List.dropWhile_suffix _
  obtain ⟨rest, hrest⟩ := hpre
  intro c hc
  refine head_dropWhile isWhitespace cs c ?_
  rw [← hrest]
  cases htrim : ((cs.dropWhile isWhitespace).reverse.dropWhile isWhitespace).reverse with
  | nil => rw [htrim] at hc; cases hc
  | cons a as => rw [htrim] at hc; exact hc

/-- Nothing is trimmed where neither end is a space. -/
theorem trim_eq_self {cs : List Char} (hhead : ∀ c ∈ cs.head?, isWhitespace c = false)
    (hlast : ∀ c ∈ cs.getLast?, isWhitespace c = false) : trim cs = cs := by
  unfold trim
  rw [dropWhile_eq_self hhead, dropWhile_eq_self, List.reverse_reverse]
  rw [List.head?_reverse]
  exact hlast

theorem last_trim (cs : List Char) : ∀ c ∈ (trim cs).getLast?, isWhitespace c = false := by
  intro c hc
  unfold trim at hc
  rw [List.getLast?_reverse] at hc
  exact head_dropWhile isWhitespace _ c hc

theorem trim_idem (cs : List Char) : trim (trim cs) = trim cs := trim_eq_self (head_trim cs) (last_trim cs)

theorem trim_visible {cs : List Char} (h : ∀ c ∈ cs, isWhitespace c = false) : trim cs = cs :=
  trim_eq_self (fun c hc => h c (List.mem_of_mem_head? hc)) fun c hc => h c (List.mem_of_mem_getLast? hc)

theorem mem_trim {cs : List Char} {c : Char} (h : c ∈ trim cs) : c ∈ cs := by
  unfold trim at h
  exact (List.dropWhile_sublist _).subset (List.mem_reverse.mp ((List.dropWhile_sublist _).subset (List.mem_reverse.mp h)))

theorem trim_space (cs : List Char) : trim (' ' :: cs) = trim cs := by
  unfold trim
  rw [List.dropWhile_cons_of_pos (by decide)]

theorem digitVal_hexChar (n : Nat) : digitVal 16 (hexChar n) = some (n % 16) := by
  have hall : ∀ d < 16, digitVal 16 (hexChar d) = some d := by decide
  have hmod : hexChar n = hexChar (n % 16) := by simp [hexChar]
  rw [hmod]
  exact hall (n % 16) (Nat.mod_lt _ (by omega))

theorem hexChar_ascii (n : Nat) : isWhitespace (hexChar n) = false ∧ hexChar n ≠ '+' := by
  have hall : ∀ d < 16, isWhitespace (hexChar d) = false ∧ hexChar d ≠ '+' := by decide
  have hmod : hexChar n = hexChar (n % 16) := by simp [hexChar]
  rw [hmod]
  exact hall (n % 16) (Nat.mod_lt _ (by omega))

theorem parseRadix_digits {base max : Nat} {c : Char} (h : c ≠ '+') (cs : List Char) :
    parseRadix base max (c :: cs) = digitsFrom base max 0 (c :: cs) := by
  unfold parseRadix
  split
  · rename_i heq
    cases heq
  · rename_i heq
    exact absurd (List.cons.inj heq).1 h
  · rename_i heq
    exact absurd (List.cons.inj heq).1 h
  · rfl

theorem parseRadix_hex4 {n : Nat} (h : n < 65536) : parseRadix 16 u16Max (hex4 n) = some n := by
  have hmax : u16Max = 65535 := rfl
  unfold hex4
  rw [parseRadix_digits (hexChar_ascii _).2]
  simp only [digitsFrom, digitVal_hexChar]
  rw [if_pos (by omega), if_pos (by omega), if_pos (by omega), if_pos (by omega)]
  congr 1
  omega

end OpenU60.Lib.Text
