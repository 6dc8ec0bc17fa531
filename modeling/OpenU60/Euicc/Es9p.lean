/-
  OpenU60.Euicc.Es9p — what ES9+ sends and reads as JSON (`euicc/src/es9p.rs`: `print_object`,
  `read_response`, `Status`).

  `readWith` is `read_response` over any kind of value; `readResponse` uses it with what `parse` keeps.
  - `parse_printObject`: what is printed is read back;
  - `readResponse_tree`: reading the whole value gives the same;
  - `reader_faithful`: both, and the grammar of the reader.
-/

import OpenU60.Euicc.Es9pParse

namespace OpenU60.Euicc.Es9p

open OpenU60.Euicc.Der (Bytes)

def ascii (s : String) : Bytes := s.toList.map fun c => UInt8.ofNat c.toNat

/-! ## Requests -/

def hex : Bytes := [0x30, 0x31, 0x32, 0x33, 0x34, 0x35, 0x36, 0x37, 0x38, 0x39, 0x61, 0x62, 0x63, 0x64, 0x65, 0x66]

/-- `"`, `\` and control characters are escaped. -/
def printByte (b : UInt8) : Bytes :=
  if b = quote then [backslash, quote]
  else if b = backslash then [backslash, backslash]
  else if b = 0x08 then [backslash, 0x62]
  else if b = 0x0C then [backslash, 0x66]
  else if b = 0x0A then [backslash, 0x6E]
  else if b = 0x0D then [backslash, 0x72]
  else if b = 0x09 then [backslash, 0x74]
  else if b ≤ 0x1F then [backslash, 0x75, 0x30, 0x30, hex.getD (b.toNat / 16) 0, hex.getD (b.toNat % 16) 0]
  else [b]

def printString (s : Bytes) : Bytes := quote :: (s.flatMap printByte ++ [quote])

def printMember (m : Bytes × Option Bytes) : Bytes :=
  printString (cBytes m.1) ++ colon ::
    match m.2 with
    | some v => printString (cBytes v)
    | none => [0x6E, 0x75, 0x6C, 0x6C]

def printMembers : List (Bytes × Option Bytes) → Bytes
  | [] => []
  | [m] => printMember m
  | m :: members => printMember m ++ comma :: printMembers members

/-- An object of strings (`none` prints as `null`), members in order. -/
def printObject (members : List (Bytes × Option Bytes)) : Bytes := openObject :: (printMembers members ++ [closeObject])

/-! ## Responses -/

/-- What is read of a value: its members, or its text. -/
structure Reader (V : Type) where
  members : V → Option (List (Bytes × V))
  str : V → Option Bytes

def Json.reader : Reader Json where
  members
    | .obj members => some members
    | _ => none
  str
    | .str v => some v
    | _ => none

def Tree.reader : Reader Tree where
  members
    | .obj members => some members
    | _ => none
  str
    | .str v => some v
    | _ => none

/-- `to_ascii_lowercase`, of a byte. -/
def lowerByte (b : UInt8) : UInt8 := if 0x41 ≤ b ∧ b ≤ 0x5A then b + 32 else b

section

variable {V : Type} (R : Reader V)

/-- The first member of the name, read as a C string and ignoring ASCII case. -/
def Reader.get (v : V) (name : Bytes) : Option V :=
  (R.members v).bind fun members => (members.find? fun m => (cBytes m.1).map lowerByte = name.map lowerByte).map (·.2)

/-- The text of a member. -/
def Reader.text (v : V) (name : Bytes) : Option Bytes := (R.get v name).bind R.str

end

def codeLen : Nat := 8
def textLen : Nat := 128

/-- The C string in `value`, cut. -/
def field (value : Bytes) (cap : Nat) : Bytes := (cBytes value).take cap

def errors : List (String × String × String) := [
  ("8.1", "4.8", "eUICC does not have sufficient space for this Profile"),
  ("8.1", "6.1", "eUICC signature is invalid or serverChallenge is invalid"),
  ("8.1.1", "2.2", "Indicates that the EID is missing in the context of this order (SM-DS address provided or MatchingID value is empty)"),
  ("8.1.1", "3.1", "Indicates that a different EID is already associated with this ICCID"),
  ("8.1.1", "3.8", "EID doesn't match the expected value"),
  ("8.1.2", "6.1", "EUM Certificate is invalid"),
  ("8.1.2", "6.3", "EUM Certificate has expired"),
  ("8.1.3", "6.1", "eUICC Certificate is invalid"),
  ("8.1.3", "6.3", "eUICC Certificate has expired"),
  ("8.2", "1.2", "Profile has not yet been released"),
  ("8.2", "3.7", "BPP is not available for a new binding"),
  ("8.2.1", "1.2", "Indicates that the function caller is not allowed to perform this function on the target Profile"),
  ("8.2.1", "3.1", "Indicates that a different EID is associated with this ICCID"),
  ("8.2.1", "3.3", "Indicates that the Profile identified by the provided ICCID is not available"),
  ("8.2.1", "3.5", "Indicates that the target Profile cannot be released"),
  ("8.2.1", "3.9", "Indicates that the Profile Type identified by this Profile Type is unknown to the SM-DP+"),
  ("8.2.5", "1.2", "Indicates that the function caller is not allowed to perform this function on the Profile Type"),
  ("8.2.5", "3.7", "No more Profile available for the requested Profile Type"),
  ("8.2.5", "3.8", "Indicates that the Profile Type identified by this Profile Type is not aligned with the Profile Type of Profile identified by the ICCID"),
  ("8.2.5", "3.9", "Indicates that the Profile Type identified by this Profile Type is unknown to the SM-DP+"),
  ("8.2.5", "4.3", "No eligible Profile for this eUICC/Device"),
  ("8.2.6", "3.1", "Indicates that a different MatchingID is associated with this ICCID"),
  ("8.2.6", "3.3", "Conflicting MatchingID value"),
  ("8.2.6", "3.8", "MatchingID (AC_Token or EventID) is refused"),
  ("8.2.7", "2.2", "Confirmation Code is missing"),
  ("8.2.7", "3.8", "Confirmation Code is refused"),
  ("8.2.7", "6.4", "The maximum number of retries for the Confirmation Code has been exceeded"),
  ("8.8", "3.1", "The provided SM-DP+ OID is invalid"),
  ("8.8.1", "3.8", "Invalid SM-DP+ Address"),
  ("8.8.2", "3.1", "None of the proposed Public Key Identifiers is supported by the SM-DP+"),
  ("8.8.3", "3.1", "The Specification Version Number indicated by the eUICC is not supported by the SM-DP+"),
  ("8.8.4", "3.7", "The SM-DP+ has no CERT.DPauth.ECDSA signed by one of the CI Public Key supported by the eUICC"),
  ("8.8.5", "4.1", "The Download order has expired"),
  ("8.8.5", "6.4", "The maximum number of retries for the Profile download order has been exceeded"),
  ("8.9", "4.2", "Root SM-DS has raised an error"),
  ("8.9", "5.1", "Root SM-DS was unavailable"),
  ("8.9.1", "3.8", "Invalid SM-DS Address"),
  ("8.9.2", "3.1", "None of the proposed Public Key Identifiers is supported by the SM-DS"),
  ("8.9.3", "3.1", "The Specification Version Number indicated by the eUICC is not supported by the SM-DS"),
  ("8.9.4", "3.7", "The SM-DS has no CERT.DS.ECDSA signed by one of the GSMA CI Public Key supported by the eUICC"),
  ("8.9.5", "3.3", "The Event Record already exist in the SM-DS (EventID duplicated)"),
  ("8.9.5", "3.9", "No Event identified by the Event ID for the EID exists"),
  ("8.10.1", "3.9", "The RSP session identified by the TransactionID is unknown"),
  ("8.11.1", "3.9", "Unknown CI Public Key. The CI used by the EUM Certificate is not a trusted root.")]

def errorMessage (subjectCode reasonCode : Bytes) : Option Bytes :=
  (errors.find? fun e => ascii e.1 = subjectCode ∧ ascii e.2.1 = reasonCode).map fun e => ascii e.2.2

structure Status where
  subjectCode : Bytes
  reasonCode : Bytes
  subjectIdentifier : Bytes
  message : Bytes

namespace Status

def new (subjectIdentifier message : String) : Status where
  subjectCode := ascii "0.0.0"
  reasonCode := ascii "0.0.0"
  subjectIdentifier := field (ascii subjectIdentifier) textLen
  message := field (ascii message) textLen

/-- What the server reported in `statusCodeData`. -/
def apply {V : Type} (R : Reader V) (status : Status) (data : V) : Status :=
  let reasonCode := ((R.text data (ascii "reasonCode")).map (field · codeLen)).getD status.reasonCode
  let subjectCode := ((R.text data (ascii "subjectCode")).map (field · codeLen)).getD status.subjectCode
  { reasonCode, subjectCode
    subjectIdentifier := ((R.text data (ascii "subjectIdentifier")).map (field · textLen)).getD status.subjectIdentifier
    message :=
      match R.text data (ascii "message") with
      | some v => field v textLen
      | none =>
        match errorMessage subjectCode reasonCode with
        | some description => field description textLen
        | none => field (ascii "subject-code: " ++ subjectCode ++ ascii ", reason-code: " ++ reasonCode) textLen }

end Status

/-- `read_response`, of the value the text is parsed to. -/
def readWith {V : Type} (R : Reader V) (root : Option V) (keys : List Bytes) : Except Status (List Bytes) :=
  match root with
  | none => .error (.new "root" "Not JSON")
  | some root =>
    if (R.members root).isNone then .error (.new "root" "Not Object")
    else
      match R.get root (ascii "header") with
      | none => .error (.new "header" "Critical object missing")
      | some header =>
        match R.get header (ascii "functionExecutionStatus") with
        | none => .error (.new "functionExecutionStatus" "Critical object missing")
        | some execution =>
          let status := Status.new "unknown" "unknown"
          let status := ((R.get execution (ascii "statusCodeData")).map (status.apply R)).getD status
          keys.mapM fun key => match R.text root key with | some v => .ok (cBytes v) | none => .error status

def readResponse (body : Bytes) (keys : List Bytes) : Except Status (List Bytes) := readWith Json.reader (parse body) keys

/-! ## What is printed is read back -/

/-- A control character, by its number. -/
theorem control (P : UInt8 → Prop) (h : ∀ n < 32, P (UInt8.ofNat n)) {b : UInt8} (hb : b ≤ 0x1F) : P b := by
  have := h b.toNat (Nat.lt_succ_of_le (UInt8.le_iff_toNat_le.mp hb))
  rwa [UInt8.ofNat_toNat] at this

/-- The four digits of a control character. -/
def digits4 (b : UInt8) : Bytes := [0x30, 0x30, hex.getD (b.toNat / 16) 0, hex.getD (b.toNat % 16) 0]

theorem hex4_control {b : UInt8} (hb : b ≤ 0x1F) : hex4 (digits4 b) = b.toNat ∧ utf8 (hex4 (digits4 b)) = [b] :=
  control (fun b => hex4 (digits4 b) = b.toNat ∧ utf8 (hex4 (digits4 b)) = [b]) (by decide +kernel) hb

theorem digits4_plain {b : UInt8} (hb : b ≤ 0x1F) : ∀ d ∈ digits4 b, d ≠ quote ∧ d ≠ backslash ∧ d ≠ 0 := by
  intro d hd
  have hall := control (fun b => (digits4 b).all (fun d => d ≠ quote && d ≠ backslash && d ≠ 0) = true) (by decide +kernel) hb
  have hplain := List.all_eq_true.mp hall d hd
  simp only [Bool.and_eq_true, decide_eq_true_eq] at hplain
  exact ⟨hplain.1.1, hplain.1.2, hplain.2⟩

/-- How a byte is printed. -/
inductive Printed (b : UInt8) : Bytes → Prop
  | escaped {e : UInt8} : escape e = some b → e ≠ 0 → Printed b [backslash, e]
  | control : b ≤ 0x1F → Printed b (backslash :: 0x75 :: digits4 b)
  | plain : b ≠ quote → b ≠ backslash → Printed b [b]

theorem printed (b : UInt8) : Printed b (printByte b) := by
  have hescaped : ∀ {e c : UInt8}, b = c → escape e = some c → e ≠ 0 → Printed b [backslash, e] := by
    rintro e c rfl he hne
    exact .escaped he hne
  unfold printByte
  by_cases hq : b = quote
  · rw [if_pos hq]
    exact hescaped hq rfl (by decide)
  by_cases hb : b = backslash
  · rw [if_neg hq, if_pos hb]
    exact hescaped hb rfl (by decide)
  rw [if_neg hq, if_neg hb]
  split
  · exact hescaped ‹b = 0x08› rfl (by decide)
  split
  · exact hescaped ‹b = 0x0C› rfl (by decide)
  split
  · exact hescaped ‹b = 0x0A› rfl (by decide)
  split
  · exact hescaped ‹b = 0x0D› rfl (by decide)
  split
  · exact hescaped ‹b = 0x09› rfl (by decide)
  split
  · exact .control ‹b ≤ 0x1F›
  · exact .plain hq hb

theorem spells_printByte (b : UInt8) {c v : Bytes} (h : Spells c v) : Spells (printByte b ++ c) (b :: v) := by
  have hprinted := printed b
  generalize printByte b = out at hprinted
  cases hprinted with
  | escaped he => exact .escape he h
  | control hb =>
    obtain ⟨hvalue, hutf8⟩ := hex4_control hb
    have hlt := b.toNat_lt
    have hlow : ¬ isLow (hex4 (digits4 b)) := by
      rw [hvalue]
      unfold isLow
      omega
    have hhigh : ¬ isHigh (hex4 (digits4 b)) := by
      rw [hvalue]
      unfold isHigh
      omega
    have hspells : Spells (backslash :: 0x75 :: (digits4 b ++ c)) (utf8 (hex4 (digits4 b)) ++ v) := .unit rfl hlow hhigh h
    rw [hutf8] at hspells
    exact hspells
  | plain hq hb => exact .plain hb h

theorem content_printByte (b : UInt8) {c : Bytes} (h : Content c) : Content (printByte b ++ c) := by
  have hprinted := printed b
  generalize printByte b = out at hprinted
  cases hprinted with
  | escaped => exact .escaped h
  | control hb =>
    have hplain : ∀ {ds : Bytes}, (∀ d ∈ ds, d ≠ quote ∧ d ≠ backslash ∧ d ≠ 0) → Content (ds ++ c) := by
      intro ds hds
      induction ds with
      | nil => exact h
      | cons d ds ih =>
        exact .plain (hds d List.mem_cons_self).1 (hds d List.mem_cons_self).2.1 (ih fun d' hd' => hds d' (List.mem_cons_of_mem _ hd'))
    exact .escaped (hplain (digits4_plain hb))
  | plain hq hb => exact .plain hq hb h

theorem ne_zero_of_printed {b : UInt8} (hb : b ≠ 0) : ∀ d ∈ printByte b, d ≠ 0 := by
  have hprinted := printed b
  generalize printByte b = out at hprinted
  intro d hd
  cases hprinted with
  | escaped _ he =>
    rcases List.mem_cons.mp hd with rfl | hd
    · decide
    · rw [List.mem_singleton.mp hd]
      exact he
  | control hb =>
    rcases List.mem_cons.mp hd with rfl | hd
    · decide
    rcases List.mem_cons.mp hd with rfl | hd
    · decide
    · exact (digits4_plain hb d hd).2.2
  | plain =>
    rw [List.mem_singleton.mp hd]
    exact hb

theorem stringLit_print (s r : Bytes) : StringLit (printString s ++ r) s r := by
  refine ⟨s.flatMap printByte, ?_, ?_, ?_⟩
  · unfold printString
    simp
  · induction s with
    | nil => exact .nil
    | cons b s ih => exact content_printByte b ih
  · induction s with
    | nil => exact .nil
    | cons b s ih => exact spells_printByte b ih

/-- Members whose texts have no NUL. -/
def NulFree (members : List (Bytes × Option Bytes)) : Prop := ∀ m ∈ members, (∀ b ∈ m.1, b ≠ 0) ∧ ∀ v, m.2 = some v → ∀ b ∈ v, b ≠ 0

/-- What a member is read as. -/
def asTree (m : Bytes × Option Bytes) : Bytes × Tree := (m.1, match m.2 with | some v => .str v | none => .scalar)
def asJson (m : Bytes × Option Bytes) : Bytes × Json := (m.1, match m.2 with | some v => .str v | none => .other)

theorem cBytes_eq {s : Bytes} (h : ∀ b ∈ s, b ≠ 0) : cBytes s = s := by
  have htake : (s ++ []).takeWhile (· ≠ 0) = s ++ [].takeWhile (· ≠ 0) := List.takeWhile_append_of_pos fun b hb => decide_eq_true (h b hb)
  rwa [List.append_nil, List.takeWhile_nil, List.append_nil] at htake

theorem skipWhitespace_cons {b : UInt8} (h : ¬ b ≤ 32) (s : Bytes) : skipWhitespace (b :: s) = b :: s := by
  unfold skipWhitespace
  rw [List.dropWhile_cons, decide_eq_false h]
  rfl

theorem value_printed {m : Bytes × Option Bytes} (hm : ∀ v, m.2 = some v → ∀ b ∈ v, b ≠ 0) (depth : Nat) (r : Bytes) :
    ∃ s, printMember m ++ r = printString (cBytes m.1) ++ colon :: s ∧ skipWhitespace s = s ∧ Value depth s (asTree m).2 r := by
  obtain ⟨name, value⟩ := m
  cases value with
  | some v =>
    refine ⟨printString (cBytes v) ++ r, ?_, skipWhitespace_cons (by decide) _, ?_⟩
    · unfold printMember
      simp
    · rw [cBytes_eq (hm v rfl)]
      exact .string (stringLit_print v r)
  | none =>
    refine ⟨[0x6E, 0x75, 0x6C, 0x6C] ++ r, ?_, skipWhitespace_cons (by decide) _, .literal List.mem_cons_self⟩
    unfold printMember
    simp

theorem printMembers_cons (m m' : Bytes × Option Bytes) (members : List (Bytes × Option Bytes)) :
    printMembers (m :: m' :: members) = printMember m ++ comma :: printMembers (m' :: members) := rfl

/-- Members start with the quote of a name. -/
theorem printMembers_head (m : Bytes × Option Bytes) (members : List (Bytes × Option Bytes)) : ∃ s, printMembers (m :: members) = quote :: s := by
  cases members with
  | nil => exact ⟨_, rfl⟩
  | cons m' members => exact ⟨_, rfl⟩

theorem members_printed {members : List (Bytes × Option Bytes)} (hne : members ≠ []) (h : NulFree members) (depth : Nat) (r : Bytes) :
    Members depth (printMembers members ++ closeObject :: r) (members.map asTree) r := by
  induction members with
  | nil => exact absurd rfl hne
  | cons m members ih =>
    obtain ⟨hname, hvalue⟩ := h m List.mem_cons_self
    have hmember : ∀ rest, ∃ s, Name (printMember m ++ rest) m.1 s ∧ Value depth s (asTree m).2 rest := by
      intro rest
      obtain ⟨s, hs, hskip, hderives⟩ := value_printed hvalue depth rest
      refine ⟨s, ⟨colon :: s, s, ?_, skipWhitespace_cons (by decide) _, hskip.symm⟩, hderives⟩
      rw [hs, cBytes_eq hname]
      exact stringLit_print m.1 _
    cases members with
    | nil =>
      obtain ⟨s, hs, hderives⟩ := hmember (closeObject :: r)
      exact .last hs hderives (skipWhitespace_cons (by decide) _)
    | cons m' members =>
      obtain ⟨s, hs, hderives⟩ := hmember (comma :: (printMembers (m' :: members) ++ closeObject :: r))
      have hrest := ih (List.cons_ne_nil _ _) fun m hm => h m (List.mem_cons_of_mem _ hm)
      have hskip : skipWhitespace (printMembers (m' :: members) ++ closeObject :: r) = printMembers (m' :: members) ++ closeObject :: r := by
        obtain ⟨s, hs⟩ := printMembers_head m' members
        rw [hs]
        exact skipWhitespace_cons (by decide) _
      rw [printMembers_cons, List.append_assoc, List.cons_append]
      refine .more hs hderives (skipWhitespace_cons (by decide) _) ?_
      rw [hskip]
      exact hrest

theorem ne_zero_of_printString {s : Bytes} (h : ∀ b ∈ s, b ≠ 0) : ∀ d ∈ printString s, d ≠ 0 := by
  intro d hd
  unfold printString at hd
  rcases List.mem_cons.mp hd with rfl | hd
  · decide
  rcases List.mem_append.mp hd with hd | hd
  · obtain ⟨b, hb, hd⟩ := List.mem_flatMap.mp hd
    exact ne_zero_of_printed (h b hb) d hd
  · rw [List.mem_singleton.mp hd]
    decide

theorem ne_zero_of_printMember {m : Bytes × Option Bytes} (hname : ∀ b ∈ m.1, b ≠ 0) (hvalue : ∀ v, m.2 = some v → ∀ b ∈ v, b ≠ 0) :
    ∀ d ∈ printMember m, d ≠ 0 := by
  intro d hd
  obtain ⟨name, value⟩ := m
  unfold printMember at hd
  rcases List.mem_append.mp hd with hd | hd
  · rw [cBytes_eq hname] at hd
    exact ne_zero_of_printString hname d hd
  rcases List.mem_cons.mp hd with rfl | hd
  · decide
  · cases value with
    | none =>
      simp only [List.mem_cons, List.not_mem_nil, or_false] at hd
      rcases hd with rfl | rfl | rfl | rfl <;> decide
    | some v =>
      have hd : d ∈ printString (cBytes v) := hd
      rw [cBytes_eq (hvalue v rfl)] at hd
      exact ne_zero_of_printString (hvalue v rfl) d hd

theorem ne_zero_of_printMembers {members : List (Bytes × Option Bytes)} (h : NulFree members) : ∀ d ∈ printMembers members, d ≠ 0 := by
  induction members with
  | nil => exact fun d hd => absurd hd List.not_mem_nil
  | cons m members ih =>
    obtain ⟨hname, hvalue⟩ := h m List.mem_cons_self
    intro d hd
    cases members with
    | nil => exact ne_zero_of_printMember hname hvalue d hd
    | cons m' members =>
      rw [printMembers_cons] at hd
      rcases List.mem_append.mp hd with hd | hd
      · exact ne_zero_of_printMember hname hvalue d hd
      rcases List.mem_cons.mp hd with rfl | hd
      · decide
      · exact ih (fun m hm => h m (List.mem_cons_of_mem _ hm)) d hd

/-- The printed text is read from its first byte to its last. -/
theorem text_printed {members : List (Bytes × Option Bytes)} (h : NulFree members) : text (printObject members) = printObject members := by
  have hzero : ∀ d ∈ printObject members, d ≠ 0 := by
    intro d hd
    unfold printObject at hd
    rcases List.mem_cons.mp hd with rfl | hd
    · decide
    rcases List.mem_append.mp hd with hd | hd
    · exact ne_zero_of_printMembers h d hd
    · rw [List.mem_singleton.mp hd]
      decide
  unfold text
  rw [cBytes_eq hzero]
  exact skipWhitespace_cons (by decide) _

theorem pruneMembers_asTree (depth : Nat) (members : List (Bytes × Option Bytes)) :
    pruneMembers depth (members.map asTree) = members.map asJson := by
  induction members with
  | nil => rw [List.map_nil, pruneMembers]; rfl
  | cons m members ih =>
    obtain ⟨name, value⟩ := m
    rw [List.map_cons, List.map_cons]
    unfold asTree asJson
    rw [pruneMembers]
    cases value with
    | none =>
      rw [prune]
      exact congrArg _ ih
    | some v =>
      rw [prune]
      exact congrArg _ ih

theorem parse_printObject {members : List (Bytes × Option Bytes)} (h : NulFree members) :
    parse (printObject members) = some (.obj (members.map asJson)) := by
  refine (parse_iff _ _).mpr ⟨.obj (members.map asTree), ⟨[], ?_⟩, ?_⟩
  · rw [text_printed h]
    unfold printObject
    cases members with
    | nil => exact .emptyObject (by decide) rfl
    | cons m members =>
      refine .object (by decide) ?_
      have hskip : skipWhitespace (printMembers (m :: members) ++ [closeObject]) = printMembers (m :: members) ++ [closeObject] := by
        obtain ⟨s, hs⟩ := printMembers_head m members
        rw [hs]
        exact skipWhitespace_cons (by decide) _
      rw [hskip]
      exact members_printed (List.cons_ne_nil _ _) h 1 []
  · rw [prune, pruneMembers_asTree]
    rfl

/-! ## What is dropped is not read -/

theorem str_prune (depth : Nat) (t : Tree) : Json.reader.str (prune depth t) = Tree.reader.str t := by
  cases t with
  | obj members =>
    rw [prune]
    split <;> rfl
  | _ =>
    rw [prune]
    rfl

theorem members_prune {depth : Nat} (hdepth : depth < keepDepth) (t : Tree) :
    Json.reader.members (prune depth t) = (Tree.reader.members t).map (pruneMembers (depth + 1)) := by
  cases t with
  | obj members =>
    rw [prune, if_pos hdepth]
    rfl
  | _ =>
    rw [prune]
    rfl

theorem find_prune (depth : Nat) (p : Bytes → Bool) (members : List (Bytes × Tree)) :
    ((pruneMembers depth members).find? fun m => p m.1).map (·.2) = ((members.find? fun m => p m.1).map (·.2)).map (prune depth) := by
  induction members with
  | nil => rw [pruneMembers]; rfl
  | cons m members ih =>
    obtain ⟨name, t⟩ := m
    rw [pruneMembers, List.find?_cons, List.find?_cons]
    cases p name with
    | true => rfl
    | false => exact ih

theorem get_prune {depth : Nat} (hdepth : depth < keepDepth) (t : Tree) (name : Bytes) :
    Json.reader.get (prune depth t) name = (Tree.reader.get t name).map (prune (depth + 1)) := by
  unfold Reader.get
  rw [members_prune hdepth]
  cases Tree.reader.members t with
  | none => rfl
  | some members => exact find_prune (depth + 1) (fun n => (cBytes n).map lowerByte = name.map lowerByte) members

theorem text_prune {depth : Nat} (hdepth : depth < keepDepth) (t : Tree) (name : Bytes) :
    Json.reader.text (prune depth t) name = Tree.reader.text t name := by
  unfold Reader.text
  rw [get_prune hdepth]
  cases Tree.reader.get t name with
  | none => rfl
  | some t' => exact str_prune (depth + 1) t'

theorem apply_prune {depth : Nat} (hdepth : depth < keepDepth) (status : Status) (t : Tree) :
    status.apply Json.reader (prune depth t) = status.apply Tree.reader t := by
  unfold Status.apply
  simp only [text_prune hdepth]

/-- Nothing is read below what is kept. -/
theorem readWith_prune (t : Tree) (keys : List Bytes) : readWith Json.reader (some (prune 0 t)) keys = readWith Tree.reader (some t) keys := by
  unfold readWith
  dsimp only
  simp only [members_prune (by decide : 0 < keepDepth), get_prune (by decide : 0 < keepDepth), text_prune (by decide : 0 < keepDepth), Option.isNone_map]
  split
  · rfl
  cases Tree.reader.get t (ascii "header") with
  | none => rfl
  | some header =>
    dsimp only [Option.map_some]
    rw [get_prune (by decide : 0 + 1 < keepDepth)]
    cases Tree.reader.get header (ascii "functionExecutionStatus") with
    | none => rfl
    | some execution =>
      dsimp only [Option.map_some]
      rw [get_prune (by decide : 0 + 1 + 1 < keepDepth)]
      cases Tree.reader.get execution (ascii "statusCodeData") with
      | none => rfl
      | some data =>
        dsimp only [Option.map_some]
        rw [apply_prune (by decide : 0 + 1 + 1 + 1 < keepDepth)]

/-- The walk over frames ends, with the value of the recursive grammar or none; what is printed is read back, member
    for member; and a response is read from what is kept as from the whole value. -/
theorem reader_faithful (body : Bytes) (keys : List Bytes) :
    (∃ result, State.step^[(text body).length + 1] (.value (text body) []) = .done result ∧ parse body = result) ∧
    (∀ j, parse body = some j ↔ ∃ t, Text body t ∧ prune 0 t = j) ∧
    (∀ members, NulFree members → parse (printObject members) = some (.obj (members.map asJson))) ∧
    (∀ t, Text body t → readResponse body keys = readWith Tree.reader (some t) keys) ∧
    ((∀ t, ¬ Text body t) → readResponse body keys = readWith Tree.reader none keys) := by
  refine ⟨parse_ends body, parse_iff body, fun members h => parse_printObject h, fun t ht => ?_, fun hno => ?_⟩
  · unfold readResponse
    rw [(parse_iff body _).mpr ⟨t, ht, rfl⟩, readWith_prune]
  · have hnone : parse body = none := by
      cases hparse : parse body with
      | none => rfl
      | some j =>
        obtain ⟨t, ht, -⟩ := (parse_iff body j).mp hparse
        exact absurd ht (hno t)
    unfold readResponse
    rw [hnone]
    rfl

end OpenU60.Euicc.Es9p
