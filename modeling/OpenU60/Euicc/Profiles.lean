/-
  OpenU60.Euicc.Profiles — the profile list and the requests by ICCID (`euicc/src/es10c.rs`:
  `parse_profiles`, `profile_id`, `switch_request`, `enable_profile`, `disable_profile`,
  `delete_profile`).

  - `readProfile_iccid`: a profile's ICCID is printed from its last 5A element.
  - `profileId_printed`: what was printed is sent as it was on the card, padded to ten bytes.
  - `iccid_bcd`: both directions of the code, and that a request names the profile it was printed for;
    `no_digits`: no digits are printed as one F.
-/

import OpenU60.Euicc.Base64
import OpenU60.Euicc.Iccid
import OpenU60.Lib.ByteLines

namespace OpenU60.Euicc.Profiles

open OpenU60.Lib OpenU60.Lib.Fallible OpenU60.Euicc.Der

/-! ## The code -/

structure ProfileInfo where
  iccid : String := ""
  isdpAid : List Char := []
  profileState : Option String := none
  profileNickname : Option (List Char) := none
  serviceProviderName : Option (List Char) := none
  profileName : Option (List Char) := none
  iconType : Option String := none
  icon : Option (List Char) := none
  profileClass : Option String := none
  deriving DecidableEq

/-- `from_utf8_lossy` -/
def text (value : Bytes) : List Char := ByteLines.lossy value

def profileState : Nat → String
  | 0 => "disabled"
  | 1 => "enabled"
  | _ => "unknown"

def profileClass : Nat → String
  | 0 => "test"
  | 1 => "provisioning"
  | 2 => "operational"
  | _ => "unknown"

def iconType : Nat → String
  | 0 => "jpeg"
  | 1 => "png"
  | _ => "unknown"

def readField (p : ProfileInfo) (t : Tlv) : ProfileInfo :=
  if t.tag = 0x5A then { p with iccid := bcdToIccid t.value }
  else if t.tag = 0x4F then { p with isdpAid := hexEncode t.value }
  else if t.tag = 0x9F70 then { p with profileState := some (profileState (toU64 t.value)) }
  else if t.tag = 0x90 then { p with profileNickname := some (text t.value) }
  else if t.tag = 0x91 then { p with serviceProviderName := some (text t.value) }
  else if t.tag = 0x92 then { p with profileName := some (text t.value) }
  else if t.tag = 0x93 then { p with iconType := some (iconType (toU64 t.value)) }
  else if t.tag = 0x94 then { p with icon := some (standard t.value) }
  else if t.tag = 0x95 then { p with profileClass := some (profileClass (toU64 t.value)) }
  else p

def readProfile (info : Tlv) : ProfileInfo := (iter info.value).foldl readField {}

def parseProfiles (body : Bytes) : Except Error (List ProfileInfo) :=
  match find body 0xA0 with
  | none => .error (.malformed "profile list error")
  | some ok => .ok ((tagged 0xE3 (iter ok.value)).map readProfile)

def isHexDigit (b : UInt8) : Bool := (hexDigit b).isSome

def profileId (id : List Char) : Except Error Node :=
  if Text.byteLen id = 32 then
    match hexDecode (Utf8.utf8 id) with
    | some aid => .ok (.prim 0x4F aid)
    | none => .error (.argument "ISD-P AID")
  else if id = [] || 20 < Text.byteLen id || !(Utf8.utf8 id).all isHexDigit then .error (.argument "ICCID")
  else
    match iccidToBcd id 10 with
    | some bcd => .ok (.prim 0x5A bcd)
    | none => .error (.argument "ICCID")

def switchRequest (tag : Nat) (id : List Char) (refresh : Bool) : Except Error Node :=
  (profileId id).map fun node => .cons tag [.cons 0xA0 [node], .prim 0x81 [if refresh then 0xFF else 0x00]]

def enableProfile (id : List Char) (refresh : Bool) : Except Error Node := switchRequest 0xBF31 id refresh

def disableProfile (id : List Char) (refresh : Bool) : Except Error Node := switchRequest 0xBF32 id refresh

def deleteProfile (id : List Char) : Except Error Node := (profileId id).map fun node => .cons 0xBF33 [node]

/-! ## What is printed -/

/-- The ICCID on the card: the last one counts. -/
def iccidOf (info : Tlv) : Option Bytes := ((tagged 0x5A (iter info.value)).getLast?).map (·.value)

variable {info other : Tlv} {v w : Bytes}

theorem readField_iccid (p : ProfileInfo) (t : Tlv) : (readField p t).iccid = if t.tag = 0x5A then bcdToIccid t.value else p.iccid := by
  unfold readField
  repeat' split
  all_goals rfl

theorem readProfile_iccid (info : Tlv) : (readProfile info).iccid = ((iccidOf info).map bcdToIccid).getD "" := by
  have hfold : ∀ (ts : List Tlv) (p : ProfileInfo),
      (ts.foldl readField p).iccid = (((tagged 0x5A ts).getLast?).map fun t => bcdToIccid t.value).getD p.iccid := by
    intro ts
    induction ts with
    | nil => exact fun p => rfl
    | cons t ts ih =>
      intro p
      rw [List.foldl_cons, ih, readField_iccid]
      by_cases htag : t.tag = 0x5A
      · rw [if_pos htag, tagged_cons_pos htag, List.getLast?_cons]
        cases (tagged 0x5A ts).getLast? <;> rfl
      · rw [if_neg htag, tagged_cons_neg htag]
  unfold readProfile iccidOf
  rw [hfold, Option.map_map]
  rfl

/-! ## What is sent -/

theorem printed_nibbles (b : Bytes) : ∃ ds, Nibbles ds ∧ (bcdToIccid b).toList = ds.map bcdDigit ∧ ds.length ≤ 2 * b.length ∧ (b ≠ [] → ds ≠ []) := by
  obtain ⟨k, hk⟩ := trimmed_append (nibbles b)
  have hlen := congrArg List.length hk
  rw [length_nibbles, List.length_append] at hlen
  refine ⟨trimmed (nibbles b), trimmed_lt (nibbles_lt b), bcdToIccid_eq b, by omega, ?_⟩
  intro hne
  cases b with
  | nil => exact absurd rfl hne
  | cons x b => exact List.cons_ne_nil _ _

/-- What was printed is sent as it was, padded to ten bytes. -/
theorem profileId_printed (hne : v ≠ []) (h : v.length ≤ 10) : profileId (bcdToIccid v).toList = .ok (.prim 0x5A (padded 10 v)) := by
  obtain ⟨ds, hnib, htext, hlen, hsome⟩ := printed_nibbles v
  have hread := iccidToBcd_bcdToIccid h
  rw [htext] at hread ⊢
  have hbytes := Utf8.length_utf8 (ds.map bcdDigit)
  rw [utf8_digits hnib, List.length_map] at hbytes
  have hhex : (Utf8.utf8 (ds.map bcdDigit)).all isHexDigit = true := by
    rw [utf8_digits hnib]
    refine List.all_eq_true.mpr fun c hc => ?_
    obtain ⟨d, hd, rfl⟩ := List.mem_map.mp hc
    unfold isHexDigit
    rw [(digit_spec d (hnib d hd)).2.1]
    rfl
  have hnil : ds.map bcdDigit ≠ [] := fun heq => hsome hne (List.map_eq_nil_iff.mp heq)
  unfold profileId
  rw [if_neg (by omega), hhex, decide_eq_false hnil, decide_eq_false (by omega), hread]
  rfl

/-- Values are printed alike exactly when they are one value padded. -/
theorem padded_iff (hv : v.length ≤ 10) (hw : w.length ≤ 10) (hvne : v ≠ []) (hwne : w ≠ []) :
    padded 10 w = padded 10 v ↔ bcdToIccid w = bcdToIccid v := by
  constructor
  · intro h
    rw [← bcdToIccid_padded hwne 10, h, bcdToIccid_padded hvne]
  · intro h
    have hread := iccidToBcd_bcdToIccid hw
    rw [h, iccidToBcd_bcdToIccid hv] at hread
    exact (Option.some.inj hread).symm

theorem readProfile_printed (h : iccidOf info = some v) : (readProfile info).iccid = bcdToIccid v := by
  rw [readProfile_iccid, h]
  rfl

/-- ICCIDs in swapped BCD: what was printed is read back as the card has it, padded; digits come back, if there are any; and a
request by an ICCID that the profile list printed names the profiles it was printed for and no other. -/
theorem iccid_bcd :
    (∀ (n : Nat) (b : Bytes), b.length ≤ n → iccidToBcd (bcdToIccid b).toList n = some (padded n b)) ∧
    (∀ (n : Nat) (d : List Char), d ≠ [] → Decimal.AllDigits d → d.length ≤ 2 * n →
      ∃ b, iccidToBcd d n = some b ∧ (bcdToIccid b).toList = d) ∧
    (∀ (body : Bytes) (ok : Tlv), find body 0xA0 = some ok →
      parseProfiles body = .ok ((tagged 0xE3 (iter ok.value)).map readProfile) ∧
      ∀ info ∈ tagged 0xE3 (iter ok.value), ∀ v, iccidOf info = some v → v ≠ [] → v.length ≤ 10 →
        (∀ refresh : Bool,
          enableProfile (readProfile info).iccid.toList refresh =
            .ok (.cons 0xBF31 [.cons 0xA0 [.prim 0x5A (padded 10 v)], .prim 0x81 [if refresh then 0xFF else 0x00]]) ∧
          disableProfile (readProfile info).iccid.toList refresh =
            .ok (.cons 0xBF32 [.cons 0xA0 [.prim 0x5A (padded 10 v)], .prim 0x81 [if refresh then 0xFF else 0x00]])) ∧
        deleteProfile (readProfile info).iccid.toList = .ok (.cons 0xBF33 [.prim 0x5A (padded 10 v)]) ∧
        ∀ other ∈ tagged 0xE3 (iter ok.value), ∀ w, iccidOf other = some w → w ≠ [] → w.length ≤ 10 →
          (padded 10 w = padded 10 v ↔ (readProfile other).iccid = (readProfile info).iccid)) := by
  refine ⟨fun n b => iccidToBcd_bcdToIccid, fun n d => bcdToIccid_iccidToBcd, ?_⟩
  intro body ok hfind
  refine ⟨?_, ?_⟩
  · unfold parseProfiles
    rw [hfind]
  · intro info _ v hinfo hvne hv
    have hid := profileId_printed hvne hv
    rw [← readProfile_printed hinfo] at hid
    refine ⟨fun refresh => ⟨?_, ?_⟩, ?_, ?_⟩
    · unfold enableProfile switchRequest
      rw [hid]
      rfl
    · unfold disableProfile switchRequest
      rw [hid]
      rfl
    · unfold deleteProfile
      rw [hid]
      rfl
    · intro other _ w hother hwne hw
      rw [readProfile_printed hother, readProfile_printed hinfo]
      exact padded_iff hv hw hvne hwne

/-- A card value of ten bytes with 19 digits, and its digits. -/
theorem iccid_bcd_digits : iccidToBcd (bcdToIccid [0x98, 0x36, 0, 0, 0, 0, 0, 0, 0, 0xF1]).toList 10 = some (padded 10 [0x98, 0x36, 0, 0, 0, 0, 0, 0, 0, 0xF1]) ∧
    ∃ b, iccidToBcd ['8', '9', '6'] 2 = some b ∧ (bcdToIccid b).toList = ['8', '9', '6'] := by
  have hdigits : Decimal.AllDigits ['8', '9', '6'] := List.all_eq_true.mp (by decide)
  exact ⟨iccid_bcd.1 10 _ (by decide), iccid_bcd.2.1 2 ['8', '9', '6'] (by decide) hdigits (by decide)⟩

/-- No digits become padding, of which the first F is printed. -/
theorem no_digits : Decimal.AllDigits [] ∧ iccidToBcd [] 1 = some [0xFF] ∧ (bcdToIccid [0xFF]).toList = ['f'] := by
  refine ⟨fun c hc => absurd hc List.not_mem_nil, by decide, by decide⟩

end OpenU60.Euicc.Profiles
