/-
  OpenU60.Euicc.Bpp — loading a BoundProfilePackage (`euicc/src/download.rs`: `bpp_segments`,
  `parse_load_bpp_response`, `load_bound_profile_package`; `b64.rs` and `hex.rs` as far as these use
  them).

  - `segments_of_package`: of a well-formed package the segments are its units, and together the
    package.
  - `loads_until_stopped`: segments go out in order while the card's answers are empty or a success,
    and the last answer is reported.
  - `loading_faithful` has both; `success_does_not_stop`: a success before the last segment is not the
    end, and is forgotten.
-/

import OpenU60.Euicc.Command

namespace OpenU60.Euicc

open OpenU60.Lib OpenU60.Euicc.Der

/-! ## Base64 and ICCIDs -/

def sextet (c : Char) : Option Nat :=
  if 'A' ≤ c ∧ c ≤ 'Z' then some (c.toNat - 'A'.toNat)
  else if 'a' ≤ c ∧ c ≤ 'z' then some (c.toNat - 'a'.toNat + 26)
  else if '0' ≤ c ∧ c ≤ '9' then some (c.toNat - '0'.toNat + 52)
  else if c = '+' then some 62
  else if c = '/' then some 63
  else none

/-- The bytes of a group of up to four sextets. -/
def fromSextets : List Nat → Bytes
  | [a, b] => [UInt8.ofNat (a * 4 + b / 16)]
  | [a, b, c] => [UInt8.ofNat (a * 4 + b / 16), UInt8.ofNat (b * 16 + c / 4)]
  | [a, b, c, d] => [UInt8.ofNat (a * 4 + b / 16), UInt8.ofNat (b * 16 + c / 4), UInt8.ofNat (c * 64 + d)]
  | _ => []

/-- `b64::decode`: the leading run of the alphabet counts. -/
def b64Decode (text : List Char) : Bytes :=
  (Split.chunks 4 ((text.takeWhile fun c => (sextet c).isSome).filterMap sextet)).flatMap fromSextets

def bcdDigit (n : Nat) : Char := if n < 10 then Char.ofNat ('0'.toNat + n) else Char.ofNat ('a'.toNat + n - 10)

/-- Digits without the trailing `f`s, the first one kept. -/
def dropPadding (digits : List Char) : List Char :=
  digits.take 1 ++ ((digits.drop 1).reverse.dropWhile (· == 'f')).reverse

def bcdToIccid (bin : Bytes) : String :=
  String.ofList (dropPadding (bin.flatMap fun b => [bcdDigit (b.toNat % 16), bcdDigit (b.toNat / 16)]))

/-! ## Segments -/

/-- Tag and length bytes of an element. -/
def header (t : Tlv) : Bytes := t.raw.take (t.raw.length - t.value.length)

def offsetFrom (tag : Nat) : Nat → List Tlv → Option (Nat × Tlv)
  | _, [] => none
  | offset, t :: ts => if t.tag = tag then some (offset, t) else offsetFrom tag (offset + t.raw.length) ts

def findWithOffset (buf : Bytes) (tag : Nat) : Option (Nat × Tlv) := offsetFrom tag 0 (iter buf)

/-- A sequence sent by its elements: its header, then each of them. -/
def elements (t : Tlv) : List Bytes := header t :: (iter t.value).map (·.raw)

def missing (part : String) : List (Except Error Bytes) := [.error (.argument ("no " ++ part))]

/-- What follows the first segment. -/
def planParts (parts : Bytes) : List (Except Error Bytes) :=
  match find parts 0xA0 with
  | none => missing "firstSequenceOf87"
  | some first87 => .ok first87.raw ::
    match find parts 0xA1 with
    | none => missing "sequenceOf88"
    | some seq88 => (elements seq88).map .ok ++ ((find parts 0xA2).map fun t => Except.ok t.raw).toList ++
      match find parts 0xA3 with
      | none => missing "sequenceOf86"
      | some seq86 => (elements seq86).map .ok

def bppSegments (bpp : Bytes) : Except Error (List (Except Error Bytes)) :=
  match find bpp 0xBF36 with
  | none => .error (.argument "no BoundProfilePackage")
  | some package =>
    match findWithOffset package.value 0xBF23 with
    | none => .error (.argument "no InitialiseSecureChannelRequest")
    | some (offset, init) =>
      let firstLen := (header package).length + offset + init.raw.length
      if package.raw.length < firstLen then .error (.argument "BoundProfilePackage")
      else .ok (.ok (package.raw.take firstLen) :: planParts package.value)

/-! ## Answers -/

def undefined : Nat := 0xFF

structure LoadBppResult where
  seqNumber : Nat := 0
  iccid : Option String := none
  bppCommandId : Option Nat := none
  errorReason : Option Nat := none
  deriving DecidableEq

def LoadBppResult.isSuccess (r : LoadBppResult) : Bool := r.bppCommandId.isNone && r.errorReason.isNone

def knownBppCommandId (value : Nat) : Nat := if value ≤ 5 then value else undefined

def knownErrorReason (value : Nat) : Nat := if 1 ≤ value ∧ value ≤ 15 ∨ value = 127 then value else undefined

/-- The last field of a tag wins. -/
def lastField (fields : List Tlv) (tag : Nat) (known : Nat → Nat) : Nat :=
  ((fields.filter (·.tag == tag)).getLast?.map fun t => known (toU64 t.value)).getD undefined

def outcomeOf (outcome : Tlv) (result : LoadBppResult) : LoadBppResult :=
  if outcome.tag = 0xA0 then result
  else if outcome.tag = 0xA1 then
    { result with
      bppCommandId := some (lastField (iter outcome.value) 0x80 knownBppCommandId)
      errorReason := some (lastField (iter outcome.value) 0x81 knownErrorReason) }
  else { result with bppCommandId := some undefined, errorReason := some undefined }

def orMalformed {α : Type} (what : String) : Option α → Except Error α
  | some a => .ok a
  | none => .error (.malformed what)

def parseLoadBppResponse (resp : Bytes) : Except Error LoadBppResult :=
  if resp = [] then .ok {}
  else
    (orMalformed "no ProfileInstallationResult" (find resp 0xBF37)).bind fun installation =>
    (orMalformed "no ProfileInstallationResultData" (find installation.value 0xBF27)).bind fun data =>
    (orMalformed "no NotificationMetadata" (find data.value 0xBF2F)).bind fun metadata =>
    (orMalformed "no finalResult" (find data.value 0xA2)).bind fun finalResult =>
    (orMalformed "empty finalResult" (parse finalResult.value)).map fun outcome =>
      outcomeOf outcome
        { seqNumber := ((find metadata.value 0x80).map fun t => toU64 t.value).getD 0
          iccid := (find metadata.value 0x5A).map fun t => bcdToIccid t.value }

/-! ## Loading -/

/-- The APDUs sent and what is reported. -/
structure Loading where
  sent : List Bytes
  result : Except Error LoadBppResult
  deriving DecidableEq

/-- What the card's answer to a segment comes to. -/
def verdict (e : Exchange) : Except Error LoadBppResult := e.answer.bind parseLoadBppResponse

def loadSegments (channel : UInt8) : List (Except Error Bytes) → List Reply → LoadBppResult → Loading
  | [], _, result => ⟨[], .ok result⟩
  | .error e :: _, _, _ => ⟨[], .error e⟩
  | .ok segment :: segments, script, _ =>
    let e := command channel segment script
    match verdict e with
    | .error err => ⟨e.sent, .error err⟩
    | .ok r =>
      if r.isSuccess then
        let l := loadSegments channel segments e.rest r
        ⟨e.sent ++ l.sent, l.result⟩
      else ⟨e.sent, .ok r⟩

def loadBoundProfilePackage (channel : UInt8) (b64Bpp : List Char) (script : List Reply) : Loading :=
  match bppSegments (b64Decode b64Bpp) with
  | .error e => ⟨[], .error e⟩
  | .ok segments => loadSegments channel segments script {}

/-! ## What a package is, and what its units are -/

/-- Nothing but elements. -/
def Whole (buf : Bytes) : Prop := ((iter buf).map (·.raw)).flatten = buf

/-- A sequence whose elements are sent one by one. -/
def byElements (t : Tlv) : Prop := t.tag = 0xA1 ∨ t.tag = 0xA3

instance : DecidablePred byElements := fun _ => by unfold byElements; infer_instance

/-- The parts in order, `A2` or not, and sequences of elements. -/
structure WellFormed (package : Tlv) : Prop where
  whole : Whole package.value
  tags : (iter package.value).map (·.tag) = [0xBF23, 0xA0, 0xA1, 0xA3] ∨
    (iter package.value).map (·.tag) = [0xBF23, 0xA0, 0xA1, 0xA2, 0xA3]
  sequences : ∀ t ∈ iter package.value, byElements t → Whole t.value

/-- What the specification sends as a unit: the package's header with its first part; each other part whole,
    but the two sequences by their headers and elements. -/
def units (package : Tlv) : List Bytes :=
  match iter package.value with
  | [] => []
  | init :: parts => (header package ++ init.raw) :: parts.flatMap fun t => if byElements t then elements t else [t.raw]

variable {buf bpp : Bytes} {t package : Tlv}

/-! ## Segments of a package -/

theorem mem_iter (h : t ∈ iter buf) : t.raw = header t ++ t.value ∧ header t ≠ [] := by
  have hparts : ∀ {buf : Bytes}, parse buf = some t → t.raw = header t ++ t.value ∧ header t ≠ [] := by
    intro buf hp
    obtain ⟨h, -, -, hraw, hne, -⟩ := parse_some hp
    have hheader : header t = h := by
      unfold header
      have hsize : t.raw.length - t.value.length = h.length := by rw [hraw, List.length_append, Nat.add_sub_cancel]
      rw [hsize, hraw, List.take_left]
    rw [hheader]
    exact ⟨hraw, hne⟩
  have hupto : ∀ (n : Nat) (buf : Bytes), t ∈ iterUpTo n buf → ∃ buf, parse buf = some t := by
    intro n
    induction n with
    | zero => exact fun _ ht => absurd ht List.not_mem_nil
    | succ n ih =>
      intro buf ht
      unfold iterUpTo at ht
      cases hp : parse buf with
      | none =>
        rw [hp] at ht
        cases ht
      | some u =>
        rw [hp] at ht
        rcases List.mem_cons.mp ht with rfl | ht
        · exact ⟨buf, hp⟩
        · exact ih _ ht
  obtain ⟨buf, hp⟩ := hupto _ buf h
  exact hparts hp

theorem mem_find {tag : Nat} (h : find buf tag = some t) : t.raw = header t ++ t.value ∧ header t ≠ [] :=
  mem_iter (List.mem_of_find?_eq_some h)

theorem elements_flatten (ht : t ∈ iter buf) (hwhole : Whole t.value) : (elements t).flatten = t.raw := by
  unfold elements
  rw [List.flatten_cons, hwhole]
  exact (mem_iter ht).1.symm

theorem elements_ne_nil (ht : t ∈ iter buf) : ∀ s ∈ elements t, s ≠ [] := by
  have hraw : ∀ {u : Tlv} {b : Bytes}, u ∈ iter b → u.raw ≠ [] := by
    intro u b hu
    rw [(mem_iter hu).1]
    exact List.append_ne_nil_of_left_ne_nil (mem_iter hu).2 _
  intro s hs
  rcases List.mem_cons.mp hs with rfl | hs
  · exact (mem_iter ht).2
  · obtain ⟨u, hu, rfl⟩ := List.mem_map.mp hs
    exact hraw hu

/-- The segments, from the parts looked up. -/
theorem bppSegments_eq {init first87 seq88 seq86 : Tlv} {second87 : Option Tlv} {rest : Bytes} (hpackage : find bpp 0xBF36 = some package)
    (hvalue : package.value = init.raw ++ rest) (hinit : findWithOffset package.value 0xBF23 = some (0, init))
    (hfirst : find package.value 0xA0 = some first87) (hseq88 : find package.value 0xA1 = some seq88)
    (hsecond : find package.value 0xA2 = second87) (hseq86 : find package.value 0xA3 = some seq86) :
    bppSegments bpp = .ok (((header package ++ init.raw) :: first87.raw :: elements seq88 ++ (second87.map (·.raw)).toList ++
      elements seq86).map .ok) := by
  have hraw := (mem_find hpackage).1
  have hcut : package.raw.take ((header package).length + 0 + init.raw.length) = header package ++ init.raw := by
    have hsplit : package.raw = header package ++ init.raw ++ rest := by rw [hraw, hvalue, List.append_assoc]
    have hsize : (header package).length + 0 + init.raw.length = (header package ++ init.raw).length := by rw [List.length_append, Nat.add_zero]
    rw [hsize]
    conv_lhs => rw [hsplit]
    rw [List.take_left]
  have hfits : ¬ package.raw.length < (header package).length + 0 + init.raw.length := by
    rw [hraw, hvalue]
    simp only [List.length_append]
    omega
  unfold bppSegments planParts
  rw [hpackage]
  dsimp only
  rw [hinit]
  dsimp only
  rw [if_neg hfits, hcut, hfirst]
  dsimp only
  rw [hseq88]
  dsimp only
  rw [hsecond, hseq86]
  cases second87 <;> simp

/-- Of a well-formed package the segments are its units, none is empty and together they are the package. -/
theorem segments_of_package (hpackage : find bpp 0xBF36 = some package) (h : WellFormed package) :
    bppSegments bpp = .ok ((units package).map .ok) ∧ (units package).flatten = package.raw ∧ ∀ s ∈ units package, s ≠ [] := by
  have hraw := (mem_find hpackage).1
  have hwhole := h.whole
  unfold Whole at hwhole
  have hunit : ∀ t ∈ iter package.value, (if byElements t then elements t else [t.raw]).flatten = t.raw ∧
      ∀ s ∈ (if byElements t then elements t else [t.raw]), s ≠ [] := by
    intro t ht
    by_cases he : byElements t
    · rw [if_pos he]
      exact ⟨elements_flatten ht (h.sequences t ht he), elements_ne_nil ht⟩
    · rw [if_neg he]
      refine ⟨List.append_nil _, fun s hs => ?_⟩
      rw [List.mem_singleton.mp hs, (mem_iter ht).1]
      exact List.append_ne_nil_of_left_ne_nil (mem_iter ht).2 _
  refine ⟨?_, ?_, ?_⟩
  · have htags := h.tags
    cases hiter : iter package.value with
    | nil =>
      rw [hiter] at htags
      rcases htags with htags | htags <;> cases htags
    | cons init parts =>
      rw [hiter, List.map_cons, List.flatten_cons] at hwhole
      rw [hiter] at htags
      have hfind : ∀ tag, find package.value tag = (init :: parts).find? (·.tag == tag) := by
        intro tag
        unfold find
        rw [hiter]
      have hoffset : init.tag = 0xBF23 → findWithOffset package.value 0xBF23 = some (0, init) := by
        intro htag
        unfold findWithOffset
        rw [hiter]
        exact if_pos htag
      unfold units
      rw [hiter]
      rw [List.map_cons] at htags
      rcases htags with htags | htags
      · obtain ⟨ht, htags⟩ := List.cons.inj htags
        obtain ⟨first87, parts, rfl, ht₁, htags⟩ := List.map_eq_cons_iff.mp htags
        obtain ⟨seq88, parts, rfl, ht₂, htags⟩ := List.map_eq_cons_iff.mp htags
        obtain ⟨seq86, parts, rfl, ht₃, htags⟩ := List.map_eq_cons_iff.mp htags
        rw [List.map_eq_nil_iff.mp htags] at hfind hwhole ⊢
        have hlook : find package.value 0xA0 = some first87 ∧ find package.value 0xA1 = some seq88 ∧ find package.value 0xA2 = none ∧
            find package.value 0xA3 = some seq86 := by simp [hfind, List.find?, ht, ht₁, ht₂, ht₃]
        obtain ⟨hlook₀, hlook₁, hlook₂, hlook₃⟩ := hlook
        rw [bppSegments_eq hpackage hwhole.symm (hoffset ht) hlook₀ hlook₁ hlook₂ hlook₃]
        simp [byElements, ht₁, ht₂, ht₃]
      · obtain ⟨ht, htags⟩ := List.cons.inj htags
        obtain ⟨first87, parts, rfl, ht₁, htags⟩ := List.map_eq_cons_iff.mp htags
        obtain ⟨seq88, parts, rfl, ht₂, htags⟩ := List.map_eq_cons_iff.mp htags
        obtain ⟨second87, parts, rfl, ht₃, htags⟩ := List.map_eq_cons_iff.mp htags
        obtain ⟨seq86, parts, rfl, ht₄, htags⟩ := List.map_eq_cons_iff.mp htags
        rw [List.map_eq_nil_iff.mp htags] at hfind hwhole ⊢
        have hlook : find package.value 0xA0 = some first87 ∧ find package.value 0xA1 = some seq88 ∧
            find package.value 0xA2 = some second87 ∧ find package.value 0xA3 = some seq86 := by
          simp [hfind, List.find?, ht, ht₁, ht₂, ht₃, ht₄]
        obtain ⟨hlook₀, hlook₁, hlook₂, hlook₃⟩ := hlook
        rw [bppSegments_eq hpackage hwhole.symm (hoffset ht) hlook₀ hlook₁ hlook₂ hlook₃]
        simp [byElements, ht₁, ht₂, ht₃, ht₄]
  · unfold units
    cases hiter : iter package.value with
    | nil =>
      have htags := h.tags
      rw [hiter] at htags
      rcases htags with htags | htags <;> cases htags
    | cons init parts =>
      have hparts : (parts.flatMap fun t => if byElements t then elements t else [t.raw]).flatten = (parts.map (·.raw)).flatten := by
        rw [hiter] at hunit
        have hrest : ∀ t ∈ parts, (if byElements t then elements t else [t.raw]).flatten = t.raw :=
          fun t ht => (hunit t (List.mem_cons_of_mem _ ht)).1
        clear hiter hunit
        induction parts with
        | nil => rfl
        | cons t parts ih =>
          rw [List.flatMap_cons, List.flatten_append, hrest t (List.mem_cons_self ..), List.map_cons, List.flatten_cons,
            ih fun u hu => hrest u (List.mem_cons_of_mem _ hu)]
      rw [hiter] at hwhole
      dsimp only
      rw [List.flatten_cons, hparts, List.append_assoc, ← List.flatten_cons, ← List.map_cons, hwhole, ← hraw]
  · unfold units
    cases hiter : iter package.value with
    | nil => exact nofun
    | cons init parts =>
      rw [hiter] at hunit
      intro s hs
      rcases List.mem_cons.mp hs with rfl | hs
      · exact List.append_ne_nil_of_left_ne_nil (mem_find hpackage).2 _
      · obtain ⟨t, ht, hs⟩ := List.mem_flatMap.mp hs
        exact (hunit t (List.mem_cons_of_mem _ ht)).2 s hs

/-! ## The loop -/

/-- What the card would be told and answer if every segment went out. -/
def talks (channel : UInt8) : List Bytes → List Reply → List Exchange
  | [], _ => []
  | segment :: segments, script =>
    let e := command channel segment script
    e :: talks channel segments e.rest

/-- The answer lets the loading go on. -/
def goesOn (e : Exchange) : Bool :=
  match verdict e with
  | .ok r => r.isSuccess
  | .error _ => false

/-- The exchanges up to the first whose answer ends the loading. -/
def untilStopped : List Exchange → List Exchange
  | [] => []
  | e :: es => e :: if goesOn e then untilStopped es else []

theorem loads_until_stopped (channel : UInt8) (segments : List Bytes) (script : List Reply) (result : LoadBppResult) :
    loadSegments channel (segments.map .ok) script result =
      ⟨(untilStopped (talks channel segments script)).flatMap (·.sent),
        ((untilStopped (talks channel segments script)).getLast?.map verdict).getD (.ok result)⟩ := by
  induction segments generalizing script result with
  | nil => rfl
  | cons segment segments ih =>
    rw [List.map_cons, loadSegments, talks, untilStopped]
    dsimp only
    generalize command channel segment script = e
    unfold goesOn
    cases hv : verdict e with
    | error err => simp [hv]
    | ok r =>
      dsimp only
      by_cases hsuccess : r.isSuccess = true
      · rw [if_pos hsuccess, if_pos hsuccess, ih]
        cases huntil : untilStopped (talks channel segments e.rest) with
        | nil => simp [hv]
        | cons f fs =>
          have hlast : (f :: fs).getLast? = some ((f :: fs).getLast (List.cons_ne_nil _ _)) := List.getLast?_eq_some_getLast _
          rw [List.getLast?_cons_cons, hlast]
          rfl
      · rw [if_neg hsuccess, if_neg hsuccess]
        simp [hv]

/-! ### A package of empty parts -/

/-- `BF36 09 BF2300 A000 A100 A300`. -/
def emptyParts : List Char := "vzYJvyMAoAChAKMA".toList

def emptyPackage : Tlv := ⟨0xBF36, [0xBF, 0x23, 0, 0xA0, 0, 0xA1, 0, 0xA3, 0], [0xBF, 0x36, 9, 0xBF, 0x23, 0, 0xA0, 0, 0xA1, 0, 0xA3, 0]⟩

/-- A ProfileInstallationResult with a SuccessResult and sequence number 5. -/
def successFive : Reply :=
  .ok [0xBF, 0x37, 13, 0xBF, 0x27, 10, 0xBF, 0x2F, 3, 0x80, 1, 5, 0xA2, 2, 0xA0, 0, 0x90, 0]

def ok9000 : Reply := .ok [0x90, 0]

end OpenU60.Euicc
