/-
  OpenU60.Web.Guard — which requests the API takes for its own
  (`zte-agent/src/httpd/guard.rs`: `parse_authority`, `HostPolicy`, `origin_verdict`,
  `api_mutation_refused`).

  What a text denotes is said apart from the parser: `literal` is the address it stands for, `hostName` its
  host in lower case without one trailing dot, `endsInNumber` how a browser decides to read it as IPv4.
  - `authority_eq_iff`: two accepted texts have one authority exactly when they denote the same host.
  - `name_not_number`: no accepted name ends in a number.
  - `origin_same`: an origin that counts as the same has scheme, host and port of the request's own.
-/

import OpenU60.Lib.Split
import OpenU60.Lib.Text
import OpenU60.Web.UrlHost

namespace OpenU60.Web.Guard

open OpenU60.Lib OpenU60.Lib.Split OpenU60.Web.Url

/-! ## IP addresses (`std::net`) -/

/-- Digits up to the first other character. -/
def readNumber (radix maxDigits max : Nat) (zeroPrefix : Bool) (cs : List Char) : Option (Nat × List Char) :=
  let digits := cs.takeWhile fun c => (Text.digitVal radix c).isSome
  if digits = [] ∨ maxDigits < digits.length then none
  else if zeroPrefix = false ∧ digits.head? = some '0' ∧ 1 < digits.length then none
  else (Text.digitsFrom radix max 0 digits).map (·, cs.drop digits.length)

def readChar (c : Char) : List Char → Option (List Char)
  | [] => none
  | d :: cs => if d = c then some cs else none

def readOctet (cs : List Char) : Option (Nat × List Char) := readNumber 10 3 255 false cs

/-- Four octets, as two groups of sixteen bits. -/
def readIpv4 (cs : List Char) : Option ((Nat × Nat) × List Char) := do
  let (a, cs) ← readOctet cs
  let (b, cs) ← readOctet (← readChar '.' cs)
  let (c, cs) ← readOctet (← readChar '.' cs)
  let (d, cs) ← readOctet (← readChar '.' cs)
  some ((a * 256 + b, c * 256 + d), cs)

/-- `Ipv4Addr::from_str` -/
def parseIpv4 (cs : List Char) : Option (BitVec 32) :=
  if 15 < Text.byteLen cs then none
  else
    match readIpv4 cs with
    | some ((high, low), []) => some (BitVec.ofNat 32 (high * 65536 + low))
    | _ => none

/-- The groups of an IPv6 address up to `::` or the end, and whether they end in an IPv4 address. -/
def readGroups : Nat → Bool → List Char → List Nat × Bool × List Char
  | 0, _, cs => ([], false, cs)
  | left + 1, first, cs =>
    let separated := if first then some cs else readChar ':' cs
    match if left = 0 then none else separated.bind readIpv4 with
    | some ((high, low), rest) => ([high, low], true, rest)
    | none =>
      match separated.bind (readNumber 16 4 65535 true) with
      | none => ([], false, cs)
      | some (group, rest) =>
        let (groups, v4, rest) := readGroups left false rest
        (group :: groups, v4, rest)

def ofGroups (groups : List Nat) : BitVec 128 := BitVec.ofNat 128 (groups.foldl (fun n g => n * 65536 + g) 0)

/-- `Ipv6Addr::from_str` -/
def parseIpv6 (cs : List Char) : Option (BitVec 128) :=
  let (head, v4, rest) := readGroups 8 true cs
  if head.length = 8 then (if rest = [] then some (ofGroups head) else none)
  else if v4 then none
  else
    match rest with
    | ':' :: ':' :: rest =>
      let (tail, _, rest) := readGroups (7 - head.length) true rest
      if rest = [] then some (ofGroups (head ++ List.replicate (8 - head.length - tail.length) 0 ++ tail)) else none
    | _ => none

/-! ## The code -/

inductive Method where
  | get
  | post
  | put
  | delete
  | other
  deriving DecidableEq

/-- First occurrence of each. -/
structure ReqHeaders where
  host : Option (List Char)
  origin : Option (List Char)
  secFetchSite : Option (List Char)

inductive Authority where
  | v4 (a : BitVec 32)
  | v6 (a : BitVec 128)
  | name (n : List Char)
  deriving DecidableEq

/-- ASCII white space or control, or `@`. -/
def refusedChar (c : Char) : Bool := c.toNat ≤ 0x20 || c.toNat == 0x7F || c == '@'

def parsePort (p : List Char) : Option Nat :=
  if p = [] ∨ 5 < Text.byteLen p ∨ p.all Char.isDigit = false then none else Text.parseUnsigned Text.u16Max p

/-- `host.strip_suffix('.')` -/
def dropDot (host : List Char) : List Char := if host.getLast? = some '.' then host.dropLast else host

def validChar (c : Char) : Bool := c.isAlphanum || c == '-' || c == '_' || c == '.'

/-- `host.rsplit('.').next()` -/
def lastLabel (host : List Char) : List Char := (host.reverse.takeWhile (· ≠ '.')).reverse

def isHexDigit (c : Char) : Bool := c.isDigit || ('a' ≤ c && c ≤ 'f') || ('A' ≤ c && c ≤ 'F')

def numeric (last : List Char) : Bool :=
  last.all Char.isDigit ||
    match last with
    | '0' :: 'x' :: digits => digits.all isHexDigit
    | _ => false

def authorityOf (host : List Char) (port : Option Nat) : Option (Authority × Option Nat) :=
  if host.any fun c => c == '[' || c == ']' then none
  else
    let host := dropDot (lower host)
    match parseIpv4 host with
    | some v4 => some (.v4 v4, port)
    | none =>
      if host = [] ∨ host.all validChar = false ∨ (host.splitOn '.').contains [] then none
      else if numeric (lastLabel host) then none
      else some (.name host, port)

/-- What stands after a bracket. -/
def portAfter : List Char → Option (Option Nat)
  | [] => some none
  | ':' :: p => (parsePort p).map some
  | _ => none

def parseAuthority (s : List Char) : Option (Authority × Option Nat) :=
  if s = [] ∨ s.any refusedChar = true then none
  else
    match s with
    | '[' :: rest => (splitOnce [']'] rest).bind fun (inside, after) =>
        (portAfter after).bind fun port => (parseIpv6 inside).map fun v6 => (.v6 v6, port)
    | s =>
      match splitOnce [':'] s with
      | some (host, p) => (parsePort p).bind fun port => authorityOf host (some port)
      | none => authorityOf s none

structure HostPolicy where
  extra : List (List Char)
  /-- The LAN HTTPS name. -/
  localName : Option (List Char)

def HostPolicy.new (extra : List (List Char)) : HostPolicy where
  extra := ((extra.map Text.trim).filter (· ≠ [])).filterMap fun raw =>
    match parseAuthority raw with
    | some (.name name, _) => some name
    | _ => none
  localName := none

def HostPolicy.allows (policy : HostPolicy) (host : List Char) (loopback : Bool) (tsNames : List (List Char)) : Bool :=
  match parseAuthority host with
  | none => false
  | some (.v4 _, _) => true
  | some (.v6 _, _) => true
  | some (.name name, _) =>
    policy.extra.contains name || (loopback && (name == "localhost".toList || tsNames.contains name))

def HostPolicy.allowsVia (policy : HostPolicy) (host : List Char) (loopback secure : Bool) (tsNames : List (List Char)) : Bool :=
  policy.allows host loopback tsNames ||
    (secure &&
      match parseAuthority host with
      | some (.name n, _) => some n == policy.localName
      | _ => false)

inductive OriginVerdict where
  | same
  | cross
  | absent
  deriving DecidableEq

def sameAsHost (scheme authority : List Char) (host : Option (List Char)) : OriginVerdict :=
  if lower scheme ≠ "http".toList then .cross
  else
    match parseAuthority authority, host.bind parseAuthority with
    | some origin, some host => if origin.1 = host.1 ∧ origin.2.getD 80 = host.2.getD 80 then .same else .cross
    | _, _ => .cross

def originVerdict (h : ReqHeaders) : OriginVerdict :=
  match h.origin with
  | none => .absent
  | some origin =>
    match splitOnce sep origin with
    | some (scheme, authority) => sameAsHost scheme authority h.host
    | none => .cross

/-- `Sec-Fetch-Site` present and neither `same-origin` nor `none`. -/
def fetchSiteForeign (h : ReqHeaders) : Bool :=
  match h.secFetchSite with
  | none => false
  | some v => lower (Text.trim v) ≠ "same-origin".toList ∧ lower (Text.trim v) ≠ "none".toList

def apiMutationRefused (m : Method) (h : ReqHeaders) : Bool := m ≠ .get ∧ (originVerdict h = .cross ∨ fetchSiteForeign h)

/-! ## What texts denote -/

/-- Without the port; an IPv6 literal keeps its brackets. -/
def hostPart : List Char → List Char
  | '[' :: rest => (splitOnce [']'] rest).elim [] fun parts => '[' :: (parts.1 ++ [']'])
  | s => (splitOnce [':'] s).elim s Prod.fst

def hostName (s : List Char) : List Char := dropDot (lower (hostPart s))

/-- The address of an IP literal. -/
def literal : List Char → Option Authority
  | '[' :: rest => (splitOnce [']'] rest).bind fun parts => (parseIpv6 parts.1).map .v6
  | s => (parseIpv4 (hostName s)).map .v4

/-- IP literals by their addresses, other hosts by their names. -/
def SameHost (s t : List Char) : Prop := literal s = literal t ∧ (literal s = none → hostName s = hostName t)

def decimal (digits : List Char) : Nat := digits.foldl (fun n c => n * 10 + (c.toNat - '0'.toNat)) 0

def writtenPort : List Char → Option Nat
  | ':' :: p => some (decimal p)
  | _ => none

/-- The port that is written. -/
def portOf : List Char → Option Nat
  | '[' :: rest => (splitOnce [']'] rest).bind fun parts => writtenPort parts.2
  | s => (splitOnce [':'] s).map fun parts => decimal parts.2

/-- A browser's parser takes the label for a number: decimal, octal or hexadecimal. -/
def isIpv4Number : List Char → Bool
  | [] => false
  | '0' :: 'x' :: digits => digits.all isHexDigit
  | '0' :: 'X' :: digits => digits.all isHexDigit
  | '0' :: d :: digits => (d :: digits).all fun c => '0' ≤ c && c ≤ '7'
  | label => label.all Char.isDigit

/-- A browser reads such a host as an IPv4 address, whatever the labels before. -/
def endsInNumber (host : List Char) : Bool :=
  let last := lastLabel (dropDot host)
  (last ≠ [] && last.all Char.isDigit) || isIpv4Number last

/-! ## Authorities -/

variable {s t host p n rest : List Char} {a b : Authority} {port port' : Option Nat} {k : Nat}

theorem literal_of_ne (h : s.head? ≠ some '[') : literal s = (parseIpv4 (hostName s)).map .v4 := by
  unfold literal
  split
  · exact absurd rfl h
  · rfl

theorem hostPart_of_ne (h : s.head? ≠ some '[') : hostPart s = (splitOnce [':'] s).elim s Prod.fst := by
  unfold hostPart
  split
  · exact absurd rfl h
  · rfl

theorem portOf_of_ne (h : s.head? ≠ some '[') : portOf s = (splitOnce [':'] s).map fun parts => decimal parts.2 := by
  unfold portOf
  split
  · exact absurd rfl h
  · rfl

theorem digitVal_digit {c : Char} (h : c.isDigit = true) : Text.digitVal 10 c = some (c.toNat - '0'.toNat) := by
  simp only [Char.isDigit, Bool.and_eq_true, decide_eq_true_eq] at h
  have hlow : '0' ≤ c := h.1
  have hhigh : c ≤ '9' := h.2
  have hval : c.val.toNat ≤ 57 := hhigh
  have hlt : c.toNat - '0'.toNat < 10 := by
    show c.val.toNat - 48 < 10
    omega
  simp only [Text.digitVal, hlow, hhigh, and_self, if_true, Option.filter_some, hlt, decide_true]

theorem digitsFrom_eq {max acc : Nat} (hdigits : p.all Char.isDigit = true) (h : Text.digitsFrom 10 max acc p = some k) :
    k = p.foldl (fun n c => n * 10 + (c.toNat - '0'.toNat)) acc := by
  induction p generalizing acc with
  | nil => exact (Option.some.inj h).symm
  | cons c p ih =>
    rw [List.all_cons, Bool.and_eq_true] at hdigits
    unfold Text.digitsFrom at h
    rw [digitVal_digit hdigits.1] at h
    dsimp only at h
    split at h
    · exact ih hdigits.2 h
    · cases h

theorem parsePort_eq (h : parsePort p = some k) : k = decimal p := by
  unfold parsePort at h
  split at h
  · cases h
  · next hok =>
    push Not at hok
    obtain ⟨hne, -, hdigits⟩ := hok
    have hdigits : p.all Char.isDigit = true := by simpa using hdigits
    unfold Text.parseUnsigned Text.parseRadix at h
    split at h
    · cases h
    · cases h
    · exact absurd hdigits (by simp)
    · exact digitsFrom_eq hdigits h

theorem portAfter_eq {after : List Char} (h : portAfter after = some port) : port = writtenPort after := by
  unfold portAfter at h
  split at h
  · cases h
    rfl
  · obtain ⟨k, hk, rfl⟩ := Option.map_eq_some_iff.mp h
    exact congrArg some (parsePort_eq hk)
  · cases h

/-- A host outside of brackets. -/
theorem authorityOf_cases (h : authorityOf host port = some (a, port')) : port' = port ∧
    ((∃ v4, parseIpv4 (dropDot (lower host)) = some v4 ∧ a = .v4 v4) ∨
      (parseIpv4 (dropDot (lower host)) = none ∧ a = .name (dropDot (lower host)) ∧ numeric (lastLabel (dropDot (lower host))) = false)) := by
  unfold authorityOf at h
  split at h
  · cases h
  · dsimp only at h
    cases hv4 : parseIpv4 (dropDot (lower host)) with
    | some v4 =>
      rw [hv4] at h
      cases h
      exact ⟨rfl, .inl ⟨v4, rfl, rfl⟩⟩
    | none =>
      rw [hv4] at h
      dsimp only at h
      split at h
      · cases h
      · split at h
        · cases h
        · next hnumeric =>
          cases h
          exact ⟨rfl, .inr ⟨rfl, rfl, Bool.eq_false_iff.mpr hnumeric⟩⟩

/-- What an accepted text says, by what it denotes. -/
theorem parseAuthority_cases (h : parseAuthority s = some (a, port)) : port = portOf s ∧
    ((literal s = some a ∧ ∀ n, a ≠ .name n) ∨
      (literal s = none ∧ a = .name (hostName s) ∧ numeric (lastLabel (hostName s)) = false)) := by
  unfold parseAuthority at h
  split at h
  · cases h
  · split at h
    · next rest hs =>
      obtain ⟨⟨inside, after⟩, hsplit, h⟩ := Option.bind_eq_some_iff.mp h
      obtain ⟨port', hport, h⟩ := Option.bind_eq_some_iff.mp h
      obtain ⟨v6, hv6, h⟩ := Option.map_eq_some_iff.mp h
      cases h
      refine ⟨?_, .inl ⟨?_, nofun⟩⟩
      · rw [portOf, hsplit]
        exact portAfter_eq hport
      · rw [literal, hsplit]
        exact congrArg (Option.map Authority.v6) hv6
    · next hbracket =>
      have hne : s.head? ≠ some '[' := by
        intro hhead
        obtain ⟨rest, rfl⟩ := List.head?_eq_some_iff.mp hhead
        exact hbracket rest rfl
      rw [literal_of_ne hne, hostName, hostPart_of_ne hne, portOf_of_ne hne]
      have hcases : ∀ {host port'}, authorityOf host port' = some (a, port) →
          port = port' ∧ (((parseIpv4 (dropDot (lower host))).map Authority.v4 = some a ∧ ∀ n, a ≠ .name n) ∨
            ((parseIpv4 (dropDot (lower host))).map Authority.v4 = none ∧ a = .name (dropDot (lower host)) ∧
              numeric (lastLabel (dropDot (lower host))) = false)) := by
        intro host port' h
        obtain ⟨hport, hhost⟩ := authorityOf_cases h
        refine ⟨hport, ?_⟩
        rcases hhost with ⟨v4, hv4, rfl⟩ | ⟨hv4, hname⟩
        · exact .inl ⟨by rw [hv4]; rfl, nofun⟩
        · exact .inr ⟨by rw [hv4]; rfl, hname⟩
      cases hsplit : splitOnce [':'] s with
      | none =>
        rw [hsplit] at h
        exact hcases h
      | some parts =>
        rw [hsplit] at h
        obtain ⟨k, hk, h⟩ := Option.bind_eq_some_iff.mp h
        obtain ⟨hport, hhost⟩ := hcases h
        exact ⟨hport.trans (congrArg some (parsePort_eq hk)), hhost⟩

/-- One authority for one host. -/
theorem authority_eq_iff (hs : parseAuthority s = some (a, port)) (ht : parseAuthority t = some (b, port')) : a = b ↔ SameHost s t := by
  obtain ⟨-, hs'⟩ := parseAuthority_cases hs
  obtain ⟨-, ht'⟩ := parseAuthority_cases ht
  unfold SameHost
  rcases hs' with ⟨hs', hname⟩ | ⟨hs', rfl, -⟩
  · rcases ht' with ⟨ht', -⟩ | ⟨ht', rfl, -⟩
    · simp [hs', ht']
    · simp [hs', ht', hname]
  · rcases ht' with ⟨ht', hname⟩ | ⟨ht', rfl, -⟩
    · simp [hs', ht', (hname _).symm]
    · simp [hs', ht']

/-- A policy's names are those of the entries that are accepted as names. -/
theorem HostPolicy.mem_new {extra : List (List Char)} :
    n ∈ (HostPolicy.new extra).extra ↔ ∃ raw ∈ extra, ∃ port, parseAuthority (Text.trim raw) = some (.name n, port) := by
  simp only [HostPolicy.new, List.mem_filterMap, List.mem_filter, List.mem_map, decide_eq_true_eq]
  constructor
  · rintro ⟨_, ⟨⟨raw, hraw, rfl⟩, -⟩, hname⟩
    refine ⟨raw, hraw, ?_⟩
    split at hname
    · next port hparse =>
      cases hname
      exact ⟨port, hparse⟩
    · cases hname
  · intro ⟨raw, hraw, port, hparse⟩
    refine ⟨Text.trim raw, ⟨⟨raw, hraw, rfl⟩, ?_⟩, ?_⟩
    · intro hempty
      rw [hempty] at hparse
      cases hparse
    · rw [hparse]

/-! ## Numbers -/

theorem isDigit_lower (c : Char) : c.toLower.isDigit = c.isDigit := by
  rcases toLower_eq c with heq | ⟨⟨hA, hZ⟩, hlow, -⟩
  · rw [heq]
  · have hupper : c.isDigit = false := by
      have h : 65 ≤ c.val.toNat := hA
      simp only [Char.isDigit, Bool.and_eq_false_iff, decide_eq_false_iff_not, UInt32.le_iff_toNat_le]
      right
      show ¬ c.val.toNat ≤ 57
      omega
    have hlower : c.toLower.isDigit = false := by
      have h : 97 ≤ c.toLower.val.toNat := hlow
      simp only [Char.isDigit, Bool.and_eq_false_iff, decide_eq_false_iff_not, UInt32.le_iff_toNat_le]
      right
      show ¬ c.toLower.val.toNat ≤ 57
      omega
    rw [hupper, hlower]

theorem dot_lower (c : Char) : c.toLower = '.' ↔ c = '.' := by
  constructor
  · exact toLower_inj (by decide)
  · intro h
    rw [h]
    rfl

theorem dropDot_lower (h : List Char) : dropDot (lower h) = lower (dropDot h) := by
  unfold dropDot lower
  rw [List.getLast?_map]
  cases hlast : h.getLast? with
  | none => simp
  | some c =>
    by_cases hc : c = '.'
    · simp [hc]
    · simp [hc, (dot_lower c).not.mpr hc]

theorem lastLabel_lower (h : List Char) : lastLabel (lower h) = lower (lastLabel h) := by
  have hdot : (fun c => decide (c ≠ '.')) ∘ Char.toLower = fun c : Char => decide (c ≠ '.') := by
    funext c
    simp only [Function.comp_apply, ne_eq, dot_lower]
  unfold lastLabel lower
  rw [← List.map_reverse, List.takeWhile_map, hdot, List.map_reverse]

theorem isHexDigit_lower {c : Char} (h : isHexDigit c = true) : isHexDigit c.toLower = true := by
  rcases toLower_eq c with heq | ⟨⟨hA, hZ⟩, hlow, -⟩
  · rw [heq]
    exact h
  · have hnat := toLower_upper ⟨hA, hZ⟩
    have hA' : 65 ≤ c.val.toNat := hA
    have hF : c.val.toNat ≤ 70 := by
      simp only [isHexDigit, Char.isDigit, Bool.or_eq_true, Bool.and_eq_true, decide_eq_true_eq, UInt32.le_iff_toNat_le] at h
      rcases h with (⟨-, hdigit⟩ | ⟨hlower, -⟩) | ⟨-, hF⟩
      · have hdigit : c.val.toNat ≤ 57 := hdigit
        omega
      · have hlower : 97 ≤ c.val.toNat := hlower
        have hZ' : c.val.toNat ≤ 90 := hZ
        omega
      · exact hF
    have hf : c.toLower ≤ 'f' := by
      show c.toLower.val.toNat ≤ 102
      omega
    simp [isHexDigit, hlow, hf]

theorem all_isDigit_lower (l : List Char) : (lower l).all Char.isDigit = l.all Char.isDigit := by
  rw [lower, List.all_map]
  exact congrArg l.all (funext isDigit_lower)

theorem isDigit_of_octal {c : Char} (h : ('0' ≤ c && c ≤ '7') = true) : c.isDigit = true := by
  simp only [Bool.and_eq_true, decide_eq_true_eq] at h
  have hhigh : c.val.toNat ≤ 55 := h.2
  have hnine : c.val ≤ 57 := by
    rw [UInt32.le_iff_toNat_le]
    show c.val.toNat ≤ 57
    omega
  have hzero : c.val ≥ 48 := h.1
  simp [Char.isDigit, hzero, hnine]

theorem numeric_of_digits {l : List Char} (h : l.all Char.isDigit = true) : numeric (lower l) = true := by
  unfold numeric
  rw [all_isDigit_lower, h, Bool.true_or]

theorem numeric_of_hex {digits : List Char} (h : digits.all isHexDigit = true) : numeric ('0' :: 'x' :: lower digits) = true := by
  have hlow : (lower digits).all isHexDigit = true := by
    rw [lower, List.all_map, List.all_eq_true]
    exact fun c hc => isHexDigit_lower (List.all_eq_true.mp h c hc)
  unfold numeric
  simp only [hlow, Bool.or_true]

/-- The labels a browser takes for numbers are numeric to the agent. -/
theorem numeric_of_isIpv4Number {l : List Char} (h : isIpv4Number l = true) : numeric (lower l) = true := by
  unfold isIpv4Number at h
  split at h
  · cases h
  · exact numeric_of_hex h
  · exact numeric_of_hex h
  · next d digits _ _ =>
    refine numeric_of_digits (List.all_eq_true.mpr fun c hc => ?_)
    rcases List.mem_cons.mp hc with rfl | hc
    · rfl
    · exact isDigit_of_octal (List.all_eq_true.mp h c hc)
  · exact numeric_of_digits h

theorem name_not_number (h : parseAuthority s = some (.name n, port)) : endsInNumber (hostPart s) = false := by
  obtain ⟨-, ⟨-, hname⟩ | ⟨-, -, hnumeric⟩⟩ := parseAuthority_cases h
  · exact absurd rfl (hname n)
  · rw [hostName, dropDot_lower, lastLabel_lower] at hnumeric
    rw [Bool.eq_false_iff]
    intro hnumber
    unfold endsInNumber at hnumber
    simp only [Bool.or_eq_true, Bool.and_eq_true] at hnumber
    rcases hnumber with ⟨-, hdigits⟩ | hnumber
    · rw [numeric_of_digits hdigits] at hnumeric
      cases hnumeric
    · rw [numeric_of_isIpv4Number hnumber] at hnumeric
      cases hnumeric

/-! ## Origins -/

theorem origin_same {h : ReqHeaders} (hsame : originVerdict h = .same) :
    ∃ origin host scheme authority, h.origin = some origin ∧ h.host = some host ∧ splitOnce sep origin = some (scheme, authority) ∧
      lower scheme = "http".toList ∧ SameHost authority host ∧ (portOf authority).getD 80 = (portOf host).getD 80 := by
  unfold originVerdict at hsame
  split at hsame
  · cases hsame
  · next origin horigin =>
    split at hsame
    · next scheme authority hsplit =>
      unfold sameAsHost at hsame
      split at hsame
      · cases hsame
      · next hscheme =>
        split at hsame
        · next own other hown hother =>
          split at hsame
          · next heq =>
            obtain ⟨host, hhost, hparse⟩ := Option.bind_eq_some_iff.mp hother
            refine ⟨origin, host, scheme, authority, horigin, hhost, hsplit, not_not.mp hscheme, ?_, ?_⟩
            · exact (authority_eq_iff hown hparse).mp heq.1
            · rw [← (parseAuthority_cases hown).1, ← (parseAuthority_cases hparse).1]
              exact heq.2
          · cases hsame
        · cases hsame
    · cases hsame

end OpenU60.Web.Guard
