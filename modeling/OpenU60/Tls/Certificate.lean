/-
  OpenU60.Tls.Certificate — the router's certificates as bytes (`zte-agent/src/tls/x509.rs`).

  `authority` and `leaf` write them, `parse` and `scope` read back what the agent needs. What `ring` and
  `p256` do is a parameter that nothing is asked of; what a run draws at random, and whether it could, is
  an argument. A run's `while let` over `next` is one over `elements`.
-/

import OpenU60.Lib.Prefix
import OpenU60.Tls.Validity

namespace OpenU60.Tls.Der

open OpenU60.Lib OpenU60.Lib.BigEndian OpenU60.Lib.ByteLines OpenU60.Lib.Utf8

/-! ## Object identifiers (content octets only) -/

def oidEcPublicKey : Bytes := [0x2a, 0x86, 0x48, 0xce, 0x3d, 0x02, 0x01]
def oidP256 : Bytes := [0x2a, 0x86, 0x48, 0xce, 0x3d, 0x03, 0x01, 0x07]
def oidEcdsaSha256 : Bytes := [0x2a, 0x86, 0x48, 0xce, 0x3d, 0x04, 0x03, 0x02]
def oidCn : Bytes := [0x55, 0x04, 0x03]
def oidOrg : Bytes := [0x55, 0x04, 0x0a]
def oidBasic : Bytes := [0x55, 0x1d, 0x13]
def oidKeyUsage : Bytes := [0x55, 0x1d, 0x0f]
def oidEku : Bytes := [0x55, 0x1d, 0x25]
def oidSan : Bytes := [0x55, 0x1d, 0x11]
def oidNameConstraints : Bytes := [0x55, 0x1d, 0x1e]
def oidSki : Bytes := [0x55, 0x1d, 0x0e]
def oidAki : Bytes := [0x55, 0x1d, 0x23]
def oidServerAuth : Bytes := [0x2b, 0x06, 0x01, 0x05, 0x05, 0x07, 0x03, 0x01]

/-- GeneralName choices (context-specific, primitive). -/
def gnDns : UInt8 := 0x82
def gnIp : UInt8 := 0x87

/-! ## What is written -/

inductive IpAddr where
  | v4 (a : BitVec 32)
  | v6 (a : BitVec 128)
  deriving DecidableEq

/-- A private key (PKCS#8 DER) and its certificate (DER). -/
structure KeyCert where
  key : Bytes
  cert : Bytes

structure CaSpec where
  cn : List Char
  notBefore : Int
  notAfter : Int
  /-- Permitted IPv4 networks (address, prefix length). -/
  ips : List (BitVec 32 × Nat)
  /-- Permitted DNS zones (the name and every name below it). -/
  dns : List (List Char)

structure LeafSpec where
  /-- The first is also its common name. -/
  dns : List (List Char)
  ips : List IpAddr
  notBefore : Int
  notAfter : Int

/-- `ring` and `p256`; a root key is of a type of its own. -/
structure Crypto (RootKey : Type) where
  sha256 : Bytes → Bytes
  /-- The uncompressed public point. -/
  rootPoint : RootKey → Bytes
  rootSign : RootKey → Bytes → Bytes
  /-- The uncompressed public point of a PKCS#8 P-256 key. -/
  point : Bytes → Option Bytes
  sign : Bytes → Bytes → Option Bytes

section Writing

variable {RootKey : Type} (x : Crypto RootKey)

def org : List Char := "OpenU60 zte-agent".toList

def name (org : Option (List Char)) (cn : List Char) : Bytes :=
  let rdn (oid : Bytes) (v : List Char) := tlv tagSet (seq [tlv tagOid oid, tlv tagUtf8 (utf8 v)])
  tlv tagSeq ((org.map (rdn oidOrg)).getD [] ++ rdn oidCn cn)

def ext (oid : Bytes) (critical : Bool) (value : Bytes) : Bytes :=
  let crit := if critical then tlv tagBool [0xff] else []
  seq [tlv tagOid oid, crit, tlv tagOctets value]

def spki (point : Bytes) : Bytes := seq [seq [tlv tagOid oidEcPublicKey, tlv tagOid oidP256], bits point]

/-- The leftmost 160 bits of the SHA-256 of the public key (RFC 7093, method 1). -/
def keyId (point : Bytes) : Bytes := (x.sha256 point).take 20

def octets4 (a : BitVec 32) : Bytes := toBytes 4 a.toNat

def ipOctets : IpAddr → Bytes
  | .v4 a => octets4 a
  | .v6 a => toBytes 16 a.toNat

/-- The bits of an address that count, also for a prefix past 32: a shift by 32 leaves none. -/
def mask (len : Nat) : BitVec 32 := BitVec.allOnes 32 <<< (32 - min len 32)

/-- The permitted networks and zones; every IPv6 address excluded, and every IPv4 address too when no
    network is permitted. -/
def nameConstraints (ips : List (BitVec 32 × Nat)) (dns : List (List Char)) : Bytes :=
  let permitted := (ips.map fun (net, len) => seq [tlv gnIp (octets4 net ++ octets4 (mask len))]) ++
    dns.map fun zone => seq [tlv gnDns (utf8 zone)]
  let excluded := (if ips.isEmpty then seq [tlv gnIp (List.replicate 8 0)] else []) ++ seq [tlv gnIp (List.replicate 32 0)]
  seq [tlv 0xa0 permitted.flatten, tlv 0xa1 excluded]

/-- Positive and as long as what was drawn. -/
def serial (drawn : Option Bytes) : Except String Bytes :=
  match drawn with
  | none => .error "no randomness"
  | some [] => .ok (uint [])
  | some (b :: s) => .ok (uint (((b &&& 0x7f) ||| 0x40) :: s))

/-- A new key with its point. -/
def newKey (generated : Option Bytes) : Except String (Bytes × Bytes) :=
  match generated with
  | none => .error "key generation failed"
  | some pkcs8 =>
    match x.point pkcs8 with
    | none => .error "bad key"
    | some point => .ok (pkcs8, point)

def tbs (serial issuer : Bytes) (notBefore notAfter : Int) (subject point : Bytes) (exts : List Bytes) : Bytes :=
  let version := tlv 0xa0 (tlv tagInt [2])
  let alg := seq [tlv tagOid oidEcdsaSha256]
  let validity := seq [time notBefore, time notAfter]
  let exts := tlv 0xa3 (tlv tagSeq exts.flatten)
  seq [version, serial, alg, issuer, validity, subject, spki point, exts]

def signed (signature : Option Bytes) (tbs : Bytes) : Except String Bytes :=
  match signature with
  | none => .error "signing failed"
  | some sig => .ok (seq [tbs, seq [tlv tagOid oidEcdsaSha256], bits sig])

/-- cA with `path_len`, keyCertSign + cRLSign, serverAuth, the name constraints, its key id and (below the
    root) its issuer's. -/
def caExts (spec : CaSpec) (pathLen : UInt8) (id : Bytes) (authority : Option Bytes) : List Bytes :=
  [ext oidBasic true (seq [tlv tagBool [0xff], tlv tagInt [pathLen]]),
    ext oidKeyUsage true (tlv tagBits [0x01, 0x06]),
    ext oidEku false (seq [tlv tagOid oidServerAuth]),
    ext oidNameConstraints true (nameConstraints spec.ips spec.dns),
    ext oidSki false (tlv tagOctets id)] ++
  match authority with
  | some a => [ext oidAki false (seq [tlv 0x80 a])]
  | none => []

/-- What a run of `authority` or `leaf` draws, in its order. -/
structure Drawn (RootKey : Type) where
  rootKey : RootKey
  rootSerial : Option Bytes
  key : Option Bytes
  serial : Option Bytes

/-- The root's certificate, and the issuing CA. -/
def authority (d : Drawn RootKey) (root issuing : CaSpec) : Except String (Bytes × KeyCert) := do
  let rootPoint := x.rootPoint d.rootKey
  let rootName := name (some org) root.cn
  let rootId := keyId x rootPoint
  let exts := caExts root 1 rootId none
  let rootTbs := tbs (← serial d.rootSerial) rootName root.notBefore root.notAfter rootName rootPoint exts
  let rootCert ← signed (some (x.rootSign d.rootKey rootTbs)) rootTbs
  let (key, point) ← newKey x d.key
  let exts := caExts issuing 0 (keyId x point) (some rootId)
  let subject := name (some org) issuing.cn
  let tbs := tbs (← serial d.serial) rootName issuing.notBefore issuing.notAfter subject point exts
  let cert ← signed (some (x.rootSign d.rootKey tbs)) tbs
  .ok (rootCert, ⟨key, cert⟩)

end Writing

/-! ## What is read -/

structure Info where
  /-- The subject as encoded. -/
  subject : Bytes
  /-- The issuer as encoded. -/
  issuer : Bytes
  cn : List Char
  notBefore : Int
  notAfter : Int
  /-- The public key (uncompressed point). -/
  point : Bytes
  keyId : Option Bytes
  dns : List (List Char)
  ips : List IpAddr
  /-- Every extension: OID, critical, value. -/
  exts : List (Bytes × Bool × Bytes)

def Info.ext (info : Info) (oid : Bytes) : Option (Bool × Bytes) := (info.exts.find? fun e => e.1 == oid).map Prod.snd

def commonNameIn : List (UInt8 × Bytes) → Option (List Char)
  | [] => none
  | (_, set) :: rdns => do
    let (atv, _) ← expect set tagSeq
    let (oid, value) ← expect atv tagOid
    if oid = oidCn then (next value).map fun (_, v, _) => lossy v else commonNameIn rdns

def commonName (subject : Bytes) : Option (List Char) := commonNameIn (elements subject)

def readExt (e : Bytes) : Option (Bytes × Bool × Bytes) := do
  let (oid, e) ← expect e tagOid
  let (critical, e) :=
    match expect e tagBool with
    | some (b, r) => (b == [0xff], r)
    | none => (false, e)
  let (value, _) ← expect e tagOctets
  some (oid, critical, value)

/-- The extensions, behind the public key. -/
def readExts (rest : Bytes) : Option (List (Bytes × Bool × Bytes)) := do
  let lists ← ((elements rest).filter fun e => e.1 == 0xa3).mapM fun e => do
    let (list, _) ← expect e.2 tagSeq
    (elements list).mapM fun e => readExt e.2
  some lists.flatten

def ofOctets (w : Nat) (b : Bytes) : BitVec w := BitVec.ofNat w (ofBytes b)

/-- One of the subject alternative names. -/
def readName (names : List (List Char) × List IpAddr) (e : UInt8 × Bytes) : List (List Char) × List IpAddr :=
  if e.1 = gnDns then (names.1 ++ [lossy e.2], names.2)
  else if e.1 = gnIp ∧ e.2.length = 4 then (names.1, names.2 ++ [.v4 (ofOctets 32 e.2)])
  else if e.1 = gnIp ∧ e.2.length = 16 then (names.1, names.2 ++ [.v6 (ofOctets 128 e.2)])
  else names

/-- The key id and the names, which are in extensions. -/
def Info.complete (info : Info) : Option Info := do
  let info := { info with keyId := (info.ext oidSki).bind fun v => (expect v.2 tagOctets).map Prod.fst }
  match info.ext oidSan with
  | none => some info
  | some (_, v) =>
    let (names, _) ← expect v tagSeq
    let (dns, ips) := (elements names).foldl readName ([], [])
    some { info with dns, ips }

/-- A certificate's subject, validity, key and names. -/
def parse (cert : Bytes) : Option Info := do
  let (cert, _) ← expect cert tagSeq
  let (tbs, _) ← expect cert tagSeq
  let (tag, _, rest) ← next tbs
  let rest := if tag = 0xa0 then rest else tbs
  let (_, rest) ← expect rest tagInt
  let (_, atIssuer) ← expect rest tagSeq
  let (_, rest) ← expect atIssuer tagSeq
  let issuer := atIssuer.take (atIssuer.length - rest.length)
  let (validity, rest) ← expect rest tagSeq
  let (subject, after) ← expect rest tagSeq
  let subjectRaw := rest.take (rest.length - after.length)
  let (spki, rest) ← expect after tagSeq
  let (t1, nb, v) ← next validity
  let (t2, na, _) ← next v
  let (_, spkiRest) ← expect spki tagSeq
  let (point, _) ← expect spkiRest tagBits
  let notBefore ← parseTime t1 nb
  let notAfter ← parseTime t2 na
  if point = [] then none
  else
    let exts ← readExts rest
    Info.complete
      { subject := subjectRaw, issuer, cn := (commonName subject).getD [], notBefore, notAfter, point := point.tail, keyId := none,
        dns := [], ips := [], exts }

/-- A new server key and its certificate, signed by `ca` (the issuing CA). -/
def leaf {RootKey : Type} (x : Crypto RootKey) (generated drawn : Option Bytes) (ca : KeyCert) (spec : LeafSpec) : Except String KeyCert :=
  match parse ca.cert with
  | none => .error "unreadable CA certificate"
  | some caInfo =>
    match x.point ca.key with
    | none => .error "unreadable CA key"
    | some caPoint =>
      if caPoint ≠ caInfo.point then .error "CA key does not match its certificate"
      else do
        let (key, point) ← newKey x generated
        let cn := spec.dns.head?.getD "zte-agent".toList
        let san := spec.dns.map (fun d => tlv gnDns (utf8 d)) ++ spec.ips.map fun ip => tlv gnIp (ipOctets ip)
        let aki := seq [tlv 0x80 (caInfo.keyId.getD (keyId x caInfo.point))]
        let exts := [ext oidBasic true (seq []),
          ext oidKeyUsage true (tlv tagBits [0x07, 0x80]),
          ext oidEku false (seq [tlv tagOid oidServerAuth]),
          ext oidSan false (tlv tagSeq san.flatten),
          ext oidSki false (tlv tagOctets (keyId x point)),
          ext oidAki false aki]
        let tbs := tbs (← serial drawn) caInfo.subject spec.notBefore spec.notAfter (name none cn) point exts
        let cert ← signed (x.sign ca.key tbs) tbs
        .ok ⟨key, cert⟩

/-! ## What a CA may vouch for -/

/-- The permitted networks and zones of a CA's name constraints. -/
structure Scope where
  ips : List (BitVec 32 × Nat)
  dns : List (List Char)

def leadingOnes (m : BitVec 32) : Nat := ((List.range 32).takeWhile fun i => m.getMsbD i).length

def readSubtree (out : Scope) (subtree : Bytes) : Option Scope :=
  match next subtree with
  | none => none
  | some (tag, b, _) =>
    if tag = gnIp ∧ b.length = 8 then
      some { out with ips := out.ips ++ [(ofOctets 32 (b.take 4), leadingOnes (ofOctets 32 (b.drop 4)))] }
    else if tag = gnDns then some { out with dns := out.dns ++ [(lossy b).map Char.toLower] }
    else some out

/-- `none` without name constraints (or unreadable). -/
def scope (info : Info) : Option Scope := do
  let (_, nc) ← info.ext oidNameConstraints
  let (body, _) ← expect nc tagSeq
  let (permitted, _) ← expect body 0xa0
  (elements permitted).foldlM (fun out e => readSubtree out e.2) ⟨[], []⟩

def Scope.coversIp (s : Scope) (ip : BitVec 32) : Bool := s.ips.any fun (net, len) => ip &&& mask len == net &&& mask len

/-- `str::strip_suffix` -/
def stripSuffix (suffix s : List Char) : Option (List Char) :=
  if suffix.isSuffixOf s then some (s.take (s.length - suffix.length)) else none

/-- The name or a name below one permitted (RFC 5280 4.2.1.10). -/
def Scope.coversName (s : Scope) (name : List Char) : Bool :=
  s.dns.any fun z => name == z || (stripSuffix z name).any fun l => l.getLast? == some '.' && decide (1 < Text.byteLen l)

end OpenU60.Tls.Der
