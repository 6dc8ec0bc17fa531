/-
  OpenU60.Tls.X509 — the router's certificates (`zte-agent/src/tls/x509.rs`: `Scope`,
  `authority`, `leaf`, `key_point`, `Info`; `tls/mod.rs`: `private`, `Ca::new`, `Loaded::new`).

  A certificate is what `parse` reads back from it, with the key that signed it beside. Its
  dates are read back as written: a router's clock ends in 2262 and a `Date` header has a
  four-digit year, so every date has one. Signing and key generation succeed.
-/

import Mathlib

namespace OpenU60.Tls

abbrev Ipv4 := BitVec 32

/-- A private key, by its public point. -/
structure Key where
  point : Nat
  deriving DecidableEq

/-- A certificate's subject or issuer. -/
structure Name where
  org : Option String
  cn : String
  deriving DecidableEq

/-- What a CA may vouch for: the permitted networks and names. -/
structure Scope where
  ips : List (Ipv4 × Nat)
  dns : List String
  deriving DecidableEq

namespace Scope

def coversIp (s : Scope) (ip : Ipv4) : Bool :=
  s.ips.any fun (net, len) =>
    let keep := BitVec.allOnes 32 <<< (32 - min len 32)
    ip &&& keep == net &&& keep

/-- The name or a name below one permitted. -/
def coversName (s : Scope) (name : String) : Bool :=
  s.dns.any fun z => name == z || (name.endsWith ("." ++ z) && (z.length + 1 < name.length))

end Scope

structure Cert where
  subject : Name
  issuer : Name
  notBefore : Int
  notAfter : Int
  point : Nat
  dns : List String
  ips : List Ipv4
  /-- The permitted subtrees of its name constraints. -/
  scope : Option Scope
  /-- The key that signed it. -/
  signer : Key
  deriving DecidableEq

structure KeyCert where
  key : Key
  cert : Cert
  deriving DecidableEq

structure CaSpec where
  cn : String
  notBefore : Int
  notAfter : Int
  ips : List (Ipv4 × Nat)
  dns : List String

structure LeafSpec where
  dns : List String
  ips : List Ipv4
  notBefore : Int
  notAfter : Int

def org : String := "OpenU60 zte-agent"

/-- `scope` reads the permitted names in lower case. -/
def CaSpec.scope (s : CaSpec) : Scope := ⟨s.ips, s.dns.map String.toLower⟩

/-- The root's certificate and the issuing CA, for new keys. -/
def authority (root issuing : CaSpec) (rootKey issuingKey : Key) : Cert × KeyCert :=
  let rootName : Name := ⟨some org, root.cn⟩
  (⟨rootName, rootName, root.notBefore, root.notAfter, rootKey.point, [], [], some root.scope, rootKey⟩,
   ⟨issuingKey,
    ⟨⟨some org, issuing.cn⟩, rootName, issuing.notBefore, issuing.notAfter, issuingKey.point, [], [], some issuing.scope, rootKey⟩⟩)

/-- A server certificate for a new key, signed by `ca`. -/
def leaf (ca : KeyCert) (spec : LeafSpec) (key : Key) : KeyCert :=
  ⟨key, ⟨⟨none, spec.dns.head?.getD "zte-agent"⟩, ca.cert.subject, spec.notBefore, spec.notAfter, key.point, spec.dns, spec.ips,
    none, ca.key⟩⟩

/-- The private IPv4 ranges. -/
def privateV4 : List (Ipv4 × Nat) := [(0x0A000000, 8), (0xAC100000, 12), (0xC0A80000, 16)]

def isPrivate (ip : Ipv4) : Bool :=
  privateV4.any fun (net, len) => ip &&& (BitVec.allOnes 32 <<< (32 - len)) == net

/-- The certificate authority on disk. -/
structure Ca where
  root : Cert
  issuing : KeyCert
  scope : Scope
  chained : issuing.cert.issuer = root.subject
  matching : issuing.key.point = issuing.cert.point
  permits : issuing.cert.scope = some scope

def Ca.new (root : Cert) (issuing : KeyCert) : Except String Ca :=
  if hc : issuing.cert.issuer = root.subject then
    if hm : issuing.key.point = issuing.cert.point then
      match hs : issuing.cert.scope with
      | some scope => .ok ⟨root, issuing, scope, hc, hm, hs⟩
      | none => .error "the issuing CA has no name constraints"
    else .error "the issuing CA key does not match its certificate"
  else .error "the certificates do not belong together"

/-- What the agent holds while HTTPS is on. -/
structure Loaded where
  ca : Ca
  server : Cert
  issued : server.issuer = ca.issuing.cert.subject

/-- The listener's key: the server certificate, then the issuing CA's. -/
structure CertifiedKey where
  chain : List Cert
  key : Key
  deriving DecidableEq

def Loaded.new (ca : Ca) (server : KeyCert) : Except String (Loaded × CertifiedKey) :=
  if hi : server.cert.issuer = ca.issuing.cert.subject then
    if server.key.point = server.cert.point then .ok (⟨ca, server.cert, hi⟩, ⟨[server.cert, ca.issuing.cert], server.key⟩)
    else .error "the server key does not match its certificate"
  else .error "the server certificate is not the issuing CA's"

/-- The LAN address the server certificate names. -/
def Loaded.serverIp (l : Loaded) : Option Ipv4 := l.server.ips.head?

end OpenU60.Tls
