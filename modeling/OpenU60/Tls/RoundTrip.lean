/-
  OpenU60.Tls.RoundTrip — the certificates of `authority` and `leaf`, read back.

  - `certificates_read_back`: of every certificate shorter than 2^32 bytes `parse` and `scope` give what was
    put in, and a scope covers exactly the addresses of its networks and the names of its zones.
  - `long_name_unread`: the reader refuses a longer one.
-/

import OpenU60.Tls.ReadBack

namespace OpenU60.Tls.Der

open OpenU60.Lib OpenU60.Lib.BigEndian OpenU60.Lib.ByteLines OpenU60.Lib.Utf8

variable {RootKey : Type} {x : Crypto RootKey}

/-! ## Extensions of a CA and of a server -/

def caList (spec : CaSpec) (pathLen : UInt8) (id : Bytes) (authority : Option Bytes) : List Ext :=
  [(oidBasic, true, seq [tlv tagBool [0xff], tlv tagInt [pathLen]]), (oidKeyUsage, true, tlv tagBits [0x01, 0x06]),
    (oidEku, false, seq [tlv tagOid oidServerAuth]), (oidNameConstraints, true, nameConstraints spec.ips spec.dns),
    (oidSki, false, tlv tagOctets id)] ++ (authority.map fun a => (oidAki, false, seq [tlv 0x80 a])).toList

theorem caExts_flatten (spec : CaSpec) (pathLen : UInt8) (id : Bytes) (authority : Option Bytes) :
    (caExts spec pathLen id authority).flatten = encodeExts (caList spec pathLen id authority) := by
  cases authority <;> simp [caExts, caList, encodeExts, encode, ext_eq]

theorem ext_caList {info : Info} {spec : CaSpec} {pathLen : UInt8} {id : Bytes} {authority : Option Bytes}
    (h : info.exts = caList spec pathLen id authority) :
    info.ext oidSki = some (false, tlv tagOctets id) ∧ info.ext oidNameConstraints = some (true, nameConstraints spec.ips spec.dns) ∧
      info.ext oidSan = none := by
  unfold Info.ext
  rw [h]
  have hski : (oidBasic == oidSki) = false ∧ (oidKeyUsage == oidSki) = false ∧ (oidEku == oidSki) = false ∧
      (oidNameConstraints == oidSki) = false := by decide
  have hnc : (oidBasic == oidNameConstraints) = false ∧ (oidKeyUsage == oidNameConstraints) = false ∧
      (oidEku == oidNameConstraints) = false := by decide
  have hsan : (oidBasic == oidSan) = false ∧ (oidKeyUsage == oidSan) = false ∧ (oidEku == oidSan) = false ∧
      (oidNameConstraints == oidSan) = false ∧ (oidSki == oidSan) = false ∧ (oidAki == oidSan) = false := by decide
  cases authority <;> simp [caList, hski, hnc, hsan]

/-! ## A CA's certificate -/

def LowerAscii (name : List Char) : Prop := ∀ c ∈ name, c.toNat < 128 ∧ c.isUpper = false

structure CaSpec.Ok (s : CaSpec) : Prop where
  notBefore : InYears s.notBefore
  notAfter : InYears s.notAfter
  ips : ∀ net ∈ s.ips, net.2 ≤ 32
  dns : ∀ zone ∈ s.dns, LowerAscii zone

/-- The certificate is read as what was put in. -/
def ReadsCa (cert : Bytes) (spec : CaSpec) (issuerCn : List Char) (point : Bytes) : Prop :=
  ∃ info, parse cert = some info ∧ info.subject = name (some org) spec.cn ∧ info.issuer = name (some org) issuerCn ∧
    info.cn = spec.cn ∧ info.point = point ∧ info.notBefore = spec.notBefore ∧ info.notAfter = spec.notAfter ∧
    info.dns = [] ∧ info.ips = [] ∧ scope info = some ⟨spec.ips, spec.dns⟩

theorem lower_of_ascii {zone : List Char} (h : LowerAscii zone) : zone.map Char.toLower = zone := by
  have hsame : ∀ c ∈ zone, c.toLower = c := by
    intro c hc
    have hupper := (h c hc).2
    unfold Char.toLower
    rw [dif_neg]
    intro hrange
    simp [Char.isUpper] at hupper
    exact absurd (hupper hrange.1) (UInt32.not_lt.mpr hrange.2)
  rw [List.map_congr_left hsame, List.map_id'']
  exact fun _ => rfl

theorem uint_eq (b : Bytes) : ∃ s, uint b = tlv tagInt s := by
  unfold uint
  split
  · exact ⟨_, rfl⟩
  · split
    · exact ⟨_, rfl⟩
    · exact ⟨_, rfl⟩

theorem serial_eq {drawn : Option Bytes} {out : Bytes} (h : serial drawn = .ok out) : ∃ s, out = tlv tagInt s := by
  unfold serial at h
  split at h
  · cases h
  · cases h
    exact uint_eq _
  · cases h
    exact uint_eq _

/-- The parts of a certificate that fits. -/
theorem fits_parts {s issuer subject point sig : Bytes} {exts : List Bytes} {notBefore notAfter : Int}
    (h : Fits (seq [tbs s issuer notBefore notAfter subject point exts, seq [tlv tagOid oidEcdsaSha256], bits sig])) :
    Fits issuer ∧ Fits subject ∧ Fits exts.flatten := by
  unfold tbs at h
  simp only [seq, List.flatten_cons, List.flatten_nil] at h
  have hissuer := h.inner.parts.1.inner.parts.2.parts.2.parts.2
  have hsubject := hissuer.parts.2.parts.2
  exact ⟨hissuer.parts.1, hsubject.parts.1, hsubject.parts.2.parts.2.parts.1.inner.inner⟩

theorem name_fits {org : Option (List Char)} {cn : List Char} (h : Fits (name org cn)) :
    ∃ content, name org cn = tlv tagSeq content ∧ Fits content ∧ commonName content = some cn := by
  obtain ⟨content, heq, hread⟩ := name_eq org cn
  rw [heq] at h
  exact ⟨content, heq, h.inner, hread h.inner⟩

theorem fits_value {es : List Ext} (h : Fits (encodeExts es)) {e : Ext} (he : e ∈ es) : Fits e.2.2 := by
  have hbody : Fits (extBody e) :=
    Nat.lt_of_le_of_lt (length_le_encode (List.mem_map_of_mem (f := fun e => (tagSeq, extBody e)) he)) h
  unfold extBody at hbody
  rw [List.flatten_cons, List.flatten_cons, List.flatten_cons] at hbody
  exact hbody.parts.2.parts.2.parts.1.inner

theorem complete_ca {info : Info} {spec : CaSpec} {pathLen : UInt8} {id : Bytes} {authority : Option Bytes}
    (h : info.exts = caList spec pathLen id authority) (hid : Fits (tlv tagOctets id)) :
    info.complete = some { info with keyId := some id } := by
  obtain ⟨hski, -, hsan⟩ := ext_caList h
  unfold Info.complete
  rw [hski, Option.bind_some, hid.expect_last, Option.map_some]
  dsimp only
  rw [show Info.ext { info with keyId := some id } oidSan = none from hsan]

theorem readsCa {spec : CaSpec} (hok : spec.Ok) {s point id sig : Bytes} {pathLen : UInt8} {authority : Option Bytes} {issuerCn : List Char}
    (h : Fits (seq [tbs (tlv tagInt s) (name (some org) issuerCn) spec.notBefore spec.notAfter (name (some org) spec.cn) point
      (caExts spec pathLen id authority), seq [tlv tagOid oidEcdsaSha256], bits sig])) :
    ReadsCa (seq [tbs (tlv tagInt s) (name (some org) issuerCn) spec.notBefore spec.notAfter (name (some org) spec.cn) point
      (caExts spec pathLen id authority), seq [tlv tagOid oidEcdsaSha256], bits sig]) spec issuerCn point := by
  obtain ⟨hissuer, hsubject, hexts⟩ := fits_parts h
  obtain ⟨ic, hic, hicfits, -⟩ := name_fits hissuer
  obtain ⟨sc, hsc, hscfits, hcn⟩ := name_fits hsubject
  have hname : IsName (name (some org) issuerCn) := hic ▸ isName_tlv hicfits
  rw [hsc] at h ⊢
  have hparse := parse_signed hname (caExts_flatten spec pathLen id authority) hok.notBefore hok.notAfter h
  rw [caExts_flatten] at hexts
  have hlist : ∀ e ∈ caList spec pathLen id authority, Fits e.2.2 := fun _ he => fits_value hexts he
  have hid : Fits (tlv tagOctets id) := hlist (oidSki, false, tlv tagOctets id) (by simp [caList])
  have hnc : Fits (nameConstraints spec.ips spec.dns) :=
    hlist (oidNameConstraints, true, nameConstraints spec.ips spec.dns) (by simp [caList])
  rw [complete_ca rfl hid] at hparse
  have hlower : ∀ zone ∈ spec.dns, zone.map Char.toLower = zone := fun zone hz => lower_of_ascii (hok.dns zone hz)
  have hcnRead : (commonName sc).getD [] = spec.cn := by rw [hcn, Option.getD_some]
  refine ⟨_, hparse, hsc.symm, rfl, hcnRead, rfl, rfl, rfl, rfl, rfl, ?_⟩
  exact scope_of (ext_caList rfl).2.1 hok.ips hlower hnc

/-! ## A server's certificate -/

/-- A server's common name. -/
def LeafSpec.cn (s : LeafSpec) : List Char := s.dns.head?.getD "zte-agent".toList

/-- Its subject alternative names. -/
def sanList (dns : List (List Char)) (ips : List IpAddr) : List (UInt8 × Bytes) :=
  (dns.map fun d => (gnDns, utf8 d)) ++ ips.map fun ip => (gnIp, ipOctets ip)

def leafList (spec : LeafSpec) (id aki : Bytes) : List Ext :=
  [(oidBasic, true, seq []), (oidKeyUsage, true, tlv tagBits [0x07, 0x80]), (oidEku, false, seq [tlv tagOid oidServerAuth]),
    (oidSan, false, tlv tagSeq (encode (sanList spec.dns spec.ips))), (oidSki, false, tlv tagOctets id), (oidAki, false, aki)]

/-- The certificate is read as what was put in. -/
def ReadsLeaf (cert : Bytes) (spec : LeafSpec) (issuer point : Bytes) : Prop :=
  ∃ info, parse cert = some info ∧ info.subject = name none spec.cn ∧ info.issuer = issuer ∧ info.cn = spec.cn ∧ info.point = point ∧
    info.notBefore = spec.notBefore ∧ info.notAfter = spec.notAfter ∧ info.dns = spec.dns ∧ info.ips = spec.ips

theorem readName_dns (names : List (List Char) × List IpAddr) (d : List Char) :
    readName names (gnDns, utf8 d) = (names.1 ++ [d], names.2) := by
  rw [readName, if_pos rfl, lossy_utf8]

theorem readName_ip (names : List (List Char) × List IpAddr) (ip : IpAddr) :
    readName names (gnIp, ipOctets ip) = (names.1, names.2 ++ [ip]) := by
  have hother : ¬ gnIp = gnDns := by decide
  cases ip with
  | v4 a =>
    have hlen : (ipOctets (.v4 a)).length = 4 := length_toBytes 4 a.toNat
    have hback : ofOctets 32 (ipOctets (.v4 a)) = a := ofOctets_toBytes (k := 4) rfl a
    rw [readName, if_neg hother, if_pos ⟨rfl, hlen⟩, hback]
  | v6 a =>
    have hlen : (ipOctets (.v6 a)).length = 16 := length_toBytes 16 a.toNat
    have hback : ofOctets 128 (ipOctets (.v6 a)) = a := ofOctets_toBytes (k := 16) rfl a
    have hlong : ¬ (ipOctets (.v6 a)).length = 4 := by omega
    rw [readName, if_neg hother, if_neg (fun hshort => hlong hshort.2), if_pos ⟨rfl, hlen⟩, hback]

theorem fold_sanList (dns : List (List Char)) (ips : List IpAddr) : (sanList dns ips).foldl readName ([], []) = (dns, ips) := by
  have hips : ∀ (ips : List IpAddr) names, (ips.map fun ip => (gnIp, ipOctets ip)).foldl readName names = (names.1, names.2 ++ ips) := by
    intro ips
    induction ips with
    | nil => simp
    | cons ip ips ih =>
      intro names
      rw [List.map_cons, List.foldl_cons, readName_ip, ih]
      simp
  have hdns : ∀ (dns : List (List Char)) names, (dns.map fun d => (gnDns, utf8 d)).foldl readName names = (names.1 ++ dns, names.2) := by
    intro dns
    induction dns with
    | nil => simp
    | cons d dns ih =>
      intro names
      rw [List.map_cons, List.foldl_cons, readName_dns, ih]
      simp
  rw [sanList, List.foldl_append, hdns, hips, List.nil_append, List.nil_append]

theorem complete_leaf {info : Info} {spec : LeafSpec} {id aki : Bytes} (h : info.exts = leafList spec id aki)
    (hid : Fits (tlv tagOctets id)) (hsan : Fits (tlv tagSeq (encode (sanList spec.dns spec.ips)))) :
    info.complete = some { info with keyId := some id, dns := spec.dns, ips := spec.ips } := by
  have hext : info.ext oidSki = some (false, tlv tagOctets id) ∧
      info.ext oidSan = some (false, tlv tagSeq (encode (sanList spec.dns spec.ips))) := by
    have hski : (oidBasic == oidSki) = false ∧ (oidKeyUsage == oidSki) = false ∧ (oidEku == oidSki) = false ∧
        (oidSan == oidSki) = false := by decide
    have hsan : (oidBasic == oidSan) = false ∧ (oidKeyUsage == oidSan) = false ∧ (oidEku == oidSan) = false := by decide
    unfold Info.ext
    rw [h]
    simp [leafList, hski, hsan]
  unfold Info.complete
  rw [hext.1, Option.bind_some, hid.expect_last, Option.map_some]
  dsimp only
  rw [show Info.ext { info with keyId := some id } oidSan = _ from hext.2]
  dsimp only
  rw [hsan.expect_last, Option.bind_eq_bind, Option.bind_some]
  dsimp only
  rw [elements_encode hsan.inner, fold_sanList]

theorem leafExts_flatten (spec : LeafSpec) (id aki : Bytes) :
    [ext oidBasic true (seq []), ext oidKeyUsage true (tlv tagBits [0x07, 0x80]), ext oidEku false (seq [tlv tagOid oidServerAuth]),
      ext oidSan false (tlv tagSeq (spec.dns.map (fun d => tlv gnDns (utf8 d)) ++ spec.ips.map fun ip => tlv gnIp (ipOctets ip)).flatten),
      ext oidSki false (tlv tagOctets id), ext oidAki false aki].flatten = encodeExts (leafList spec id aki) := by
  have hsan : (spec.dns.map (fun d => tlv gnDns (utf8 d)) ++ spec.ips.map fun ip => tlv gnIp (ipOctets ip)).flatten =
      encode (sanList spec.dns spec.ips) := by
    simp only [sanList, encode, List.flatten_append, List.flatMap_def, List.map_append, List.map_map]
    rfl
  rw [hsan]
  simp [leafList, encodeExts, encode, ext_eq]

theorem readsLeaf {spec : LeafSpec} (hbefore : InYears spec.notBefore) (hafter : InYears spec.notAfter) {s issuer point id aki sig : Bytes}
    {exts : List Bytes} (hissuer : IsName issuer) (hexts : exts.flatten = encodeExts (leafList spec id aki))
    (h : Fits (seq [tbs (tlv tagInt s) issuer spec.notBefore spec.notAfter (name none spec.cn) point exts, seq [tlv tagOid oidEcdsaSha256],
      bits sig])) :
    ReadsLeaf (seq [tbs (tlv tagInt s) issuer spec.notBefore spec.notAfter (name none spec.cn) point exts,
      seq [tlv tagOid oidEcdsaSha256], bits sig]) spec issuer point := by
  obtain ⟨-, hsubject, hfits⟩ := fits_parts h
  obtain ⟨sc, hsc, -, hcn⟩ := name_fits hsubject
  rw [hsc] at h ⊢
  have hparse := parse_signed hissuer hexts hbefore hafter h
  rw [hexts] at hfits
  have hlist : ∀ e ∈ leafList spec id aki, Fits e.2.2 := fun _ he => fits_value hfits he
  have hid : Fits (tlv tagOctets id) := hlist (oidSki, false, tlv tagOctets id) (by simp [leafList])
  have hsan : Fits (tlv tagSeq (encode (sanList spec.dns spec.ips))) :=
    hlist (oidSan, false, tlv tagSeq (encode (sanList spec.dns spec.ips))) (by simp [leafList])
  rw [complete_leaf rfl hid hsan] at hparse
  have hcnRead : (commonName sc).getD [] = spec.cn := by rw [hcn, Option.getD_some]
  exact ⟨_, hparse, hsc.symm, rfl, hcnRead, rfl, rfl, rfl, rfl, rfl⟩

/-! ## What the module builds -/

/-- The certificate of a run that made one. -/
theorem authority_made {d : Drawn RootKey} {root issuing : CaSpec} {rootCert : Bytes} {ca : KeyCert}
    (h : authority x d root issuing = .ok (rootCert, ca)) :
    ∃ s s' point, x.point ca.key = some point ∧ serial d.rootSerial = .ok (tlv tagInt s) ∧
      (∃ signedPart, rootCert = seq [tbs (tlv tagInt s) (name (some org) root.cn) root.notBefore root.notAfter (name (some org) root.cn)
        (x.rootPoint d.rootKey) (caExts root 1 (keyId x (x.rootPoint d.rootKey)) none), seq [tlv tagOid oidEcdsaSha256],
        bits (x.rootSign d.rootKey signedPart)]) ∧
      ∃ sig, ca.cert = seq [tbs (tlv tagInt s') (name (some org) root.cn) issuing.notBefore issuing.notAfter (name (some org) issuing.cn)
        point (caExts issuing 0 (keyId x point) (some (keyId x (x.rootPoint d.rootKey)))), seq [tlv tagOid oidEcdsaSha256], bits sig] := by
  unfold authority newKey at h
  simp only [bind, Except.bind, signed] at h
  cases hroot : serial d.rootSerial with
  | error e =>
    rw [hroot] at h
    cases h
  | ok rootSerial =>
    rw [hroot] at h
    cases hkey : d.key with
    | none =>
      rw [hkey] at h
      cases h
    | some key =>
      rw [hkey] at h
      dsimp only at h
      cases hpoint : x.point key with
      | none =>
        rw [hpoint] at h
        cases h
      | some point =>
        rw [hpoint] at h
        dsimp only at h
        cases hserial : serial d.serial with
        | error e =>
          rw [hserial] at h
          cases h
        | ok ser =>
          rw [hserial] at h
          cases h
          obtain ⟨s, rfl⟩ := serial_eq hroot
          obtain ⟨s', rfl⟩ := serial_eq hserial
          exact ⟨s, s', point, hpoint, rfl, ⟨_, rfl⟩, ⟨_, rfl⟩⟩

theorem leaf_made {generated drawn : Option Bytes} {ca server : KeyCert} {caInfo : Info} {spec : LeafSpec}
    (hca : parse ca.cert = some caInfo) (h : leaf x generated drawn ca spec = .ok server) :
    ∃ s point id aki sig exts, x.point server.key = some point ∧ exts.flatten = encodeExts (leafList spec id aki) ∧
      server.cert = seq [tbs (tlv tagInt s) caInfo.subject spec.notBefore spec.notAfter (name none spec.cn) point exts,
        seq [tlv tagOid oidEcdsaSha256], bits sig] := by
  unfold leaf newKey at h
  rw [hca] at h
  simp only [bind, Except.bind, signed] at h
  cases hcaPoint : x.point ca.key with
  | none =>
    rw [hcaPoint] at h
    cases h
  | some caPoint =>
    rw [hcaPoint] at h
    dsimp only at h
    split at h
    · cases h
    · cases generated with
      | none => cases h
      | some key =>
        dsimp only at h
        cases hpoint : x.point key with
        | none =>
          rw [hpoint] at h
          cases h
        | some point =>
          rw [hpoint] at h
          dsimp only at h
          cases hserial : serial drawn with
          | error e =>
            rw [hserial] at h
            cases h
          | ok ser =>
            rw [hserial] at h
            obtain ⟨s, rfl⟩ := serial_eq hserial
            dsimp only at h
            split at h
            · cases h
            · next sig hsig =>
              split at hsig
              · cases hsig
              · cases hsig
                cases h
                exact ⟨s, point, _, _, _, _, hpoint, leafExts_flatten spec _ _, rfl⟩

/-- Reader and writer agree. -/
theorem certificates_read_back (x : Crypto RootKey) :
    (∀ tag content rest, content.length < 2 ^ 32 → next (tlv tag content ++ rest) = some (tag, content, rest)) ∧
    (∀ d root issuing rootCert ca, root.Ok → issuing.Ok → authority x d root issuing = .ok (rootCert, ca) →
      (Fits rootCert → ReadsCa rootCert root root.cn (x.rootPoint d.rootKey)) ∧
      (Fits ca.cert → ∃ point, x.point ca.key = some point ∧ ReadsCa ca.cert issuing root.cn point)) ∧
    (∀ generated drawn ca caInfo spec server, parse ca.cert = some caInfo → InYears spec.notBefore → InYears spec.notAfter →
      leaf x generated drawn ca spec = .ok server → Fits server.cert →
        ∃ point, x.point server.key = some point ∧ ReadsLeaf server.cert spec caInfo.subject point) ∧
    ∀ s : Scope, (∀ net ∈ s.ips, net.2 ≤ 32) →
      (∀ a, s.coversIp a = true ↔ ∃ n : Prefix.Net 32, (n.addr, n.prefixLen) ∈ s.ips ∧ a ∈ n) ∧
      ∀ name, s.coversName name = true ↔ ∃ zone ∈ s.dns, InZone zone name := by
  refine ⟨fun _ _ rest h => next_tlv h rest, ?_, ?_, fun s hs => ⟨coversIp_iff hs, coversName_iff s⟩⟩
  · intro d root issuing rootCert ca hroot hissuing h
    obtain ⟨s, s', point, hpoint, -, ⟨signedPart, hrootCert⟩, sig, hcert⟩ := authority_made h
    refine ⟨fun hfits => ?_, fun hfits => ⟨point, hpoint, ?_⟩⟩
    · rw [hrootCert] at hfits ⊢
      exact readsCa hroot hfits
    · rw [hcert] at hfits ⊢
      exact readsCa hissuing hfits
  · intro generated drawn ca caInfo spec server hca hbefore hafter h hfits
    obtain ⟨s, point, id, aki, sig, exts, hpoint, hexts, hcert⟩ := leaf_made hca h
    refine ⟨point, hpoint, ?_⟩
    rw [hcert] at hfits ⊢
    exact readsLeaf hbefore hafter (isName_subject hca) hexts hfits

/-! ## A router's certificates -/

def rootPoint : Bytes := toBytes 65
  0x04d088cbbad9fd70f04119e643e49d6edceba143946a5ef580a95486acfb990a973c7a0881f3645dc891d5733e28b0443d04a1c97b1e757ddfa1f7b5ebe7565d20
def caPoint : Bytes := toBytes 65
  0x042c2ca9eb2a12a4b000df55a92fa2c473b615bab7508c257aa581cb08c176111bf6d8a669be732342cd08a946f9a54b4d73cdaae6ad13aaa012b2574988e4eb29
def serverPoint : Bytes := toBytes 65
  0x04301ae3c231cdc0fc321b9a8bee8235b1bb7c8f3937e1eadf1eaa2d4a22878e0b4756824f3dec721dac7dcc7c2698c509b584bc05012fc7e06c896a52306ee44f

/-- The PKCS#8 form of a P-256 key. -/
def pkcs8 (secret : Nat) (point : Bytes) : Bytes :=
  toBytes 36 0x308187020100301306072a8648ce3d020106082a8648ce3d030107046d306b0201010420 ++ toBytes 32 secret ++ [0xa1, 0x44, 0x03, 0x42, 0x00] ++ point

def caKey : Bytes := pkcs8 0xdc80eab7bba05d69a93622695a206705ba88431b620a13f7cc59ef494969155b caPoint
def serverKey : Bytes := pkcs8 0x22510d76fb765cd92b40bd421e32e9a2e85e6b1140551b9e153d19fa4683849b serverPoint

/-- What the libraries give for these keys. -/
def sampleCrypto : Crypto Unit where
  sha256 p := toBytes 32 <|
    if p = rootPoint then 0x846c977066097373664892368348b3e6a10564a83db75070203f20681d9a33d2
    else if p = caPoint then 0xc06eda7870fb3f051d9e2d1f18bff64c826f931400f32fae34ae3d81917ae9b8
    else 0xdb4ed189ce78089fcfa5b92d66d133633b41ea721af201e762290a78c56e32e7
  rootPoint _ := rootPoint
  rootSign _ tbs := if tbs.length = 441 then toBytes 71
      0x3045022100caf5cdb4dab18a0d8766bc2c06a32b1d7ad25605e6eacbaba3b2bcbccb889431022065478121175f0f77d9c8709d3d4cec54021110ba739b132aae9bb49d07b1d750
    else toBytes 72
      0x3046022100919cd7957452220f0b50aadd3608d412bb29fa588b87fb47ebd46f0ba5a779fd022100a10577fcca3e8645322deaf0cee5b21494642bda2f2643a7973c034056a72645
  point key := if key = caKey then some caPoint else if key = serverKey then some serverPoint else none
  sign _ _ := some <| toBytes 71
    0x3045022100d5efc9136c8e0b957440b8ae694741a2df579ef041e099f251d63b3e8c4f57a60220402340ac9689aa5f5d319d045349599bc749637fb3ba7352399a594606969e07

def sampleRoot : CaSpec := ⟨"OpenU60 root".toList, 1735689600, 2524608000, [(0xC0A80001, 32)], ["u60.lan".toList]⟩
def sampleCa : CaSpec := { sampleRoot with cn := "OpenU60 issuing CA".toList }
def sampleServer : LeafSpec := ⟨["u60.lan".toList], [.v4 0xC0A80001, .v6 0xFE800000000000000000000000000001], 1735689600, 1767225600⟩

def sampleDrawn : Drawn Unit where
  rootKey := ()
  rootSerial := some (toBytes 16 0x0102030405060708090a0b0c0d0e0f10)
  key := some caKey
  serial := some (toBytes 16 0x1112131415161718191a1b1c1d1e1f20)

def sampleLeaf (ca : KeyCert) : Except String KeyCert :=
  leaf sampleCrypto (some serverKey) (some (toBytes 16 0x2122232425262728292a2b2c2d2e2f30)) ca sampleServer

/-- Both runs make certificates, of a few hundred bytes. -/
def sampleMade : Bool :=
  match authority sampleCrypto sampleDrawn sampleRoot sampleCa with
  | .error _ => false
  | .ok (rootCert, ca) =>
    match sampleLeaf ca with
    | .error _ => false
    | .ok server => decide (rootCert.length < 1000) && decide (ca.cert.length < 1000) && decide (server.cert.length < 1000)

theorem sampleRoot_ok : sampleRoot.Ok where
  notBefore := by decide
  notAfter := by decide
  ips := by decide
  dns := by
    intro zone hzone
    have hall : ("u60.lan".toList.all fun c => decide (c.toNat < 128) && c.isUpper == false) = true := by decide
    rw [List.mem_singleton.mp hzone]
    intro c hc
    simpa using List.all_eq_true.mp hall c hc

theorem certificates_read_back_router : ∃ rootCert ca server, authority sampleCrypto sampleDrawn sampleRoot sampleCa = .ok (rootCert, ca) ∧
    sampleLeaf ca = .ok server ∧ ReadsCa rootCert sampleRoot sampleRoot.cn rootPoint ∧
    (∃ point, ReadsCa ca.cert sampleCa sampleRoot.cn point) ∧
    ∃ point, ReadsLeaf server.cert sampleServer (name (some org) sampleCa.cn) point := by
  obtain ⟨-, hauthority, hleaf, -⟩ := certificates_read_back sampleCrypto
  have hmade : sampleMade = true := by decide +kernel
  unfold sampleMade at hmade
  cases hrun : authority sampleCrypto sampleDrawn sampleRoot sampleCa with
  | error e =>
    rw [hrun] at hmade
    cases hmade
  | ok made =>
    obtain ⟨rootCert, ca⟩ := made
    rw [hrun] at hmade
    cases hserver : sampleLeaf ca with
    | error e =>
      simp only [hserver] at hmade
      cases hmade
    | ok server =>
      simp only [hserver, Bool.and_eq_true, decide_eq_true_eq] at hmade
      obtain ⟨⟨hrootLen, hcaLen⟩, hserverLen⟩ := hmade
      have hcaOk : sampleCa.Ok := ⟨sampleRoot_ok.notBefore, sampleRoot_ok.notAfter, sampleRoot_ok.ips, sampleRoot_ok.dns⟩
      obtain ⟨hroot, hca⟩ := hauthority _ _ _ _ _ sampleRoot_ok hcaOk hrun
      obtain ⟨point, -, hca⟩ := hca (Nat.lt_trans hcaLen (by decide))
      obtain ⟨caInfo, hparse, hsubject, -⟩ := id hca
      obtain ⟨serverPoint, -, hserverRead⟩ :=
        hleaf _ _ _ _ _ _ hparse (by decide) (by decide) hserver (Nat.lt_trans hserverLen (by decide))
      rw [hsubject] at hserverRead
      exact ⟨rootCert, ca, server, rfl, hserver, hroot (Nat.lt_trans hrootLen (by decide)), ⟨point, hca⟩, serverPoint, hserverRead⟩

/-! ## A certificate too long to read -/

theorem length_tlv_le (tag : UInt8) (content : Bytes) : (tlv tag content).length ≤ content.length + 10 := by
  have hlen : (lengthOctets content.length).length ≤ 9 := by
    unfold lengthOctets
    split
    · exact (by decide : 1 ≤ 9)
    · have hdrop := length_dropZeros_le (toBytes 8 content.length)
      rw [length_toBytes] at hdrop
      dsimp only
      rw [List.length_cons]
      omega
  rw [tlv, List.length_cons, List.length_append]
  omega

/-- A name is as long as its text, and little more. -/
theorem length_name (cn : List Char) :
    Text.byteLen cn ≤ (name (some org) cn).length ∧ (name (some org) cn).length ≤ Text.byteLen cn + 100 := by
  have horg : (tlv tagSet (seq [tlv tagOid oidOrg, tlv tagUtf8 (utf8 org)])).length = 28 := by decide +kernel
  have hoid : (tlv tagOid oidCn).length = 5 := by decide
  unfold name
  dsimp only
  rw [Option.map_some, Option.getD_some]
  generalize tlv tagSet (seq [tlv tagOid oidOrg, tlv tagUtf8 (utf8 org)]) = first at horg
  simp only [seq, List.flatten_cons, List.flatten_nil]
  generalize tlv tagOid oidCn = oid at hoid
  have htext := length_utf8 cn
  generalize utf8 cn = text at htext
  have h1 := length_tlv tagUtf8 text
  have h1' := length_tlv_le tagUtf8 text
  generalize tlv tagUtf8 text = value at h1 h1'
  have h2 := length_tlv tagSeq (oid ++ (value ++ []))
  have h2' := length_tlv_le tagSeq (oid ++ (value ++ []))
  generalize hatv : tlv tagSeq (oid ++ (value ++ [])) = atv at h2 h2'
  have h3 := length_tlv tagSet atv
  have h3' := length_tlv_le tagSet atv
  generalize tlv tagSet atv = set at h3 h3'
  have h4 := length_tlv tagSeq (first ++ set)
  have h4' := length_tlv_le tagSeq (first ++ set)
  simp only [List.length_append, List.length_nil] at h2 h2' h4 h4'
  omega

theorem parse_long {content : Bytes} (hlong : 2 ^ 32 ≤ content.length) (h : content.length < 2 ^ 64) : parse (tlv tagSeq content) = none := by
  have hnext : next (tlv tagSeq content) = none := by
    rw [← List.append_nil (tlv tagSeq content)]
    exact next_long hlong h []
  unfold parse expect
  rw [hnext]
  rfl

/-- A CA certificate is longer than its issuer's text, and not by much where nothing else is long. -/
theorem length_ca (cn : List Char) (point id : Bytes) {s sig : Bytes} (hserial : s.length ≤ 1000) (hsig : sig.length ≤ 1000)
    (hpoint : (spki point).length ≤ 1000) (hexts : (caExts sampleRoot 1 id none).flatten.length ≤ 1000) :
    ∃ content, seq [tbs (tlv tagInt s) (name (some org) cn) 1735689600 2524608000 (name (some org) cn) point (caExts sampleRoot 1 id none),
        seq [tlv tagOid oidEcdsaSha256], bits sig] = tlv tagSeq content ∧
      Text.byteLen cn ≤ content.length ∧ content.length ≤ 2 * Text.byteLen cn + 10000 := by
  refine ⟨_, rfl, ?_⟩
  have hversion : (tlv 0xa0 (tlv tagInt [2])).length ≤ 1000 := by decide
  have halg : (seq [tlv tagOid oidEcdsaSha256]).length ≤ 1000 := by decide
  have hvalidity : (seq [time 1735689600, time 2524608000]).length ≤ 1000 := by decide +kernel
  have hname := length_name cn
  have hint := length_tlv_le tagInt s
  unfold tbs bits
  dsimp only
  generalize caExts sampleRoot 1 id none = exts at hexts
  generalize tlv 0xa0 (tlv tagInt [2]) = version at hversion
  generalize seq [tlv tagOid oidEcdsaSha256] = alg at halg
  generalize seq [time 1735689600, time 2524608000] = validity at hvalidity
  generalize name (some org) cn = issuer at hname
  generalize spki point = key at hpoint
  generalize tlv tagInt s = ser at hint
  simp only [seq, List.flatten_cons, List.flatten_nil, List.append_nil]
  have hlist := length_tlv_le tagSeq exts.flatten
  generalize tlv tagSeq exts.flatten = list at hlist
  have hexts' := length_tlv_le 0xa3 list
  generalize tlv 0xa3 list = e at hexts'
  have hbits := length_tlv_le tagBits (0 :: sig)
  rw [List.length_cons] at hbits
  have htbs := length_tlv tagSeq (version ++ (ser ++ (alg ++ (issuer ++ (validity ++ (issuer ++ (key ++ e)))))))
  have htbs' := length_tlv_le tagSeq (version ++ (ser ++ (alg ++ (issuer ++ (validity ++ (issuer ++ (key ++ e)))))))
  simp only [List.length_append] at htbs htbs' ⊢
  omega

theorem serial_some (b : Bytes) : ∃ out, serial (some b) = .ok out := by
  cases b with
  | nil => exact ⟨_, rfl⟩
  | cons b bytes => exact ⟨_, rfl⟩

theorem authority_runs {d : Drawn RootKey} (root issuing : CaSpec) {b b' key point : Bytes} (hroot : d.rootSerial = some b)
    (hkey : d.key = some key) (hpoint : x.point key = some point) (hserial : d.serial = some b') :
    ∃ rootCert ca, authority x d root issuing = .ok (rootCert, ca) := by
  obtain ⟨s, hs⟩ := serial_some b
  obtain ⟨s', hs'⟩ := serial_some b'
  unfold authority newKey
  simp only [bind, Except.bind, signed, hroot, hkey, hpoint, hserial, hs, hs']
  exact ⟨_, _, rfl⟩

theorem unread_of_long {cn : List Char} (hlong : 2 ^ 32 ≤ Text.byteLen cn) (h : Text.byteLen cn < 2 ^ 60) :
    ∃ rootCert ca, authority sampleCrypto sampleDrawn { sampleRoot with cn } sampleCa = .ok (rootCert, ca) ∧ parse rootCert = none := by
  have hpoint : sampleCrypto.point caKey = some caPoint := by
    simp only [sampleCrypto, if_true]
  obtain ⟨rootCert, ca, hrun⟩ := authority_runs (x := sampleCrypto) (d := sampleDrawn) { sampleRoot with cn } sampleCa rfl rfl hpoint rfl
  refine ⟨rootCert, ca, hrun, ?_⟩
  obtain ⟨s, -, -, -, hs, ⟨signedPart, hcert⟩, -⟩ := authority_made hrun
  have hserial : s.length ≤ 1000 := by
    have hout : ∀ out, serial sampleDrawn.rootSerial = .ok out → out.length ≤ 1000 := by
      have hcheck : (match serial sampleDrawn.rootSerial with | .ok out => decide (out.length ≤ 1000) | .error _ => true) = true := by
        decide +kernel
      intro out hout
      rw [hout] at hcheck
      exact of_decide_eq_true hcheck
    exact Nat.le_trans (Nat.le_of_add_right_le (length_tlv tagInt s)) (hout _ hs)
  have hsig : (sampleCrypto.rootSign () signedPart).length ≤ 1000 := by
    show (if signedPart.length = 441 then _ else _ : Bytes).length ≤ 1000
    split
    · rw [length_toBytes]
      decide
    · rw [length_toBytes]
      decide
  obtain ⟨content, heq, hfrom, huntil⟩ := length_ca cn rootPoint (keyId sampleCrypto rootPoint) hserial hsig
    (by decide +kernel) (by decide +kernel)
  rw [hcert]
  have hparse : parse (tlv tagSeq content) = none := parse_long (Nat.le_trans hlong hfrom) (by omega)
  rw [← heq] at hparse
  exact hparse

/-- A root with a common name of 2^32 letters is made, and not read back. -/
theorem long_name_unread : ∃ rootCert ca,
    authority sampleCrypto sampleDrawn { sampleRoot with cn := List.replicate (2 ^ 32) 'a' } sampleCa = .ok (rootCert, ca) ∧
      parse rootCert = none := by
  have hlen : ∀ n, Text.byteLen (List.replicate n 'a') = n := by
    intro n
    unfold Text.byteLen
    rw [List.map_replicate, List.sum_replicate_nat]
    exact Nat.mul_one n
  refine unread_of_long ?_ ?_
  · rw [hlen]
  · rw [hlen]
    decide

end OpenU60.Tls.Der
