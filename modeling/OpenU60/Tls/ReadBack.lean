/-
  OpenU60.Tls.ReadBack — what `parse` and `scope` make of the parts of a certificate.

  Each lemma asks only that the whole fits (`Fits`): then so does each part of it.
  - `name_eq`, `readExts_encode`, `scope_of`: names, extensions and name constraints are read back.
  - `parse_signed`: a certificate is read as its parts; `isName_subject`: a subject that was read can be an
    issuer.
  - `coversIp_iff`, `coversName_iff`: what a scope covers.
-/

import OpenU60.Lib.Fallible
import OpenU60.Tls.Certificate

namespace OpenU60.Tls.Der

open OpenU60.Lib OpenU60.Lib.BigEndian OpenU60.Lib.ByteLines OpenU60.Lib.Fallible OpenU60.Lib.Utf8

variable {tag : UInt8} {content rest value oid : Bytes} {critical : Bool} {cn v : List Char}

/-! ## Names -/

/-- One part of a name. -/
def rdn (oid : Bytes) (v : List Char) : UInt8 × Bytes := (tagSet, seq [tlv tagOid oid, tlv tagUtf8 (utf8 v)])

theorem commonNameIn_rdn (h : Fits (rdn oid v).2) (rdns : List (UInt8 × Bytes)) :
    commonNameIn (rdn oid v :: rdns) = if oid = oidCn then some v else commonNameIn rdns := by
  have hatv : Fits (tlv tagOid oid ++ (tlv tagUtf8 (utf8 v) ++ [])) := h.inner
  unfold rdn
  rw [commonNameIn, seq, h.expect_last, Option.bind_eq_bind, Option.bind_some]
  dsimp only
  rw [List.flatten_cons, List.flatten_cons, List.flatten_nil, hatv.expect, Option.bind_some]
  dsimp only
  rw [hatv.parts.2.next, Option.map_some]
  dsimp only
  rw [lossy_utf8]

/-- A name is read back. -/
theorem name_eq (org : Option (List Char)) (cn : List Char) :
    ∃ content, name org cn = tlv tagSeq content ∧ (Fits content → commonName content = some cn) := by
  cases org with
  | none =>
    refine ⟨encode [rdn oidCn cn], ?_, fun h => ?_⟩
    · simp only [name, encode, rdn, List.flatMap_cons, List.flatMap_nil, Option.map_none, Option.getD_none, List.nil_append,
        List.append_nil]
    · rw [commonName, elements_encode h, commonNameIn_rdn h.parts.1.inner, if_pos rfl]
  | some org =>
    refine ⟨encode [rdn oidOrg org, rdn oidCn cn], ?_, fun h => ?_⟩
    · simp only [name, encode, rdn, List.flatMap_cons, List.flatMap_nil, Option.map_some, Option.getD_some, List.append_nil]
    · rw [commonName, elements_encode h, commonNameIn_rdn h.parts.1.inner, if_neg (by decide),
        commonNameIn_rdn h.parts.2.parts.1.inner, if_pos rfl]

/-! ## Extensions -/

/-- An extension, as `parse` lists it. -/
abbrev Ext := Bytes × Bool × Bytes

/-- The content of an extension. -/
def extBody (e : Ext) : Bytes := [tlv tagOid e.1, if e.2.1 then tlv tagBool [0xff] else [], tlv tagOctets e.2.2].flatten

def encodeExts (es : List Ext) : Bytes := encode (es.map fun e => (tagSeq, extBody e))

theorem ext_eq (oid : Bytes) (critical : Bool) (value : Bytes) : ext oid critical value = tlv tagSeq (extBody (oid, critical, value)) := rfl

theorem readExt_body {e : Ext} (h : Fits (extBody e)) : readExt (extBody e) = some e := by
  obtain ⟨oid, critical, value⟩ := e
  unfold extBody at h ⊢
  rw [List.flatten_cons, List.flatten_cons, List.flatten_cons, List.flatten_nil] at h ⊢
  rw [readExt, h.expect, Option.bind_eq_bind, Option.bind_some]
  have hrest := h.parts.2
  cases critical with
  | false =>
    have hnone : expect (tlv tagOctets value ++ []) tagBool = none := expect_other (by decide) hrest.parts.2.parts.1.inner []
    dsimp only
    rw [if_neg Bool.false_ne_true, List.nil_append, hnone]
    dsimp only
    rw [hrest.parts.2.expect, Option.bind_some]
  | true =>
    dsimp only
    rw [if_pos rfl] at hrest ⊢
    rw [hrest.expect]
    dsimp only
    rw [hrest.parts.2.expect, Option.bind_some]
    rfl

theorem mapM_readExt {es : List Ext} (h : Fits (encodeExts es)) :
    (es.map fun e => (tagSeq, extBody e)).mapM (fun e => readExt e.2) = some es := by
  induction es with
  | nil => rfl
  | cons e es ih =>
    unfold encodeExts at h
    rw [List.map_cons, encode_cons] at h
    rw [List.map_cons, List.mapM_cons, readExt_body h.parts.1.inner, ih h.parts.2]
    rfl

theorem readExts_encode {es : List Ext} (h : Fits (tlv 0xa3 (tlv tagSeq (encodeExts es)))) :
    readExts (tlv 0xa3 (tlv tagSeq (encodeExts es))) = some es := by
  have hlist := h.inner
  have hone : encode [((0xa3 : UInt8), tlv tagSeq (encodeExts es))] = tlv 0xa3 (tlv tagSeq (encodeExts es)) := List.append_nil _
  have helements : elements (tlv 0xa3 (tlv tagSeq (encodeExts es))) = [(0xa3, tlv tagSeq (encodeExts es))] := by
    rw [← hone] at h ⊢
    exact elements_encode h
  rw [readExts, helements, List.filter_cons_of_pos (by rfl), List.filter_nil, List.mapM_cons, List.mapM_nil, hlist.expect_last]
  simp only [Option.bind_eq_bind, Option.bind_some]
  rw [encodeExts, elements_encode hlist.inner, mapM_readExt hlist.inner]
  simp

/-! ## Certificates -/

/-- What `parse` takes for a name, wherever it stands. -/
def IsName (n : Bytes) : Prop := ∃ c, ∀ rest, expect (n ++ rest) tagSeq = some (c, rest)

/-- What the parts of a certificate are read as. -/
def infoOf (issuer subject subjectContent point : Bytes) (notBefore notAfter : Int) (es : List Ext) : Info where
  subject
  issuer
  cn := (commonName subjectContent).getD []
  notBefore
  notAfter
  point
  keyId := none
  dns := []
  ips := []
  exts := es

theorem take_before {α : Type} (a b : List α) : (a ++ b).take ((a ++ b).length - b.length) = a := by
  rw [List.length_append, Nat.add_sub_cancel, List.take_left]

theorem parse_signed {s issuer sc point sig : Bytes} {exts : List Bytes} {notBefore notAfter : Int} {es : List Ext}
    (hissuer : IsName issuer) (hexts : exts.flatten = encodeExts es) (hbefore : InYears notBefore) (hafter : InYears notAfter)
    (h : Fits (seq [tbs (tlv tagInt s) issuer notBefore notAfter (tlv tagSeq sc) point exts, seq [tlv tagOid oidEcdsaSha256], bits sig])) :
    parse (seq [tbs (tlv tagInt s) issuer notBefore notAfter (tlv tagSeq sc) point exts, seq [tlv tagOid oidEcdsaSha256], bits sig]) =
      (infoOf issuer (tlv tagSeq sc) sc point notBefore notAfter es).complete := by
  obtain ⟨t1, before, hb, hbefore⟩ := parse_time hbefore
  obtain ⟨t2, after, ha, hafter⟩ := parse_time hafter
  obtain ⟨ic, hic⟩ := hissuer
  unfold tbs spki bits at h ⊢
  rw [hexts, hb, ha] at h ⊢
  simp only [seq, List.flatten_cons, List.flatten_nil] at h ⊢
  -- the outer element, and the one that is signed
  have hcert := h.inner
  have htbs := hcert.parts.1.inner
  have h1 := htbs.parts.2
  have h2 := h1.parts.2
  have h3 := h2.parts.2
  have h4 := h3.parts.2
  have h5 := h4.parts.2
  have h6 := h5.parts.2
  have hvalidity := h4.parts.1.inner
  have hspki := h6.parts.1.inner
  unfold parse
  refine (bind_of_eq h.expect_last _).trans ?_
  refine (bind_of_eq hcert.expect _).trans ?_
  refine (bind_of_eq htbs.next _).trans ?_
  refine (bind_of_eq h1.expect _).trans ?_
  refine (bind_of_eq h2.expect _).trans ?_
  refine (bind_of_eq (hic _) _).trans ?_
  refine (bind_of_eq h4.expect _).trans ?_
  refine (bind_of_eq h5.expect _).trans ?_
  refine (bind_of_eq h6.expect _).trans ?_
  refine (bind_of_eq hvalidity.next _).trans ?_
  refine (bind_of_eq hvalidity.parts.2.next _).trans ?_
  refine (bind_of_eq hspki.expect _).trans ?_
  refine (bind_of_eq hspki.parts.2.expect _).trans ?_
  refine (bind_of_eq hbefore _).trans ?_
  refine (bind_of_eq hafter _).trans ?_
  rw [if_neg (List.cons_ne_nil _ _), List.append_nil, take_before, take_before]
  exact bind_of_eq (readExts_encode h6.parts.2.parts.1) _

theorem isName_take {input : Bytes} (h : expect input tagSeq = some (content, rest)) : IsName (input.take (input.length - rest.length)) := by
  obtain ⟨raw, rfl, -, hraw⟩ := next_raw (expect_iff.mp h)
  rw [take_before]
  exact ⟨content, fun rest' => expect_iff.mpr (hraw rest')⟩

theorem isName_tlv (h : Fits content) : IsName (tlv tagSeq content) := ⟨content, fun rest => expect_tlv h rest⟩

theorem complete_subject {info info' : Info} (h : info.complete = some info') : info'.subject = info.subject := by
  unfold Info.complete at h
  dsimp only at h
  split at h
  · cases h
    rfl
  · obtain ⟨names, -, h⟩ := Option.bind_eq_some_iff.mp h
    cases h
    rfl

/-- A subject is read as a name again. -/
theorem isName_subject {cert : Bytes} {info : Info} (h : parse cert = some info) : IsName info.subject := by
  unfold parse at h
  obtain ⟨_, -, h⟩ := of_bind h
  obtain ⟨_, -, h⟩ := of_bind h
  obtain ⟨_, -, h⟩ := of_bind h
  obtain ⟨_, -, h⟩ := of_bind h
  obtain ⟨_, -, h⟩ := of_bind h
  obtain ⟨_, -, h⟩ := of_bind h
  obtain ⟨_, -, h⟩ := of_bind h
  obtain ⟨subject, hsubject, h⟩ := of_bind h
  -- what is read after the subject
  obtain ⟨_, -, h⟩ := of_bind h
  obtain ⟨_, -, h⟩ := of_bind h
  obtain ⟨_, -, h⟩ := of_bind h
  obtain ⟨_, -, h⟩ := of_bind h
  obtain ⟨_, -, h⟩ := of_bind h
  obtain ⟨_, -, h⟩ := of_bind h
  obtain ⟨_, -, h⟩ := of_bind h
  split at h
  · cases h
  · obtain ⟨exts, -, h⟩ := of_bind h
    rw [complete_subject h]
    exact isName_take hsubject

/-! ## Name constraints -/

theorem ofOctets_toBytes {w k : Nat} (hw : w = 8 * k) (a : BitVec w) : ofOctets w (toBytes k a.toNat) = a := by
  have hlt : a.toNat < 256 ^ k := by
    have hpow : 256 ^ k = 2 ^ w := by rw [hw, Nat.pow_mul]
    rw [hpow]
    exact a.isLt
  rw [ofOctets, ofBytes_toBytes, Nat.mod_eq_of_lt hlt, BitVec.ofNat_toNat, BitVec.setWidth_eq]

theorem readSubtree_ip (out : Scope) {a : BitVec 32} {len : Nat} (hlen : len ≤ 32) (h : Fits (tlv gnIp (octets4 a ++ octets4 (mask len)))) :
    readSubtree out (tlv gnIp (octets4 a ++ octets4 (mask len))) = some { out with ips := out.ips ++ [(a, len)] } := by
  have hread : next (tlv gnIp (octets4 a ++ octets4 (mask len))) = some (gnIp, octets4 a ++ octets4 (mask len), []) :=
    expect_iff.mp h.expect_last
  have hfour : ∀ b : BitVec 32, (octets4 b).length = 4 := fun b => length_toBytes 4 b.toNat
  have hback : ∀ b : BitVec 32, ofOctets 32 (octets4 b) = b := fun b => ofOctets_toBytes (k := 4) rfl b
  have hones : ∀ n < 33, leadingOnes (mask n) = n := by decide +kernel
  have height : (octets4 a ++ octets4 (mask len)).length = 8 := by rw [List.length_append, hfour, hfour]
  rw [readSubtree, hread]
  dsimp only
  rw [if_pos ⟨rfl, height⟩, List.take_left' (hfour a), List.drop_left' (hfour a), hback, hback, hones len (by omega)]

theorem readSubtree_dns (out : Scope) {zone : List Char} (hlower : zone.map Char.toLower = zone) (h : Fits (tlv gnDns (utf8 zone))) :
    readSubtree out (tlv gnDns (utf8 zone)) = some { out with dns := out.dns ++ [zone] } := by
  have hread : next (tlv gnDns (utf8 zone)) = some (gnDns, utf8 zone, []) := expect_iff.mp h.expect_last
  rw [readSubtree, hread]
  dsimp only
  rw [if_neg (fun hip => absurd hip.1 (by decide)), if_pos rfl, lossy_utf8, hlower]

/-- The permitted subtrees, one after another. -/
def subtrees (ips : List (BitVec 32 × Nat)) (dns : List (List Char)) : List (UInt8 × Bytes) :=
  (ips.map fun net => (tagSeq, tlv gnIp (octets4 net.1 ++ octets4 (mask net.2)))) ++ dns.map fun zone => (tagSeq, tlv gnDns (utf8 zone))

theorem fold_dns {dns : List (List Char)} (hlower : ∀ zone ∈ dns, zone.map Char.toLower = zone)
    (h : Fits (encode (dns.map fun zone => (tagSeq, tlv gnDns (utf8 zone))))) (out : Scope) :
    (dns.map fun zone => (tagSeq, tlv gnDns (utf8 zone))).foldlM (fun out e => readSubtree out e.2) out =
      some { out with dns := out.dns ++ dns } := by
  induction dns generalizing out with
  | nil =>
    rw [List.append_nil]
    rfl
  | cons zone dns ih =>
    rw [List.map_cons, encode_cons] at h
    have hfirst := readSubtree_dns out (hlower zone List.mem_cons_self) h.parts.1.inner
    rw [List.map_cons, List.foldlM_cons]
    dsimp only
    rw [hfirst, Option.bind_eq_bind, Option.bind_some, ih (fun z hz => hlower z (List.mem_cons_of_mem zone hz)) h.parts.2]
    simp

theorem fold_subtrees {ips : List (BitVec 32 × Nat)} {dns : List (List Char)} (hlen : ∀ net ∈ ips, net.2 ≤ 32)
    (hlower : ∀ zone ∈ dns, zone.map Char.toLower = zone) (h : Fits (encode (subtrees ips dns))) (out : Scope) :
    (subtrees ips dns).foldlM (fun out e => readSubtree out e.2) out = some ⟨out.ips ++ ips, out.dns ++ dns⟩ := by
  unfold subtrees at *
  induction ips generalizing out with
  | nil =>
    rw [List.map_nil, List.nil_append] at h ⊢
    rw [fold_dns hlower h, List.append_nil]
  | cons net ips ih =>
    rw [List.map_cons, List.cons_append, encode_cons] at h
    have hfirst := readSubtree_ip out (hlen net List.mem_cons_self) h.parts.1.inner
    rw [List.map_cons, List.cons_append, List.foldlM_cons]
    dsimp only
    rw [hfirst, Option.bind_eq_bind, Option.bind_some, ih (fun n hn => hlen n (List.mem_cons_of_mem net hn)) h.parts.2]
    simp

/-- The permitted subtrees are read back from the extension. -/
theorem scope_of {info : Info} {critical : Bool} {ips : List (BitVec 32 × Nat)} {dns : List (List Char)}
    (hext : info.ext oidNameConstraints = some (critical, nameConstraints ips dns)) (hlen : ∀ net ∈ ips, net.2 ≤ 32)
    (hlower : ∀ zone ∈ dns, zone.map Char.toLower = zone) (h : Fits (nameConstraints ips dns)) : scope info = some ⟨ips, dns⟩ := by
  have heq : ((ips.map fun (net, len) => seq [tlv gnIp (octets4 net ++ octets4 (mask len))]) ++
      dns.map fun zone => seq [tlv gnDns (utf8 zone)]).flatten = encode (subtrees ips dns) := by
    simp only [subtrees, encode, seq, List.flatten_append, List.flatMap_def, List.map_append, List.map_map, List.flatten_cons,
      List.flatten_nil, List.append_nil]
    rfl
  unfold scope
  rw [hext, Option.bind_eq_bind, Option.bind_some]
  dsimp only
  unfold nameConstraints at h ⊢
  dsimp only at h ⊢
  rw [heq, seq] at h ⊢
  rw [h.expect_last, Option.bind_eq_bind, Option.bind_some]
  have hbody := h.inner
  rw [List.flatten_cons] at hbody
  dsimp only
  rw [List.flatten_cons, hbody.expect, Option.bind_some]
  dsimp only
  rw [elements_encode hbody.parts.1.inner]
  exact fold_subtrees hlen hlower hbody.parts.1.inner ⟨[], []⟩

/-! ## What is covered -/

/-- The bits that count, as a network's. -/
theorem and_mask (n : Prefix.Net 32) (a : BitVec 32) : (a &&& mask n.prefixLen).toNat = n.bits a * 2 ^ (32 - n.prefixLen) := by
  have hmin : min n.prefixLen 32 = n.prefixLen := Nat.min_eq_left n.fits
  rw [mask, hmin]
  exact Prefix.toNat_and_high a _

theorem coversIp_iff {s : Scope} (hlen : ∀ net ∈ s.ips, net.2 ≤ 32) (a : BitVec 32) :
    s.coversIp a = true ↔ ∃ n : Prefix.Net 32, (n.addr, n.prefixLen) ∈ s.ips ∧ a ∈ n := by
  have hone : ∀ n : Prefix.Net 32, (a &&& mask n.prefixLen == n.addr &&& mask n.prefixLen) = true ↔ a ∈ n := by
    intro n
    rw [beq_iff_eq, ← BitVec.toNat_inj, and_mask, and_mask, Nat.mul_left_inj (Nat.ne_of_gt (Nat.two_pow_pos _))]
    exact Iff.rfl
  unfold Scope.coversIp
  rw [List.any_eq_true]
  constructor
  · intro ⟨net, hnet, hsame⟩
    exact ⟨⟨net.1, net.2, hlen net hnet⟩, hnet, (hone ⟨net.1, net.2, hlen net hnet⟩).mp hsame⟩
  · intro ⟨n, hn, ha⟩
    exact ⟨_, hn, (hone n).mpr ha⟩

/-- The name of a zone or one below it. -/
def InZone (zone name : List Char) : Prop := name = zone ∨ ∃ label, label ≠ [] ∧ name = label ++ '.' :: zone

theorem byteLen_pos {cs : List Char} (h : cs ≠ []) : 0 < Text.byteLen cs := by
  cases cs with
  | nil => exact absurd rfl h
  | cons c cs =>
    have hsize := c.utf8Size_pos
    unfold Text.byteLen
    rw [List.map_cons, List.sum_cons]
    omega

theorem below_iff (zone name : List Char) :
    ((stripSuffix zone name).any fun l => l.getLast? == some '.' && decide (1 < Text.byteLen l)) = true ↔
      ∃ label, label ≠ [] ∧ name = label ++ '.' :: zone := by
  unfold stripSuffix
  constructor
  · intro h
    split at h
    · next hsuffix =>
      obtain ⟨front, rfl⟩ := List.isSuffixOf_iff_suffix.mp hsuffix
      rw [take_before, Option.any_some, Bool.and_eq_true, beq_iff_eq, decide_eq_true_eq] at h
      obtain ⟨label, rfl⟩ := List.getLast?_eq_some_iff.mp h.1
      refine ⟨label, ?_, by rw [List.append_assoc]; rfl⟩
      intro hempty
      rw [hempty] at h
      exact absurd h.2 (by decide)
    · cases h
  · intro ⟨label, hne, hname⟩
    have hfront : name = (label ++ ['.']) ++ zone := by
      rw [hname, List.append_assoc]
      rfl
    have hlong : 1 < Text.byteLen (label ++ ['.']) := by
      have hpos := byteLen_pos hne
      rw [Text.byteLen_append]
      show 1 < Text.byteLen label + 1
      omega
    rw [if_pos (List.isSuffixOf_iff_suffix.mpr ⟨_, hfront.symm⟩), hfront, take_before, Option.any_some, List.getLast?_concat]
    simp [hlong]

theorem coversName_iff (s : Scope) (name : List Char) : s.coversName name = true ↔ ∃ zone ∈ s.dns, InZone zone name := by
  unfold Scope.coversName
  rw [List.any_eq_true]
  simp only [Bool.or_eq_true, beq_iff_eq, below_iff]
  rfl

end OpenU60.Tls.Der
