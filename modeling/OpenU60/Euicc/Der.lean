/-
  OpenU60.Euicc.Der — BER-TLV elements (`euicc/src/der.rs`): the reader, the iterator and the
  encoder.

  A tag is one or two bytes, as the reader takes it; a length that fits in 32 bits is written in
  the shortest form.
  - `parse_encode`: what is encoded is read back, whatever follows it.
  - `iter_encodeAll`: the elements of a sequence are read back in order.
  - `toU64_fromU64`, `fromU64_minimal`: integers.
-/

import OpenU60.Lib.BigEndian

namespace OpenU60.Euicc.Der

open OpenU60.Lib

abbrev Bytes := List UInt8

structure Tlv where
  tag : Nat
  value : Bytes
  /-- Tag, length and contents. -/
  raw : Bytes
  deriving DecidableEq

/-! ## Reading -/

/-- A tag and what follows it. -/
def readTag : Bytes → Option (Nat × Bytes)
  | [] => none
  | b :: rest =>
    if b.toNat % 32 = 31 then
      match rest with
      | [] => none
      | c :: rest => some (b.toNat * 256 + c.toNat, rest)
    else some (b.toNat, rest)

/-- A length and what follows it. -/
def readLength : Bytes → Option (Nat × Bytes)
  | [] => none
  | first :: rest =>
    if 128 ≤ first.toNat then
      if 4 < first.toNat - 128 then none
      else if rest.length < first.toNat - 128 then none
      else some (BigEndian.ofBytes (rest.take (first.toNat - 128)), rest.drop (first.toNat - 128))
    else some (first.toNat, rest)

/-- The element at the start. -/
def parse (buf : Bytes) : Option Tlv :=
  (readTag buf).bind fun (tag, rest) => (readLength rest).bind fun (length, rest) =>
    if rest.length < length then none
    else some ⟨tag, rest.take length, buf.take (buf.length - rest.length + length)⟩

/-- The next `n` elements at most. -/
def iterUpTo : Nat → Bytes → List Tlv
  | 0, _ => []
  | n + 1, buf =>
    match parse buf with
    | none => []
    | some t => t :: iterUpTo n (buf.drop t.raw.length)

/-- The elements one after another, up to the first malformed one. -/
def iter (buf : Bytes) : List Tlv := iterUpTo buf.length buf

def find (buf : Bytes) (tag : Nat) : Option Tlv := (iter buf).find? (·.tag == tag)

/-- The elements with a tag. -/
def tagged (tag : Nat) (ts : List Tlv) : List Tlv := ts.filter (·.tag = tag)

/-! ## Encoding -/

inductive Node where
  | prim (tag : Nat) (value : Bytes)
  | cons (tag : Nat) (children : List Node)

def encodeTag (tag : Nat) : Bytes := (if tag / 256 = 0 then [] else [UInt8.ofNat (tag / 256)]) ++ [UInt8.ofNat tag]

def encodeLength (len : Nat) : Bytes :=
  if len < 0x80 then [UInt8.ofNat len]
  else
    let bytes := BigEndian.dropZeros (BigEndian.toBytes 4 len)
    UInt8.ofNat (0x80 + bytes.length) :: bytes

def encodeTlv (tag : Nat) (value : Bytes) : Bytes := encodeTag tag ++ encodeLength value.length ++ value

mutual

def Node.encode : Node → Bytes
  | .prim tag value => encodeTlv tag value
  | .cons tag children => encodeTlv tag (encodeAll children)

def encodeAll : List Node → Bytes
  | [] => []
  | n :: ns => n.encode ++ encodeAll ns

end

namespace Node

def tag : Node → Nat
  | prim tag _ => tag
  | cons tag _ => tag

def content : Node → Bytes
  | prim _ value => value
  | cons _ children => encodeAll children

end Node

/-- What the reader gives of a node. -/
def Node.tlv (n : Node) : Tlv := ⟨n.tag, n.content, n.encode⟩

/-! ## Integers -/

def toU64 (value : Bytes) : Nat := value.foldl (fun n b => (n * 256 + b.toNat) % 2 ^ 64) 0

def fromU64 (value : Nat) : Bytes :=
  let bytes := BigEndian.toBytes 8 value
  let out := bytes.drop (min (bytes.takeWhile (· == 0)).length 7)
  if out.head?.any (0x80 ≤ ·.toNat) then 0 :: out else out

/-! ## Well-formed trees -/

/-- A tag the reader takes whole. -/
def TagOk (tag : Nat) : Prop := tag < 256 ∧ tag % 32 ≠ 31 ∨ tag < 65536 ∧ tag / 256 % 32 = 31

instance : DecidablePred TagOk := fun _ => by unfold TagOk; infer_instance

/-- Every tag is well formed and every content is shorter than `2 ^ 32` bytes. -/
inductive Node.Ok : Node → Prop
  | prim {tag : Nat} {value : Bytes} : TagOk tag → value.length < 2 ^ 32 → Ok (.prim tag value)
  | cons {tag : Nat} {children : List Node} : TagOk tag → (encodeAll children).length < 2 ^ 32 → (∀ n ∈ children, n.Ok) →
      Ok (.cons tag children)

variable {tag len : Nat} {buf value rest : Bytes} {t : Tlv} {n : Node}

theorem tagged_cons_pos (h : t.tag = tag) (ts : List Tlv) : tagged tag (t :: ts) = t :: tagged tag ts :=
  List.filter_cons_of_pos (decide_eq_true h)

theorem tagged_cons_neg (h : t.tag ≠ tag) (ts : List Tlv) : tagged tag (t :: ts) = tagged tag ts :=
  List.filter_cons_of_neg (by rw [decide_eq_false h]; exact Bool.false_ne_true)

/-! ## Round trips -/

theorem readTag_encode (h : TagOk tag) (rest : Bytes) : readTag (encodeTag tag ++ rest) = some (tag, rest) := by
  unfold encodeTag
  rcases h with ⟨hsmall, hlow⟩ | ⟨hsmall, hlow⟩
  · have hzero : tag / 256 = 0 := Nat.div_eq_of_lt hsmall
    have hbyte : (UInt8.ofNat tag).toNat = tag := Nat.mod_eq_of_lt hsmall
    rw [if_pos hzero]
    show (if (UInt8.ofNat tag).toNat % 32 = 31 then _ else some ((UInt8.ofNat tag).toNat, rest)) = _
    rw [hbyte, if_neg hlow]
  · have hne : tag / 256 ≠ 0 := by
      intro h
      rw [h] at hlow
      cases hlow
    have hhigh : (UInt8.ofNat (tag / 256)).toNat = tag / 256 := Nat.mod_eq_of_lt (by omega)
    have hbyte : (UInt8.ofNat tag).toNat = tag % 256 := rfl
    rw [if_neg hne]
    show (if (UInt8.ofNat (tag / 256)).toNat % 32 = 31 then
      some ((UInt8.ofNat (tag / 256)).toNat * 256 + (UInt8.ofNat tag).toNat, rest) else _) = _
    rw [hhigh, hbyte, if_pos hlow]
    congr 2
    omega

theorem readLength_encode (h : len < 2 ^ 32) (rest : Bytes) : readLength (encodeLength len ++ rest) = some (len, rest) := by
  unfold encodeLength
  by_cases hshort : len < 0x80
  · have hbyte : (UInt8.ofNat len).toNat = len := Nat.mod_eq_of_lt (by omega)
    rw [if_pos hshort]
    show (if 128 ≤ (UInt8.ofNat len).toNat then _ else some ((UInt8.ofNat len).toNat, rest)) = _
    rw [hbyte, if_neg (by omega)]
  · rw [if_neg hshort]
    dsimp only
    have hvalue : BigEndian.ofBytes (BigEndian.dropZeros (BigEndian.toBytes 4 len)) = len := by
      rw [BigEndian.ofBytes_dropZeros, BigEndian.ofBytes_toBytes]
      exact Nat.mod_eq_of_lt h
    have hlength := BigEndian.length_dropZeros_le (BigEndian.toBytes 4 len)
    rw [BigEndian.length_toBytes] at hlength
    generalize BigEndian.dropZeros (BigEndian.toBytes 4 len) = bytes at hvalue hlength
    have hcount : (UInt8.ofNat (0x80 + bytes.length)).toNat = 128 + bytes.length := Nat.mod_eq_of_lt (by omega)
    rw [List.cons_append]
    unfold readLength
    dsimp only
    rw [hcount, if_pos (by omega), Nat.add_sub_cancel_left, if_neg (by omega), if_neg (by rw [List.length_append]; omega),
      List.take_left, List.drop_left, hvalue]

theorem parse_of {rest' : Bytes} (htag : readTag buf = some (tag, rest)) (hlen : readLength rest = some (len, rest'))
    (hfits : len ≤ rest'.length) : parse buf = some ⟨tag, rest'.take len, buf.take (buf.length - rest'.length + len)⟩ := by
  unfold parse
  rw [htag, Option.bind_some]
  dsimp only
  rw [hlen, Option.bind_some]
  exact if_neg (Nat.not_lt.mpr hfits)

theorem parse_encodeTlv (htag : TagOk tag) (hlen : value.length < 2 ^ 32) (rest : Bytes) :
    parse (encodeTlv tag value ++ rest) = some ⟨tag, value, encodeTlv tag value⟩ := by
  have htext : encodeTlv tag value ++ rest = encodeTag tag ++ (encodeLength value.length ++ (value ++ rest)) := by
    unfold encodeTlv
    simp only [List.append_assoc]
  have hsize : (encodeTlv tag value ++ rest).length - (value ++ rest).length + value.length = (encodeTlv tag value).length := by
    unfold encodeTlv
    simp only [List.length_append]
    omega
  have hread : readTag (encodeTlv tag value ++ rest) = some (tag, encodeLength value.length ++ (value ++ rest)) := by
    rw [htext]
    exact readTag_encode htag _
  rw [parse_of hread (readLength_encode hlen _) (by rw [List.length_append]; omega), hsize, List.take_left, List.take_left]

theorem Node.encode_eq (n : Node) : n.encode = encodeTlv n.tag n.content := by
  cases n <;> rfl

theorem Node.Ok.parts (h : n.Ok) : TagOk n.tag ∧ n.content.length < 2 ^ 32 := by
  cases h with
  | prim htag hlen => exact ⟨htag, hlen⟩
  | cons htag hlen _ => exact ⟨htag, hlen⟩

/-- What is encoded is read back, whatever follows it. -/
theorem parse_encode (h : n.Ok) (rest : Bytes) : parse (n.encode ++ rest) = some n.tlv := by
  obtain ⟨htag, hlen⟩ := h.parts
  unfold Node.tlv
  rw [n.encode_eq]
  exact parse_encodeTlv htag hlen rest

/-! ## What is read -/

theorem readTag_some (h : readTag buf = some (tag, rest)) :
    ∃ used, buf = used ++ rest ∧ used ≠ [] ∧ ∀ rest', readTag (used ++ rest') = some (tag, rest') := by
  unfold readTag at h
  split at h
  · cases h
  · rename_i b more
    by_cases hlong : b.toNat % 32 = 31
    · rw [if_pos hlong] at h
      split at h
      · cases h
      · rename_i c more
        cases h
        exact ⟨[b, c], rfl, List.cons_ne_nil _ _, fun rest' => if_pos hlong⟩
    · rw [if_neg hlong] at h
      cases h
      exact ⟨[b], rfl, List.cons_ne_nil _ _, fun rest' => if_neg hlong⟩

theorem readLength_some (h : readLength buf = some (len, rest)) :
    ∃ used, buf = used ++ rest ∧ used ≠ [] ∧ ∀ rest', readLength (used ++ rest') = some (len, rest') := by
  unfold readLength at h
  split at h
  · cases h
  · rename_i first more
    by_cases hlong : 128 ≤ first.toNat
    · rw [if_pos hlong] at h
      by_cases hcount : 4 < first.toNat - 128
      · rw [if_pos hcount] at h
        cases h
      rw [if_neg hcount] at h
      by_cases hcut : more.length < first.toNat - 128
      · rw [if_pos hcut] at h
        cases h
      rw [if_neg hcut] at h
      obtain ⟨rfl, rfl⟩ := Prod.mk.inj (Option.some.inj h)
      refine ⟨first :: more.take (first.toNat - 128), ?_, List.cons_ne_nil _ _, fun rest' => ?_⟩
      · rw [List.cons_append, List.take_append_drop]
      · have htake : (more.take (first.toNat - 128)).length = first.toNat - 128 := List.length_take_of_le (Nat.le_of_not_lt hcut)
        rw [List.cons_append]
        unfold readLength
        dsimp only
        rw [if_pos hlong, if_neg hcount, if_neg (by rw [List.length_append]; omega)]
        generalize more.take (first.toNat - 128) = used at htake ⊢
        rw [← htake, List.take_left, List.drop_left]
    · rw [if_neg hlong] at h
      cases h
      exact ⟨[first], rfl, List.cons_ne_nil _ _, fun rest' => if_neg hlong⟩

/-- An element is its header and its value, and reads the same whatever follows. -/
theorem parse_some (h : parse buf = some t) : ∃ header rest, buf = t.raw ++ rest ∧ t.raw = header ++ t.value ∧ header ≠ [] ∧
    ∀ rest', parse (t.raw ++ rest') = some t := by
  unfold parse at h
  obtain ⟨⟨tag, more⟩, htag, h⟩ := Option.bind_eq_some_iff.mp h
  obtain ⟨⟨len, left⟩, hlen, h⟩ := Option.bind_eq_some_iff.mp h
  dsimp only at h
  by_cases hcut : left.length < len
  · rw [if_pos hcut] at h
    cases h
  rw [if_neg hcut] at h
  cases h
  dsimp only
  obtain ⟨first, rfl, hfirst, hreadTag⟩ := readTag_some htag
  obtain ⟨second, rfl, -, hreadLength⟩ := readLength_some hlen
  have hvalue : (left.take len).length = len := List.length_take_of_le (Nat.le_of_not_lt hcut)
  have hraw : (first ++ (second ++ left)).take ((first ++ (second ++ left)).length - left.length + len) = first ++ (second ++ left.take len) := by
    have hsize : (first ++ (second ++ left)).length - left.length + len = (first ++ (second ++ left.take len)).length := by
      simp only [List.length_append]
      omega
    have htext : first ++ (second ++ left) = first ++ (second ++ left.take len) ++ left.drop len := by
      rw [List.append_assoc, List.append_assoc, List.take_append_drop]
    rw [hsize, htext, List.take_left]
  rw [hraw]
  refine ⟨first ++ second, left.drop len, ?_, (List.append_assoc ..).symm, ?_, fun rest' => ?_⟩
  · rw [List.append_assoc, List.append_assoc, List.take_append_drop]
  · exact List.append_ne_nil_of_left_ne_nil hfirst _
  · generalize left.take len = value at hvalue
    have htext : first ++ (second ++ value) ++ rest' = first ++ (second ++ (value ++ rest')) := by
      rw [List.append_assoc, List.append_assoc]
    have hread : readTag (first ++ (second ++ value) ++ rest') = some (tag, second ++ (value ++ rest')) := by
      rw [htext]
      exact hreadTag _
    have hsize : (first ++ (second ++ value) ++ rest').length - (value ++ rest').length + len = (first ++ (second ++ value)).length := by
      simp only [List.length_append]
      omega
    rw [parse_of hread (hreadLength _) (by rw [List.length_append]; omega), hsize, List.take_left, ← hvalue, List.take_left]

theorem raw_ne_nil (h : parse buf = some t) : t.raw ≠ [] := by
  obtain ⟨header, -, -, hraw, hne, -⟩ := parse_some h
  rw [hraw]
  exact List.append_ne_nil_of_left_ne_nil hne _

/-! ## Sequences -/

theorem iterUpTo_eq {n m : Nat} (hn : buf.length ≤ n) (hm : buf.length ≤ m) : iterUpTo n buf = iterUpTo m buf := by
  induction n generalizing buf m with
  | zero =>
    have hnil : buf = [] := List.length_eq_zero_iff.mp (Nat.le_zero.mp hn)
    subst hnil
    cases m <;> rfl
  | succ n ih =>
    cases m with
    | zero =>
      have hnil : buf = [] := List.length_eq_zero_iff.mp (Nat.le_zero.mp hm)
      subst hnil
      rfl
    | succ m =>
      unfold iterUpTo
      cases hp : parse buf with
      | none => rfl
      | some t =>
        dsimp only
        have hpos : 0 < t.raw.length := List.length_pos_iff.mpr (raw_ne_nil hp)
        have hdrop : (buf.drop t.raw.length).length = buf.length - t.raw.length := List.length_drop
        rw [ih (m := m) (by omega) (by omega)]

theorem iter_of_some (h : parse buf = some t) : iter buf = t :: iter (buf.drop t.raw.length) := by
  have hpos : 0 < t.raw.length := List.length_pos_iff.mpr (raw_ne_nil h)
  obtain ⟨-, rest, hbuf, -, -, -⟩ := parse_some h
  have hlen : buf.length = t.raw.length + rest.length := by rw [hbuf, List.length_append]
  have hdrop : (buf.drop t.raw.length).length = buf.length - t.raw.length := List.length_drop
  have hstep : iterUpTo (buf.length - 1 + 1) buf = t :: iterUpTo (buf.length - 1) (buf.drop t.raw.length) := by
    rw [iterUpTo, h]
  have hone : buf.length - 1 + 1 = buf.length := by omega
  rw [hone] at hstep
  unfold iter
  rw [hstep, iterUpTo_eq (m := (buf.drop t.raw.length).length) (by omega) (Nat.le_refl _)]

theorem iter_append (h : parse buf = some t) (hbuf : buf = t.raw ++ rest) : iter buf = t :: iter rest := by
  rw [iter_of_some h, hbuf, List.drop_left]

/-- The elements of a sequence, in order. -/
theorem iter_encodeAll {ns : List Node} (h : ∀ n ∈ ns, n.Ok) : iter (encodeAll ns) = ns.map Node.tlv := by
  induction ns with
  | nil => rfl
  | cons n ns ih =>
    rw [encodeAll, iter_append (parse_encode (h n (List.mem_cons_self ..)) _) rfl, ih fun m hm => h m (List.mem_cons_of_mem _ hm)]
    rfl

/-! ## Integers -/

theorem toU64_eq (value : Bytes) : toU64 value = BigEndian.ofBytes value % 2 ^ 64 := by
  have hfold : ∀ (bytes : Bytes) (a : Nat), bytes.foldl (fun n b => (n * 256 + b.toNat) % 2 ^ 64) (a % 2 ^ 64) =
      bytes.foldl (fun n b => n * 256 + b.toNat) a % 2 ^ 64 := by
    intro bytes
    induction bytes with
    | nil => exact fun _ => rfl
    | cons b bytes ih =>
      intro a
      have hstep : (a % 2 ^ 64 * 256 + b.toNat) % 2 ^ 64 = (a * 256 + b.toNat) % 2 ^ 64 := by omega
      rw [List.foldl_cons, List.foldl_cons, hstep, ih]
  exact hfold value 0

/-- Big-endian without a sign: as short as an INTEGER of that value can be, and not negative. -/
def Minimal (bytes : Bytes) : Prop :=
  (∀ b ∈ bytes.head?, b.toNat < 0x80) ∧ bytes ≠ [] ∧ ∀ b c rest, bytes = b :: c :: rest → b = 0 → 0x80 ≤ c.toNat

theorem fromU64_spec {v : Nat} (h : v < 2 ^ 64) : BigEndian.ofBytes (fromU64 v) = v ∧ Minimal (fromU64 v) := by
  have hvalue : BigEndian.ofBytes (BigEndian.toBytes 8 v) = v := by
    rw [BigEndian.ofBytes_toBytes]
    exact Nat.mod_eq_of_lt h
  have hlength := BigEndian.length_toBytes 8 v
  unfold fromU64
  dsimp only
  generalize BigEndian.toBytes 8 v = bytes at hvalue hlength
  have hcut : bytes.takeWhile (· == 0) ++ BigEndian.dropZeros bytes = bytes := List.takeWhile_append_dropWhile
  have hdrop : bytes.drop (bytes.takeWhile (· == 0)).length = BigEndian.dropZeros bytes := by
    have hleft : (bytes.takeWhile (· == 0) ++ BigEndian.dropZeros bytes).drop (bytes.takeWhile (· == 0)).length = BigEndian.dropZeros bytes :=
      List.drop_left
    rwa [hcut] at hleft
  have hsum := congrArg List.length hcut
  rw [List.length_append, hlength] at hsum
  cases hout : BigEndian.dropZeros bytes with
  | nil =>
    -- all eight bytes are zero, and the last one stays
    rw [hout, List.append_nil] at hcut
    have hzeros : bytes = List.replicate 8 0 := by
      rw [← hlength]
      refine List.eq_replicate_length.mpr fun b hb => ?_
      rw [← hcut] at hb
      simpa using List.all_eq_true.mp List.all_takeWhile b hb
    rw [hzeros] at hvalue ⊢
    refine ⟨hvalue, ?_, ?_, ?_⟩
    · rintro b ⟨⟩
      decide
    · exact List.cons_ne_nil _ _
    · intro b c rest heq
      cases heq
  | cons b rest =>
    have hskip : min (bytes.takeWhile (· == 0)).length 7 = (bytes.takeWhile (· == 0)).length := by
      rw [hout, List.length_cons] at hsum
      exact Nat.min_eq_left (by omega)
    have hvalue' : BigEndian.ofBytes (b :: rest) = v := by rw [← hout, BigEndian.ofBytes_dropZeros, hvalue]
    have hb : b ≠ 0 := BigEndian.head_dropZeros bytes b (by rw [hout]; rfl)
    rw [hskip, hdrop, hout]
    by_cases hsign : 0x80 ≤ b.toNat
    · have hhead : (b :: rest).head?.any (0x80 ≤ ·.toNat) = true := by simpa using hsign
      rw [if_pos hhead]
      refine ⟨?_, ?_, List.cons_ne_nil _ _, ?_⟩
      · rw [BigEndian.ofBytes_cons, hvalue', UInt8.toNat_zero, Nat.zero_mul, Nat.zero_add]
      · rintro _ ⟨⟩
        decide
      · intro _ c _ heq _
        cases heq
        exact hsign
    · have hhead : (b :: rest).head?.any (0x80 ≤ ·.toNat) ≠ true := by simpa using hsign
      rw [if_neg hhead]
      refine ⟨hvalue', ?_, List.cons_ne_nil _ _, ?_⟩
      · rintro _ ⟨⟩
        exact Nat.lt_of_not_le hsign
      · intro _ c _ heq hzero
        cases heq
        exact absurd hzero hb

theorem toU64_fromU64 {v : Nat} (h : v < 2 ^ 64) : toU64 (fromU64 v) = v := by
  rw [toU64_eq, (fromU64_spec h).1]
  exact Nat.mod_eq_of_lt h

/-- Elements, sequences and unsigned integers come back as they were encoded, integers in the DER form. -/
theorem ber_round_trips :
    (∀ (n : Node) (rest : Bytes), n.Ok → parse (n.encode ++ rest) = some ⟨n.tag, n.content, n.encode⟩) ∧
    (∀ ns : List Node, (∀ n ∈ ns, n.Ok) → iter (encodeAll ns) = ns.map fun n => ⟨n.tag, n.content, n.encode⟩) ∧
    ∀ v < 2 ^ 64, toU64 (fromU64 v) = v ∧ Minimal (fromU64 v) :=
  ⟨fun _ rest h => parse_encode h rest, fun _ h => iter_encodeAll h, fun _ h => ⟨toU64_fromU64 h, (fromU64_spec h).2⟩⟩

end OpenU60.Euicc.Der
