/-
  OpenU60.Doh.Packet — what the DNS proxy reads of a packet (`zte-agent/src/doh/dns_packet.rs`:
  `is_valid_query`, `parse_question`, `extract_min_ttl`, `rewrite_id`).

  `question` is what a query asks: labels in lower case, type and class. `parseQuestion` gives the
  labels joined with dots, and no class.
  - `parseQuestion_key`: what it gives is decided by the question;
  - `eq_of_dotless`: and decides it, for questions of one class whose labels have no dots.
-/

import OpenU60.Lib.BigEndian
import OpenU60.Lib.Text

namespace OpenU60.Doh

open OpenU60.Lib

abbrev Bytes := List UInt8

/-- The `k`-byte number at `pos`. -/
def numberAt (k : Nat) (buf : Bytes) (pos : Nat) : Nat := BigEndian.ofBytes ((buf.drop pos).take k)

/-- A query (QR = 0) with a question. -/
def isValidQuery (buf : Bytes) : Bool := 12 ≤ buf.length && buf.getD 2 0 &&& 0x80 == 0 && 1 ≤ numberAt 2 buf 4

/-! ## The question -/

/-- `to_ascii_lowercase`, of a byte of UTF-8. -/
def lowerByte (b : UInt8) : UInt8 := if 0x41 ≤ b ∧ b ≤ 0x5A then b + 32 else b

/-- Labels up to the empty one, in lower case, and what follows; every label takes a byte at least. -/
def readLabels : Nat → Bytes → Option (List Bytes × Bytes)
  | 0, _ => none
  | _ + 1, [] => none
  | fuel + 1, len :: rest =>
    if len = 0 then some ([], rest)
    else if len &&& 0xC0 = 0xC0 then none
    else if rest.length < len.toNat then none
    else if Text.utf8Valid (rest.take len.toNat) then
      (readLabels fuel (rest.drop len.toNat)).map fun (labels, rest') => ((rest.take len.toNat).map lowerByte :: labels, rest')
    else none

/-- Name in lower case, type, and the position after the question. -/
def parseQuestion (buf : Bytes) : Option (Bytes × Nat × Nat) :=
  if buf.length < 12 then none
  else (readLabels buf.length (buf.drop 12)).bind fun (labels, rest) =>
    if rest.length < 4 then none
    else some ([0x2E].intercalate labels, numberAt 2 rest 0, buf.length - rest.length + 4)

/-- What a query asks. -/
structure Question where
  labels : List Bytes
  qtype : Nat
  qclass : Nat
  deriving DecidableEq

def question (buf : Bytes) : Option Question :=
  if buf.length < 12 then none
  else (readLabels buf.length (buf.drop 12)).bind fun (labels, rest) =>
    if rest.length < 4 then none else some ⟨labels, numberAt 2 rest 0, numberAt 2 rest 2⟩

/-- What the cache takes of a question. -/
def Question.key (q : Question) : Bytes × Nat := ([0x2E].intercalate q.labels, q.qtype)

/-- Without a name longer than the packet there is fuel enough. -/
theorem readLabels_fuel {rest : Bytes} {fuel : Nat} (h : rest.length < fuel) (more : Nat) :
    readLabels (fuel + more) rest = readLabels fuel rest := by
  induction fuel generalizing rest with
  | zero => omega
  | succ fuel ih =>
    rw [Nat.succ_add]
    cases rest with
    | nil => rfl
    | cons len rest =>
      have hrest : (rest.drop len.toNat).length < fuel := by
        rw [List.length_drop]
        simp only [List.length_cons] at h
        omega
      unfold readLabels
      rw [ih hrest]

theorem parseQuestion_key (buf : Bytes) : (parseQuestion buf).map (fun q => (q.1, q.2.1)) = (question buf).map Question.key := by
  unfold parseQuestion question
  by_cases hshort : buf.length < 12
  · rw [if_pos hshort, if_pos hshort]
    rfl
  · rw [if_neg hshort, if_neg hshort]
    cases hread : readLabels buf.length (buf.drop 12) with
    | none => rfl
    | some read =>
      obtain ⟨labels, rest⟩ := read
      simp only [Option.bind_some]
      split <;> rfl

/-- A packet that is accepted asks what its key is from. -/
theorem question_of_parse {buf qname : Bytes} {qtype pos : Nat} (h : parseQuestion buf = some (qname, qtype, pos)) :
    ∃ q, question buf = some q ∧ q.key = (qname, qtype) := by
  have hkey := parseQuestion_key buf
  rw [h] at hkey
  obtain ⟨q, hq, hqk⟩ := Option.map_eq_some_iff.mp hkey.symm
  exact ⟨q, hq, hqk⟩

theorem labels_ne_nil {fuel : Nat} {bytes rest : Bytes} {labels : List Bytes} (h : readLabels fuel bytes = some (labels, rest)) :
    ∀ l ∈ labels, l ≠ [] := by
  induction fuel generalizing bytes labels with
  | zero => cases h
  | succ fuel ih =>
    cases bytes with
    | nil => cases h
    | cons len bytes =>
      unfold readLabels at h
      split at h
      · cases h
        simp
      · rename_i hlen
        split at h
        · cases h
        · split at h
          · cases h
          · rename_i hlong
            split at h
            · obtain ⟨⟨labels', rest'⟩, hread, heq⟩ := Option.map_eq_some_iff.mp h
              cases heq
              intro l hl
              rcases List.mem_cons.mp hl with rfl | hl
              · have hpos : len.toNat ≠ 0 := fun h0 => hlen (UInt8.toNat_inj.mp h0)
                intro hnil
                have hlength := congrArg List.length hnil
                simp only [List.length_map, List.length_take, List.length_nil] at hlength
                omega
              · exact ih hread l hl
            · cases h

theorem question_labels {buf : Bytes} {q : Question} (h : question buf = some q) : ∀ l ∈ q.labels, l ≠ [] := by
  unfold question at h
  split at h
  · cases h
  · obtain ⟨⟨labels, rest⟩, hread, hrest⟩ := Option.bind_eq_some_iff.mp h
    dsimp only at hrest
    split at hrest
    · cases hrest
    · cases hrest
      exact labels_ne_nil hread

/-- Where no label has a dot the name tells the labels. -/
theorem labels_of_name {ls ls' : List Bytes} (hne : ∀ l ∈ ls, l ≠ []) (hne' : ∀ l ∈ ls', l ≠ []) (hdot : ∀ l ∈ ls, 0x2E ∉ l)
    (hdot' : ∀ l ∈ ls', 0x2E ∉ l) (h : [0x2E].intercalate ls = [0x2E].intercalate ls') : ls = ls' := by
  have hsplit : ∀ {ls : List Bytes}, (∀ l ∈ ls, l ≠ []) → (∀ l ∈ ls, 0x2E ∉ l) →
      (([0x2E].intercalate ls).splitOn 0x2E).filter (· ≠ []) = ls := by
    intro ls hne hdot
    cases ls with
    | nil => rfl
    | cons l ls =>
      rw [List.splitOn_intercalate _ hdot (List.cons_ne_nil l ls)]
      exact List.filter_eq_self.mpr fun l hl => by simpa using hne l hl
  rw [← hsplit hne hdot, h, hsplit hne' hdot']

/-- Questions of one class without dots in their labels are told apart. -/
theorem eq_of_dotless {buf buf' : Bytes} {q q' : Question} (h : question buf = some q) (h' : question buf' = some q')
    (hdot : ∀ l ∈ q.labels, 0x2E ∉ l) (hdot' : ∀ l ∈ q'.labels, 0x2E ∉ l) (hclass : q.qclass = q'.qclass) (hkey : q.key = q'.key) : q = q' := by
  obtain ⟨hname, htype⟩ := Prod.mk.inj hkey
  have hlabels : q.labels = q'.labels := labels_of_name (question_labels h) (question_labels h') hdot hdot' hname
  cases q
  cases q'
  cases hlabels
  cases htype
  cases hclass
  rfl

/-! ## Answers -/

/-- Transaction id (the first two bytes). -/
def rewriteId (buf : Bytes) (id : Nat) : Bytes := if 2 ≤ buf.length then BigEndian.toBytes 2 id ++ buf.drop 2 else buf

/-- The position after a name, of at most as many labels as there are steps. -/
def skipName (buf : Bytes) : Nat → Nat → Option Nat
  | 0, _ => none
  | steps + 1, pos =>
    match buf[pos]? with
    | none => none
    | some b =>
      if b = 0 then some (pos + 1)
      else if b &&& 0xC0 = 0xC0 then some (pos + 2)
      else skipName buf steps (pos + 1 + b.toNat)

/-- After the questions; `some none` where one ends outside the packet. -/
def skipQuestions (buf : Bytes) : Nat → Nat → Option (Option Nat)
  | 0, pos => some (some pos)
  | count + 1, pos =>
    (skipName buf 128 pos).bind fun pos => if buf.length < pos + 4 then some none else skipQuestions buf count (pos + 4)

/-- The smallest lifetime of the records, and of what was found before. -/
def minTtl (buf : Bytes) : Nat → Nat → Nat → Option Nat
  | 0, _, least => some least
  | count + 1, pos, least =>
    (skipName buf 128 pos).bind fun pos =>
      if buf.length < pos + 10 then some least
      else
        let ttl := numberAt 4 buf (pos + 4)
        let pos' := pos + 10 + numberAt 2 buf (pos + 8)
        if buf.length < pos' then some least else minTtl buf count pos' (if ttl < least then ttl else least)

def extractMinTtlInner (buf : Bytes) : Option Nat :=
  if buf.length < 12 then some 0
  else
    let total := numberAt 2 buf 6 + numberAt 2 buf 8 + numberAt 2 buf 10
    if total = 0 then some 0
    else (skipQuestions buf (numberAt 2 buf 4) 12).bind fun
      | none => some 0
      | some pos => (minTtl buf total pos (2 ^ 32 - 1)).map fun least => if least = 2 ^ 32 - 1 then 0 else least

/-- The smallest lifetime of an answer's records, in seconds; 0 where there is none. -/
def extractMinTtl (buf : Bytes) : Nat := (extractMinTtlInner buf).getD 0

end OpenU60.Doh
