/-
  OpenU60.Web.UploadGrammar — what `parse` accepts (see `OpenU60.Web.Upload`).

  A body is a delimiter, parts of a header, a blank line, content and a delimiter, and two
  dashes; whatever follows these is not looked at.
  - `parse_part`, `part_of_parse`: one turn reads the end or one part.
  - `parse_iff`: a body is accepted with a result if and only if it is such a body of at most
    eight parts that fit and the result is theirs.
  - `parse_ordered`: the files are ranges of the body, one after another.
-/

import OpenU60.Lib.Fallible
import OpenU60.Web.Upload

namespace OpenU60.Web.Upload

open OpenU60.Lib OpenU60.Lib.Fallible

structure RawPart where
  head : Bytes
  content : Bytes

/-- A part with the delimiter after it. -/
def RawPart.bytes (d : Bytes) (p : RawPart) : Bytes := crlf ++ (p.head ++ blankLine ++ (p.content ++ (crlf ++ d)))

/-- Nothing before its end ends the header or the content. -/
structure RawPart.Fits (d : Bytes) (p : RawPart) : Prop where
  short : p.head.length ≤ maxHead
  head : Split.splitOnce blankLine (p.head ++ blankLine) = some (p.head, [])
  content : Split.splitOnce (crlf ++ d) (p.content ++ (crlf ++ d)) = some (p.content, [])

/-- What a part that begins at `pos` adds to the result. -/
def RawPart.add (p : RawPart) (pos : Nat) (out : Parsed) : Option Parsed := do
  let head ← Utf8.fromUtf8 p.head
  let (name, file) ← disposition head
  let content := pos + 2 + p.head.length + 4
  if file then
    some (if content < content + p.content.length then { out with files := out.files ++ [(name, content, content + p.content.length)] } else out)
  else if maxText < p.content.length then none
  else do
    let value ← Utf8.fromUtf8 p.content
    some { out with text := out.text ++ [(name, value)] }

def addAll (d : Bytes) : Nat → List RawPart → Parsed → Option Parsed
  | _, [], out => some out
  | pos, p :: ps, out => do
    let out ← p.add pos out
    addAll d (pos + (p.bytes d).length) ps out

variable {body d rest : Bytes} {pos turns : Nat} {out res : Parsed} {p : RawPart}

theorem length_bytes (d : Bytes) (p : RawPart) : (p.bytes d).length = 2 + p.head.length + 4 + p.content.length + 2 + d.length := by
  simp only [RawPart.bytes, List.length_append]
  show 2 + (p.head.length + 4 + (p.content.length + (2 + d.length))) = _
  omega

/-! ## One turn -/

theorem not_dashes (h : crlf <+: rest) : ¬ dashes <+: rest := by
  intro hd
  obtain ⟨t, rfl⟩ := h
  have hhead := (List.cons_prefix_cons.mp hd).1
  exact absurd hhead (by decide)

/-- The first blank line is found within the window if and only if the header is short. -/
theorem position_window {after : Bytes} (hafter : after = p.head ++ blankLine ++ rest) (hfits : p.Fits d) :
    position blankLine (after.take (maxHead + 4)) = some p.head.length := by
  have hblank : blankLine.length = 4 := rfl
  have hshort := hfits.short
  obtain ⟨t, ht⟩ : p.head ++ blankLine <+: after.take (maxHead + 4) := by
    rw [hafter, List.prefix_take_iff]
    refine ⟨⟨rest, rfl⟩, ?_⟩
    rw [List.length_append]
    omega
  unfold position
  rw [← ht, Split.splitOnce_append hfits.head]
  rfl

theorem position_some {sep hay : Bytes} {n : Nat} (h : position sep hay = some n) :
    ∃ s r, hay = s ++ sep ++ r ∧ s.length = n ∧ Split.splitOnce sep (s ++ sep) = some (s, []) := by
  obtain ⟨⟨s, r⟩, hs, hn⟩ := Option.map_eq_some_iff.mp h
  refine ⟨s, r, Split.splitOnce_eq hs, hn, ?_⟩
  have hfirst := Split.splitOnce_append hs []
  rw [List.append_nil] at hfirst
  exact hfirst

theorem slice_window (body : Bytes) (start : Nat) :
    slice body start (min body.length (start + maxHead + 4)) = (body.drop start).take (maxHead + 4) := by
  unfold slice
  by_cases h : start + maxHead + 4 ≤ body.length
  · rw [Nat.min_eq_right h]
    congr 1
    omega
  · rw [Nat.min_eq_left (by omega), List.take_of_length_le (Nat.le_of_eq List.length_drop), List.take_of_length_le (by rw [List.length_drop]; omega)]

theorem drop_head (hrest : body.drop pos = p.bytes d ++ rest) :
    body.drop (pos + 2) = p.head ++ blankLine ++ (p.content ++ (crlf ++ d) ++ rest) := by
  rw [← List.drop_drop, hrest]
  show (p.head ++ blankLine ++ (p.content ++ (crlf ++ d))) ++ rest = _
  simp only [List.append_assoc]

theorem drop_content (hrest : body.drop pos = p.bytes d ++ rest) :
    body.drop (pos + 2 + p.head.length + 4) = p.content ++ (crlf ++ d) ++ rest := by
  rw [Nat.add_assoc, ← List.drop_drop, drop_head hrest, List.append_assoc, ← List.drop_drop, List.drop_left]
  rfl

theorem slice_content (hrest : body.drop pos = p.bytes d ++ rest) :
    slice body (pos + 2 + p.head.length + 4) (pos + 2 + p.head.length + 4 + p.content.length) = p.content := by
  unfold slice
  rw [drop_content hrest, Nat.add_sub_cancel_left, List.append_assoc, List.take_left]

/-- A turn that finds a part. -/
theorem parse_part (hrest : body.drop pos = p.bytes d ++ rest) (hfits : p.Fits d) (turns : Nat) (out : Parsed) :
    parseFrom body d (turns + 1) pos out = (p.add pos out).bind (parseFrom body d turns (pos + (p.bytes d).length)) := by
  have hblank : blankLine.length = 4 := rfl
  have hpre : crlf <+: body.drop pos := by
    rw [hrest]
    exact ⟨_, (List.append_assoc ..).symm⟩
  have hafter := drop_head hrest
  have hcontent := drop_content hrest
  have hhead : ((body.drop (pos + 2)).take (maxHead + 4)).take p.head.length = p.head := by
    have hshort := hfits.short
    rw [List.take_take, Nat.min_eq_left (by omega), hafter, List.append_assoc, List.take_left]
  have hnext : nextDelimiter (body.drop (pos + 2 + p.head.length + 4)) d = some p.content.length := by
    unfold nextDelimiter position
    rw [hcontent, Split.splitOnce_append hfits.content]
    rfl
  have hslice := slice_content hrest
  have hlen : pos + 2 + p.head.length + 4 + p.content.length + 2 + d.length = pos + (p.bytes d).length := by
    rw [length_bytes]
    omega
  conv_lhs => unfold parseFrom
  dsimp only
  rw [if_neg (fun h => not_dashes hpre (List.isPrefixOf_iff_prefix.mp h)), if_pos (List.isPrefixOf_iff_prefix.mpr hpre), slice_window,
    bind_of_eq (position_window hafter hfits), hhead]
  unfold RawPart.add
  cases Utf8.fromUtf8 p.head with
  | none => rfl
  | some head =>
    rw [Option.bind_eq_bind, Option.bind_some, bind_of_eq hnext, Option.bind_eq_bind, Option.bind_some]
    cases disposition head with
    | none => rfl
    | some r =>
      obtain ⟨name, file⟩ := r
      rw [Option.bind_some]
      dsimp only
      rw [hlen, hslice, Nat.add_sub_cancel_left]
      cases file with
      | true => rfl
      | false =>
        simp only [Bool.false_eq_true, if_false, Option.bind_some]
        by_cases hbig : maxText < p.content.length
        · rw [if_pos hbig, if_pos hbig]
          rfl
        · rw [if_neg hbig, if_neg hbig]
          cases Utf8.fromUtf8 p.content with
          | none => rfl
          | some value => rfl

/-- A turn that succeeds finds the end or a part. -/
theorem part_of_parse (h : parseFrom body d (turns + 1) pos out = some res) (hmore : ¬ dashes <+: body.drop pos) :
    ∃ (p : RawPart) (rest : Bytes), body.drop pos = p.bytes d ++ rest ∧ p.Fits d := by
  unfold parseFrom at h
  dsimp only at h
  rw [if_neg fun hd => hmore (List.isPrefixOf_iff_prefix.mp hd)] at h
  by_cases hpre : crlf.isPrefixOf (body.drop pos) = true
  · rw [if_pos hpre, slice_window] at h
    obtain ⟨after, hafter⟩ := List.isPrefixOf_iff_prefix.mp hpre
    have hdrop : body.drop (pos + 2) = after := by
      rw [← List.drop_drop, ← hafter]
      rfl
    rw [hdrop] at h
    obtain ⟨headLen, hpos, h⟩ := of_bind h
    obtain ⟨head, -, h⟩ := of_bind h
    obtain ⟨len, hnext, -⟩ := of_bind h
    obtain ⟨s, r, hwindow, hslen, hfirst⟩ := position_some hpos
    have hblank : blankLine.length = 4 := rfl
    have hshort : s.length ≤ maxHead := by
      have hle := congrArg List.length hwindow
      rw [List.length_take, List.length_append, List.length_append, hblank] at hle
      have hmin := Nat.min_le_left (maxHead + 4) after.length
      omega
    obtain ⟨after', hafter'⟩ : s ++ blankLine <+: after := (List.prefix_append _ r).trans (hwindow ▸ List.take_prefix _ _)
    have hcontent : body.drop (pos + 2 + headLen + 4) = after' := by
      rw [Nat.add_assoc, ← List.drop_drop, hdrop, ← hafter', List.append_assoc, ← hslen, ← List.drop_drop, List.drop_left]
      rfl
    rw [hcontent] at hnext
    obtain ⟨c, rest, hc, -, hfirst'⟩ := position_some hnext
    refine ⟨⟨s, c⟩, rest, ?_, ⟨hshort, hfirst, hfirst'⟩⟩
    rw [← hafter, ← hafter', hc]
    simp only [RawPart.bytes, List.append_assoc]
  · rw [if_neg hpre] at h
    cases h

/-! ## What a part adds -/

theorem add_text {head name value : List Char} (hhead : Utf8.fromUtf8 p.head = some head) (hdisp : disposition head = some (name, false))
    (hshort : p.content.length ≤ maxText) (hvalue : Utf8.fromUtf8 p.content = some value) (pos : Nat) (out : Parsed) :
    p.add pos out = some { out with text := out.text ++ [(name, value)] } := by
  unfold RawPart.add
  rw [bind_of_eq hhead, bind_of_eq hdisp]
  dsimp only
  rw [if_neg Bool.false_ne_true, if_neg (Nat.not_lt_of_le hshort), bind_of_eq hvalue]

theorem add_file {head name : List Char} (hhead : Utf8.fromUtf8 p.head = some head) (hdisp : disposition head = some (name, true))
    (pos : Nat) (out : Parsed) : p.add pos out = some (if p.content = [] then out else { out with
      files := out.files ++ [(name, pos + 2 + p.head.length + 4, pos + 2 + p.head.length + 4 + p.content.length)] }) := by
  unfold RawPart.add
  rw [bind_of_eq hhead, bind_of_eq hdisp]
  dsimp only
  rw [if_pos rfl]
  by_cases hempty : p.content = []
  · rw [if_pos hempty, if_neg (by rw [hempty]; exact Nat.lt_irrefl _)]
  · rw [if_neg hempty, if_pos (Nat.lt_add_of_pos_right (List.length_pos_iff.mpr hempty))]

/-! ## All turns -/

theorem parseFrom_iff (hpos : pos ≤ body.length) : parseFrom body d turns pos out = some res ↔
    ∃ ps rest, body.drop pos = ps.flatMap (RawPart.bytes d) ++ (dashes ++ rest) ∧ ps.length < turns ∧ (∀ p ∈ ps, p.Fits d) ∧
      addAll d pos ps out = some res := by
  induction turns generalizing pos out with
  | zero =>
    constructor
    · intro h
      cases h
    · intro h
      obtain ⟨ps, rest, -, hlt, -⟩ := h
      exact absurd hlt (Nat.not_lt_zero _)
  | succ turns ih =>
    have hle : ∀ {p : RawPart} {rest : Bytes}, body.drop pos = p.bytes d ++ rest → pos + (p.bytes d).length ≤ body.length := by
      intro p rest heq
      have hlen := congrArg List.length heq
      rw [List.length_drop, List.length_append] at hlen
      omega
    have hnext : ∀ {p : RawPart} {rest : Bytes}, body.drop pos = p.bytes d ++ rest → body.drop (pos + (p.bytes d).length) = rest := by
      intro p rest heq
      rw [← List.drop_drop, heq, List.drop_left]
    constructor
    · intro h
      by_cases hend : dashes <+: body.drop pos
      · obtain ⟨rest, hrest⟩ := hend
        refine ⟨[], rest, hrest.symm, Nat.succ_pos _, fun p hp => absurd hp List.not_mem_nil, ?_⟩
        unfold parseFrom at h
        rw [if_pos (List.isPrefixOf_iff_prefix.mpr ⟨rest, hrest⟩)] at h
        exact h
      · obtain ⟨p, rest, heq, hfits⟩ := part_of_parse h hend
        rw [parse_part heq hfits] at h
        obtain ⟨out', hadd, h⟩ := Option.bind_eq_some_iff.mp h
        obtain ⟨ps, rest', heq', hlt, hps, hall⟩ := (ih (hle heq)).mp h
        rw [hnext heq] at heq'
        refine ⟨p :: ps, rest', ?_, Nat.succ_lt_succ hlt, List.forall_mem_cons.mpr ⟨hfits, hps⟩, ?_⟩
        · rw [heq, heq', List.flatMap_cons, List.append_assoc]
        · show (p.add pos out).bind _ = _
          rw [hadd]
          exact hall
    · intro h
      obtain ⟨ps, rest, heq, hlt, hps, hall⟩ := h
      cases ps with
      | nil =>
        unfold parseFrom
        rw [if_pos (List.isPrefixOf_iff_prefix.mpr ⟨rest, heq.symm⟩)]
        exact hall
      | cons p ps =>
        rw [List.flatMap_cons, List.append_assoc] at heq
        obtain ⟨hfits, hps⟩ := List.forall_mem_cons.mp hps
        obtain ⟨out', hadd, hall⟩ := Option.bind_eq_some_iff.mp hall
        rw [parse_part heq hfits, hadd, Option.bind_some]
        exact (ih (hle heq)).mpr ⟨ps, rest, hnext heq, Nat.lt_of_succ_lt_succ hlt, hps, hall⟩

theorem parse_iff {b : List Char} : parse body b = some res ↔
    ∃ ps rest, body = delimiter b ++ (ps.flatMap (RawPart.bytes (delimiter b)) ++ (dashes ++ rest)) ∧ ps.length ≤ maxParts ∧
      (∀ p ∈ ps, p.Fits (delimiter b)) ∧ addAll (delimiter b) (delimiter b).length ps {} = some res := by
  unfold parse
  dsimp only
  constructor
  · intro h
    by_cases hpre : (delimiter b).isPrefixOf body = true
    · rw [if_pos hpre] at h
      obtain ⟨after, hafter⟩ := List.isPrefixOf_iff_prefix.mp hpre
      have hpos : (delimiter b).length ≤ body.length := (List.isPrefixOf_iff_prefix.mp hpre).length_le
      obtain ⟨ps, rest, heq, hlt, hps, hall⟩ := (parseFrom_iff hpos).mp h
      rw [← hafter, List.drop_left] at heq
      exact ⟨ps, rest, by rw [← hafter, heq], Nat.le_of_lt_succ hlt, hps, hall⟩
    · rw [if_neg hpre] at h
      cases h
  · intro h
    obtain ⟨ps, rest, heq, hle, hps, hall⟩ := h
    have hpre : delimiter b <+: body := ⟨_, heq.symm⟩
    rw [if_pos (List.isPrefixOf_iff_prefix.mpr hpre), parseFrom_iff hpre.length_le]
    exact ⟨ps, rest, by rw [heq, List.drop_left], Nat.lt_succ_of_le hle, hps, hall⟩

/-! ## What is returned -/

/-- The files are not empty and lie one after another before `pos`; texts are short. -/
structure Parsed.Ordered (out : Parsed) (pos : Nat) : Prop where
  files : ∀ f ∈ out.files, f.2.1 < f.2.2 ∧ f.2.2 ≤ pos ∧ goodName f.1 = true
  apart : out.files.Pairwise fun f g => f.2.2 ≤ g.2.1
  text : ∀ t ∈ out.text, (∃ bytes : Bytes, bytes.length ≤ maxText ∧ Utf8.fromUtf8 bytes = some t.2) ∧ goodName t.1 = true

theorem Parsed.Ordered.mono {pos' : Nat} (h : out.Ordered pos) (hle : pos ≤ pos') : out.Ordered pos' := { h with
  files f hf := ⟨(h.files f hf).1, Nat.le_trans (h.files f hf).2.1 hle, (h.files f hf).2.2⟩ }

theorem disposition_good {head name : List Char} {file : Bool} (h : disposition head = some (name, file)) : goodName name = true := by
  unfold disposition at h
  obtain ⟨value, -, h⟩ := of_bind h
  split at h
  · cases h
  · split at h
    · obtain ⟨⟨name', file'⟩, -, h⟩ := of_bind h
      obtain ⟨name'', hname, h⟩ := of_bind h
      cases h
      exact (Option.filter_eq_some_iff.mp hname).2
    · cases h

theorem add_ordered (h : out.Ordered pos) (hadd : p.add pos out = some res) : res.Ordered (pos + (p.bytes d).length) := by
  have hlen := length_bytes d p
  unfold RawPart.add at hadd
  obtain ⟨head, -, hadd⟩ := of_bind hadd
  obtain ⟨⟨name, file⟩, hdisp, hadd⟩ := of_bind hadd
  have hname := disposition_good hdisp
  have hmono := h.mono (Nat.le_add_right pos (p.bytes d).length)
  cases file with
  | true =>
    cases hadd
    by_cases hsome : pos + 2 + p.head.length + 4 < pos + 2 + p.head.length + 4 + p.content.length
    · rw [if_pos hsome]
      refine ⟨?_, ?_, hmono.text⟩
      · intro f hf
        cases List.mem_append.mp hf with
        | inl hf => exact hmono.files f hf
        | inr hf =>
          cases List.mem_singleton.mp hf
          exact ⟨hsome, by show pos + 2 + p.head.length + 4 + p.content.length ≤ _; omega, hname⟩
      · refine List.pairwise_append.mpr ⟨h.apart, List.pairwise_singleton _ _, ?_⟩
        intro f hf g hg
        cases List.mem_singleton.mp hg
        have hbefore := (h.files f hf).2.1
        show f.2.2 ≤ pos + 2 + p.head.length + 4
        omega
    · rw [if_neg hsome]
      exact hmono
  | false =>
    dsimp only at hadd
    rw [if_neg Bool.false_ne_true] at hadd
    by_cases hbig : maxText < p.content.length
    · rw [if_pos hbig] at hadd
      cases hadd
    · rw [if_neg hbig] at hadd
      obtain ⟨value, hvalue, hadd⟩ := of_bind hadd
      cases hadd
      refine ⟨hmono.files, hmono.apart, ?_⟩
      intro t ht
      cases List.mem_append.mp ht with
      | inl ht => exact h.text t ht
      | inr ht =>
        cases List.mem_singleton.mp ht
        exact ⟨⟨p.content, Nat.le_of_not_lt hbig, hvalue⟩, hname⟩

theorem addAll_ordered {ps : List RawPart} (h : out.Ordered pos) (hall : addAll d pos ps out = some res) :
    res.Ordered (pos + (ps.flatMap (RawPart.bytes d)).length) := by
  induction ps generalizing pos out with
  | nil =>
    cases hall
    exact h
  | cons p ps ih =>
    obtain ⟨out', hadd, hall⟩ := Option.bind_eq_some_iff.mp hall
    have hrest := ih (add_ordered h hadd) hall
    rw [List.flatMap_cons, List.length_append, ← Nat.add_assoc]
    exact hrest

theorem parse_ordered {b : List Char} (h : parse body b = some res) : res.Ordered body.length := by
  obtain ⟨ps, rest, heq, -, -, hall⟩ := parse_iff.mp h
  have hstart : Parsed.Ordered {} (delimiter b).length :=
    ⟨fun f hf => absurd hf List.not_mem_nil, List.Pairwise.nil, fun t ht => absurd ht List.not_mem_nil⟩
  refine (addAll_ordered hstart hall).mono ?_
  rw [heq, List.length_append, List.length_append]
  omega

theorem length_readFrom {buf : Bytes} {arrivals : List Arrival} (hbuf : buf.length ≤ maxBody) (h : readFrom buf arrivals = .ok body) :
    body.length ≤ maxBody := by
  induction arrivals generalizing buf with
  | nil =>
    cases h
    exact hbuf
  | cons a arrivals ih =>
    cases a with
    | failed => cases h
    | chunk c =>
      unfold readFrom at h
      by_cases hbig : maxBody < buf.length + c.length
      · rw [if_pos hbig] at h
        cases h
      · rw [if_neg hbig] at h
        refine ih ?_ h
        rw [List.length_append]
        exact Nat.le_of_not_lt hbig

theorem length_readBody {declared : Option Nat} {arrivals : List Arrival} (h : readBody declared arrivals = .ok body) : body.length ≤ maxBody := by
  unfold readBody at h
  split at h
  · cases h
  · exact length_readFrom (Nat.zero_le _) h

end OpenU60.Web.Upload
