/-
  OpenU60.Web.UploadForm — the body a browser builds from a form, read by `parse`.

  - `boundary_quoted`, `boundary_bare`: a boundary of bchars is read from the content type.
  - `disposition_header`: a part's header gives its name and whether it is a file.
  - `fits`: the header and the content of an entry end where the browser ends them.
  - `upload_reader`: the fields and the files with content come back; what is accepted is a
    closed body within the limits, its files apart.
-/

import OpenU60.Web.UploadGrammar

namespace OpenU60.Web.Upload

open OpenU60.Lib OpenU60.Lib.Fallible

/-- RFC 2046: up to 70 bchars, the last no space. -/
structure Rfc2046 (b : List Char) : Prop where
  nonempty : b ≠ []
  short : b.length ≤ 70
  last : b.getLast? ≠ some ' '
  chars : ∀ c ∈ b, isBchar c = true

def escapeChar (c : Char) : List Char :=
  if c = '"' then "%22".toList else if c = '\r' then "%0D".toList else if c = '\n' then "%0A".toList else [c]

/-- A file name as it stands in a header. -/
def escapeName (f : List Char) : List Char := f.flatMap escapeChar

/-- A form's field. -/
inductive Entry where
  | text (name value : List Char)
  | file (name fileName contentType : List Char) (content : Bytes)

def Entry.name : Entry → List Char
  | .text name _ => name
  | .file name _ _ _ => name

def Entry.isFile : Entry → Bool
  | .text .. => false
  | .file .. => true

def Entry.content : Entry → Bytes
  | .text _ value => Utf8.utf8 value
  | .file _ _ _ content => content

def quotedParam (key v : List Char) : List Char := key ++ '"' :: (v ++ ['"'])

def nameParam (name : List Char) : List Char := quotedParam "name=".toList name

def fileParam (fileName : List Char) : List Char := quotedParam "filename=".toList (escapeName fileName)

def Entry.params : Entry → List (List Char)
  | .text name _ => [nameParam name]
  | .file name fileName _ _ => [nameParam name, fileParam fileName]

def dispositionLine (e : Entry) : List Char :=
  "Content-Disposition: form-data".toList ++ e.params.flatMap fun p => ';' :: ' ' :: p

def Entry.header (e : Entry) : List Char :=
  match e with
  | .text .. => dispositionLine e
  | .file _ _ contentType _ => dispositionLine e ++ '\r' :: '\n' :: ("Content-Type: ".toList ++ contentType)

/-- The body of a form's post. -/
def formBody (b : List Char) (es : List Entry) : Bytes :=
  es.flatMap (fun e => delimiter b ++ crlf ++ Utf8.utf8 e.header ++ blankLine ++ e.content ++ crlf) ++ (delimiter b ++ dashes ++ crlf)

structure Entry.Formed (b : List Char) (e : Entry) : Prop where
  name : e.name ≠ [] ∧ e.name.length ≤ 32 ∧ ∀ c ∈ e.name, c.isAlphanum = true
  apart : ¬ crlf ++ delimiter b <:+: e.content
  text : e.isFile = false → e.content.length ≤ maxText
  contentType : ∀ name fileName contentType content, e = .file name fileName contentType content → '\r' ∉ contentType

/-- What the page is to find. -/
def Entry.asText : Entry → Option (List Char × List Char)
  | .text name value => some (name, value)
  | .file .. => none

def Entry.asFile : Entry → Option (List Char × Bytes)
  | .text .. => none
  | .file name _ _ content => if content.isEmpty then none else some (name, content)

variable {b : List Char} {e : Entry} {es : List Entry} {c : Char}

/-! ## Characters -/

theorem bchar_ascii (h : isBchar c = true) : c.toNat < 0x80 := by
  unfold isBchar at h
  cases Bool.or_eq_true _ _ ▸ h with
  | inl h => exact Text.alphanum_ascii h
  | inr h =>
    have hall : ['\'', '(', ')', '+', '_', ',', '-', '.', '/', ':', '=', '?', ' '].all (·.toNat < 0x80) = true := by decide
    exact of_decide_eq_true (List.all_eq_true.mp hall c (List.contains_iff_mem.mp h))

theorem cr_not_mem_utf8 {cs : List Char} (h : '\r' ∉ cs) : (13 : UInt8) ∉ Utf8.utf8 cs := by
  intro hmem
  obtain ⟨c, hc, hval⟩ := Utf8.mem_utf8_ascii hmem (by decide)
  have hcr : c = '\r' := Char.toNat_inj.mp hval
  exact h (hcr ▸ hc)

theorem escapeChar_clean (c : Char) : '"' ∉ escapeChar c ∧ '\r' ∉ escapeChar c := by
  unfold escapeChar
  split
  · decide
  · split
    · decide
    · split
      · decide
      · rename_i hquote hcr _
        exact ⟨fun h => hquote (List.mem_singleton.mp h).symm, fun h => hcr (List.mem_singleton.mp h).symm⟩

theorem escapeName_clean (f : List Char) : '"' ∉ escapeName f ∧ '\r' ∉ escapeName f := by
  constructor
  · intro h
    obtain ⟨c, -, hc⟩ := List.mem_flatMap.mp h
    exact (escapeChar_clean c).1 hc
  · intro h
    obtain ⟨c, -, hc⟩ := List.mem_flatMap.mp h
    exact (escapeChar_clean c).2 hc

/-! ## The boundary -/

theorem goodBoundary_of (h : Rfc2046 b) : goodBoundary b = true := by
  have hlen := Text.byteLen_ascii fun c hc => bchar_ascii (h.chars c hc)
  have hpos := List.length_pos_iff.mpr h.nonempty
  have hshort := h.short
  unfold goodBoundary
  rw [hlen]
  simp only [Bool.and_eq_true, decide_eq_true_eq, List.all_eq_true]
  exact ⟨⟨⟨hpos, hshort⟩, h.last⟩, h.chars⟩

theorem boundary_of_split {ct first v : List Char} {params : List (List Char)} (hsplit : ct.splitOn ';' = first :: params)
    (hform : eqIgnoreCase (Text.trim first) "multipart/form-data".toList = true) (hfind : params.findSome? boundaryParam = some v)
    (hgood : goodBoundary ((stripQuotes v).getD v) = true) : boundary (some ct) = some ((stripQuotes v).getD v) := by
  unfold boundary
  rw [Option.bind_eq_bind, Option.bind_some, hsplit]
  dsimp only
  rw [if_pos hform, hfind, Option.bind_some]
  exact if_pos hgood

/-- A content type whose one parameter is the boundary. -/
theorem boundary_param {v : List Char} (hb : Rfc2046 b) (hsemi : ';' ∉ v) (hv : (stripQuotes (Text.trim v)).getD (Text.trim v) = b) :
    boundary (some ("multipart/form-data; boundary=".toList ++ v)) = some b := by
  have hkey : ';' ∉ " boundary=".toList ++ v := by
    intro h
    cases List.mem_append.mp h with
    | inl h => exact absurd h (by decide)
    | inr h => exact hsemi h
  have hsplit : ("multipart/form-data; boundary=".toList ++ v).splitOn ';' = ["multipart/form-data".toList, " boundary=".toList ++ v] := by
    refine (List.splitOn_append_cons_self_of_not_mem (by decide : ';' ∉ "multipart/form-data".toList) (" boundary=".toList ++ v)).trans ?_
    rw [List.splitOn_eq_singleton hkey]
  have heq : Split.splitOnce ['='] (" boundary=".toList ++ v) = some (" boundary".toList, v) :=
    Split.splitOnce_of_not_mem (s := " boundary".toList) (by decide)
  have hparam : boundaryParam (" boundary=".toList ++ v) = some (Text.trim v) := by
    have hkey : eqIgnoreCase (Text.trim " boundary".toList) "boundary".toList = true := by decide
    unfold boundaryParam
    rw [bind_of_eq heq]
    exact if_pos hkey
  have hform : eqIgnoreCase (Text.trim "multipart/form-data".toList) "multipart/form-data".toList = true := by decide
  have hfind : [" boundary=".toList ++ v].findSome? boundaryParam = some (Text.trim v) := by
    rw [List.findSome?_cons, hparam]
  rw [← hv] at hb ⊢
  exact boundary_of_split hsplit hform hfind (goodBoundary_of hb)

theorem semicolon_not_mem (h : Rfc2046 b) : ';' ∉ b := by
  intro hmem
  exact absurd (h.chars _ hmem) (by decide)

theorem stripQuotes_quoted (v : List Char) : stripQuotes ('"' :: (v ++ ['"'])) = some v := by
  show (if (v ++ ['"']).getLast? = some '"' then some (v ++ ['"']).dropLast else none) = some v
  rw [if_pos List.getLast?_concat, List.dropLast_concat]

theorem trim_quoted (c : Char) (v : List Char) (hc : Text.isWhitespace c = false) : Text.trim (c :: (v ++ ['"'])) = c :: (v ++ ['"']) := by
  refine Text.trim_eq_self ?_ ?_
  · intro d hd
    cases hd
    exact hc
  · intro d hd
    rw [← List.cons_append, List.getLast?_concat] at hd
    cases hd
    decide

theorem boundary_quoted (h : Rfc2046 b) : boundary (some ("multipart/form-data; boundary=".toList ++ '"' :: (b ++ ['"']))) = some b := by
  refine boundary_param h ?_ ?_
  · intro hmem
    cases List.mem_cons.mp hmem with
    | inl hquote => exact absurd hquote (by decide)
    | inr hmem =>
      cases List.mem_append.mp hmem with
      | inl hmem => exact semicolon_not_mem h hmem
      | inr hmem => exact absurd hmem (by decide)
  · rw [trim_quoted _ _ (by decide), stripQuotes_quoted]
    rfl

theorem bchar_space (h : isBchar c = true) (hc : c ≠ ' ') : Text.isWhitespace c = false := by
  have hall : ∀ n < 0x80, isBchar (Char.ofNat n) = true → Char.ofNat n ≠ ' ' → Text.isWhitespace (Char.ofNat n) = false := by decide +kernel
  exact Text.forall_ascii (p := fun c => isBchar c = true → c ≠ ' ' → Text.isWhitespace c = false) hall (bchar_ascii h) h hc

/-- Without quotation marks, where no space begins it. -/
theorem boundary_bare (h : Rfc2046 b) (hhead : b.head? ≠ some ' ') : boundary (some ("multipart/form-data; boundary=".toList ++ b)) = some b := by
  have htrim : Text.trim b = b := by
    refine Text.trim_eq_self ?_ ?_
    · intro c hc
      exact bchar_space (h.chars c (List.mem_of_mem_head? hc)) fun heq => hhead (heq ▸ hc)
    · intro c hc
      exact bchar_space (h.chars c (List.mem_of_mem_getLast? hc)) fun heq => h.last (heq ▸ hc)
  refine boundary_param h (semicolon_not_mem h) ?_
  rw [htrim]
  unfold stripQuotes
  split
  · exact absurd (h.chars _ List.mem_cons_self) (by decide)
  · rfl

/-! ## The lines of a header -/

theorem lines_cons (h : c ≠ '\r') (rest : List Char) : lines (c :: rest) = match lines rest with
    | [] => [[c]]
    | l :: ls => (c :: l) :: ls := by
  conv_lhs => unfold lines
  split
  · rename_i heq
    cases heq
  · rename_i heq
    cases heq
    exact absurd rfl h
  · rename_i heq
    cases heq
    rfl

theorem lines_line {l : List Char} (h : '\r' ∉ l) : lines l = [l] := by
  induction l with
  | nil => rfl
  | cons c l ih =>
    rw [List.mem_cons, not_or] at h
    rw [lines_cons (Ne.symm h.1), ih h.2]

theorem lines_append {l : List Char} (h : '\r' ∉ l) (rest : List Char) : lines (l ++ '\r' :: '\n' :: rest) = l :: lines rest := by
  induction l with
  | nil =>
    rw [List.nil_append, lines]
  | cons c l ih =>
    rw [List.mem_cons, not_or] at h
    rw [List.cons_append, lines_cons (Ne.symm h.1), ih h.2]

/-! ## Parameters -/

theorem split_plain {s : List Char} (h : '"' ∉ s ∧ ';' ∉ s) (param rest : List Char) :
    splitParamsFrom param false false (s ++ rest) = splitParamsFrom (param ++ s) false false rest := by
  induction s generalizing param with
  | nil => rw [List.append_nil, List.nil_append]
  | cons c s ih =>
    rw [List.mem_cons, not_or, List.mem_cons, not_or] at h
    have hrest := ih ⟨h.1.2, h.2.2⟩ (param ++ [c])
    rw [List.append_assoc, List.singleton_append] at hrest
    rw [List.cons_append, splitParamsFrom, if_neg Bool.false_ne_true, if_neg (by simp), if_neg (Ne.symm h.1.1), if_neg (by simp [Ne.symm h.2.1]), hrest]

theorem split_semicolon (param rest : List Char) :
    splitParamsFrom param false false (';' :: rest) = Text.trim param :: splitParamsFrom [] false false rest := rfl

theorem split_quoted {s : List Char} (h : '"' ∉ s ∧ '\\' ∉ s) (param rest : List Char) :
    splitParamsFrom param false false ('"' :: (s ++ '"' :: rest)) = splitParamsFrom (param ++ '"' :: (s ++ ['"'])) false false rest := by
  have hinside : ∀ param, splitParamsFrom param true false (s ++ '"' :: rest) = splitParamsFrom (param ++ (s ++ ['"'])) false false rest := by
    induction s with
    | nil =>
      intro param
      rfl
    | cons c s ih =>
      intro param
      rw [List.mem_cons, not_or, List.mem_cons, not_or] at h
      have hrest := ih ⟨h.1.2, h.2.2⟩ (param ++ [c])
      rw [List.append_assoc, List.singleton_append] at hrest
      rw [List.cons_append, splitParamsFrom, if_neg Bool.false_ne_true, if_neg (by simp [Ne.symm h.2.1]), if_neg (Ne.symm h.1.1), if_neg (by simp), hrest,
        List.cons_append]
  have hopen := hinside (param ++ ['"'])
  rw [List.append_assoc, List.singleton_append] at hopen
  exact hopen

/-- The last parameter ends at the end, escaped quotation mark or not. -/
theorem split_last {s : List Char} (h : '"' ∉ s) (param : List Char) :
    splitParamsFrom param false false ('"' :: (s ++ ['"'])) = [Text.trim (param ++ '"' :: (s ++ ['"']))] := by
  have hinside : ∀ param escaped, splitParamsFrom param true escaped (s ++ ['"']) = [Text.trim (param ++ (s ++ ['"']))] := by
    induction s with
    | nil =>
      intro param escaped
      cases escaped <;> rfl
    | cons c s ih =>
      intro param escaped
      rw [List.mem_cons, not_or] at h
      have hrest := ih h.2 (param ++ [c])
      rw [List.append_assoc, List.singleton_append] at hrest
      rw [List.cons_append, splitParamsFrom]
      by_cases hescaped : escaped = true
      · rw [if_pos hescaped, hrest]
      · rw [if_neg hescaped]
        by_cases hslash : (decide (c = '\\') && true) = true
        · rw [if_pos hslash, hrest]
        · rw [if_neg hslash, if_neg (Ne.symm h.1), if_neg (by simp), hrest]
  have hopen := hinside (param ++ ['"']) false
  rw [List.append_assoc, List.singleton_append] at hopen
  exact hopen

theorem alphanum_plain {n : List Char} (h : ∀ c ∈ n, c.isAlphanum = true) (hc : c.isAlphanum = false) : c ∉ n := by
  intro hmem
  rw [h c hmem] at hc
  cases hc

theorem trim_param {k v : List Char} (hk : k ≠ []) (hhead : k.head?.any Text.isWhitespace = false) :
    Text.trim (' ' :: quotedParam k v) = quotedParam k v := by
  rw [Text.trim_space]
  cases k with
  | nil => exact absurd rfl hk
  | cons c k =>
    have hown := trim_quoted c (k ++ '"' :: v) hhead
    rw [List.append_assoc] at hown
    exact hown

theorem split_param {k v : List Char} (hk : '"' ∉ k ∧ ';' ∉ k) (hv : '"' ∉ v ∧ '\\' ∉ v) (rest : List Char) :
    splitParamsFrom [] false false (' ' :: quotedParam k v ++ rest) = splitParamsFrom (' ' :: quotedParam k v) false false rest := by
  have hspace : '"' ∉ ' ' :: k ∧ ';' ∉ ' ' :: k := by
    rw [List.mem_cons, not_or, List.mem_cons, not_or]
    exact ⟨⟨by decide, hk.1⟩, ⟨by decide, hk.2⟩⟩
  have hshape : ' ' :: quotedParam k v ++ rest = (' ' :: k) ++ '"' :: (v ++ '"' :: rest) := by simp [quotedParam]
  rw [hshape, split_plain hspace, List.nil_append, split_quoted hv]
  rfl

theorem split_param_last {k v : List Char} (hk : '"' ∉ k ∧ ';' ∉ k) (hv : '"' ∉ v) :
    splitParamsFrom [] false false (' ' :: quotedParam k v) = [Text.trim (' ' :: quotedParam k v)] := by
  have hspace : '"' ∉ ' ' :: k ∧ ';' ∉ ' ' :: k := by
    rw [List.mem_cons, not_or, List.mem_cons, not_or]
    exact ⟨⟨by decide, hk.1⟩, ⟨by decide, hk.2⟩⟩
  have hshape : ' ' :: quotedParam k v = (' ' :: k) ++ '"' :: (v ++ ['"']) := rfl
  rw [hshape, split_plain hspace, List.nil_append, split_last hv]

/-- The parameters of an entry's line. -/
theorem splitParams_line (hname : ∀ c ∈ e.name, c.isAlphanum = true) :
    splitParams (" form-data".toList ++ e.params.flatMap fun p => ';' :: ' ' :: p) = "form-data".toList :: e.params := by
  have hplain : '"' ∉ e.name ∧ '\\' ∉ e.name := ⟨alphanum_plain hname (by decide), alphanum_plain hname (by decide)⟩
  have hform : Text.trim " form-data".toList = "form-data".toList := by decide
  have htrim : Text.trim (' ' :: nameParam e.name) = nameParam e.name := trim_param (by decide) (by decide)
  unfold splitParams
  rw [split_plain (by decide), List.nil_append]
  have hkey : '"' ∉ "name=".toList ∧ ';' ∉ "name=".toList := by decide
  cases e with
  | text name value =>
    have hname : '"' ∉ name := hplain.1
    rw [Entry.params, List.flatMap_singleton, split_semicolon, hform, nameParam, split_param_last hkey hname]
    exact congrArg (fun p => "form-data".toList :: [p]) htrim
  | file name fileName contentType content =>
    have hname : '"' ∉ name ∧ '\\' ∉ name := hplain
    have hfile : '"' ∉ "filename=".toList ∧ ';' ∉ "filename=".toList := by decide
    have hlast : Text.trim (' ' :: fileParam fileName) = fileParam fileName := trim_param (by decide) (by decide)
    rw [Entry.params, List.flatMap_cons, List.flatMap_singleton, List.cons_append, split_semicolon, hform, nameParam,
      split_param hkey hname, split_semicolon, fileParam, split_param_last hfile (escapeName_clean fileName).1]
    exact congrArg ("form-data".toList :: ·) (congrArg₂ (fun p q => p :: [q]) htrim hlast)

theorem replacePair_of_not_mem {a d by_ : Char} {v : List Char} (h : a ∉ v) : replacePair a d by_ v = v := by
  induction v with
  | nil => rfl
  | cons c v ih =>
    rw [List.mem_cons, not_or] at h
    cases v with
    | nil => rfl
    | cons c' v =>
      rw [replacePair, if_neg (fun hc => h.1 hc.1.symm), ih h.2]

theorem unquote_name {n : List Char} (h : ∀ c ∈ n, c.isAlphanum = true) : unquote (Text.trim ('"' :: (n ++ ['"']))) = n := by
  have hslash : '\\' ∉ n := alphanum_plain h (by decide)
  unfold unquote
  rw [trim_quoted _ _ (by decide), stripQuotes_quoted]
  dsimp only
  rw [replacePair_of_not_mem hslash, replacePair_of_not_mem hslash]

theorem nameAndFile_name {n : List Char} (h : ∀ c ∈ n, c.isAlphanum = true) (ps : List (List Char)) :
    nameAndFile none false (nameParam n :: ps) = nameAndFile (some n) false ps := by
  have heq : Split.splitOnce ['='] (nameParam n) = some ("name".toList, '"' :: (n ++ ['"'])) :=
    Split.splitOnce_of_not_mem (s := "name".toList) (by decide)
  have hkey : (Text.trim "name".toList).map Char.toLower = "name".toList := by decide
  rw [nameAndFile, bind_of_eq heq]
  dsimp only
  rw [if_pos hkey, unquote_name h]

theorem nameAndFile_file (n : Option (List Char)) (file : Bool) (fileName : List Char) :
    nameAndFile n file [fileParam fileName] = some (n, true) := by
  have heq : Split.splitOnce ['='] (fileParam fileName) = some ("filename".toList, '"' :: (escapeName fileName ++ ['"'])) :=
    Split.splitOnce_of_not_mem (s := "filename".toList) (by decide)
  have hkey : (Text.trim "filename".toList).map Char.toLower ≠ "name".toList := by decide
  have hfile : ((Text.trim "filename".toList).map Char.toLower = "filename".toList || (Text.trim "filename".toList).map Char.toLower = "filename*".toList) = true := by decide
  rw [nameAndFile, bind_of_eq heq]
  dsimp only
  rw [if_neg hkey, if_pos hfile]
  rfl

theorem nameAndFile_params (h : ∀ c ∈ e.name, c.isAlphanum = true) : nameAndFile none false e.params = some (some e.name, e.isFile) := by
  cases e with
  | text name value => exact nameAndFile_name h []
  | file name fileName contentType content => exact (nameAndFile_name h _).trans (nameAndFile_file _ _ fileName)

/-! ## A part's header -/

theorem cr_not_mem_line (h : ∀ c ∈ e.name, c.isAlphanum = true) : '\r' ∉ dispositionLine e := by
  have hparam : ∀ k v : List Char, '\r' ∉ k → '\r' ∉ v → '\r' ∉ ';' :: ' ' :: quotedParam k v := by
    intro k v hk hv
    simp only [quotedParam, List.mem_cons, List.mem_append, List.not_mem_nil, not_or]
    exact ⟨by decide, by decide, hk, by decide, hv, by decide, fun hmem => hmem⟩
  have hname := hparam "name=".toList e.name (by decide) (alphanum_plain h (by decide))
  intro hmem
  cases List.mem_append.mp hmem with
  | inl hmem => exact absurd hmem (by decide)
  | inr hmem =>
    obtain ⟨p, hp, hmem⟩ := List.mem_flatMap.mp hmem
    cases e with
    | text name value =>
      cases List.mem_singleton.mp hp
      exact hname hmem
    | file name fileName contentType content =>
      cases List.mem_cons.mp hp with
      | inl hp =>
        subst hp
        exact hname hmem
      | inr hp =>
        cases List.mem_singleton.mp hp
        exact hparam "filename=".toList _ (by decide) (escapeName_clean fileName).2 hmem

theorem dispositionValue_line (e : Entry) :
    dispositionValue (dispositionLine e) = some (" form-data".toList ++ e.params.flatMap fun p => ';' :: ' ' :: p) := by
  have hline : dispositionLine e = "Content-Disposition".toList ++ [':'] ++ (" form-data".toList ++ e.params.flatMap fun p => ';' :: ' ' :: p) := by
    have hstart : "Content-Disposition: form-data".toList = "Content-Disposition".toList ++ [':'] ++ " form-data".toList := by decide
    unfold dispositionLine
    rw [hstart, List.append_assoc]
  have hsplit : Split.splitOnce [':'] (dispositionLine e) = some ("Content-Disposition".toList, " form-data".toList ++ e.params.flatMap fun p => ';' :: ' ' :: p) := by
    rw [hline]
    exact Split.splitOnce_of_not_mem (by decide)
  have hkey : eqIgnoreCase (Text.trim "Content-Disposition".toList) "content-disposition".toList = true := by decide
  unfold dispositionValue
  rw [bind_of_eq hsplit]
  exact if_pos hkey

theorem goodName_of (h : e.Formed b) : goodName e.name = true := by
  obtain ⟨hne, hshort, hchars⟩ := h.name
  unfold goodName
  rw [Text.byteLen_ascii fun c hc => Text.alphanum_ascii (hchars c hc)]
  simp [hne, hshort]

theorem disposition_header (h : e.Formed b) : disposition e.header = some (e.name, e.isFile) := by
  have hline := cr_not_mem_line h.name.2.2
  have hlines : ∃ rest, lines e.header = dispositionLine e :: rest := by
    cases e with
    | text name value => exact ⟨[], lines_line hline⟩
    | file name fileName contentType content => exact ⟨_, lines_append hline _⟩
  obtain ⟨rest, hlines⟩ := hlines
  have hfind : (lines e.header).findSome? dispositionValue = some (" form-data".toList ++ e.params.flatMap fun p => ';' :: ' ' :: p) := by
    rw [hlines, List.findSome?_cons, dispositionValue_line]
  have hform : eqIgnoreCase "form-data".toList "form-data".toList = true := by decide
  have hname : (some e.name).filter goodName = some e.name := by rw [Option.filter_some, if_pos (goodName_of h)]
  unfold disposition
  rw [bind_of_eq hfind, splitParams_line h.name.2.2]
  dsimp only
  rw [if_pos hform, bind_of_eq (nameAndFile_params h.name.2.2)]
  dsimp only
  rw [bind_of_eq hname]

/-! ## A part -/

def Entry.raw (e : Entry) : RawPart := ⟨Utf8.utf8 e.header, e.content⟩

/-- The header ends at the first blank line: its lines hold no CR and the second is not empty. -/
theorem header_end (h : e.Formed b) : Split.splitOnce blankLine (Utf8.utf8 e.header ++ blankLine) = some (Utf8.utf8 e.header, []) := by
  have hline := cr_not_mem_utf8 (cr_not_mem_line h.name.2.2)
  have hlast : ∀ {u : Bytes}, (13 : UInt8) ∉ u → Split.splitOnce blankLine (u ++ blankLine) = some (u, []) := by
    intro u hu
    have hown : Split.splitOnce blankLine (u ++ blankLine ++ []) = some (u, []) := Split.splitOnce_of_not_mem hu
    rw [List.append_nil] at hown
    exact hown
  cases e with
  | text name value => exact hlast hline
  | file name fileName contentType content =>
    have htype : (13 : UInt8) ∉ Utf8.utf8 ("Content-Type: ".toList ++ contentType) := by
      refine cr_not_mem_utf8 fun hmem => ?_
      cases List.mem_append.mp hmem with
      | inl hmem => exact absurd hmem (by decide)
      | inr hmem => exact h.contentType _ _ _ _ rfl hmem
    obtain ⟨after, hafter⟩ : ∃ after, Utf8.utf8 ("Content-Type: ".toList ++ contentType) = 67 :: after := ⟨_, rfl⟩
    have hbytes : Utf8.utf8 (Entry.file name fileName contentType content).header =
        Utf8.utf8 (dispositionLine (.file name fileName contentType content)) ++ 13 :: 10 :: Utf8.utf8 ("Content-Type: ".toList ++ contentType) :=
      List.flatMap_append
    have hcr : ¬ blankLine <+: 13 :: 10 :: (Utf8.utf8 ("Content-Type: ".toList ++ contentType) ++ blankLine) := by
      intro hp
      rw [hafter] at hp
      have hthird := (List.cons_prefix_cons.mp (List.cons_prefix_cons.mp (List.cons_prefix_cons.mp hp).2).2).1
      exact absurd hthird (by decide)
    have hlf : ¬ blankLine <+: 10 :: (Utf8.utf8 ("Content-Type: ".toList ++ contentType) ++ blankLine) := by
      intro hp
      exact absurd (List.cons_prefix_cons.mp hp).1 (by decide)
    rw [hbytes, List.append_assoc, List.cons_append, List.cons_append]
    have hskip : ∀ rest, Split.splitOnce blankLine (Utf8.utf8 (dispositionLine (.file name fileName contentType content)) ++ rest) =
        (Split.splitOnce blankLine rest).map fun q => (Utf8.utf8 (dispositionLine (.file name fileName contentType content)) ++ q.1, q.2) :=
      fun rest => Split.splitOnce_skip hline rest
    refine (hskip _).trans ?_
    show (Split.splitOnce blankLine _).map _ = _
    rw [Split.splitOnce_cons_neg hcr, Split.splitOnce_cons_neg hlf, hlast htype]
    rfl

theorem cr_not_mem_delimiter (h : Rfc2046 b) : (13 : UInt8) ∉ 10 :: delimiter b := by
  have hb : (13 : UInt8) ∉ Utf8.utf8 b := cr_not_mem_utf8 fun hmem => absurd (h.chars _ hmem) (by decide)
  intro hmem
  cases List.mem_cons.mp hmem with
  | inl heq => exact absurd heq (by decide)
  | inr hmem =>
    cases List.mem_append.mp hmem with
    | inl hmem => exact absurd hmem (by decide)
    | inr hmem => exact hb hmem

theorem content_end (hb : Rfc2046 b) (h : e.Formed b) :
    Split.splitOnce (crlf ++ delimiter b) (e.content ++ (crlf ++ delimiter b)) = some (e.content, []) := by
  have hnone : Split.splitOnce (crlf ++ delimiter b) e.content = none := by
    cases hs : Split.splitOnce (crlf ++ delimiter b) e.content with
    | none => rfl
    | some p => exact absurd ⟨p.1, p.2, (Split.splitOnce_eq hs).symm⟩ h.apart
  have hown := Split.splitOnce_unbordered (List.cons_ne_nil _ _) (Split.unbordered_of_not_mem (cr_not_mem_delimiter hb)) hnone []
  rw [List.append_nil] at hown
  exact hown

theorem fits (hb : Rfc2046 b) (h : e.Formed b) (hshort : (Utf8.utf8 e.header).length ≤ maxHead) : e.raw.Fits (delimiter b) :=
  ⟨hshort, header_end h, content_end hb h⟩

/-! ## The body -/

theorem formBody_parts (b : List Char) (es : List Entry) :
    formBody b es = delimiter b ++ ((es.map Entry.raw).flatMap (RawPart.bytes (delimiter b)) ++ (dashes ++ crlf)) := by
  unfold formBody
  induction es with
  | nil =>
    rw [List.flatMap_nil, List.nil_append, List.map_nil, List.flatMap_nil, List.nil_append, List.append_assoc]
  | cons e es ih =>
    rw [List.flatMap_cons, List.append_assoc, ih, List.map_cons, List.flatMap_cons]
    simp only [RawPart.bytes, Entry.raw, List.append_assoc]

/-- A file of the result with its bytes. -/
def fileBytes (body : Bytes) (f : List Char × Nat × Nat) : List Char × Bytes := (f.1, slice body f.2.1 f.2.2)

variable {body d rest : Bytes} {pos : Nat}

theorem add_entry (out : Parsed) (h : e.Formed b) (hrest : body.drop pos = e.raw.bytes d ++ rest) : ∃ out', e.raw.add pos out = some out' ∧
    out'.text = out.text ++ e.asText.toList ∧ out'.files.map (fileBytes body) = out.files.map (fileBytes body) ++ e.asFile.toList := by
  have hdisp := disposition_header h
  have hhead : Utf8.fromUtf8 e.raw.head = some e.header := Utf8.fromUtf8_utf8 _
  cases e with
  | text name value =>
    have hvalue : Utf8.fromUtf8 (Entry.text name value).raw.content = some value := Utf8.fromUtf8_utf8 _
    exact ⟨_, add_text hhead hdisp (h.text rfl) hvalue pos out, rfl, (List.append_nil _).symm⟩
  | file name fileName contentType content =>
    refine ⟨_, add_file hhead hdisp pos out, ?_⟩
    by_cases hempty : content = []
    · subst hempty
      exact ⟨(List.append_nil _).symm, (List.append_nil _).symm⟩
    · have hsome : (Entry.file name fileName contentType content).asFile = some (name, content) := if_neg fun hnil => hempty (List.isEmpty_iff.mp hnil)
      have hraw : (Entry.file name fileName contentType content).raw.content ≠ [] := hempty
      rw [if_neg hraw, hsome, List.map_append]
      exact ⟨(List.append_nil _).symm, congrArg (fun bytes => out.files.map (fileBytes body) ++ [(name, bytes)]) (slice_content hrest)⟩

theorem addAll_entries (out : Parsed) (h : ∀ e ∈ es, e.Formed b) (hrest : body.drop pos = (es.map Entry.raw).flatMap (RawPart.bytes d) ++ rest) :
    ∃ res, addAll d pos (es.map Entry.raw) out = some res ∧ res.text = out.text ++ es.filterMap Entry.asText ∧
      res.files.map (fileBytes body) = out.files.map (fileBytes body) ++ es.filterMap Entry.asFile := by
  induction es generalizing pos out with
  | nil => exact ⟨out, rfl, (List.append_nil _).symm, (List.append_nil _).symm⟩
  | cons e es ih =>
    obtain ⟨he, hes⟩ := List.forall_mem_cons.mp h
    rw [List.map_cons, List.flatMap_cons, List.append_assoc] at hrest
    obtain ⟨out', hadd, htext, hfiles⟩ := add_entry out he hrest
    have hnext : body.drop (pos + (e.raw.bytes d).length) = (es.map Entry.raw).flatMap (RawPart.bytes d) ++ rest := by
      rw [← List.drop_drop, hrest, List.drop_left]
    obtain ⟨res, hall, htexts, hfiles'⟩ := ih out' hes hnext
    refine ⟨res, ?_, ?_, ?_⟩
    · rw [List.map_cons, addAll, bind_of_eq hadd]
      exact hall
    · rw [htexts, htext, List.append_assoc]
      cases e <;> rfl
    · rw [hfiles', hfiles, List.append_assoc, List.filterMap_cons]
      cases e.asFile <;> rfl

/-- Photo uploads: the form a browser sends comes back, where no part's header is over its limit; and whatever is sent, what
is accepted is a closed body of at most eight parts within their limits, its files ranges one after another. -/
theorem upload_reader :
    (∀ (b : List Char) (es : List Entry), Rfc2046 b → es.length ≤ maxParts →
      (∀ e ∈ es, e.Formed b ∧ (Utf8.utf8 e.header).length ≤ maxHead) →
      boundary (some ("multipart/form-data; boundary=".toList ++ '"' :: (b ++ ['"']))) = some b ∧
      (b.head? ≠ some ' ' → boundary (some ("multipart/form-data; boundary=".toList ++ b)) = some b) ∧
      ∃ res, parse (formBody b es) b = some res ∧ res.text = es.filterMap Entry.asText ∧
        res.files.map (fileBytes (formBody b es)) = es.filterMap Entry.asFile) ∧
    (∀ (body : Bytes) (b : List Char) (res : Parsed), parse body b = some res ↔
      ∃ ps rest, body = delimiter b ++ (ps.flatMap (RawPart.bytes (delimiter b)) ++ (dashes ++ rest)) ∧ ps.length ≤ maxParts ∧
        (∀ p ∈ ps, p.Fits (delimiter b)) ∧ addAll (delimiter b) (delimiter b).length ps {} = some res) ∧
    (∀ (body : Bytes) (b : List Char) (res : Parsed), parse body b = some res → res.Ordered body.length) ∧
    (∀ (declared : Option Nat) (arrivals : List Arrival) (body : Bytes), readBody declared arrivals = .ok body → body.length ≤ maxBody) := by
  refine ⟨?_, fun body b res => parse_iff, fun body b res => parse_ordered, fun declared arrivals body => length_readBody⟩
  intro b es hb hparts hes
  refine ⟨boundary_quoted hb, boundary_bare hb, ?_⟩
  have hbody := formBody_parts b es
  have hdrop : (formBody b es).drop (delimiter b).length = (es.map Entry.raw).flatMap (RawPart.bytes (delimiter b)) ++ (dashes ++ crlf) := by
    rw [hbody, List.drop_left]
  obtain ⟨res, hall, htext, hfiles⟩ := addAll_entries {} (fun e he => (hes e he).1) hdrop
  refine ⟨res, parse_iff.mpr ⟨es.map Entry.raw, crlf, hbody, ?_, ?_, hall⟩, htext, hfiles⟩
  · rw [List.length_map]
    exact hparts
  · intro p hp
    obtain ⟨e, he, rfl⟩ := List.mem_map.mp hp
    exact fits hb (hes e he).1 (hes e he).2

/-- The page's form: a token, a file input left empty, a photo with an end of a line in it, and a code. -/
theorem upload_reader_form : ∃ res,
    parse (formBody "x".toList [.text "csrf".toList "é".toList, .file "scan".toList [] "image/png".toList [],
      .file "photo".toList "a;\\\".jpg".toList "image/jpeg".toList [0xFF, 13, 10, 45, 45], .text "code".toList []]) "x".toList = some res ∧
    res.text = [("csrf".toList, "é".toList), ("code".toList, [])] ∧
    res.files.map (fileBytes (formBody "x".toList [.text "csrf".toList "é".toList, .file "scan".toList [] "image/png".toList [],
      .file "photo".toList "a;\\\".jpg".toList "image/jpeg".toList [0xFF, 13, 10, 45, 45], .text "code".toList []])) =
      [("photo".toList, [0xFF, 13, 10, 45, 45])] := by
  have hb : Rfc2046 "x".toList := ⟨by decide, by decide, by decide, List.all_eq_true.mp (by decide)⟩
  refine (upload_reader.1 "x".toList _ hb (by decide) ?_).2.2
  have hname : ∀ n ∈ ["csrf".toList, "scan".toList, "photo".toList, "code".toList], n ≠ [] ∧ n.length ≤ 32 ∧ ∀ c ∈ n, c.isAlphanum = true := by
    intro n hn
    have hall : ["csrf".toList, "scan".toList, "photo".toList, "code".toList].all (fun n => n ≠ [] ∧ n.length ≤ 32 ∧ n.all Char.isAlphanum = true) = true := by decide
    obtain ⟨hne, hlen, hchars⟩ := of_decide_eq_true (List.all_eq_true.mp hall n hn)
    exact ⟨hne, hlen, List.all_eq_true.mp hchars⟩
  intro e he
  simp only [List.mem_cons, List.not_mem_nil, or_false] at he
  obtain rfl | rfl | rfl | rfl := he
  · exact ⟨⟨hname _ (by simp [Entry.name]), by decide, fun _ => by decide, fun _ _ _ _ h => nomatch h⟩, by decide⟩
  · exact ⟨⟨hname _ (by simp [Entry.name]), by decide, (fun h => nomatch h), fun _ _ _ _ h => by cases h; decide⟩, by decide⟩
  · exact ⟨⟨hname _ (by simp [Entry.name]), by decide, (fun h => nomatch h), fun _ _ _ _ h => by cases h; decide⟩, by decide⟩
  · exact ⟨⟨hname _ (by simp [Entry.name]), by decide, fun _ => by decide, fun _ _ _ _ h => nomatch h⟩, by decide⟩

/-- A file name of 1100 characters: its part's header is over 1 KiB and the body refused. -/
theorem long_file_name : Rfc2046 "x".toList ∧
    (Entry.file "photo".toList (List.replicate 1100 'a') "image/jpeg".toList [0xFF]).Formed "x".toList ∧
    parse (formBody "x".toList [.file "photo".toList (List.replicate 1100 'a') "image/jpeg".toList [0xFF]]) "x".toList = none := by
  refine ⟨⟨by decide, by decide, by decide, List.all_eq_true.mp (by decide)⟩, ⟨⟨by decide, by decide, List.all_eq_true.mp (by decide)⟩, by decide, (fun h => nomatch h), ?_⟩, by decide +kernel⟩
  intro name fileName contentType content h
  cases h
  decide

end OpenU60.Web.Upload
