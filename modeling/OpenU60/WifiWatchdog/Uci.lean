/-
  OpenU60.WifiWatchdog.Uci — the firmware's configuration as the watchdog reads it, and the lines its script counts
  (`zte-agent/src/wifi_watchdog.rs`: `Section::get`, `uci_words`, `parse_uci`, `counted_by_script`).

  `written` is the text `uci` writes for a list of sections: bare types and keys, names and values between single
  quotes, a quote within them as a closing quote, an escaped one and an opening quote.
  - `parse_written`: reading it gives the sections back;
  - `get_last`: the value of a key is the last one given;
  - `counted_iff`: a line is counted exactly if the script's pattern finds something in it.
-/

import Mathlib
import OpenU60.Lib.Regex
import OpenU60.Lib.Split
import OpenU60.Lib.Text

namespace OpenU60.WifiWatchdog

open OpenU60.Lib OpenU60.Lib.Text OpenU60.Lib.Split

structure Section where
  kind : List Char
  /-- None for an anonymous section. -/
  name : Option (List Char)
  options : List (List Char × List Char)
  deriving DecidableEq

/-- The last of repeated options. -/
def Section.get (s : Section) (key : List Char) : Option (List Char) := (s.options.reverse.find? (·.1 = key)).map (·.2)

/-- Where the reader of a line is: outside quotes, between single or double ones, past a backslash. -/
inductive Quoting where
  | bare
  | single
  | double
  | escaped
  | escapedIn

/-- The words of the rest of a line, with the word begun and whether there is one. -/
def wordsFrom : Quoting → List Char → Bool → List Char → List (List Char)
  | .bare, word, inWord, [] => if inWord then [word] else []
  | .bare, word, inWord, c :: cs =>
    if c = '\'' then wordsFrom .single word true cs
    else if c = '"' then wordsFrom .double word true cs
    else if c = '\\' then wordsFrom .escaped word true cs
    else if c = '#' ∧ ¬ inWord then []
    else if isWhitespace c then if inWord then word :: wordsFrom .bare [] false cs else wordsFrom .bare word false cs
    else wordsFrom .bare (word ++ [c]) true cs
  | .single, word, inWord, c :: cs =>
    if c = '\'' then wordsFrom .bare word inWord cs else wordsFrom .single (word ++ [c]) inWord cs
  | .double, word, inWord, c :: cs =>
    if c = '"' then wordsFrom .bare word inWord cs
    else if c = '\\' then wordsFrom .escapedIn word inWord cs
    else wordsFrom .double (word ++ [c]) inWord cs
  | .escaped, word, inWord, c :: cs => wordsFrom .bare (word ++ [c]) inWord cs
  | .escapedIn, word, inWord, c :: cs => wordsFrom .double (word ++ [c]) inWord cs
  | _, word, inWord, [] => if inWord then [word] else []

def uciWords (line : List Char) : List (List Char) := wordsFrom .bare [] false line

/-- What the words of a line add. -/
def take (sections : List Section) : List (List Char) → List Section
  | cmd :: word :: rest =>
    if cmd = "config".toList then sections ++ [⟨word, rest.head?, []⟩]
    else
      match rest with
      | value :: _ =>
        if cmd = "option".toList then sections.modifyLast fun s => { s with options := s.options ++ [(word, value)] } else sections
      | [] => sections
  | _ => sections

def parseUci (text : List Char) : List Section := (lines text).foldl (fun sections line => take sections (uciWords line)) []

/-- A line counts for `word`: after its first occurrence and one more character there is `disabled`, and a zero after that. -/
def countedBy (line word : List Char) : Bool :=
  match splitOnce word line with
  | none => false
  | some (_, rest) =>
    match rest with
    | _ :: c :: cs =>
      match splitOnce "disabled".toList (c :: cs) with
      | none => false
      | some (_, after) => after.contains '0'
    | _ => false

def countedByScript (line : List Char) : Bool := ["main".toList, "guest".toList].any (countedBy line)

/-! ## What uci writes -/

def escape (value : List Char) : List Char := value.flatMap fun c => if c = '\'' then ['\'', '\\', '\'', '\''] else [c]

def quoted (value : List Char) : List Char := '\'' :: escape value ++ ['\'']

def Section.header (s : Section) : List Char :=
  "config ".toList ++ s.kind ++ (match s.name with | some name => ' ' :: quoted name | none => [])

def optionLine (o : List Char × List Char) : List Char := "\toption ".toList ++ o.1 ++ ' ' :: quoted o.2

def Section.written (s : Section) : List (List Char) := [] :: s.header :: s.options.map optionLine

/-- Each line ends in a line feed; a blank line goes before each section, and one after the last. -/
def written (sections : List Section) : List Char := (sections.flatMap Section.written ++ [[]]).flatMap (· ++ ['\n'])

/-- A type or a key: no quotes, spaces or escapes, and not the start of a comment. -/
structure Bare (word : List Char) : Prop where
  nonempty : word ≠ []
  comment : word.head? ≠ some '#'
  plain : ∀ c ∈ word, c ≠ '\'' ∧ c ≠ '"' ∧ c ≠ '\\' ∧ isWhitespace c = false

/-- What can be written: names and values take one line. -/
structure Section.Writable (s : Section) : Prop where
  kind : Bare s.kind
  name : ∀ n ∈ s.name, '\n' ∉ n
  options : ∀ o ∈ s.options, Bare o.1 ∧ '\n' ∉ o.2

/-! ## The script's pattern -/

/-- A branch of an extended regular expression of characters, `.` and `*`. -/
def branch : List Char → Regex Char
  | [] => .empty
  | '.' :: '*' :: cs => .seq (.star .any) (branch cs)
  | '.' :: cs => .seq .any (branch cs)
  | c :: '*' :: cs => .seq (.star (.char c)) (branch cs)
  | c :: cs => .seq (.char c) (branch cs)

/-- `main.*.disabled.*0|guest.*.disabled.*0`. -/
def scriptPattern : Regex Char := .alt (branch "main.*.disabled.*0".toList) (branch "guest.*.disabled.*0".toList)

/-! ## The words of a written line -/

theorem Bare.of_all {c : Char} {w : List Char} (hcomment : c ≠ '#')
    (h : (c :: w).all (fun c => c ≠ '\'' && c ≠ '"' && c ≠ '\\' && !isWhitespace c) = true) : Bare (c :: w) := by
  refine ⟨nofun, fun hc => hcomment (Option.some.inj hc), fun d hd => ?_⟩
  simpa [and_assoc] using List.all_eq_true.mp h d hd

/-- Plain characters go into the word. -/
theorem words_plain {w : List Char} (hplain : ∀ c ∈ w, c ≠ '\'' ∧ c ≠ '"' ∧ c ≠ '\\' ∧ isWhitespace c = false) {word : List Char}
    {inWord : Bool} (hcomment : inWord = true ∨ w.head? ≠ some '#') (hne : inWord = true ∨ w ≠ []) (rest : List Char) :
    wordsFrom .bare word inWord (w ++ rest) = wordsFrom .bare (word ++ w) true rest := by
  induction w generalizing word inWord with
  | nil =>
    rcases hne with rfl | hne
    · simp
    · exact absurd rfl hne
  | cons c w ih =>
    obtain ⟨hsingle, hdouble, hescape, hspace⟩ := hplain c List.mem_cons_self
    have hhash : ¬ (c = '#' ∧ ¬ inWord = true) := by
      rintro ⟨rfl, hout⟩
      rcases hcomment with hin | hhead
      · exact hout hin
      · exact hhead rfl
    rw [List.cons_append, wordsFrom, if_neg hsingle, if_neg hdouble, if_neg hescape, if_neg hhash, if_neg (by rw [hspace]; exact Bool.false_ne_true),
      ih (fun c hc => hplain c (List.mem_cons_of_mem _ hc)) (.inl rfl) (.inl rfl), List.append_assoc]
    rfl

theorem words_bare {w : List Char} (h : Bare w) (rest : List Char) :
    wordsFrom .bare [] false (w ++ rest) = wordsFrom .bare w true rest := words_plain h.plain (.inr h.comment) (.inr h.nonempty) rest

theorem words_space (word rest : List Char) : wordsFrom .bare word true (' ' :: rest) = word :: uciWords rest := rfl

/-- A closing quote, an escaped one and an opening one are a quote. -/
theorem words_escape (value : List Char) (word rest : List Char) :
    wordsFrom .single word true (escape value ++ '\'' :: rest) = wordsFrom .bare (word ++ value) true rest := by
  induction value generalizing word with
  | nil =>
    rw [List.append_nil]
    rfl
  | cons c value ih =>
    by_cases hc : c = '\''
    · subst hc
      show wordsFrom .single (word ++ ['\'']) true (escape value ++ '\'' :: rest) = _
      rw [ih, List.append_assoc]
      rfl
    · have hescape : escape (c :: value) = c :: escape value := by
        show (if c = '\'' then _ else [c]) ++ escape value = _
        rw [if_neg hc]
        rfl
      rw [hescape, List.cons_append, wordsFrom, if_neg hc, ih, List.append_assoc]
      rfl

theorem words_quoted (value : List Char) : uciWords (quoted value) = [value] := by
  show wordsFrom .single [] true (escape value ++ ['\'']) = _
  rw [words_escape]
  rfl

theorem words_header {s : Section} (h : Bare s.kind) : uciWords s.header = "config".toList :: s.kind :: s.name.toList := by
  have hconfig : Bare "config".toList := .of_all (by decide) rfl
  unfold Section.header uciWords
  rw [show "config ".toList = "config".toList ++ [' '] from rfl, List.append_assoc, List.append_assoc, words_bare hconfig]
  show "config".toList :: wordsFrom .bare [] false (s.kind ++ _) = _
  rw [words_bare h]
  cases s.name with
  | none => rfl
  | some name =>
    dsimp only
    rw [words_space, words_quoted]
    rfl

theorem words_option {o : List Char × List Char} (h : Bare o.1) : uciWords (optionLine o) = ["option".toList, o.1, o.2] := by
  have hoption : Bare "option".toList := .of_all (by decide) rfl
  unfold optionLine
  show wordsFrom .bare [] false ("option".toList ++ ' ' :: (o.1 ++ ' ' :: quoted o.2)) = _
  rw [words_bare hoption, words_space]
  show _ :: wordsFrom .bare [] false (o.1 ++ _) = _
  rw [words_bare h, words_space, words_quoted]

/-! ## The lines -/

/-- A line that is read as it was written. -/
def Lined (line : List Char) : Prop := '\n' ∉ line ∧ line.getLast? ≠ some '\r'

theorem lines_lined {ls : List (List Char)} (h : ∀ l ∈ ls, Lined l) : lines (ls.flatMap (· ++ ['\n'])) = ls := by
  induction ls with
  | nil => rfl
  | cons l ls ih =>
    obtain ⟨hfeed, hreturn⟩ := h l List.mem_cons_self
    rw [List.flatMap_cons, List.append_assoc]
    show lines (l ++ '\n' :: ls.flatMap (· ++ ['\n'])) = _
    rw [lines_append hfeed hreturn, ih fun l hl => h l (List.mem_cons_of_mem _ hl)]

theorem Bare.lined {w : List Char} (h : Bare w) : Lined w := by
  refine ⟨fun hmem => ?_, fun hlast => ?_⟩
  · have := (h.plain _ hmem).2.2.2
    revert this
    decide
  · have := (h.plain _ (List.mem_of_getLast? hlast)).2.2.2
    revert this
    decide

theorem not_mem_escape {value : List Char} (h : '\n' ∉ value) : '\n' ∉ escape value := by
  unfold escape
  rw [List.mem_flatMap]
  rintro ⟨c, hc, hmem⟩
  split at hmem
  · revert hmem
    decide
  · rw [List.mem_singleton.mp hmem] at h
    exact h hc

theorem lined_quoted {value : List Char} (h : '\n' ∉ value) : Lined (quoted value) := by
  unfold quoted
  refine ⟨fun hmem => ?_, ?_⟩
  · rcases List.mem_append.mp hmem with hmem | hmem
    · rcases List.mem_cons.mp hmem with hmem | hmem
      · revert hmem
        decide
      · exact not_mem_escape h hmem
    · revert hmem
      decide
  · rw [List.getLast?_append]
    simp

theorem Lined.after {u v : List Char} (hu : '\n' ∉ u) (hv : Lined v) (hne : v ≠ []) : Lined (u ++ v) := by
  refine ⟨fun hmem => ?_, fun hlast => ?_⟩
  · rcases List.mem_append.mp hmem with hmem | hmem
    · exact hu hmem
    · exact hv.1 hmem
  · rw [List.getLast?_append_of_ne_nil _ hne] at hlast
    exact hv.2 hlast

theorem Section.Writable.lined {s : Section} (h : s.Writable) : ∀ l ∈ s.written, Lined l := by
  intro l hl
  rcases List.mem_cons.mp hl with rfl | hl
  · exact ⟨nofun, nofun⟩
  · rcases List.mem_cons.mp hl with rfl | hl
    · have hconfig : '\n' ∉ "config ".toList := by decide
      have hkind : Lined ("config ".toList ++ s.kind) := h.kind.lined.after hconfig h.kind.nonempty
      unfold Section.header
      cases hname : s.name with
      | none => rw [List.append_nil]; exact hkind
      | some name =>
        rw [List.append_cons]
        refine (lined_quoted (h.name name hname)).after (fun hmem => ?_) nofun
        rcases List.mem_append.mp hmem with hmem | hmem
        · exact hkind.1 hmem
        · revert hmem
          decide
    · obtain ⟨o, ho, rfl⟩ := List.mem_map.mp hl
      obtain ⟨hkey, hvalue⟩ := h.options o ho
      unfold optionLine
      rw [List.append_cons]
      refine (lined_quoted hvalue).after (fun hmem => ?_) nofun
      rcases List.mem_append.mp hmem with hmem | hmem
      · rcases List.mem_append.mp hmem with hmem | hmem
        · revert hmem
          decide
        · exact hkey.lined.1 hmem
      · revert hmem
        decide

/-! ## What is read -/

theorem take_option (sections : List Section) (s : Section) (o : List Char × List Char) :
    take (sections ++ [s]) ["option".toList, o.1, o.2] = sections ++ [{ s with options := s.options ++ [o] }] := by
  show (sections ++ [s]).modifyLast _ = _
  rw [List.modifyLast_concat]

/-- The lines of a section add it. -/
theorem parse_section {s : Section} (h : s.Writable) (sections : List Section) :
    s.written.foldl (fun sections line => take sections (uciWords line)) sections = sections ++ [s] := by
  have hoptions : ∀ (os done : List (List Char × List Char)), (∀ o ∈ os, Bare o.1) →
      (os.map optionLine).foldl (fun sections line => take sections (uciWords line)) (sections ++ [{ s with options := done }]) =
        sections ++ [{ s with options := done ++ os }] := by
    intro os
    induction os with
    | nil => simp
    | cons o os ih =>
      intro done hos
      rw [List.map_cons, List.foldl_cons, words_option (hos o List.mem_cons_self), take_option,
        ih (done ++ [o]) fun o ho => hos o (List.mem_cons_of_mem _ ho)]
      simp
  show (s.options.map optionLine).foldl _ (take (take sections []) (uciWords s.header)) = _
  rw [words_header h.kind]
  have hname : s.name.toList.head? = s.name := by cases s.name <;> rfl
  show (s.options.map optionLine).foldl _ (sections ++ [⟨s.kind, s.name.toList.head?, []⟩]) = _
  rw [hname]
  exact hoptions s.options [] fun o ho => (h.options o ho).1

/-- Reading what was written gives the sections back. -/
theorem parse_written {sections : List Section} (h : ∀ s ∈ sections, s.Writable) : parseUci (written sections) = sections := by
  have hall : ∀ done, (sections.flatMap Section.written).foldl (fun sections line => take sections (uciWords line)) done =
      done ++ sections := by
    induction sections with
    | nil => simp
    | cons s sections ih =>
      intro done
      rw [List.flatMap_cons, List.foldl_append, parse_section (h s List.mem_cons_self),
        ih fun s hs => h s (List.mem_cons_of_mem _ hs)]
      simp
  unfold parseUci written
  rw [lines_lined, List.foldl_append, hall []]
  · rfl
  · intro l hl
    rcases List.mem_append.mp hl with hl | hl
    · obtain ⟨s, hs, hl⟩ := List.mem_flatMap.mp hl
      exact (h s hs).lined l hl
    · rw [List.mem_singleton.mp hl]
      exact ⟨nofun, nofun⟩

/-- The value of a key is the last one given. -/
theorem get_last (s : Section) (key : List Char) : s.get key = ((s.options.filter (·.1 = key)).getLast?).map (·.2) := by
  unfold Section.get
  rw [← List.head?_filter, List.filter_reverse, List.head?_reverse]

/-! ## What is counted -/

/-- The word, then something, `disabled` and a zero, in this order. -/
def Counts (line word : List Char) : Prop := ∃ before gap later after, gap ≠ [] ∧
  line = before ++ word ++ (gap ++ "disabled".toList ++ (later ++ '0' :: after))

/-- The first occurrences leave the most for the rest. -/
theorem countedBy_iff (line word : List Char) : countedBy line word = true ↔ Counts line word := by
  constructor
  · intro h
    unfold countedBy at h
    split at h
    · cases h
    · rename_i before rest hword
      split at h
      · rename_i c d cs
        split at h
        · cases h
        · rename_i gap tail hdisabled
          obtain ⟨later, after, rfl⟩ := List.append_of_mem (List.contains_iff_mem.mp h)
          refine ⟨before, c :: gap, later, after, nofun, ?_⟩
          rw [splitOnce_eq hword, splitOnce_eq hdisabled]
          rfl
      · cases h
  · rintro ⟨before, gap, later, after, hgap, rfl⟩
    obtain ⟨before', rest, hword, x, hx⟩ := splitOnce_first word before (gap ++ "disabled".toList ++ (later ++ '0' :: after))
    obtain ⟨c, y, hy⟩ : ∃ c y, x ++ gap = c :: y := List.exists_cons_of_ne_nil (by simp [hgap])
    have hrest : rest = c :: (y ++ "disabled".toList ++ (later ++ '0' :: after)) := by
      rw [← hx, List.append_assoc gap, ← List.append_assoc x, hy]
      simp
    obtain ⟨gap', tail, hdisabled, z, hz⟩ := splitOnce_first "disabled".toList y (later ++ '0' :: after)
    obtain ⟨d, cs, hcs⟩ : ∃ d cs, y ++ "disabled".toList ++ (later ++ '0' :: after) = d :: cs :=
      List.exists_cons_of_ne_nil (by simp)
    have hzero : '0' ∈ tail := by
      rw [← hz]
      simp
    rw [hcs] at hrest hdisabled
    unfold countedBy
    rw [hword]
    dsimp only
    rw [hrest]
    dsimp only
    rw [hdisabled]
    exact List.contains_iff_mem.mpr hzero

/-- A branch of the pattern finds its word, something, `disabled` and a zero. -/
theorem finds_branch (line word : List Char) : (Regex.word word (.seq (.star .any) (.seq .any (Regex.word "disabled".toList
    (.seq (.star .any) (.seq (.char '0') .empty)))))).Finds line ↔ Counts line word := by
  constructor
  · rintro ⟨before, u, after, rfl, hword⟩
    obtain ⟨_, rfl, hgap⟩ := Regex.matches_word.mp hword
    obtain ⟨gap, _, rfl, -, hone⟩ := Regex.matches_seq.mp hgap
    obtain ⟨_, _, rfl, hany, hdisabled⟩ := Regex.matches_seq.mp hone
    obtain ⟨c, rfl⟩ := Regex.matches_any.mp hany
    obtain ⟨_, rfl, hlater⟩ := Regex.matches_word.mp hdisabled
    obtain ⟨later, _, rfl, -, hzero⟩ := Regex.matches_seq.mp hlater
    obtain ⟨_, _, rfl, ⟨⟩, ⟨⟩⟩ := Regex.matches_seq.mp hzero
    exact ⟨before, gap ++ [c], later, after, by simp, by simp⟩
  · rintro ⟨before, gap, later, after, hgap, rfl⟩
    refine ⟨before, word ++ (gap ++ "disabled".toList ++ (later ++ ['0'])), after, by simp, ?_⟩
    refine Regex.matches_word.mpr ⟨_, rfl, ?_⟩
    rw [← List.dropLast_append_getLast hgap, List.append_assoc, List.append_assoc]
    refine .seq (Regex.matches_star_any _) (.seq (.any _) (Regex.matches_word.mpr ⟨_, rfl, ?_⟩))
    exact .seq (Regex.matches_star_any _) (.seq (.char '0') .empty)

/-- The lines that count are the ones in which the script's pattern is found. -/
theorem counted_iff (line : List Char) : countedByScript line = true ↔ scriptPattern.Finds line := by
  have hmain := finds_branch line "main".toList
  have hguest := finds_branch line "guest".toList
  unfold scriptPattern countedByScript
  rw [Regex.finds_alt, List.any_cons, List.any_cons, List.any_nil, Bool.or_false, Bool.or_eq_true, countedBy_iff, countedBy_iff]
  exact or_congr hmain.symm hguest.symm

/-- What uci writes is read back section by section, a key has the value given last, and the lines counted are those
    in which the script's pattern is found. -/
theorem uci_reading (sections : List Section) (h : ∀ s ∈ sections, s.Writable) (s : Section) (key line : List Char) :
    parseUci (written sections) = sections ∧ s.get key = ((s.options.filter (·.1 = key)).getLast?).map (·.2) ∧
      (countedByScript line = true ↔ scriptPattern.Finds line) :=
  ⟨parse_written h, get_last s key, counted_iff line⟩

/-- An anonymous section with a quote in a value. -/
theorem quote_read : parseUci (written [⟨"wifi-iface".toList, none, [("ssid".toList, "Bob's".toList)]⟩]) =
    [⟨"wifi-iface".toList, none, [("ssid".toList, "Bob's".toList)]⟩] := by
  refine (uci_reading _ (fun s hs => ?_) ⟨[], none, []⟩ [] []).1
  rw [List.mem_singleton.mp hs]
  refine ⟨.of_all (by decide) rfl, nofun, fun o ho => ?_⟩
  rw [List.mem_singleton.mp ho]
  exact ⟨.of_all (by decide) rfl, by decide⟩

end OpenU60.WifiWatchdog
