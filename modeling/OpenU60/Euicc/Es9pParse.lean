/-
  OpenU60.Euicc.Es9pParse — the ES9+ JSON reader's walk over containers (`euicc/src/es9p.rs`: `parse`,
  `Frame`, `Json`), and the recursive grammar it stands for.

  The containers that are open are a stack of frames; a step reads one value, or hands a finished one to
  the frame on top. Objects are kept down to `keepDepth` (`prune`), everything else but strings is
  checked and dropped.
  - `reaches_of_value`: what the grammar derives, the frames walk through;
  - `sound`: what the frames walk through, the grammar derives, and nothing below the value is touched;
  - `parse_iff`: the two agree, on every text and the value of it.
-/

import Mathlib
import OpenU60.Euicc.Es9pText

namespace OpenU60.Euicc.Es9p

open OpenU60.Euicc.Der (Bytes)

/-- A parsed value, keeping what ES9+ reads. -/
inductive Json where
  | str (v : Bytes)
  /-- Members in document order, duplicates included. -/
  | obj (members : List (Bytes × Json))
  /-- null, booleans, numbers, arrays, and objects nested too deep. -/
  | other

def nestingLimit : Nat := 1000
def keepDepth : Nat := 4

/-- The bytes before the first NUL. -/
def cBytes (s : Bytes) : Bytes := s.takeWhile (· ≠ 0)

def skipWhitespace (s : Bytes) : Bytes := s.dropWhile (· ≤ 32)

def comma : UInt8 := 0x2C
def colon : UInt8 := 0x3A
def openArray : UInt8 := 0x5B
def closeArray : UInt8 := 0x5D
def openObject : UInt8 := 0x7B
def closeObject : UInt8 := 0x7D

/-- `null`, `true` and `false`. -/
def literals : List Bytes := [[0x6E, 0x75, 0x6C, 0x6C], [0x66, 0x61, 0x6C, 0x73, 0x65], [0x74, 0x72, 0x75, 0x65]]

/-- A member name, the `:` after it and the whitespace before the value. -/
def memberName (s : Bytes) : Option (Bytes × Bytes) :=
  if s.head? = some quote then
    (string s).bind fun (name, rest) =>
      let rest := skipWhitespace rest
      if rest.head? = some colon then some (name, skipWhitespace rest.tail) else none
  else none

/-! ## Frames -/

inductive Frame where
  | array
  /-- Members so far (`none` when the object is not kept), and the name of the one whose value is read. -/
  | object (members : Option (List (Bytes × Json))) (name : Bytes)

inductive State where
  /-- A value starts here. -/
  | value (s : Bytes) (stack : List Frame)
  /-- A value ends here. -/
  | handed (v : Json) (s : Bytes) (stack : List Frame)
  | done (result : Option Json)

namespace State

/-- One value starts at `s`, or a container that holds values. -/
def start (s : Bytes) (stack : List Frame) : State :=
  match s with
  | [] => done none
  | b :: rest =>
    match literals.find? (·.isPrefixOf s) with
    | some word => handed .other (s.drop word.length) stack
    | none =>
      if b = quote then
        match string s with
        | some (v, rest) => handed (.str v) rest stack
        | none => done none
      else if b = 0x2D ∨ isDigit b then
        match number s with
        | some rest => handed .other rest stack
        | none => done none
      else if b = openArray then
        if nestingLimit ≤ stack.length then done none
        else if (skipWhitespace rest).head? = some closeArray then handed .other (skipWhitespace rest).tail stack
        else value (skipWhitespace rest) (.array :: stack)
      else if b = openObject then
        if nestingLimit ≤ stack.length then done none
        else
          let keep := stack.length < keepDepth
          if (skipWhitespace rest).head? = some closeObject then handed (if keep then .obj [] else .other) (skipWhitespace rest).tail stack
          else
            match memberName (skipWhitespace rest) with
            | some (name, rest) => value rest (.object (if keep then some [] else none) name :: stack)
            | none => done none
      else done none

/-- The finished value goes to its container; the container goes on, or ends here. -/
def hand (v : Json) (s : Bytes) (stack : List Frame) : State :=
  let rest := skipWhitespace s
  match stack with
  | [] => done (some v)
  | .array :: stack =>
    if rest.head? = some comma then value (skipWhitespace rest.tail) (.array :: stack)
    else if rest.head? = some closeArray then handed .other rest.tail stack
    else done none
  | .object members name :: stack =>
    let members := members.map (· ++ [(name, v)])
    if rest.head? = some comma then
      match memberName (skipWhitespace rest.tail) with
      | some (name, rest) => value rest (.object members name :: stack)
      | none => done none
    else if rest.head? = some closeObject then
      handed (match members with | some members => .obj members | none => .other) rest.tail stack
    else done none

def step : State → State
  | value s stack => start s stack
  | handed v s stack => hand v s stack
  | done result => done result

end State

/-- A UTF-8 byte order mark is skipped. -/
def dropBom (s : Bytes) : Bytes := if [0xEF, 0xBB, 0xBF].isPrefixOf s then s.drop 3 else s

/-- The first value of the text, which ends at the first NUL. -/
def text (input : Bytes) : Bytes := skipWhitespace (dropBom (cBytes input))

/-- Every step takes a byte at least, or is the last. -/
def parse (input : Bytes) : Option Json :=
  match State.step^[(text input).length + 1] (.value (text input) []) with
  | .done result => result
  | _ => none

/-! ## The grammar -/

/-- A value, with all that it holds. -/
inductive Tree where
  | scalar
  | str (v : Bytes)
  | arr (items : List Tree)
  | obj (members : List (Bytes × Tree))

/-- A name, the `:` after it and the whitespace before the value. -/
def Name (s name rest : Bytes) : Prop := ∃ r r', StringLit s name r ∧ skipWhitespace r = colon :: r' ∧ rest = skipWhitespace r'

mutual

/-- A value inside `depth` containers, and what follows it. -/
inductive Value : Nat → Bytes → Tree → Bytes → Prop
  | literal {depth : Nat} {word r : Bytes} : word ∈ literals → Value depth (word ++ r) .scalar r
  | number {depth : Nat} {b : UInt8} {s r : Bytes} : b = 0x2D ∨ isDigit b → Numeral (b :: s) r → Value depth (b :: s) .scalar r
  | string {depth : Nat} {s v r : Bytes} : StringLit s v r → Value depth s (.str v) r
  | emptyArray {depth : Nat} {s r : Bytes} : depth < nestingLimit → skipWhitespace s = closeArray :: r → Value depth (openArray :: s) (.arr []) r
  | array {depth : Nat} {s r : Bytes} {items : List Tree} : depth < nestingLimit → Elements (depth + 1) (skipWhitespace s) items r →
      Value depth (openArray :: s) (.arr items) r
  | emptyObject {depth : Nat} {s r : Bytes} : depth < nestingLimit → skipWhitespace s = closeObject :: r → Value depth (openObject :: s) (.obj []) r
  | object {depth : Nat} {s r : Bytes} {members : List (Bytes × Tree)} : depth < nestingLimit →
      Members (depth + 1) (skipWhitespace s) members r → Value depth (openObject :: s) (.obj members) r

/-- The items of an array up to its end. -/
inductive Elements : Nat → Bytes → List Tree → Bytes → Prop
  | last {depth : Nat} {s r r' : Bytes} {t : Tree} : Value depth s t r → skipWhitespace r = closeArray :: r' → Elements depth s [t] r'
  | more {depth : Nat} {s r r' r'' : Bytes} {t : Tree} {items : List Tree} : Value depth s t r → skipWhitespace r = comma :: r' →
      Elements depth (skipWhitespace r') items r'' → Elements depth s (t :: items) r''

/-- The members of an object up to its end. -/
inductive Members : Nat → Bytes → List (Bytes × Tree) → Bytes → Prop
  | last {depth : Nat} {s name s' r r' : Bytes} {t : Tree} : Name s name s' → Value depth s' t r → skipWhitespace r = closeObject :: r' →
      Members depth s [(name, t)] r'
  | more {depth : Nat} {s name s' r r' r'' : Bytes} {t : Tree} {members : List (Bytes × Tree)} : Name s name s' → Value depth s' t r →
      skipWhitespace r = comma :: r' → Members depth (skipWhitespace r') members r'' → Members depth s ((name, t) :: members) r''

end

mutual

/-- What is kept of a value inside `depth` containers. -/
def prune : Nat → Tree → Json
  | _, .scalar => .other
  | _, .str v => .str v
  | _, .arr _ => .other
  | depth, .obj members => if depth < keepDepth then .obj (pruneMembers (depth + 1) members) else .other

def pruneMembers : Nat → List (Bytes × Tree) → List (Bytes × Json)
  | _, [] => []
  | depth, (name, t) :: members => (name, prune depth t) :: pruneMembers depth members

end

/-- A text the grammar derives, whatever follows the value. -/
def Text (input : Bytes) (t : Tree) : Prop := ∃ r, Value 0 (text input) t r

/-! ## Every step reads on -/

variable {s r v name : Bytes} {stack : List Frame}

theorem skipWhitespace_le (s : Bytes) : (skipWhitespace s).length ≤ s.length := (List.dropWhile_suffix _).length_le

theorem string_lt (h : string s = some (v, r)) : r.length < s.length := by
  unfold string at h
  obtain ⟨length, hclosing, hrest⟩ := Option.bind_eq_some_iff.mp h
  obtain ⟨out, -, heq⟩ := Option.map_eq_some_iff.mp hrest
  obtain ⟨content, r', hs, rfl, -⟩ := content_of_closing hclosing
  have hr : s.tail.drop (content.length + 1) = r := (Prod.mk.inj heq).2
  have hlength := congrArg List.length hs
  rw [List.length_tail, List.length_append, List.length_cons] at hlength
  rw [← hr, List.length_drop, List.length_tail]
  omega

theorem number_lt (h : number s = some r) : r.length < s.length := by
  obtain ⟨t, rfl, ht, -⟩ := (number_iff s r).mp h
  have := ht.length_pos
  rw [List.length_append]
  omega

theorem memberName_lt (h : memberName s = some (name, r)) : r.length < s.length := by
  unfold memberName at h
  split at h
  · obtain ⟨⟨name', rest⟩, hstring, hrest⟩ := Option.bind_eq_some_iff.mp h
    dsimp only at hrest
    split at hrest
    · cases hrest
      have h1 := string_lt hstring
      have h2 := skipWhitespace_le rest
      have h3 := skipWhitespace_le (skipWhitespace rest).tail
      rw [List.length_tail] at h3
      omega
    · cases hrest
  · cases h

theorem literals_pos {word : Bytes} (h : word ∈ literals) : 0 < word.length := by
  unfold literals at h
  rcases List.mem_cons.mp h with rfl | h
  · exact Nat.succ_pos _
  rcases List.mem_cons.mp h with rfl | h
  · exact Nat.succ_pos _
  rw [List.mem_singleton.mp h]
  exact Nat.succ_pos _

namespace State

/-- Bytes left to read. -/
def left : State → Nat
  | value s _ | handed _ s _ => s.length
  | done _ => 0

/-- The walk is over, or there is less to read. -/
def Less (st : State) (n : Nat) : Prop := (∃ result, st = done result) ∨ st.left < n

theorem start_less (s : Bytes) (stack : List Frame) : (start s stack).Less s.length := by
  unfold start
  cases s with
  | nil => exact .inl ⟨none, rfl⟩
  | cons b rest =>
    have hskip := skipWhitespace_le rest
    dsimp only
    split
    · rename_i word hword
      have hpos := literals_pos (List.mem_of_find?_eq_some hword)
      refine .inr ?_
      show ((b :: rest).drop word.length).length < (b :: rest).length
      rw [List.length_drop, List.length_cons]
      omega
    · split
      · split
        · rename_i hstring
          exact .inr (string_lt hstring)
        · exact .inl ⟨none, rfl⟩
      · split
        · split
          · rename_i hnumber
            exact .inr (number_lt hnumber)
          · exact .inl ⟨none, rfl⟩
        · split
          · split
            · exact .inl ⟨none, rfl⟩
            · split
              · refine .inr ?_
                show (skipWhitespace rest).tail.length < rest.length + 1
                rw [List.length_tail]
                omega
              · exact .inr (Nat.lt_succ_of_le hskip)
          · split
            · split
              · exact .inl ⟨none, rfl⟩
              · split
                · refine .inr ?_
                  show (skipWhitespace rest).tail.length < rest.length + 1
                  rw [List.length_tail]
                  omega
                · split
                  · rename_i hname
                    have := memberName_lt hname
                    exact .inr (Nat.lt_of_lt_of_le this (Nat.le_succ_of_le hskip))
                  · exact .inl ⟨none, rfl⟩
            · exact .inl ⟨none, rfl⟩

theorem hand_less (v : Json) (s : Bytes) (stack : List Frame) : (hand v s stack).Less s.length := by
  have hskip := skipWhitespace_le s
  have htail : ∀ {b : UInt8}, (skipWhitespace s).head? = some b → (skipWhitespace s).tail.length < s.length := by
    intro b hb
    cases hs : skipWhitespace s with
    | nil =>
      rw [hs] at hb
      cases hb
    | cons c r =>
      rw [hs, List.length_cons] at hskip
      exact hskip
  unfold hand
  dsimp only
  split
  · exact .inl ⟨some v, rfl⟩
  · split
    · rename_i hcomma
      exact .inr (Nat.lt_of_le_of_lt (skipWhitespace_le _) (htail hcomma))
    · split
      · rename_i hclose
        exact .inr (htail hclose)
      · exact .inl ⟨none, rfl⟩
  · split
    · rename_i hcomma
      split
      · rename_i hname
        exact .inr (Nat.lt_trans (memberName_lt hname) (Nat.lt_of_le_of_lt (skipWhitespace_le _) (htail hcomma)))
      · exact .inl ⟨none, rfl⟩
    · split
      · rename_i hclose
        exact .inr (htail hclose)
      · exact .inl ⟨none, rfl⟩

theorem iterate_done (n : Nat) (result : Option Json) : step^[n] (done result) = done result := by
  induction n with
  | zero => rfl
  | succ n ih => rw [Function.iterate_succ_apply]; exact ih

/-- The walk ends before it has taken more steps than there are bytes. -/
theorem walk_ends {n : Nat} {st : State} (h : st.left < n) : ∃ result, step^[n] st = done result := by
  induction n generalizing st with
  | zero => exact absurd h (Nat.not_lt_zero _)
  | succ n ih =>
    have hless : (step st).Less st.left := by
      cases st with
      | value s stack => exact start_less s stack
      | handed v s stack => exact hand_less v s stack
      | done result => exact .inl ⟨result, rfl⟩
    rw [Function.iterate_succ_apply]
    rcases hless with ⟨result, hdone⟩ | hless
    · rw [hdone]
      exact ⟨result, iterate_done n result⟩
    · exact ih (Nat.lt_of_lt_of_le hless (Nat.le_of_lt_succ h))

/-- Some steps of the walk lead there. -/
def Reaches (st st' : State) : Prop := ∃ n, step^[n] st = st'

theorem Reaches.step {st : State} : Reaches st st.step := ⟨1, rfl⟩

theorem Reaches.trans {st st' st'' : State} (h : Reaches st st') (h' : Reaches st' st'') : Reaches st st'' := by
  obtain ⟨n, rfl⟩ := h
  obtain ⟨m, rfl⟩ := h'
  exact ⟨m + n, Function.iterate_add_apply ..⟩

theorem Reaches.of_step {st st' st'' : State} (h : st.step = st') (h' : Reaches st' st'') : Reaches st st'' := by
  rw [← h] at h'
  exact Reaches.step.trans h'

end State

/-! ## What starts how -/

theorem memberName_iff {rest : Bytes} : memberName s = some (name, rest) ↔ Name s name rest := by
  unfold memberName Name
  constructor
  · intro h
    split at h
    · rename_i hs
      obtain ⟨⟨name', r⟩, hstring, hrest⟩ := Option.bind_eq_some_iff.mp h
      dsimp only at hrest
      split at hrest
      · rename_i hcolon
        cases hrest
        refine ⟨r, (skipWhitespace r).tail, (string_iff hs).mp hstring, ?_, rfl⟩
        exact (List.cons_head?_tail hcolon).symm
      · cases hrest
    · cases h
  · rintro ⟨r, r', hlit, hcolon, rfl⟩
    have hs : s.head? = some quote := by
      obtain ⟨content, rfl, -⟩ := hlit
      rfl
    rw [if_pos hs, (string_iff hs).mpr hlit, Option.bind_some]
    dsimp only
    rw [hcolon, List.head?_cons, if_pos rfl]
    rfl

/-- No literal starts like this. -/
theorem find_literal {b : UInt8} (hn : b ≠ 0x6E) (hf : b ≠ 0x66) (ht : b ≠ 0x74) (rest : Bytes) :
    literals.find? (·.isPrefixOf (b :: rest)) = none := by
  refine List.find?_eq_none.mpr fun word hword => ?_
  unfold literals at hword
  simp only [List.mem_cons, List.not_mem_nil, or_false] at hword
  rcases hword with rfl | rfl | rfl <;> simp [hn.symm, hf.symm, ht.symm]

theorem start_literal {word : Bytes} (h : word ∈ literals) (r : Bytes) (stack : List Frame) :
    State.start (word ++ r) stack = .handed .other r stack := by
  unfold literals at h
  simp only [List.mem_cons, List.not_mem_nil, or_false] at h
  rcases h with rfl | rfl | rfl <;> rfl

theorem start_string (h : StringLit s v r) (stack : List Frame) : State.start s stack = .handed (.str v) r stack := by
  have hs : s.head? = some quote := by
    obtain ⟨content, rfl, -⟩ := h
    rfl
  have hstring := (string_iff hs).mpr h
  obtain ⟨content, rfl, -⟩ := h
  unfold State.start
  dsimp only
  rw [find_literal (by decide) (by decide) (by decide)]
  dsimp only
  rw [if_pos rfl, hstring]

/-- How a number starts nothing else does. -/
theorem number_head {b : UInt8} (h : b = 0x2D ∨ isDigit b = true) :
    b ≠ 0x6E ∧ b ≠ 0x66 ∧ b ≠ 0x74 ∧ b ≠ quote ∧ b ≠ openArray ∧ b ≠ openObject ∧ b ≠ closeArray := by
  rcases h with rfl | h
  · decide
  · refine ⟨?_, ?_, ?_, ?_, ?_, ?_, ?_⟩ <;> rintro rfl <;> cases h

theorem start_number {b : UInt8} (hb : b = 0x2D ∨ isDigit b) (h : Numeral (b :: s) r) (stack : List Frame) :
    State.start (b :: s) stack = .handed .other r stack := by
  obtain ⟨hn, hf, ht, hq, -⟩ := number_head hb
  unfold State.start
  dsimp only
  rw [find_literal hn hf ht]
  dsimp only
  rw [if_neg hq, if_pos hb, (number_iff _ _).mpr h]

theorem start_array (s : Bytes) (stack : List Frame) : State.start (openArray :: s) stack =
    if nestingLimit ≤ stack.length then .done none
    else if (skipWhitespace s).head? = some closeArray then .handed .other (skipWhitespace s).tail stack
    else .value (skipWhitespace s) (.array :: stack) := by
  unfold State.start
  dsimp only
  rw [find_literal (by decide) (by decide) (by decide)]
  rfl

theorem start_object (s : Bytes) (stack : List Frame) : State.start (openObject :: s) stack =
    if nestingLimit ≤ stack.length then .done none
    else if (skipWhitespace s).head? = some closeObject then
      .handed (if stack.length < keepDepth then .obj [] else .other) (skipWhitespace s).tail stack
    else
      match memberName (skipWhitespace s) with
      | some (name, rest) => .value rest (.object (if stack.length < keepDepth then some [] else none) name :: stack)
      | none => .done none := by
  unfold State.start
  dsimp only
  rw [find_literal (by decide) (by decide) (by decide)]
  rfl

theorem Value.head {depth : Nat} {t : Tree} (h : Value depth s t r) : s.head? ≠ some closeArray := by
  cases h with
  | literal hword =>
    unfold literals at hword
    simp only [List.mem_cons, List.not_mem_nil, or_false] at hword
    rcases hword with rfl | rfl | rfl <;> exact fun h => absurd (Option.some.inj h) (by decide)
  | number hb => exact fun h => (number_head hb).2.2.2.2.2.2 (Option.some.inj h)
  | string hlit =>
    obtain ⟨content, rfl, -⟩ := hlit
    exact fun h => absurd (Option.some.inj h) (by decide)
  | emptyArray => exact fun h => absurd (Option.some.inj h) (by decide)
  | array => exact fun h => absurd (Option.some.inj h) (by decide)
  | emptyObject => exact fun h => absurd (Option.some.inj h) (by decide)
  | object => exact fun h => absurd (Option.some.inj h) (by decide)

theorem Elements.head {depth : Nat} {items : List Tree} (h : Elements depth s items r) : s.head? ≠ some closeArray := by
  cases h with
  | last hvalue => exact hvalue.head
  | more hvalue => exact hvalue.head

theorem Name.head {rest : Bytes} (h : Name s name rest) : s.head? = some quote := by
  obtain ⟨-, -, ⟨content, rfl, -⟩, -⟩ := h
  rfl

/-- An object's value when its members so far were kept, or not. -/
def finished (members : Option (List (Bytes × Json))) (more : List (Bytes × Json)) : Json :=
  match members with
  | some members => .obj (members ++ more)
  | none => .other

section

variable {v : Json} {members : Option (List (Bytes × Json))}

theorem hand_item (h : skipWhitespace s = comma :: r) : State.hand v s (.array :: stack) = .value (skipWhitespace r) (.array :: stack) := by
  unfold State.hand
  dsimp only
  rw [h]
  exact if_pos rfl

theorem hand_array (h : skipWhitespace s = closeArray :: r) : State.hand v s (.array :: stack) = .handed .other r stack := by
  unfold State.hand
  dsimp only
  rw [h]
  exact (if_neg fun h => absurd (Option.some.inj h) (by decide)).trans (if_pos rfl)

theorem hand_member (h : skipWhitespace s = comma :: r) {name' rest : Bytes} (hname : memberName (skipWhitespace r) = some (name', rest)) :
    State.hand v s (.object members name :: stack) = .value rest (.object (members.map (· ++ [(name, v)])) name' :: stack) := by
  unfold State.hand
  dsimp only
  rw [h, List.tail_cons, hname]
  exact if_pos rfl

theorem hand_object (h : skipWhitespace s = closeObject :: r) :
    State.hand v s (.object members name :: stack) = .handed (finished members [(name, v)]) r stack := by
  unfold State.hand
  dsimp only
  rw [h]
  refine ((if_neg fun h => absurd (Option.some.inj h) (by decide)).trans (if_pos rfl)).trans ?_
  cases members <;> rfl

theorem finished_append (members : Option (List (Bytes × Json))) (a b : List (Bytes × Json)) :
    finished (members.map (· ++ a)) b = finished members (a ++ b) := by
  cases members with
  | none => rfl
  | some members => exact congrArg Json.obj (List.append_assoc ..)

end

/-! ## What the grammar derives is walked through -/

def ReachValue (depth : Nat) (s : Bytes) (t : Tree) (r : Bytes) : Prop := ∀ stack : List Frame, stack.length = depth →
  State.Reaches (.value s stack) (.handed (prune depth t) r stack)

def ReachElements (depth : Nat) (s : Bytes) (_ : List Tree) (r : Bytes) : Prop := ∀ stack : List Frame, stack.length + 1 = depth →
  State.Reaches (.value s (.array :: stack)) (.handed .other r stack)

def ReachMembers (depth : Nat) (s : Bytes) (members : List (Bytes × Tree)) (r : Bytes) : Prop :=
  ∀ (stack : List Frame) (kept : Option (List (Bytes × Json))), stack.length + 1 = depth → ∃ name rest, memberName s = some (name, rest) ∧
    State.Reaches (.value rest (.object kept name :: stack)) (.handed (finished kept (pruneMembers depth members)) r stack)

theorem reach_array {depth : Nat} {items : List Tree} (hlimit : depth < nestingLimit) (hhead : (skipWhitespace s).head? ≠ some closeArray)
    (ih : ReachElements (depth + 1) (skipWhitespace s) items r) : ReachValue depth (openArray :: s) (.arr items) r := by
  intro stack hdepth
  rw [prune]
  refine .of_step ((start_array s stack).trans ?_) (ih stack (by rw [hdepth]))
  rw [if_neg (by omega), if_neg hhead]

theorem reach_object {depth : Nat} {members : List (Bytes × Tree)} (hlimit : depth < nestingLimit)
    (ih : ReachMembers (depth + 1) (skipWhitespace s) members r) : ReachValue depth (openObject :: s) (.obj members) r := by
  intro stack hdepth
  obtain ⟨name, rest, hname, hreach⟩ := ih stack (if stack.length < keepDepth then some [] else none) (by rw [hdepth])
  have hhead : (skipWhitespace s).head? ≠ some closeObject := by
    rw [(memberName_iff.mp hname).head]
    exact fun h => absurd (Option.some.inj h) (by decide)
  have hfinished : finished (if stack.length < keepDepth then some [] else none) (pruneMembers (depth + 1) members) = prune depth (.obj members) := by
    rw [prune, hdepth]
    split <;> rfl
  rw [← hfinished]
  refine .of_step ((start_object s stack).trans ?_) hreach
  rw [if_neg (by omega), if_neg hhead, hname]

theorem reach_more {depth : Nat} {s s' name r r' r'' : Bytes} {t : Tree} {members : List (Bytes × Tree)} (hname : Name s name s')
    (hcomma : skipWhitespace r = comma :: r') (hvalue : ReachValue depth s' t r) (ih : ReachMembers depth (skipWhitespace r') members r'') :
    ReachMembers depth s ((name, t) :: members) r'' := by
  intro stack kept hdepth
  refine ⟨name, s', memberName_iff.mpr hname, ?_⟩
  obtain ⟨name', rest', hname', hreach⟩ := ih stack (kept.map (· ++ [(name, prune depth t)])) hdepth
  rw [finished_append] at hreach
  rw [pruneMembers]
  exact (hvalue (.object kept name :: stack) hdepth).trans (.of_step (hand_member hcomma hname') hreach)

/-- By induction on the derivation, over values, items and members at once. -/
theorem reaches_of_value {depth : Nat} {s r : Bytes} {t : Tree} (h : Value depth s t r) : ReachValue depth s t r := by
  refine @Value.rec (fun depth s t r _ => ReachValue depth s t r) (fun depth s items r _ => ReachElements depth s items r)
    (fun depth s members r _ => ReachMembers depth s members r) ?_ ?_ ?_ ?_ ?_ ?_ ?_ ?_ ?_ ?_ ?_ depth s t r h
  · intro depth word r hword stack _
    exact .of_step (start_literal hword r stack) ⟨0, by rw [prune]; rfl⟩
  · intro depth b s r hb hnum stack _
    exact .of_step (start_number hb hnum stack) ⟨0, by rw [prune]; rfl⟩
  · intro depth s v r hlit stack _
    exact .of_step (start_string hlit stack) ⟨0, by rw [prune]; rfl⟩
  · intro depth s r hlimit hclose stack hdepth
    refine .of_step ((start_array s stack).trans ?_) ⟨0, by rw [prune]; rfl⟩
    rw [if_neg (by omega), hclose]
    exact if_pos rfl
  · intro depth s r items hlimit hitems ih
    exact reach_array hlimit hitems.head ih
  · intro depth s r hlimit hclose stack hdepth
    rw [prune, ← hdepth]
    refine .of_step ((start_object s stack).trans ?_) ⟨0, rfl⟩
    rw [if_neg (by omega), hclose]
    exact if_pos rfl
  · intro depth s r members hlimit _ ih
    exact reach_object hlimit ih
  · intro depth s r r' t _ hclose hvalue stack hdepth
    have hstep : State.hand (prune depth t) r (.array :: stack) = .handed .other r' stack := hand_array hclose
    exact (hvalue (.array :: stack) hdepth).trans (.of_step hstep ⟨0, rfl⟩)
  · intro depth s r r' r'' t items _ hcomma _ hvalue ih stack hdepth
    have hstep : State.hand (prune depth t) r (.array :: stack) = .value (skipWhitespace r') (.array :: stack) := hand_item hcomma
    exact (hvalue (.array :: stack) hdepth).trans (.of_step hstep (ih stack hdepth))
  · intro depth s name s' r r' t hname _ hclose hvalue stack kept hdepth
    refine ⟨name, s', memberName_iff.mpr hname, ?_⟩
    rw [pruneMembers, pruneMembers]
    exact (hvalue (.object kept name :: stack) hdepth).trans (.of_step (hand_object hclose) ⟨0, rfl⟩)
  · intro depth s name s' r r' r'' t members hname _ hcomma _ hvalue ih
    exact reach_more hname hcomma hvalue ih

/-! ## What is walked through the grammar derives -/

/-- The walk from a state ends with a value after so many steps. -/
def Ends (n : Nat) (st : State) (j : Json) : Prop := State.step^[n] st = .done (some j)

theorem Ends.succ {n : Nat} {st : State} {j : Json} (h : Ends n st j) (hst : ∀ result, st ≠ .done result) : ∃ m, n = m + 1 ∧ Ends m st.step j := by
  cases n with
  | zero => exact absurd h (hst _)
  | succ n => exact ⟨n, rfl, h⟩

theorem not_ends_none {n : Nat} {j : Json} : ¬ Ends n (.done none) j := by
  intro h
  unfold Ends at h
  rw [State.iterate_done] at h
  cases h

/-- A walk of `n` steps from a value: the value is derived, and the walk goes on behind it. -/
def SoundValue (n : Nat) : Prop := ∀ s stack j, Ends n (.value s stack) j →
  ∃ t r m, m < n ∧ Value stack.length s t r ∧ Ends m (.handed (prune stack.length t) r stack) j

def SoundElements (n : Nat) : Prop := ∀ s stack j, Ends n (.value s (.array :: stack)) j →
  ∃ items r m, m < n ∧ Elements (stack.length + 1) s items r ∧ Ends m (.handed .other r stack) j

/-- And for an object whose next name was read. -/
def SoundMembers (n : Nat) : Prop := ∀ kept name s stack j, Ends n (.value s (.object kept name :: stack)) j →
  ∃ members r m, m < n ∧ (∀ s', Name s' name s → Members (stack.length + 1) s' members r) ∧
    Ends m (.handed (finished kept (pruneMembers (stack.length + 1) members)) r stack) j

theorem sound_value {n : Nat} (helements : ∀ m < n, SoundElements m) (hmembers : ∀ m < n, SoundMembers m) : SoundValue n := by
  intro s stack j h
  obtain ⟨m, rfl, hstep⟩ := h.succ nofun
  have hm : Ends m (State.start s stack) j := hstep
  clear h hstep
  cases s with
  | nil => exact absurd hm not_ends_none
  | cons b rest =>
    unfold State.start at hm
    dsimp only at hm
    split at hm
    · rename_i word hword
      have hin := List.mem_of_find?_eq_some hword
      have hprefix : word <+: b :: rest := List.isPrefixOf_iff_prefix.mp (by simpa using List.find?_some hword)
      obtain ⟨r, hr⟩ := hprefix
      rw [← hr, List.drop_left] at hm
      rw [← hr]
      exact ⟨.scalar, r, m, Nat.lt_succ_self m, .literal hin, by rw [prune]; exact hm⟩
    · split at hm
      · rename_i hq
        subst hq
        split at hm
        · rename_i v r hstring
          exact ⟨.str v, r, m, Nat.lt_succ_self m, .string ((string_iff rfl).mp hstring), by rw [prune]; exact hm⟩
        · exact absurd hm not_ends_none
      · split at hm
        · rename_i hb
          split at hm
          · rename_i r hnumber
            exact ⟨.scalar, r, m, Nat.lt_succ_self m, .number hb ((number_iff _ _).mp hnumber), by rw [prune]; exact hm⟩
          · exact absurd hm not_ends_none
        · split at hm
          · rename_i hopen
            subst hopen
            split at hm
            · exact absurd hm not_ends_none
            · rename_i hlimit
              split at hm
              · rename_i hclose
                exact ⟨.arr [], _, m, Nat.lt_succ_self m, .emptyArray (Nat.lt_of_not_le hlimit) (List.cons_head?_tail hclose).symm, by
                  rw [prune]
                  exact hm⟩
              · obtain ⟨items, r, k, hk, hitems, hends⟩ := helements m (Nat.lt_succ_self m) _ _ _ hm
                exact ⟨.arr items, r, k, Nat.lt_succ_of_lt hk, .array (Nat.lt_of_not_le hlimit) hitems, by
                  rw [prune]
                  exact hends⟩
          · split at hm
            · rename_i hopen
              subst hopen
              split at hm
              · exact absurd hm not_ends_none
              · rename_i hlimit
                split at hm
                · rename_i hclose
                  refine ⟨.obj [], _, m, Nat.lt_succ_self m, .emptyObject (Nat.lt_of_not_le hlimit) (List.cons_head?_tail hclose).symm, ?_⟩
                  rw [prune]
                  exact hm
                · split at hm
                  · rename_i name rest' hname
                    obtain ⟨members, r, k, hk, hderives, hends⟩ := hmembers m (Nat.lt_succ_self m) _ _ _ _ _ hm
                    refine ⟨.obj members, r, k, Nat.lt_succ_of_lt hk,
                      .object (Nat.lt_of_not_le hlimit) (hderives _ (memberName_iff.mp hname)), ?_⟩
                    have hfinished : finished (if stack.length < keepDepth then some [] else none) (pruneMembers (stack.length + 1) members) =
                        prune stack.length (.obj members) := by
                      rw [prune]
                      split <;> rfl
                    rw [← hfinished]
                    exact hends
                  · exact absurd hm not_ends_none
            · exact absurd hm not_ends_none

theorem sound_elements {n : Nat} (hvalue : SoundValue n) (helements : ∀ m < n, SoundElements m) : SoundElements n := by
  intro s stack j h
  obtain ⟨t, r, m, hm, hderives, hends⟩ := hvalue s (.array :: stack) j h
  obtain ⟨k, rfl, hstep⟩ := hends.succ nofun
  have hk : Ends k (State.hand (prune (stack.length + 1) t) r (.array :: stack)) j := hstep
  unfold State.hand at hk
  dsimp only at hk
  split at hk
  · rename_i hcomma
    obtain ⟨items, r', l, hl, hitems, hends'⟩ := helements k (by omega) _ _ _ hk
    exact ⟨t :: items, r', l, by omega, .more hderives (List.cons_head?_tail hcomma).symm hitems, hends'⟩
  · split at hk
    · rename_i hclose
      exact ⟨[t], _, k, by omega, .last hderives (List.cons_head?_tail hclose).symm, hk⟩
    · exact absurd hk not_ends_none

theorem sound_members {n : Nat} (hvalue : SoundValue n) (hmembers : ∀ m < n, SoundMembers m) : SoundMembers n := by
  intro kept name s stack j h
  obtain ⟨t, r, m, hm, hderives, hends⟩ := hvalue s (.object kept name :: stack) j h
  obtain ⟨k, rfl, hstep⟩ := hends.succ nofun
  have hk : Ends k (State.hand (prune (stack.length + 1) t) r (.object kept name :: stack)) j := hstep
  unfold State.hand at hk
  dsimp only at hk
  split at hk
  · rename_i hcomma
    split at hk
    · rename_i name' rest hname
      obtain ⟨members, r', l, hl, hrest, hends'⟩ := hmembers k (by omega) _ _ _ _ _ hk
      rw [finished_append] at hends'
      refine ⟨(name, t) :: members, r', l, by omega, fun s' hs' => ?_, ?_⟩
      · exact .more hs' hderives (List.cons_head?_tail hcomma).symm (hrest _ (memberName_iff.mp hname))
      · rw [pruneMembers]
        exact hends'
    · exact absurd hk not_ends_none
  · split at hk
    · rename_i hclose
      refine ⟨[(name, t)], _, k, by omega, fun s' hs' => .last hs' hderives (List.cons_head?_tail hclose).symm, ?_⟩
      rw [pruneMembers, pruneMembers]
      cases kept with
      | none => exact hk
      | some kept => exact hk
    · exact absurd hk not_ends_none

theorem sound (n : Nat) : SoundValue n ∧ SoundElements n ∧ SoundMembers n := by
  induction n using Nat.strongRecOn with
  | ind n ih =>
    have hvalue : SoundValue n := sound_value (fun m hm => (ih m hm).2.1) (fun m hm => (ih m hm).2.2)
    exact ⟨hvalue, sound_elements hvalue fun m hm => (ih m hm).2.1, sound_members hvalue fun m hm => (ih m hm).2.2⟩

/-! ## Both -/

theorem parse_ends (input : Bytes) : ∃ result, State.step^[(text input).length + 1] (.value (text input) []) = .done result ∧ parse input = result := by
  obtain ⟨result, h⟩ : ∃ result, State.step^[(text input).length + 1] (.value (text input) []) = .done result :=
    State.walk_ends (Nat.lt_succ_self _)
  refine ⟨result, h, ?_⟩
  unfold parse
  rw [h]

/-- The walk over frames and the recursive grammar accept the same texts, with the same values. -/
theorem parse_iff (input : Bytes) (j : Json) : parse input = some j ↔ ∃ t, Text input t ∧ prune 0 t = j := by
  obtain ⟨result, hwalk, hparse⟩ := parse_ends input
  constructor
  · intro h
    rw [h] at hparse
    subst hparse
    obtain ⟨t, r, m, -, hvalue, hends⟩ := (sound _).1 _ _ _ hwalk
    obtain ⟨k, rfl, hk⟩ := hends.succ nofun
    have hk : State.step^[k] (.done (some (prune 0 t))) = .done (some j) := hk
    rw [State.iterate_done] at hk
    cases hk
    exact ⟨t, ⟨r, hvalue⟩, rfl⟩
  · rintro ⟨t, ⟨r, hvalue⟩, rfl⟩
    obtain ⟨n, hn⟩ := (reaches_of_value hvalue [] rfl).trans State.Reaches.step
    have hn : State.step^[n] (.value (text input) []) = .done (some (prune 0 t)) := hn
    -- both walks are over, so they end alike
    have hsame : State.step^[n + ((text input).length + 1)] (.value (text input) []) = .done result := by
      rw [Function.iterate_add_apply, hwalk, State.iterate_done]
    rw [Nat.add_comm, Function.iterate_add_apply, hn, State.iterate_done] at hsame
    cases hsame
    exact hparse

end OpenU60.Euicc.Es9p
