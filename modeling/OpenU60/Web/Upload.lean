/-
  OpenU60.Web.Upload — the reader of photo uploads (`web/upload.rs`: `boundary`, `read_body`,
  `parse`, `next_delimiter`, `disposition`, `split_params`, `unquote`).

  A multipart body is read from delimiter to delimiter, at most eight parts: a part's header
  within a window, its content up to the next delimiter. Text fields are copied, a file with
  content is a range of the body.
-/

import OpenU60.Lib.Split
import OpenU60.Lib.Utf8

namespace OpenU60.Web.Upload

open OpenU60.Lib

abbrev Bytes := List UInt8

/-- `qr_decode::MAX_BYTES`. -/
def maxFile : Nat := 8 * 1024 * 1024
def maxBody : Nat := maxFile + 64 * 1024
def maxText : Nat := 1024
def maxParts : Nat := 8
def maxHead : Nat := 1024

/-! ## The boundary -/

/-- `eq_ignore_ascii_case`. -/
def eqIgnoreCase (a b : List Char) : Bool := a.map Char.toLower == b.map Char.toLower

/-- Between two quotation marks, if there are two. -/
def stripQuotes (v : List Char) : Option (List Char) :=
  match v with
  | '"' :: rest => if rest.getLast? = some '"' then some rest.dropLast else none
  | _ => none

/-- RFC 2046's bchars. -/
def isBchar (c : Char) : Bool := c.isAlphanum || ['\'', '(', ')', '+', '_', ',', '-', '.', '/', ':', '=', '?', ' '].contains c

def goodBoundary (b : List Char) : Bool := 1 ≤ Text.byteLen b && Text.byteLen b ≤ 70 && b.getLast? ≠ some ' ' && b.all isBchar

/-- The value of a parameter named `boundary`. -/
def boundaryParam (p : List Char) : Option (List Char) := do
  let (k, v) ← Split.splitOnce ['='] p
  if eqIgnoreCase (Text.trim k) "boundary".toList then some (Text.trim v) else none

/-- The boundary of a content type, as the header has it. -/
def boundary (contentType : Option (List Char)) : Option (List Char) := do
  let ct ← contentType
  match ct.splitOn ';' with
  | [] => none
  | first :: params =>
    if eqIgnoreCase (Text.trim first) "multipart/form-data".toList then
      let b ← params.findSome? boundaryParam
      let b := (stripQuotes b).getD b
      if goodBoundary b then some b else none
    else none

/-! ## The body -/

/-- What the next read of the body gives: an error and a pause that is too long are one. -/
inductive Arrival where
  | chunk (bytes : Bytes)
  | failed

inductive ReadErr where
  | tooLarge (read : Nat)
  | failed
  deriving DecidableEq

def readFrom (buf : Bytes) : List Arrival → Except ReadErr Bytes
  | [] => .ok buf
  | .failed :: _ => .error .failed
  | .chunk c :: rest => if maxBody < buf.length + c.length then .error (.tooLarge (buf.length + c.length)) else readFrom (buf ++ c) rest

def readBody (declared : Option Nat) (arrivals : List Arrival) : Except ReadErr Bytes :=
  if declared.any (maxBody < ·) then .error (.tooLarge 0) else readFrom [] arrivals

/-! ## A part's header -/

/-- `split("\r\n")`. -/
def lines : List Char → List (List Char)
  | [] => [[]]
  | '\r' :: '\n' :: rest => [] :: lines rest
  | c :: rest =>
    match lines rest with
    | [] => [[c]]
    | l :: ls => (c :: l) :: ls

/-- The parameters after `param`, the current one; a `;` inside quotes is kept. -/
def splitParamsFrom : List Char → Bool → Bool → List Char → List (List Char)
  | param, _, _, [] => [Text.trim param]
  | param, quoted, escaped, c :: rest =>
    if escaped then splitParamsFrom (param ++ [c]) quoted false rest
    else if c = '\\' && quoted then splitParamsFrom (param ++ [c]) quoted true rest
    else if c = '"' then splitParamsFrom (param ++ [c]) (!quoted) false rest
    else if c = ';' && !quoted then Text.trim param :: splitParamsFrom [] quoted false rest
    else splitParamsFrom (param ++ [c]) quoted false rest

def splitParams (v : List Char) : List (List Char) := splitParamsFrom [] false false v

/-- `replace` of a pair by one character. -/
def replacePair (a b by_ : Char) : List Char → List Char
  | [] => []
  | [c] => [c]
  | c :: d :: rest => if c = a ∧ d = b then by_ :: replacePair a b by_ rest else c :: replacePair a b by_ (d :: rest)

def unquote (v : List Char) : List Char :=
  match stripQuotes v with
  | some q => replacePair '\\' '\\' '\\' (replacePair '\\' '"' '"' q)
  | none => v

/-- The name and whether it is a file, from the parameters; one without `=` is an error. -/
def nameAndFile : Option (List Char) → Bool → List (List Char) → Option (Option (List Char) × Bool)
  | name, file, [] => some (name, file)
  | name, file, p :: ps => do
    let (k, v) ← Split.splitOnce ['='] p
    let key := (Text.trim k).map Char.toLower
    if key = "name".toList then nameAndFile (some (unquote (Text.trim v))) file ps
    else if key = "filename".toList || key = "filename*".toList then nameAndFile name true ps
    else nameAndFile name file ps

def goodName (n : List Char) : Bool := !n.isEmpty && Text.byteLen n ≤ 32

/-- The value of a line that is a `Content-Disposition`. -/
def dispositionValue (line : List Char) : Option (List Char) := do
  let (k, v) ← Split.splitOnce [':'] line
  if eqIgnoreCase (Text.trim k) "content-disposition".toList then some v else none

def disposition (head : List Char) : Option (List Char × Bool) := do
  let value ← (lines head).findSome? dispositionValue
  match splitParams value with
  | [] => none
  | first :: params =>
    if eqIgnoreCase first "form-data".toList then
      let (name, file) ← nameAndFile none false params
      let name ← name.filter goodName
      some (name, file)
    else none

/-! ## The parts -/

def crlf : Bytes := [13, 10]
def blankLine : Bytes := [13, 10, 13, 10]
def dashes : Bytes := [45, 45]

/-- Where `sep` first stands. -/
def position (sep hay : Bytes) : Option Nat := (Split.splitOnce sep hay).map (·.1.length)

/-- Where CR LF and the delimiter first stand. -/
def nextDelimiter (hay d : Bytes) : Option Nat := position (crlf ++ d) hay

structure Parsed where
  text : List (List Char × List Char) := []
  /-- Field name, and where its content begins and ends in the body. -/
  files : List (List Char × Nat × Nat) := []
  deriving DecidableEq

/-- `body[from..to]`. -/
def slice (body : Bytes) (start stop : Nat) : Bytes := (body.drop start).take (stop - start)

/-- The loop: so many turns left, and where in the body the next begins. -/
def parseFrom (body d : Bytes) : Nat → Nat → Parsed → Option Parsed
  | 0, _, _ => none
  | turns + 1, pos, out =>
    let rest := body.drop pos
    if dashes.isPrefixOf rest then some out
    else if crlf.isPrefixOf rest then do
      let start := pos + 2
      let window := slice body start (min body.length (start + maxHead + 4))
      let headLen ← position blankLine window
      let head ← Utf8.fromUtf8 (window.take headLen)
      let content := start + headLen + 4
      let len ← nextDelimiter (body.drop content) d
      let stop := content + len
      let (name, file) ← disposition head
      if file then
        parseFrom body d turns (stop + 2 + d.length)
          (if content < stop then { out with files := out.files ++ [(name, content, stop)] } else out)
      else if maxText < stop - content then none
      else do
        let value ← Utf8.fromUtf8 (slice body content stop)
        parseFrom body d turns (stop + 2 + d.length) { out with text := out.text ++ [(name, value)] }
    else none

def delimiter (boundary : List Char) : Bytes := dashes ++ Utf8.utf8 boundary

def parse (body : Bytes) (boundary : List Char) : Option Parsed :=
  let d := delimiter boundary
  if d.isPrefixOf body then parseFrom body d (maxParts + 1) d.length {} else none

end OpenU60.Web.Upload
