/-
  OpenU60.SmsForward.Fetch — reading messages from the device: the list call of one
  store, `fetch_sms_both_stores`, `fetch_new_messages` and `fetch_max_sms_id`.

  The firmware answers a list query with a page of the store's messages that the `tags`
  value selects, newest id first; a call can fail, and a failed call counts as an empty
  page. What the device holds and which calls fail is in `Reads`.
-/

import Mathlib
import OpenU60.Lib.FirstMatch
import OpenU60.Lib.Json
import OpenU60.SmsForward.Model

namespace OpenU60.SmsForward

open OpenU60.Lib OpenU60.Lib.FirstMatch

/-- The two stores as a read finds them, and whether each call succeeds. -/
structure Reads where
  nv : List Json
  sim : List Json
  nvOk : Bool
  simOk : Bool

def messageId (item : Json) : Nat := (item.get "id").asU64OrText.getD 0

/-- tag: 0=unread, 1=read, 2=sent, 3=draft. -/
def messageTag (item : Json) : Nat := (item.get "tag").asU64OrText.getD 0

def received (item : Json) : Bool := messageTag item < 2

variable (P : Params)

/-- The firmware's answer to `order by id desc`. -/
def listPage (tags page count : Nat) (store : List Json) : List Json :=
  let listed := store.filter fun m => P.lists tags (messageTag m)
  ((listed.insertionSort fun a b => messageId b ≤ messageId a).drop (page * count)).take count

/-- The pages a read brings in, the NV store's first. -/
def pages (tags page count : Nat) (r : Reads) : List Json :=
  (if r.nvOk then listPage P tags page count r.nv else []) ++ (if r.simOk then listPage P tags page count r.sim else [])

def fetchSmsBothStores (tags page count : Nat) (r : Reads) : List Json :=
  distinctBy messageId [] (pages P tags page count r)

/-! ## Decoding a message -/

def isUcs2Hex (s : String) : Bool :=
  let cs := Text.trim s.toList
  !cs.isEmpty && Text.byteLen cs % 4 == 0 && cs.all fun c => (Text.digitVal 16 c).isSome

/-- `char::from_u32` of a 16-bit code: none for a surrogate. -/
def charOfCode (code : Nat) : Option Char := if h : code.isValidChar then some (Char.ofNatAux code h) else none

def decodeUcs2 : List Char → List Char
  | a :: b :: c :: d :: rest => ((Text.parseRadix 16 Text.u16Max [a, b, c, d]).bind charOfCode).toList ++ decodeUcs2 rest
  | _ => []

def decodeUcs2Hex (hex : String) : String := String.ofList (decodeUcs2 (Text.trim hex.toList))

def decodeText (raw : String) : String := if isUcs2Hex raw then decodeUcs2Hex raw else raw

def decodeSms (item : Json) : DecodedSms where
  id := messageId item
  sender := decodeText ((item.get "number").asStr.getD "")
  content := decodeText ((item.get "content").asStr.getD "")
  date := ((item.get "date").asStr <|> (item.get "received_time").asStr <|> (item.get "sms_time").asStr).getD ""

/-- Received messages newer than `afterId`, oldest first. -/
def fetchNewMessages (afterId : Nat) (r : Reads) : List DecodedSms :=
  let items := (fetchSmsBothStores P 1 0 50 r).filter fun item => decide (afterId < messageId item) && received item
  (items.map decodeSms).insertionSort fun a b => a.id ≤ b.id

def fetchMaxSmsId (r : Reads) : Nat :=
  ((fetchSmsBothStores P 10 0 5 r).filterMap fun item => (item.get "id").asU64OrText).foldr max 0

/-! ## What is fetched -/

theorem mem_fetchNewMessages_id {afterId : Nat} {r : Reads} {i : Nat} :
    i ∈ (fetchNewMessages P afterId r).map (·.id) ↔
      ∃ m, (pages P 1 0 50 r).find? (messageId · = i) = some m ∧ received m = true ∧ afterId < i := by
  simp only [fetchNewMessages, List.mem_map, List.mem_insertionSort, List.mem_filter, Bool.and_eq_true, decide_eq_true_eq,
    fetchSmsBothStores, mem_distinctBy_iff]
  constructor
  · rintro ⟨_, ⟨m, ⟨⟨-, hf⟩, hlt, hrec⟩, rfl⟩, rfl⟩
    exact ⟨m, hf, hrec, hlt⟩
  · rintro ⟨m, hf, hrec, hlt⟩
    have hid : messageId m = i := by simpa using List.find?_some hf
    exact ⟨decodeSms m, ⟨m, ⟨⟨by simp, by rw [hid]; exact hf⟩, by rw [hid]; exact hlt, hrec⟩, rfl⟩, hid⟩

/-- Fetched ids are distinct and ascending. -/
theorem fetchNewMessages_sorted (afterId : Nat) (r : Reads) :
    ((fetchNewMessages P afterId r).map (·.id)).Pairwise (· < ·) := by
  unfold fetchNewMessages
  set items := (fetchSmsBothStores P 1 0 50 r).filter fun item => decide (afterId < messageId item) && received item
  have hle := List.pairwise_insertionSort (fun a b : DecodedSms => a.id ≤ b.id) (items.map decodeSms)
  have hnd : (items.map messageId).Nodup := (distinctBy_nodup _ _).sublist (List.filter_sublist.map _)
  have hids : ((items.map decodeSms).insertionSort fun a b => a.id ≤ b.id).map (·.id) |>.Nodup := by
    refine (List.Perm.nodup_iff ((List.perm_insertionSort _ _).map _)).mpr ?_
    rw [List.map_map]
    exact hnd
  exact (List.pairwise_map.mpr hle).and hids |>.imp fun h => lt_of_le_of_ne h.1 h.2

theorem fetchNewMessages_newer {afterId : Nat} {r : Reads} {i : Nat}
    (h : i ∈ (fetchNewMessages P afterId r).map (·.id)) : afterId < i := by
  obtain ⟨-, -, -, hlt⟩ := (mem_fetchNewMessages_id P).mp h
  exact hlt

end OpenU60.SmsForward
