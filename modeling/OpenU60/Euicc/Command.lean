/-
  OpenU60.Euicc.Command — ES10 commands to the card (`euicc/src/lib.rs`: `Euicc::command`).

  The card is a script: what it answers to each APDU in turn, a transport error included. With
  no answer left the transport fails.
  - `command_transport`: the STORE DATA blocks go out in order and whole, each next APDU is what the
    last answer calls for, and what is returned is all the data answered.
-/

import OpenU60.Euicc.Der
import OpenU60.Lib.Split

namespace OpenU60.Euicc

open OpenU60.Lib OpenU60.Euicc.Der

/-- Largest STORE DATA block. -/
def mss : Nat := 120

inductive Error where
  | transport (message : String)
  | status (sw1 sw2 : UInt8)
  | malformed (what : String)
  | argument (what : String)
  deriving DecidableEq

/-- What `transmit` returns. -/
abbrev Reply := Except Error Bytes

def noReply : Error := .transport "no scripted response"

/-- The class byte of a channel. -/
def classByte (channel base : UInt8) : UInt8 :=
  if channel ≤ 3 then (base &&& 0xFC) ||| channel else (base &&& 0xB0) ||| 0x40 ||| ((channel - 4) &&& 0x0F)

/-! ## The code -/

/-- What an answer says. -/
inductive Status where
  /-- `61xx`: more to fetch. -/
  | more (length : UInt8)
  | done
  | bad (e : Error)
  deriving DecidableEq

def statusWord (rx : Bytes) : UInt8 × UInt8 := ((rx.dropLast.getLast?).getD 0, rx.getLast?.getD 0)

def statusOf : Reply → Status
  | .error e => .bad e
  | .ok rx =>
    if rx.length < 2 then .bad (.malformed "response shorter than a status word")
    else
      let (sw1, sw2) := statusWord rx
      if sw1 = 0x61 then .more sw2
      else if sw1 &&& 0xF0 = 0x90 then .done
      else .bad (.status sw1 sw2)

/-- The data before the status word. -/
def dataOf : Reply → Bytes
  | .error _ => []
  | .ok rx => rx.dropLast.dropLast

def getResponse (cla length : UInt8) : Bytes := [cla, 0xC0, 0x00, 0x00, length]

/-- What was sent and answered, and the answers left. -/
structure Exchange where
  sent : List Bytes
  data : Bytes
  rest : List Reply
  result : Except Error Unit

def transmitCollect (cla : UInt8) : List Reply → Bytes → Exchange
  | [], apdu => ⟨[apdu], [], [], .error noReply⟩
  | r :: rs, apdu =>
    match statusOf r with
    | .more length =>
      let e := transmitCollect cla rs (getResponse cla length)
      ⟨apdu :: e.sent, dataOf r ++ e.data, e.rest, e.result⟩
    | .done => ⟨[apdu], dataOf r, rs, .ok ()⟩
    | .bad e => ⟨[apdu], dataOf r, rs, .error e⟩

/-- One STORE DATA block. -/
def storeData (cla : UInt8) (last seq : Nat) (block : Bytes) : Bytes :=
  [cla, 0xE2, if seq = last then 0x91 else 0x11, UInt8.ofNat seq, UInt8.ofNat block.length] ++ block

def sendBlocks (cla : UInt8) (last : Nat) : Nat → List Bytes → List Reply → Exchange
  | _, [], rs => ⟨[], [], rs, .ok ()⟩
  | seq, block :: blocks, rs =>
    let e := transmitCollect cla rs (storeData cla last seq block)
    match e.result with
    | .error _ => e
    | .ok () =>
      let f := sendBlocks cla last (seq + 1) blocks e.rest
      ⟨e.sent ++ f.sent, e.data ++ f.data, f.rest, f.result⟩

def blocksOf (der : Bytes) : List Bytes := Split.chunks mss der

def command (channel : UInt8) (der : Bytes) (script : List Reply) : Exchange :=
  sendBlocks (classByte channel 0x80) ((blocksOf der).length - 1) 0 (blocksOf der) script

/-- What the caller gets. -/
def Exchange.answer (e : Exchange) : Except Error Bytes := e.result.map fun _ => e.data

/-! ## What an exchange may look like -/

def isStore (apdu : Bytes) : Bool := apdu[1]? = some 0xE2

/-- Each APDU after the first is what the answer to the one before calls for. -/
def Linked (cla : UInt8) : List Bytes → List Reply → Prop
  | _ :: next :: sent, r :: rs =>
    (match statusOf r with
      | .more length => next = getResponse cla length
      | .done => isStore next = true
      | .bad _ => False) ∧ Linked cla (next :: sent) rs
  | _ :: _ :: _, [] => False
  | _, _ => True

/-- How an exchange ends, by the answer to its last APDU. -/
def Ends (e : Exchange) (script : List Reply) : Prop :=
  match script[e.sent.length - 1]?.map statusOf, e.result with
  | some .done, .ok () => True
  | some (.bad err), .error err' => err = err'
  | none, .error err => err = noReply
  | _, _ => False

/-- The APDUs of the blocks. -/
def storeApdus (cla : UInt8) (last : Nat) : Nat → List Bytes → List Bytes
  | _, [] => []
  | seq, block :: blocks => storeData cla last seq block :: storeApdus cla last (seq + 1) blocks

variable {cla : UInt8} {last seq : Nat} {script rs : List Reply} {apdu : Bytes} {blocks : List Bytes}

theorem storeData_isStore (cla : UInt8) (last seq : Nat) (block : Bytes) : isStore (storeData cla last seq block) = true := rfl

theorem getResponse_not_store (cla length : UInt8) : isStore (getResponse cla length) = false := rfl

theorem length_storeApdus (cla : UInt8) (last seq : Nat) (blocks : List Bytes) : (storeApdus cla last seq blocks).length = blocks.length := by
  induction blocks generalizing seq with
  | nil => rfl
  | cons block blocks ih => rw [storeApdus, List.length_cons, ih, List.length_cons]

/-- The `i`-th block goes out with its number. -/
theorem getElem_storeApdus (cla : UInt8) (last seq i : Nat) (blocks : List Bytes) :
    (storeApdus cla last seq blocks)[i]? = blocks[i]?.map (storeData cla last (seq + i)) := by
  induction blocks generalizing seq i with
  | nil => rfl
  | cons block blocks ih =>
    cases i with
    | zero => rfl
    | succ i =>
      rw [storeApdus, List.getElem?_cons_succ, List.getElem?_cons_succ, ih]
      congr 2
      omega

/-! ## One block -/

theorem transmitCollect_more {r : Reply} {length : UInt8} (hr : statusOf r = .more length) (rs : List Reply) (apdu : Bytes) :
    transmitCollect cla (r :: rs) apdu = ⟨apdu :: (transmitCollect cla rs (getResponse cla length)).sent,
      dataOf r ++ (transmitCollect cla rs (getResponse cla length)).data, (transmitCollect cla rs (getResponse cla length)).rest,
      (transmitCollect cla rs (getResponse cla length)).result⟩ := by
  rw [transmitCollect, hr]

/-- What sending one APDU and fetching its answer does. -/
structure Fetched (cla : UInt8) (apdu : Bytes) (rs : List Reply) (e : Exchange) : Prop where
  head : ∃ more, e.sent = apdu :: more ∧ ∀ a ∈ more, isStore a = false
  linked : Linked cla e.sent rs
  ends : Ends e rs
  rest : e.rest = rs.drop e.sent.length
  data : e.result = .ok () → e.sent.length ≤ rs.length ∧ e.data = (rs.take e.sent.length).flatMap dataOf

theorem fetched (cla : UInt8) (rs : List Reply) (apdu : Bytes) : Fetched cla apdu rs (transmitCollect cla rs apdu) := by
  induction rs generalizing apdu with
  | nil => exact ⟨⟨[], rfl, nofun⟩, trivial, rfl, rfl, nofun⟩
  | cons r rs ih =>
    cases hr : statusOf r with
    | more length =>
      rw [transmitCollect_more hr]
      obtain ⟨⟨more, hsent, hget⟩, hlinked, hends, hrest, hdata⟩ := ih (getResponse cla length)
      generalize transmitCollect cla rs (getResponse cla length) = e at *
      refine ⟨⟨e.sent, rfl, ?_⟩, ?_, ?_, ?_, ?_⟩
      · intro a ha
        rw [hsent] at ha
        rcases List.mem_cons.mp ha with rfl | ha
        · exact getResponse_not_store cla length
        · exact hget a ha
      · rw [hsent] at hlinked ⊢
        refine ⟨?_, hlinked⟩
        rw [hr]
      · unfold Ends at hends ⊢
        dsimp only
        have hlast : (r :: rs)[(apdu :: e.sent).length - 1]? = rs[e.sent.length - 1]? := by
          rw [hsent]
          rfl
        rw [hlast]
        exact hends
      · exact hrest
      · intro hok
        obtain ⟨hlen, hall⟩ := hdata hok
        refine ⟨Nat.succ_le_succ hlen, ?_⟩
        rw [hall]
        rfl
    | done =>
      rw [transmitCollect, hr]
      refine ⟨⟨[], rfl, nofun⟩, trivial, ?_, rfl, fun _ => ⟨Nat.succ_le_succ (Nat.zero_le _), ?_⟩⟩
      · show match (some (statusOf r) : Option Status), (Except.ok () : Except Error Unit) with
          | some .done, .ok () => True
          | some (.bad err), .error err' => err = err'
          | none, .error err => err = noReply
          | _, _ => False
        rw [hr]
        trivial
      · exact (List.append_nil _).symm
    | bad err =>
      rw [transmitCollect, hr]
      refine ⟨⟨[], rfl, nofun⟩, trivial, ?_, rfl, nofun⟩
      show match (some (statusOf r) : Option Status), (Except.error err : Except Error Unit) with
        | some .done, .ok () => True
        | some (.bad err), .error err' => err = err'
        | none, .error err => err = noReply
        | _, _ => False
      rw [hr]

/-! ## All blocks -/

theorem linked_append {s₁ s₂ : List Bytes} (h₁ : Linked cla s₁ rs) (hne : s₁ ≠ []) (hdone : rs[s₁.length - 1]?.map statusOf = some .done)
    (h₂ : Linked cla s₂ (rs.drop s₁.length)) (hhead : ∀ a ∈ s₂.head?, isStore a = true) : Linked cla (s₁ ++ s₂) rs := by
  induction s₁ generalizing rs with
  | nil => exact absurd rfl hne
  | cons a s₁ ih =>
    cases rs with
    | nil => cases hdone
    | cons r rs =>
      cases s₁ with
      | nil =>
        cases s₂ with
        | nil => trivial
        | cons b s₂ =>
          have hr : statusOf r = .done := Option.some.inj hdone
          refine ⟨?_, h₂⟩
          rw [hr]
          exact hhead b rfl
      | cons b s₁ => exact ⟨h₁.1, ih h₁.2 (List.cons_ne_nil _ _) hdone h₂⟩

/-- What sending blocks does. -/
structure Sends (cla : UInt8) (last seq : Nat) (blocks : List Bytes) (rs : List Reply) (e : Exchange) : Prop where
  stores : e.sent.filter isStore <+: storeApdus cla last seq blocks
  whole : e.result = .ok () → e.sent.filter isStore = storeApdus cla last seq blocks
  head : ∀ a ∈ e.sent.head?, isStore a = true
  linked : Linked cla e.sent rs
  ends : if e.sent = [] then blocks = [] ∧ e.result = .ok () else Ends e rs
  data : e.result = .ok () → e.sent.length ≤ rs.length ∧ e.data = (rs.take e.sent.length).flatMap dataOf

theorem sendBlocks_error {block : Bytes} {err : Error} (h : (transmitCollect cla rs (storeData cla last seq block)).result = .error err) :
    sendBlocks cla last seq (block :: blocks) rs = transmitCollect cla rs (storeData cla last seq block) := by
  rw [sendBlocks]
  dsimp only
  rw [h]

theorem sendBlocks_ok {block : Bytes} (h : (transmitCollect cla rs (storeData cla last seq block)).result = .ok ()) :
    sendBlocks cla last seq (block :: blocks) rs =
      let e := transmitCollect cla rs (storeData cla last seq block)
      let f := sendBlocks cla last (seq + 1) blocks e.rest
      ⟨e.sent ++ f.sent, e.data ++ f.data, f.rest, f.result⟩ := by
  rw [sendBlocks]
  dsimp only
  rw [h]

theorem sends (cla : UInt8) (last seq : Nat) (blocks : List Bytes) (rs : List Reply) :
    Sends cla last seq blocks rs (sendBlocks cla last seq blocks rs) := by
  induction blocks generalizing seq rs with
  | nil => exact ⟨List.prefix_refl _, fun _ => rfl, nofun, trivial, ⟨rfl, rfl⟩, fun _ => ⟨Nat.zero_le _, rfl⟩⟩
  | cons block blocks ih =>
    obtain ⟨⟨more, hsent, hget⟩, hlinked, hends, hrest, hdata⟩ := fetched cla rs (storeData cla last seq block)
    have herror : ∀ err, (transmitCollect cla rs (storeData cla last seq block)).result = .error err →
        sendBlocks cla last seq (block :: blocks) rs = transmitCollect cla rs (storeData cla last seq block) := fun _ h => sendBlocks_error h
    have hnext : (transmitCollect cla rs (storeData cla last seq block)).result = .ok () →
        sendBlocks cla last seq (block :: blocks) rs = _ := fun h => sendBlocks_ok h
    generalize transmitCollect cla rs (storeData cla last seq block) = e at *
    have hne : e.sent ≠ [] := by
      rw [hsent]
      exact List.cons_ne_nil _ _
    have hfilter : e.sent.filter isStore = [storeData cla last seq block] := by
      rw [hsent, List.filter_cons_of_pos (storeData_isStore ..), List.filter_eq_nil_iff.mpr]
      intro a ha
      rw [hget a ha]
      exact Bool.false_ne_true
    cases hresult : e.result with
    | error err =>
      rw [herror err hresult]
      refine ⟨?_, ?_, ?_, hlinked, ?_, ?_⟩
      · rw [hfilter]
        exact ⟨_, rfl⟩
      · intro hok
        rw [hresult] at hok
        cases hok
      · rw [hsent]
        rintro _ ⟨⟩
        exact storeData_isStore ..
      · rw [if_neg hne]
        exact hends
      · intro hok
        rw [hresult] at hok
        cases hok
    | ok =>
      rw [hnext hresult]
      dsimp only
      obtain ⟨hstores, hwhole, hhead, hlinked', hends', hdata'⟩ := ih (seq + 1) e.rest
      generalize sendBlocks cla last (seq + 1) blocks e.rest = f at *
      obtain ⟨hlen, hall⟩ := hdata hresult
      have hdone : rs[e.sent.length - 1]?.map statusOf = some .done := by
        unfold Ends at hends
        rw [hresult] at hends
        split at hends
        · assumption
        all_goals contradiction
      have hboth : e.sent ++ f.sent ≠ [] := List.append_ne_nil_of_left_ne_nil hne _
      refine ⟨?_, ?_, ?_, ?_, ?_, ?_⟩
      · dsimp only
        rw [List.filter_append, hfilter]
        obtain ⟨left, hleft⟩ := hstores
        exact ⟨left, by rw [List.append_assoc, hleft]; rfl⟩
      · intro hok
        dsimp only at hok ⊢
        rw [List.filter_append, hfilter, hwhole hok]
        rfl
      · dsimp only
        rw [hsent]
        rintro _ ⟨⟩
        exact storeData_isStore ..
      · rw [hrest] at hlinked'
        exact linked_append hlinked hne hdone hlinked' hhead
      · dsimp only
        rw [if_neg hboth]
        unfold Ends
        dsimp only
        by_cases hf : f.sent = []
        · rw [if_pos hf] at hends'
          rw [hf, List.append_nil, hdone, hends'.2]
          trivial
        · rw [if_neg hf] at hends'
          unfold Ends at hends'
          have hlast : rs[(e.sent ++ f.sent).length - 1]? = e.rest[f.sent.length - 1]? := by
            have hpos : 0 < f.sent.length := List.length_pos_iff.mpr hf
            rw [hrest, List.getElem?_drop, List.length_append]
            congr 1
            omega
          rw [hlast]
          exact hends'
      · intro hok
        obtain ⟨hlen', hall'⟩ := hdata' hok
        rw [hrest, List.length_drop] at hlen'
        dsimp only
        refine ⟨by rw [List.length_append]; omega, ?_⟩
        rw [hall, hall', hrest, List.length_append, List.take_add, List.flatMap_append]

/-- A command's blocks: the request in order, each block of 1 to 120 bytes, and the `i`-th APDU carries the `i`-th
    block with number `i mod 256` and marks exactly the last one. -/
def Blocks (cla : UInt8) (der : Bytes) (apdus : List Bytes) : Prop :=
  (blocksOf der).flatten = der ∧ (∀ b ∈ blocksOf der, 1 ≤ b.length ∧ b.length ≤ 120) ∧ apdus.length = (blocksOf der).length ∧
    ∀ i b, (blocksOf der)[i]? = some b →
      apdus[i]? = some ([cla, 0xE2, if i + 1 = (blocksOf der).length then 0x91 else 0x11, UInt8.ofNat (i % 256), UInt8.ofNat b.length] ++ b)

theorem blocks_of_request (cla : UInt8) (der : Bytes) :
    Blocks cla der (storeApdus cla ((blocksOf der).length - 1) 0 (blocksOf der)) := by
  have hpos : 0 < mss := by decide
  refine ⟨Split.flatten_chunks hpos der, fun b hb => Split.length_of_mem_chunks hpos hb, length_storeApdus .., ?_⟩
  intro i b hb
  have hi : i < (blocksOf der).length := (List.getElem?_eq_some_iff.mp hb).1
  have hlast : (if i + 1 = (blocksOf der).length then 0x91 else 0x11 : UInt8) = if 0 + i = (blocksOf der).length - 1 then 0x91 else 0x11 := by
    refine if_congr ?_ rfl rfl
    omega
  have hnumber : UInt8.ofNat (i % 256) = UInt8.ofNat (0 + i) := by
    rw [Nat.zero_add]
    exact UInt8.ofNat_mod_size
  rw [getElem_storeApdus, hb, hlast, hnumber]
  rfl

/-- Whatever the card answers: the blocks go out in order and all of them if the command succeeds, each next APDU is
    what the answer before it calls for and none follows an error, an error is returned if and only if the last
    answer is one, and a success returns the data of every answer in order. -/
theorem command_transport (channel : UInt8) (der : Bytes) (script : List Reply) :
    ∃ apdus, Blocks (classByte channel 0x80) der apdus ∧
      let e := command channel der script
      e.sent.filter isStore <+: apdus ∧ Linked (classByte channel 0x80) e.sent script ∧
      (if e.sent = [] then der = [] ∧ e.answer = .ok [] else Ends e script) ∧
      ∀ data, e.answer = .ok data → e.sent.filter isStore = apdus ∧ e.sent.length ≤ script.length ∧
        data = (script.take e.sent.length).flatMap dataOf := by
  refine ⟨_, blocks_of_request (classByte channel 0x80) der, ?_⟩
  have h := sends (classByte channel 0x80) ((blocksOf der).length - 1) 0 (blocksOf der) script
  show (command channel der script).sent.filter isStore <+: _ ∧ _
  unfold command
  generalize sendBlocks (classByte channel 0x80) ((blocksOf der).length - 1) 0 (blocksOf der) script = e at h ⊢
  refine ⟨h.stores, h.linked, ?_, ?_⟩
  · have hends := h.ends
    by_cases hs : e.sent = []
    · rw [if_pos hs] at hends ⊢
      obtain ⟨hblocks, hok⟩ := hends
      have hder := (blocks_of_request (classByte channel 0x80) der).1
      rw [hblocks] at hder
      have hdata := (h.data hok).2
      rw [hs] at hdata
      unfold Exchange.answer
      rw [hok, hdata]
      exact ⟨hder.symm, rfl⟩
    · rwa [if_neg hs] at hends ⊢
  · intro data hanswer
    unfold Exchange.answer at hanswer
    cases hok : e.result with
    | error err =>
      rw [hok] at hanswer
      cases hanswer
    | ok =>
      rw [hok] at hanswer
      cases hanswer
      exact ⟨h.whole hok, h.data hok⟩

end OpenU60.Euicc
