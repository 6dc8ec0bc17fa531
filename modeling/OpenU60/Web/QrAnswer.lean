/-
  OpenU60.Web.QrAnswer — the child's answer and a JPEG's scans (`zte-agent/src/web/qr_decode.rs`).

  The answer is read behind whatever else the child wrote, and it may be cut anywhere.
  - `answer_frame`: a framed result comes back after anything without the magic bytes.
  - `answer_cut`: nothing comes back of a framed list of codes that is cut.
  - `scanFrom_ends`: the walk over the markers ends, `walk_body`: over a JPEG it counts each scan.
  - `photos_scaled_and_framed`: these, with what `OpenU60.Web.QrShrink` shows of the small photo.
-/

import OpenU60.Web.QrShrink

namespace OpenU60.Web.QrDecode

open OpenU60.Lib OpenU60.Lib.Fallible OpenU60.Lib.Utf8

/-! ## Codes -/

def encoded (codes : List Chars) : Bytes := codes.flatMap fun c => BigEndian.toBytes 2 (Text.byteLen c) ++ utf8 c

theorem encoded_cons (c : Chars) (codes : List Chars) : encoded (c :: codes) =
    UInt8.ofNat (Text.byteLen c / 256) :: UInt8.ofNat (Text.byteLen c) :: (utf8 c ++ encoded codes) := by
  unfold encoded
  rw [List.flatMap_cons]
  rfl

theorem length_eq {n : Nat} (h : n ≤ maxPayload) : (UInt8.ofNat (n / 256)).toNat * 256 + (UInt8.ofNat n).toNat = n := by
  unfold maxPayload at h
  rw [UInt8.toNat_ofNat', UInt8.toNat_ofNat']
  omega

theorem takeCodes_encoded {codes : List Chars} (h : ∀ c ∈ codes, Text.byteLen c ≤ maxPayload) (rest : Bytes) :
    takeCodes codes.length (encoded codes ++ rest) = some codes := by
  induction codes with
  | nil => rfl
  | cons c codes ih =>
    have hc := h c List.mem_cons_self
    rw [encoded_cons, List.length_cons, List.cons_append, List.cons_append, takeCodes, length_eq hc]
    rw [if_neg (by rw [List.append_assoc, List.length_append, length_utf8]; omega)]
    rw [List.append_assoc, ← length_utf8, List.take_left, List.drop_left]
    refine (bind_of_eq (fromUtf8_utf8 c) _).trans ?_
    exact bind_of_eq (ih fun c hc => h c (List.mem_cons_of_mem _ hc)) _

/-- A code is missing, or its end. -/
theorem takeCodes_cut {codes : List Chars} (h : ∀ c ∈ codes, Text.byteLen c ≤ maxPayload) {cut : Bytes} (hcut : cut <+: encoded codes)
    (hne : cut ≠ encoded codes) : takeCodes codes.length cut = none := by
  induction codes generalizing cut with
  | nil => exact absurd (List.prefix_nil.mp hcut) hne
  | cons c codes ih =>
    have hc := h c List.mem_cons_self
    rw [encoded_cons] at hcut hne
    match cut with
    | [] => rfl
    | [high] => rfl
    | high :: low :: cut =>
      obtain ⟨hhigh, hcut'⟩ := List.cons_prefix_cons.mp hcut
      obtain ⟨hlow, hlater⟩ := List.cons_prefix_cons.mp hcut'
      subst hhigh
      subst hlow
      rw [List.length_cons, takeCodes, length_eq hc]
      by_cases hshort : cut.length < Text.byteLen c
      · rw [if_pos (Or.inl hshort)]
      · rw [if_neg (by omega)]
        have hown : utf8 c <+: cut := List.prefix_of_prefix_length_le ⟨_, rfl⟩ hlater (by rw [length_utf8]; omega)
        obtain ⟨later, rfl⟩ := hown
        rw [← length_utf8, List.take_left, List.drop_left]
        refine (bind_of_eq (fromUtf8_utf8 c) _).trans ?_
        have hnone := ih (fun c hc => h c (List.mem_cons_of_mem _ hc)) ((List.prefix_append_right_inj _).mp hlater)
          fun heq => hne (by rw [heq])
        rw [hnone]
        rfl

/-! ## Answers -/

theorem magic_unbordered : Split.Unbordered magic := by
  have hall : ∀ n < 5, magic.take n ≠ [] → magic.take n <:+ magic → magic.take n = magic := by decide
  intro t hne hpre hsuf
  have hlen : t.length < 5 := Nat.lt_succ_of_le hpre.length_le
  have htake := List.prefix_iff_eq_take.mp hpre
  rw [htake] at hne hsuf ⊢
  exact hall t.length hlen hne hsuf

theorem splitOnce_magic {before : Bytes} (h : Split.splitOnce magic before = none) (rest : Bytes) :
    Split.splitOnce magic (before ++ (magic ++ rest)) = some (before, rest) :=
  Split.splitOnce_unbordered (by decide) magic_unbordered h rest

/-- The codes that a frame holds. -/
def kept (codes : List Chars) : List Chars := (codes.filter (Text.byteLen · ≤ maxPayload)).take maxCodes

theorem kept_spec (codes : List Chars) : (kept codes).length ≤ maxCodes ∧ ∀ c ∈ kept codes, Text.byteLen c ≤ maxPayload := by
  constructor
  · exact List.length_take_le _ _
  · intro c hc
    exact of_decide_eq_true (List.mem_filter.mp (List.mem_of_mem_take hc)).2

theorem frame_ok (codes : List Chars) : frame (.ok codes) = magic ++ (0 :: UInt8.ofNat (kept codes).length :: encoded (kept codes)) := by
  unfold frame encoded kept
  simp

theorem count_eq (codes : List Chars) : min (UInt8.ofNat (kept codes).length).toNat maxCodes = (kept codes).length := by
  have hle := (kept_spec codes).1
  unfold maxCodes at *
  rw [UInt8.toNat_ofNat']
  omega

/-- What is in a frame comes back, behind anything without the magic bytes. -/
theorem answer_frame {before : Bytes} (h : Split.splitOnce magic before = none) (codes : List Chars) :
    answer (before ++ frame (.ok codes)) = some (.ok (kept codes)) := by
  have hcodes := takeCodes_encoded (kept_spec codes).2 []
  rw [List.append_nil] at hcodes
  unfold answer
  rw [frame_ok, splitOnce_magic h]
  show (takeCodes (min (UInt8.ofNat (kept codes).length).toNat maxCodes) (encoded (kept codes))).map Except.ok = _
  rw [count_eq, hcodes]
  rfl

/-- Why nothing could be read. -/
def fails : List Fail := [.notImage, .tooLarge, .unreadable]

theorem answer_fail {before : Bytes} (h : Split.splitOnce magic before = none) {fail : Fail} (hfail : fail ∈ fails) :
    answer (before ++ frame (.error fail)) = some (.error fail) := by
  unfold answer
  simp only [fails, List.mem_cons, List.not_mem_nil, or_false] at hfail
  obtain rfl | rfl | rfl := hfail
  · rw [show frame (.error .notImage) = magic ++ [1] from rfl, splitOnce_magic h]
    rfl
  · rw [show frame (.error .tooLarge) = magic ++ [2] from rfl, splitOnce_magic h]
    rfl
  · rw [show frame (.error .unreadable) = magic ++ [3] from rfl, splitOnce_magic h]
    rfl

theorem splitOnce_short {α : Type} [DecidableEq α] {sep u : List α} (h : u.length < sep.length) : Split.splitOnce sep u = none := by
  cases hsplit : Split.splitOnce sep u with
  | none => rfl
  | some p =>
    have happend := congrArg List.length (Split.splitOnce_eq (s := p.1) (r := p.2) hsplit)
    rw [List.length_append, List.length_append] at happend
    omega

/-- Nothing comes back of a list of codes that is cut. -/
theorem answer_cut {codes : List Chars} {cut : Bytes} (hcut : cut <+: frame (.ok codes)) (hne : cut ≠ frame (.ok codes)) : answer cut = none := by
  rw [frame_ok] at hcut hne
  unfold answer
  by_cases hshort : cut.length < magic.length
  · rw [splitOnce_short hshort]
  · obtain ⟨later, rfl⟩ : magic <+: cut := List.prefix_of_prefix_length_le ⟨_, rfl⟩ hcut (by omega)
    have hlater := (List.prefix_append_right_inj _).mp hcut
    have hnone : Split.splitOnce magic ([] : Bytes) = none := by decide
    have hmagic := splitOnce_magic hnone later
    rw [List.nil_append] at hmagic
    rw [hmagic]
    match later with
    | [] => rfl
    | [status] =>
      obtain ⟨hstatus, -⟩ := List.cons_prefix_cons.mp hlater
      subst hstatus
      rfl
    | status :: n :: later =>
      obtain ⟨hstatus, hlater'⟩ := List.cons_prefix_cons.mp hlater
      obtain ⟨hn, hcodes⟩ := List.cons_prefix_cons.mp hlater'
      subst hstatus
      subst hn
      show (takeCodes (min (UInt8.ofNat (kept codes).length).toNat maxCodes) later).map Except.ok = none
      rw [count_eq, takeCodes_cut (kept_spec codes).2 hcodes fun heq => hne (by rw [heq])]
      rfl

theorem addCodes_spec (found : List Chars) {out : List Chars} (hlen : out.length ≤ maxCodes) (hout : ∀ c ∈ out, Text.byteLen c ≤ maxPayload) :
    (found.foldl addCode out).length ≤ maxCodes ∧ ∀ c ∈ found.foldl addCode out, Text.byteLen c ≤ maxPayload := by
  induction found generalizing out with
  | nil => exact ⟨hlen, hout⟩
  | cons s found ih =>
    rw [List.foldl_cons, addCode]
    split
    · rename_i hadd
      refine ih ?_ ?_
      · rw [List.length_append, List.length_singleton]
        omega
      · intro c hc
        cases List.mem_append.mp hc with
        | inl hold => exact hout c hold
        | inr hnew =>
          rw [List.mem_singleton.mp hnew]
          exact hadd.1
    · exact ih hlen hout

/-- What `read` gives fits into a frame. -/
theorem kept_read (found : List Chars) : kept (read found) = read found := by
  obtain ⟨hlen, hall⟩ : (read found).length ≤ maxCodes ∧ ∀ c ∈ read found, Text.byteLen c ≤ maxPayload :=
    addCodes_spec found (Nat.zero_le _) nofun
  unfold kept
  rw [List.filter_eq_self.mpr fun c hc => decide_eq_true (hall c hc), List.take_of_length_le hlen]

/-! ## Scans -/

/-- The walk over what is left of the bytes. -/
def walk : Nat → Bytes → Nat → Option Nat
  | 0, _, _ => none
  | fuel + 1, first :: m :: rest, n =>
    if first ≠ 0xff then walk fuel (m :: rest) n
    else if m = 0xff then walk fuel (m :: rest) n
    else if m = 0x00 ∨ m = 0x01 ∨ 0xd0 ≤ m ∧ m ≤ 0xd8 then walk fuel rest n
    else if m = 0xd9 then some n
    else
      let n := n + if m = 0xda then 1 else 0
      match rest with
      | high :: low :: _ => walk fuel (rest.drop (max (high.toNat * 256 + low.toNat) 2)) n
      | _ => some n
  | _ + 1, _, n => some n

theorem scanFrom_eq (b : Bytes) (fuel i n : Nat) : scanFrom b fuel i n = walk fuel (b.drop i) n := by
  induction fuel generalizing i n with
  | zero => rfl
  | succ fuel ih =>
    have hfirst : b[i]? = (b.drop i)[0]? := by rw [List.getElem?_drop]; rfl
    have hsecond : b[i + 1]? = (b.drop i)[1]? := by rw [List.getElem?_drop]
    have hthird : b[i + 2]? = (b.drop i)[2]? := by rw [List.getElem?_drop]
    have hfourth : b[i + 3]? = (b.drop i)[3]? := by rw [List.getElem?_drop]
    have hrest : ∀ k, b.drop (i + k) = (b.drop i).drop k := fun k => by rw [List.drop_drop]
    have hpast : ∀ k, b.drop (i + 2 + k) = ((b.drop i).drop 2).drop k := fun k => by rw [List.drop_drop, List.drop_drop, Nat.add_assoc]
    unfold scanFrom
    simp only [ih, hfirst, hsecond, hthird, hfourth, hrest, hpast]
    generalize b.drop i = left
    match left with
    | [] => rfl
    | [first] => rfl
    | [first, m] => rfl
    | [first, m, high] => rfl
    | first :: m :: high :: low :: left => rfl

theorem walk_ends (fuel : Nat) (left : Bytes) (n : Nat) (h : left.length < fuel) : ∃ k, walk fuel left n = some k := by
  induction fuel generalizing left n with
  | zero => omega
  | succ fuel ih =>
    match left with
    | [] => exact ⟨n, rfl⟩
    | [first] => exact ⟨n, rfl⟩
    | first :: m :: rest =>
      rw [List.length_cons, List.length_cons] at h
      unfold walk
      split
      · exact ih _ n (by rw [List.length_cons]; omega)
      · split
        · exact ih _ n (by rw [List.length_cons]; omega)
        · split
          · exact ih _ n (by omega)
          · split
            · exact ⟨n, rfl⟩
            · dsimp only
              split
              · exact ih _ _ (by rw [List.length_drop]; omega)
              · exact ⟨_, rfl⟩

/-- The walk ends on any bytes. -/
theorem scanCount_ends (b : Bytes) : ∃ k, scanCount b = some k := by
  unfold scanCount
  rw [scanFrom_eq]
  exact walk_ends _ _ _ (by rw [List.length_drop]; omega)

/-- A marker with a length after it, no scan's. -/
def Segment (m : UInt8) : Prop := m ≠ 0x00 ∧ m ≠ 0x01 ∧ ¬ (0xd0 ≤ m ∧ m ≤ 0xd9) ∧ m ≠ 0xda ∧ m ≠ 0xff

/-- The coded data of a scan: any bytes but 0xff, which is stuffed, and restarts. -/
inductive Coded : Bytes → Prop
  | nil : Coded []
  | plain {b : UInt8} {data : Bytes} : b ≠ 0xff → Coded data → Coded (b :: data)
  | stuffed {data : Bytes} : Coded data → Coded (0xff :: 0x00 :: data)
  | restart {m : UInt8} {data : Bytes} (fill : Nat) : 0xd0 ≤ m → m ≤ 0xd7 → Coded data → Coded (List.replicate fill 0xff ++ 0xff :: m :: data)

/-- A JPEG after its first marker, and how many scans it has. Any number of 0xff may stand before a marker. -/
inductive Jpeg : Nat → Bytes → Prop
  | eoi (fill : Nat) (after : Bytes) : Jpeg 0 (List.replicate fill 0xff ++ 0xff :: 0xd9 :: after)
  | segment {m high low : UInt8} {body rest : Bytes} {k : Nat} (fill : Nat) : Segment m → body.length + 2 = high.toNat * 256 + low.toNat →
      Jpeg k rest → Jpeg k (List.replicate fill 0xff ++ 0xff :: m :: high :: low :: (body ++ rest))
  | scan {high low : UInt8} {header data rest : Bytes} {k : Nat} (fill : Nat) : header.length + 2 = high.toNat * 256 + low.toNat →
      Coded data → Jpeg k rest → Jpeg (k + 1) (List.replicate fill 0xff ++ 0xff :: 0xda :: high :: low :: (header ++ (data ++ rest)))

/-- The walk finds `k` scans, with a turn for each byte and any number found before. -/
def Finds (k : Nat) (left : Bytes) : Prop := ∀ fuel n, left.length < fuel → walk fuel left n = some (n + k)

theorem Finds.fill {k : Nat} {m : UInt8} {rest : Bytes} (h : Finds k (0xff :: m :: rest)) (fill : Nat) :
    Finds k (List.replicate fill 0xff ++ 0xff :: m :: rest) := by
  induction fill with
  | zero => exact h
  | succ fill ih =>
    obtain ⟨next, later, hnext⟩ : ∃ next later, List.replicate fill 0xff ++ 0xff :: m :: rest = 0xff :: next :: later := by
      cases fill with
      | zero => exact ⟨m, rest, rfl⟩
      | succ fill =>
        cases fill with
        | zero => exact ⟨_, _, rfl⟩
        | succ fill => exact ⟨_, _, rfl⟩
    rw [hnext] at ih
    rw [List.replicate_succ, List.cons_append, hnext]
    intro fuel n hfuel
    cases fuel with
    | zero => omega
    | succ fuel =>
      rw [List.length_cons] at hfuel
      have hlater := ih fuel n (by omega)
      unfold walk
      rw [if_neg (by decide), if_pos rfl]
      exact hlater

theorem Finds.plain {k : Nat} {b m : UInt8} {rest : Bytes} (hb : b ≠ 0xff) (h : Finds k (m :: rest)) : Finds k (b :: m :: rest) := by
  intro fuel n hfuel
  cases fuel with
  | zero => omega
  | succ fuel =>
    rw [List.length_cons] at hfuel
    unfold walk
    rw [if_pos hb]
    exact h fuel n (by omega)

/-- A marker with no length. -/
theorem Finds.bare {k : Nat} {m : UInt8} {rest : Bytes} (hm : m = 0x00 ∨ m = 0x01 ∨ 0xd0 ≤ m ∧ m ≤ 0xd8) (h : Finds k rest) :
    Finds k (0xff :: m :: rest) := by
  have hff : m ≠ 0xff := by
    rintro rfl
    revert hm
    decide
  intro fuel n hfuel
  cases fuel with
  | zero => omega
  | succ fuel =>
    rw [List.length_cons, List.length_cons] at hfuel
    unfold walk
    rw [if_neg (by decide), if_neg hff, if_pos hm]
    exact h fuel n (by omega)

theorem Finds.past {k : Nat} {m high low : UInt8} {body rest : Bytes} (hm : Segment m ∨ m = 0xda)
    (hlen : body.length + 2 = high.toNat * 256 + low.toNat) (h : Finds k rest) :
    Finds (k + if m = 0xda then 1 else 0) (0xff :: m :: high :: low :: (body ++ rest)) := by
  have hff : m ≠ 0xff := by
    rintro rfl
    cases hm with
    | inl hm => exact hm.2.2.2.2 rfl
    | inr hm => cases hm
  have hlength : ¬ (m = 0x00 ∨ m = 0x01 ∨ 0xd0 ≤ m ∧ m ≤ 0xd8) ∧ m ≠ 0xd9 := by
    cases hm with
    | inl hm =>
      obtain ⟨hzero, htem, hrange, -⟩ := hm
      refine ⟨?_, ?_⟩
      · intro hbare
        obtain hbare | hbare | hbare := hbare
        · exact hzero hbare
        · exact htem hbare
        · exact hrange ⟨hbare.1, UInt8.le_trans hbare.2 (by decide)⟩
      · intro hend
        subst hend
        exact hrange ⟨by decide, by decide⟩
    | inr hm =>
      subst hm
      decide
  intro fuel n hfuel
  cases fuel with
  | zero => omega
  | succ fuel =>
    simp only [List.length_cons, List.length_append] at hfuel
    have hskip : (high :: low :: (body ++ rest)).drop (max (high.toNat * 256 + low.toNat) 2) = rest := by
      rw [Nat.max_eq_left (by omega), ← hlen]
      show (body ++ rest).drop body.length = rest
      exact List.drop_left
    have hrest := h fuel (n + if m = 0xda then 1 else 0) (by omega)
    unfold walk
    rw [if_neg (by decide), if_neg hff, if_neg hlength.1, if_neg hlength.2]
    dsimp only
    rw [hskip, hrest]
    congr 1
    omega

theorem Finds.coded {k : Nat} {data rest : Bytes} (hdata : Coded data) (hne : rest ≠ []) (h : Finds k rest) : Finds k (data ++ rest) := by
  induction hdata with
  | nil => exact h
  | plain hb _ ih =>
    rename_i b data _
    obtain ⟨m, later, hnext⟩ := List.exists_cons_of_ne_nil (List.append_ne_nil_of_right_ne_nil data hne)
    rw [List.cons_append, hnext]
    rw [hnext] at ih
    exact ih.plain hb
  | stuffed _ ih => exact ih.bare (Or.inl rfl)
  | restart fill hlow hhigh _ ih =>
    rw [List.append_assoc]
    exact (ih.bare (Or.inr (Or.inr ⟨hlow, UInt8.le_trans hhigh (by decide)⟩))).fill fill

theorem Jpeg.ne_nil {k : Nat} {left : Bytes} (h : Jpeg k left) : left ≠ [] := by
  cases h <;> exact List.append_ne_nil_of_right_ne_nil _ (List.cons_ne_nil _ _)

/-- Over a JPEG the walk finds its scans. -/
theorem Jpeg.finds {k : Nat} {left : Bytes} (h : Jpeg k left) : Finds k left := by
  induction h with
  | eoi fill after =>
    refine Finds.fill ?_ fill
    intro fuel n hfuel
    cases fuel with
    | zero => omega
    | succ fuel => rfl
  | segment fill hm hlen _ ih =>
    have hpast := ih.past (Or.inl hm) hlen
    rw [if_neg hm.2.2.2.1] at hpast
    exact hpast.fill fill
  | scan fill hlen hdata hrest ih =>
    exact ((ih.coded hdata hrest.ne_nil).past (Or.inr rfl) hlen).fill fill

theorem scanCount_jpeg {k : Nat} {left : Bytes} (h : Jpeg k left) : scanCount (0xff :: 0xd8 :: left) = some k := by
  unfold scanCount
  rw [scanFrom_eq]
  have hfound := h.finds ((0xff :: 0xd8 :: left).length + 1) 0 (by rw [List.length_cons, List.length_cons]; omega)
  rw [Nat.zero_add] at hfound
  exact hfound

/-- Photos are scaled to their blocks' means, scans are counted, and answers come back whole or not at all. -/
theorem photos_scaled_and_framed :
    (∀ w h budget lines, check w h = .ok () → 1000000 ≤ budget → lines.length = h → (∀ row ∈ lines, Row.Wide row w) →
      ∃ f small, Smallest w h budget f ∧ shrunk w h budget lines = some small ∧ Scaled w h f lines small) ∧
    (∀ b, ∃ k, scanCount b = some k) ∧
    (∀ k left, Jpeg k left → scanCount (0xff :: 0xd8 :: left) = some k) ∧
    (∀ before found, Split.splitOnce magic before = none → answer (before ++ frame (.ok (read found))) = some (.ok (read found))) ∧
    (∀ before, Split.splitOnce magic before = none → ∀ fail ∈ fails, answer (before ++ frame (.error fail)) = some (.error fail)) ∧
    (∀ codes cut, cut <+: frame (.ok codes) → cut ≠ frame (.ok codes) → answer cut = none) := by
  refine ⟨fun w h budget lines hcheck hbudget hlen hwide => shrunk_spec hcheck hbudget hlen hwide, scanCount_ends, fun k left h => scanCount_jpeg h, ?_,
    fun before h fail hfail => answer_fail h hfail, fun codes cut hcut hne => answer_cut hcut hne⟩
  intro before found h
  have hframe := answer_frame h (read found)
  rw [kept_read] at hframe
  exact hframe

/-- A code behind other bytes, some of them the magic's. -/
theorem code_behind_noise : answer ([0x51, 0x52, 0x44, 0x0a, 0x51] ++ frame (.ok (read ["LPA".toList]))) = some (.ok (read ["LPA".toList])) :=
  photos_scaled_and_framed.2.2.2.1 _ _ (by decide)

end OpenU60.Web.QrDecode
