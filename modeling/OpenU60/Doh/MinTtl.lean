/-
  OpenU60.Doh.MinTtl — how long an answer may be kept (`zte-agent/src/doh/dns_packet.rs`,
  `extract_min_ttl`, `skip_name`).

  `readMessage` reads a message as the protocol has it: names of labels of up to 63 bytes that end in a
  pointer or the root, four bytes after a question's name, ten and the data after a record's. The lifetime
  that is asked for (`Message.minTtl`) is the least one of the records but OPT, which keeps flags in that
  field. `layout` is the walk of the code: what records it finds whole, and whether it stops in a name.
  - `extract_min_ttl_iff`: the code finds that lifetime, and 0 for what does not parse, exactly where no
    OPT record and no broken end gets in the way (`Harmless`).
  - `opt_flags_taken` is an answer that is never cached for the flags of its OPT record.
-/

import Mathlib
import OpenU60.Doh.Packet

namespace OpenU60.Doh

open OpenU60.Lib

def ttlMax : Nat := 2 ^ 32 - 1

/-! ## Messages -/

/-- A name's length in the packet, and what follows it. -/
def readName : Nat → Bytes → Option (Nat × Bytes)
  | 0, _ => none
  | _ + 1, [] => none
  | fuel + 1, len :: rest =>
    if len = 0 then some (1, rest)
    else if 0xC0 ≤ len then if rest.isEmpty then none else some (2, rest.drop 1)
    else if 0x40 ≤ len then none
    else if rest.length < len.toNat then none
    else (readName fuel (rest.drop len.toNat)).map fun (n, rest') => (1 + len.toNat + n, rest')

structure Record where
  nameLength : Nat
  rtype : Nat
  ttl : Nat
  deriving DecidableEq

def Record.isOpt (r : Record) : Bool := r.rtype = 41

def readRecord (buf : Bytes) : Option (Record × Bytes) :=
  (readName buf.length buf).bind fun (n, rest) =>
    if rest.length < 10 + numberAt 2 rest 8 then none
    else some (⟨n, numberAt 2 rest 0, numberAt 4 rest 4⟩, rest.drop (10 + numberAt 2 rest 8))

def readRecords : Nat → Bytes → Option (List Record)
  | 0, _ => some []
  | count + 1, buf => (readRecord buf).bind fun (r, rest) => (readRecords count rest).map (r :: ·)

/-- The lengths of the questions' names, and what follows. -/
def readQuestions : Nat → Bytes → Option (List Nat × Bytes)
  | 0, buf => some ([], buf)
  | count + 1, buf =>
    (readName buf.length buf).bind fun (n, rest) =>
      if rest.length < 4 then none else (readQuestions count (rest.drop 4)).map fun (ns, rest') => (n :: ns, rest')

structure Message where
  questions : List Nat
  records : List Record
  deriving DecidableEq

def recordCount (buf : Bytes) : Nat := numberAt 2 buf 6 + numberAt 2 buf 8 + numberAt 2 buf 10

def readMessage (buf : Bytes) : Option Message :=
  if buf.length < 12 then none
  else (readQuestions (numberAt 2 buf 4) (buf.drop 12)).bind fun (ns, rest) => (readRecords (recordCount buf) rest).map (⟨ns, ·⟩)

namespace Message

/-- No name is longer than 255 bytes. -/
def WellFormed (m : Message) : Prop := (∀ n ∈ m.questions, n ≤ 255) ∧ ∀ r ∈ m.records, r.nameLength ≤ 255

def lifetimes (m : Message) : List Nat := (m.records.filter (¬ Record.isOpt ·)).map (·.ttl)

/-- The least lifetime, 0 where there is no record. -/
def minTtl (m : Message) : Nat := m.lifetimes.min?.getD 0

end Message

/-! ## The walk -/

structure Layout where
  ttls : List Nat
  /-- A name runs out of the packet, or has too many labels. -/
  inName : Bool
  deriving DecidableEq

/-- The lifetimes of the records that are whole. -/
def layout (buf : Bytes) : Nat → Nat → Layout
  | 0, _ => ⟨[], false⟩
  | count + 1, pos =>
    match skipName buf 128 pos with
    | none => ⟨[], true⟩
    | some pos =>
      let pos' := pos + 10 + numberAt 2 buf (pos + 8)
      if buf.length < pos + 10 ∨ buf.length < pos' then ⟨[], false⟩
      else { layout buf count pos' with ttls := numberAt 4 buf (pos + 4) :: (layout buf count pos').ttls }

theorem minTtl_layout (buf : Bytes) (count pos least : Nat) : minTtl buf count pos least =
    if (layout buf count pos).inName then none else some ((layout buf count pos).ttls.foldl min least) := by
  induction count generalizing pos least with
  | zero => rfl
  | succ count ih =>
    unfold minTtl layout
    cases skipName buf 128 pos with
    | none => rfl
    | some pos =>
      dsimp only [Option.bind_some]
      by_cases hshort : buf.length < pos + 10
      · simp [hshort]
      · by_cases hdata : buf.length < pos + 10 + numberAt 2 buf (pos + 8)
        · simp [hshort, hdata]
        · have hmin : (if numberAt 4 buf (pos + 4) < least then numberAt 4 buf (pos + 4) else least) = min least (numberAt 4 buf (pos + 4)) := by
            split <;> omega
          simp only [hshort, hdata, if_false, or_self, hmin, ih, List.foldl_cons]

theorem foldl_min_le (ttls : List Nat) (least : Nat) : ttls.foldl min least ≤ least ∧ ∀ t ∈ ttls, ttls.foldl min least ≤ t := by
  induction ttls generalizing least with
  | nil => simp
  | cons t ttls ih =>
    obtain ⟨hle, hall⟩ := ih (min least t)
    refine ⟨hle.trans (Nat.min_le_left ..), ?_⟩
    intro u hu
    rcases List.mem_cons.mp hu with rfl | hu
    · exact hle.trans (Nat.min_le_right ..)
    · exact hall u hu

theorem foldl_min_mem (ttls : List Nat) (least : Nat) : ttls.foldl min least = least ∨ ttls.foldl min least ∈ ttls := by
  induction ttls generalizing least with
  | nil => exact .inl rfl
  | cons t ttls ih =>
    rw [List.foldl_cons]
    rcases ih (min least t) with h | h
    · rcases Nat.le_total least t with hle | hle
      · exact .inl (h.trans (Nat.min_eq_left hle))
      · exact .inr (List.mem_cons.mpr (.inl (h.trans (Nat.min_eq_right hle))))
    · exact .inr (List.mem_cons_of_mem _ h)

/-! ## Where the two meet -/

theorem pointer_iff (b : UInt8) : b &&& 0xC0 = 0xC0 ↔ 0xC0 ≤ b :=
  BigEndian.forall_byte (p := fun b => b &&& 0xC0 = 0xC0 ↔ 0xC0 ≤ b) (by decide +kernel) b

theorem numberAt_drop (k : Nat) (buf : Bytes) (pos i : Nat) : numberAt k (buf.drop pos) i = numberAt k buf (pos + i) := by
  rw [numberAt, numberAt, List.drop_drop]

theorem numberAt_lt (k : Nat) (buf : Bytes) (pos : Nat) : numberAt k buf pos < 256 ^ k := by
  refine lt_of_lt_of_le (BigEndian.ofBytes_lt _) (Nat.pow_le_pow_right (by omega) ?_)
  rw [List.length_take]
  exact Nat.min_le_left ..

/-- A name that is read is skipped, in as many steps as it has labels at most. -/
theorem skipName_of_read {buf : Bytes} {fuel pos n k : Nat} {rest : Bytes} (h : readName fuel (buf.drop pos) = some (n, rest))
    (hsteps : n ≤ 2 * k) : skipName buf k pos = some (pos + n) ∧ rest = buf.drop (pos + n) ∧ pos + n ≤ buf.length := by
  induction fuel generalizing pos n k with
  | zero => cases h
  | succ fuel ih =>
    cases hdrop : buf.drop pos with
    | nil =>
      rw [hdrop] at h
      cases h
    | cons len tail =>
      have hpos : pos < buf.length := by
        have := congrArg List.length hdrop
        simp only [List.length_drop, List.length_cons] at this
        omega
      have hget : buf[pos]? = some len := by
        rw [← List.head?_drop, hdrop]
        rfl
      have htail : tail = buf.drop (pos + 1) := by
        rw [← List.drop_drop, hdrop]
        rfl
      rw [hdrop, readName] at h
      split at h
      · rename_i hroot
        obtain ⟨rfl, rfl⟩ := Prod.mk.inj (Option.some.inj h)
        obtain ⟨k, rfl⟩ : ∃ l, k = l + 1 := ⟨k - 1, by omega⟩
        refine ⟨?_, htail, hpos⟩
        simp only [skipName, hget, hroot, if_true]
      · rename_i hroot
        split at h
        · rename_i hpointer
          split at h
          · cases h
          · rename_i hne
            obtain ⟨rfl, rfl⟩ := Prod.mk.inj (Option.some.inj h)
            obtain ⟨k, rfl⟩ : ∃ l, k = l + 1 := ⟨k - 1, by omega⟩
            have hlength : pos + 2 ≤ buf.length := by
              have hne : tail ≠ [] := by simpa using hne
              have := List.length_pos_of_ne_nil hne
              rw [htail, List.length_drop] at this
              omega
            refine ⟨?_, by rw [htail, List.drop_drop], hlength⟩
            simp only [skipName, hget, hroot, (pointer_iff len).mpr hpointer, if_true, if_false]
        · rename_i hpointer
          split at h
          · cases h
          · split at h
            · cases h
            · rename_i hlabel
              obtain ⟨⟨m, rest'⟩, hread, heq⟩ := Option.map_eq_some_iff.mp h
              obtain ⟨rfl, rfl⟩ := Prod.mk.inj heq
              have hlen : len.toNat ≠ 0 := fun h0 => hroot (UInt8.toNat_inj.mp h0)
              obtain ⟨k, rfl⟩ : ∃ l, k = l + 1 := ⟨k - 1, by omega⟩
              rw [htail, List.drop_drop] at hread
              obtain ⟨hskip, hrest, hle⟩ := ih (k := k) hread (by omega)
              have hsum : pos + (1 + len.toNat + m) = pos + 1 + len.toNat + m := by omega
              refine ⟨?_, by rw [hrest, hsum], by omega⟩
              have hplain : ¬ len &&& 0xC0 = 0xC0 := fun hp => hpointer ((pointer_iff len).mp hp)
              simp only [skipName, hget, hroot, hplain, if_false]
              rw [hskip, hsum]

theorem layout_of_read {buf : Bytes} {count pos : Nat} {rs : List Record} (h : readRecords count (buf.drop pos) = some rs)
    (hnames : ∀ r ∈ rs, r.nameLength ≤ 255) : layout buf count pos = ⟨rs.map (·.ttl), false⟩ := by
  induction count generalizing pos rs with
  | zero =>
    cases h
    rfl
  | succ count ih =>
    obtain ⟨⟨r, rest⟩, hrecord, hrest⟩ := Option.bind_eq_some_iff.mp h
    obtain ⟨rs', hrs, rfl⟩ := Option.map_eq_some_iff.mp hrest
    obtain ⟨⟨n, after⟩, hname, hfields⟩ := Option.bind_eq_some_iff.mp hrecord
    dsimp only at hfields
    split at hfields
    · cases hfields
    · rename_i hlong
      obtain ⟨rfl, rfl⟩ := Prod.mk.inj (Option.some.inj hfields)
      have hn : n ≤ 255 := hnames _ List.mem_cons_self
      obtain ⟨hskip, rfl, hle⟩ := skipName_of_read (k := 128) hname (by omega)
      rw [List.length_drop, numberAt_drop] at hlong
      rw [List.drop_drop, numberAt_drop] at hrs
      have hwhole : ¬ (buf.length < pos + n + 10 ∨ buf.length < pos + n + 10 + numberAt 2 buf (pos + n + 8)) := by omega
      have hrest : readRecords count (buf.drop (pos + n + 10 + numberAt 2 buf (pos + n + 8))) = some rs' := by
        rw [← hrs, Nat.add_assoc (pos + n) 10]
      have hnext := ih hrest fun r hr => hnames r (List.mem_cons_of_mem _ hr)
      unfold layout
      rw [hskip]
      dsimp only
      rw [if_neg hwhole, hnext, List.map_cons]
      simp only [numberAt_drop]

theorem questions_of_read {buf : Bytes} {count pos : Nat} {ns : List Nat} {rest : Bytes} (h : readQuestions count (buf.drop pos) = some (ns, rest))
    (hnames : ∀ n ∈ ns, n ≤ 255) : ∃ p, skipQuestions buf count pos = some (some p) ∧ rest = buf.drop p := by
  induction count generalizing pos ns with
  | zero =>
    obtain ⟨rfl, rfl⟩ := Prod.mk.inj (Option.some.inj h)
    exact ⟨pos, rfl, rfl⟩
  | succ count ih =>
    obtain ⟨⟨n, after⟩, hname, hrest⟩ := Option.bind_eq_some_iff.mp h
    dsimp only at hrest
    split at hrest
    · cases hrest
    · rename_i hlong
      obtain ⟨⟨ns', rest'⟩, hread, heq⟩ := Option.map_eq_some_iff.mp hrest
      obtain ⟨rfl, rfl⟩ := Prod.mk.inj heq
      have hn : n ≤ 255 := hnames _ List.mem_cons_self
      obtain ⟨hskip, rfl, hle⟩ := skipName_of_read (k := 128) hname (by omega)
      rw [List.length_drop] at hlong
      rw [List.drop_drop] at hread
      obtain ⟨p, hp, hrest⟩ := ih hread fun n hn => hnames n (List.mem_cons_of_mem _ hn)
      refine ⟨p, ?_, hrest⟩
      unfold skipQuestions
      rw [hskip]
      simp only [Option.bind_some]
      rw [if_neg (by omega), hp]

/-- The walk over the records, from the end of the questions if that is reached. -/
def walk (buf : Bytes) : Option Layout :=
  if buf.length < 12 ∨ recordCount buf = 0 then none
  else
    match skipQuestions buf (numberAt 2 buf 4) 12 with
    | some (some pos) => some (layout buf (recordCount buf) pos)
    | _ => none

/-- The least of the lifetimes, where there is one and it is not the greatest number. -/
def leastOf (ttls : List Nat) : Nat := if ttls.foldl min ttlMax = ttlMax then 0 else ttls.foldl min ttlMax

theorem extractMinTtl_eq (buf : Bytes) : extractMinTtl buf =
    match walk buf with
    | some ⟨ttls, false⟩ => leastOf ttls
    | _ => 0 := by
  unfold extractMinTtl extractMinTtlInner walk
  by_cases hshort : buf.length < 12
  · simp [hshort]
  · by_cases hnone : recordCount buf = 0
    · have : numberAt 2 buf 6 + numberAt 2 buf 8 + numberAt 2 buf 10 = 0 := hnone
      simp [hshort, hnone, this]
    · have hsome : ¬ numberAt 2 buf 6 + numberAt 2 buf 8 + numberAt 2 buf 10 = 0 := hnone
      simp only [hshort, hnone, hsome, if_false, or_self]
      cases skipQuestions buf (numberAt 2 buf 4) 12 with
      | none => rfl
      | some pos =>
        cases pos with
        | none => rfl
        | some pos =>
          simp only [Option.bind_some, minTtl_layout]
          show Option.getD (Option.map _ (if (layout buf (recordCount buf) pos).inName = true then none
            else some ((layout buf (recordCount buf) pos).ttls.foldl min ttlMax))) 0 = _
          cases hl : layout buf (recordCount buf) pos with
          | mk ttls inName =>
            cases inName with
            | true => rfl
            | false => rfl

/-! ## The condition -/

/-- No flags of an OPT record stand lower than the other records' lifetimes; those are not the greatest
    number, and without any the flags are none (or the greatest number). -/
def OptHarmless (m : Message) : Prop :=
  let opts := (m.records.filter (Record.isOpt ·)).map (·.ttl)
  match m.lifetimes.min? with
  | some least => least ≠ ttlMax ∧ ∀ o ∈ opts, least ≤ o
  | none => 0 ∈ opts ∨ ∀ o ∈ opts, o = ttlMax

/-- A broken message: the walk ends in a question or in a name, or what it found whole has no lifetime or
    one of 0. -/
def EndHarmless (buf : Bytes) : Prop :=
  ∀ l, walk buf = some l → l.inName = true ∨ 0 ∈ l.ttls ∨ ∀ t ∈ l.ttls, t = ttlMax

def Harmless (buf : Bytes) : Prop :=
  (∀ m, readMessage buf = some m → m.WellFormed → OptHarmless m) ∧ (readMessage buf = none → EndHarmless buf)

/-- The least lifetime of what is well formed, 0 for what does not parse. -/
def TtlFound (buf : Bytes) : Prop :=
  (∀ m, readMessage buf = some m → m.WellFormed → extractMinTtl buf = m.minTtl) ∧ (readMessage buf = none → extractMinTtl buf = 0)

theorem leastOf_zero (ttls : List Nat) (hmax : ∀ t ∈ ttls, t ≤ ttlMax) : leastOf ttls = 0 ↔ 0 ∈ ttls ∨ ∀ t ∈ ttls, t = ttlMax := by
  have hne : ttlMax ≠ 0 := by decide
  obtain ⟨hle, hall⟩ := foldl_min_le ttls ttlMax
  unfold leastOf
  constructor
  · intro h
    split at h
    · rename_i hgreatest
      refine .inr fun t ht => ?_
      have := hall t ht
      have := hmax t ht
      omega
    · rename_i hless
      rcases foldl_min_mem ttls ttlMax with hm | hm
      · exact absurd hm hless
      · rw [h] at hm
        exact .inl hm
  · rintro (hzero | hgreatest)
    · have := hall 0 hzero
      rw [if_neg (by omega)]
      omega
    · rw [if_pos]
      rcases foldl_min_mem ttls ttlMax with hm | hm
      · exact hm
      · exact hgreatest _ hm

/-- The least of all records against the least of the real ones. -/
theorem leastOf_real {real opts ttls : List Nat} (hmem : ∀ t, t ∈ ttls ↔ t ∈ real ∨ t ∈ opts) (hmax : ∀ t ∈ ttls, t ≤ ttlMax) {least : Nat}
    (hleast : real.min? = some least) : leastOf ttls = least ↔ least ≠ ttlMax ∧ ∀ o ∈ opts, least ≤ o := by
  have hne : ttlMax ≠ 0 := by decide
  obtain ⟨hin, hreal⟩ := List.min?_eq_some_iff.mp hleast
  obtain ⟨hle, hall⟩ := foldl_min_le ttls ttlMax
  have hown := hall least ((hmem least).mpr (.inl hin))
  have hbound := hmax least ((hmem least).mpr (.inl hin))
  unfold leastOf
  constructor
  · intro h
    split at h
    · omega
    · rename_i hless
      refine ⟨by omega, fun o ho => ?_⟩
      have := hall o ((hmem o).mpr (.inr ho))
      omega
  · rintro ⟨hsmall, hopts⟩
    have hmin : ttls.foldl min ttlMax = least := by
      rcases foldl_min_mem ttls ttlMax with hm | hm
      · omega
      · rcases (hmem _).mp hm with hr | ho
        · have := hreal _ hr
          omega
        · have := hopts _ ho
          omega
    rw [hmin, if_neg hsmall]

theorem numberAt_ttl (buf : Bytes) (pos : Nat) : numberAt 4 buf pos ≤ ttlMax := by
  have := numberAt_lt 4 buf pos
  unfold ttlMax
  omega

theorem layout_ttls (buf : Bytes) (count pos : Nat) : ∀ t ∈ (layout buf count pos).ttls, t ≤ ttlMax := by
  induction count generalizing pos with
  | zero =>
    intro t ht
    cases ht
  | succ count ih =>
    unfold layout
    cases skipName buf 128 pos with
    | none =>
      intro t ht
      cases ht
    | some pos =>
      dsimp only
      split
      · intro t ht
        cases ht
      · intro t ht
        rcases List.mem_cons.mp ht with rfl | ht
        · exact numberAt_ttl ..
        · exact ih _ t ht

theorem walk_ttls {buf : Bytes} {l : Layout} (h : walk buf = some l) : ∀ t ∈ l.ttls, t ≤ ttlMax := by
  unfold walk at h
  split at h
  · cases h
  · split at h
    · cases h
      intro t ht
      exact layout_ttls _ _ _ t ht
    · cases h

/-- The walk finds every record of a well-formed message. -/
theorem walk_of_read {buf : Bytes} {m : Message} (h : readMessage buf = some m) (hm : m.WellFormed) :
    if recordCount buf = 0 then m.records = [] ∧ walk buf = none else walk buf = some ⟨m.records.map (·.ttl), false⟩ := by
  unfold readMessage at h
  split at h
  · cases h
  · rename_i hlong
    obtain ⟨⟨ns, rest⟩, hquestions, hrecords⟩ := Option.bind_eq_some_iff.mp h
    obtain ⟨rs, hrs, rfl⟩ := Option.map_eq_some_iff.mp hrecords
    obtain ⟨p, hp, rfl⟩ := questions_of_read hquestions hm.1
    unfold walk
    by_cases hnone : recordCount buf = 0
    · rw [hnone] at hrs
      cases hrs
      simp [hnone]
    · rw [if_neg hnone, if_neg (by omega), hp]
      exact congrArg some (layout_of_read hrs hm.2)

theorem mem_lifetimes {m : Message} {t : Nat} :
    t ∈ m.records.map (·.ttl) ↔ t ∈ m.lifetimes ∨ t ∈ (m.records.filter (Record.isOpt ·)).map (·.ttl) := by
  constructor
  · intro h
    obtain ⟨r, hr, rfl⟩ := List.mem_map.mp h
    cases hopt : r.isOpt with
    | true => exact .inr (List.mem_map.mpr ⟨r, List.mem_filter.mpr ⟨hr, hopt⟩, rfl⟩)
    | false => exact .inl (List.mem_map.mpr ⟨r, List.mem_filter.mpr ⟨hr, by simp [hopt]⟩, rfl⟩)
  · rintro (h | h)
    all_goals
      obtain ⟨r, hr, rfl⟩ := List.mem_map.mp h
      exact List.mem_map_of_mem (List.mem_filter.mp hr).1

/-- Of a message that is read. -/
theorem least_iff {m : Message} (hmax : ∀ t ∈ m.records.map (·.ttl), t ≤ ttlMax) :
    leastOf (m.records.map (·.ttl)) = m.minTtl ↔ OptHarmless m := by
  unfold Message.minTtl OptHarmless
  cases hleast : m.lifetimes.min? with
  | some least => exact leastOf_real (fun t => mem_lifetimes) hmax hleast
  | none =>
    have hnone : m.lifetimes = [] := List.min?_eq_none_iff.mp hleast
    have hopts : ∀ t, t ∈ m.records.map (·.ttl) ↔ t ∈ (m.records.filter (Record.isOpt ·)).map (·.ttl) := by
      intro t
      rw [mem_lifetimes, hnone]
      exact ⟨fun h => h.resolve_left List.not_mem_nil, .inr⟩
    refine (leastOf_zero _ hmax).trans ?_
    simp only [hopts]

theorem found_iff {buf : Bytes} {m : Message} (h : readMessage buf = some m) (hm : m.WellFormed) :
    extractMinTtl buf = m.minTtl ↔ OptHarmless m := by
  have hwalk := walk_of_read h hm
  rw [extractMinTtl_eq]
  split at hwalk
  · rw [hwalk.2]
    obtain ⟨questions, records⟩ := m
    obtain rfl := hwalk.1
    simp [Message.minTtl, Message.lifetimes, OptHarmless]
  · rw [hwalk]
    exact least_iff (walk_ttls hwalk)

theorem zero_iff (buf : Bytes) : extractMinTtl buf = 0 ↔ EndHarmless buf := by
  rw [extractMinTtl_eq, EndHarmless]
  cases hwalk : walk buf with
  | none => simp
  | some l =>
    have hmax := walk_ttls hwalk
    obtain ⟨ttls, inName⟩ := l
    cases inName with
    | true => simp
    | false =>
      refine (leastOf_zero ttls hmax).trans ?_
      simp

/-- What the code finds is right exactly where the condition holds. -/
theorem extract_min_ttl_iff (buf : Bytes) : TtlFound buf ↔ Harmless buf := by
  constructor
  · rintro ⟨hfound, hzero⟩
    exact ⟨fun m hread hm => (found_iff hread hm).mp (hfound m hread hm), fun hnone => (zero_iff buf).mp (hzero hnone)⟩
  · rintro ⟨hopts, hend⟩
    exact ⟨fun m hread hm => (found_iff hread hm).mpr (hopts m hread hm), fun hnone => (zero_iff buf).mpr (hend hnone)⟩

/-- An address for 300 s, and an OPT record without flags. -/
def optAnswer : Bytes :=
  [0, 1, 0x81, 0x80, 0, 0, 0, 1, 0, 0, 0, 1,
   0, 0, 1, 0, 1, 0, 0, 1, 0x2C, 0, 4, 192, 0, 2, 1,
   0, 0, 41, 4, 0xD0, 0, 0, 0, 0, 0, 0]

theorem opt_flags_taken : ¬ TtlFound optAnswer := by
  intro h
  have hfound := h.1 ⟨[], [⟨1, 1, 300⟩, ⟨1, 41, 0⟩]⟩ (by decide +kernel) ⟨by simp, by simp⟩
  revert hfound
  decide +kernel

end OpenU60.Doh
