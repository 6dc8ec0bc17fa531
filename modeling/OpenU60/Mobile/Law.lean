/-
  OpenU60.Mobile.Law — what the guard of the mobile side keeps, over every run.

  `Lawful` is the law of one connection. A read that is answered in time keeps it; a slow one breaks it
  twice: it is taken in at some later connection and dated then, and while the very first one
  runs everything is served and nobody is told. `Prompt` is the connection that meets neither.
  - `guard_lawful`: in every run the law holds of each connection exactly if each is prompt. That a peer
    refused by the newest table is not served for ten minutes, and that one read runs at a
    time, needs nothing (`Inv.refusing`, `Inv.one`).
  - `slow_reads_break_the_law`: an hour-old read decides, and a first read that hangs leaves the guard open.
-/

import OpenU60.Lib.Machine
import OpenU60.Mobile.Guard

namespace OpenU60.Mobile

open OpenU60.Lib.Machine

/-! ## The law -/

namespace World

/-- The law of a connection, of the state it leaves and of what was decided. -/
structure Lawful (w : World) (peer : SocketAddr) (served : Bool) : Prop where
  /-- A peer the newest table refuses is not served while that table is less than ten minutes old. -/
  refusing : ∀ p ∈ w.newest, admits p.1 peer = false → w.now < p.2 + keep → served = false
  /-- The decision rests on a table read within five seconds, unless the newest read failed or is running. -/
  fresh : peer.loopback = false → w.guard.failing = true ∨ w.guard.pending = some .running ∨
    ∃ p ∈ w.newest, w.guard.table = some p.1 ∧ w.now ≤ p.2 + maxAge
  /-- A refusal rests on a read within the second that says so or failed, or on one that is running. -/
  refusal : served = false → w.guard.pending = some .running ∨
    ∃ time ∈ w.ran, w.now ≤ time + retry ∧ (w.guard.failing = true ∨ ∃ p ∈ w.newest, p.2 = time ∧ admits p.1 peer = false)
  one : w.running ≤ 1
  /-- Who is served for want of a table is served with notice. -/
  said : served = true → peer.loopback = false → w.guard.table = none → w.mobileServed = true

/-- The law at an event. -/
def Keeps (w : World) : Event → Prop
  | .connect peer outcome => (w.step (.connect peer outcome)).Lawful peer (w.guard.admitPeer w.now peer outcome).1
  | _ => True

/-- The connection does not meet a slow read: none is running or outlasts its wait before any was taken in; one
    that has finished is taken in within five seconds, within one where the table then refuses the
    peer; and what decides without a read ran within five seconds, too. -/
def Timely (w : World) (peer : SocketAddr) (outcome : Outcome) : Prop :=
  match w.guard.pending with
  | some .running => peer.loopback = true ∨ w.guard.readAt.isSome = true ∨ w.unguarded.2 = true
  | some (.finished (some table) time) =>
    (peer.loopback = true ∨ w.now ≤ time + maxAge) ∧ (admits table peer = false → w.now ≤ time + retry)
  | some (.finished none time) =>
    w.guard.kept w.now = true → w.guard.serves peer = false → w.now ≤ time + retry
  | none =>
    if (w.guard.wantsRead peer w.now).1 = true then
      outcome = .slow → w.guard.readAt.isSome = true ∨ w.unguarded.2 = true
    else peer.loopback = true ∨ w.guard.failing = true ∨ ∃ p ∈ w.newest, w.now ≤ p.2 + maxAge

def Prompt (w : World) : Event → Prop
  | .connect peer outcome => w.Timely peer outcome
  | _ => True

/-! ## Every state of a run -/

theorem admits_loopback (table : Table) {peer : SocketAddr} (h : peer.loopback = true) : admits table peer = true := by
  unfold SocketAddr.loopback at h
  unfold admits
  dsimp only
  generalize peer.ip.canonical = ip at h
  rw [IpAddr.loopback_linkLocal h, h]
  rfl

/-- What holds of every state. -/
structure Inv (w : World) : Prop where
  on : w.guard.off = false
  flag : w.unguarded.1 = w.guard.isOpen
  one : w.running = if w.guard.pending = some .running then 1 else 0
  /-- Nothing was taken in yet, or the newest read is dated no earlier than it ran. -/
  read : w.guard.readAt = none ∧ w.ran = none ∧ w.guard.failing = false ∨
    ∃ read time, w.guard.readAt = some read ∧ w.ran = some time
  /-- There is a table, the newest one read, or its ten minutes are over. -/
  table : w.guard.table = none ∧ (∀ p ∈ w.newest, p.2 + keep ≤ w.now) ∧ (w.guard.readAt = none ∨ w.guard.failing = true) ∨
    ∃ table time good, w.guard.table = some table ∧ w.newest = some (table, time) ∧ w.guard.goodAt = some good ∧ time ≤ good ∧
      (w.guard.failing = false → w.ran = some time) ∧ w.guard.readAt.isSome = true
  finished : ∀ found time, w.guard.pending = some (.finished found time) → time ≤ w.now ∧ ∀ miss ∈ w.guard.missAt, miss ≤ time
  miss : ∀ miss ∈ w.guard.missAt, miss ≤ w.now ∧ (w.guard.pending = none → ∀ time ∈ w.ran, miss ≤ time)

/-- A read is taken in and dated now. -/
def took (w : World) (missAt : Option Nat) (found : Found) (time : Nat) : World :=
  { w with
    guard := { w.guard with missAt, pending := none }.store w.now found
    unguarded := (({ w.guard with missAt, pending := none }.store w.now found).isOpen, w.unguarded.2)
    ran := some time
    newest := (found.map (·, time)).or w.newest }

/-- What a connection does with the reads. -/
inductive Connects (w : World) (peer : SocketAddr) (outcome : Outcome) : World → Prop
  | late (found : Found) (time : Nat) : w.guard.pending = some (.finished found time) →
      Connects w peer outcome (w.took w.guard.missAt found time)
  | waits : w.guard.pending = some .running → Connects w peer outcome w
  | reads (found : Found) (missAt : Option Nat) : w.guard.pending = none → (w.guard.wantsRead peer w.now).1 = true →
      outcome = .answered found → missAt = w.guard.missAt ∨ missAt = some w.now → Connects w peer outcome (w.took missAt found w.now)
  | hangs (missAt : Option Nat) : w.guard.pending = none → (w.guard.wantsRead peer w.now).1 = true → outcome = .slow →
      missAt = w.guard.missAt ∨ missAt = some w.now →
      Connects w peer outcome { w with guard := { w.guard with missAt, pending := some .running }, running := w.running + 1 }
  | rests : w.guard.pending = none → (w.guard.wantsRead peer w.now).1 = false → Connects w peer outcome w

end World

namespace Guard

variable {g : Guard} {peer : SocketAddr} {now : Nat}

theorem wantsRead_snd (g : Guard) (peer : SocketAddr) (now : Nat) :
    ∃ missAt, (g.wantsRead peer now).2 = { g with missAt } ∧ (missAt = g.missAt ∨ missAt = some now) := by
  unfold wantsRead
  split
  · exact ⟨_, rfl, .inl rfl⟩
  · split
    · exact ⟨_, rfl, .inl rfl⟩
    · split
      · exact ⟨_, rfl, .inl rfl⟩
      · split
        · exact ⟨_, rfl, .inr rfl⟩
        · exact ⟨_, rfl, .inl rfl⟩

/-- Loopback never wants a read. -/
theorem wantsRead_true (h : (g.wantsRead peer now).1 = true) : peer.loopback = false := by
  unfold wantsRead at h
  split at h
  · cases h
  · rename_i hno
    exact Bool.eq_false_iff.mpr hno

theorem wantsRead_none (h : (g.wantsRead peer now).1 = false) : (g.wantsRead peer now).2 = g := by
  unfold wantsRead at h ⊢
  split
  · rfl
  · rename_i hremote
    rw [if_neg hremote] at h
    split
    · rfl
    · split
      · rfl
      · rename_i read hread hrecent
        rw [hread] at h
        dsimp only at h
        rw [if_neg hrecent] at h
        split
        · rename_i hmiss
          rw [if_pos hmiss] at h
          cases h
        · rfl

/-- Who wants no read finds a recent one, and if refused a miss within the second. -/
theorem wantsRead_false (h : (g.wantsRead peer now).1 = false) (hpeer : peer.loopback = false) :
    g.readAt.isSome = true ∧ (g.serves peer = false → ∃ miss ∈ g.missAt, now < miss + retry) := by
  unfold wantsRead at h
  rw [hpeer, if_neg Bool.false_ne_true] at h
  split at h
  · cases h
  · rename_i read hread
    split at h
    · cases h
    · split at h
      · cases h
      · rename_i hno
        refine ⟨by rw [hread]; rfl, fun hserves => ?_⟩
        rw [hserves, Bool.not_false, Bool.true_and] at hno
        cases hmiss : g.missAt with
        | none =>
          rw [hmiss] at hno
          exact absurd rfl hno
        | some miss =>
          rw [hmiss] at hno
          refine ⟨miss, rfl, ?_⟩
          have hlt : ¬ retry ≤ now - miss := by simpa using hno
          have hpos : 0 < retry := by decide
          omega

end Guard

namespace World

variable {w : World} {peer : SocketAddr} {outcome : Outcome}

theorem serves_eq (hon : w.guard.off = false) :
    (w.guard.admitPeer w.now peer outcome).1 = (w.step (.connect peer outcome)).guard.serves peer := by
  show _ = (w.guard.admitPeer w.now peer outcome).2.serves peer
  unfold Guard.admitPeer
  rw [hon]
  rfl

/-- Nothing to take in: at most a slow read starts. -/
theorem step_idle {g : Guard} (hon : w.guard.off = false) (hgather : w.guard.gather w.now peer outcome = (none, g))
    (htakes : w.takes peer outcome = none) : w.step (.connect peer outcome) =
      { w with guard := g, running := if w.guard.pending = none ∧ g.pending = some .running then w.running + 1 else w.running } := by
  have hadmits : (w.guard.admitPeer w.now peer outcome).2 = g := by
    unfold Guard.admitPeer
    rw [hon, hgather]
    rfl
  unfold World.step
  dsimp only
  rw [hadmits, htakes]
  rfl

theorem step_took {missAt : Option Nat} {found : Found} {time : Nat} (hon : w.guard.off = false)
    (hgather : w.guard.gather w.now peer outcome = (some found, { w.guard with missAt, pending := none }))
    (htakes : w.takes peer outcome = some (found, time)) : w.step (.connect peer outcome) = w.took missAt found time := by
  have hadmits : (w.guard.admitPeer w.now peer outcome).2 = ({ w.guard with missAt, pending := none } : Guard).store w.now found := by
    unfold Guard.admitPeer
    rw [hon, hgather]
    rfl
  have hidle : ¬ (w.guard.pending = none ∧
      (({ w.guard with missAt, pending := none } : Guard).store w.now found).pending = some .running) := by
    intro h
    cases found <;> cases h.2
  unfold World.step
  dsimp only
  rw [hadmits, htakes, if_neg hidle]
  rfl

theorem connects (hon : w.guard.off = false) : Connects w peer outcome (w.step (.connect peer outcome)) := by
  cases hpending : w.guard.pending with
  | some task =>
    cases task with
    | running =>
      have hgather : w.guard.gather w.now peer outcome = (none, w.guard) := by
        unfold Guard.gather
        rw [hpending]
      have htakes : w.takes peer outcome = none := by
        unfold World.takes
        rw [hpending]
      rw [step_idle hon hgather htakes, if_neg fun h => by cases hpending.symm.trans h.1]
      exact .waits hpending
    | finished found time =>
      have hgather : w.guard.gather w.now peer outcome = (some found, { w.guard with pending := none }) := by
        unfold Guard.gather
        rw [hpending]
      have htakes : w.takes peer outcome = some (found, time) := by
        unfold World.takes
        rw [hpending]
      rw [step_took hon hgather htakes]
      exact .late found time hpending
  | none =>
    obtain ⟨missAt, hsnd, hmiss⟩ := Guard.wantsRead_snd w.guard peer w.now
    cases hwants : (w.guard.wantsRead peer w.now).1 with
    | false =>
      have hgather : w.guard.gather w.now peer outcome = (none, w.guard) := by
        unfold Guard.gather
        rw [hpending]
        dsimp only
        rw [hwants, if_neg Bool.false_ne_true, Guard.wantsRead_none hwants]
      have htakes : w.takes peer outcome = none := by
        unfold World.takes
        rw [hpending]
        cases outcome with
        | answered found => exact if_neg (by rw [hwants]; exact Bool.false_ne_true)
        | slow => rfl
      rw [step_idle hon hgather htakes, if_neg fun h => by cases hpending.symm.trans h.2]
      exact .rests hpending hwants
    | true =>
      cases outcome with
      | answered found =>
        have hgather : w.guard.gather w.now peer (.answered found) = (some found, { w.guard with missAt }) := by
          unfold Guard.gather
          rw [hpending]
          dsimp only
          rw [hwants, if_pos rfl, hsnd]
        have htakes : w.takes peer (.answered found) = some (found, w.now) := by
          unfold World.takes
          rw [hpending]
          exact if_pos hwants
        have hidle : ({ w.guard with missAt } : Guard) = { w.guard with missAt, pending := none } := by rw [← hpending]
        rw [hidle] at hgather
        rw [step_took hon hgather htakes]
        exact .reads found missAt hpending hwants rfl hmiss
      | slow =>
        have hgather : w.guard.gather w.now peer .slow = (none, { w.guard with missAt, pending := some .running }) := by
          unfold Guard.gather
          rw [hpending]
          dsimp only
          rw [hwants, if_pos rfl, hsnd]
        have htakes : w.takes peer .slow = none := by
          unfold World.takes
          rw [hpending]
        rw [step_idle hon hgather htakes, if_pos ⟨hpending, rfl⟩]
        exact .hangs missAt hpending hwants rfl hmiss

theorem Inv.start (now : Nat) : (World.start now).Inv where
  on := rfl
  flag := rfl
  one := rfl
  read := .inl ⟨rfl, rfl, rfl⟩
  table := .inl ⟨rfl, (fun p hp => by cases hp), .inl rfl⟩
  finished found time h := by cases h
  miss miss h := by cases h

theorem Inv.took (h : w.Inv) {missAt : Option Nat} (found : Found) {time : Nat} (hidle : w.guard.pending ≠ some .running)
    (htime : time ≤ w.now) (hmiss : ∀ miss ∈ missAt, miss ≤ time) : (w.took missAt found time).Inv where
  on := by cases found <;> exact h.on
  flag := rfl
  one := by
    have hnone := h.one
    rw [if_neg hidle] at hnone
    cases found <;> exact hnone
  read := .inr ⟨w.now, time, by cases found <;> rfl, rfl⟩
  table := by
    cases found with
    | some table => exact .inr ⟨table, time, w.now, rfl, rfl, rfl, htime, fun _ => rfl, rfl⟩
    | none =>
      cases hkept : ({ w.guard with missAt, pending := none } : Guard).kept w.now with
      | true =>
        have htable : ((w.took missAt none time).guard.table) = w.guard.table := if_pos hkept
        obtain ⟨hno, -, -⟩ | ⟨table, ran, good, hsome, hnewest, hgood, hle, -, -⟩ := h.table
        · unfold Guard.kept at hkept
          dsimp only at hkept
          rw [hno] at hkept
          cases hkept
        · exact .inr ⟨table, ran, good, htable.trans hsome, hnewest, hgood, hle, (fun hfail => by cases hfail), rfl⟩
      | false =>
        refine .inl ⟨if_neg (by rw [hkept]; exact Bool.false_ne_true), fun p hp => ?_, .inr rfl⟩
        obtain ⟨-, hold, -⟩ | ⟨table, ran, good, hsome, hnewest, hgood, hle, -, -⟩ := h.table
        · exact hold p hp
        · have hp' : p = (table, ran) := Option.some.inj ((show some p = _ from hp.symm).trans hnewest)
          subst hp'
          unfold Guard.kept at hkept
          dsimp only at hkept
          rw [hsome, hgood] at hkept
          have hover : ¬ w.now - good < keep := by simpa using hkept
          show ran + keep ≤ w.now
          have hpos : 0 < keep := by decide
          omega
  finished found' time' hpending := by cases found <;> cases hpending
  miss m hm := by
    have hm' : m ∈ missAt := by cases found <;> exact hm
    have hle := hmiss m hm'
    exact ⟨Nat.le_trans hle htime, fun _ t ht => by cases ht; exact hle⟩

theorem Inv.hangs (h : w.Inv) {missAt : Option Nat} (hidle : w.guard.pending = none) (hmiss : ∀ miss ∈ missAt, miss ≤ w.now) :
    ({ w with guard := { w.guard with missAt, pending := some .running }, running := w.running + 1 } : World).Inv := { h with
  one := by
    have hnone := h.one
    rw [hidle] at hnone
    show w.running + 1 = 1
    rw [hnone]
    rfl
  finished found time hpending := by cases hpending
  miss m hm := ⟨hmiss m hm, fun hpending => by cases hpending⟩ }

/-- A miss marked by a connection is not later than now. -/
theorem Inv.marked (h : w.Inv) {missAt : Option Nat} (hmiss : missAt = w.guard.missAt ∨ missAt = some w.now) :
    ∀ miss ∈ missAt, miss ≤ w.now := by
  obtain rfl | rfl := hmiss
  · exact fun m hm => (h.miss m hm).1
  · intro m hm
    cases hm
    exact Nat.le_refl _

theorem Inv.connect (h : w.Inv) {w' : World} (hc : Connects w peer outcome w') : w'.Inv := by
  cases hc with
  | late found time hpending =>
    obtain ⟨htime, hmiss⟩ := h.finished found time hpending
    exact h.took found (by rw [hpending]; exact fun hrun => by cases hrun) htime hmiss
  | waits => exact h
  | reads found missAt hpending _ _ hmiss =>
    exact h.took found (by rw [hpending]; exact fun hrun => by cases hrun) (Nat.le_refl _) (h.marked hmiss)
  | hangs missAt hpending _ _ hmiss => exact h.hangs hpending (h.marked hmiss)
  | rests => exact h

theorem Inv.step (h : w.Inv) (event : Event) : (w.step event).Inv := by
  cases event with
  | connect peer outcome => exact h.connect (connects h.on)
  | finish found =>
    unfold World.step
    dsimp only
    split
    case isFalse => exact h
    case isTrue hrunning =>
      have hone := h.one
      rw [if_pos hrunning] at hone
      exact
        { on := h.on
          flag := h.flag
          one := by show w.running - 1 = _; rw [hone]; rfl
          read := h.read
          table := h.table
          finished := fun found' time hpending => by
            cases hpending
            exact ⟨Nat.le_refl _, fun m hm => (h.miss m hm).1⟩
          miss := fun m hm => ⟨(h.miss m hm).1, fun hpending => by cases hpending⟩ }
  | other unguarded => exact { h with }
  | pass d =>
    have hle : w.now ≤ w.now + d := Nat.le_add_right _ _
    exact
      { on := h.on
        flag := h.flag
        one := h.one
        read := h.read
        table := h.table.imp_left fun hnone => ⟨hnone.1, fun p hp => Nat.le_trans (hnone.2.1 p hp) hle, hnone.2.2⟩
        finished := fun found time hpending => ⟨Nat.le_trans (h.finished found time hpending).1 hle, (h.finished found time hpending).2⟩
        miss := fun m hm => ⟨Nat.le_trans (h.miss m hm).1 hle, (h.miss m hm).2⟩ }

/-! ## The law is promptness -/

theorem Inv.refusing (h : w.Inv) : ∀ p ∈ w.newest, admits p.1 peer = false → w.now < p.2 + keep → w.guard.serves peer = false := by
  intro p hp hno hrecent
  obtain ⟨-, hold, -⟩ | ⟨table, time, good, htable, hnewest, -⟩ := h.table
  · exact absurd (hold p hp) (Nat.not_le.mpr hrecent)
  · have hp' : p = (table, time) := Option.some.inj ((show some p = _ from hp.symm).trans hnewest)
    subst hp'
    unfold Guard.serves
    rw [htable]
    exact hno

theorem Inv.one_le (h : w.Inv) : w.running ≤ 1 := by
  rw [h.one]
  split <;> decide

theorem serves_loopback (hpeer : peer.loopback = true) : w.guard.serves peer = true := by
  unfold Guard.serves
  cases w.guard.table with
  | none => rfl
  | some table => exact admits_loopback table hpeer

theorem mobileServed_iff (hon : w.guard.off = false) : w.mobileServed = true ↔ w.unguarded.1 = true ∨ w.unguarded.2 = true := by
  unfold mobileServed
  rw [hon, Bool.false_or, Bool.or_eq_true]

/-- There is notice of the missing table once a read was taken in, or by the other listener. -/
theorem Inv.said_iff (h : w.Inv) :
    (w.guard.serves peer = true → peer.loopback = false → w.guard.table = none → w.mobileServed = true) ↔
      peer.loopback = true ∨ w.guard.readAt.isSome = true ∨ w.unguarded.2 = true := by
  rw [mobileServed_iff h.on]
  constructor
  · intro hsaid
    cases hpeer : peer.loopback with
    | true => exact .inl rfl
    | false =>
      refine .inr ?_
      cases hread : w.guard.readAt with
      | some read => exact .inl rfl
      | none =>
        have htable : w.guard.table = none := by
          obtain ⟨hnone, -⟩ | ⟨table, time, good, -, -, -, -, -, hsome⟩ := h.table
          · exact hnone
          · rw [hread] at hsome
            cases hsome
        have hserves : w.guard.serves peer = true := by
          unfold Guard.serves
          rw [htable]
          rfl
        obtain hflag | hother := hsaid hserves hpeer htable
        · rw [h.flag] at hflag
          unfold Guard.isOpen at hflag
          obtain ⟨-, -, hfailing⟩ | ⟨read, time, hsome, -⟩ := h.read
          · rw [hfailing] at hflag
            cases hflag
          · cases hread.symm.trans hsome
        · exact .inr hother
  · rintro (hloop | hread | hother) - hpeer htable
    · cases hloop.symm.trans hpeer
    · refine .inl ?_
      rw [h.flag]
      unfold Guard.isOpen
      obtain ⟨-, -, hnone | hfailing⟩ | ⟨table, time, good, hsome, -⟩ := h.table
      · rw [hnone] at hread
        cases hread
      · rw [hfailing, htable]
        rfl
      · cases htable.symm.trans hsome
    · exact .inr hother

/-- What is left of the law in a state of a run. -/
theorem Inv.lawful_iff (h : w.Inv) : w.Lawful peer (w.guard.serves peer) ↔
    (peer.loopback = false → w.guard.failing = true ∨ w.guard.pending = some .running ∨
      ∃ p ∈ w.newest, w.guard.table = some p.1 ∧ w.now ≤ p.2 + maxAge) ∧
    (w.guard.serves peer = false → w.guard.pending = some .running ∨
      ∃ time ∈ w.ran, w.now ≤ time + retry ∧ (w.guard.failing = true ∨ ∃ p ∈ w.newest, p.2 = time ∧ admits p.1 peer = false)) ∧
    (peer.loopback = true ∨ w.guard.readAt.isSome = true ∨ w.unguarded.2 = true) :=
  ⟨fun hlaw => ⟨hlaw.fresh, hlaw.refusal, h.said_iff.mp hlaw.said⟩,
    fun ⟨hfresh, hrefusal, hsaid⟩ => ⟨h.refusing, hfresh, hrefusal, h.one_le, h.said_iff.mpr hsaid⟩⟩

/-- A read is taken in. -/
theorem Inv.took_lawful_iff {missAt : Option Nat} {found : Found} {time : Nat} (h : (w.took missAt found time).Inv) :
    (w.took missAt found time).Lawful peer ((w.took missAt found time).guard.serves peer) ↔
      match found with
      | some table => (peer.loopback = true ∨ w.now ≤ time + maxAge) ∧ (admits table peer = false → w.now ≤ time + retry)
      | none => w.guard.kept w.now = true → w.guard.serves peer = false → w.now ≤ time + retry := by
  rw [h.lawful_iff]
  cases found with
  | some table =>
    constructor
    · rintro ⟨hfresh, hrefusal, -⟩
      refine ⟨?_, fun hno => ?_⟩
      · cases hpeer : peer.loopback with
        | true => exact .inl rfl
        | false =>
          obtain hfail | hrun | ⟨p, hp, -, hle⟩ := hfresh hpeer
          · cases hfail
          · cases hrun
          · cases hp
            exact .inr hle
      · obtain hrun | ⟨_, ht, hle, -⟩ := hrefusal hno
        · cases hrun
        · cases ht
          exact hle
    · rintro ⟨hfresh, hrefusal⟩
      refine ⟨fun hpeer => .inr (.inr ?_), fun hno => .inr ?_, .inr (.inl rfl)⟩
      · obtain hloop | hle := hfresh
        · cases hloop.symm.trans hpeer
        · exact ⟨(table, time), rfl, rfl, hle⟩
      · exact ⟨time, rfl, hrefusal hno, .inr ⟨(table, time), rfl, rfl, hno⟩⟩
  | none =>
    have hserves : (w.took missAt none time).guard.serves peer = false ↔
        w.guard.kept w.now = true ∧ w.guard.serves peer = false := by
      show ((if w.guard.kept w.now = true then w.guard.table else none).all (admits · peer)) = false ↔ _
      split
      case isTrue hkept => exact ⟨fun hno => ⟨hkept, hno⟩, And.right⟩
      case isFalse hkept => exact ⟨fun hno => (by cases hno), fun hno => absurd hno.1 hkept⟩
    constructor
    · rintro ⟨-, hrefusal, -⟩ hkept hno
      obtain hrun | ⟨_, ht, hle, -⟩ := hrefusal (hserves.mpr ⟨hkept, hno⟩)
      · cases hrun
      · cases ht
        exact hle
    · intro hle
      refine ⟨fun _ => .inl rfl, fun hno => .inr ?_, .inr (.inl rfl)⟩
      obtain ⟨hkept, hno'⟩ := hserves.mp hno
      exact ⟨time, rfl, hle hkept hno', .inl rfl⟩

/-- A read runs on. -/
theorem Inv.running_lawful_iff (h : w.Inv) (hrunning : w.guard.pending = some .running) :
    w.Lawful peer (w.guard.serves peer) ↔ peer.loopback = true ∨ w.guard.readAt.isSome = true ∨ w.unguarded.2 = true := by
  rw [h.lawful_iff]
  exact ⟨fun hlaw => hlaw.2.2, fun hsaid => ⟨fun _ => .inr (.inl hrunning), fun _ => .inl hrunning, hsaid⟩⟩

/-- Nothing is read. -/
theorem Inv.rests_lawful_iff (h : w.Inv) (hidle : w.guard.pending = none) (hwants : (w.guard.wantsRead peer w.now).1 = false) :
    w.Lawful peer (w.guard.serves peer) ↔
      peer.loopback = true ∨ w.guard.failing = true ∨ ∃ p ∈ w.newest, w.now ≤ p.2 + maxAge := by
  rw [h.lawful_iff]
  cases hpeer : peer.loopback with
  | true =>
    have hserves := serves_loopback (w := w) hpeer
    exact ⟨fun _ => .inl rfl, fun _ => ⟨fun hno => (by cases hno), fun hno => (by cases hserves.symm.trans hno), .inl rfl⟩⟩
  | false =>
    obtain ⟨hread, hmiss⟩ := Guard.wantsRead_false hwants hpeer
    constructor
    · rintro ⟨hfresh, -, -⟩
      obtain hfail | hrun | ⟨p, hp, -, hle⟩ := hfresh rfl
      · exact .inr (.inl hfail)
      · cases hidle.symm.trans hrun
      · exact .inr (.inr ⟨p, hp, hle⟩)
    · intro hrecent
      -- what is held is the newest table, read last
      have htable : w.guard.failing = true ∨ ∃ table time, w.guard.table = some table ∧ w.newest = some (table, time) ∧
          w.ran = some time := by
        obtain ⟨-, -, hnone | hfail⟩ | ⟨table, time, good, hsome, hnewest, -, -, hran, -⟩ := h.table
        · rw [hnone] at hread
          cases hread
        · exact .inl hfail
        · cases hfail : w.guard.failing with
          | true => exact .inl rfl
          | false => exact .inr ⟨table, time, hsome, hnewest, hran hfail⟩
      refine ⟨fun _ => ?_, fun hno => .inr ?_, .inr (.inl hread)⟩
      · obtain hfail | ⟨table, time, hsome, hnewest, -⟩ := htable
        · exact .inl hfail
        · obtain hloop | hfail | ⟨p, hp, hle⟩ := hrecent
          · cases hloop
          · exact .inl hfail
          · have hp' : p = (table, time) := Option.some.inj ((show some p = _ from hp.symm).trans hnewest)
            subst hp'
            exact .inr (.inr ⟨(table, time), hp, hsome, hle⟩)
      · obtain ⟨miss, hm, hlt⟩ := hmiss hno
        obtain ⟨hnone, -⟩ | ⟨read, time, -, hran⟩ := h.read
        · rw [hnone] at hread
          cases hread
        · have hle : miss ≤ time := (h.miss miss hm).2 hidle time hran
          refine ⟨time, hran, by omega, ?_⟩
          obtain hfail | ⟨table, time', hsome, hnewest, hran'⟩ := htable
          · exact .inl hfail
          · cases hran.symm.trans hran'
            refine .inr ⟨(table, time), hnewest, rfl, ?_⟩
            unfold Guard.serves at hno
            rw [hsome] at hno
            exact hno

theorem Inv.keeps_iff_prompt (h : w.Inv) (event : Event) : w.Keeps event ↔ w.Prompt event := by
  cases event with
  | connect peer outcome =>
    have hc : Connects w peer outcome (w.step (.connect peer outcome)) := connects h.on
    have hafter := h.step (.connect peer outcome)
    unfold Keeps Prompt Timely
    dsimp only
    rw [serves_eq h.on]
    revert hafter
    generalize w.step (.connect peer outcome) = w' at hc
    intro hafter
    cases hc with
    | late found time hpending =>
      rw [hafter.took_lawful_iff, hpending]
      cases found <;> exact Iff.rfl
    | waits hpending =>
      rw [h.running_lawful_iff hpending, hpending]
    | reads found missAt hpending hwants houtcome =>
      rw [hafter.took_lawful_iff, hpending, if_pos hwants, houtcome]
      have hle : w.now ≤ w.now + retry := Nat.le_add_right _ _
      refine ⟨fun _ hslow => (by cases hslow), fun _ => ?_⟩
      cases found with
      | some table => exact ⟨.inr (Nat.le_add_right _ _), fun _ => hle⟩
      | none => exact fun _ _ => hle
    | hangs missAt hpending hwants houtcome =>
      rw [hafter.running_lawful_iff rfl, hpending, if_pos hwants, houtcome, Guard.wantsRead_true hwants]
      exact ⟨fun hsaid _ => hsaid.resolve_left Bool.false_ne_true, fun hsaid => .inr (hsaid rfl)⟩
    | rests hpending hwants =>
      rw [h.rests_lawful_iff hpending hwants, hpending, hwants, if_neg Bool.false_ne_true]
  | finish found => exact Iff.rfl
  | other unguarded => exact Iff.rfl
  | pass d => exact Iff.rfl

end World

open World

/-- In every run of connections, ends of slow reads, moves of the other listener's flag and time, each
    connection keeps the law if and only if each is prompt. -/
theorem guard_lawful (now : Nat) (events : List Event) :
    Along step Keeps (start now) events ↔ Along step Prompt (start now) events :=
  along_iff (fun _ event h => h.step event) (fun _ event h => h.keeps_iff_prompt event) (Inv.start now)

/-! ## Slow reads -/

/-- 192.168.0.1/24 on the bridge, and a phone on that network. -/
def bridge : Table := [⟨"br0", .v4 0xc0a80001#32, 24, 0⟩]

def phone : SocketAddr := { ip := .v4 0xc0a80005#32, port := 50000 }

/-- A second read outlasts its wait, ends at once, and the next connection comes an hour later. -/
def hourOld : List Event :=
  [.connect phone (.answered (some bridge)), .pass 5000, .connect phone .slow, .finish (some bridge), .pass 3600000,
    .connect phone .slow]

/-- The very first read outlasts its wait. -/
def firstSlow : List Event := [.connect phone .slow]

theorem slow_reads_break_the_law :
    ¬ Along step Keeps (start 0) hourOld ∧ ¬ Along step Keeps (start 0) firstSlow := by
  constructor
  · rintro ⟨-, -, -, -, -, hlast, -⟩
    exact absurd (hlast.fresh rfl) (by decide)
  · rintro ⟨hfirst, -⟩
    exact absurd (hfirst.said (by decide) rfl rfl) (by decide)

end OpenU60.Mobile
