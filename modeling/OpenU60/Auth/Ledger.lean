/-
  OpenU60.Auth.Ledger — the meaning of a session, and how the table agrees with it.

  A `Session` is on the ledger from its login on, with its last use and what ended it. It is live
  while nothing has ended it and both its limits are ahead. `Ledger.Step` says what each call
  answers and does in these terms: no pruning, no positions, no digests.

  The table agrees with the ledger (`Agrees`) when the entries before their deadline are, in some
  order, those of the live sessions, and is `Settled` when it has no others. Closing or using
  sessions on both sides keeps this.
-/

import OpenU60.Auth.Table

namespace OpenU60.Auth

open OpenU60.Lib OpenU60.Lib.FirstMatch

/-! ## The ledger -/

inductive Ending where
  | loggedOut
  | revoked
  | rotated
  | evicted
  deriving DecidableEq

structure Session where
  id : Nat
  kind : Kind
  token : Bytes 32
  csrf : Bytes 32
  created : Nat
  lastUse : Nat
  ending : Option Ending
  deriving DecidableEq

namespace Session

variable (cfg : AuthConfig) (now : Nat) (s : Session)

def live : Bool :=
  s.ending = none ∧ now < s.lastUse + (cfg.policy s.kind).idle ∧ now < s.created + (cfg.policy s.kind).absolute

/-- How long it still lives if it is used now. -/
def remaining : Nat := min (now + (cfg.policy s.kind).idle) (s.created + (cfg.policy s.kind).absolute) - now

/-- The live session that the token was issued for. -/
def holds (kind : Kind) (token : Text) : Bool := s.live cfg now && (s.kind = kind && hex s.token.val = token)

def named (id : Nat) : Bool := s.live cfg now && s.id = id

end Session

inductive Call where
  | login (password : Text) (kind : Kind) (peer : PeerKey) (replacing : List Text) (draws : Draws)
  | authenticate (kind : Kind) (token : Text)
  | logout (kind : Kind) (token : Text)
  | logoutId (id : Nat)
  | revokeAll
  | touchSession (id : Nat)
  deriving DecidableEq

inductive Answer where
  | login (issued : Except LoginError Issued)
  | principal (principal : Option Principal)
  | loggedOut (removed : Bool)
  | revoked (count : Nat)
  | check (check : SessionCheck)

abbrev Ledger := List Session

namespace Ledger

variable (cfg : AuthConfig) (now : Nat)

def close (L : Ledger) (p : Session → Bool) (ending : Ending) : Ledger :=
  L.map fun s => if p s then { s with ending := some ending } else s

def use (L : Ledger) (p : Session → Bool) : Ledger := L.map fun s => if p s then { s with lastUse := now } else s

/-- At its cap a kind loses a live session that no other has been used before. -/
inductive Evict (kind : Kind) (L : Ledger) : Ledger → Prop
  | room : L.countP (fun s => s.live cfg now && s.kind = kind) < (cfg.policy kind).cap ∨
      L.countP (fun s => s.live cfg now && s.kind = kind) = 0 → Evict kind L L
  | full (v : Session) : v ∈ L → v.live cfg now → v.kind = kind →
      (cfg.policy kind).cap ≤ L.countP (fun s => s.live cfg now && s.kind = kind) →
      (∀ s ∈ L, s.live cfg now → s.kind = kind → v.lastUse ≤ s.lastUse) → Evict kind L (L.close (·.named cfg now v.id) .evicted)

/-- A browser login replaces the sessions whose tokens it presents. -/
def replaces (kind : Kind) (replacing : List Text) (s : Session) : Bool :=
  s.live cfg now && (kind = .browser && s.kind = .browser && hex s.token.val ∈ replacing)

inductive Step (L : Ledger) : Call → Answer → Ledger → Prop
  | refused (password kind peer replacing draws) (e : LoginError) :
      Step L (.login password kind peer replacing draws) (.login (.error e)) L
  | issued (password kind peer replacing) (draws : Draws) (token csrf : Bytes 32) (id : Nat) (kept : Ledger) :
      draws.token = some token → id ∉ L.map Session.id → Evict cfg now kind (L.close (replaces cfg now kind replacing) .rotated) kept →
      Step L (.login password kind peer replacing draws)
        (.login (.ok ⟨id, hex token.val, if kind = .browser then some (hex csrf.val) else none, (cfg.policy kind).absolute⟩))
        (kept ++ [⟨id, kind, token, csrf, now, now, none⟩])
  | authenticate (kind token) :
      Step L (.authenticate kind token) (.principal ((L.find? (·.holds cfg now kind token)).map fun s => ⟨s.id, kind, s.csrf⟩))
        (L.use now (·.holds cfg now kind token))
  | logout (kind token) :
      Step L (.logout kind token) (.loggedOut (L.any (·.holds cfg now kind token))) (L.close (·.holds cfg now kind token) .loggedOut)
  | logoutId (id) : Step L (.logoutId id) (.loggedOut (L.any (·.named cfg now id))) (L.close (·.named cfg now id) .loggedOut)
  | revokeAll (count) : L.countP (·.live cfg now) ≤ count → Step L .revokeAll (.revoked count) (L.close (·.live cfg now) .revoked)
  | touched (s : Session) : s ∈ L → s.live cfg now →
      Step L (.touchSession s.id) (.check (.live (s.remaining cfg now))) (L.use now (·.named cfg now s.id))
  | gone (id) (check : SessionCheck) : L.any (·.named cfg now id) = false → check = .expired ∨ check = .revoked →
      Step L (.touchSession id) (.check check) L

/-- A record of calls with their times and answers. -/
inductive Run : List (Nat × Call × Answer) → Ledger → Prop
  | nil : Run [] []
  | snoc {log : List (Nat × Call × Answer)} {L L' : Ledger} {now : Nat} {call : Call} {answer : Answer} :
      Run log L → Step cfg now L call answer L' → Run (log ++ [(now, call, answer)]) L'

variable {cfg now} {L : Ledger} {p : Session → Bool}

theorem map_edit {β : Type} {f : Session → Session} {g : Session → β} (h : ∀ s, g (f s) = g s) :
    (L.map fun s => if p s then f s else s).map g = L.map g := by
  rw [List.map_map]
  refine List.map_congr_left fun s _ => ?_
  simp only [Function.comp_apply]
  split
  · exact h s
  · rfl

@[simp] theorem close_ids (ending : Ending) : (L.close p ending).map Session.id = L.map Session.id := map_edit fun _ => rfl

@[simp] theorem close_tokens (ending : Ending) : (L.close p ending).map Session.token = L.map Session.token := map_edit fun _ => rfl

@[simp] theorem use_ids : (L.use now p).map Session.id = L.map Session.id := map_edit fun _ => rfl

@[simp] theorem use_tokens : (L.use now p).map Session.token = L.map Session.token := map_edit fun _ => rfl

theorem filter_close (ending : Ending) : (L.close p ending).filter (·.live cfg now) = L.filter fun s => s.live cfg now && !p s := by
  unfold close
  induction L with
  | nil => rfl
  | cons s L ih =>
    rw [List.map_cons, List.filter_cons, List.filter_cons, ih]
    by_cases hp : p s
    · simp [hp, Session.live]
    · simp [hp]

end Ledger

/-! ## The table agrees -/

section

variable {D : Type} (sha : Text → D)

def Session.entry (s : Session) : Entry D := ⟨s.id, s.kind, digest sha s.kind s.token, s.csrf, s.created, s.lastUse⟩

/-- Up to their order, the entries before their deadline are those of the live sessions. -/
def Agrees (cfg : AuthConfig) (now : Nat) (entries : List (Entry D)) (L : Ledger) : Prop :=
  (entries.filter (·.unexpired cfg now)).Perm ((L.filter (·.live cfg now)).map (Session.entry sha))

/-- Pruned, the table has no others. -/
def Settled (cfg : AuthConfig) (now : Nat) (entries : List (Entry D)) (L : Ledger) : Prop :=
  entries.Perm ((L.filter (·.live cfg now)).map (Session.entry sha))

variable {sha} {cfg : AuthConfig} {now : Nat} {entries : List (Entry D)} {L : Ledger}

theorem live_iff (sha : Text → D) {s : Session} : s.live cfg now = true ↔ s.ending = none ∧ (s.entry sha).unexpired cfg now = true := by
  simp only [Session.live, Entry.unexpired, Entry.deadline, Session.entry, decide_eq_true_eq, Nat.lt_min]

theorem Settled.agrees (h : Settled sha cfg now entries L) : Agrees sha cfg now entries L := by
  have hall : entries.filter (·.unexpired cfg now) = entries := by
    refine List.filter_eq_self.mpr fun e he => ?_
    obtain ⟨s, hs, rfl⟩ := List.mem_map.mp (h.subset he)
    exact ((live_iff sha).mp (List.mem_filter.mp hs).2).2
  unfold Agrees
  rw [hall]
  exact h

/-- Time passes. -/
theorem Agrees.later (h : Agrees sha cfg now entries L) (d : Nat) : Agrees sha cfg (now + d) entries L := by
  have hfilter := h.filter (·.unexpired cfg (now + d))
  rw [List.filter_filter, List.filter_map, List.filter_filter] at hfilter
  have hentries : (entries.filter fun e => e.unexpired cfg (now + d) && e.unexpired cfg now) = entries.filter (·.unexpired cfg (now + d)) := by
    refine List.filter_congr fun e _ => ?_
    rw [Bool.eq_iff_iff]
    simp only [Entry.unexpired, Bool.and_eq_true, decide_eq_true_eq]
    omega
  have hsessions : (L.filter fun s => ((·.unexpired cfg (now + d)) ∘ Session.entry sha) s && s.live cfg now) = L.filter (·.live cfg (now + d)) := by
    refine List.filter_congr fun s _ => ?_
    rw [Bool.eq_iff_iff, Bool.and_eq_true, live_iff sha, live_iff sha]
    simp only [Entry.unexpired, Function.comp_apply, decide_eq_true_eq]
    constructor
    · rintro ⟨hlater, hopen, -⟩
      exact ⟨hopen, hlater⟩
    · rintro ⟨hopen, hlater⟩
      exact ⟨hlater, hopen, Nat.lt_of_le_of_lt (Nat.le_add_right ..) hlater⟩
  rw [hentries, hsessions] at hfilter
  exact hfilter

theorem Agrees.prune {t : SessionTable D} (h : Agrees sha cfg now t.entries L) : Settled sha cfg now (t.prune cfg now).entries L :=
  (SessionTable.prune_entries t).trans h

/-- Sessions closed on both sides. -/
theorem Settled.close (h : Settled sha cfg now entries L) {p : Session → Bool} {q : Entry D → Bool} {entries' : List (Entry D)}
    (hperm : entries'.Perm (entries.filter fun e => !q e)) (hpq : ∀ s ∈ L, s.live cfg now → q (s.entry sha) = p s) (ending : Ending) :
    Settled sha cfg now entries' (L.close p ending) := by
  unfold Settled
  rw [Ledger.filter_close]
  refine hperm.trans ((h.filter _).trans (List.Perm.of_eq ?_))
  rw [List.filter_map, List.filter_filter]
  refine congrArg _ (List.filter_congr fun s hs => ?_)
  cases hlive : s.live cfg now with
  | false => simp
  | true => simp [hpq s hs hlive]

/-- A session used on both sides. -/
theorem Settled.use (h : Settled sha cfg now entries L) {p : Session → Bool} {q : Entry D → Bool} {entries' : List (Entry D)}
    (hused : entries' = entries.map fun e => if q e then { e with lastUsed := now } else e)
    (hpq : ∀ s ∈ L, p s = (s.live cfg now && q (s.entry sha))) : Agrees sha cfg now entries' (L.use now p) := by
  unfold Agrees
  rw [hused]
  refine ((h.map _).filter _).trans (List.Perm.of_eq ?_)
  unfold Ledger.use
  clear hused h
  induction L with
  | nil => rfl
  | cons s L ih =>
    have ih := ih fun u hu => hpq u (List.mem_cons_of_mem _ hu)
    have hs := hpq s (List.mem_cons_self ..)
    cases hlive : s.live cfg now with
    | false =>
      rw [hlive, Bool.false_and] at hs
      simp only [List.map_cons, List.filter_cons, hlive, hs, Bool.false_eq_true, if_false]
      exact ih
    | true =>
      rw [hlive, Bool.true_and] at hs
      rw [List.filter_cons_of_pos hlive, List.map_cons, List.map_cons, List.map_cons, List.filter_cons, List.filter_cons, ih, ← hs]
      cases hp : p s with
      | false =>
        have hkept := ((live_iff sha).mp hlive).2
        simp [hlive, hkept]
      | true =>
        have hopen := ((live_iff sha).mp hlive).1
        have hsame : ({ s with lastUse := now } : Session).live cfg now = ({ s.entry sha with lastUsed := now }).unexpired cfg now := by
          rw [Bool.eq_iff_iff, live_iff sha]
          exact and_iff_right hopen
        simp only [if_true, hsame]
        split <;> rfl

theorem Agrees.append (h : Agrees sha cfg now entries L) {s : Session} (hopen : s.ending = none) :
    Agrees sha cfg now (entries ++ [s.entry sha]) (L ++ [s]) := by
  unfold Agrees
  rw [List.filter_append, List.filter_append, List.map_append]
  refine List.Perm.append h (List.Perm.of_eq ?_)
  have hlive : s.live cfg now = (s.entry sha).unexpired cfg now := by
    rw [Bool.eq_iff_iff, live_iff sha]
    exact and_iff_right hopen
  rw [List.filter_singleton, List.filter_singleton, hlive]
  cases (s.entry sha).unexpired cfg now <;> rfl

theorem Settled.countP (h : Settled sha cfg now entries L) (kind : Kind) :
    entries.countP (·.kind = kind) = L.countP fun s => s.live cfg now && s.kind = kind := by
  rw [List.Perm.countP_eq _ h, List.countP_map, List.countP_filter]
  refine List.countP_congr fun s _ => ?_
  show (decide (s.kind = kind) && s.live cfg now) = true ↔ (s.live cfg now && decide (s.kind = kind)) = true
  rw [Bool.and_comm]

theorem hex_inj {a b : Bytes 32} (h : hex a.val = hex b.val) : a = b := by
  have ha : parseHex 32 (hex a.val) = some a := parseHex_iff.mpr rfl
  rw [h, parseHex_iff.mpr rfl] at ha
  exact (Option.some.inj ha).symm

/-- Different tokens, or kinds, have different digests. -/
def Injective (sha : Text → D) : Prop :=
  ∀ kind token kind' token', digest sha kind token = digest sha kind' token' → kind = kind' ∧ token = token'

theorem Settled.keys (h : Settled sha cfg now entries L) (hinj : Injective sha) (htokens : (L.map Session.token).Nodup) :
    (entries.map Entry.key).Nodup := by
  rw [(h.map Entry.key).nodup_iff, List.map_map]
  refine List.pairwise_map.mpr (List.Pairwise.imp ?_ ((List.pairwise_map.mp htokens).filter _))
  intro a b hab heq
  exact hab (hinj _ _ _ _ (Prod.ext_iff.mp heq).2).2

variable [DecidableEq D]

/-- What a token finds in the table is the session it was issued for. -/
theorem holds_eq (hinj : Injective sha) {kind : Kind} {text : Text} {token : Bytes 32} (h : parseHex 32 text = some token) (s : Session) :
    s.holds cfg now kind text = (s.live cfg now && (s.entry sha).has kind (digest sha kind token)) := by
  obtain rfl := parseHex_iff.mp h
  unfold Session.holds
  refine congrArg _ ?_
  rw [Bool.eq_iff_iff, Bool.and_eq_true, decide_eq_true_eq, decide_eq_true_eq, Entry.has_iff]
  constructor
  · rintro ⟨rfl, hhex⟩
    refine ⟨?_, rfl⟩
    rw [← hex_inj hhex]
    rfl
  · rintro ⟨hdigest, hkind⟩
    exact ⟨hkind, congrArg _ (congrArg _ (hinj _ _ _ _ hdigest).2)⟩

theorem not_holds {kind : Kind} {text : Text} (h : parseHex 32 text = none) (s : Session) : s.holds cfg now kind text = false := by
  unfold Session.holds
  have hno : hex s.token.val ≠ text := by
    rintro rfl
    rw [parseHex_iff.mpr rfl] at h
    cases h
  simp [hno]

theorem Settled.find (h : Settled sha cfg now entries L) (hinj : Injective sha) (htokens : (L.map Session.token).Nodup) (kind : Kind)
    {text : Text} {token : Bytes 32} (hparse : parseHex 32 text = some token) :
    entries.find? (·.has kind (digest sha kind token)) = (L.find? (·.holds cfg now kind text)).map (Session.entry sha) := by
  rw [Entry.has_eq]
  refine (find?_perm h (h.keys hinj htokens)).trans ?_
  rw [List.find?_map, List.find?_filter]
  refine congrArg (fun p => (L.find? p).map _) (funext fun s => ?_)
  rw [holds_eq hinj hparse, Entry.has_eq, Bool.decide_and, Bool.decide_eq_true, Bool.decide_eq_true]
  rfl

omit [DecidableEq D] in
/-- No session at all answers to an id that no entry before its deadline has. -/
theorem Settled.findId (h : Settled sha cfg now entries L) (hids : (entries.map Entry.id).Nodup) (id : Nat) :
    entries.find? (·.id == id) = (L.find? (·.named cfg now id)).map (Session.entry sha) := by
  refine (find?_perm h hids).trans ?_
  rw [List.find?_map, List.find?_filter]
  refine congrArg (fun p => (L.find? p).map _) (funext fun s => ?_)
  rw [Session.named, Bool.decide_and, Bool.decide_eq_true, Bool.decide_eq_true]
  rfl

end

end OpenU60.Auth
