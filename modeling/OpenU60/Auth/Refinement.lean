/-
  OpenU60.Auth.Refinement — the calls on the session table are steps of the ledger.

  - `sessions_refine`: every run of the code is a run of the ledger with the same answers; a token is
    accepted exactly while its session is live; no kind has more entries than its cap; every
    session is in the table, given to the revoke hook or recorded as expired, and only one of
    these.
  Each call is a lemma (`Refines.login`, `Refines.authenticate`, …); with the times going forward they
  make up the run.
-/

import OpenU60.Auth.Ledger
import OpenU60.Lib.Machine

namespace OpenU60.Auth

open OpenU60.Lib OpenU60.Lib.Machine OpenU60.Lib.FirstMatch

variable {D : Type} [DecidableEq D]

/-- The table and the ledger of the same sessions. -/
structure Refines (cfg : AuthConfig) (sha : Text → D) (now : Nat) (s : AuthState D) (L : Ledger) : Prop where
  agrees : Agrees sha cfg now s.table.entries L
  books : s.table.Books cfg s.hooked (L.map Session.id)
  tokens : (L.map Session.token).Nodup

variable {cfg : AuthConfig} {sha : Text → D} {now : Nat} {s : AuthState D} {L : Ledger}

/-! ## Lookups that change nothing else -/

theorem Ledger.use_none {p : Session → Bool} (h : ∀ s ∈ L, p s = false) : L.use now p = L := by
  unfold use
  refine (List.map_congr_left fun s hs => ?_).trans (List.map_id L)
  rw [h s hs]
  rfl

theorem Ledger.close_none {p : Session → Bool} (h : ∀ s ∈ L, p s = false) (ending : Ending) : L.close p ending = L := by
  unfold close
  refine (List.map_congr_left fun s hs => ?_).trans (List.map_id L)
  rw [h s hs]
  rfl

namespace Refines

omit [DecidableEq D] in
theorem pruned (h : Refines cfg sha now s L) (limiter : LoginLimiter) :
    Refines cfg sha now { s with table := s.table.prune cfg now, limiter } L :=
  ⟨h.agrees.prune.agrees, h.books.prune, h.tokens⟩

theorem authenticate (h : Refines cfg sha now s L) (hinj : Injective sha) (kind : Kind) (text : Text) :
    Ledger.Step cfg now L (.authenticate kind text) (.principal (s.authenticate cfg sha kind text now).1)
        (L.use now (·.holds cfg now kind text)) ∧
      Refines cfg sha now (s.authenticate cfg sha kind text now).2 (L.use now (·.holds cfg now kind text)) := by
  cases hparse : parseHex 32 text with
  | none =>
    have hno := fun u (_ : u ∈ L) => @not_holds cfg now kind text hparse u
    have heq : s.authenticate cfg sha kind text now = (none, s) := by
      unfold AuthState.authenticate
      rw [hparse]
    have hstep := @Ledger.Step.authenticate cfg now L kind text
    rw [List.find?_eq_none.mpr fun u hu => by simp [hno u hu]] at hstep
    rw [heq, Ledger.use_none hno] at *
    exact ⟨hstep, h⟩
  | some token =>
    have hset := h.agrees.prune
    have hfind := hset.find hinj h.tokens kind hparse
    have heq : s.authenticate cfg sha kind text now =
        ((L.find? (·.holds cfg now kind text)).map (fun u => ⟨u.id, kind, u.csrf⟩),
          { s with table := (s.table.prune cfg now).use (·.has kind (digest sha kind token)) now }) := by
      unfold AuthState.authenticate
      rw [hparse]
      dsimp only
      unfold SessionTable.find
      rw [hfind]
      cases hone : L.find? (·.holds cfg now kind text) with
      | none =>
        rw [hone, Option.map_none] at hfind
        unfold SessionTable.use
        rw [updateFirst_none hfind]
        rfl
      | some u => rfl
    rw [heq]
    refine ⟨.authenticate kind text, ?_, ?_, by rw [Ledger.use_tokens]; exact h.tokens⟩
    · refine hset.use (q := (·.has kind (digest sha kind token))) ?_ fun u _ => holds_eq hinj hparse u
      rw [Entry.has_eq]
      exact (updateFirst_eq_map (hset.keys hinj h.tokens)).trans (List.map_congr_left fun e _ => by simp)
    · rw [Ledger.use_ids]
      exact h.books.prune.use _

omit [DecidableEq D] in
/-- A lookup that takes its entry out, and the sessions it stands for. -/
theorem removed (h : Refines cfg sha now s L) {found : Entry D → Bool} {p : Session → Bool} {ending : Ending}
    (hset : Settled sha cfg now s.table.entries L) (hperm : (s.table.remove found).2.entries.Perm (s.table.entries.filter fun e => !found e))
    (hp : ∀ u ∈ L, u.live cfg now → found (u.entry sha) = p u) :
    Refines cfg sha now { s with table := (s.table.remove found).2, hooked := s.hooked ++ (s.table.remove found).1.toList }
      (L.close p ending) where
  agrees := (hset.close hperm hp ending).agrees
  books := by
    rw [Ledger.close_ids]
    exact h.books.remove found
  tokens := by
    rw [Ledger.close_tokens]
    exact h.tokens

theorem logout (h : Refines cfg sha now s L) (hinj : Injective sha) (kind : Kind) (text : Text) :
    Ledger.Step cfg now L (.logout kind text) (.loggedOut (s.logout cfg sha kind text now).1)
        (L.close (·.holds cfg now kind text) .loggedOut) ∧
      Refines cfg sha now (s.logout cfg sha kind text now).2 (L.close (·.holds cfg now kind text) .loggedOut) := by
  cases hparse : parseHex 32 text with
  | none =>
    have hno := fun u (_ : u ∈ L) => @not_holds cfg now kind text hparse u
    have heq : s.logout cfg sha kind text now = (false, s) := by
      unfold AuthState.logout
      rw [hparse]
    have hstep := @Ledger.Step.logout cfg now L kind text
    rw [List.any_eq_false.mpr fun u hu => by simp [hno u hu]] at hstep
    rw [heq, Ledger.close_none hno] at *
    exact ⟨hstep, h⟩
  | some token =>
    have hset := h.agrees.prune
    have hfind := hset.find hinj h.tokens kind hparse
    have heq : s.logout cfg sha kind text now = (((s.table.prune cfg now).removeDigest kind (digest sha kind token)).1.isSome,
        { s with
          table := ((s.table.prune cfg now).removeDigest kind (digest sha kind token)).2
          hooked := s.hooked ++ ((s.table.prune cfg now).removeDigest kind (digest sha kind token)).1.toList }) := by
      unfold AuthState.logout
      rw [hparse]
    have hsome : ((s.table.prune cfg now).removeDigest kind (digest sha kind token)).1.isSome = L.any (·.holds cfg now kind text) := by
      unfold SessionTable.removeDigest
      rw [SessionTable.remove_fst, hfind, Option.isSome_map, Option.isSome_map, Bool.eq_iff_iff, List.find?_isSome, List.any_eq_true]
    rw [heq, hsome]
    refine ⟨.logout kind text, ?_⟩
    refine (h.pruned s.limiter).removed hset ?_ fun u hu hlive => ?_
    · refine (SessionTable.remove_entries _).trans (List.Perm.of_eq ?_)
      rw [Entry.has_eq]
      exact (eraseP_eq_filter (hset.keys hinj h.tokens)).trans (List.filter_congr fun e _ => decide_not)
    · rw [holds_eq hinj hparse, hlive, Bool.true_and]

theorem logoutId (h : Refines cfg sha now s L) (id : Nat) :
    Ledger.Step cfg now L (.logoutId id) (.loggedOut (s.logoutId cfg id now).1) (L.close (·.named cfg now id) .loggedOut) ∧
      Refines cfg sha now (s.logoutId cfg id now).2 (L.close (·.named cfg now id) .loggedOut) := by
  have hset := h.agrees.prune
  have hbooks := (h.pruned s.limiter).books
  have hfind := hset.findId hbooks.ids_nodup id
  have hfst : ((s.table.prune cfg now).remove (·.id == id)).1 = if L.any (·.named cfg now id) then some id else none := by
    rw [SessionTable.remove_fst, hfind]
    cases hone : L.find? (·.named cfg now id) with
    | none =>
      rw [if_neg fun hany => ?_]
      · rfl
      · rw [List.any_eq_true, ← List.find?_isSome, hone] at hany
        cases hany
    | some u =>
      have hu := List.find?_some hone
      rw [if_pos (List.any_eq_true.mpr ⟨u, List.mem_of_find?_eq_some hone, hu⟩)]
      simp only [Session.named, Bool.and_eq_true, decide_eq_true_eq] at hu
      exact congrArg some hu.2
  have heq : s.logoutId cfg id now = (L.any (·.named cfg now id),
      { s with
        table := ((s.table.prune cfg now).remove (·.id == id)).2
        hooked := s.hooked ++ ((s.table.prune cfg now).remove (·.id == id)).1.toList }) := by
    unfold AuthState.logoutId SessionTable.removeId
    dsimp only
    rw [hfst]
    cases L.any (·.named cfg now id) with
    | false => simp
    | true => rfl
  rw [heq]
  refine ⟨.logoutId id, (h.pruned s.limiter).removed hset ?_ fun u hu hlive => ?_⟩
  · exact (SessionTable.remove_entries _).trans
      (List.Perm.of_eq ((eraseP_eq_filter hbooks.ids_nodup).trans (List.filter_congr fun e _ => decide_not)))
  · rw [Session.named, hlive, Bool.true_and]
    rfl

omit [DecidableEq D] in
theorem revokeAll (h : Refines cfg sha now s L) :
    Ledger.Step cfg now L .revokeAll (.revoked s.revokeAll.1) (L.close (·.live cfg now) .revoked) ∧
      Refines cfg sha now s.revokeAll.2 (L.close (·.live cfg now) .revoked) := by
  refine ⟨.revokeAll _ ?_, ?_, ?_, ?_⟩
  · have hle := (h.agrees.length_eq).symm.trans_le List.filter_sublist.length_le
    rw [List.length_map, ← List.countP_eq_length_filter] at hle
    show _ ≤ (s.table.entries.map Entry.id).length
    rw [List.length_map]
    exact hle
  · unfold Agrees
    rw [Ledger.filter_close]
    have hnone : (L.filter fun u => u.live cfg now && !u.live cfg now) = [] := List.filter_eq_nil_iff.mpr fun u _ => by simp
    rw [hnone]
    exact List.Perm.refl _
  · rw [Ledger.close_ids]
    exact h.books.clear
  · rw [Ledger.close_tokens]
    exact h.tokens

omit [DecidableEq D] in
/-- Where only entries before their deadline are used, those past it can go first. -/
theorem filter_used {entries : List (Entry D)} {q : Entry D → Bool} (h : ∀ e ∈ entries, q e = true → e.unexpired cfg now = true) :
    ((entries.filter (·.unexpired cfg now)).map fun e => if q e then { e with lastUsed := now } else e).filter (·.unexpired cfg now) =
      (entries.map fun e => if q e then { e with lastUsed := now } else e).filter (·.unexpired cfg now) := by
  induction entries with
  | nil => rfl
  | cons e entries ih =>
    have ih := ih fun x hx => h x (List.mem_cons_of_mem _ hx)
    cases hu : e.unexpired cfg now with
    | true => rw [List.filter_cons_of_pos hu, List.map_cons, List.map_cons, List.filter_cons, List.filter_cons, ih]
    | false =>
      have hq : q e = false := Bool.eq_false_iff.mpr fun hq => by
        rw [h e (List.mem_cons_self ..) hq] at hu
        cases hu
      rw [List.filter_cons_of_neg (by rw [hu]; exact Bool.false_ne_true), List.map_cons, hq, if_neg Bool.false_ne_true,
        List.filter_cons_of_neg (by rw [hu]; exact Bool.false_ne_true), ih]

omit [DecidableEq D] in
/-- An entry past its deadline is of no live session. -/
theorem not_named (h : Refines cfg sha now s L) {id : Nat}
    (hno : ∀ e, s.table.byId id = some e → e.deadline cfg ≤ now) : L.any (·.named cfg now id) = false := by
  refine Bool.eq_false_iff.mpr fun hany => ?_
  obtain ⟨u, hu, hnamed⟩ := List.any_eq_true.mp hany
  simp only [Session.named, Bool.and_eq_true, decide_eq_true_eq] at hnamed
  obtain ⟨hlive, rfl⟩ := hnamed
  have hmem := h.agrees.symm.subset (List.mem_map_of_mem (List.mem_filter.mpr ⟨hu, hlive⟩))
  obtain ⟨he, hunexpired⟩ := List.mem_filter.mp hmem
  have hlate := hno _ ((find?_of_nodup h.books.ids_nodup).mpr ⟨he, rfl⟩)
  simp only [Entry.unexpired, decide_eq_true_eq] at hunexpired
  exact Nat.not_le.mpr hunexpired hlate

theorem touchSession (h : Refines cfg sha now s L) (id : Nat) :
    ∃ L', Ledger.Step cfg now L (.touchSession id) (.check (s.touchSession cfg id now).1) L' ∧
      Refines cfg sha now (s.touchSession cfg id now).2 L' ∧ L'.map Session.token = L.map Session.token := by
  unfold AuthState.touchSession
  cases hfind : s.table.byId id with
  | none =>
    dsimp only
    refine ⟨L, .gone id _ (h.not_named fun e he => by cases hfind.symm.trans he) ?_, h.pruned s.limiter, rfl⟩
    split
    · exact .inl rfl
    · exact .inr rfl
  | some e =>
    dsimp only
    by_cases hlate : e.deadline cfg ≤ now
    · rw [if_pos hlate]
      have hnone := h.not_named fun e' he' => by
        cases hfind.symm.trans he'
        exact hlate
      exact ⟨L, .gone id _ hnone (.inl rfl), h.pruned s.limiter, rfl⟩
    · rw [if_neg hlate]
      obtain ⟨he, rfl⟩ := (find?_of_nodup h.books.ids_nodup).mp hfind
      have hunexpired : e.unexpired cfg now = true := by simpa [Entry.unexpired] using hlate
      obtain ⟨u, hu, rfl⟩ := List.mem_map.mp (h.agrees.subset (List.mem_filter.mpr ⟨he, hunexpired⟩))
      obtain ⟨hu, hlive⟩ := List.mem_filter.mp hu
      refine ⟨L.use now (·.named cfg now u.id), .touched u hu hlive, ⟨?_, ?_, by rw [Ledger.use_tokens]; exact h.tokens⟩, Ledger.use_tokens⟩
      · have hused : Agrees sha cfg now _ (L.use now (·.named cfg now u.id)) :=
          Settled.use (q := fun e => decide (e.id = u.id)) h.agrees rfl fun v _ => rfl
        refine Settled.agrees (Agrees.prune ?_)
        unfold Agrees at hused ⊢
        rw [filter_used fun e he hid => ?_] at hused
        · exact (List.Perm.of_eq (congrArg _ ((updateFirst_eq_map h.books.ids_nodup).trans
            (List.map_congr_left fun e _ => by simp only [decide_eq_true_eq]; rfl)))).trans hused
        · rw [List.inj_on_of_nodup_map h.books.ids_nodup he (List.mem_of_find?_eq_some hfind) (of_decide_eq_true hid)]
          exact hunexpired
      · rw [Ledger.use_ids]
        exact (h.books.use _).prune

/-! ## A login -/

theorem replaced_eq (hinj : Injective sha) (kind : Kind) (replacing : List Text) (u : Session) :
    (decide ((u.entry sha).kind = .browser ∧ (u.entry sha).digest ∈ AuthState.replaced sha kind replacing)) =
      (kind = .browser && u.kind = .browser && decide (hex u.token.val ∈ replacing)) := by
  rw [Bool.eq_iff_iff, Bool.and_eq_true, Bool.and_eq_true, decide_eq_true_eq, decide_eq_true_eq, decide_eq_true_eq, decide_eq_true_eq]
  cases kind with
  | bearer => simp [AuthState.replaced]
  | browser =>
    rw [eq_self, true_and]
    refine and_congr_right fun hkind => ?_
    rw [AuthState.replaced, List.mem_map]
    simp only [List.mem_filterMap]
    constructor
    · rintro ⟨token, ⟨text, htext, hparse⟩, hdigest⟩
      rw [← (hinj _ _ _ _ hdigest).2, ← parseHex_iff.mp hparse]
      exact htext
    · intro hmem
      exact ⟨u.token, ⟨_, hmem, parseHex_iff.mpr rfl⟩, congrArg (digest sha · u.token) hkind.symm⟩

omit [DecidableEq D] in
/-- An eviction in the table is one of the ledger's. -/
theorem evict {t : SessionTable D} (hset : Settled sha cfg now t.entries L) (hids : (t.entries.map Entry.id).Nodup) {kind : Kind}
    {evicted : Option Nat} {entries : List (Entry D)} (h : t.Evicts cfg kind evicted entries) :
    ∃ kept, Ledger.Evict cfg now kind L kept ∧ Settled sha cfg now entries kept ∧ kept.map Session.id = L.map Session.id ∧
      kept.map Session.token = L.map Session.token := by
  cases h with
  | room hroom =>
    rw [hset.countP kind] at hroom
    exact ⟨L, .room hroom, hset, rfl, rfl⟩
  | full i x hget hkind hfull hle =>
    rw [hset.countP kind] at hfull
    obtain ⟨v, hv, rfl⟩ := List.mem_map.mp (hset.subset (List.mem_of_getElem? hget))
    obtain ⟨hv, hlive⟩ := List.mem_filter.mp hv
    refine ⟨L.close (·.named cfg now v.id) .evicted, .full v hv hlive hkind hfull fun u hu hulive hukind => ?_, ?_, Ledger.close_ids _,
      Ledger.close_tokens _⟩
    · exact hle (u.entry sha) (hset.symm.subset (List.mem_map_of_mem (List.mem_filter.mpr ⟨hu, hulive⟩))) hukind
    · refine hset.close (q := fun e => decide (e.id = v.id)) ?_ (fun u _ hulive => ?_) .evicted
      · obtain ⟨hi, -⟩ := List.getElem?_eq_some_iff.mp hget
        refine (Vec.swapRemove_perm hi).trans (List.Perm.of_eq ?_)
        exact (eraseIdx_eq_filter hids hget).trans (List.filter_congr fun e _ => decide_not)
      · rw [Session.named, hulive, Bool.true_and]
        rfl

theorem issue (h : Refines cfg sha now s L) (hset : Settled sha cfg now s.table.entries L) (hinj : Injective sha) (kind : Kind)
    (replacing : List Text) {token : Bytes 32} (csrf : Bytes 32) (hfresh : token ∉ L.map Session.token) :
    ∃ kept, Ledger.Evict cfg now kind (L.close (Ledger.replaces cfg now kind replacing) .rotated) kept ∧
      (s.issue cfg sha kind replacing token csrf now).1 ∉ L.map Session.id ∧
      Refines cfg sha now (s.issue cfg sha kind replacing token csrf now).2
        (kept ++ [⟨(s.issue cfg sha kind replacing token csrf now).1, kind, token, csrf, now, now, none⟩]) ∧
      kept.map Session.token = L.map Session.token := by
  obtain ⟨hbooks, hnext, hentries⟩ := SessionTable.removeDigests_spec .browser h.books (hset.keys hinj h.tokens)
    (AuthState.replaced sha kind replacing)
  have hrotated := hset.close (p := Ledger.replaces cfg now kind replacing) hentries (fun u _ hlive => by
    rw [replaced_eq hinj, Ledger.replaces, hlive, Bool.true_and]) .rotated
  have hid : (s.issue cfg sha kind replacing token csrf now).1 = s.table.nextId := hnext
  unfold AuthState.issue at hid ⊢
  dsimp only at hid ⊢
  generalize s.table.removeDigests .browser (AuthState.replaced sha kind replacing) = removed at *
  obtain ⟨revoked, table⟩ := removed
  obtain ⟨entries, hevicts, heq⟩ := SessionTable.insert_cases cfg table.allocId.2
    ⟨table.allocId.1, kind, digest sha kind token, csrf, now, now⟩
  obtain ⟨kept, hevict, hkept, hids, htokens⟩ := evict (t := table.allocId.2) hrotated hbooks.ids_nodup hevicts
  rw [Ledger.close_ids] at hids
  rw [Ledger.close_tokens] at htokens
  refine ⟨kept, hevict, ?_, ⟨?_, ?_, ?_⟩, htokens⟩
  · intro hmem
    exact Nat.lt_irrefl _ (hbooks.fresh _ hmem)
  · dsimp only
    rw [heq]
    exact hkept.agrees.append (s := ⟨_, kind, token, csrf, now, now, none⟩) rfl
  · rw [List.map_append, hids, ← List.append_assoc]
    exact hbooks.insert (e := ⟨table.allocId.1, kind, digest sha kind token, csrf, now, now⟩) rfl
  · rw [List.map_append, htokens]
    refine List.nodup_append.mpr ⟨h.tokens, List.nodup_singleton _, fun a ha b hb => ?_⟩
    rw [List.mem_singleton.mp hb]
    rintro rfl
    exact hfresh ha

theorem login (h : Refines cfg sha now s L) (hinj : Injective sha) (password : Text) (kind : Kind) (peer : PeerKey) (replacing : List Text)
    (draws : Draws) (hfresh : ∀ token, draws.token = some token → token ∉ L.map Session.token) :
    ∃ L', Ledger.Step cfg now L (.login password kind peer replacing draws)
        (.login (s.login cfg sha password kind peer replacing draws now).1) L' ∧
      Refines cfg sha now (s.login cfg sha password kind peer replacing draws now).2 L' ∧
      ∀ token ∈ L'.map Session.token, token ∈ L.map Session.token ∨ draws.token = some token := by
  have hrefused {e : LoginError} {s' : AuthState D} (hs : Refines cfg sha now s' L) :
      ∃ L', Ledger.Step cfg now L (.login password kind peer replacing draws) (.login (.error e)) L' ∧ Refines cfg sha now s' L' ∧
        ∀ token ∈ L'.map Session.token, token ∈ L.map Session.token ∨ draws.token = some token :=
    ⟨L, .refused .., hs, fun _ => .inl⟩
  unfold AuthState.login
  split
  · rename_i token csrf htoken hcsrf
    dsimp only
    split
    · exact hrefused (h.pruned _)
    · exact hrefused (h.pruned _)
    · split
      · exact hrefused (h.pruned _)
      · obtain ⟨kept, hevict, hid, hnew, htokens⟩ := issue
          (h.pruned ((s.limiter.check cfg.limiter peer now).2.recordSuccess peer)) h.agrees.prune hinj kind replacing csrf
          (hfresh token htoken)
        refine ⟨_, .issued _ _ _ _ _ _ csrf _ _ htoken hid hevict, hnew, fun token' hmem => ?_⟩
        rw [List.map_append, htokens] at hmem
        rcases List.mem_append.mp hmem with hmem | hmem
        · exact .inl hmem
        · rw [List.mem_singleton.mp hmem]
          exact .inr htoken
  · exact hrefused h

end Refines

/-! ## Runs -/

def AuthState.call (cfg : AuthConfig) (sha : Text → D) (s : AuthState D) (now : Nat) : Call → Answer × AuthState D
  | .login password kind peer replacing draws =>
    let (issued, s) := s.login cfg sha password kind peer replacing draws now
    (.login issued, s)
  | .authenticate kind token =>
    let (principal, s) := s.authenticate cfg sha kind token now
    (.principal principal, s)
  | .logout kind token =>
    let (removed, s) := s.logout cfg sha kind token now
    (.loggedOut removed, s)
  | .logoutId id =>
    let (removed, s) := s.logoutId cfg id now
    (.loggedOut removed, s)
  | .revokeAll =>
    let (count, s) := s.revokeAll
    (.revoked count, s)
  | .touchSession id =>
    let (check, s) := s.touchSession cfg id now
    (.check check, s)

inductive Happening where
  | call (call : Call)
  /-- The clock advances. -/
  | pass (d : Nat)
  deriving DecidableEq

/-- The session tokens the generator gives. -/
def Happening.drawn : Happening → List (Bytes 32)
  | .call (.login _ _ _ _ draws) => draws.token.toList
  | _ => []

structure Agent (D : Type) where
  now : Nat
  auth : AuthState D
  /-- The calls so far, with their times and answers. -/
  log : List (Nat × Call × Answer)

namespace Agent

variable (cfg : AuthConfig) (sha : Text → D)

def start (password : Option D) (now : Nat) : Agent D := ⟨now, .withParts cfg password now, []⟩

def step (w : Agent D) : Happening → Agent D
  | .call c =>
    let (answer, auth) := w.auth.call cfg sha w.now c
    { w with auth, log := w.log ++ [(w.now, c, answer)] }
  | .pass d => { w with now := w.now + d }

variable {cfg sha} {w : Agent D} {L : Ledger}

/-- A call is a step of the ledger. -/
theorem call_refines (h : Refines cfg sha w.now w.auth L) (hinj : Injective sha) (c : Call)
    (hfresh : ∀ token ∈ (Happening.call c).drawn, token ∉ L.map Session.token) :
    ∃ L', Ledger.Step cfg w.now L c (w.auth.call cfg sha w.now c).1 L' ∧ Refines cfg sha w.now (w.auth.call cfg sha w.now c).2 L' ∧
      ∀ token ∈ L'.map Session.token, token ∈ L.map Session.token ∨ token ∈ (Happening.call c).drawn := by
  cases c with
  | login password kind peer replacing draws =>
    obtain ⟨L', hstep, hrefines, htokens⟩ := h.login hinj password kind peer replacing draws fun token htoken =>
      hfresh token (Option.mem_toList.mpr htoken)
    exact ⟨L', hstep, hrefines, fun token hmem => (htokens token hmem).imp id Option.mem_toList.mpr⟩
  | authenticate kind token =>
    obtain ⟨hstep, hrefines⟩ := h.authenticate hinj kind token
    exact ⟨_, hstep, hrefines, fun _ hmem => .inl (Ledger.use_tokens ▸ hmem)⟩
  | logout kind token =>
    obtain ⟨hstep, hrefines⟩ := h.logout hinj kind token
    exact ⟨_, hstep, hrefines, fun _ hmem => .inl (Ledger.close_tokens _ ▸ hmem)⟩
  | logoutId id =>
    obtain ⟨hstep, hrefines⟩ := h.logoutId id
    exact ⟨_, hstep, hrefines, fun _ hmem => .inl (Ledger.close_tokens _ ▸ hmem)⟩
  | revokeAll =>
    obtain ⟨hstep, hrefines⟩ := h.revokeAll
    exact ⟨_, hstep, hrefines, fun _ hmem => .inl (Ledger.close_tokens _ ▸ hmem)⟩
  | touchSession id =>
    obtain ⟨L', hstep, hrefines, htokens⟩ := h.touchSession id
    exact ⟨L', hstep, hrefines, fun _ hmem => .inl (htokens ▸ hmem)⟩

/-- The run of the ledger that a run of the code is, by induction on what happens. -/
theorem refines_run (hinj : Injective sha) {hs : List Happening} (hrun : Ledger.Run cfg w.log L) (h : Refines cfg sha w.now w.auth L)
    (hdrawn : (hs.flatMap Happening.drawn).Nodup) (hfresh : ∀ token ∈ L.map Session.token, token ∉ hs.flatMap Happening.drawn) :
    ∃ L', Ledger.Run cfg (exec (step cfg sha) w hs).log L' ∧
      Refines cfg sha (exec (step cfg sha) w hs).now (exec (step cfg sha) w hs).auth L' := by
  induction hs generalizing w L with
  | nil => exact ⟨L, hrun, h⟩
  | cons e hs ih =>
    rw [List.flatMap_cons, List.nodup_append] at hdrawn
    obtain ⟨-, hrest, hapart⟩ := hdrawn
    simp only [List.flatMap_cons, List.mem_append, not_or] at hfresh
    cases e with
    | pass d => exact ih (w := w.step cfg sha (.pass d)) hrun ⟨h.agrees.later d, h.books, h.tokens⟩ hrest fun token hmem => (hfresh token hmem).2
    | call c =>
      obtain ⟨L', hstep, hrefines, htokens⟩ := call_refines h hinj c fun token hdrawn hmem => (hfresh token hmem).1 hdrawn
      refine ih (w := w.step cfg sha (.call c)) (hrun.snoc hstep) hrefines hrest fun token hmem => ?_
      rcases htokens token hmem with hold | hnew
      · exact (hfresh token hold).2
      · exact fun hlater => hapart token hnew token hlater rfl

/-! ## What the ledger tells -/

theorem accepts_iff (h : Refines cfg sha w.now w.auth L) (hinj : Injective sha) (kind : Kind) (text : Text) :
    (w.auth.authenticate cfg sha kind text w.now).1.isSome ↔ ∃ s ∈ L, s.kind = kind ∧ hex s.token.val = text ∧ s.ending = none ∧
      w.now < s.lastUse + (cfg.policy kind).idle ∧ w.now < s.created + (cfg.policy kind).absolute := by
  have hanswer : (w.auth.authenticate cfg sha kind text w.now).1 = (L.find? (·.holds cfg w.now kind text)).map fun s => ⟨s.id, kind, s.csrf⟩ := by
    obtain ⟨hstep, -⟩ := h.authenticate hinj kind text
    generalize (w.auth.authenticate cfg sha kind text w.now).1 = principal at *
    cases hstep
    rfl
  rw [hanswer, Option.isSome_map, List.find?_isSome]
  refine exists_congr fun s => and_congr_right fun _ => ?_
  simp only [Session.holds, Session.live, Bool.and_eq_true, decide_eq_true_eq]
  constructor
  · rintro ⟨⟨hopen, hidle, habsolute⟩, rfl, htoken⟩
    exact ⟨rfl, htoken, hopen, hidle, habsolute⟩
  · rintro ⟨rfl, htoken, hopen, hidle, habsolute⟩
    exact ⟨⟨hopen, hidle, habsolute⟩, rfl, htoken⟩

omit [DecidableEq D] in
/-- An id that has left the table is not found there. -/
theorem byId_none (h : Refines cfg sha w.now w.auth L) {id : Nat} (hgone : id ∈ w.auth.hooked ∨ id ∈ w.auth.table.expired) :
    w.auth.table.byId id = none := by
  have hn := h.books.accounted.nodup_iff.mpr h.books.nodup
  rw [List.append_assoc] at hn
  refine List.find?_eq_none.mpr fun e he hid => ?_
  have hmem : id ∈ w.auth.table.entries.map Entry.id := List.mem_map.mpr ⟨e, he, by simpa using hid⟩
  exact (List.nodup_append.mp hn).2.2 id hmem id (List.mem_append.mpr hgone) rfl

theorem touch_revoked (h : Refines cfg sha w.now w.auth L) {id : Nat} (hid : id ∈ w.auth.hooked) :
    (w.auth.touchSession cfg id w.now).1 = .revoked := by
  have hn := h.books.accounted.nodup_iff.mpr h.books.nodup
  have hring : w.auth.table.recentlyExpired id = false := Bool.eq_false_iff.mpr fun hheld => by
    have hexpired := List.mem_of_mem_drop (h.books.ring.holds_iff.mp hheld)
    exact (List.nodup_append.mp hn).2.2 id (List.mem_append_right _ hid) id hexpired rfl
  unfold AuthState.touchSession
  rw [byId_none h (.inl hid), hring]
  rfl

theorem touch_expired (h : Refines cfg sha w.now w.auth L) {id : Nat}
    (hid : id ∈ w.auth.table.expired.drop (w.auth.table.expired.length - max (cfg.bearer.cap + cfg.browser.cap) 1)) :
    (w.auth.touchSession cfg id w.now).1 = .expired := by
  have hring : w.auth.table.recentlyExpired id = true := h.books.ring.holds_iff.mpr hid
  unfold AuthState.touchSession
  rw [byId_none h (.inr (List.mem_of_mem_drop hid)), hring]
  rfl

end Agent

/-- Every run is one of the ledger, with the same answers. At its end a token is accepted exactly if it
    was issued for its kind, nothing has ended the session and both limits are ahead; no kind
    has more entries than its cap; and every session issued is in the table, was given to the revoke hook or
    recorded as expired, only one of these and only once, which `touch_session` then answers. -/
theorem sessions_refine (cfg : AuthConfig) (sha : Text → D) (password : Option D) (now : Nat) (hs : List Happening)
    (hinj : Injective sha) (hdrawn : (hs.flatMap Happening.drawn).Nodup) :
    let w := exec (Agent.step cfg sha) (.start cfg password now) hs
    ∃ L : Ledger, Ledger.Run cfg w.log L ∧
      (∀ kind text, (w.auth.authenticate cfg sha kind text w.now).1.isSome ↔ ∃ s ∈ L, s.kind = kind ∧ hex s.token.val = text ∧
        s.ending = none ∧ w.now < s.lastUse + (cfg.policy kind).idle ∧ w.now < s.created + (cfg.policy kind).absolute) ∧
      (∀ kind, 0 < (cfg.policy kind).cap → w.auth.table.entries.countP (·.kind = kind) ≤ (cfg.policy kind).cap) ∧
      (L.map Session.id).Nodup ∧
      (w.auth.table.entries.map Entry.id ++ w.auth.hooked ++ w.auth.table.expired).Perm (L.map Session.id) ∧
      (∀ id ∈ w.auth.hooked, (w.auth.touchSession cfg id w.now).1 = .revoked) ∧
      ∀ id ∈ w.auth.table.expired.drop (w.auth.table.expired.length - max (cfg.bearer.cap + cfg.browser.cap) 1),
        (w.auth.touchSession cfg id w.now).1 = .expired := by
  have hstart : Refines cfg sha now (AuthState.withParts cfg password now) [] :=
    ⟨List.Perm.refl _, SessionTable.books_new, List.nodup_nil⟩
  obtain ⟨L, hrun, h⟩ := Agent.refines_run (w := .start cfg password now) hinj .nil hstart hdrawn nofun
  exact ⟨L, hrun, Agent.accepts_iff h hinj, h.books.room, h.books.nodup, h.books.accounted, fun _ => Agent.touch_revoked h,
    fun _ => Agent.touch_expired h⟩

section

theorem injective_tag : Injective (D := Text) id := by
  intro kind token kind' token' h
  cases kind <;> cases kind' <;> simp [digest, Kind.tag] at h
  · exact ⟨rfl, Subtype.ext h⟩
  · exact ⟨rfl, Subtype.ext h⟩

def phoneToken : Bytes 32 := ⟨List.replicate 32 7, rfl⟩

/-- A phone logs in, comes back after half an hour and again after two: its hour of idling is over. -/
theorem phone_idles_out :
    let w := exec (Agent.step {} id) (.start {} (some [112]) 0) [.call (.login [112] .bearer (.v4 192 168 0 2) [] ⟨some phoneToken, none⟩),
      .pass (secs 1800), .call (.authenticate .bearer (hex phoneToken.val)), .pass (secs 7200)]
    (w.auth.authenticate {} id .bearer (hex phoneToken.val) w.now).1 = none ∧ ∃ L, Ledger.Run {} w.log L ∧ (L.map Session.id).Nodup := by
  obtain ⟨L, hrun, -, -, hnodup, -⟩ := sessions_refine {} id (some [112]) 0
    [.call (.login [112] .bearer (.v4 192 168 0 2) [] ⟨some phoneToken, none⟩), .pass (secs 1800),
      .call (.authenticate .bearer (hex phoneToken.val)), .pass (secs 7200)] injective_tag (by decide)
  exact ⟨by decide +kernel, L, hrun, hnodup⟩

end

end OpenU60.Auth
