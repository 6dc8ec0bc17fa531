/-
  OpenU60.Doh.NetworkChange — no answer from before a network change is in the cache after it, unless
  the change falls between a worker's check of the generation and its store.

  A worker reads the generation before it asks and checks it when the answer came; `network_changed`
  raises the generation, then clears the cache. The check and the store are two statements, so an
  older answer that passed its check is stored after the clear all the same.
  - `Inv.step`: what one step keeps where `Uncut` holds of it;
  - `cache_stays_new_iff`: in a run of such steps the cache stays new; and where a clear finds a worker
    between check and store with an older answer, that answer is in the cache after the call.
-/

import OpenU60.Doh.Proxy

namespace OpenU60.Doh

open OpenU60.Lib OpenU60.Lib.Machine

/-- The call has cleared the cache. -/
def Change.past : Change → Prop
  | .bumped => False
  | .cleared | .returned => True

/-- The cache takes the answer: its records live. -/
def Fetched.Lives (answer : Fetched) : Prop := DnsCache.effectiveTtl answer.response (extractMinTtl answer.response) ≠ 0

instance (answer : Fetched) : Decidable answer.Lives := inferInstanceAs (Decidable (_ ≠ _))

namespace Proxy

/-- After a network change has returned, nothing fetched before it began is in the cache. -/
def Fresh (p : Proxy) : Prop := ∀ call, p.calls[call]? = some .returned → ∀ e ∈ p.cache.entries, call < e.2.origin.epoch

/-- An answer from after every change that has cleared the cache. -/
def New (p : Proxy) (answer : Fetched) : Prop := ∀ call change, p.calls[call]? = some change → change.past → call < answer.epoch

/-- A clear finds no worker about to store an answer from before its call. (And no generation was read
    a full turn of the counter ago and is taken for the same.) -/
def Uncut (p : Proxy) : Event → Prop
  | .clear call => p.calls[call]? = some .bumped → ∀ w job answer, p.workers w = .storing job true answer → answer.Lives → call < answer.epoch
  | .check w => ∀ job generation seen answer, p.workers w = .checking job generation seen true answer → answer.Lives →
      Counter.Lapped seen p.changes → p.New answer
  | _ => True

/-- A worker's generation is the one of its time, and what it is about to store is new. -/
def Dated (p : Proxy) : Worker → Prop
  | .begun _ generation seen | .asking _ generation seen _ => generation = UInt64.ofNat seen ∧ seen ≤ p.changes
  | .checking _ generation seen _ answer => generation = UInt64.ofNat seen ∧ seen ≤ answer.epoch ∧ answer.epoch ≤ p.changes
  | .storing _ true answer => answer.Lives → p.New answer
  | _ => True

structure Inv (p : Proxy) : Prop where
  generation : p.networkGeneration = UInt64.ofNat p.changes
  entries : ∀ e ∈ p.cache.entries, p.New e.2.origin
  workers : ∀ w, p.Dated (p.workers w)

variable {p : Proxy}

/-! ## Steps -/

/-- What stands in the calls decides. -/
theorem Dated.congr {p' : Proxy} (hcalls : p'.calls = p.calls) {worker : Worker} (h : p.Dated worker) : p'.Dated worker := by
  unfold Dated New changes at *
  rw [hcalls]
  exact h

/-- A step of one worker, or of none, that leaves the calls alone. -/
theorem Inv.moved (h : p.Inv) {p' : Proxy} (hcalls : p'.calls = p.calls) (hgeneration : p'.networkGeneration = p.networkGeneration)
    (hentries : ∀ e ∈ p'.cache.entries, e ∈ p.cache.entries ∨ p.New e.2.origin)
    (hworkers : ∀ w, p'.workers w = p.workers w ∨ p.Dated (p'.workers w)) : p'.Inv where
  generation := by
    rw [hgeneration, h.generation]
    unfold changes
    rw [hcalls]
  entries e he := by
    unfold New
    rw [hcalls]
    rcases hentries e he with he | hnew
    · exact h.entries e he
    · exact hnew
  workers w := by
    refine Dated.congr hcalls ?_
    rcases hworkers w with hw | hw
    · rw [hw]
      exact h.workers w
    · exact hw

theorem Inv.setWorker (h : p.Inv) (w : Nat) {worker : Worker} (hworker : p.Dated worker) : (p.setWorker w worker).Inv := by
  refine h.moved rfl rfl (fun e he => .inl he) fun v => ?_
  by_cases hv : v = w
  · subst hv
    rw [setWorker_self]
    exact .inr hworker
  · exact .inl (setWorker_of_ne p w worker hv)

theorem Inv.send (h : p.Inv) (s : Sent) : (p.send s).Inv := h.moved rfl rfl (fun _ he => .inl he) fun _ => .inl rfl

theorem Inv.receive (h : p.Inv) (packet : Bytes) (source now : Nat) : (p.receive packet source now).Inv := by
  unfold Proxy.receive
  split
  · exact h
  · dsimp only
    split
    · exact h.send _
    · split
      · exact h.moved rfl rfl (fun _ he => .inl he) fun _ => .inl rfl
      · exact h.send _

theorem Inv.take (h : p.Inv) (w : Nat) : (p.take w).Inv := by
  unfold Proxy.take
  split
  · rename_i job queue hw hqueue
    have hmoved : Inv { p with queue } := h.moved rfl rfl (fun _ he => .inl he) fun _ => .inl rfl
    exact hmoved.setWorker w trivial
  · exact h

theorem Inv.look (h : p.Inv) (w now : Nat) : (p.look w now).Inv := by
  unfold Proxy.look
  split
  · split
    · exact (h.send _).setWorker w trivial
    · exact h.setWorker w trivial
  · exact h

theorem Inv.begin (h : p.Inv) (w : Nat) : (p.begin w).Inv := by
  unfold Proxy.begin
  split
  · exact h.setWorker w ⟨h.generation, Nat.le_refl _⟩
  · exact h

theorem Inv.configure (h : p.Inv) (w : Nat) : (p.configure w).Inv := by
  unfold Proxy.configure
  split
  · rename_i job generation seen hw
    have hdated := h.workers w
    rw [hw] at hdated
    exact h.setWorker w hdated
  · exact h

theorem Inv.answer (h : p.Inv) (w : Nat) (result : Option Bytes) : (p.answer w result).Inv := by
  unfold Proxy.answer
  split
  · rename_i job generation seen cacheEnabled hw
    have hdated : generation = UInt64.ofNat seen ∧ seen ≤ p.changes := by
      have hdated := h.workers w
      rw [hw] at hdated
      exact hdated
    split
    · rename_i response
      have hmoved : Inv { p with answers := p.answers ++ [⟨job.query, response, p.changes⟩] } :=
        h.moved rfl rfl (fun _ he => .inl he) fun _ => .inl rfl
      exact hmoved.setWorker w ⟨hdated.1, hdated.2, Nat.le_refl _⟩
    · exact (h.send _).setWorker w trivial
  · exact h

/-- An answer whose generation still stands came after every change so far. -/
theorem new_of_check {seen : Nat} {answer : Fetched} (h : p.Inv) (hdated : seen ≤ answer.epoch ∧ answer.epoch ≤ p.changes)
    (hsame : p.networkGeneration = UInt64.ofNat seen) (hlap : ¬ Counter.Lapped seen p.changes) : p.New answer := by
  have heq : seen = p.changes := Counter.eq_of_ofNat_eq (Nat.le_trans hdated.1 hdated.2) hlap (hsame.symm.trans h.generation)
  intro call change hcall _
  have hlt : call < p.calls.length := (List.getElem?_eq_some_iff.mp hcall).1
  have : p.changes = p.calls.length := rfl
  omega

theorem Inv.check (h : p.Inv) (w : Nat) (huncut : p.Uncut (.check w)) : (p.check w).Inv := by
  unfold Proxy.check
  split
  · rename_i job generation seen cacheEnabled answer hw
    have hdated : generation = UInt64.ofNat seen ∧ seen ≤ answer.epoch ∧ answer.epoch ≤ p.changes := by
      have hdated := h.workers w
      rw [hw] at hdated
      exact hdated
    split
    · rename_i hsame
      refine h.setWorker w ?_
      cases cacheEnabled with
      | false => trivial
      | true =>
        intro hlives
        by_cases hlap : Counter.Lapped seen p.changes
        · exact huncut job generation seen answer hw hlives hlap
        · exact new_of_check h hdated.2 (hsame.trans hdated.1) hlap
    · exact (h.send _).setWorker w trivial
  · exact h

theorem Inv.store (h : p.Inv) (w now : Nat) : (p.store w now).Inv := by
  unfold Proxy.store
  split
  · rename_i job cacheEnabled answer hw
    dsimp only
    refine Inv.setWorker (Inv.send ?_ _) w trivial
    refine h.moved rfl rfl (fun e he => ?_) fun _ => .inl rfl
    cases cacheEnabled with
    | false => exact .inl he
    | true =>
      rcases DnsCache.mem_insert he with he | ⟨hlives, -, -, horigin⟩
      · exact .inl he
      · refine .inr ?_
        rw [horigin]
        have hdated := h.workers w
        rw [hw] at hdated
        exact hdated hlives
  · exact h

/-- A further call has cleared nothing yet. -/
theorem Inv.bump (h : p.Inv) : (p.step .bump).Inv := by
  have hnew : ∀ answer, p.New answer → (p.step .bump).New answer := by
    intro answer hnew call change hcall hpast
    have hcall : (p.calls ++ [Change.bumped])[call]? = some change := hcall
    rcases Nat.lt_trichotomy call p.calls.length with hlt | heq | hgt
    · rw [List.getElem?_append_left hlt] at hcall
      exact hnew call change hcall hpast
    · rw [heq, List.getElem?_concat_length] at hcall
      cases hcall
      cases hpast
    · rw [List.getElem?_eq_none (by rw [List.length_append]; exact hgt)] at hcall
      cases hcall
  have hchanges : (p.step .bump).changes = p.changes + 1 := List.length_append
  refine ⟨?_, fun e he => hnew _ (h.entries e he), fun w => ?_⟩
  · show p.networkGeneration + 1 = _
    rw [hchanges, Counter.ofNat_succ, h.generation]
  · have hdated : p.Dated (p.workers w) := h.workers w
    show (p.step .bump).Dated (p.workers w)
    generalize p.workers w = worker at hdated ⊢
    cases worker with
    | begun job generation seen => exact ⟨hdated.1, Nat.le_trans hdated.2 (hchanges ▸ Nat.le_succ _)⟩
    | asking job generation seen cacheEnabled => exact ⟨hdated.1, Nat.le_trans hdated.2 (hchanges ▸ Nat.le_succ _)⟩
    | checking job generation seen cacheEnabled answer => exact ⟨hdated.1, hdated.2.1, Nat.le_trans hdated.2.2 (hchanges ▸ Nat.le_succ _)⟩
    | storing job cacheEnabled answer =>
      cases cacheEnabled with
      | false => trivial
      | true => exact fun hlives => hnew answer (hdated hlives)
    | _ => trivial

/-- A call goes on: what is newer than its clear, if it is one, stays new. -/
theorem New.set {answer : Fetched} {call : Nat} {change : Change} (h : p.New answer) (hcall : change.past → call < answer.epoch) {p' : Proxy}
    (hcalls : p'.calls = p.calls.set call change) : p'.New answer := by
  intro other change' hother hpast
  rw [hcalls, List.getElem?_set] at hother
  by_cases heq : call = other
  · subst heq
    rw [if_pos rfl] at hother
    split at hother
    · cases hother
      exact hcall hpast
    · cases hother
  · rw [if_neg heq] at hother
    exact h other change' hother hpast

theorem Inv.progress (h : p.Inv) {call : Nat} {change : Change} {p' : Proxy} (hcalls : p'.calls = p.calls.set call change)
    (hgeneration : p'.networkGeneration = p.networkGeneration) (hworkers : p'.workers = p.workers)
    (hentries : ∀ e ∈ p'.cache.entries, e ∈ p.cache.entries ∧ call < e.2.origin.epoch)
    (hstoring : ∀ w job answer, p.workers w = .storing job true answer → answer.Lives → call < answer.epoch) : p'.Inv := by
  have hchanges : p'.changes = p.changes := by
    unfold changes
    rw [hcalls, List.length_set]
  refine ⟨?_, fun e he => (h.entries e (hentries e he).1).set (fun _ => (hentries e he).2) hcalls, fun w => ?_⟩
  · rw [hgeneration, hchanges, h.generation]
  · have hdated : p.Dated (p.workers w) := h.workers w
    rw [hworkers]
    cases hw : p.workers w with
    | storing job cacheEnabled answer =>
      cases cacheEnabled with
      | false => trivial
      | true =>
        intro hlives
        rw [hw] at hdated
        exact New.set (hdated hlives) (fun _ => hstoring w job answer hw hlives) hcalls
    | _ =>
      rw [hw] at hdated
      unfold Dated at *
      rw [hchanges]
      exact hdated

theorem Inv.step (h : p.Inv) (e : Event) (huncut : p.Uncut e) : (p.step e).Inv := by
  cases e with
  | receive packet source now => exact h.receive packet source now
  | take w => exact h.take w
  | look w now => exact h.look w now
  | begin w => exact h.begin w
  | configure w => exact h.configure w
  | answer w result => exact h.answer w result
  | check w => exact h.check w huncut
  | store w now => exact h.store w now
  | setConfig cacheEnabled now => exact h.moved rfl rfl (fun _ he => .inl (DnsCache.mem_prune he)) fun _ => .inl rfl
  | clearCache => exact h.moved rfl rfl (fun _ he => absurd he List.not_mem_nil) fun _ => .inl rfl
  | bump => exact h.bump
  | clear call =>
    unfold Proxy.step
    dsimp only
    split
    · rename_i hcall
      exact h.progress rfl rfl rfl (fun _ he => absurd he List.not_mem_nil) (huncut hcall)
    · exact h
  | ret call =>
    unfold Proxy.step
    dsimp only
    split
    · rename_i hcall
      refine h.progress rfl rfl rfl (fun e he => ⟨he, h.entries e he call .cleared hcall trivial⟩) fun w job answer hw hlives => ?_
      have hdated := h.workers w
      rw [hw] at hdated
      exact hdated hlives call .cleared hcall trivial
    · exact h

theorem Inv.new (maxEntries : Nat) (cacheEnabled : Bool) : (Proxy.new maxEntries cacheEnabled).Inv :=
  ⟨rfl, fun _ he => absurd he List.not_mem_nil, fun _ => trivial⟩

theorem Inv.fresh (h : p.Inv) : p.Fresh := fun call hcall e he => h.entries e he call .returned hcall trivial

/-! ## The race -/

/-- A clear that finds an older answer about to be stored: stored, it is there when the call has returned. -/
theorem stale_after {call w : Nat} {job : QueryJob} {answer : Fetched} (hcall : p.calls[call]? = some .bumped)
    (hw : p.workers w = .storing job true answer) (hlives : answer.Lives) (holder : answer.epoch ≤ call) (now : Nat) :
    ¬ (exec step p [.clear call, .store w now, .ret call]).Fresh := by
  have hlt : call < p.calls.length := (List.getElem?_eq_some_iff.mp hcall).1
  have hclear : p.step (.clear call) = { p with cache := p.cache.clear, calls := p.calls.set call .cleared } := if_pos hcall
  have hstore : (p.step (.clear call)).step (.store w now) = (({ p with
      cache := p.cache.clear.insert job.qname job.qtype answer.response (extractMinTtl answer.response) now answer
      calls := p.calls.set call .cleared }).send (.fetched answer job.source)).setWorker w .idle := by
    rw [hclear]
    show Proxy.store _ w now = _
    unfold Proxy.store
    dsimp only
    rw [hw]
    rfl
  intro hfresh
  rw [exec_cons, exec_cons, exec_cons, exec_nil, hstore] at hfresh
  unfold Proxy.step at hfresh
  dsimp only at hfresh
  rw [if_pos (by simp [hlt])] at hfresh
  have hget : (p.cache.clear.insert job.qname job.qtype answer.response (extractMinTtl answer.response) now answer).get job.qname job.qtype 0 now =
      some (rewriteId (rewriteId answer.response 0) 0, answer) := DnsCache.get_insert hlives
  obtain ⟨entry, he, horigin, -⟩ := DnsCache.get_some hget
  have hnew := hfresh call (by simp [hlt]) _ he
  rw [horigin] at hnew
  omega

/-- Where no clear falls between a worker's check and its store of an older answer, no answer from before a
    network change is in the cache after it. Where one does, the answer is there when the call has returned. -/
theorem cache_stays_new_iff (maxEntries : Nat) (cacheEnabled : Bool) :
    (∀ events, Along step Uncut (new maxEntries cacheEnabled) events → (exec step (new maxEntries cacheEnabled) events).Fresh) ∧
    ∀ events call, ¬ (exec step (new maxEntries cacheEnabled) events).Uncut (.clear call) →
      ∃ w now, ¬ (exec step (new maxEntries cacheEnabled) (events ++ [.clear call, .store w now, .ret call])).Fresh := by
  constructor
  · intro events h
    have hstep : ∀ (p : Proxy) e, p.Inv → p.Uncut e → (p.step e).Inv := fun _ e hinv huncut => hinv.step e huncut
    exact (invariant_along hstep (Inv.new maxEntries cacheEnabled) h).fresh
  · intro events call h
    unfold Uncut at h
    push Not at h
    obtain ⟨hcall, w, job, answer, hw, hlives, holder⟩ := h
    refine ⟨w, 0, ?_⟩
    rw [exec_append]
    exact stale_after hcall hw hlives holder 0

/-- The clear falls between the check of the only query and its store. -/
def race : List Event :=
  [.receive [0x12, 0x34, 1, 0, 0, 1, 0, 0, 0, 0, 0, 0, 1, 0x61, 0, 0, 1, 0, 1] 7 0, .take 0, .look 0 0, .begin 0, .configure 0,
    .answer 0 (some [0x12, 0x34, 0x81, 0x80, 0, 0, 0, 1, 0, 0, 0, 0, 0, 0, 1, 0, 1, 0, 0, 1, 44, 0, 4, 10, 0, 0, 1]), .check 0,
    .bump, .clear 0, .store 0 1, .ret 0]

/-- The answer of the old network is in the cache of the new one. -/
theorem old_answer_stored : ¬ ∀ maxEntries cacheEnabled events, (exec step (new maxEntries cacheEnabled) events).Fresh := by
  intro h
  have hfresh := h 1000 true race 0 (by decide +kernel)
  have hold : ∃ e ∈ (exec step (new 1000 true) race).cache.entries, e.2.origin.epoch = 0 := by decide +kernel
  obtain ⟨e, he, hepoch⟩ := hold
  have := hfresh e he
  omega

end Proxy

end OpenU60.Doh
