/-
  OpenU60.Doh.Questions — an answer from the cache answers the question that was asked, unless two of the
  queries collide.

  The cache's key is the dotted name and the type. Two questions `Collide` when they have one key and
  are different all the same: a label has a dot in it, or the class differs.
  - `Keyed.step`: every entry is an upstream's answer to a query of its key;
  - `answers_fit_iff`: the clients of a set of queries are served from the cache what was received
    for their question, in every run, if and only if no two of the set collide.
-/

import OpenU60.Doh.Proxy

namespace OpenU60.Doh

open OpenU60.Lib OpenU60.Lib.Machine

theorem rewriteId_rewriteId (buf : Bytes) (id id' : Nat) : rewriteId (rewriteId buf id) id' = rewriteId buf id' := by
  unfold rewriteId
  by_cases hlen : 2 ≤ buf.length
  · have hlong : 2 ≤ (BigEndian.toBytes 2 id ++ buf.drop 2).length := by
      rw [List.length_append, BigEndian.length_toBytes]
      exact Nat.le_add_right _ _
    have hdrop : (BigEndian.toBytes 2 id ++ buf.drop 2).drop 2 = buf.drop 2 := by
      rw [List.drop_append_of_le_length (by rw [BigEndian.length_toBytes]), List.drop_eq_nil_of_le (by rw [BigEndian.length_toBytes])]
      rfl
    rw [if_pos hlen, if_pos hlong, if_pos hlen, hdrop]
  · rw [if_neg hlen, if_neg hlen]

/-- Two queries that are taken, of one key and with different questions. -/
def Collide (query query' : Bytes) : Prop :=
  isValidQuery query = true ∧ isValidQuery query' = true ∧
    ∃ q q', question query = some q ∧ question query' = some q' ∧ q.key = q'.key ∧ q ≠ q'

namespace Proxy

/-- What was served from the cache was received for the question that was asked. -/
def Fits (p : Proxy) : Prop := ∀ query reply origin source, Sent.cached query reply origin source ∈ p.sent →
  origin ∈ p.answers ∧ reply = rewriteId origin.response (numberAt 2 query 0) ∧ (question query).isSome ∧ question query = question origin.query

/-- The datagrams the event brings are of the set. -/
def Asks (Q : Bytes → Prop) : Event → Prop
  | .receive packet _ _ => Q packet
  | _ => True

/-- A query of the set, taken, of the key. -/
def Of (Q : Bytes → Prop) (query : Bytes) (key : Bytes × Nat) : Prop :=
  (∃ packet, Q packet ∧ received packet = query) ∧ isValidQuery query = true ∧ ∃ q, question query = some q ∧ q.key = key

def JobOf (Q : Bytes → Prop) (job : QueryJob) : Prop := Of Q job.query (job.qname, job.qtype) ∧ job.clientId = numberAt 2 job.query 0

/-- A worker's query, and the answer it has. -/
def Holds (Q : Bytes → Prop) (p : Proxy) : Worker → Prop
  | .idle => True
  | .looking job | .missed job | .begun job _ _ | .asking job _ _ _ => JobOf Q job
  | .checking job _ _ _ answer | .storing job _ answer => JobOf Q job ∧ answer.query = job.query ∧ answer ∈ p.answers

/-- An answer that was received, for a query of the key. -/
def Received (Q : Bytes → Prop) (p : Proxy) (key : Bytes × Nat) (response : Bytes) (origin : Fetched) : Prop :=
  origin ∈ p.answers ∧ response = rewriteId origin.response 0 ∧ Of Q origin.query key

/-- What was sent from the cache. -/
def Served (Q : Bytes → Prop) (p : Proxy) : Sent → Prop
  | .cached query reply origin _ => ∃ key response, Of Q query key ∧ Received Q p key response origin ∧ reply = rewriteId response (numberAt 2 query 0)
  | _ => True

structure Keyed (Q : Bytes → Prop) (p : Proxy) : Prop where
  queue : ∀ job ∈ p.queue, JobOf Q job
  workers : ∀ w, Holds Q p (p.workers w)
  entries : ∀ e ∈ p.cache.entries, Received Q p e.1 e.2.response e.2.origin
  sent : ∀ s ∈ p.sent, Served Q p s

variable {Q : Bytes → Prop} {p : Proxy}

/-! ## Steps -/

theorem Received.mono {p' : Proxy} (hanswers : ∀ a ∈ p.answers, a ∈ p'.answers) {key : Bytes × Nat} {response : Bytes} {origin : Fetched}
    (h : Received Q p key response origin) : Received Q p' key response origin := ⟨hanswers _ h.1, h.2⟩

theorem Holds.mono {p' : Proxy} (hanswers : ∀ a ∈ p.answers, a ∈ p'.answers) {worker : Worker} (h : Holds Q p worker) : Holds Q p' worker := by
  cases worker with
  | checking job generation seen cacheEnabled answer => exact ⟨h.1, h.2.1, hanswers _ h.2.2⟩
  | storing job cacheEnabled answer => exact ⟨h.1, h.2.1, hanswers _ h.2.2⟩
  | _ => exact h

theorem Served.mono {p' : Proxy} (hanswers : ∀ a ∈ p.answers, a ∈ p'.answers) {s : Sent} (h : Served Q p s) : Served Q p' s := by
  cases s with
  | cached query reply origin source =>
    obtain ⟨key, response, hof, hreceived, hreply⟩ := h
    exact ⟨key, response, hof, hreceived.mono hanswers, hreply⟩
  | _ => trivial

theorem Keyed.setWorker (h : p.Keyed Q) (w : Nat) {worker : Worker} (hworker : Holds Q p worker) : (p.setWorker w worker).Keyed Q := { h with
  workers v := by
    by_cases hv : v = w
    · subst hv
      rw [setWorker_self]
      exact hworker
    · rw [setWorker_of_ne p w worker hv]
      exact h.workers v }

theorem Keyed.send (h : p.Keyed Q) {s : Sent} (hs : Served Q p s) : (p.send s).Keyed Q := { h with
  sent s' hs' := by
    rcases List.mem_append.mp hs' with hs' | hs'
    · exact h.sent s' hs'
    · rw [List.mem_singleton.mp hs']
      exact hs }

theorem Keyed.cache (h : p.Keyed Q) {cache : DnsCache Fetched} (hentries : ∀ e ∈ cache.entries, Received Q p e.1 e.2.response e.2.origin) :
    Keyed Q { p with cache } := ⟨h.queue, h.workers, hentries, h.sent⟩

/-- What is found in the cache may be served. -/
theorem Keyed.served (h : p.Keyed Q) {query qname reply : Bytes} {qtype clientId now source : Nat} {origin : Fetched} (hof : Of Q query (qname, qtype))
    (hid : clientId = numberAt 2 query 0) (hget : p.cache.get qname qtype clientId now = some (reply, origin)) :
    Served Q p (.cached query reply origin source) := by
  obtain ⟨entry, hentry, rfl, rfl⟩ := DnsCache.get_some hget
  exact ⟨(qname, qtype), entry.response, hof, h.entries _ hentry, by rw [hid]⟩

theorem Keyed.receive (h : p.Keyed Q) {packet : Bytes} (hQ : Q packet) (source now : Nat) : (p.receive packet source now).Keyed Q := by
  unfold Proxy.receive
  split
  · exact h
  · rename_i qname qtype pos haccepted
    have hof : Of Q (received packet) (qname, qtype) := by
      unfold accepted at haccepted
      split at haccepted
      · rename_i hvalid
        exact ⟨⟨packet, hQ, rfl⟩, hvalid, question_of_parse haccepted⟩
      · cases haccepted
    dsimp only
    split
    · rename_i reply origin hget
      exact h.send (h.served hof rfl hget)
    · split
      · refine ⟨fun job hjob => ?_, h.workers, h.entries, h.sent⟩
        rcases List.mem_append.mp hjob with hjob | hjob
        · exact h.queue job hjob
        · rw [List.mem_singleton.mp hjob]
          exact ⟨hof, rfl⟩
      · exact h.send trivial

theorem Keyed.take (h : p.Keyed Q) (w : Nat) : (p.take w).Keyed Q := by
  unfold Proxy.take
  split
  · rename_i job queue hw hqueue
    have hmoved : Keyed Q { p with queue } :=
      ⟨fun job' hjob => h.queue job' (hqueue ▸ List.mem_cons_of_mem _ hjob), h.workers, h.entries, h.sent⟩
    exact hmoved.setWorker w (h.queue job (hqueue ▸ List.mem_cons_self))
  · exact h

theorem Keyed.look (h : p.Keyed Q) (w now : Nat) : (p.look w now).Keyed Q := by
  unfold Proxy.look
  split
  · rename_i job hw
    have hjob : JobOf Q job := by
      have hholds := h.workers w
      rw [hw] at hholds
      exact hholds
    split
    · rename_i reply origin hget
      exact (h.send (h.served hjob.1 hjob.2 hget)).setWorker w trivial
    · exact h.setWorker w hjob
  · exact h

theorem Keyed.begin (h : p.Keyed Q) (w : Nat) : (p.begin w).Keyed Q := by
  unfold Proxy.begin
  split
  · rename_i job hw
    have hholds := h.workers w
    rw [hw] at hholds
    exact h.setWorker w hholds
  · exact h

theorem Keyed.configure (h : p.Keyed Q) (w : Nat) : (p.configure w).Keyed Q := by
  unfold Proxy.configure
  split
  · rename_i job generation seen hw
    have hholds := h.workers w
    rw [hw] at hholds
    exact h.setWorker w hholds
  · exact h

theorem Keyed.answer (h : p.Keyed Q) (w : Nat) (result : Option Bytes) : (p.answer w result).Keyed Q := by
  unfold Proxy.answer
  split
  · rename_i job generation seen cacheEnabled hw
    have hjob : JobOf Q job := by
      have hholds := h.workers w
      rw [hw] at hholds
      exact hholds
    split
    · rename_i response
      have hmore : ∀ a ∈ p.answers, a ∈ p.answers ++ [⟨job.query, response, p.changes⟩] := fun a ha => List.mem_append_left _ ha
      have hmoved : Keyed Q { p with answers := p.answers ++ [⟨job.query, response, p.changes⟩] } :=
        ⟨h.queue, fun v => (h.workers v).mono hmore, fun e he => (h.entries e he).mono hmore, fun s hs => (h.sent s hs).mono hmore⟩
      exact hmoved.setWorker w ⟨hjob, rfl, List.mem_append_right _ (List.mem_singleton_self _)⟩
    · exact (h.send (s := .servfail job.query job.source) trivial).setWorker w trivial
  · exact h

theorem Keyed.check (h : p.Keyed Q) (w : Nat) : (p.check w).Keyed Q := by
  unfold Proxy.check
  split
  · rename_i job generation seen cacheEnabled answer hw
    have hholds := h.workers w
    rw [hw] at hholds
    split
    · exact h.setWorker w hholds
    · exact (h.send (s := .servfail job.query job.source) trivial).setWorker w trivial
  · exact h

theorem Keyed.store (h : p.Keyed Q) (w now : Nat) : (p.store w now).Keyed Q := by
  unfold Proxy.store
  split
  · rename_i job cacheEnabled answer hw
    obtain ⟨hjob, hquery, hin⟩ : JobOf Q job ∧ answer.query = job.query ∧ answer ∈ p.answers := by
      have hholds := h.workers w
      rw [hw] at hholds
      exact hholds
    dsimp only
    refine Keyed.setWorker (Keyed.send (s := .fetched answer job.source) (h.cache fun e he => ?_) trivial) w trivial
    cases cacheEnabled with
    | false => exact h.entries e he
    | true =>
      rcases DnsCache.mem_insert he with he | ⟨-, hkey, hresponse, horigin⟩
      · exact h.entries e he
      · rw [hkey, hresponse, horigin]
        exact ⟨hin, rfl, hquery ▸ hjob.1⟩
  · exact h

theorem Keyed.step (h : p.Keyed Q) (e : Event) (hasks : Asks Q e) : (p.step e).Keyed Q := by
  cases e with
  | receive packet source now => exact h.receive hasks source now
  | take w => exact h.take w
  | look w now => exact h.look w now
  | begin w => exact h.begin w
  | configure w => exact h.configure w
  | answer w result => exact h.answer w result
  | check w => exact h.check w
  | store w now => exact h.store w now
  | setConfig cacheEnabled now => exact { h with entries := fun e he => h.entries e (DnsCache.mem_prune he) }
  | clearCache => exact h.cache fun _ he => absurd he List.not_mem_nil
  | bump => exact { h with }
  | clear call =>
    unfold Proxy.step
    dsimp only
    split
    · exact { h with entries := fun _ he => absurd he List.not_mem_nil }
    · exact h
  | ret call =>
    unfold Proxy.step
    dsimp only
    split
    · exact { h with }
    · exact h

theorem Keyed.new (Q : Bytes → Prop) (maxEntries : Nat) (cacheEnabled : Bool) : (Proxy.new maxEntries cacheEnabled).Keyed Q :=
  ⟨fun _ hjob => absurd hjob List.not_mem_nil, fun _ => trivial, fun _ he => absurd he List.not_mem_nil, fun _ hs => absurd hs List.not_mem_nil⟩

/-- What was served fits, if no two queries collide. -/
theorem Keyed.fits (h : p.Keyed Q) (hno : ∀ packet packet', Q packet → Q packet' → ¬ Collide (received packet) (received packet')) : p.Fits := by
  intro query reply origin source hs
  obtain ⟨key, response, ⟨⟨packet, hQ, hpacket⟩, hvalid, q, hq, hkey⟩, ⟨hin, hresponse, ⟨packet', hQ', hpacket'⟩, hvalid', q', hq', hkey'⟩, hreply⟩ :=
    h.sent _ hs
  refine ⟨hin, ?_, by rw [hq]; rfl, ?_⟩
  · rw [hreply, hresponse, rewriteId_rewriteId]
  · by_contra hne
    refine hno packet packet' hQ hQ' ?_
    rw [hpacket, hpacket']
    refine ⟨hvalid, hvalid', q, q', hq, hq', hkey.trans hkey'.symm, fun heq => hne ?_⟩
    rw [hq, hq', heq]

/-! ## A collision -/

/-- An answer with one record, that lives for five minutes. -/
def someAnswer : Bytes := [0, 0, 0x81, 0x80, 0, 0, 0, 1, 0, 0, 0, 0, 0, 0, 1, 0, 1, 0, 0, 1, 44, 0, 4, 10, 0, 0, 1]

/-- The first query is answered, then the second is asked. -/
def askBoth (packet packet' : Bytes) : List Event :=
  [.setConfig true 0, .receive packet 0 0, .take 0, .look 0 0, .begin 0, .configure 0, .answer 0 (some someAnswer), .check 0, .store 0 0,
    .receive packet' 1 0]

theorem accepted_of_question {packet : Bytes} {q : Question} (hvalid : isValidQuery (received packet) = true)
    (hq : question (received packet) = some q) : ∃ pos, accepted packet = some (q.key.1, q.key.2, pos) := by
  have hkey := parseQuestion_key (received packet)
  rw [hq] at hkey
  obtain ⟨⟨qname, qtype, pos⟩, hparse, heq⟩ := Option.map_eq_some_iff.mp hkey
  unfold accepted
  rw [if_pos hvalid, hparse]
  cases heq
  exact ⟨pos, rfl⟩

/-- The answer to the first is what the second is served. -/
theorem askBoth_served (maxEntries : Nat) (cacheEnabled : Bool) {packet packet' qname : Bytes} {qtype pos pos' : Nat}
    (h : accepted packet = some (qname, qtype, pos)) (h' : accepted packet' = some (qname, qtype, pos')) :
    ∃ reply, .cached (received packet') reply ⟨received packet, someAnswer, 0⟩ 1 ∈ (exec step (new maxEntries cacheEnabled) (askBoth packet packet')).sent := by
  let job : QueryJob := ⟨received packet, qname, qtype, numberAt 2 (received packet) 0, 0⟩
  let answer : Fetched := ⟨received packet, someAnswer, 0⟩
  have hreceive : ((new maxEntries cacheEnabled).step (.setConfig true 0)).step (.receive packet 0 0) =
      { (new maxEntries true) with queue := [job] } := by
    show Proxy.receive _ packet 0 0 = _
    unfold Proxy.receive
    rw [h]
    rfl
  have hcache : (exec step { (new maxEntries true) with queue := [job] }
      [.take 0, .look 0 0, .begin 0, .configure 0, .answer 0 (some someAnswer), .check 0, .store 0 0]).cache =
      (new maxEntries true).cache.insert qname qtype someAnswer (extractMinTtl someAnswer) 0 answer := by
    simp [step, Proxy.take, Proxy.look, Proxy.begin, Proxy.configure, Proxy.answer, Proxy.check, Proxy.store, Proxy.new, DnsCache.get, changes,
      job, answer]
  have hlives : DnsCache.effectiveTtl someAnswer (extractMinTtl someAnswer) ≠ 0 := by decide +kernel
  refine ⟨rewriteId (rewriteId someAnswer 0) (numberAt 2 (received packet') 0), ?_⟩
  have hget : ((new maxEntries true).cache.insert qname qtype someAnswer (extractMinTtl someAnswer) 0 answer).get qname qtype
      (numberAt 2 (received packet') 0) 0 = some (rewriteId (rewriteId someAnswer 0) (numberAt 2 (received packet') 0), answer) :=
    DnsCache.get_insert hlives
  show _ ∈ (Proxy.receive (exec step ((new maxEntries cacheEnabled).step (.setConfig true 0) |>.step (.receive packet 0 0))
    [.take 0, .look 0 0, .begin 0, .configure 0, .answer 0 (some someAnswer), .check 0, .store 0 0]) packet' 1 0).sent
  rw [hreceive]
  unfold Proxy.receive
  rw [h']
  dsimp only
  rw [hcache, hget]
  dsimp only
  exact List.mem_append_right _ (List.mem_singleton_self _)

/-- The clients of a set of queries are served, in every run, what was received for the question they ask,
    if and only if no two queries of the set have one dotted name and type and different questions. -/
theorem answers_fit_iff (Q : Bytes → Prop) (maxEntries : Nat) (cacheEnabled : Bool) :
    (∀ events, (∀ e ∈ events, Asks Q e) → (exec step (new maxEntries cacheEnabled) events).Fits) ↔
      ∀ packet packet', Q packet → Q packet' → ¬ Collide (received packet) (received packet') := by
  constructor
  · rintro h packet packet' hQ hQ' ⟨hvalid, hvalid', q, q', hq, hq', hkey, hne⟩
    obtain ⟨pos, haccepted⟩ := accepted_of_question hvalid hq
    obtain ⟨pos', haccepted'⟩ := accepted_of_question hvalid' hq'
    rw [← hkey] at haccepted'
    obtain ⟨reply, hserved⟩ := askBoth_served maxEntries cacheEnabled haccepted haccepted'
    have hasks : ∀ e ∈ askBoth packet packet', Asks Q e := by
      intro e he
      simp only [askBoth, List.mem_cons, List.not_mem_nil, or_false] at he
      rcases he with rfl | rfl | rfl | rfl | rfl | rfl | rfl | rfl | rfl | rfl
      all_goals first | exact hQ | exact hQ' | trivial
    have hfits := (h (askBoth packet packet') hasks _ _ _ _ hserved).2.2.2
    rw [hq, hq'] at hfits
    exact hne (Option.some.inj hfits).symm
  · intro hno events hasks
    have hstep : ∀ (p : Proxy) e, p.Keyed Q → Asks Q e → (p.step e).Keyed Q := fun _ e hinv hasks => hinv.step e hasks
    exact (invariant_along hstep (Keyed.new Q maxEntries cacheEnabled) (along_of_forall hasks)).fits hno

/-- The name of the labels `a` and `b`. -/
def twoLabels : Bytes := [0, 1, 1, 0, 0, 1, 0, 0, 0, 0, 0, 0, 1, 0x61, 1, 0x62, 0, 0, 1, 0, 1]

/-- The name of the one label `a.b`. -/
def dottedLabel : Bytes := [0, 2, 1, 0, 0, 1, 0, 0, 0, 0, 0, 0, 3, 0x61, 0x2E, 0x62, 0, 0, 1, 0, 1]

/-- The one label is served what was received for the two. -/
theorem dotted_label_served : ¬ ∀ maxEntries cacheEnabled events, (exec step (new maxEntries cacheEnabled) events).Fits := by
  intro h
  have htwo : accepted twoLabels = some ([0x61, 0x2E, 0x62], 1, 21) := by decide +kernel
  have hdotted : accepted dottedLabel = some ([0x61, 0x2E, 0x62], 1, 21) := by decide +kernel
  obtain ⟨reply, hserved⟩ := askBoth_served 1000 true htwo hdotted
  have hsame : question (received dottedLabel) = question (received twoLabels) := (h 1000 true _ _ _ _ _ hserved).2.2.2
  revert hsame
  decide +kernel

end Proxy

end OpenU60.Doh
