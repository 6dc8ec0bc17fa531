/-
  OpenU60.Web.Conversations — what `group` makes of a list of messages, and what a
  conversation's fingerprint says.

  - `order_spec`: the insertion gives every index once, newest first.
  - `Filed`, `filed_all`: filing keeps, after each message, one conversation for each key, its
    messages those with the key in the order filed, the conversations in the order of their
    first.
  - `group_spec`: so each message is in one conversation, the one of its key, each sorted.
  - `same_fingerprint`: of two readings between which messages went or newer ones came, equal
    fingerprints mean the same messages. A reading by another clock may list them in another
    order (`clock_reorders`).
-/

import Mathlib
import OpenU60.Lib.Decimal
import OpenU60.Lib.Split
import OpenU60.Web.SmsText

namespace OpenU60.Web.Sms

open OpenU60.Lib OpenU60.Lib.Insertion

/-! ## Newest first -/

theorem order_eq (now : Int) (msgs : List Msg) :
    order now msgs = (List.range msgs.length).foldl (fun order i => insertDesc (fun j => msgs[j]!.time now) i order) [] := by
  have hsnd : msgs.zipIdx.map Prod.snd = List.range msgs.length := by
    rw [List.zipIdx_map_snd, List.range_eq_range']
  rw [← hsnd, List.foldl_map]
  refine List.foldl_ext _ _ _ fun order x hx => ?_
  have hx1 : msgs[x.2]! = x.1 := by
    have hget := List.mem_zipIdx_iff_getElem?.mp hx
    rw [List.getElem!_eq_getElem?_getD, hget]
    rfl
  unfold insertDesc
  simp only [hx1]

theorem order_spec (now : Int) (msgs : List Msg) : (order now msgs).Perm (List.range msgs.length) ∧
    (order now msgs).Pairwise fun i j => msgs[j]!.time now ≤ msgs[i]!.time now := by
  have hperm := perm_foldl (fun j => msgs[j]!.time now) (List.range msgs.length) []
  have hsorted := sorted_foldl (f := fun j => msgs[j]!.time now) (List.range msgs.length) List.Pairwise.nil
  rw [List.append_nil] at hperm
  rw [order_eq]
  exact ⟨hperm, hsorted⟩

/-- Every slot is taken once. -/
theorem takeSlots_eq {msgs : List Msg} {is : List Nat} {slots : List (Option Msg)} (hnd : is.Nodup)
    (h : ∀ i ∈ is, slots[i]! = some msgs[i]!) : takeSlots is slots = is.map (msgs[·]!) := by
  induction is generalizing slots with
  | nil => rfl
  | cons i is ih =>
    obtain ⟨hi, hnd⟩ := List.nodup_cons.mp hnd
    have hrest : ∀ j ∈ is, (slots.set i none)[j]! = some msgs[j]! := by
      intro j hj
      have hne : i ≠ j := fun he => hi (he ▸ hj)
      rw [List.getElem!_eq_getElem?_getD, List.getElem?_set_ne hne, ← List.getElem!_eq_getElem?_getD]
      exact h j (List.mem_cons_of_mem _ hj)
    rw [takeSlots, h i (List.mem_cons_self ..)]
    exact congrArg (msgs[i]! :: ·) (ih hnd hrest)

/-- The messages, newest first. -/
def newest (now : Int) (msgs : List Msg) : List Msg := (order now msgs).map (msgs[·]!)

theorem takeSlots_order (now : Int) (msgs : List Msg) : takeSlots (order now msgs) (msgs.map some) = newest now msgs := by
  have hperm := (order_spec now msgs).1
  refine takeSlots_eq (hperm.nodup_iff.mpr List.nodup_range) fun i hi => ?_
  have hlt := List.mem_range.mp (hperm.mem_iff.mp hi)
  rw [List.getElem!_eq_getElem?_getD, List.getElem!_eq_getElem?_getD, List.getElem?_map, List.getElem?_eq_getElem hlt]
  rfl

theorem newest_perm (now : Int) (msgs : List Msg) : (newest now msgs).Perm msgs := by
  have hrange : (List.range msgs.length).map (msgs[·]!) = msgs := by
    refine List.ext_getElem (by simp) fun i _ hi => ?_
    rw [List.getElem_map, List.getElem_range, List.getElem!_eq_getElem?_getD, List.getElem?_eq_getElem hi]
    rfl
  have hperm := (order_spec now msgs).1.map (msgs[·]!)
  rw [hrange] at hperm
  exact hperm

theorem newest_sorted (now : Int) (msgs : List Msg) : (newest now msgs).Pairwise fun m m' => m'.time now ≤ m.time now :=
  List.pairwise_map.mpr (order_spec now msgs).2

/-! ## Filing -/

theorem file_cases (key : String) (m : Msg) (convs : List Conv) :
    (∃ before c after, convs = before ++ c :: after ∧ c.key = key ∧
      file key m convs = before ++ { c with msgs := c.msgs ++ [m] } :: after) ∨
    ((∀ d ∈ convs, d.key ≠ key) ∧ file key m convs = convs ++ [⟨key, "", [m], 0⟩]) := by
  induction convs with
  | nil => exact .inr ⟨fun _ hd => absurd hd List.not_mem_nil, rfl⟩
  | cons c convs ih =>
    by_cases hc : c.key = key
    · refine .inl ⟨[], c, convs, rfl, hc, ?_⟩
      rw [file, if_pos hc]
      rfl
    · rw [file, if_neg hc]
      obtain ⟨before, d, after, rfl, hd, hfile⟩ | ⟨hnone, hfile⟩ := ih
      · exact .inl ⟨c :: before, d, after, rfl, hd, congrArg (c :: ·) hfile⟩
      · exact .inr ⟨List.forall_mem_cons.mpr ⟨hc, hnone⟩, congrArg (c :: ·) hfile⟩

variable {u : Unicode}

/-- What filing the messages `ms` one after another leaves. -/
structure Filed (u : Unicode) (ms : List Msg) (convs : List Conv) : Prop where
  all : (convs.flatMap (·.msgs)).Perm ms
  mine : ∀ c ∈ convs, c.msgs = ms.filter fun m => normalize u m.number = c.key
  apart : convs.Pairwise fun c d => c.key ≠ d.key
  nonempty : ∀ c ∈ convs, c.msgs ≠ []
  /-- In the order of their first messages. -/
  heads : (convs.filterMap (·.msgs.head?)).Sublist ms

theorem filter_other {ms : List Msg} {m : Msg} {key : String} (h : normalize u m.number ≠ key) :
    (ms ++ [m]).filter (fun m => normalize u m.number = key) = ms.filter fun m => normalize u m.number = key := by
  simp [List.filter_append, h]

theorem filter_own {ms : List Msg} {m : Msg} {key : String} (h : normalize u m.number = key) :
    (ms ++ [m]).filter (fun m => normalize u m.number = key) = (ms.filter fun m => normalize u m.number = key) ++ [m] := by
  simp [List.filter_append, h]

theorem Filed.found {ms : List Msg} {before after : List Conv} {c : Conv} {m : Msg}
    (h : Filed u ms (before ++ c :: after)) (hc : c.key = normalize u m.number) :
    Filed u (ms ++ [m]) (before ++ { c with msgs := c.msgs ++ [m] } :: after) where
  all := by
    have hall := h.all
    simp only [List.flatMap_append, List.flatMap_cons] at hall ⊢
    refine List.Perm.trans ?_ (hall.append_right [m])
    simp only [List.append_assoc]
    refine (List.Perm.append_left c.msgs ?_).append_left _
    exact List.perm_append_comm
  mine := by
    obtain ⟨-, hafter, hbefore⟩ := List.pairwise_append.mp h.apart
    intro d hd
    obtain hd | hd := List.mem_append.mp hd
    · have hne := hbefore d hd c (List.mem_cons_self ..)
      rw [filter_other fun he => hne (he.symm.trans hc.symm)]
      exact h.mine d (List.mem_append_left _ hd)
    · obtain rfl | hd := List.mem_cons.mp hd
      · show c.msgs ++ [m] = _
        rw [filter_own hc.symm, ← h.mine c (by simp)]
      · have hne := List.rel_of_pairwise_cons hafter hd
        rw [filter_other fun he => hne (hc.trans he)]
        exact h.mine d (List.mem_append_right _ (List.mem_cons_of_mem _ hd))
  apart := by
    have hkeys : ∀ convs : List Conv, convs.Pairwise (fun c d => c.key ≠ d.key) ↔ (convs.map (·.key)).Pairwise (· ≠ ·) :=
      fun _ => List.pairwise_map.symm
    have hapart := (hkeys _).mp h.apart
    rw [List.map_append, List.map_cons] at hapart
    rw [hkeys, List.map_append, List.map_cons]
    exact hapart
  nonempty := by
    intro d hd
    obtain hd | hd := List.mem_append.mp hd
    · exact h.nonempty d (List.mem_append_left _ hd)
    · obtain rfl | hd := List.mem_cons.mp hd
      · exact List.append_ne_nil_of_right_ne_nil _ (List.cons_ne_nil _ _)
      · exact h.nonempty d (List.mem_append_right _ (List.mem_cons_of_mem _ hd))
  heads := by
    have hhead : (c.msgs ++ [m]).head? = c.msgs.head? := List.head?_append_of_ne_nil _ (h.nonempty c (by simp))
    have hsame : (before ++ { c with msgs := c.msgs ++ [m] } :: after).filterMap (·.msgs.head?) =
        (before ++ c :: after).filterMap (·.msgs.head?) := by
      simp only [List.filterMap_append, List.filterMap_cons, hhead]
    rw [hsame]
    exact h.heads.trans (List.sublist_append_left _ _)

theorem Filed.opened {ms : List Msg} {convs : List Conv} {m : Msg} (h : Filed u ms convs)
    (hnone : ∀ d ∈ convs, d.key ≠ normalize u m.number) :
    Filed u (ms ++ [m]) (convs ++ [⟨normalize u m.number, "", [m], 0⟩]) where
  all := by
    rw [List.flatMap_append]
    exact h.all.append_right [m]
  mine := by
    have hfresh : ms.filter (fun x => normalize u x.number = normalize u m.number) = [] := by
      rw [List.filter_eq_nil_iff]
      intro x hx heq
      obtain ⟨d, hd, hxd⟩ := List.mem_flatMap.mp (h.all.mem_iff.mpr hx)
      rw [h.mine d hd, List.mem_filter, decide_eq_true_eq] at hxd
      exact hnone d hd (hxd.2.symm.trans (of_decide_eq_true heq))
    intro d hd
    obtain hd | hd := List.mem_append.mp hd
    · rw [filter_other fun he => hnone d hd he.symm]
      exact h.mine d hd
    · obtain rfl := List.mem_singleton.mp hd
      rw [filter_own rfl, hfresh]
      rfl
  apart := by
    refine List.pairwise_append.mpr ⟨h.apart, List.pairwise_singleton .., ?_⟩
    intro d hd e he
    obtain rfl := List.mem_singleton.mp he
    exact hnone d hd
  nonempty := by
    intro d hd
    obtain hd | hd := List.mem_append.mp hd
    · exact h.nonempty d hd
    · obtain rfl := List.mem_singleton.mp hd
      exact List.cons_ne_nil _ _
  heads := by
    rw [List.filterMap_append]
    exact h.heads.append (List.Sublist.refl [m])

theorem filed_all (u : Unicode) (ms : List Msg) : Filed u ms (fileAll u ms) := by
  induction ms using List.reverseRecOn with
  | nil => exact ⟨List.Perm.refl _, by simp [fileAll], List.Pairwise.nil, by simp [fileAll], List.Sublist.refl _⟩
  | append_singleton ms m ih =>
    unfold fileAll at ih ⊢
    rw [List.foldl_append]
    show Filed u (ms ++ [m]) (file (normalize u m.number) m _)
    obtain ⟨before, c, after, heq, hc, hfile⟩ | ⟨hnone, hfile⟩ := file_cases (normalize u m.number) m
      (ms.foldl (fun convs m => file (normalize u m.number) m convs) [])
    · rw [hfile]
      exact (heq ▸ ih).found hc
    · rw [hfile]
      exact ih.opened hnone

/-! ## Conversations -/

/-- The number shown is that of a message at least as long as those before it and longer than
    those after. -/
def ShowsLongest (c : Conv) : Prop :=
  ∃ before m after, c.msgs = before ++ m :: after ∧ c.number = m.number ∧
    (∀ x ∈ before, x.number.length ≤ m.number.length) ∧ ∀ x ∈ after, x.number.length < m.number.length

/-- The messages `msgs` grouped by sender, by the clock `now`. -/
structure Grouped (u : Unicode) (msgs : List Msg) (now : Int) (convs : List Conv) : Prop where
  /-- Each message, as often as it was read. -/
  all : (convs.flatMap (·.msgs)).Perm msgs
  apart : convs.Pairwise fun c d => c.key ≠ d.key
  keyed : ∀ c ∈ convs, ∀ m ∈ c.msgs, normalize u m.number = c.key
  together : ∀ c ∈ convs, ∀ d ∈ convs, ∀ m ∈ c.msgs, ∀ m' ∈ d.msgs, c = d ↔ normalize u m.number = normalize u m'.number
  nonempty : ∀ c ∈ convs, c.msgs ≠ []
  oldestFirst : ∀ c ∈ convs, c.msgs.Pairwise fun m m' => m.time now ≤ m'.time now
  newestFirst : convs.Pairwise fun c d => ∀ m ∈ c.msgs.getLast?, ∀ m' ∈ d.msgs.getLast?, m'.time now ≤ m.time now
  shown : ∀ c ∈ convs, ShowsLongest c
  unread : ∀ c ∈ convs, c.unread = (c.msgs.filter fun m => m.tag = unreadTag).length

theorem settle_shows {c : Conv} (hne : c.msgs ≠ []) : ShowsLongest (settle c) := by
  have hlengths : c.msgs.map (fun m => m.number.length) ≠ [] := by simpa using hne
  obtain ⟨longest, hmax⟩ := Option.isSome_iff_exists.mp (List.isSome_max?_of_ne_nil hlengths)
  obtain ⟨hmem, hle⟩ := List.max?_eq_some_iff.mp hmax
  have hbound : ∀ x ∈ c.msgs, x.number.length ≤ longest := fun x hx => hle _ (List.mem_map_of_mem hx)
  obtain ⟨m₀, hm₀, hlen₀⟩ := List.mem_map.mp hmem
  cases hfind : c.msgs.find? fun m => m.number.length == longest with
  | none => exact absurd (beq_iff_eq.mpr hlen₀) (List.find?_eq_none.mp hfind m₀ hm₀)
  | some m =>
    obtain ⟨hm, newer, older, heq, hnewer⟩ := List.find?_eq_some_iff_append.mp hfind
    have hmlen : m.number.length = longest := beq_iff_eq.mp hm
    refine ⟨older.reverse, m, newer.reverse, ?_, ?_, ?_, ?_⟩
    · show c.msgs.reverse = _
      rw [heq]
      simp
    · simp only [settle, hmax, Option.getD_some, hfind, Option.map_some]
    · intro x hx
      rw [hmlen]
      exact hbound x (by rw [heq]; simp [List.mem_reverse.mp hx])
    · intro x hx
      have hxn := List.mem_reverse.mp hx
      have hxle := hbound x (by rw [heq]; simp [hxn])
      have hxne : x.number.length ≠ longest := by simpa using hnewer x hxn
      omega

theorem group_eq (u : Unicode) (msgs : List Msg) (now : Int) : group u msgs now = (fileAll u (newest now msgs)).map settle := by
  unfold group
  rw [takeSlots_order]

theorem apart_eq {convs : List Conv} (h : convs.Pairwise fun c d => c.key ≠ d.key) {c d : Conv} (hc : c ∈ convs)
    (hd : d ∈ convs) (hkey : c.key = d.key) : c = d := by
  have hsymm : Std.Symm fun c d : Conv => c.key ≠ d.key := ⟨fun _ _ hcd => hcd.symm⟩
  by_contra hne
  exact h.forall hc hd hne hkey

theorem forall_group {msgs : List Msg} {now : Int} {p : Conv → Prop} (h : ∀ c ∈ fileAll u (newest now msgs), p (settle c)) :
    ∀ c ∈ group u msgs now, p c := by
  rw [group_eq]
  exact List.forall_mem_map.mpr h

theorem group_spec (u : Unicode) (msgs : List Msg) (now : Int) : Grouped u msgs now (group u msgs now) := by
  have hfiled := filed_all u (newest now msgs)
  have hsorted := newest_sorted now msgs
  have hkeyed : ∀ c ∈ group u msgs now, ∀ m ∈ c.msgs, normalize u m.number = c.key := by
    refine forall_group fun c hc m hm => ?_
    have hmine := List.mem_reverse.mp hm
    rw [hfiled.mine c hc, List.mem_filter, decide_eq_true_eq] at hmine
    exact hmine.2
  have hapart : (group u msgs now).Pairwise fun c d => c.key ≠ d.key := by
    rw [group_eq]
    exact List.pairwise_map.mpr hfiled.apart
  refine ⟨?_, hapart, hkeyed, ?_, ?_, ?_, ?_, ?_, ?_⟩
  · rw [group_eq, List.flatMap_map]
    refine List.Perm.trans ?_ (hfiled.all.trans (newest_perm now msgs))
    exact List.Perm.flatMap_left _ fun c _ => List.reverse_perm c.msgs
  · intro c hc d hd m hm m' hm'
    rw [hkeyed c hc m hm, hkeyed d hd m' hm']
    exact ⟨fun he => he ▸ rfl, fun he => apart_eq hapart hc hd he⟩
  · exact forall_group fun c hc hnil => hfiled.nonempty c hc (List.reverse_eq_nil_iff.mp hnil)
  · refine forall_group fun c hc => List.pairwise_reverse.mpr ?_
    rw [hfiled.mine c hc]
    exact hsorted.filter _
  · rw [group_eq]
    refine List.pairwise_map.mpr ?_
    have hheads := List.pairwise_filterMap.mp (hsorted.sublist hfiled.heads)
    refine hheads.imp fun hcd m hm m' hm' => ?_
    rw [settle, List.getLast?_reverse] at hm hm'
    exact hcd m hm m' hm'
  · exact forall_group fun c hc => settle_shows (hfiled.nonempty c hc)
  · refine forall_group fun c _ => ?_
    show List.countP _ _ = _
    rw [List.countP_eq_length_filter]
    rfl

/-! ## Fingerprints -/

/-- What another reading of the conversation may show: some of its messages and newer ones,
    whose ids are greater than all it had. -/
def Reread (c c' : Conv) : Prop :=
  ∃ kept added, c'.msgs.Perm (kept ++ added) ∧ kept.Subperm c.msgs ∧ ∀ a ∈ added, ∀ m ∈ c.msgs, m.id < a.id

theorem fingerprint_inj {c c' : Conv} (h : c.fingerprint = c'.fingerprint) :
    c.msgs.length = c'.msgs.length ∧ (c.msgs.map (·.id)).max?.getD 0 = (c'.msgs.map (·.id)).max?.getD 0 := by
  have htext := String.toList_inj.mpr h
  unfold Conv.fingerprint at htext
  rw [String.toList_append, String.toList_append, String.toList_append, String.toList_append] at htext
  have hsplit := congrArg (Split.splitOnce ['-']) htext
  rw [show "-".toList = ['-'] from rfl, Split.splitOnce_of_not_mem (Decimal.not_mem_toString rfl _),
    Split.splitOnce_of_not_mem (Decimal.not_mem_toString rfl _)] at hsplit
  obtain ⟨hcount, hmax⟩ := Prod.mk.inj (Option.some.inj hsplit)
  exact ⟨Decimal.toString_inj hcount, Decimal.toString_inj hmax⟩

/-- Some of the messages gone or newer ones there is seen by the count or the newest id. -/
theorem same_fingerprint {c c' : Conv} (hne : c.msgs ≠ []) (hread : Reread c c') (h : c.fingerprint = c'.fingerprint) :
    c'.msgs.Perm c.msgs := by
  obtain ⟨kept, added, hperm, hkept, hnewer⟩ := hread
  obtain ⟨hcount, hmax⟩ := fingerprint_inj h
  have hids : c.msgs.map (·.id) ≠ [] := by simpa using hne
  obtain ⟨top, htop⟩ := Option.isSome_iff_exists.mp (List.isSome_max?_of_ne_nil hids)
  obtain ⟨m, hm, hid⟩ := List.mem_map.mp (List.max?_eq_some_iff.mp htop).1
  have hnone : added = [] := by
    by_contra hadded
    obtain ⟨a, ha⟩ := List.exists_mem_of_ne_nil _ hadded
    have hac : a.id ∈ c'.msgs.map (·.id) := List.mem_map_of_mem (hperm.mem_iff.mpr (List.mem_append_right _ ha))
    obtain ⟨top', htop'⟩ := Option.isSome_iff_exists.mp (List.isSome_max?_of_mem hac)
    have hle := (List.max?_eq_some_iff.mp htop').2 _ hac
    have hlt := hnewer a ha m hm
    rw [htop, htop', Option.getD_some, Option.getD_some] at hmax
    omega
  rw [hnone, List.append_nil] at hperm
  have hlen : c.msgs.length ≤ kept.length := by
    rw [hcount, hperm.length_eq]
  exact hperm.trans (hkept.perm_of_length_le hlen)

/-- The same messages in the same order, if each id is one message and the two clocks give
    each message the same time. -/
theorem same_order {now now' : Int} {l l' : List Msg} (hperm : l'.Perm l) (hl : l.Pairwise fun m m' => m.time now ≤ m'.time now)
    (hl' : l'.Pairwise fun m m' => m.time now' ≤ m'.time now') (hclock : now = now' ∨ ∀ m ∈ l, m.date ≠ none)
    (hids : ∀ m ∈ l, ∀ m' ∈ l, m.id = m'.id → m = m') : l' = l := by
  have htime : ∀ m ∈ l, m.time now' = m.time now := by
    intro m hm
    obtain rfl | hdated := hclock
    · rfl
    · obtain ⟨t, ht⟩ := Option.ne_none_iff_exists'.mp (hdated m hm)
      unfold Msg.time
      rw [ht]
      rfl
  have hmem : ∀ m ∈ l', m ∈ l := fun m hm => hperm.mem_iff.mp hm
  refine List.Perm.eq_of_pairwise ?_ hl' ?_ hperm
  · intro m m' hm hm' hle hge
    have heq := le_antisymm hle hge
    exact hids m (hmem m hm) m' hm' (congrArg (fun x => (ofLex x).2) heq)
  · refine hl.imp_of_mem fun hm hm' hle => ?_
    rw [htime _ hm, htime _ hm']
    exact hle

/-! ## Altogether -/

/-- Every list of messages is grouped, every text that keeps its characters is read back, and
    two readings with one fingerprint show the same messages, in one order if by one clock or
    all dated. -/
theorem sms_conversations (u : Unicode) :
    (∀ msgs now, Grouped u msgs now (group u msgs now)) ∧
    (∀ text, text ≠ "" → (∀ c ∈ text.toList, keep c = true) → content (encodeUcs2 text) = text) ∧
    ∀ msgs now msgs' now' c c', c ∈ group u msgs now → c' ∈ group u msgs' now' → Reread c c' →
      c.fingerprint = c'.fingerprint → c'.msgs.Perm c.msgs ∧
        ((now = now' ∨ ∀ m ∈ c.msgs, m.date ≠ none) → (∀ m ∈ c.msgs, ∀ m' ∈ c.msgs, m.id = m'.id → m = m') →
          c'.msgs = c.msgs) := by
  refine ⟨fun msgs now => group_spec u msgs now, fun text hne hkeep => content_encode hne hkeep, ?_⟩
  intro msgs now msgs' now' c c' hc hc' hread hfp
  have hperm := same_fingerprint ((group_spec u msgs now).nonempty c hc) hread hfp
  exact ⟨hperm, fun hclock hids => same_order hperm ((group_spec u msgs now).oldestFirst c hc)
    ((group_spec u msgs' now').oldestFirst c' hc') hclock hids⟩

def ascii : Unicode := ⟨Char.isAlpha, Char.isDigit, fun c => [c.toUpper]⟩

def undated : List Msg := [⟨1, "12345678", "a", some 10, 1⟩, ⟨2, "12345678", "b", none, 1⟩]

theorem reread_perm {c c' : Conv} (h : c'.msgs.Perm c.msgs) : Reread c c' :=
  ⟨c.msgs, [], by simpa using h, List.Subperm.refl _, fun _ ha => absurd ha List.not_mem_nil⟩

theorem sms_conversations_emoji :
    Grouped ascii undated 20 (group ascii undated 20) ∧ content (encodeUcs2 "Hi 😀\n") = "Hi 😀\n" ∧
      ∀ c ∈ group ascii undated.reverse 20, c.msgs.Perm undated → "2-2" = c.fingerprint → c.msgs = undated := by
  obtain ⟨hgroup, htext, hread⟩ := sms_conversations ascii
  refine ⟨hgroup undated 20, htext "Hi 😀\n" (by decide) (List.all_eq_true.mp (by decide)), ?_⟩
  intro c hc hperm hfp
  have hfirst : (⟨"12345678", "12345678", undated, 2⟩ : Conv) ∈ group ascii undated 20 := by decide
  exact (hread undated 20 undated.reverse 20 _ c hfirst hc (reread_perm hperm) hfp).2 (.inl rfl) (by decide)

/-- One id for two messages. -/
def twins : List Msg := [⟨1, "12345678", "a", some 10, 1⟩, ⟨1, "12345678", "b", some 10, 1⟩]

/-- Another clock, or messages of one id in another order, and the fingerprint is the same
    for another list. -/
theorem clock_reorders :
    (∃ c ∈ group ascii undated 20, ∃ c' ∈ group ascii undated 5, Reread c c' ∧ c.fingerprint = c'.fingerprint ∧
      c'.msgs ≠ c.msgs) ∧
    ∃ c ∈ group ascii twins 20, ∃ c' ∈ group ascii twins.reverse 20, Reread c c' ∧ c.fingerprint = c'.fingerprint ∧
      c'.msgs ≠ c.msgs := by
  refine ⟨⟨⟨"12345678", "12345678", undated, 2⟩, by decide, ⟨"12345678", "12345678", undated.reverse, 2⟩, by decide,
    reread_perm (List.reverse_perm _), by decide, by decide⟩, ?_⟩
  exact ⟨⟨"12345678", "12345678", twins, 2⟩, by decide, ⟨"12345678", "12345678", twins.reverse, 2⟩, by decide,
    reread_perm (List.reverse_perm _), by decide, by decide⟩

end OpenU60.Web.Sms
