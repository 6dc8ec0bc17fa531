/-
  OpenU60.Ota.LaunchSteps — what one step of a launch can do (`ota/mod.rs`,
  `launch_helper`, `clear_failed_launch`), said once for every proof about runs.

  A launch writes no build and no active marker. `launchStep_move`, `pollStep_move` and
  `deadlineStep_move`: the pending marker stays, goes, or becomes that of the launch; the
  launch stays the same one or ends; and a new helper is one for it.
-/

import OpenU60.Ota.HelperSteps

namespace OpenU60.Ota

open OpenU60.Lib

variable {Bytes : Type} {P : Platform Bytes}

/-! ## How far an operation is -/

namespace Manager

/-- The slot a download is on its way to. -/
def target (g : Manager Bytes) : Option Slot :=
  match g.op with
  | some (.downloading (.fetching _ s)) => some s
  | some (.downloading (.swappingBinary _ s _)) => some s
  | some (.downloading (.swappingMeta _ s)) => some s
  | some (.downloading (.retiringDigest _ s)) => some s
  | some (.downloading (.staging _ s)) => some s
  | _ => none

/-- The slot whose build a download has already replaced. -/
def swapped (g : Manager Bytes) : Option Slot :=
  match g.op with
  | some (.downloading (.swappingMeta _ s)) => some s
  | some (.downloading (.retiringDigest _ s)) => some s
  | some (.downloading (.staging _ s)) => some s
  | _ => none

/-- A launch that has no helper yet. -/
def launches (g : Manager Bytes) : Option Handover :=
  match g.op with
  | some (.launching l .clearReady) => some l
  | some (.launching l .writePending) => some l
  | some (.launching l .spawn) => some l
  | _ => none

theorem target_of_swapped {g : Manager Bytes} {s : Slot} (h : g.swapped = some s) : g.target = some s := by
  unfold swapped at h
  unfold target
  split at h <;> simp_all

theorem target_congr {g g' : Manager Bytes} (h : g'.op = g.op) :
    g'.target = g.target ∧ g'.swapped = g.swapped ∧ g'.launches = g.launches := by
  simp only [target, swapped, launches, h, and_self]

theorem target_of_begins {g : Manager Bytes} (h : ∀ o, g.op = some o → o.begins) :
    g.target = none ∧ g.swapped = none ∧ g.launches = none := by
  cases ho : g.op with
  | none => simp [target, swapped, launches, ho]
  | some o =>
    have hb := h o ho
    cases o with
    | downloading stage => cases stage <;> simp_all [target, swapped, launches, Operation.begins]
    | launching l stage => cases hb
    | _ => simp [target, swapped, launches, ho]

end Manager

/-! ## A launch -/

/-- A launch writes the pending marker, the handshake and the manager's state. -/
structure SameBuilds (d d' : Disk Bytes) : Prop where
  slot : d'.slot = d.slot
  stable : d'.stable = d.stable
  active : d'.active = d.active
  blocked : d'.blocked = d.blocked

theorem SameBuilds.refl (d : Disk Bytes) : SameBuilds d d := ⟨rfl, rfl, rfl, rfl⟩

/-- What a step of a launch does to the processes. -/
structure LaunchMove (w w' : World Bytes) : Prop where
  builds : SameBuilds w.disk w'.disk
  pending : w'.disk.pending = w.disk.pending ∨ w'.disk.pending = none ∨
    ∃ g l, w.agent = some g ∧ g.launches = some l ∧
      w'.disk.pending = some (Disk.pendingText l.candidate l.previous l.version.toList)
  agent : ∀ g', w'.agent = some g' → ∃ g, w.agent = some g ∧ g'.pid = g.pid ∧
    (g'.target = none ∨ g' = g) ∧ ∀ l st', g'.op = some (.launching l st') → ∃ st, g.op = some (.launching l st)
  /-- A launch that still has no helper had none, and starts none. -/
  launches : ∀ g' l, w'.agent = some g' → g'.launches = some l →
    (∃ g, w.agent = some g ∧ g.launches = some l) ∧ ∀ p h, w'.helper p = some h → w.helper p = some h
  helper : ∀ p h, w'.helper p = some h → w.helper p = some h ∨
    p = w.nextPid ∧ h.stage = .ready ∧ ∃ g, w.agent = some g ∧ g.launches = some h.args ∧ h.parent = g.pid

theorem LaunchMove.refl (w : World Bytes) : LaunchMove w w :=
  ⟨.refl _, .inl rfl, fun g hg => ⟨g, hg, rfl, .inr rfl, fun _ st ho => ⟨st, ho⟩⟩, fun g _ hg hl => ⟨⟨g, hg, hl⟩, fun _ _ h => h⟩,
    fun _ _ h => .inl h⟩

/-- The agent goes on with its launch, to a stage that launches nothing new, or ends it. -/
theorem LaunchMove.of_op {w w' : World Bytes} {g g' : Manager Bytes} (ha : w.agent = some g) (ha' : w'.agent = some g')
    (hb : SameBuilds w.disk w'.disk) (hp : w'.disk.pending = w.disk.pending ∨ w'.disk.pending = none)
    (hpid : g'.pid = g.pid) (hl : g'.launches = none) (ht : g'.target = none)
    (ho : ∀ l st', g'.op = some (.launching l st') → ∃ st, g.op = some (.launching l st))
    (hh : ∀ p h, w'.helper p = some h → w.helper p = some h) : LaunchMove w w' := by
  refine ⟨hb, hp.imp_right .inl, fun g1 hg => ?_, fun g1 l hg hl' => ?_, fun p h hk => .inl (hh p h hk)⟩
  · obtain rfl := Option.some.inj (ha'.symm.trans hg)
    exact ⟨g, ha, hpid, .inl ht, ho⟩
  · obtain rfl := Option.some.inj (ha'.symm.trans hg)
    simp [hl] at hl'

theorem launchStep_move (w : World Bytes) (io saved : Io) : LaunchMove w (w.launchStep io saved) := by
  unfold World.launchStep
  split
  · next g ha =>
    split
    · next l stage ho =>
      -- on to another stage of the same launch, or over, with no helper started
      have goes : ∀ {g' : Manager Bytes} {d : Disk Bytes}, g'.pid = g.pid → (∀ l', g'.launches = some l' → l' = l) →
          g.launches = some l → g'.target = none → (∀ l' st', g'.op = some (.launching l' st') → l' = l) →
          SameBuilds w.disk d →
          (d.pending = w.disk.pending ∨ d.pending = some (Disk.pendingText l.candidate l.previous l.version.toList)) →
          LaunchMove w (w.withAgent (g', d)) := by
        intro g' d hpid hl' hl ht hop hd hp
        refine ⟨hd, hp.imp_right fun hp => .inr ⟨g, l, ha, hl, hp⟩, fun g1 hg => ?_, fun g1 l1 hg hl1 => ?_,
          fun _ _ h => .inl h⟩
        · obtain rfl := Option.some.inj hg
          exact ⟨g, ha, hpid, .inl ht, fun l' st' ho' => ⟨stage, by rw [hop l' st' ho']; exact ho⟩⟩
        · obtain rfl := Option.some.inj hg
          obtain rfl := hl' l1 hl1
          exact ⟨⟨g, ha, hl⟩, fun _ _ h => h⟩
      have again : ∀ (st : LaunchStage) (l' : Handover) (st' : LaunchStage),
          (g.next (.launching l st)).op = some (.launching l' st') → ∃ st0, g.op = some (.launching l' st0) := by
        intro st l' st' h
        simp only [Manager.next, Option.some.injEq, Operation.launching.injEq] at h
        exact ⟨stage, by rw [← h.1]; exact ho⟩
      cases stage with
      | clearReady =>
        unfold World.launchHelper
        dsimp only
        split
        · refine goes rfl (fun l' h => by simpa [Manager.launches, Manager.next, eq_comm] using h)
            (by simp [Manager.launches, ho]) rfl (fun l' st' h => ?_) ⟨rfl, rfl, rfl, rfl⟩ (.inl rfl)
          simp only [Manager.next, Option.some.injEq, Operation.launching.injEq] at h
          exact h.1.symm
        · exact goes rfl (fun l' h => by cases h) (by simp [Manager.launches, ho]) rfl (fun l' st' h => by cases h)
            ⟨rfl, rfl, rfl, rfl⟩ (.inl rfl)
      | writePending =>
        unfold World.launchHelper
        dsimp only
        split
        · next hio =>
          refine goes rfl (fun l' h => by simpa [Manager.launches, Manager.next, eq_comm] using h)
            (by simp [Manager.launches, ho]) rfl (fun l' st' h => ?_) ⟨rfl, rfl, rfl, rfl⟩ ?_
          · simp only [Manager.next, Option.some.injEq, Operation.launching.injEq] at h
            exact h.1.symm
          · cases he : (Disk.pendingIo l.version io).effect <;> simp [he]
        · refine goes rfl (fun l' h => by cases h) (by simp [Manager.launches, ho]) rfl (fun l' st' h => by cases h)
            ⟨rfl, rfl, rfl, rfl⟩ ?_
          cases he : (Disk.pendingIo l.version io).effect <;> simp [he]
      | spawn =>
        unfold World.launchHelper
        dsimp only
        split
        · refine ⟨⟨rfl, rfl, rfl, rfl⟩, .inl rfl, fun g1 hg => ?_, fun g1 l1 hg hl1 => ?_, fun p h hk => ?_⟩
          · obtain rfl := Option.some.inj hg
            exact ⟨g, ha, rfl, .inl rfl, again _⟩
          · obtain rfl := Option.some.inj hg
            simp [Manager.launches, Manager.next] at hl1
          · by_cases hp : p = w.nextPid
            · subst hp
              simp [World.setHelper] at hk
              exact .inr ⟨rfl, by simp [← hk], g, ha, by simp [Manager.launches, ho, ← hk], by simp [← hk]⟩
            · simp [World.setHelper, Function.update_of_ne hp] at hk
              exact .inl hk
        · exact .of_op ha rfl ⟨rfl, rfl, rfl, rfl⟩ (.inl rfl) rfl rfl rfl (again _) fun _ _ h => h
      | waiting pid => exact .refl w
      | abortReady e => exact .of_op ha rfl ⟨rfl, rfl, rfl, rfl⟩ (.inl rfl) rfl rfl rfl (again _) fun _ _ h => h
      | abortPending e r =>
        exact .of_op ha rfl ⟨rfl, rfl, rfl, rfl⟩ (clearPending_cases ..) rfl rfl rfl (fun _ _ h => by cases h) fun _ _ h => h
    · exact .refl w
  · exact .refl w

theorem setHelper_none {w : World Bytes} {pid p : Nat} {h : Helper Bytes}
    (hk : (w.setHelper pid none).helper p = some h) : w.helper p = some h := by
  by_cases hp : p = pid
  · simp [World.setHelper, hp] at hk
  · simpa [World.setHelper, Function.update_of_ne hp] using hk

/-- The agent gives the hand-over up, having at most ended the helper it waited for. -/
theorem abort_move {w v : World Bytes} {g : Manager Bytes} {l : Handover} {st : LaunchStage} {e : String}
    (ha : w.agent = some g) (ho : g.op = some (.launching l st)) (hb : SameBuilds w.disk v.disk)
    (hp : v.disk.pending = w.disk.pending) (hh : ∀ p h, v.helper p = some h → w.helper p = some h) :
    LaunchMove w (v.abort g l e) := by
  refine .of_op ha rfl hb (.inl hp) rfl rfl rfl (fun l' st' h => ⟨st, ?_⟩) hh
  simp only [Manager.next, Option.some.injEq, Operation.launching.injEq] at h
  rw [← h.1]
  exact ho

theorem pollStep_move (w : World Bytes) (io : Io) (status : String) : LaunchMove w (w.pollStep io status) := by
  unfold World.pollStep
  split
  · next g ha =>
    split
    · next l pid ho =>
      unfold World.poll
      split
      · dsimp only
        split
        · exact .of_op ha rfl ⟨rfl, rfl, rfl, rfl⟩ (.inl rfl) rfl rfl rfl (fun _ _ h => by cases h) fun _ _ h => h
        · exact abort_move ha ho ⟨rfl, rfl, rfl, rfl⟩ rfl fun _ _ h => setHelper_none h
      · split
        · exact abort_move ha ho (.refl _) rfl fun _ _ h => h
        · exact .refl w
    · exact .refl w
  · exact .refl w

theorem deadlineStep_move (w : World Bytes) : LaunchMove w w.deadlineStep := by
  unfold World.deadlineStep
  split
  · next g ha =>
    split
    · next l pid ho => exact abort_move ha ho (.refl _) rfl fun _ _ h => setHelper_none h
    · exact .refl w
  · exact .refl w

end OpenU60.Ota
