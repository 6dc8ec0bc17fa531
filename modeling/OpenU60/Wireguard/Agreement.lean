/-
  OpenU60.Wireguard.Agreement — the remembered, the saved and the live WireGuard configuration.

  Nothing spans an operation: it reads the remembered configuration, applies one to the
  kernel, saves it and writes its result, and others move in between. Proved:
  - `updates_agree`: where no operation applies a configuration while another one's result is
    not written, what is applied is the configuration remembered then (with the flag to be
    switched), and deleting the link works where no tunnel is to be left, the file and the
    tunnel agree with the remembered configuration whenever no operation is in progress, no
    tunnel is up but that configuration's or one of an update under way, and switching the
    tunnel on or off changes nothing else of an accepted update.
  - `disabled_comes_back`: a reconnect that has read the configuration brings the disabled
    tunnel back, a disable that has takes an import back, and one is confirmed with the link
    still up.
-/

import OpenU60.Lib.Machine
import OpenU60.Wireguard.Manager

namespace OpenU60.Wireguard

open OpenU60.Lib.Machine

variable {validate : Config → Except String Unit}

/-! ## Applying -/

/-- The tunnel a configuration is for. -/
def tunnelOf (config : Config) : Option Config := if config.enabled then some config else none

/-- Switching off deletes the link. -/
def Switches (config : Config) (x : Kernel) (tunnel : Option Config) : Prop :=
  x.chains = true → config.enabled = false → tunnel = none ∨ x.gone = true

/-- The link is set up, or at least tried. -/
def configures (validate : Config → Except String Unit) (config : Config) (x : Kernel) : Bool :=
  x.chains && config.enabled && (validate config).isOk && x.resolved

/-- No tunnel is left unless the configuration gets its own. -/
def Fits (validate : Config → Except String Unit) (config : Config) (x : Kernel) (tunnel : Option Config) : Prop :=
  if configures validate config x then x.configured = true ∨ x.goneAgain = true else tunnel = none ∨ x.gone = true

instance (config : Config) (x : Kernel) (tunnel : Option Config) : Decidable (Switches config x tunnel) :=
  inferInstanceAs (Decidable (_ → _ → _))

instance (config : Config) (x : Kernel) (tunnel : Option Config) : Decidable (Fits validate config x tunnel) :=
  inferInstanceAs (Decidable (if configures validate config x then x.configured = true ∨ x.goneAgain = true
    else tunnel = none ∨ x.gone = true))

theorem tunnelOf_some {config c : Config} (h : tunnelOf config = some c) : c = config ∧ c.enabled = true := by
  unfold tunnelOf at h
  split at h
  · cases h
    exact ⟨rfl, ‹_›⟩
  · cases h

theorem cleared_none {x : Kernel} {tunnel : Option Config} (h : tunnel = none ∨ x.gone = true) :
    (if x.gone then none else tunnel) = none := by
  rcases h with h | h
  · rw [h, ite_self]
  · rw [if_pos h]

theorem apply_ok {config : Config} {x : Kernel} {tunnel : Option Config} (h : (apply validate config x tunnel).2 = .ok ())
    (hs : Switches config x tunnel) : (apply validate config x tunnel).1 = tunnelOf config := by
  unfold apply at h ⊢
  unfold tunnelOf
  by_cases hc : x.chains = true
  · by_cases he : config.enabled = true
    · cases hv : validate config with
      | error e => simp [hc, he, hv] at h
      | ok u =>
        by_cases hr : x.resolved = true
        · by_cases hk : x.configured = true
          · simp [hc, he, hr, hk]
          · simp [hc, he, hv, hr, hk] at h
        · simp [hc, he, hv, hr] at h
    · simp only [hc, he, cleared_none (hs hc (Bool.not_eq_true _ ▸ he))]
      rfl
  · simp [hc] at h

theorem Fits.switches {config : Config} {x : Kernel} {tunnel : Option Config} (h : Fits validate config x tunnel) :
    Switches config x tunnel := by
  intro hc he
  simpa [Fits, configures, he] using h

theorem apply_error {config : Config} {x : Kernel} {tunnel : Option Config} {e : String}
    (h : (apply validate config x tunnel).2 = .error e) (hf : Fits validate config x tunnel) :
    (apply validate config x tunnel).1 = none := by
  unfold apply at h ⊢
  unfold Fits configures at hf
  by_cases hc : x.chains = true
  · by_cases he : config.enabled = true
    · cases hv : validate config with
      | error e =>
        simp only [hc, he, hv, Except.isOk, Except.toBool, Bool.and_false, Bool.false_and, Bool.false_eq_true, if_false] at hf
        simp [hc, he, cleared_none hf]
      | ok u =>
        by_cases hr : x.resolved = true
        · by_cases hk : x.configured = true
          · simp [hc, he, hv, hr, hk] at h
          · simp only [hc, he, hv, hr, hk, Except.isOk, Except.toBool, Bool.and_self, if_true, Bool.false_eq_true, false_or] at hf
            simp [hc, he, hr, hk, hf]
        · simp only [hc, he, hv, hr, Bool.and_false, Bool.false_eq_true, if_false] at hf
          simp [hc, he, hr, cleared_none hf]
    · simp [hc, he] at h
  · simp only [hc, Bool.false_and, Bool.false_eq_true, if_false] at hf
    simp [hc, cleared_none hf]

/-- What is up after an `apply` was up before it or is the configuration's. -/
theorem apply_tunnel (validate : Config → Except String Unit) (config : Config) (x : Kernel) (tunnel : Option Config) :
    (apply validate config x tunnel).1 = none ∨ (apply validate config x tunnel).1 = tunnel ∨
      (apply validate config x tunnel).1 = some config := by
  unfold apply
  cases x.gone <;> cases x.goneAgain <;> (repeat' split) <;> simp

/-! ## The operations -/

namespace Op

/-- It has applied a configuration and not written its result. -/
def inSection : Op → Bool
  | .saving _ _ _ => true
  | .rollingBack _ _ _ => true
  | .recording _ _ _ => true
  | .writing _ _ => true
  | .noting _ _ => true
  | _ => false

def quiet : Op → Bool
  | .idle => true
  | .done _ => true
  | _ => false

def accepted : Op → Bool
  | .done (.ok ()) => true
  | _ => false

def restarts : Op → Bool
  | .reconciling => true
  | .reapplying _ => true
  | _ => false

/-- The configuration of an update under way. -/
def brings : Op → Option Config
  | .saving next _ _ => some next
  | .rollingBack next _ _ => some next
  | .writing next _ => some next
  | _ => none

end Op

namespace World

def Quiet (w : World) : Prop := ∀ i, (w.ops i).quiet = true

/-- The reconcile of the start has applied nothing yet. -/
def Starting (w : World) : Prop := (w.ops 0).restarts = true

def Kept (w : World) : Prop := w.updated = true → w.file = some w.config

def Tuned (w : World) : Prop := w.tunnel = tunnelOf w.config ∨ w.tunnel = none ∧ w.lastError.isSome = true

instance (w : World) : Decidable w.Tuned := inferInstanceAs (Decidable (_ ∨ _))

/-- The saved and the live configuration are the remembered one. -/
def Agree (w : World) : Prop := w.Kept ∧ w.Tuned

/-- A tunnel that is up is the remembered one or an update's. -/
def Backed (w : World) : Prop :=
  ∀ c, w.tunnel = some c → (c = w.config ∧ c.enabled = true) ∨ ∃ i, (w.ops i).brings = some c

variable (validate)

/-- Switching on or off changes the flag of what is remembered and nothing else. -/
def OnlyFlag (w : World) (e : Event) : Prop :=
  ∀ i x next enabled, e = .run i x → w.ops i = .writing next (some enabled) →
    (w.step validate e).config = { w.config with enabled := enabled }

def OrderlyAt (w : World) (x : Outcome) : Op → Prop
  | .applying next _ flag =>
    w.applied = [] ∧ (∀ enabled ∈ flag, next = { w.config with enabled := enabled }) ∧ Switches next x.kernel w.tunnel
  | .rollingBack _ previous _ => previous = w.config ∧ Fits validate previous x.kernel w.tunnel
  | .reapplying config => w.applied = [] ∧ config = w.config ∧ Fits validate config x.kernel w.tunnel
  | _ => True

/-- What is applied is applied alone, is not outdated, and leaves no tunnel it should not. -/
def Orderly (w : World) : Event → Prop
  | .run i x => w.OrderlyAt validate x (w.ops i)
  | _ => True

instance decidableOrderlyAt (w : World) (x : Outcome) : ∀ o, Decidable (w.OrderlyAt validate x o)
  | .applying _ _ _ => inferInstanceAs (Decidable (_ ∧ _ ∧ _))
  | .rollingBack _ _ _ => inferInstanceAs (Decidable (_ ∧ _))
  | .reapplying _ => inferInstanceAs (Decidable (_ ∧ _ ∧ _))
  | .idle => .isTrue trivial
  | .done _ => .isTrue trivial
  | .reading _ => .isTrue trivial
  | .replacing _ _ => .isTrue trivial
  | .saving _ _ _ => .isTrue trivial
  | .recording _ _ _ => .isTrue trivial
  | .writing _ _ => .isTrue trivial
  | .checking => .isTrue trivial
  | .reconciling => .isTrue trivial
  | .noting _ _ => .isTrue trivial

instance decidableOrderly (w : World) : ∀ e, Decidable (w.Orderly validate e)
  | .run i x => decidableOrderlyAt validate w x (w.ops i)
  | .importConfig _ _ => .isTrue trivial
  | .setEnabled _ _ => .isTrue trivial
  | .reconnect _ => .isTrue trivial

variable {validate}

@[simp] theorem moved_self (w : World) (i : Nat) (o : Op) : (w.moved i o).ops i = o := Function.update_self ..

theorem moved_other (w : World) {i j : Nat} (o : Op) (h : j ≠ i) : (w.moved i o).ops j = w.ops j := Function.update_of_ne h ..

/-- What an operation that has applied a configuration has left so far. -/
def Sound (w : World) : Op → Prop
  | .saving next _ flag =>
    w.tunnel = tunnelOf next ∧ w.Kept ∧ ∀ enabled ∈ flag, next = { w.config with enabled := enabled }
  | .rollingBack next _ _ =>
    (w.tunnel = none ∨ w.tunnel = some next ∨ w.tunnel = tunnelOf w.config ∨ w.Starting) ∧ w.Kept
  | .recording previous _ rollback =>
    previous = w.config ∧ w.Kept ∧ w.tunnel = if rollback.isNone then tunnelOf previous else none
  | .writing next flag =>
    w.tunnel = tunnelOf next ∧ w.file = some next ∧ ∀ enabled ∈ flag, next = { w.config with enabled := enabled }
  | .noting config r =>
    config = w.config ∧ w.Kept ∧ w.tunnel = match r with
      | .ok () => tunnelOf config
      | .error _ => none
  | _ => True

/-- One operation at a time is between applying and writing, and what it has left is sound. -/
structure Inv (w : World) : Prop where
  held : ∀ i, (w.ops i).inSection = true → w.applied = [i] ∧ w.Sound (w.ops i)
  busy : w.applied = [] ∨ ∃ i, (w.ops i).inSection = true
  free : w.applied = [] → w.Kept ∧ (w.Tuned ∨ w.Starting)

variable {w w' : World} {i : Nat}

theorem Inv.alone (h : Inv w) (hi : (w.ops i).inSection = true) {j : Nat} (hj : j ≠ i) : (w.ops j).inSection = false := by
  by_contra hs
  have hji := (h.held j (Bool.not_eq_false _ ▸ hs)).1
  rw [(h.held i hi).1] at hji
  cases hji
  exact hj rfl

theorem Inv.none_inside (h : Inv w) (hno : w.applied = []) (j : Nat) : (w.ops j).inSection = false := by
  by_contra hs
  have := (h.held j (Bool.not_eq_false _ ▸ hs)).1
  rw [hno] at this
  cases this

theorem Sound.congr {o : Op} (h : w.Sound o) (hconfig : w'.config = w.config) (hfile : w'.file = w.file)
    (htunnel : w'.tunnel = w.tunnel) (hupdated : w'.updated = w.updated) (hstart : w.Starting → w'.Starting) : w'.Sound o := by
  cases o with
  | saving next previous flag => simpa only [Sound, Kept, hconfig, hfile, htunnel, hupdated] using h
  | rollingBack next previous e =>
    simp only [Sound, Kept, hconfig, hfile, htunnel, hupdated] at h ⊢
    exact ⟨h.1.imp_right (Or.imp_right (Or.imp_right hstart)), h.2⟩
  | recording previous e rollback => simpa only [Sound, Kept, hconfig, hfile, htunnel, hupdated] using h
  | writing next flag => simpa only [Sound, hconfig, hfile, htunnel] using h
  | noting config r => simpa only [Sound, Kept, hconfig, hfile, htunnel, hupdated] using h
  | _ => trivial

/-- A step that only moves an operation, from outside the section to outside. -/
theorem Inv.outside (h : Inv w) {o : Op} (hi : (w.ops i).inSection = false) (ho : o.inSection = false)
    (hstart : (w.ops i).restarts = true → o.restarts = true) : Inv (w.moved i o) := by
  have hstarting : w.Starting → (w.moved i o).Starting := by
    intro hs
    unfold Starting at hs ⊢
    by_cases h0 : 0 = i
    · subst h0
      rw [moved_self]
      exact hstart hs
    · rwa [moved_other _ _ h0]
  refine ⟨fun j hj => ?_, ?_, fun hno => ?_⟩
  · by_cases hji : j = i
    · subst hji
      rw [moved_self, ho] at hj
      cases hj
    · rw [moved_other _ _ hji] at hj ⊢
      exact ⟨(h.held j hj).1, (h.held j hj).2.congr rfl rfl rfl rfl hstarting⟩
  · rcases h.busy with hno | ⟨j, hj⟩
    · exact .inl hno
    · refine .inr ⟨j, ?_⟩
      rwa [moved_other]
      rintro rfl
      rw [hi] at hj
      cases hj
  · exact ⟨(h.free hno).1, (h.free hno).2.imp_right hstarting⟩

/-- An operation applies a configuration, or goes on after it has. -/
theorem Inv.inside (h : Inv w) {o : Op} (hops : w'.ops = Function.update w.ops i o) (happlied : w'.applied = [i])
    (hi : w.applied = [] ∨ (w.ops i).inSection = true) (ho : o.inSection = true) (hsound : w'.Sound o) : Inv w' := by
  have hself : w'.ops i = o := by rw [hops, Function.update_self]
  refine ⟨fun j hj => ?_, .inr ⟨i, hself ▸ ho⟩, fun hno => ?_⟩
  · by_cases hji : j = i
    · subst hji
      exact ⟨happlied, hself ▸ hsound⟩
    · rw [hops, Function.update_of_ne hji] at hj
      rcases hi with hno | hi
      · rw [h.none_inside hno j] at hj
        cases hj
      · rw [h.alone hi hji] at hj
        cases hj
  · rw [happlied] at hno
    cases hno

/-- An operation writes its result. -/
theorem Inv.leaves (h : Inv w) {o : Op} (hops : w'.ops = Function.update w.ops i o) (happlied : w'.applied = w.applied.erase i)
    (hi : (w.ops i).inSection = true) (ho : o.inSection = false) (hagree : w'.Agree) : Inv w' := by
  have hno : w'.applied = [] := by rw [happlied, (h.held i hi).1, List.erase_cons_head]
  refine ⟨fun j hj => ?_, .inl hno, fun _ => ⟨hagree.1, .inl hagree.2⟩⟩
  rw [hops] at hj
  by_cases hji : j = i
  · subst hji
    rw [Function.update_self, ho] at hj
    cases hj
  · rw [Function.update_of_ne hji, h.alone hi hji] at hj
    cases hj

theorem Inv.run (h : Inv w) {x : Outcome} (he : w.OrderlyAt validate x (w.ops i)) : Inv (w.run validate i x) := by
  unfold World.run
  cases ho : w.ops i with
  | idle => exact h
  | done r => exact h
  | reading enabled =>
    have hout : (w.ops i).inSection = false := by rw [ho]; rfl
    have hstart : (w.ops i).restarts = false := by rw [ho]; rfl
    simp only
    split
    · exact h.outside hout rfl fun hs => (by rw [hstart] at hs; cases hs)
    · unfold replace
      split
      · exact h.outside hout rfl fun hs => (by rw [hstart] at hs; cases hs)
      · exact h.outside hout rfl fun hs => (by rw [hstart] at hs; cases hs)
  | replacing next flag =>
    exact h.outside (by rw [ho]; rfl) rfl fun hs => (by rw [ho] at hs; cases hs)
  | applying next previous flag =>
    rw [ho] at he
    obtain ⟨hno, hflag, hswitch⟩ := he
    obtain ⟨hkept, htuned⟩ := h.free hno
    have happlied : i :: w.applied = [i] := by rw [hno]
    simp only
    split
    · rename_i hok
      exact h.inside rfl happlied (.inl hno) rfl ⟨apply_ok hok hswitch, hkept, hflag⟩
    · refine h.inside rfl happlied (.inl hno) rfl ⟨?_, hkept⟩
      have hstarting : w.Starting → (({ w with
          tunnel := (apply validate next x.kernel w.tunnel).1, applied := i :: w.applied }).moved i
          (.rollingBack next previous ‹String›)).Starting := by
        intro hs
        unfold Starting at hs ⊢
        rw [moved_other]
        · exact hs
        · rintro rfl
          rw [ho] at hs
          cases hs
      show (apply validate next x.kernel w.tunnel).1 = _ ∨ (apply validate next x.kernel w.tunnel).1 = _ ∨
        (apply validate next x.kernel w.tunnel).1 = _ ∨ _
      rcases apply_tunnel validate next x.kernel w.tunnel with h | h | h
      · exact .inl h
      · rw [h]
        rcases htuned with (ht | ht) | ht
        · exact .inr (.inr (.inl ht))
        · exact .inl ht.1
        · exact .inr (.inr (.inr (hstarting ht)))
      · exact .inr (.inl h)
  | saving next previous flag =>
    have hin : (w.ops i).inSection = true := by rw [ho]; rfl
    obtain ⟨happlied, hsound⟩ := h.held i hin
    rw [ho] at hsound
    obtain ⟨htunnel, hkept, hflag⟩ := hsound
    simp only
    split
    · exact h.inside rfl happlied (.inr hin) rfl ⟨htunnel, rfl, hflag⟩
    · refine h.inside rfl happlied (.inr hin) rfl ⟨?_, hkept⟩
      show w.tunnel = _ ∨ w.tunnel = _ ∨ _
      rw [htunnel]
      unfold tunnelOf
      split
      · exact .inr (.inl rfl)
      · exact .inl rfl
  | rollingBack next previous error =>
    have hin : (w.ops i).inSection = true := by rw [ho]; rfl
    obtain ⟨happlied, hsound⟩ := h.held i hin
    rw [ho] at hsound he
    obtain ⟨hprevious, hfits⟩ := he
    refine h.inside rfl happlied (.inr hin) rfl ⟨hprevious, hsound.2, ?_⟩
    show (apply validate previous x.kernel w.tunnel).1 = _
    cases hr : (apply validate previous x.kernel w.tunnel).2 with
    | ok u => exact apply_ok hr hfits.switches
    | error e => exact apply_error hr hfits
  | recording previous error rollback =>
    have hin : (w.ops i).inSection = true := by rw [ho]; rfl
    obtain ⟨-, hsound⟩ := h.held i hin
    rw [ho] at hsound
    obtain ⟨rfl, hkept, htunnel⟩ := hsound
    refine h.leaves rfl rfl hin rfl ⟨hkept, ?_⟩
    cases rollback with
    | none => exact .inl htunnel
    | some e => exact .inr ⟨htunnel, rfl⟩
  | writing next flag =>
    have hin : (w.ops i).inSection = true := by rw [ho]; rfl
    obtain ⟨-, hsound⟩ := h.held i hin
    rw [ho] at hsound
    exact h.leaves rfl rfl hin rfl ⟨fun _ => hsound.2.1, .inl hsound.1⟩
  | checking =>
    refine h.outside (by rw [ho]; rfl) ?_ fun hs => (by rw [ho] at hs; cases hs)
    split <;> rfl
  | reconciling => exact h.outside (by rw [ho]; rfl) rfl fun _ => rfl
  | reapplying config =>
    rw [ho] at he
    obtain ⟨hno, hconfig, hfits⟩ := he
    refine h.inside rfl (congrArg (i :: ·) hno) (.inl hno) rfl ⟨hconfig, (h.free hno).1, ?_⟩
    show (apply validate config x.kernel w.tunnel).1 = _
    cases hr : (apply validate config x.kernel w.tunnel).2 with
    | ok u => exact apply_ok hr hfits.switches
    | error e => exact apply_error hr hfits
  | noting config r =>
    have hin : (w.ops i).inSection = true := by rw [ho]; rfl
    obtain ⟨-, hsound⟩ := h.held i hin
    rw [ho] at hsound
    obtain ⟨rfl, hkept, htunnel⟩ := hsound
    cases r with
    | ok u => exact h.leaves rfl rfl hin rfl ⟨hkept, .inl htunnel⟩
    | error e => exact h.leaves rfl rfl hin rfl ⟨hkept, .inr ⟨htunnel, rfl⟩⟩

theorem Inv.step (h : Inv w) {e : Event} (he : w.Orderly validate e) : Inv (w.step validate e) := by
  cases e with
  | importConfig i next =>
    cases hidle : w.ops i with
    | idle =>
      simp only [World.step, hidle]
      unfold replace
      split
      · exact h.outside (by rw [hidle]; rfl) rfl fun hs => (by rw [hidle] at hs; cases hs)
      · exact h.outside (by rw [hidle]; rfl) rfl fun hs => (by rw [hidle] at hs; cases hs)
    | _ => simpa only [World.step, hidle] using h
  | setEnabled i enabled =>
    cases hidle : w.ops i with
    | idle =>
      simp only [World.step, hidle]
      exact h.outside (by rw [hidle]; rfl) rfl fun hs => (by rw [hidle] at hs; cases hs)
    | _ => simpa only [World.step, hidle] using h
  | reconnect i =>
    cases hidle : w.ops i with
    | idle =>
      simp only [World.step, hidle]
      exact h.outside (by rw [hidle]; rfl) rfl fun hs => (by rw [hidle] at hs; cases hs)
    | _ => simpa only [World.step, hidle] using h
  | run i x => exact h.run he

theorem Inv.init (config : Config) (lastError : Option String) (file tunnel : Option Config) :
    Inv (World.start config lastError file tunnel) := by
  refine ⟨fun i hi => ?_, .inl rfl, fun _ => ⟨fun hu => (by cases hu), .inr rfl⟩⟩
  by_cases h0 : i = 0
  · subst h0
    cases hi
  · have hidle : (World.start config lastError file tunnel).ops i = .idle := by
      show Function.update (fun _ => Op.idle) 0 .reconciling i = .idle
      exact Function.update_of_ne h0 ..
    rw [hidle] at hi
    cases hi

/-! ## What follows from it -/

theorem Inv.onlyFlag (h : Inv w) (e : Event) : w.OnlyFlag validate e := by
  rintro i x next enabled rfl ho
  have hsound := (h.held i (by rw [ho]; rfl)).2
  rw [ho] at hsound
  show (w.run validate i x).config = _
  unfold World.run
  rw [ho]
  exact hsound.2.2 enabled rfl

theorem Inv.agree (h : Inv w) (hquiet : w.Quiet) : w.Agree := by
  have hno : w.applied = [] := by
    rcases h.busy with hno | ⟨i, hi⟩
    · exact hno
    · have := hquiet i
      revert hi this
      cases w.ops i <;> nofun
  obtain ⟨hkept, htuned⟩ := h.free hno
  refine ⟨hkept, htuned.resolve_right fun hs => ?_⟩
  have := hquiet 0
  unfold Starting at hs
  revert hs this
  cases w.ops 0 <;> nofun

theorem Tuned.backed (h : w.Tuned) : w.Backed := by
  intro c hc
  rcases h with h | ⟨h, -⟩
  · exact .inl (tunnelOf_some (h ▸ hc))
  · rw [h] at hc
    cases hc

theorem Inv.backed (h : Inv w) (hstart : ¬ w.Starting) : w.Backed := by
  rcases h.busy with hno | ⟨i, hi⟩
  · exact Tuned.backed ((h.free hno).2.resolve_right hstart)
  intro c hc
  have hsound := (h.held i hi).2
  cases ho : w.ops i with
  | saving next previous flag =>
    rw [ho] at hsound
    obtain ⟨rfl, -⟩ := tunnelOf_some (hsound.1 ▸ hc)
    exact .inr ⟨i, by rw [ho]; rfl⟩
  | rollingBack next previous error =>
    rw [ho] at hsound
    rcases hsound.1 with ht | ht | ht | ht
    · rw [ht] at hc
      cases hc
    · rw [ht] at hc
      cases hc
      exact .inr ⟨i, by rw [ho]; rfl⟩
    · exact .inl (tunnelOf_some (ht ▸ hc))
    · exact absurd ht hstart
  | recording previous error rollback =>
    rw [ho] at hsound
    obtain ⟨rfl, -, ht⟩ := hsound
    rw [ht] at hc
    split at hc
    · exact .inl (tunnelOf_some hc)
    · cases hc
  | writing next flag =>
    rw [ho] at hsound
    obtain ⟨rfl, -⟩ := tunnelOf_some (hsound.1 ▸ hc)
    exact .inr ⟨i, by rw [ho]; rfl⟩
  | noting config r =>
    rw [ho] at hsound
    obtain ⟨rfl, -, ht⟩ := hsound
    rw [ht] at hc
    split at hc
    · exact .inl (tunnelOf_some hc)
    · cases hc
  | _ =>
    rw [ho] at hi
    cases hi

end World

open World

/-- In every run in which configurations are applied in order, the saved and the live
    configuration are the remembered one whenever no operation is in progress. -/
theorem updates_agree (validate : Config → Except String Unit) (config : Config) (lastError : Option String)
    (file tunnel : Option Config) (es : List Event)
    (h : Along (World.step validate) (Orderly validate) (start config lastError file tunnel) es) :
    Along (World.step validate) (OnlyFlag validate) (start config lastError file tunnel) es ∧
      let w := exec (World.step validate) (start config lastError file tunnel) es
      (w.Quiet → w.Agree) ∧ (¬ w.Starting → w.Backed) := by
  have hinit := Inv.init config lastError file tunnel
  have hinv := invariant_along (fun _ _ hi he => hi.step he) hinit h
  exact ⟨along_of_invariant (fun _ _ hi he => hi.step he) (fun _ e hi _ => hi.onlyFlag e) hinit h, hinv.agree, hinv.backed⟩

section

def home : Config := { privateKey := "key", enabled := true }

def other : Config := { privateKey := "other key", enabled := true }

def runs (i n : Nat) : List Event := List.replicate n (.run i {})

/-- The agent starts with the tunnel on. -/
def booted : World := start home none (some home) none

/-- The start's reconcile, then a disable, then an import that cannot be saved. -/
def inTurn : List Event :=
  runs 0 3 ++ [.setEnabled 1 false] ++ runs 1 5 ++ [.importConfig 2 other] ++ runs 2 2 ++
    [.run 2 { saved := false, error := "read-only" }] ++ runs 2 2

theorem disabled_stays_off :
    (exec (World.step fun _ => .ok ()) booted inTurn).config = { home with enabled := false } ∧
      (exec (World.step fun _ => .ok ()) booted inTurn).tunnel = none ∧
      (exec (World.step fun _ => .ok ()) booted inTurn).updated = true ∧
      Along (World.step fun _ => .ok ()) (OnlyFlag fun _ => .ok ()) booted inTurn ∧
      let w := exec (World.step fun _ => .ok ()) booted inTurn
      (w.Quiet → w.Agree) ∧ (¬ w.Starting → w.Backed) :=
  ⟨by decide +kernel, by decide +kernel, by decide +kernel,
    updates_agree (fun _ => .ok ()) home none (some home) none inTurn (by decide +kernel)⟩

/-- The WAN comes back; the reconcile has read the configuration when the tunnel is switched off. -/
def overtaken : List Event :=
  runs 0 3 ++ [.reconnect 1] ++ runs 1 2 ++ [.setEnabled 2 false] ++ runs 2 5 ++ runs 1 2

/-- Another configuration is imported while the tunnel is being switched off. -/
def takenBack : List Event :=
  runs 0 3 ++ [.setEnabled 1 false] ++ runs 1 1 ++ [.importConfig 2 other] ++ runs 2 4 ++ runs 1 4

/-- Switched off, and the link cannot be deleted. -/
def leftUp : List Event :=
  runs 0 3 ++ [.setEnabled 1 false] ++ runs 1 2 ++ [.run 1 { kernel := { gone := false } }] ++ runs 1 2

theorem disabled_comes_back :
    let final := exec (World.step fun _ => .ok ()) booted
    ((final overtaken).Quiet ∧ ¬ (final overtaken).Agree ∧
        (final overtaken).config.enabled = false ∧ (final overtaken).tunnel = some home) ∧
      (((final takenBack).ops 2).accepted = true ∧ (final takenBack).config = { home with enabled := false }) ∧
      ((final leftUp).Quiet ∧ ((final leftUp).ops 1).accepted = true ∧ ¬ (final leftUp).Agree) := by
  refine ⟨⟨fun i => ?_, fun h => ?_, by decide +kernel, by decide +kernel⟩, ⟨by decide +kernel, by decide +kernel⟩,
    fun i => ?_, by decide +kernel, fun h => ?_⟩
  · match i with
    | 0 => decide +kernel
    | 1 => decide +kernel
    | 2 => decide +kernel
    | _ + 3 => rfl
  · have := h.2
    revert this
    decide +kernel
  · match i with
    | 0 => decide +kernel
    | 1 => decide +kernel
    | _ + 2 => rfl
  · have := h.2
    revert this
    decide +kernel

end

end OpenU60.Wireguard
