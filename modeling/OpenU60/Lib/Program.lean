/-
  OpenU60.Lib.Program — programs over a state whose statements may fail and that may be cut
  off between two statements.

  `Triple P p Q E`: from a state with `P`, the program ends with a value and a state with `Q`,
  or fails or is cut off in a state with `E`. With `E` false it ends with a value. The rules
  follow the program: `Triple.bind`, `Triple.ite`, `Triple.catching`; `Triple.conseq` weakens.
-/

namespace OpenU60.Lib.Program

inductive Outcome (α : Type) where
  | done (a : α)
  | failed (error : String)
  | killed
  deriving DecidableEq, Repr

def Prog (σ α : Type) : Type := σ → Outcome α × σ

namespace Prog

variable {σ α β : Type}

def bind (p : Prog σ α) (f : α → Prog σ β) : Prog σ β := fun s =>
  match p s with
  | (.done a, s') => f a s'
  | (.failed e, s') => (.failed e, s')
  | (.killed, s') => (.killed, s')

instance : Monad (Prog σ) where
  pure a := fun s => (.done a, s)
  bind := bind

/-- What a statement finds, without a change. -/
def read (f : σ → α) : Prog σ α := fun s => (.done (f s), s)

/-- A change that cannot fail. -/
def change (f : σ → σ) : Prog σ Unit := fun s => (.done (), f s)

/-- Only what is not there yet is made. -/
def skipIf (there : Bool) (p : Prog σ Unit) : Prog σ Unit := if there then pure () else p

/-- The failure as a value. -/
def catching (p : Prog σ α) : Prog σ (Except String α) := fun s =>
  match p s with
  | (.done a, s') => (.done (.ok a), s')
  | (.failed e, s') => (.done (.error e), s')
  | (.killed, s') => (.killed, s')

end Prog

open Prog

variable {σ α β : Type} {P P' : σ → Prop} {Q Q' : α → σ → Prop} {R : β → σ → Prop} {E E' : σ → Prop}

/-- What holds of an outcome and the state it leaves. -/
def After (Q : α → σ → Prop) (E : σ → Prop) : Outcome α × σ → Prop
  | (.done a, s) => Q a s
  | (_, s) => E s

def Triple (P : σ → Prop) (p : Prog σ α) (Q : α → σ → Prop) (E : σ → Prop) : Prop := ∀ s, P s → After Q E (p s)

theorem After.imp {r : Outcome α × σ} (h : After Q E r) (hQ : ∀ a s, Q a s → Q' a s) (hE : ∀ s, E s → E' s) : After Q' E' r := by
  obtain ⟨o, s⟩ := r
  cases o with
  | done a => exact hQ a s h
  | failed e => exact hE s h
  | killed => exact hE s h

theorem Triple.conseq {p : Prog σ α} (h : Triple P p Q E) (hP : ∀ s, P' s → P s) (hQ : ∀ a s, Q a s → Q' a s)
    (hE : ∀ s, E s → E' s) : Triple P' p Q' E' := fun s hs => (h s (hP s hs)).imp hQ hE

theorem Triple.pure (a : α) (h : ∀ s, P s → Q a s) : Triple P (Pure.pure a : Prog σ α) Q E := h

theorem Triple.bind {p : Prog σ α} {f : α → Prog σ β} (hp : Triple P p Q E) (hf : ∀ a, Triple (Q a) (f a) R E) :
    Triple P (p >>= f) R E := by
  intro s hs
  have hafter := hp s hs
  show After R E (Prog.bind p f s)
  unfold Prog.bind
  cases h : p s with
  | mk o s' =>
    rw [h] at hafter
    cases o with
    | done a => exact hf a s' hafter
    | failed e => exact hafter
    | killed => exact hafter

theorem Triple.ite {c : Prop} [Decidable c] {p q : Prog σ α} (hp : c → Triple P p Q E) (hq : ¬ c → Triple P q Q E) :
    Triple P (if c then p else q) Q E := by
  by_cases h : c
  · rw [if_pos h]
    exact hp h
  · rw [if_neg h]
    exact hq h

theorem Triple.read {f : σ → α} (h : ∀ s, P s → Q (f s) s) : Triple P (Prog.read f) Q E := h

theorem Triple.change {f : σ → σ} {Q : Unit → σ → Prop} (h : ∀ s, P s → Q () (f s)) : Triple P (Prog.change f) Q E := h

theorem Triple.catching {p : Prog σ α} {V : Except String α → σ → Prop} (h : Triple P p Q E)
    (hdone : ∀ a s, Q a s → V (.ok a) s) (hfailed : ∀ e s, E s → V (.error e) s) : Triple P (catching p) V E := by
  intro s hs
  have hafter := h s hs
  unfold Prog.catching
  cases hp : p s with
  | mk o s' =>
    rw [hp] at hafter
    cases o with
    | done a => exact hdone a s' hafter
    | failed e => exact hfailed e s' hafter
    | killed => exact hafter

end OpenU60.Lib.Program
