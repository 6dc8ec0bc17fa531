/-
  OpenU60.Lib.Script — statements that may fail, one after the other.

  `exec` runs one statement against what it finds outside and says whether it succeeded.
  `Wp ts Q s`: however the statements of `ts` succeed from `s`, `Q` holds in the end. A
  machine that holds the rest of a script keeps it step by step (`Wp.head`). Where success
  leaves one state only, `effect`, the end is computed (`wp_of_effect`).
-/

namespace OpenU60.Lib.Script

variable {τ σ ω : Type} (exec : τ → σ → ω → σ × Bool)

def Wp : List τ → (σ → Prop) → σ → Prop
  | [], Q, s => Q s
  | t :: ts, Q, s => ∀ x, (exec t s x).2 = true → Wp ts Q (exec t s x).1

variable {exec}

theorem Wp.mono {ts : List τ} {Q Q' : σ → Prop} (hQ : ∀ s, Q s → Q' s) {s : σ} (h : Wp exec ts Q s) : Wp exec ts Q' s := by
  induction ts generalizing s with
  | nil => exact hQ s h
  | cons t ts ih => exact fun x hx => ih (h x hx)

/-- The first statement has succeeded: the rest still leads to `Q`. -/
theorem Wp.head {t : τ} {ts : List τ} {Q : σ → Prop} {s : σ} (h : Wp exec (t :: ts) Q s) {x : ω} (hx : (exec t s x).2 = true) :
    Wp exec ts Q (exec t s x).1 := h x hx

theorem wp_of_effect {effect : σ → τ → σ} (h : ∀ t s x, (exec t s x).2 = true → (exec t s x).1 = effect s t) {ts : List τ}
    {Q : σ → Prop} {s : σ} (hQ : Q (ts.foldl effect s)) : Wp exec ts Q s := by
  induction ts generalizing s with
  | nil => exact hQ
  | cons t ts ih =>
    intro x hx
    rw [h t s x hx]
    exact ih hQ

end OpenU60.Lib.Script
