/-
  OpenU60.Lib.Machine — deterministic machines driven by a list of events.

  A machine is a step function; whatever the environment decides (an outcome, a clock
  reading, which thread moves) is part of the event. `exec` is the state a run ends in,
  `Along` says that every step of a run is taken from a state where a condition on the
  state and the event holds. The rules:
  - `invariant_along`: a predicate the allowed steps keep holds at the end of every
    allowed run, and by `along_append` at every state on the way;
  - `along_of_invariant`: what every allowed step does from an invariant state, it does
    at every step of an allowed run; `along_iff`: two conditions that agree in the states of
    an invariant allow the same runs.

  `Inevitable` says that a thread's own steps reach a goal whatever they find;
  `not_inevitable` refutes it by a set of states the thread need not leave.
-/

namespace OpenU60.Lib.Machine

variable {σ ε : Type} (step : σ → ε → σ)

/-- The state a run of events ends in. -/
def exec (s : σ) (es : List ε) : σ := es.foldl step s

/-- Every step of the run is taken where `ok` allows it. -/
def Along (ok : σ → ε → Prop) : σ → List ε → Prop
  | _, [] => True
  | s, e :: es => ok s e ∧ Along ok (step s e) es

instance decidableAlong (ok : σ → ε → Prop) [∀ s e, Decidable (ok s e)] :
    ∀ (s : σ) (es : List ε), Decidable (Along step ok s es)
  | _, [] => .isTrue trivial
  | s, e :: es => @instDecidableAnd _ _ inferInstance (decidableAlong ok (step s e) es)

@[simp] theorem exec_nil (s : σ) : exec step s [] = s := rfl

@[simp] theorem exec_cons (s : σ) (e : ε) (es : List ε) : exec step s (e :: es) = exec step (step s e) es := rfl

theorem exec_append (s : σ) (es fs : List ε) : exec step s (es ++ fs) = exec step (exec step s es) fs :=
  List.foldl_append

theorem exec_snoc (s : σ) (es : List ε) (e : ε) : exec step s (es ++ [e]) = step (exec step s es) e := by
  rw [exec_append]; rfl

variable {step}

variable {s : σ}

theorem along_append {ok : σ → ε → Prop} {es fs : List ε} :
    Along step ok s (es ++ fs) ↔ Along step ok s es ∧ Along step ok (exec step s es) fs := by
  induction es generalizing s with
  | nil => simp [Along]
  | cons e es ih => simp only [List.cons_append, Along, exec_cons, ih, and_assoc]

variable {es : List ε}

theorem along_and {ok ok' : σ → ε → Prop} (h : Along step ok s es) (h' : Along step ok' s es) :
    Along step (fun s e => ok s e ∧ ok' s e) s es := by
  induction es generalizing s with
  | nil => trivial
  | cons e es ih => exact ⟨⟨h.1, h'.1⟩, ih h.2 h'.2⟩

theorem along_mono {ok ok' : σ → ε → Prop} (himp : ∀ s e, ok s e → ok' s e)
    (h : Along step ok s es) : Along step ok' s es := by
  induction es generalizing s with
  | nil => trivial
  | cons e es ih => exact ⟨himp s e h.1, ih h.2⟩

theorem along_of_forall {P : ε → Prop} (h : ∀ e ∈ es, P e) : Along step (fun _ => P) s es := by
  induction es generalizing s with
  | nil => trivial
  | cons e es ih => exact ⟨h e List.mem_cons_self, ih fun e' he' => h e' (List.mem_cons_of_mem _ he')⟩

variable {I : σ → Prop}

/-- Run rule: what the allowed steps keep, an allowed run keeps. -/
theorem invariant_along {ok : σ → ε → Prop} (hstep : ∀ s e, I s → ok s e → I (step s e)) :
    ∀ {es : List ε} {s : σ}, I s → Along step ok s es → I (exec step s es) := by
  intro es
  induction es with
  | nil => intro s hs _; exact hs
  | cons e es ih => intro s hs h; exact ih (hstep s e hs h.1) h.2

/-- The same where every step is allowed. -/
theorem invariant (hstep : ∀ s e, I s → I (step s e)) (hs : I s) :
    I (exec step s es) := by
  induction es generalizing s with
  | nil => exact hs
  | cons e es ih => exact ih (hstep s e hs)

/-- Step rule: from an invariant kept by the allowed steps, what each allowed step does
    holds along the whole run. -/
theorem along_of_invariant {ok P : σ → ε → Prop} (hstep : ∀ s e, I s → ok s e → I (step s e))
    (hP : ∀ s e, I s → ok s e → P s e) :
    ∀ {es : List ε} {s : σ}, I s → Along step ok s es → Along step P s es := by
  intro es
  induction es with
  | nil => intro s _ _; trivial
  | cons e es ih => intro s hs h; exact ⟨hP s e hs h.1, ih (hstep s e hs h.1) h.2⟩

/-- The same where every step is allowed. -/
theorem along_invariant {P : σ → ε → Prop} (hstep : ∀ s e, I s → I (step s e)) (hP : ∀ s e, I s → P s e) (hs : I s) : Along step P s es := by
  induction es generalizing s with
  | nil => trivial
  | cons e es ih => exact ⟨hP s e hs, ih (hstep s e hs)⟩

theorem along_iff {P Q : σ → ε → Prop} (hstep : ∀ s e, I s → I (step s e)) (h : ∀ s e, I s → (P s e ↔ Q s e)) (hs : I s) : Along step P s es ↔ Along step Q s es := by
  induction es generalizing s with
  | nil => exact Iff.rfl
  | cons e es ih => exact and_congr (h s e hs) (ih (hstep s e hs))

section

variable {ι : Type} (step) (move : ι → ε) (goal : σ → Prop)

/-- Whatever its moves find, the thread gets to the goal. -/
inductive Inevitable : σ → Prop
  | here {s : σ} : goal s → Inevitable s
  | next {s : σ} : (∀ x, Inevitable (step s (move x))) → Inevitable s

variable {step move goal}

theorem not_inevitable {T : σ → Prop} (hstay : ∀ s, T s → ∃ x, T (step s (move x))) (hgoal : ∀ s, T s → ¬ goal s) {s : σ}
    (hs : T s) : ¬ Inevitable step move goal s := by
  intro h
  induction h with
  | here hg => exact hgoal _ hs hg
  | next _ ih =>
    obtain ⟨x, hx⟩ := hstay _ hs
    exact ih x hx

end

end OpenU60.Lib.Machine
