/-
  OpenU60.Lib.Dialogue — programs as the questions they put to their environment.

  A dialogue is done, or asks and goes on with the answer. An environment answers each
  question by what was said before; `play` is the whole conversation with one. A `Task` is a
  dialogue that can stop early with an error and has one variable.

  A monitor reads the exchanges: `next` is its state after one, `ok` the questions it
  allows. `Keeps` says that a dialogue asks only what is allowed and ends as stated,
  against every environment. The rules:
  - `keeps_bind`, `does_bind` and one rule for each primitive follow the text of a program;
  - `Keeps.of_play` gives what a conversation ends in, `Keeps.step` what one exchange
    leaves to be kept, for a machine that holds the rest of a dialogue in its state.
-/

namespace OpenU60.Lib

inductive Dialogue (Q : Type) (A : Q → Type) (α : Type) where
  | done (a : α)
  | ask (q : Q) (k : A q → Dialogue Q A α)

namespace Dialogue

variable {Q : Type} {A : Q → Type} {α β ε δ τ : Type}

def bind : Dialogue Q A α → (α → Dialogue Q A β) → Dialogue Q A β
  | done a, f => f a
  | ask q k, f => ask q fun a => (k a).bind f

instance : Monad (Dialogue Q A) where
  pure := done
  bind := bind

theorem bind_assoc {γ : Type} (p : Dialogue Q A α) (f : α → Dialogue Q A β) (g : β → Dialogue Q A γ) :
    (p.bind f).bind g = p.bind fun a => (f a).bind g := by
  induction p with
  | done a => rfl
  | ask q k ih => simp only [bind, ih]

theorem bind_done (p : Dialogue Q A α) : p.bind done = p := by
  induction p with
  | done a => rfl
  | ask q k ih => simp only [bind, ih]

instance : LawfulMonad (Dialogue Q A) :=
  LawfulMonad.mk' (Dialogue Q A) bind_done (fun _ _ => rfl) bind_assoc

/-- Puts one question. -/
def put (q : Q) : Dialogue Q A (A q) := ask q done

/-- One question with the answer it got. -/
abbrev Exchange (Q : Type) (A : Q → Type) := (q : Q) × A q

/-- The conversation with an environment that answers by what was said before. -/
def play (env : List (Exchange Q A) → (q : Q) → A q) :
    Dialogue Q A α → List (Exchange Q A) → List (Exchange Q A) × α
  | done a, past => (past, a)
  | ask q k, past => play env (k (env past q)) (past ++ [⟨q, env past q⟩])

/-- A dialogue that can stop early with an `ε` and has a variable of type `τ`. -/
abbrev Task (Q : Type) (A : Q → Type) (ε τ : Type) := ExceptT ε (StateT τ (Dialogue Q A))

/-- `Dialogue.put` within a task. -/
def Task.put (q : Q) : Task Q A ε τ (A q) := ExceptT.lift (StateT.lift (Dialogue.put q))

/-- `map_err(f)?`. -/
def Task.orStop (r : Except δ α) (f : δ → ε) : Task Q A ε τ α :=
  match r with
  | .ok a => pure a
  | .error e => throw (f e)

/-- `if c { return Err(e) }`. -/
def Task.stopIf (c : Bool) (e : ε) : Task Q A ε τ Unit := if c then throw e else pure ()

/-! ## Monitors -/

variable {σ : Type} (next : σ → Exchange Q A → σ) (ok : σ → Q → Prop)

/-- From the monitor's state `s` the dialogue asks only what is allowed and ends as `P`
    says, whatever it is answered. -/
def Keeps : Dialogue Q A α → σ → (σ → α → Prop) → Prop
  | done a, s, P => P s a
  | ask q k, s, P => ok s q ∧ ∀ a, Keeps (k a) (next s ⟨q, a⟩) P

/-- `Keeps` of a task, from the value `x` of its variable. -/
def Does (m : Task Q A ε τ α) (s : σ) (x : τ) (P : σ → Except ε α → τ → Prop) : Prop :=
  Keeps next ok (m.run.run x) s fun s r => P s r.1 r.2

variable {next ok}

theorem keeps_pure {a : α} {s : σ} {P : σ → α → Prop} : Keeps next ok (pure a) s P ↔ P s a := Iff.rfl

theorem keeps_put {q : Q} {s : σ} {P : σ → A q → Prop} :
    Keeps next ok (put q) s P ↔ ok s q ∧ ∀ a, P (next s ⟨q, a⟩) a := Iff.rfl

theorem keeps_bind {p : Dialogue Q A α} {f : α → Dialogue Q A β} {s : σ} {P : σ → β → Prop} :
    Keeps next ok (p >>= f) s P ↔ Keeps next ok p s fun s a => Keeps next ok (f a) s P := by
  show Keeps next ok (p.bind f) s P ↔ _
  induction p generalizing s with
  | done a => exact Iff.rfl
  | ask q k ih => simp only [bind, Keeps, ih]

theorem Keeps.mono {p : Dialogue Q A α} {s : σ} {P P' : σ → α → Prop} (hp : Keeps next ok p s P)
    (himp : ∀ s a, P s a → P' s a) : Keeps next ok p s P' := by
  induction p generalizing s with
  | done a => exact himp s a hp
  | ask q k ih => exact ⟨hp.1, fun a => ih a (hp.2 a)⟩

/-- What a conversation ends in, by the monitor's reading of its exchanges. -/
theorem Keeps.of_play {p : Dialogue Q A α} {s₀ s : σ} {P : σ → α → Prop} (env : List (Exchange Q A) → (q : Q) → A q)
    {past : List (Exchange Q A)} (hp : Keeps next ok p s P) (hs : past.foldl next s₀ = s) :
    P ((play env p past).1.foldl next s₀) (play env p past).2 := by
  induction p generalizing s past with
  | done a => subst hs; exact hp
  | ask q k ih =>
    refine ih (env past q) (hp.2 (env past q)) ?_
    rw [List.foldl_append, hs]; rfl

theorem Keeps.step {q : Q} {k : A q → Dialogue Q A α} {s : σ} {P : σ → α → Prop}
    (hp : Keeps next ok (.ask q k) s P) (a : A q) : Keeps next ok (k a) (next s ⟨q, a⟩) P := hp.2 a

/-! ## The rules of a task -/

variable {s : σ} {x : τ}

theorem does_pure {a : α} {P : σ → Except ε α → τ → Prop} :
    Does next ok (pure a) s x P ↔ P s (.ok a) x := Iff.rfl

theorem does_throw {e : ε} {P : σ → Except ε α → τ → Prop} :
    Does next ok (throw e) s x P ↔ P s (.error e) x := Iff.rfl

variable {P : σ → Except ε β → τ → Prop}

theorem does_bind {m : Task Q A ε τ α} {f : α → Task Q A ε τ β} :
    Does next ok (m >>= f) s x P ↔
      Does next ok m s x fun s r x =>
        match r with
        | .ok a => Does next ok (f a) s x P
        | .error e => P s (.error e) x := by
  unfold Does
  rw [ExceptT.run_bind, StateT.run_bind, keeps_bind]
  constructor <;> intro h <;> refine h.mono ?_
  · rintro s ⟨_ | _, y⟩ h <;> exact h
  · rintro s ⟨_ | _, y⟩ h <;> exact h

theorem does_put_bind {q : Q} {f : A q → Task Q A ε τ β} (hq : ok s q)
    (hf : ∀ a, Does next ok (f a) (next s ⟨q, a⟩) x P) : Does next ok (Task.put q >>= f) s x P :=
  does_bind.mpr ⟨hq, hf⟩

theorem does_set_bind {y : τ} {f : PUnit → Task Q A ε τ β}
    (hf : Does next ok (f ⟨⟩) s y P) : Does next ok (set y >>= f) s x P :=
  does_bind.mpr hf

theorem does_orStop_bind {r : Except δ α} {g : δ → ε} {f : α → Task Q A ε τ β}
    (hok : ∀ a, r = .ok a → Does next ok (f a) s x P) (herr : ∀ e, r = .error e → P s (.error (g e)) x) :
    Does next ok (Task.orStop r g >>= f) s x P := by
  refine does_bind.mpr ?_
  cases r with
  | ok a => exact hok a rfl
  | error e => exact herr e rfl

theorem does_stopIf_bind {c : Bool} {e : ε} {f : Unit → Task Q A ε τ β}
    (hstop : c = true → P s (.error e) x) (hgo : c = false → Does next ok (f ()) s x P) :
    Does next ok (Task.stopIf c e >>= f) s x P := by
  refine does_bind.mpr ?_
  cases c with
  | true => exact hstop rfl
  | false => exact hgo rfl

theorem Does.mono {m : Task Q A ε τ α} {P P' : σ → Except ε α → τ → Prop} (hm : Does next ok m s x P)
    (himp : ∀ s r x, P s r x → P' s r x) : Does next ok m s x P' :=
  Keeps.mono hm fun s r h => himp s r.1 r.2 h

end Dialogue

end OpenU60.Lib
