/-
  OpenU60.Ttl.Enforced — the tables and the file follow the configuration.

  `Owned` is what a table keeps whatever command fails and wherever a process ends: at most one
  jump, none without the chain, the other rules as they were. From it, for every choice of
  failing commands:
  - `ensureFamily_spec`, `clearFamily_spec`: a family's commands that all succeed leave what is
    demanded of it, the others leave it owned.
  - `tryApply_spec`, `update_spec`, `reconcile_spec`: the manager's operations.
  - `inv_exec`: what every run of processes keeps.
  - `rules_follow_configuration`: so the rules, the file and `active` are the configuration's.
-/

import Mathlib
import OpenU60.Lib.Decimal
import OpenU60.Lib.Machine
import OpenU60.Lib.Split
import OpenU60.Ttl.Manager

namespace OpenU60.Ttl

open OpenU60.Lib OpenU60.Lib.Program OpenU60.Lib.Program.Prog OpenU60.Lib.Machine

/-! ## Tables -/

def others (t : Table) : List Rule := t.postrouting.filter (· != jump)

/-- What agents leave of a table whose rules were `base` before the first. -/
structure Owned (base : List Rule) (t : Table) : Prop where
  once : t.postrouting.count jump ≤ 1
  whole : t.chain = none → jump ∉ t.postrouting
  rest : others t = base

/-- What a configuration demands of a table: its rule and one jump, or nothing. -/
structure Enforced (base : List Rule) (rule : Option Rule) (t : Table) : Prop where
  chain : t.chain = rule.map fun r => [r]
  jumps : t.postrouting.count jump = if rule.isSome then 1 else 0
  rest : others t = base

def demanded (c : Config) (p : Program) : Option Rule :=
  if c.enabled then
    some (match p with
      | .iptables => rewriteRule "TTL" "--ttl-set" c.ipv4Ttl
      | .ip6tables => rewriteRule "HL" "--hl-set" c.ipv6HopLimit)
  else none

def Configured (base : Program → List Rule) (c : Config) (env : Env) : Prop :=
  ∀ p, Enforced (base p) (demanded c p) (env.tables p)

variable {base : List Rule} {t : Table}

theorem Enforced.owned {rule : Option Rule} (h : Enforced base rule t) : Owned base t where
  once := by
    rw [h.jumps]
    split <;> omega
  whole := by
    intro hnone
    have hchain := h.chain
    rw [hnone] at hchain
    cases rule with
    | none => exact List.count_eq_zero.mp h.jumps
    | some r => cases hchain
  rest := h.rest

/-- The chain as it is after the first commands. -/
structure Built (base : List Rule) (rules : List Rule) (t : Table) : Prop where
  chain : t.chain = some rules
  once : t.postrouting.count jump ≤ 1
  rest : others t = base

theorem Built.owned {rules : List Rule} (h : Built base rules t) : Owned base t := { h with
  whole := fun hnone => by
    rw [h.chain] at hnone
    cases hnone }

/-! ## Programs on one table -/

section Family

/-- If `fine`, there are at least `n` attempts more, all of them allowed. -/
def Spare (fine : Prop) (n : Nat) (env : Env) : Prop := fine → n ≤ env.attempts.length ∧ ∀ a ∈ env.attempts, a.allowed = true

/-- What neither the table of `p` nor the attempts decide. -/
def Aside (p : Program) (F : Env → Prop) : Prop :=
  ∀ env t as, F env → F { env with tables := Function.update env.tables p t, attempts := as }

variable {fine : Prop} {p : Program} {F : Env → Prop} {T U : Table → Prop} {n m : Nat}

/-- The table of `p` has `T`. -/
def At (fine : Prop) (p : Program) (F : Env → Prop) (T : Table → Prop) (n : Nat) (env : Env) : Prop :=
  F env ∧ T (env.tables p) ∧ Spare fine n env

/-- Something failed, or the process ended. -/
def Broken (fine : Prop) (p : Program) (F : Env → Prop) (base : List Rule) (env : Env) : Prop :=
  F env ∧ Owned base (env.tables p) ∧ ¬ fine

theorem At.imp {env : Env} (h : At fine p F T n env) (hT : ∀ t, T t → U t) (hle : m ≤ n) : At fine p F U m env :=
  ⟨h.1, hT _ h.2.1, fun hfine => ⟨Nat.le_trans hle (h.2.2 hfine).1, (h.2.2 hfine).2⟩⟩

theorem statement_spec {effect : Env → Option Env} {message : Attempt → String} {P E : Env → Prop} {Q : Unit → Env → Prop}
    (hend : ∀ env, P env → env.attempts = [] → E env)
    (hgo : ∀ env a rest, P env → env.attempts = a :: rest → a.allowed = true →
      ∃ env', effect env = some env' ∧ Q () { env' with attempts := rest })
    (hfail : ∀ env a rest, P env → env.attempts = a :: rest → a.allowed = false → E { env with attempts := rest }) :
    Triple P (statement effect message) Q E := by
  intro env henv
  unfold statement
  cases has : env.attempts with
  | nil => exact hend env henv has
  | cons a rest =>
    cases hallowed : a.allowed with
    | true =>
      obtain ⟨env', heffect, hq⟩ := hgo env a rest henv has hallowed
      simp only [hallowed, if_true, heffect]
      exact hq
    | false =>
      simp only [hallowed, Bool.false_eq_true, if_false]
      exact hfail env a rest henv has hallowed

theorem Spare.tail {env env' : Env} {a : Attempt} {rest : List Attempt} (h : Spare fine (n + 1) env)
    (has : env.attempts = a :: rest) (hrest : env'.attempts = rest) : Spare fine n env' := by
  intro hfine
  obtain ⟨hlen, hall⟩ := h hfine
  rw [has] at hlen hall
  rw [hrest]
  exact ⟨Nat.le_of_succ_le_succ hlen, fun b hb => hall b (List.mem_cons_of_mem _ hb)⟩

/-- With attempts to spare a statement goes ahead. -/
theorem Spare.not_fine {env : Env} (h : Spare fine (n + 1) env)
    (hbad : env.attempts = [] ∨ ∃ a rest, env.attempts = a :: rest ∧ a.allowed = false) : ¬ fine := by
  intro hfine
  obtain ⟨hlen, hall⟩ := h hfine
  obtain hnil | ⟨a, rest, has, hallowed⟩ := hbad
  · rw [hnil] at hlen
    exact absurd hlen (by simp)
  · have hok := hall a (by rw [has]; exact List.mem_cons_self ..)
    rw [hok] at hallowed
    cases hallowed

theorem runRequired_spec {c : Command} (hF : Aside p F) (howned : ∀ t, T t → Owned base t)
    (hgo : ∀ t, T t → ∃ t', c.effect t = some t' ∧ U t') :
    Triple (At fine p F T (n + 1)) (runRequired p c) (fun _ => At fine p F U n) (Broken fine p F base) := by
  have hsame : ∀ env as, F env → F { env with attempts := as } := by
    intro env as hf
    have haside := hF env (env.tables p) as hf
    rw [Function.update_eq_self] at haside
    exact haside
  refine statement_spec (fun env henv has => ?_) (fun env a rest henv has hallowed => ?_) fun env a rest henv has hallowed => ?_
  · exact ⟨henv.1, howned _ henv.2.1, henv.2.2.not_fine (.inl has)⟩
  · obtain ⟨t', heffect, ht'⟩ := hgo _ henv.2.1
    refine ⟨{ env with tables := Function.update env.tables p t' }, by rw [heffect]; rfl, hF env t' rest henv.1, ?_,
      henv.2.2.tail has rfl⟩
    show U (Function.update env.tables p t' p)
    rw [Function.update_self]
    exact ht'
  · exact ⟨hsame env rest henv.1, howned _ henv.2.1, henv.2.2.not_fine (.inr ⟨a, rest, has, hallowed⟩)⟩

/-- What is done unless the check answers `q`. -/
theorem skipIf_spec {check : Table → Bool} {q : Bool → Bool} {prog : Prog Env Unit} (there : Bool)
    (hskip : ∀ t, T t → q (check t) = true → U t)
    (hdo : Triple (At fine p F (fun t => T t ∧ q (check t) = false) (n + m)) prog (fun _ => At fine p F U n) (Broken fine p F base)) :
    Triple (fun env => At fine p F T (n + m) env ∧ check (env.tables p) = there) (skipIf (q there) prog) (fun _ => At fine p F U n)
      (Broken fine p F base) := by
  refine Triple.ite (fun hthere => ?_) fun hthere => ?_
  · intro env henv
    obtain ⟨hat, hcheck⟩ := henv
    exact ⟨hat.1, hskip _ hat.2.1 (hcheck ▸ hthere), (hat.imp (fun _ h => h) (Nat.le_add_right n m)).2.2⟩
  · refine Triple.conseq hdo (fun env henv => ?_) (fun _ _ h => h) fun _ h => h
    obtain ⟨hat, hcheck⟩ := henv
    refine ⟨hat.1, ⟨hat.2.1, ?_⟩, hat.2.2⟩
    rw [hcheck]
    exact Bool.eq_false_iff.mpr hthere

theorem succeeds_spec {check : Table → Bool} :
    Triple (At fine p F T n) (succeeds p check) (fun there env => At fine p F T n env ∧ check (env.tables p) = there)
      (Broken fine p F base) :=
  Triple.read fun _ henv => ⟨henv, rfl⟩

theorem count_jump_pos {rules : List Rule} (h : jump ∈ rules) (hle : rules.count jump ≤ 1) : rules.count jump = 1 := by
  have hpos := List.count_pos_iff.mpr h
  omega

theorem checked_built {rules : List Rule} (h : Built base rules t) : checked t = decide (jump ∈ t.postrouting) := by
  unfold checked
  rw [h.chain, List.contains_eq_mem]
  rfl

theorem flush_spec {G : List Rule → Prop} (hF : Aside p F) :
    Triple (At fine p F (fun t => (∃ rules, Built base rules t) ∧ G t.postrouting) (n + 1)) (runRequired p .flush)
      (fun _ => At fine p F (fun t => Built base [] t ∧ G t.postrouting) n) (Broken fine p F base) := by
  refine runRequired_spec hF (fun t ⟨⟨rules, ht⟩, _⟩ => ht.owned) fun t ⟨⟨rules, ht⟩, hg⟩ =>
    ⟨{ t with chain := some [] }, ?_, ⟨rfl, ht.once, ht.rest⟩, hg⟩
  show t.chain.map _ = _
  rw [ht.chain]
  rfl

theorem listed_iff : listed t = true ↔ ∃ rules, t.chain = some rules := Option.isSome_iff_exists

theorem listed_false : listed t = false ↔ t.chain = none := by
  unfold listed
  rw [← Bool.not_eq_true, Option.not_isSome_iff_eq_none]

theorem ensureFamily_spec (hF : Aside p F) (target setOption : String) (value : UInt8) :
    Triple (At fine p F (Owned base) (n + 4)) (ensureFamily p target setOption value)
      (fun _ => At fine p F (Enforced base (some (rewriteRule target setOption value))) n) (Broken fine p F base) := by
  unfold ensureFamily
  refine Triple.bind succeeds_spec fun there => ?_
  refine Triple.bind (skipIf_spec (q := id) (n := n + 3) (m := 1) (U := fun t => (∃ rules, Built base rules t) ∧ True) there
    (fun t ht hlisted => ?_) ?_) fun _ => ?_
  · obtain ⟨rules, hrules⟩ := listed_iff.mp hlisted
    exact ⟨⟨rules, hrules, ht.once, ht.rest⟩, trivial⟩
  · refine runRequired_spec hF (fun t ht => ht.1) fun t ht =>
      ⟨{ t with chain := some [] }, ?_, ⟨[], rfl, ht.1.once, ht.1.rest⟩, trivial⟩
    refine if_pos ?_
    rw [listed_false.mp ht.2]
    rfl
  refine Triple.bind (flush_spec (G := fun _ => True) hF) fun _ => ?_
  refine Triple.bind (runRequired_spec (n := n + 1) (U := Built base [rewriteRule target setOption value]) hF (fun t ht => ht.1.owned)
    fun t ht => ⟨{ t with chain := some [rewriteRule target setOption value] }, ?_, rfl, ht.1.once, ht.1.rest⟩) fun _ => ?_
  · show t.chain.map _ = _
    rw [ht.1.chain]
    rfl
  refine Triple.bind succeeds_spec fun there => skipIf_spec (q := id) (n := n) (m := 1) there (fun t ht hchecked => ?_) ?_
  · have hmem : jump ∈ t.postrouting := of_decide_eq_true ((checked_built ht).symm.trans hchecked)
    exact ⟨ht.chain, count_jump_pos hmem ht.once, ht.rest⟩
  · refine runRequired_spec hF (fun t ht => ht.1.owned) fun t ht => ⟨{ t with postrouting := jump :: t.postrouting }, ?_, ht.1.chain, ?_, ?_⟩
    · refine if_pos ?_
      rw [ht.1.chain]
      rfl
    · have hnot : jump ∉ t.postrouting := of_decide_eq_false ((checked_built ht.1).symm.trans ht.2)
      show (jump :: t.postrouting).count jump = 1
      rw [List.count_cons_self, List.count_eq_zero.mpr hnot]
    · show (jump :: t.postrouting).filter (· != jump) = base
      rw [List.filter_cons_of_neg (by simp)]
      exact ht.1.rest

theorem others_erase (rules : List Rule) : (rules.erase jump).filter (· != jump) = rules.filter (· != jump) := by
  induction rules with
  | nil => rfl
  | cons r rules ih =>
    by_cases hr : r = jump
    · rw [hr, List.erase_cons_head, List.filter_cons_of_neg (by simp)]
    · rw [List.erase_cons_tail (by simpa using hr), List.filter_cons_of_pos (by simpa using hr),
        List.filter_cons_of_pos (by simpa using hr), ih]

theorem clearFamily_spec (hF : Aside p F) :
    Triple (At fine p F (Owned base) (n + 3)) (clearFamily p) (fun _ => At fine p F (Enforced base none) n) (Broken fine p F base) := by
  unfold clearFamily
  refine Triple.bind succeeds_spec fun there => skipIf_spec (q := not) (n := n) (m := 3) there (fun t ht hlisted => ?_) ?_
  · have hnone : t.chain = none := listed_false.mp (by simpa using hlisted)
    exact ⟨hnone, List.count_eq_zero.mpr (ht.whole hnone), ht.rest⟩
  have hbuilt : ∀ t, Owned base t ∧ (!listed t) = false → ∃ rules, Built base rules t := by
    intro t ht
    obtain ⟨rules, hrules⟩ := listed_iff.mp (by simpa using ht.2)
    exact ⟨rules, hrules, ht.1.once, ht.1.rest⟩
  refine Triple.bind succeeds_spec fun there => ?_
  refine Triple.bind (skipIf_spec (q := not) (n := n + 2) (m := 1)
    (U := fun t => (∃ rules, Built base rules t) ∧ jump ∉ t.postrouting) there (fun t ht hchecked => ?_) ?_) fun _ => ?_
  · obtain ⟨rules, hrules⟩ := hbuilt t ht
    refine ⟨⟨rules, hrules⟩, of_decide_eq_false ?_⟩
    rw [← checked_built hrules]
    simpa using hchecked
  · refine runRequired_spec hF (fun t ht => ht.1.1) fun t ht => ⟨{ t with postrouting := t.postrouting.erase jump }, ?_, ?_, ?_⟩
    all_goals obtain ⟨rules, hrules⟩ := hbuilt t ht.1
    all_goals have hmem : jump ∈ t.postrouting := of_decide_eq_true ((checked_built hrules).symm.trans (by simpa using ht.2))
    · exact if_pos hmem
    · have hcount : (t.postrouting.erase jump).count jump ≤ 1 := by
        rw [List.count_erase_self]
        have honce := hrules.once
        omega
      exact ⟨rules, hrules.chain, hcount, (others_erase t.postrouting).trans hrules.rest⟩
    · have hzero : (t.postrouting.erase jump).count jump = 0 := by
        rw [List.count_erase_self, count_jump_pos hmem hrules.once]
      exact List.count_eq_zero.mp hzero
  refine Triple.bind (flush_spec (G := fun rules => jump ∉ rules) hF) fun _ => ?_
  refine runRequired_spec hF (fun t ht => ht.1.owned) fun t ht =>
    ⟨{ t with chain := none }, if_pos ⟨ht.1.chain, ht.2⟩, rfl, List.count_eq_zero.mpr ht.2, ht.1.rest⟩

end Family

/-! ## Both families -/

section Manager

variable {base : Program → List Rule} {fine : Prop} {n : Nat}

/-- What every program leaves of the tables, and what `apply` does not touch. -/
def Kept (base : Program → List Rule) (file : Option String) (applied : List (Config × Bool)) (env : Env) : Prop :=
  (∀ p, Owned (base p) (env.tables p)) ∧ env.file = file ∧ env.applied = applied

variable {file : Option String} {applied : List (Config × Bool)}

/-- One family's program and then the other's. -/
theorem families_spec {m k : Nat} {c : Config} {first second : Prog Env Unit}
    (hfirst : ∀ {F n}, Aside .iptables F → Triple (At fine .iptables F (Owned (base .iptables)) (n + m)) first
      (fun _ => At fine .iptables F (Enforced (base .iptables) (demanded c .iptables)) n) (Broken fine .iptables F (base .iptables)))
    (hsecond : ∀ {F n}, Aside .ip6tables F → Triple (At fine .ip6tables F (Owned (base .ip6tables)) (n + k)) second
      (fun _ => At fine .ip6tables F (Enforced (base .ip6tables) (demanded c .ip6tables)) n) (Broken fine .ip6tables F (base .ip6tables))) :
    Triple (fun env => Kept base file applied env ∧ Spare fine (n + k + m) env) (do first; second)
      (fun _ env => Kept base file applied env ∧ Configured base c env ∧ Spare fine n env)
      (fun env => Kept base file applied env ∧ ¬ fine) := by
  have hkept : ∀ {env : Env}, Owned (base .iptables) (env.tables .iptables) → Owned (base .ip6tables) (env.tables .ip6tables) →
      env.file = file → env.applied = applied → Kept base file applied env := by
    intro env h4 h6 hfile happlied
    refine ⟨fun p => ?_, hfile, happlied⟩
    cases p with
    | iptables => exact h4
    | ip6tables => exact h6
  refine Triple.bind (Q := fun _ env => At fine .iptables (fun env => Owned (base .ip6tables) (env.tables .ip6tables) ∧ env.file = file ∧
    env.applied = applied) (Enforced (base .iptables) (demanded c .iptables)) (n + k) env) ?_ fun _ => ?_
  · refine Triple.conseq (hfirst (F := fun env => Owned (base .ip6tables) (env.tables .ip6tables) ∧ env.file = file ∧ env.applied = applied)
      (n := n + k) ?_) (fun env henv => ⟨⟨henv.1.1 .ip6tables, henv.1.2⟩, henv.1.1 .iptables, henv.2⟩) (fun _ _ h => h) ?_
    · intro env t as hf
      exact hf
    · intro env henv
      exact ⟨hkept henv.2.1 henv.1.1 henv.1.2.1 henv.1.2.2, henv.2.2⟩
  · refine Triple.conseq (hsecond (F := fun env => Enforced (base .iptables) (demanded c .iptables) (env.tables .iptables) ∧ env.file = file ∧
      env.applied = applied) (n := n) ?_) (fun env henv => ⟨⟨henv.2.1, henv.1.2⟩, henv.1.1, henv.2.2⟩) ?_ ?_
    · intro env t as hf
      exact hf
    · intro _ env henv
      refine ⟨hkept henv.1.1.owned henv.2.1.owned henv.1.2.1 henv.1.2.2, fun p => ?_, henv.2.2⟩
      cases p with
      | iptables => exact henv.1.1
      | ip6tables => exact henv.2.1
    · intro env henv
      exact ⟨hkept henv.1.1.owned henv.2.1 henv.1.2.1 henv.1.2.2, henv.2.2⟩

theorem apply_spec (c : Config) : Triple (fun env => Kept base file applied env ∧ Spare fine (n + 8) env) (apply c)
    (fun _ env => Kept base file applied env ∧ Configured base c env ∧ Spare fine n env)
    (fun env => Kept base file applied env ∧ ¬ fine) := by
  unfold apply
  refine Triple.ite (fun hc => ?_) fun hc => ?_
  · refine families_spec (c := c) (m := 4) (k := 4) (fun hF => ?_) fun hF => ?_
    · unfold demanded
      rw [if_pos hc]
      exact ensureFamily_spec hF _ _ _
    · unfold demanded
      rw [if_pos hc]
      exact ensureFamily_spec hF _ _ _
  · refine Triple.conseq (families_spec (c := c) (n := n + 2) (m := 3) (k := 3) (fun hF => ?_) fun hF => ?_) (fun _ h => h)
      (fun _ env h => ⟨h.1, h.2.1, fun hfine => ?_⟩) fun _ h => h
    · unfold demanded
      rw [if_neg hc]
      exact clearFamily_spec hF
    · unfold demanded
      rw [if_neg hc]
      exact clearFamily_spec hF
    · have hspare := h.2.2 hfine
      exact ⟨by omega, hspare.2⟩

/-- The application is noted with its result; a result without error leaves what the
    configuration demands. -/
theorem tryApply_spec (base : Program → List Rule) (file : Option String) (applied : List (Config × Bool)) (fine : Prop) (n : Nat)
    (c : Config) : Triple (fun env => Kept base file applied env ∧ Spare fine (n + 8) env) (tryApply c)
    (fun r env => Kept base file (applied ++ [(c, r.toBool)]) env ∧ (r.toBool = true → Configured base c env ∧ Spare fine n env) ∧
      (r.toBool = false → ¬ fine))
    (fun env => Kept base file applied env ∧ ¬ fine) := by
  unfold tryApply
  refine Triple.bind (Triple.catching (V := fun r env => Kept base file applied env ∧
    (r.toBool = true → Configured base c env ∧ Spare fine n env) ∧ (r.toBool = false → ¬ fine)) (apply_spec c) ?_ ?_) fun r => ?_
  · intro _ env henv
    exact ⟨henv.1, fun _ => henv.2, fun h => by cases h⟩
  · intro _ env henv
    exact ⟨henv.1, fun h => (by cases h), fun _ => henv.2⟩
  · refine Triple.bind (Q := fun _ env => Kept base file (applied ++ [(c, r.toBool)]) env ∧
      (r.toBool = true → Configured base c env ∧ Spare fine n env) ∧ (r.toBool = false → ¬ fine)) (Triple.change fun env henv => ?_) fun _ => ?_
    · exact ⟨⟨henv.1.1, henv.1.2.1, congrArg (· ++ [(c, r.toBool)]) henv.1.2.2⟩, henv.2⟩
    · exact Triple.pure r fun _ henv => henv

/-! ## Update and reconcile -/

variable {S : Serde} {s : State}

/-- The reader of the file understands what was written. -/
def Serde.RoundTrip (S : Serde) : Prop := ∀ c, S.fromText (S.toText c) = some c

theorem validate_eq {c c' : Config} (h : c.validate = .ok c') : c'.validate = .ok c' := by
  have hsame : c = c' := by
    unfold Config.validate at h
    split at h
    · cases h
    · split at h
      · cases h
      · exact Except.ok.inj h
  rw [← hsame] at h ⊢
  exact h

theorem patched_valid {c next : Config} {patch : Json} (h : c.patched patch = .ok next) : next.validate = .ok next := by
  have hbind : ∀ {α : Type} {x : Except String α} {f : α → Except String Config}, (∀ a, f a = .ok next → next.validate = .ok next) →
      x >>= f = .ok next → next.validate = .ok next := by
    intro α x f hf hx
    cases x with
    | error e => cases hx
    | ok a => exact hf a hx
  unfold Config.patched at h
  exact hbind (fun _ => hbind fun _ => hbind fun _ h => validate_eq h) h

theorem load_save (hS : S.RoundTrip) {c : Config} (hc : c.validate = .ok c) : S.load (some (S.toText c)) = c := by
  unfold Serde.load
  rw [Option.bind_some, hS c, Option.bind_some, hc]
  rfl

/-- `active` is that the remembered configuration is enabled and was applied last, without
    error. -/
def Active (s : State) (applied : List (Config × Bool)) : Prop :=
  s.active = true ↔ s.config.enabled = true ∧ applied.getLast? = some (s.config, true)

theorem active_after (c : Config) (ok : Bool) (applied : List (Config × Bool)) (error : Option String) :
    Active ⟨c, c.enabled && ok, error⟩ (applied ++ [(c, ok)]) := by
  unfold Active
  rw [List.getLast?_append, List.getLast?_singleton, Option.some_or, Bool.and_eq_true]
  simp

theorem save_spec {c : Config} : Triple (fun env => Kept base file applied env ∧ Configured base c env) (S.save c)
    (fun _ env => Kept base (some (S.toText c)) applied env ∧ Configured base c env)
    (fun env => Kept base file applied env) := by
  unfold Serde.save
  refine Triple.bind (Q := fun _ env => (Kept base file applied env ∧ Configured base c env) ∧ env.temp = some (S.toText c)) ?_ fun _ => ?_
  · refine statement_spec (fun env henv _ => henv.1) (fun env a rest henv _ _ => ⟨_, rfl, henv, rfl⟩) fun env a rest henv _ _ => henv.1
  · refine statement_spec (fun env henv _ => henv.1.1) (fun env a rest henv _ _ => ?_) fun env a rest henv _ _ => henv.1.1
    refine ⟨{ env with file := some (S.toText c), temp := none }, ?_, ⟨henv.1.1.1, rfl, henv.1.1.2.2⟩, henv.1.2⟩
    show env.temp.map _ = _
    rw [henv.2]
    rfl

theorem catching_save_spec (base : Program → List Rule) (file : Option String) (applied : List (Config × Bool)) (S : Serde) (c : Config) :
    Triple (fun env => Kept base file applied env ∧ Configured base c env)
    (catching (S.save c))
    (fun saved env =>
      match saved with
      | .ok () => Kept base (some (S.toText c)) applied env ∧ Configured base c env
      | .error _ => Kept base file applied env)
    (fun env => Kept base file applied env) :=
  Triple.catching save_spec (fun _ _ h => h) fun _ _ h => h

/-- What an update leaves: the patched configuration and its rules, or, if the previous one's
    were applied again, these and the file as it was. -/
def Updated (S : Serde) (base : Program → List Rule) (patch : Json) (s : State) (file : Option String)
    (r : State × Except UpdateError Unit) (env : Env) : Prop :=
  match r.2 with
  | .ok () => s.config.patched patch = .ok r.1.config ∧ Configured base r.1.config env ∧ S.load env.file = r.1.config
  | .error (.apply _) => r.1.config = s.config ∧ env.file = file ∧
      (env.applied.getLast? = some (s.config, true) → Configured base s.config env)
  | .error (.invalid _) => r.1 = s ∧ env.file = file

/-- What every operation keeps: the tables are owned, the file is the remembered
    configuration. -/
def Settled (S : Serde) (base : Program → List Rule) (s : State) (env : Env) : Prop :=
  (∀ p, Owned (base p) (env.tables p)) ∧ S.load env.file = s.config ∧ Active s env.applied

theorem rollBack_spec (hload : S.load file = s.config) (patch : Json) (error : String) :
    Triple (fun env => Kept base file applied env) (rollBack s error)
      (fun r env => Settled S base r.1 env ∧ Updated S base patch s file r env)
      (fun env => ∀ p, Owned (base p) (env.tables p)) := by
  unfold rollBack
  refine Triple.bind (Triple.conseq (tryApply_spec base file applied False 0 s.config)
    (fun env henv => ⟨henv, False.elim⟩) (fun _ _ h => h) fun env henv => henv.1.1) fun r => ?_
  refine Triple.pure _ fun env henv => ?_
  obtain ⟨⟨howned, hfile, happlied⟩, hok, -⟩ := henv
  refine ⟨⟨howned, by rw [hfile]; exact hload, ?_⟩, rfl, hfile, fun hlast => ?_⟩
  · rw [happlied]
    exact active_after s.config r.toBool applied _
  · rw [happlied, List.getLast?_append, List.getLast?_singleton, Option.some_or] at hlast
    exact (hok (Prod.mk.inj (Option.some.inj hlast)).2).1

theorem update_spec (hS : S.RoundTrip) (hload : S.load file = s.config) (hactive : Active s applied) (patch : Json) :
    Triple (fun env => Kept base file applied env) (update S patch s)
      (fun r env => Settled S base r.1 env ∧ Updated S base patch s file r env)
      (fun env => ∀ p, Owned (base p) (env.tables p)) := by
  unfold update
  cases hpatched : s.config.patched patch with
  | error e =>
    refine Triple.pure _ fun env henv => ⟨⟨henv.1, by rw [henv.2.1]; exact hload, by rw [henv.2.2]; exact hactive⟩, rfl, henv.2.1⟩
  | ok next =>
    refine Triple.bind (Triple.conseq (tryApply_spec base file applied False 0 next)
      (fun env henv => ⟨henv, False.elim⟩) (fun _ _ h => h) fun env henv => henv.1.1) fun r => ?_
    cases r with
    | error e => exact Triple.conseq (rollBack_spec hload patch e) (fun env henv => henv.1) (fun _ _ h => h) fun _ h => h
    | ok _ =>
      refine Triple.bind (Triple.conseq (catching_save_spec base file (applied ++ [(next, true)]) S next)
        (fun env henv => ⟨henv.1, (henv.2.1 rfl).1⟩) (fun _ _ h => h) fun env henv => henv.1) fun saved => ?_
      cases saved with
      | error e => exact rollBack_spec hload patch e
      | ok _ =>
        refine Triple.pure _ fun env henv => ?_
        obtain ⟨⟨howned, hfile, happlied⟩, hconfigured⟩ := henv
        have hnext : S.load env.file = next := by
          rw [hfile]
          exact load_save hS (patched_valid hpatched)
        refine ⟨⟨howned, hnext, ?_⟩, hpatched, hconfigured, hnext⟩
        rw [happlied]
        have hafter := active_after next true applied none
        rw [Bool.and_true] at hafter
        exact hafter

theorem reconcile_spec (fine : Prop) (hload : S.load file = s.config) :
    Triple (fun env => Kept base file applied env ∧ Spare fine 8 env) (reconcile s)
      (fun s' env => Settled S base s' env ∧ s'.config = s.config ∧ env.file = file ∧
        (env.applied.getLast? = some (s.config, true) → Configured base s.config env) ∧
        (fine → env.applied.getLast? = some (s.config, true)))
      (fun env => (∀ p, Owned (base p) (env.tables p)) ∧ ¬ fine) := by
  unfold reconcile
  refine Triple.bind (Triple.conseq (tryApply_spec base file applied fine 0 s.config)
    (fun env henv => henv) (fun _ _ h => h) fun env henv => ⟨henv.1.1, henv.2⟩) fun r => ?_
  have hlast : ∀ env, Kept base file (applied ++ [(s.config, r.toBool)]) env → env.applied.getLast? = some (s.config, r.toBool) := by
    intro env henv
    rw [henv.2.2, List.getLast?_append, List.getLast?_singleton, Option.some_or]
  cases r with
  | ok _ =>
    refine Triple.pure _ fun env henv => ?_
    have henvlast := hlast env henv.1
    obtain ⟨⟨howned, hfile, happlied⟩, hok, -⟩ := henv
    refine ⟨⟨howned, by rw [hfile]; exact hload, ?_⟩, rfl, hfile, fun _ => (hok rfl).1, fun _ => henvlast⟩
    rw [happlied]
    have hafter := active_after s.config true applied none
    rw [Bool.and_true] at hafter
    exact hafter
  | error e =>
    refine Triple.pure _ fun env henv => ?_
    have henvlast := hlast env henv.1
    obtain ⟨⟨howned, hfile, happlied⟩, -, hbad⟩ := henv
    refine ⟨⟨howned, by rw [hfile]; exact hload, ?_⟩, rfl, hfile, fun h => ?_, fun hfine => absurd hfine (hbad rfl)⟩
    · rw [happlied]
      have hafter := active_after s.config false applied (some e)
      rw [Bool.and_false] at hafter
      exact hafter
    · rw [henvlast] at h
      cases h

end Manager

/-! ## Runs -/

/-- No agent has run yet. -/
structure Clean (w : World) : Prop where
  chain : ∀ p, (w.env.tables p).chain = none
  jumps : ∀ p, jump ∉ (w.env.tables p).postrouting
  manager : w.manager = none

/-- What every run keeps. -/
structure Inv (S : Serde) (base : Program → List Rule) (w : World) : Prop where
  owned : ∀ p, Owned (base p) (w.env.tables p)
  settled : ∀ s, w.manager = some s → Settled S base s w.env

variable {S : Serde} {base : Program → List Rule}

theorem inv_leave {α : Type} {state : α → State} {r : Outcome α × Env}
    (h : After (fun a env => Settled S base (state a) env) (fun env => ∀ p, Owned (base p) (env.tables p)) r) :
    Inv S base (leave state r) := by
  obtain ⟨o, env⟩ := r
  cases o with
  | done a =>
    refine ⟨h.1, fun s hs => ?_⟩
    cases hs
    exact h
  | failed e => exact ⟨h, fun s hs => by cases hs⟩
  | killed => exact ⟨h, fun s hs => by cases hs⟩

theorem kept_given {w : World} (h : Inv S base w) (attempts : List Attempt) :
    Kept base w.env.file w.env.applied (w.env.given attempts) := ⟨h.owned, rfl, rfl⟩

theorem inv_reconcile {w : World} (h : Inv S base w) {s : State} (hs : w.manager = some s) (attempts : List Attempt) :
    Inv S base (leave id (reconcile s (w.env.given attempts))) := by
  have hspec := reconcile_spec False (h.settled s hs).2.1 (w.env.given attempts) ⟨kept_given h attempts, False.elim⟩
  exact inv_leave (hspec.imp (fun _ _ h => h.1) fun _ h => h.1)

theorem inv_step (hS : S.RoundTrip) {w : World} (e : Event) (h : Inv S base w) : Inv S base (step S w e) := by
  cases e with
  | start =>
    refine ⟨h.owned, fun s hs => ?_⟩
    cases hs
    refine ⟨h.owned, rfl, ?_⟩
    simp [Active, step]
  | reconcile attempts =>
    cases hs : w.manager with
    | none =>
      simp only [step, hs]
      exact h
    | some s =>
      simp only [step, hs]
      exact inv_reconcile h hs attempts
  | wan attempts =>
    cases hs : w.manager with
    | none =>
      simp only [step, hs]
      exact h
    | some s =>
      simp only [step, hs]
      split
      · exact inv_reconcile h hs attempts
      · exact h
  | update patch attempts =>
    cases hs : w.manager with
    | none =>
      simp only [step, hs]
      exact h
    | some s =>
      simp only [step, hs]
      obtain ⟨-, hload, hactive⟩ := h.settled s hs
      have hspec := update_spec hS hload hactive patch (w.env.given attempts) (kept_given h attempts)
      exact inv_leave (hspec.imp (fun _ _ h => h.1) fun _ h => h)

theorem inv_exec (hS : S.RoundTrip) {w : World} (hw : Clean w) (es : List Event) :
    Inv S (fun p => (w.env.tables p).postrouting) (exec (step S) w es) := by
  refine invariant (fun s e hs => inv_step hS e hs) ⟨fun p => ?_, fun s hs => ?_⟩
  · refine ⟨?_, fun _ => hw.jumps p, ?_⟩
    · rw [List.count_eq_zero.mpr (hw.jumps p)]
      exact Nat.zero_le 1
    · refine List.filter_eq_self.mpr fun r hr => ?_
      exact bne_iff_ne.mpr fun he => hw.jumps p (he ▸ hr)
  · rw [hw.manager] at hs
    cases hs

/-- Wherever earlier processes ended, `active` says whether the rules of the remembered, enabled
    configuration were applied last and without error, and whichever commands fail an update or
    reconcile that succeeds leaves the rules of the configuration remembered and saved, an update
    rolled back those of the previous one and the file. Commands that do not fail suffice. -/
theorem rules_follow_configuration (hS : S.RoundTrip) {w : World} (hw : Clean w) (es : List Event) {s : State}
    (hs : (exec (step S) w es).manager = some s) :
    let now := (exec (step S) w es).env
    let base := fun p => (w.env.tables p).postrouting
    Active s now.applied ∧ ∀ attempts,
      (∀ patch, After (fun r env => Settled S base r.1 env ∧ Updated S base patch s now.file r env) (fun _ => True)
        (update S patch s (now.given attempts))) ∧
      After (fun s' env => Settled S base s' env ∧ s'.config = s.config ∧
        (env.applied.getLast? = some (s.config, true) → Configured base s.config env)) (fun _ => True)
        (reconcile s (now.given attempts)) ∧
      (8 ≤ attempts.length → (∀ a ∈ attempts, a.allowed = true) →
        ∃ s' env, reconcile s (now.given attempts) = (.done s', env) ∧ env.applied.getLast? = some (s.config, true)) := by
  have hinv := inv_exec hS hw es
  obtain ⟨-, hload, hactive⟩ := hinv.settled s hs
  refine ⟨hactive, fun attempts => ⟨fun patch => ?_, ?_, fun hlen hall => ?_⟩⟩
  · have hspec := update_spec hS hload hactive patch (_) (kept_given hinv attempts)
    exact hspec.imp (fun _ _ h => h) fun _ _ => trivial
  · have hspec := reconcile_spec False hload _ ⟨kept_given hinv attempts, False.elim⟩
    exact hspec.imp (fun _ _ h => ⟨h.1, h.2.1, h.2.2.2.1⟩) fun _ _ => trivial
  · have hspec := reconcile_spec True hload _ ⟨kept_given hinv attempts, fun _ => ⟨hlen, hall⟩⟩
    cases hr : reconcile s ((exec (step S) w es).env.given attempts) with
    | mk o env =>
      rw [hr] at hspec
      cases o with
      | done s' => exact ⟨s', env, rfl, hspec.2.2.2.2 trivial⟩
      | failed e => exact absurd trivial hspec.2
      | killed => exact absurd trivial hspec.2

/-! ## A file of that form -/

def boolText (b : Bool) : List Char := if b then ['t', 'r', 'u', 'e'] else ['f', 'a', 'l', 's', 'e']

/-- The text `serde_json` writes for a configuration. -/
def jsonChars (c : Config) : List Char :=
  "\x7b\"enabled\":".toList ++ (boolText c.enabled ++ (",\"ipv4_ttl\":".toList ++ ((toString c.ipv4Ttl.toNat).toList ++ [','] ++
    ("\"ipv6_hop_limit\":".toList ++ ((toString c.ipv6HopLimit.toNat).toList ++ ['\x7d'])))))

def bytes : List UInt8 := (List.range 256).map UInt8.ofNat

def configs : List Config :=
  [false, true].flatMap fun enabled => bytes.flatMap fun ttl => bytes.map fun hop => ⟨enabled, ttl, hop⟩

/-- Reads such a text and no other. -/
def jsonText : Serde where
  toText c := String.ofList (jsonChars c)
  fromText text := configs.find? fun c => jsonChars c = text.toList

theorem jsonChars_inj {c d : Config} (h : jsonChars c = jsonChars d) : c = d := by
  have hbool : c.enabled = d.enabled := by
    have htail := List.append_cancel_left h
    cases hc : c.enabled <;> cases hd : d.enabled
    · rfl
    · rw [hc, hd] at htail
      exact absurd (List.cons.inj htail).1 (by decide)
    · rw [hc, hd] at htail
      exact absurd (List.cons.inj htail).1 (by decide)
    · rfl
  have hrest := List.append_cancel_left h
  rw [hbool] at hrest
  have hnumbers := congrArg (Split.splitOnce [',']) (List.append_cancel_left (List.append_cancel_left hrest))
  rw [Split.splitOnce_of_not_mem (Decimal.not_mem_toString rfl _), Split.splitOnce_of_not_mem (Decimal.not_mem_toString rfl _)] at hnumbers
  obtain ⟨httl, hhop⟩ := Prod.mk.inj (Option.some.inj hnumbers)
  have hhop := List.append_cancel_right (List.append_cancel_left hhop)
  have h4 := UInt8.toNat_inj.mp (Decimal.toString_inj httl)
  have h6 := UInt8.toNat_inj.mp (Decimal.toString_inj hhop)
  cases c
  cases d
  simp_all

theorem mem_bytes (b : UInt8) : b ∈ bytes :=
  List.mem_map.mpr ⟨b.toNat, List.mem_range.mpr b.toNat_lt, UInt8.ofNat_toNat⟩

theorem mem_configs (c : Config) : c ∈ configs := by
  refine List.mem_flatMap.mpr ⟨c.enabled, ?_, List.mem_flatMap.mpr ⟨c.ipv4Ttl, mem_bytes _, List.mem_map.mpr ⟨c.ipv6HopLimit, mem_bytes _, rfl⟩⟩⟩
  cases c.enabled <;> simp

theorem jsonText_roundTrip : jsonText.RoundTrip := by
  intro c
  show configs.find? (fun d => jsonChars d = (String.ofList (jsonChars c)).toList) = some c
  rw [String.toList_ofList]
  cases hfind : configs.find? fun d => jsonChars d = jsonChars c with
  | none => exact absurd (decide_eq_true rfl) (List.find?_eq_none.mp hfind c (mem_configs c))
  | some d =>
    have hd := List.find?_some hfind
    exact congrArg some (jsonChars_inj (of_decide_eq_true hd))

def emptyRouter : World := ⟨⟨fun _ => ⟨none, []⟩, none, none, [], []⟩, none⟩

def enabling : Json := .obj [("enabled", .bool true)]

/-- From a router without rules the first enabling update leaves both families' rules. -/
theorem enabling_update : ∃ env, update jsonText enabling ⟨{}, false, none⟩ ((step jsonText emptyRouter .start).env.given
    (List.replicate 10 {})) = (.done (⟨⟨true, 64, 64⟩, true, none⟩, .ok ()), env) ∧
    Configured (fun _ => []) ⟨true, 64, 64⟩ env ∧ jsonText.load env.file = ⟨true, 64, 64⟩ := by
  have hclean : Clean emptyRouter := ⟨fun _ => rfl, fun _ => List.not_mem_nil, rfl⟩
  have hfollow := (rules_follow_configuration jsonText_roundTrip hclean [.start] (s := ⟨{}, false, none⟩) rfl).2
    (List.replicate 10 {})
  exact ⟨_, rfl, (hfollow.1 enabling).2.2⟩

end OpenU60.Ttl
