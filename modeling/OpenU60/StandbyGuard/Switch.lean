/-
  OpenU60.StandbyGuard.Switch — the firmware's Wi-Fi switch, step by step (`zte-agent/src/standby_guard.rs`: `Step`,
  `switch_wifi_with`, `run_step`).

  Whether a power change has come by a check, and what becomes of a step's process, is up to an environment with a state of
  its own. A process that is killed may have done what it is for.

  - `switch_settles`: a set that succeeds is committed or followed by a revert; once a power change is seen nothing but
    the revert runs; the steps keep their order; and Ok says that all of it is done.
  - `killed_set_stays`: a set whose process dies after its effect is left as it is.
-/

import OpenU60.Lib.Text

namespace OpenU60.StandbyGuard.Switch

open OpenU60.Lib

inductive Step where
  | set (on : Bool)
  | commit
  | revert
  | reload
  deriving DecidableEq

def Step.argv : Step → List String
  | set false => ["uci", "set", "wireless.zte_mbb.wifi_onoff=0"]
  | set true => ["uci", "set", "wireless.zte_mbb.wifi_onoff=1"]
  | commit => ["uci", "commit", "wireless"]
  | revert => ["uci", "revert", "wireless.zte_mbb.wifi_onoff"]
  | reload => ["ubus", "call", "zwrt_wlan", "reload"]

/-- What becomes of a step's process. -/
structure Process where
  /-- Whether it exits with success, and its stderr; or why it cannot be started. -/
  ended : Except String (Bool × String)
  /-- It has done what it is for. -/
  took : Bool
  took_of_success : ∀ stderr, ended = .ok (true, stderr) → took = true

def runStep (step : Step) (p : Process) : Except String Unit :=
  match p.ended with
  | .error e => .error (" ".intercalate step.argv ++ ": " ++ e)
  | .ok (true, _) => .ok ()
  | .ok (false, stderr) => .error (" ".intercalate step.argv ++ " failed: " ++ String.ofList (Text.trim stderr.toList))

/-- What a call sees: the answers of its checks and the steps it runs. -/
inductive Seen where
  | checked (interrupted : Bool)
  | ran (step : Step) (p : Process)

structure Env (σ : Type) where
  interrupted : σ → Bool × σ
  spawn : Step → σ → Process × σ

structure Run (σ : Type) where
  world : σ
  seen : List Seen := []

variable {σ : Type}

namespace Env

def check (env : Env σ) (r : Run σ) : Bool × Run σ :=
  let (interrupted, world) := env.interrupted r.world
  (interrupted, { world, seen := r.seen ++ [.checked interrupted] })

def run (env : Env σ) (step : Step) (r : Run σ) : Except String Unit × Run σ :=
  let (p, world) := env.spawn step r.world
  (runStep step p, { world, seen := r.seen ++ [.ran step p] })

end Env

def switchWifiWith (env : Env σ) (on : Bool) (r : Run σ) : Except String Unit × Run σ :=
  let (interrupted, r) := env.check r
  if interrupted then (.error "a power change came first; nothing changed", r)
  else
    match env.run (.set on) r with
    | (.error e, r) => (.error e, r)
    | (.ok (), r) =>
      let (interrupted, r) := env.check r
      match (if interrupted then (.error "a power change came before the commit", r) else env.run .commit r) with
      | (.error e, r) =>
        match env.run .revert r with
        | (.ok (), r) => (.error (e ++ "; reverted the uncommitted change"), r)
        | (.error revert, r) => (.error (e ++ "; " ++ revert), r)
      | (.ok (), r) =>
        let (interrupted, r) := env.check r
        if interrupted then (.error "a power change came; left the reload to the firmware", r) else env.run .reload r

/-! ## The ways a call goes -/

def Succeeds (step : Step) (p : Process) : Prop := runStep step p = .ok ()

/-- What is seen and whether the answer is Ok. -/
inductive Went (on : Bool) : List Seen → Bool → Prop where
  | stopped : Went on [.checked true] false
  | unset {p : Process} (hset : ¬ Succeeds (.set on) p) : Went on [.checked false, .ran (.set on) p] false
  | cut {p q : Process} (hset : Succeeds (.set on) p) : Went on [.checked false, .ran (.set on) p, .checked true, .ran .revert q] false
  | uncommitted {p q r : Process} (hset : Succeeds (.set on) p) (hcommit : ¬ Succeeds .commit q) :
      Went on [.checked false, .ran (.set on) p, .checked false, .ran .commit q, .ran .revert r] false
  | left {p q : Process} (hset : Succeeds (.set on) p) (hcommit : Succeeds .commit q) :
      Went on [.checked false, .ran (.set on) p, .checked false, .ran .commit q, .checked true] false
  | unloaded {p q r : Process} (hset : Succeeds (.set on) p) (hcommit : Succeeds .commit q) (hreload : ¬ Succeeds .reload r) :
      Went on [.checked false, .ran (.set on) p, .checked false, .ran .commit q, .checked false, .ran .reload r] false
  | done {p q r : Process} (hset : Succeeds (.set on) p) (hcommit : Succeeds .commit q) (hreload : Succeeds .reload r) :
      Went on [.checked false, .ran (.set on) p, .checked false, .ran .commit q, .checked false, .ran .reload r] true

theorem switch_went (env : Env σ) (on : Bool) (world : σ) :
    Went on (switchWifiWith env on { world }).2.seen (switchWifiWith env on { world }).1.isOk := by
  obtain ⟨look, spawn⟩ := env
  unfold switchWifiWith Env.check Env.run
  dsimp only
  generalize look world = first
  obtain ⟨interrupted, w⟩ := first
  cases interrupted with
  | true => exact .stopped
  | false =>
    dsimp only
    rw [if_neg nofun]
    generalize spawn (.set on) w = setting
    obtain ⟨p, w⟩ := setting
    cases hset : runStep (.set on) p with
    | error e => exact .unset (by unfold Succeeds; rw [hset]; exact nofun)
    | ok _ =>
      dsimp only
      generalize look w = second
      obtain ⟨interrupted, w⟩ := second
      cases interrupted with
      | true =>
        dsimp only
        rw [if_pos rfl]
        dsimp only
        cases hrevert : runStep .revert (spawn .revert w).1 with
        | error e => exact .cut hset
        | ok _ => exact .cut hset
      | false =>
        dsimp only
        rw [if_neg nofun]
        generalize spawn .commit w = committing
        obtain ⟨q, w⟩ := committing
        cases hcommit : runStep .commit q with
        | error e =>
          dsimp only
          have hfailed : ¬ Succeeds .commit q := by
            unfold Succeeds
            rw [hcommit]
            exact nofun
          cases hrevert : runStep .revert (spawn .revert w).1 with
          | error e => exact .uncommitted hset hfailed
          | ok _ => exact .uncommitted hset hfailed
        | ok _ =>
          dsimp only
          generalize look w = third
          obtain ⟨interrupted, w⟩ := third
          cases interrupted with
          | true => exact .left hset hcommit
          | false =>
            dsimp only
            rw [if_neg nofun]
            cases hreload : runStep .reload (spawn .reload w).1 with
            | error e => exact .unloaded hset hcommit (by unfold Succeeds; rw [hreload]; exact nofun)
            | ok _ => exact .done hset hcommit hreload

/-! ## What it leaves behind -/

def ran (seen : List Seen) : List Step :=
  seen.filterMap fun
    | .ran step _ => some step
    | .checked _ => none

/-- A set that counts is committed or reverted later; a power change once seen stops all but the revert. -/
structure Settles (counts : Process → Prop) (on : Bool) (seen : List Seen) (ok : Bool) : Prop where
  settled : ∀ p, .ran (.set on) p ∈ seen → counts p →
    (∃ q, .ran .commit q ∈ seen ∧ Succeeds .commit q) ∨ ∃ q, [.ran (.set on) p, .ran .revert q].Sublist seen
  yields : ∀ step p, [.checked true, .ran step p].Sublist seen → step = .revert
  ordered : (ran seen).Sublist [.set on, .commit, .revert, .reload]
  ok : ok = true ↔ .checked true ∉ seen ∧ ∀ step ∈ [.set on, .commit, .reload], ∃ p, .ran step p ∈ seen ∧ Succeeds step p

theorem Went.settles {on ok : Bool} {seen : List Seen} (h : Went on seen ok) : Settles (Succeeds (.set on)) on seen ok := by
  refine ⟨?_, ?_, ?_, ?_⟩
  · intro p hp hset
    cases h <;> simp_all [List.cons_sublist_cons']
  · intro step p hsub
    cases h <;> simp_all [List.cons_sublist_cons']
  · cases h <;> simp [ran]
  · cases h <;> simp_all

/-- A set that fails ends the call. -/
theorem Went.unset_ends {on ok : Bool} {seen : List Seen} (h : Went on seen ok) {p : Process} (hp : .ran (.set on) p ∈ seen)
    (hset : ¬ Succeeds (.set on) p) : ran seen = [.set on] := by
  cases h with
  | unset hset => rfl
  | _ => simp_all

theorem switch_settles (env : Env σ) (on : Bool) (world : σ) :
    let (answer, r) := switchWifiWith env on { world }
    Settles (Succeeds (.set on)) on r.seen answer.isOk ∧
      ∀ p, .ran (.set on) p ∈ r.seen → ¬ Succeeds (.set on) p → ran r.seen = [.set on] :=
  ⟨(switch_went env on world).settles, fun _ => (switch_went env on world).unset_ends⟩

/-- No power changes, and the process of the set is killed after it has written. -/
def killing : Env Unit where
  interrupted _ := (false, ())
  spawn step _ := ({ ended := .ok (step ≠ .set false, ""), took := true, took_of_success := fun _ _ => rfl }, ())

theorem killed_set_stays :
    ¬ Settles (fun p => p.took = true) false (switchWifiWith killing false { world := () }).2.seen
      (switchWifiWith killing false { world := () }).1.isOk := by
  intro h
  rcases h.settled (killing.spawn (.set false) ()).1 (.tail _ (.head _)) rfl with ⟨q, hq, -⟩ | ⟨q, hq⟩
  · simp [switchWifiWith, Env.check, Env.run, killing, runStep] at hq
  · simp [switchWifiWith, Env.check, Env.run, killing, runStep, List.cons_sublist_cons'] at hq

end OpenU60.StandbyGuard.Switch
