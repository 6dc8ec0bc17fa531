/-
  OpenU60.SmsForward.Rules — the configuration requests: `config_set`, `rules_create`,
  `rules_update`, `rules_delete` and `rules_toggle`.

  A request body is what serde_json makes of it: for the typed requests the parsed
  request or the parser's message, for delete and toggle the JSON value. A reply is its
  status and `{"ok": true, "data": ..}` or `{"ok": false, "error": ..}`. `wr` says
  whether the write of the configuration file lands (its failure is ignored).

  Two handlers break the rule that a refused request changes nothing and an accepted one
  changes the rule it names:
  - `config_set` stores the `enabled` flag before it checks the poll interval, so a
    refused request can switch forwarding on or off, in memory only;
  - `rules_delete` and `rules_toggle` narrow the id to 32 bits, so `2^32 + 1` deletes or
    toggles rule 1, where `rules_update` refuses the number.
  `keeps_config_iff` is the exact condition under which a request keeps it.
-/

import Mathlib
import OpenU60.Lib.Json
import OpenU60.SmsForward.Log

namespace OpenU60.SmsForward

open OpenU60.Lib OpenU60.Lib.FirstMatch

/-- The forwarder's shared state and its two files. -/
structure SmsForwarder where
  revision : Nat
  config : SmsForwardConfig
  state : ForwardState
  configFile : SmsForwardConfig
  stateFile : ForwardState
  deriving DecidableEq

def saveConfig (wr : Bool) (f : SmsForwarder) : SmsForwarder := if wr then { f with configFile := f.config } else f

def saveState (wr : Bool) (f : SmsForwarder) : SmsForwarder := if wr then { f with stateFile := f.state } else f

/-- Save the changed configuration and count the change. -/
def commitConfig (wr : Bool) (f : SmsForwarder) (config : SmsForwardConfig) : SmsForwarder :=
  { saveConfig wr { f with config := config } with revision := f.revision + 1 }

inductive Data where
  | none
  | config (c : SmsForwardConfig)
  | rule (r : ForwardRule)
  deriving DecidableEq

structure Reply where
  status : Nat
  body : Except String Data
  deriving DecidableEq

def Reply.isOk (r : Reply) : Bool := r.body.isOk

/-! ## The requests -/

structure ConfigReq where
  enabled : Option Bool
  pollIntervalSecs : Option Nat
  markReadAfterForward : Option Bool
  deleteAfterForward : Option Bool

structure CreateReq where
  name : String
  enabled : Bool
  filter : SmsFilter
  destination : ForwardDestination

structure UpdateReq where
  id : UInt32
  name : String
  enabled : Bool
  filter : SmsFilter
  destination : ForwardDestination

def configSet (wr : Bool) (f : SmsForwarder) (body : Except String ConfigReq) : SmsForwarder × Reply :=
  match body with
  | .error e => (f, ⟨400, .error ("invalid JSON: " ++ e)⟩)
  | .ok req =>
    -- the shared config is edited field by field, under its lock
    let config := { f.config with enabled := req.enabled.getD f.config.enabled }
    if req.pollIntervalSecs.any (· < 10) then
      ({ f with config := config }, ⟨400, .error "poll_interval_secs must be >= 10"⟩)
    else
      let config := { config with pollIntervalSecs := req.pollIntervalSecs.getD config.pollIntervalSecs }
      let config := { config with markReadAfterForward := req.markReadAfterForward.getD config.markReadAfterForward }
      let config := { config with deleteAfterForward := req.deleteAfterForward.getD config.deleteAfterForward }
      (commitConfig wr f config, ⟨200, .ok (.config config)⟩)

/-- The largest rule id of the rules and of the log. -/
def maxRuleId (rules : List ForwardRule) (log : List ForwardLogEntry) : Nat :=
  (rules.map (·.id.toNat) ++ log.map (·.ruleId.toNat)).foldr max 0

def nextRuleId (rules : List ForwardRule) (log : List ForwardLogEntry) : Option UInt32 :=
  if maxRuleId rules log + 1 < 2 ^ 32 then some (UInt32.ofNat (maxRuleId rules log + 1)) else none

/-- `serial` is the ghost serial of the rule to be made. -/
def rulesCreate (wr : Bool) (serial : Nat) (f : SmsForwarder) (body : Except String CreateReq) : SmsForwarder × Reply :=
  match body with
  | .error e => (f, ⟨400, .error ("invalid JSON: " ++ e)⟩)
  | .ok req =>
    match nextRuleId f.config.rules f.state.log with
    | none => (f, ⟨409, .error "forwarding rule IDs exhausted"⟩)
    | some nextId =>
      let rule : ForwardRule := ⟨nextId, req.name, req.enabled, req.filter, req.destination, serial⟩
      (commitConfig wr f { f.config with rules := f.config.rules ++ [rule] }, ⟨201, .ok (.rule rule)⟩)

/-- Edit the first rule with this id, or answer 404. -/
def editRule (wr : Bool) (f : SmsForwarder) (id : UInt32) (edit : ForwardRule → ForwardRule) : SmsForwarder × Reply :=
  match f.config.rules.find? (·.id == id) with
  | none => (f, ⟨404, .error "rule not found"⟩)
  | some rule =>
    (commitConfig wr f { f.config with rules := updateFirst (·.id == id) edit f.config.rules }, ⟨200, .ok (.rule (edit rule))⟩)

def rulesUpdate (wr : Bool) (f : SmsForwarder) (body : Except String UpdateReq) : SmsForwarder × Reply :=
  match body with
  | .error e => (f, ⟨400, .error ("invalid JSON: " ++ e)⟩)
  | .ok req =>
    editRule wr f req.id fun rule =>
      { rule with name := req.name, enabled := req.enabled, filter := req.filter, destination := req.destination }

def rulesDelete (wr : Bool) (f : SmsForwarder) (body : Option Json) : SmsForwarder × Reply :=
  match body with
  | none => (f, ⟨400, .error "invalid JSON"⟩)
  | some parsed =>
    match (parsed.get "id").asU64 with
    | none => (f, ⟨400, .error "missing 'id' field"⟩)
    | some id =>
      -- `id as u32`
      let id := UInt32.ofNat id
      let rules := f.config.rules.filter (·.id != id)
      if rules.length = f.config.rules.length then (f, ⟨404, .error "rule not found"⟩)
      else (commitConfig wr f { f.config with rules := rules }, ⟨200, .ok .none⟩)

def rulesToggle (wr : Bool) (f : SmsForwarder) (body : Option Json) : SmsForwarder × Reply :=
  match body with
  | none => (f, ⟨400, .error "invalid JSON"⟩)
  | some parsed =>
    match (parsed.get "id").asU64 with
    | none => (f, ⟨400, .error "missing 'id' field"⟩)
    | some id =>
      match (parsed.get "enabled").asBool with
      | none => (f, ⟨400, .error "missing 'enabled' field"⟩)
      | some enabled => editRule wr f (UInt32.ofNat id) fun rule => { rule with enabled := enabled }

inductive Request where
  | configSet (body : Except String ConfigReq)
  | rulesCreate (body : Except String CreateReq)
  | rulesUpdate (body : Except String UpdateReq)
  | rulesDelete (body : Option Json)
  | rulesToggle (body : Option Json)

def handle (wr : Bool) (serial : Nat) (f : SmsForwarder) : Request → SmsForwarder × Reply
  | .configSet body => configSet wr f body
  | .rulesCreate body => rulesCreate wr serial f body
  | .rulesUpdate body => rulesUpdate wr f body
  | .rulesDelete body => rulesDelete wr f body
  | .rulesToggle body => rulesToggle wr f body

/-! ## What a handler does to the rest of the forwarder -/

@[simp] theorem commitConfig_config (wr : Bool) (f : SmsForwarder) (c : SmsForwardConfig) :
    (commitConfig wr f c).config = c := by
  cases wr <;> rfl

@[simp] theorem commitConfig_state (wr : Bool) (f : SmsForwarder) (c : SmsForwardConfig) :
    (commitConfig wr f c).state = f.state := by
  cases wr <;> rfl

@[simp] theorem commitConfig_stateFile (wr : Bool) (f : SmsForwarder) (c : SmsForwardConfig) :
    (commitConfig wr f c).stateFile = f.stateFile := by
  cases wr <;> rfl

theorem editRule_state (wr : Bool) (f : SmsForwarder) (id : UInt32) (edit : ForwardRule → ForwardRule) :
    (editRule wr f id edit).1.state = f.state ∧ (editRule wr f id edit).1.stateFile = f.stateFile := by
  unfold editRule
  split <;> simp

/-- No configuration request touches the log or the watermark. -/
theorem handle_state (wr : Bool) (serial : Nat) (f : SmsForwarder) (req : Request) :
    (handle wr serial f req).1.state = f.state ∧ (handle wr serial f req).1.stateFile = f.stateFile := by
  cases req with
  | configSet body =>
    simp only [handle, configSet]
    split
    · exact ⟨rfl, rfl⟩
    · split <;> simp
  | rulesCreate body =>
    simp only [handle, rulesCreate]
    split
    · exact ⟨rfl, rfl⟩
    · split <;> simp
  | rulesUpdate body =>
    simp only [handle, rulesUpdate]
    split
    · exact ⟨rfl, rfl⟩
    · exact editRule_state ..
  | rulesDelete body =>
    simp only [handle, rulesDelete]
    split
    · exact ⟨rfl, rfl⟩
    · split
      · exact ⟨rfl, rfl⟩
      · split <;> simp
  | rulesToggle body =>
    simp only [handle, rulesToggle]
    split
    · exact ⟨rfl, rfl⟩
    · split
      · exact ⟨rfl, rfl⟩
      · split
        · exact ⟨rfl, rfl⟩
        · exact editRule_state ..

/-! ## Refused requests change nothing, accepted ones the rule they name -/

/-- The configuration a request must leave alone: in memory, on disk, and the watermark. -/
def SameStored (f f' : SmsForwarder) : Prop :=
  f'.config = f.config ∧ f'.configFile = f.configFile ∧ f'.state.lastForwardedId = f.state.lastForwardedId

/-- One rule whose id is the integer `n` is edited, and nothing else. -/
def EditsRule (n : Int) (edit : ForwardRule → ForwardRule) (f f' : SmsForwarder) : Prop :=
  ∃ l₁ r l₂, f.config.rules = l₁ ++ r :: l₂ ∧ (r.id.toNat : Int) = n ∧
    f'.config = { f.config with rules := l₁ ++ edit r :: l₂ }

/-- A rule whose id is the integer `n` is taken out, and no rule with another id. -/
def RemovesRule (n : Int) (f f' : SmsForwarder) : Prop :=
  (∃ r ∈ f.config.rules, (r.id.toNat : Int) = n) ∧
    f'.config = { f.config with rules := f.config.rules.filter fun r => (r.id.toNat : Int) != n }

/-- What an accepted delete, toggle or update does: to the rule whose id is the integer
    of the request, unbounded. -/
def NamedRuleOnly (f f' : SmsForwarder) : Request → Prop
  | .rulesUpdate (.ok req) =>
    EditsRule req.id.toNat (fun r =>
      { r with name := req.name, enabled := req.enabled, filter := req.filter, destination := req.destination }) f f'
  | .rulesDelete (some v) => ∃ n, v.get "id" = .int n ∧ RemovesRule n f f'
  | .rulesToggle (some v) =>
    ∃ n b, v.get "id" = .int n ∧ v.get "enabled" = .bool b ∧ EditsRule n (fun r => { r with enabled := b }) f f'
  | _ => True

def KeepsConfig (wr : Bool) (serial : Nat) (f : SmsForwarder) (req : Request) : Prop :=
  let r := handle wr serial f req
  (r.2.isOk = false → SameStored f r.1) ∧ (r.2.isOk = true → NamedRuleOnly f r.1 req)

/-- The id fits 32 bits, or no rule has the number its low 32 bits make. -/
def IdSound (f : SmsForwarder) (n : Nat) : Prop := n < 2 ^ 32 ∨ ∀ r ∈ f.config.rules, r.id.toNat ≠ n % 2 ^ 32

/-- The requests that keep the configuration. -/
def Sound (f : SmsForwarder) : Request → Prop
  | .configSet (.ok req) => req.pollIntervalSecs.any (· < 10) = true → req.enabled.getD f.config.enabled = f.config.enabled
  | .rulesDelete (some v) => ∀ n, (v.get "id").asU64 = some n → IdSound f n
  | .rulesToggle (some v) =>
    ∀ n b, (v.get "id").asU64 = some n → (v.get "enabled").asBool = some b → IdSound f n
  | _ => True

theorem toNat_ofNat_u32 (n : Nat) : (UInt32.ofNat n).toNat = n % 2 ^ 32 := UInt32.toNat_ofNat'

theorem id_eq_iff (r : ForwardRule) (n : Nat) : r.id = UInt32.ofNat n ↔ r.id.toNat = n % 2 ^ 32 := by
  rw [← UInt32.toNat_inj, toNat_ofNat_u32]

/-- With a sound id, the rules the narrowed id picks are those with the integer's. -/
theorem narrowed_eq {f : SmsForwarder} {n : Nat} (h : IdSound f n) :
    ∀ r ∈ f.config.rules, r.id = UInt32.ofNat n ↔ r.id.toNat = n := by
  intro r hr
  rw [id_eq_iff]
  rcases h with h | h
  · rw [Nat.mod_eq_of_lt h]
  · have hlt := r.id.toNat_lt
    refine ⟨fun e => absurd e (h r hr), fun e => absurd ?_ (h r hr)⟩
    omega

theorem not_idSound {f : SmsForwarder} {n : Nat} (h : ¬IdSound f n) :
    2 ^ 32 ≤ n ∧ ∃ r ∈ f.config.rules, r.id = UInt32.ofNat n := by
  simp only [IdSound, not_or, not_forall, not_not] at h
  obtain ⟨hn, r, hr, he⟩ := h
  exact ⟨by omega, r, hr, (id_eq_iff r n).mpr he⟩

theorem asBool_eq {v : Json} {b : Bool} (h : v.asBool = some b) : v = .bool b := by
  cases v <;> simp_all [Json.asBool]

/-- `edit_rule` is refused and changes nothing, or edits the first rule with the id. -/
theorem editRule_cases (wr : Bool) (f : SmsForwarder) (id : UInt32) (edit : ForwardRule → ForwardRule) :
    (∃ l₁ r l₂, f.config.rules = l₁ ++ r :: l₂ ∧ r.id = id ∧ (editRule wr f id edit).2.isOk = true ∧
        (editRule wr f id edit).1.config = { f.config with rules := l₁ ++ edit r :: l₂ }) ∨
      ((∀ r ∈ f.config.rules, r.id ≠ id) ∧ (editRule wr f id edit).2.isOk = false ∧ (editRule wr f id edit).1 = f) := by
  unfold editRule
  cases hf : f.config.rules.find? (·.id == id) with
  | none =>
    right
    exact ⟨fun r hr he => by simpa [he] using List.find?_eq_none.mp hf r hr, rfl, rfl⟩
  | some r =>
    left
    obtain ⟨l₁, l₂, hl, -, hr, hu⟩ := updateFirst_split hf
    exact ⟨l₁, r, l₂, hl, by simpa using hr, rfl, by simp [hu]⟩

theorem editRule_keeps (wr : Bool) (f : SmsForwarder) (id : UInt32) (edit : ForwardRule → ForwardRule) (n : Int)
    (hid : ∀ r ∈ f.config.rules, r.id = id → (r.id.toNat : Int) = n) :
    ((editRule wr f id edit).2.isOk = false → SameStored f (editRule wr f id edit).1) ∧
      ((editRule wr f id edit).2.isOk = true → EditsRule n edit f (editRule wr f id edit).1) := by
  rcases editRule_cases wr f id edit with ⟨l₁, r, l₂, hl, hr, hok, hc⟩ | ⟨-, hok, hsame⟩
  · have hmem : r ∈ f.config.rules := hl ▸ List.mem_append_right _ (List.mem_cons_self ..)
    exact ⟨fun h => by simp [hok] at h, fun _ => ⟨l₁, r, l₂, hl, hid r hmem hr, hc⟩⟩
  · exact ⟨fun _ => by rw [hsame]; exact ⟨rfl, rfl, rfl⟩, fun h => by simp [hok] at h⟩

theorem configSet_keeps_iff (wr : Bool) (f : SmsForwarder) (req : ConfigReq) :
    ((configSet wr f (.ok req)).2.isOk = false → SameStored f (configSet wr f (.ok req)).1) ↔
      (req.pollIntervalSecs.any (· < 10) = true → req.enabled.getD f.config.enabled = f.config.enabled) := by
  by_cases hp : req.pollIntervalSecs.any (· < 10) = true
  · simp only [configSet, hp, if_true, Reply.isOk, Except.isOk, Except.toBool, SameStored, and_true, forall_const]
    constructor
    · intro h; exact congrArg SmsForwardConfig.enabled h
    · intro h; rw [h]
  · simp [configSet, hp, Reply.isOk, Except.isOk, Except.toBool]

theorem rulesDelete_cases (wr : Bool) (f : SmsForwarder) (v : Json) {n : Nat} (hn : (v.get "id").asU64 = some n) :
    ((∃ r ∈ f.config.rules, r.id = UInt32.ofNat n) ∧ (rulesDelete wr f (some v)).2.isOk = true ∧
        (rulesDelete wr f (some v)).1.config =
          { f.config with rules := f.config.rules.filter (·.id != UInt32.ofNat n) }) ∨
      ((∀ r ∈ f.config.rules, r.id ≠ UInt32.ofNat n) ∧ (rulesDelete wr f (some v)).2.isOk = false ∧
        (rulesDelete wr f (some v)).1 = f) := by
  simp only [rulesDelete, hn]
  by_cases h : ∀ r ∈ f.config.rules, r.id ≠ UInt32.ofNat n
  · right
    rw [if_pos (List.length_filter_eq_length_iff.mpr fun r hr => by simpa using h r hr)]
    exact ⟨h, rfl, rfl⟩
  · left
    rw [if_neg fun e => h fun r hr => by simpa using List.length_filter_eq_length_iff.mp e r hr]
    refine ⟨?_, rfl, by simp⟩
    simpa using h

theorem rulesDelete_keeps_iff (wr : Bool) (f : SmsForwarder) (v : Json) :
    (((rulesDelete wr f (some v)).2.isOk = false → SameStored f (rulesDelete wr f (some v)).1) ∧
      ((rulesDelete wr f (some v)).2.isOk = true → ∃ n, v.get "id" = .int n ∧ RemovesRule n f (rulesDelete wr f (some v)).1)) ↔
      ∀ n, (v.get "id").asU64 = some n → IdSound f n := by
  cases hn : (v.get "id").asU64 with
  | none => simp [rulesDelete, hn, Reply.isOk, Except.isOk, Except.toBool, SameStored]
  | some n =>
    have hint := (Json.asU64_int hn).1
    simp only [Option.some.injEq, forall_eq']
    rcases rulesDelete_cases wr f v hn with ⟨⟨r, hr, hid⟩, hok, hc⟩ | ⟨hno, hok, hsame⟩
    · simp only [hok, Bool.true_eq_false, false_implies, true_and, forall_const, hint]
      constructor
      · rintro ⟨m, hm, ⟨⟨r', hr', hid'⟩, -⟩⟩
        cases hm
        left
        have := r'.id.toNat_lt
        omega
      · intro hs
        refine ⟨n, rfl, ⟨r, hr, by exact_mod_cast (narrowed_eq hs r hr).mp hid⟩, ?_⟩
        have hsame : f.config.rules.filter (·.id != UInt32.ofNat n) =
            f.config.rules.filter fun r => (r.id.toNat : Int) != n := by
          refine List.filter_congr fun x hx => ?_
          have hx := narrowed_eq hs x hx
          rw [Bool.eq_iff_iff, bne_iff_ne, bne_iff_ne, ne_eq, ne_eq, hx]
          omega
        rw [hc, hsame]
    · simp only [hok, Bool.false_eq_true, false_implies, and_true, forall_const, hsame]
      refine ⟨fun _ => ?_, fun _ => ⟨rfl, rfl, rfl⟩⟩
      by_cases hlt : n < 2 ^ 32
      · exact Or.inl hlt
      · exact Or.inr fun r hr he => hno r hr ((id_eq_iff r n).mpr he)

theorem rulesToggle_keeps_iff (wr : Bool) (f : SmsForwarder) (v : Json) :
    (((rulesToggle wr f (some v)).2.isOk = false → SameStored f (rulesToggle wr f (some v)).1) ∧
      ((rulesToggle wr f (some v)).2.isOk = true → ∃ n b, v.get "id" = .int n ∧ v.get "enabled" = .bool b ∧
        EditsRule n (fun r => { r with enabled := b }) f (rulesToggle wr f (some v)).1)) ↔
      ∀ n b, (v.get "id").asU64 = some n → (v.get "enabled").asBool = some b → IdSound f n := by
  cases hn : (v.get "id").asU64 with
  | none => simp [rulesToggle, hn, Reply.isOk, Except.isOk, Except.toBool, SameStored]
  | some n =>
    cases hb : (v.get "enabled").asBool with
    | none => simp [rulesToggle, hn, hb, Reply.isOk, Except.isOk, Except.toBool, SameStored]
    | some b =>
      have hint := (Json.asU64_int hn).1
      have hbool := asBool_eq hb
      have hrun : rulesToggle wr f (some v) = editRule wr f (UInt32.ofNat n) fun r => { r with enabled := b } := by
        simp only [rulesToggle, hn, hb]
      have hsound : (∀ m c, some n = some m → some b = some c → IdSound f m) ↔ IdSound f n :=
        ⟨fun h => h n b rfl rfl, fun h m c hm _ => Option.some.inj hm ▸ h⟩
      simp only [hrun, hsound, hint, hbool]
      constructor
      · intro ⟨_, hok⟩
        by_contra hns
        obtain ⟨hge, r, hr, hid⟩ := not_idSound hns
        rcases editRule_cases wr f (UInt32.ofNat n) (fun r => { r with enabled := b }) with ⟨-, -, -, -, -, hk, -⟩ | ⟨hno, -⟩
        · obtain ⟨m, b', hm, -, l₁, r', l₂, hl, hid', -⟩ := hok hk
          cases hm
          have := r'.id.toNat_lt
          omega
        · exact hno r hr hid
      · intro hs
        obtain ⟨h1, h2⟩ := editRule_keeps wr f (UInt32.ofNat n) (fun r => { r with enabled := b }) n
          fun r hr hid => by exact_mod_cast (narrowed_eq hs r hr).mp hid
        exact ⟨h1, fun hk => ⟨n, b, rfl, rfl, h2 hk⟩⟩

/-- Every request, in every state: it keeps the configuration exactly when it is sound. -/
theorem keeps_config_iff (wr : Bool) (serial : Nat) (f : SmsForwarder) (req : Request) :
    KeepsConfig wr serial f req ↔ Sound f req := by
  cases req with
  | configSet body =>
    cases body with
    | error e => simp [KeepsConfig, handle, configSet, Sound, SameStored, NamedRuleOnly]
    | ok req =>
      have := configSet_keeps_iff wr f req
      simpa only [KeepsConfig, handle, Sound, NamedRuleOnly, implies_true, and_true] using this
  | rulesCreate body =>
    simp only [KeepsConfig, Sound, NamedRuleOnly, implies_true, and_true, iff_true, handle, rulesCreate]
    split
    · exact fun _ => ⟨rfl, rfl, rfl⟩
    · split
      · exact fun _ => ⟨rfl, rfl, rfl⟩
      · simp [Reply.isOk, Except.isOk, Except.toBool]
  | rulesUpdate body =>
    cases body with
    | error e => simp [KeepsConfig, handle, rulesUpdate, Sound, SameStored, Reply.isOk, Except.isOk, Except.toBool]
    | ok req =>
      simp only [Sound, iff_true]
      exact editRule_keeps wr f req.id _ req.id.toNat fun r _ hid => by rw [hid]
  | rulesDelete body =>
    cases body with
    | none => simp [KeepsConfig, handle, rulesDelete, Sound, SameStored, Reply.isOk, Except.isOk, Except.toBool]
    | some v => exact rulesDelete_keeps_iff wr f v
  | rulesToggle body =>
    cases body with
    | none => simp [KeepsConfig, handle, rulesToggle, Sound, SameStored, Reply.isOk, Except.isOk, Except.toBool]
    | some v => exact rulesToggle_keeps_iff wr f v

/-- Forwarding is off and one rule exists. -/
def oneRule : SmsForwarder :=
  let rule : ForwardRule := ⟨1, "bank codes", true, .all, .sms "12345", 0⟩
  let config : SmsForwardConfig := { SmsForwardConfig.default with rules := [rule] }
  ⟨0, config, ⟨7, []⟩, config, ⟨7, []⟩⟩

/-- A refused interval leaves forwarding switched on; deleting rule 4294967297 deletes
    rule 1. -/
theorem refused_interval_enables_and_wide_id_deletes :
    ¬(∀ wr serial f req, KeepsConfig wr serial f req) ∧
      (configSet true oneRule (.ok ⟨some true, some 5, none, none⟩)).2.status = 400 ∧
      (configSet true oneRule (.ok ⟨some true, some 5, none, none⟩)).1.config.enabled = true ∧
      (rulesDelete true oneRule (some (.obj [("id", .int 4294967297)]))).2.status = 200 ∧
      (rulesDelete true oneRule (some (.obj [("id", .int 4294967297)]))).1.config.rules = [] := by
  refine ⟨fun h => ?_, by decide, by decide, by decide, by decide⟩
  have hc := (h true 0 oneRule (.configSet (.ok ⟨some true, some 5, none, none⟩))).1 (by decide)
  exact absurd (congrArg SmsForwardConfig.enabled hc.1) (by decide)

end OpenU60.SmsForward
