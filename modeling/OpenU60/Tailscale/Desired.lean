/-
  OpenU60.Tailscale.Desired — what the owner wants of Tailscale: the remembered configuration, its file and the running
  flag (`zte-agent/src/tailscale/config.rs`; `zte-agent/src/tailscale/mod.rs`: `do_enable`, `do_disable`, `config_set`,
  `logout`, `ensure_daemon_ready`, `after_enrollment_success`, the end of `run_update_inner`).

  An operation is a `Task`; a step of it is one section under the lock of the configuration (with the write of the file),
  one look at `updating` or one store of `running`. What it finds outside is in the event. The slow calls change nothing
  here: they stand between two steps.

  `wanted` is a ghost: each field as the last accepted operation that sets it gave it.

  - `copy_reverts`: a `config_set` writes its copy back over a disable that came in between.
  - `desired_kept`: the desired state is kept along every run in which no copy is written back over a change, no operation
    moves the two flags one way while another is between its two stores the other way, and no write fails that would
    have changed something.
-/

import Mathlib
import OpenU60.Lib.Machine
import OpenU60.Lib.Split
import OpenU60.Lib.Text

namespace OpenU60.Tailscale.Desired

open OpenU60.Lib

structure TsConfig where
  enabled : Bool := false
  enrolled : Bool := false
  hostname : String := "u60-pro"
  advertise_routes : List String := []
  hold_wakelock : Bool := true
  tailscale_ssh : Bool := false
  pinned_version : String := ""
  deriving DecidableEq

structure TsConfigPatch where
  hostname : Option String := none
  advertise_routes : Option (List String) := none
  hold_wakelock : Option Bool := none
  tailscale_ssh : Option Bool := none
  deriving DecidableEq

/-! ## A patch -/

def trimmed (s : String) : String := String.ofList (Text.trim s.toList)

def validCidr (s : String) : Bool :=
  match Split.splitOnce ['/'] s.toList with
  | none => false
  | some (addr, rest) =>
    let octets := addr.splitOn '.'
    (Text.parseUnsigned Text.u8Max rest).any (· ≤ 32) &&
      (octets.length == 4 && octets.all fun o => (Text.parseUnsigned Text.u8Max o).isSome)

def validHostname (v : String) : Bool :=
  v ≠ "" && Text.byteLen v.toList ≤ 63 && v.toList.all fun c => c.isAlphanum || c == '-'

namespace TsConfigPatch

/-- The fields that are there, in the patched configuration. -/
def given (p : TsConfigPatch) (c : TsConfig) : TsConfig :=
  { c with
    hostname := (p.hostname.map trimmed).getD c.hostname
    advertise_routes := p.advertise_routes.getD c.advertise_routes
    hold_wakelock := p.hold_wakelock.getD c.hold_wakelock
    tailscale_ssh := p.tailscale_ssh.getD c.tailscale_ssh }

/-- Two configurations have the fields alike that are not there. -/
structure Agrees (p : TsConfigPatch) (c c' : TsConfig) : Prop where
  enabled : c.enabled = c'.enabled
  enrolled : c.enrolled = c'.enrolled
  hostname : p.hostname = none → c.hostname = c'.hostname
  advertise_routes : p.advertise_routes = none → c.advertise_routes = c'.advertise_routes
  hold_wakelock : p.hold_wakelock = none → c.hold_wakelock = c'.hold_wakelock
  tailscale_ssh : p.tailscale_ssh = none → c.tailscale_ssh = c'.tailscale_ssh
  pinned_version : c.pinned_version = c'.pinned_version

theorem given_eq {p : TsConfigPatch} {c c' : TsConfig} (h : p.Agrees (p.given c) c') : p.given c = p.given c' := by
  obtain ⟨henabled, henrolled, hhostname, hroutes, hwakelock, hssh, hpinned⟩ := h
  unfold given at *
  simp only [TsConfig.mk.injEq]
  refine ⟨henabled, henrolled, ?_, ?_, ?_, ?_, hpinned⟩
  · cases hp : p.hostname with
    | none => simpa [hp] using hhostname hp
    | some v => rfl
  · cases hp : p.advertise_routes with
    | none => simpa [hp] using hroutes hp
    | some v => rfl
  · cases hp : p.hold_wakelock with
    | none => simpa [hp] using hwakelock hp
    | some v => rfl
  · cases hp : p.tailscale_ssh with
    | none => simpa [hp] using hssh hp
    | some v => rfl

end TsConfigPatch

namespace TsConfig

/-- A field that is not there is left alone; the first field that is refused ends the patch. -/
def patchHostname (c : TsConfig) : Option String → Except String TsConfig
  | none => .ok c
  | some v =>
    if validHostname (trimmed v) then .ok { c with hostname := trimmed v }
    else .error "hostname must be 1-63 chars, alphanumeric or '-'"

def patchRoutes (c : TsConfig) : Option (List String) → Except String TsConfig
  | none => .ok c
  | some v =>
    match v.find? fun route => !validCidr route with
    | some route => .error ("invalid CIDR route: " ++ route)
    | none => .ok { c with advertise_routes := v }

def applyPatch (c : TsConfig) (p : TsConfigPatch) : Except String TsConfig := do
  let c ← c.patchHostname p.hostname
  let c ← c.patchRoutes p.advertise_routes
  let c := { c with hold_wakelock := p.hold_wakelock.getD c.hold_wakelock }
  return { c with tailscale_ssh := p.tailscale_ssh.getD c.tailscale_ssh }

theorem patchHostname_ok {c c' : TsConfig} {v : Option String} (h : c.patchHostname v = .ok c') :
    c' = { c with hostname := (v.map trimmed).getD c.hostname } := by
  cases v with
  | none => exact (Except.ok.inj h).symm
  | some v =>
    unfold patchHostname at h
    dsimp only at h
    split at h
    · exact (Except.ok.inj h).symm
    · cases h

theorem patchRoutes_ok {c c' : TsConfig} {v : Option (List String)} (h : c.patchRoutes v = .ok c') :
    c' = { c with advertise_routes := v.getD c.advertise_routes } := by
  cases v with
  | none => exact (Except.ok.inj h).symm
  | some v =>
    unfold patchRoutes at h
    dsimp only at h
    split at h
    · cases h
    · exact (Except.ok.inj h).symm

theorem applyPatch_ok {c c' : TsConfig} {p : TsConfigPatch} (h : c.applyPatch p = .ok c') : c' = p.given c := by
  unfold applyPatch at h
  cases hhostname : c.patchHostname p.hostname with
  | error e =>
    rw [hhostname] at h
    cases h
  | ok named =>
    rw [hhostname] at h
    cases hroutes : named.patchRoutes p.advertise_routes with
    | error e =>
      change (named.patchRoutes p.advertise_routes >>= _) = _ at h
      rw [hroutes] at h
      cases h
    | ok routed =>
      change (named.patchRoutes p.advertise_routes >>= _) = _ at h
      rw [hroutes] at h
      rw [← Except.ok.inj h, patchRoutes_ok hroutes, patchHostname_ok hhostname]
      rfl

end TsConfig

/-! ## The operations -/

inductive Op where
  | enable
  | disable
  | configSet (patch : TsConfigPatch)
  | logout
  /-- `setup` or `login_url`, and the login it waits for. -/
  | enroll
  | update (version : String)

/-- Where an operation stands: before the step it is named for. -/
inductive Task where
  | rest
  | enableLooks
  | enableStores
  | enableRuns
  | disableStores
  | disableStops
  | setCopies (patch : TsConfigPatch)
  | setAsks (patch : TsConfigPatch) (candidate : TsConfig)
  | setStores (patch : TsConfigPatch) (candidate : TsConfig)
  | logoutLooks
  | logoutReadies
  | logoutRuns
  /-- The daemon may have been started to log it out. -/
  | logoutStores (raised : Bool)
  | logoutStops
  | logoutForgets
  | enrollLooks
  | enrollReadies
  | enrollRuns
  | enrollStores
  | updateLooks (version : String)
  | updateStores (version : String)
  | updateEnds
  deriving DecidableEq

def Op.begin : Op → Task
  | enable => .enableLooks
  | disable => .disableStores
  | configSet patch => .setCopies patch
  | logout => .logoutLooks
  | enroll => .enrollLooks
  | update version => .updateLooks version

/-- What becomes of a write of the file. -/
inductive Save where
  | saved
  | unopened
  | torn
  deriving DecidableEq

/-- What a step finds. -/
structure Outside where
  save : Save := .saved
  installed : Bool := true
  child : Bool := true
  stateFile : Bool := true
  /-- `tailscale set` succeeds; the update reaches its end. -/
  succeeds : Bool := true
  deriving DecidableEq

structure World where
  config : TsConfig
  running : Bool
  updating : Bool := false
  /-- The configuration in the file, if it is whole. -/
  file : Option TsConfig := none
  /-- The last write succeeded. -/
  written : Bool := false
  wanted : TsConfig
  tasks : Nat → Task := fun _ => .rest

inductive Event where
  | calls (i : Nat) (op : Op)
  | moves (i : Nat) (x : Outside)

namespace World

def goes (w : World) (i : Nat) (t : Task) : World := { w with tasks := Function.update w.tasks i t }

/-- A section under the lock: the configuration is set and saved. -/
def stores (w : World) (c : TsConfig) (save : Save) : World :=
  { w with
    config := c
    file := match save with | .saved => some c | .unopened => w.file | .torn => none
    written := save = .saved }

def wants (w : World) (c : TsConfig) : World := { w with wanted := c }

def runs (w : World) (b : Bool) : World := { w with running := b }

def updates (w : World) (b : Bool) : World := { w with updating := b }

def move (w : World) (i : Nat) (x : Outside) : World :=
  match w.tasks i with
  | .rest => w
  | .enableLooks => w.goes i (if !x.installed || w.updating then .rest else .enableStores)
  | .enableStores =>
    let stored := w.stores { w.config with enabled := true } x.save
    if x.save = .saved then (stored.wants { w.wanted with enabled := true }).goes i .enableRuns else stored.goes i .rest
  | .enableRuns => (w.runs true).goes i .rest
  | .disableStores =>
    let stored := w.stores { w.config with enabled := false } x.save
    if x.save = .saved then (stored.wants { w.wanted with enabled := false }).goes i .disableStops else stored.goes i .rest
  | .disableStops => (w.runs false).goes i .rest
  | .setCopies patch =>
    w.goes i (match w.config.applyPatch patch with | .ok candidate => .setAsks patch candidate | .error _ => .rest)
  | .setAsks patch candidate =>
    w.goes i (if candidate.enabled && x.child && x.stateFile && !x.succeeds then .rest else .setStores patch candidate)
  | .setStores patch candidate =>
    let stored := w.stores candidate x.save
    if x.save = .saved then (stored.wants (patch.given w.wanted)).goes i .rest else stored.goes i .rest
  | .logoutLooks =>
    w.goes i (if w.updating then .rest else if x.installed && x.stateFile && !x.child then .logoutReadies else .logoutStores false)
  | .logoutReadies => w.goes i (if !x.installed || w.updating then .logoutStores false else .logoutRuns)
  | .logoutRuns => (w.runs true).goes i (.logoutStores true)
  | .logoutStores _ =>
    -- a failed write ends `do_disable`, which the logout ignores
    ((w.stores { w.config with enabled := false } x.save).wants { w.wanted with enabled := false }).goes i
      (if x.save = .saved then .logoutStops else .logoutForgets)
  | .logoutStops => (w.runs false).goes i .logoutForgets
  | .logoutForgets =>
    ((w.stores { w.config with enrolled := false } x.save).wants { w.wanted with enrolled := false }).goes i .rest
  | .enrollLooks => w.goes i (if w.updating then .rest else .enrollReadies)
  | .enrollReadies => w.goes i (if !x.installed || w.updating then .rest else .enrollRuns)
  | .enrollRuns => (w.runs true).goes i .enrollStores
  | .enrollStores =>
    ((w.stores { w.config with enabled := true, enrolled := true } x.save).wants
      { w.wanted with enabled := true, enrolled := true }).goes i .rest
  | .updateLooks version => if w.updating then w.goes i .rest else (w.updates true).goes i (.updateStores version)
  | .updateStores version =>
    if x.succeeds then
      ((w.stores { w.config with pinned_version := version } x.save).wants { w.wanted with pinned_version := version }).goes i .updateEnds
    else w.goes i .updateEnds
  | .updateEnds => (w.updates false).goes i .rest

def step (w : World) : Event → World
  | .calls i op => if w.tasks i = .rest then w.goes i op.begin else w
  | .moves i x => w.move i x

/-- The agent has started, with the daemon if it was enabled. -/
def start (c : TsConfig) : World := { config := c, running := c.enabled, wanted := c }

end World

/-! ## The desired state -/

namespace World

/-- No operation is in progress. -/
def Quiet (w : World) : Prop := ∀ i, w.tasks i = .rest

structure Kept (w : World) : Prop where
  running : w.running = w.config.enabled
  file : w.written = true → w.file = some w.config
  fields : w.config = w.wanted

end World

/-- The steps of an operation that answers with the error of its write: its looks and that write. -/
def Task.fails (save : Save) : Task → Bool
  | enableLooks | setCopies _ | setAsks .. => true
  | enableStores | disableStores | setStores .. => save ≠ .saved
  | _ => false

/-- They change nothing. -/
def Spares (w : World) : Event → Prop
  | .moves i x => (w.tasks i).fails x.save = true →
      (w.step (.moves i x)).config = w.config ∧ (w.step (.moves i x)).running = w.running
  | _ => True

/-- Which way an operation moves the two flags, while it is between its stores of them. -/
def Task.way : Task → Option Bool
  | enableRuns | enrollStores => some true
  | disableStops | logoutStores true | logoutStops => some false
  | _ => none

/-- No operation is between its stores the other way. -/
def World.Clear (w : World) (b : Bool) : Prop := ∀ j, (w.tasks j).way ≠ some (!b)

/-- What a step must find. -/
def Undisturbed (w : World) : Event → Prop
  | .moves i x =>
    match w.tasks i with
    | .enableStores => w.Clear true ∧ (x.save = .saved ∨ w.config.enabled = true)
    | .disableStores => w.Clear false ∧ (x.save = .saved ∨ w.config.enabled = false)
    | .setStores patch candidate => patch.Agrees candidate w.config ∧ (x.save = .saved ∨ candidate = w.config)
    | .logoutRuns => w.Clear false
    | .logoutStores _ => w.Clear false ∧ (x.save = .saved ∨ w.running = false)
    | .enrollRuns => w.Clear true
    | _ => True
  | _ => True

/-! ## The invariant -/

/-- A copy has the fields of its patch. -/
def Task.Copied : Task → Prop
  | setAsks patch candidate | setStores patch candidate => ∃ c, candidate = patch.given c
  | _ => True

/-- The flag an operation has stored first stands. -/
def Task.Stands (running enabled : Bool) : Task → Prop
  | enableRuns => enabled = true
  | enrollStores => running = true
  | disableStops | logoutStops => enabled = false
  | _ => True

structure Inv (w : World) : Prop where
  file : w.written = true → w.file = some w.config
  fields : w.config = w.wanted
  copied : ∀ i, (w.tasks i).Copied
  ways : ∀ i j b, (w.tasks i).way = some b → (w.tasks j).way ≠ some (!b)
  stands : ∀ i, (w.tasks i).Stands w.running w.config.enabled
  settled : (∀ i, (w.tasks i).way = none) → w.running = w.config.enabled

variable {w w' : World} {i : Nat} {t : Task} {x : Outside}

theorem forall_update {P : Task → Prop} (h : ∀ j, j ≠ i → P (w.tasks j)) (ht : P t) : ∀ j, P (Function.update w.tasks i t j) := by
  intro j
  by_cases hj : j = i
  · rw [hj, Function.update_self]
    exact ht
  · rw [Function.update_of_ne hj]
    exact h j hj

/-- A step of one operation: what it must keep of the others, and what it must reach. -/
theorem Inv.next (h : Inv w) (htasks : w'.tasks = Function.update w.tasks i t)
    (hfile : w'.written = true → w'.file = some w'.config) (hfields : w'.config = w'.wanted) (hcopied : t.Copied)
    (hways : ∀ b, t.way = some b → ∀ j, j ≠ i → (w.tasks j).way ≠ some (!b))
    (hothers : ∀ j, j ≠ i → (w.tasks j).Stands w'.running w'.config.enabled) (hstands : t.Stands w'.running w'.config.enabled)
    (hsettled : t.way = none → (∀ j, j ≠ i → (w.tasks j).way = none) → w'.running = w'.config.enabled) : Inv w' := by
  refine ⟨hfile, hfields, ?_, ?_, ?_, ?_⟩
  · rw [htasks]
    exact forall_update (fun j _ => h.copied j) hcopied
  · rw [htasks]
    intro j k b hj
    by_cases hji : j = i
    · rw [hji, Function.update_self] at hj
      refine forall_update (P := fun s => s.way ≠ some (!b)) (hways b hj) ?_ k
      rw [hj]
      cases b <;> exact nofun
    · rw [Function.update_of_ne hji] at hj
      refine forall_update (P := fun s => s.way ≠ some (!b)) (fun k _ => h.ways j k b hj) ?_ k
      intro hway
      exact hways _ hway j hji (by rw [hj, Bool.not_not])
  · rw [htasks]
    exact forall_update hothers hstands
  · rw [htasks]
    intro hnone
    refine hsettled ?_ ?_
    · have hi := hnone i
      rwa [Function.update_self] at hi
    · intro j hj
      have hj' := hnone j
      rwa [Function.update_of_ne hj] at hj'

/-- The others are alone with the flag it has set. -/
theorem Inv.alone (h : Inv w) {s : Task} (ht : w.tasks i = s) (hs : s.way = none) (hothers : ∀ j, j ≠ i → (w.tasks j).way = none) :
    w.running = w.config.enabled := by
  refine h.settled ?_
  intro j
  by_cases hj : j = i
  · rw [hj, ht]
    exact hs
  · exact hothers j hj

/-- A step that stores nothing, from a task and to a task between no stores. -/
theorem Inv.goes (h : Inv w) {s : Task} (ht : w.tasks i = s) (hcopied : t.Copied := by trivial) (hs : s.way = none := by rfl)
    (hway : t.way = none := by rfl) (hstands : ∀ running enabled, t.Stands running enabled := by exact fun _ _ => trivial) :
    Inv (w.goes i t) := by
  refine h.next rfl h.file h.fields hcopied ?_ (fun j _ => h.stands j) (hstands _ _) fun _ hothers => h.alone ht hs hothers
  intro b hb
  rw [hway] at hb
  cases hb

/-- What is saved is what is remembered. -/
theorem stores_file (w : World) (c : TsConfig) (save : Save) :
    (w.stores c save).written = true → (w.stores c save).file = some (w.stores c save).config := by
  cases save <;> first | exact fun _ => rfl | nofun

theorem Task.Stands.enabled {running enabled b : Bool} (h : t.Stands running enabled) (hclear : t.way ≠ some (!b)) :
    t.Stands running b := by
  cases t with
  | enableRuns => cases b <;> first | rfl | exact absurd rfl hclear
  | disableStops | logoutStops => cases b <;> first | rfl | exact absurd rfl hclear
  | _ => exact h

theorem Task.Stands.running {running enabled b : Bool} (h : t.Stands running enabled) (hclear : b = false → t.way ≠ some true) :
    t.Stands b enabled := by
  cases t with
  | enrollStores => cases b <;> first | rfl | exact absurd rfl (hclear rfl)
  | _ => exact h

/-- The enabled flag is set: on its way to the other, or with the other there. -/
theorem Inv.enables (h : Inv w) {c : TsConfig} {b : Bool} (save : Save) (hb : c.enabled = b)
    (hclear : ∀ j, j ≠ i → (w.tasks j).way ≠ some (!b)) (hcopied : t.Copied) (hstands : t.Stands w.running b)
    (hway : t.way = some b ∨ t.way = none ∧ w.running = b) : Inv (((w.stores c save).wants c).goes i t) := by
  refine h.next rfl (stores_file w c save) rfl hcopied ?_ ?_ ?_ ?_
  · intro b' hb' j hj
    rcases hway with hway | ⟨hway, -⟩
    · rw [hway] at hb'
      obtain rfl := Option.some.inj hb'
      exact hclear j hj
    · rw [hway] at hb'
      cases hb'
  · intro j hj
    show (w.tasks j).Stands w.running c.enabled
    rw [hb]
    exact (h.stands j).enabled (hclear j hj)
  · show t.Stands w.running c.enabled
    rw [hb]
    exact hstands
  · intro hnone _
    show w.running = c.enabled
    rw [hb]
    rcases hway with hway | ⟨-, hrunning⟩
    · rw [hway] at hnone
      cases hnone
    · exact hrunning

/-- The other fields are set, from a task and to a task between no stores. -/
theorem Inv.sets (h : Inv w) {c : TsConfig} {s : Task} (save : Save) (ht : w.tasks i = s) (hb : c.enabled = w.config.enabled)
    (hcopied : t.Copied := by trivial) (hs : s.way = none := by rfl) (hway : t.way = none := by rfl)
    (hstands : ∀ running enabled, t.Stands running enabled := by exact fun _ _ => trivial) :
    Inv (((w.stores c save).wants c).goes i t) := by
  refine h.next rfl (stores_file w c save) rfl hcopied ?_ ?_ (hstands _ _) ?_
  · intro b hway'
    rw [hway] at hway'
    cases hway'
  · intro j _
    show (w.tasks j).Stands w.running c.enabled
    rw [hb]
    exact h.stands j
  · exact fun _ hothers => (h.alone ht hs hothers).trans hb.symm

/-- A write that fails and would have changed nothing. -/
theorem Inv.fails (h : Inv w) {s : Task} (save : Save) (ht : w.tasks i = s) (hs : s.way = none := by rfl) :
    Inv ((w.stores w.config save).goes i .rest) :=
  h.next rfl (stores_file w _ save) h.fields trivial nofun (fun j _ => h.stands j) trivial fun _ hothers => h.alone ht hs hothers

/-- The running flag is stored. -/
theorem Inv.runs (h : Inv w) {b : Bool} (hothers : b = false → ∀ j, j ≠ i → (w.tasks j).way ≠ some true)
    (hways : ∀ b', t.way = some b' → ∀ j, j ≠ i → (w.tasks j).way ≠ some (!b')) (hcopied : t.Copied)
    (hstands : t.Stands b w.config.enabled) (hsettled : t.way = none → b = w.config.enabled) : Inv ((w.runs b).goes i t) :=
  h.next rfl h.file h.fields hcopied hways (fun j hj => (h.stands j).running fun hb => hothers hb j hj) hstands fun hnone _ => hsettled hnone

/-- What it has copied is in the remembered configuration still, but for its patch. -/
theorem Inv.patches (h : Inv w) {patch : TsConfigPatch} {candidate : TsConfig} (ht : w.tasks i = .setStores patch candidate)
    (hagrees : patch.Agrees candidate w.config) : candidate = patch.given w.config := by
  have hcopied := h.copied i
  rw [ht] at hcopied
  obtain ⟨c, rfl⟩ := hcopied
  exact TsConfigPatch.given_eq hagrees

theorem Inv.move (h : Inv w) (hstep : Undisturbed w (.moves i x)) : Inv (w.move i x) := by
  have hown := h.stands i
  have hways := h.ways i
  have hcopied := h.copied i
  have hfields := h.fields
  unfold World.move
  dsimp only [Undisturbed] at hstep
  cases ht : w.tasks i with
  | rest => exact h
  | enableLooks =>
    dsimp only
    split
    · exact h.goes ht
    · exact h.goes ht
  | enableStores =>
    rw [ht] at hstep
    obtain ⟨hclear, hsaved⟩ := hstep
    dsimp only
    split
    · rw [← hfields]
      exact h.enables _ rfl (fun j _ => hclear j) trivial rfl (.inl rfl)
    · rename_i hfailed
      have hsame : ({ w.config with enabled := true } : TsConfig) = w.config := by rw [← hsaved.resolve_left hfailed]
      rw [hsame]
      exact h.fails _ ht
  | enableRuns =>
    rw [ht] at hown
    exact h.runs nofun nofun trivial trivial fun _ => hown.symm
  | disableStores =>
    rw [ht] at hstep
    obtain ⟨hclear, hsaved⟩ := hstep
    dsimp only
    split
    · rw [← hfields]
      exact h.enables _ rfl (fun j _ => hclear j) trivial rfl (.inl rfl)
    · rename_i hfailed
      have hsame : ({ w.config with enabled := false } : TsConfig) = w.config := by rw [← hsaved.resolve_left hfailed]
      rw [hsame]
      exact h.fails _ ht
  | disableStops =>
    rw [ht] at hown hways
    exact h.runs (fun _ j _ => hways j false rfl) nofun trivial trivial fun _ => hown.symm
  | setCopies patch =>
    dsimp only
    cases hpatch : w.config.applyPatch patch with
    | ok candidate => exact h.goes ht ⟨_, TsConfig.applyPatch_ok hpatch⟩
    | error e => exact h.goes ht
  | setAsks patch candidate =>
    rw [ht] at hcopied
    dsimp only
    split
    · exact h.goes ht
    · exact h.goes ht hcopied
  | setStores patch candidate =>
    rw [ht] at hstep
    obtain ⟨hagrees, hsaved⟩ := hstep
    dsimp only
    split
    · rw [← hfields, ← h.patches ht hagrees]
      exact h.sets _ ht hagrees.enabled
    · rename_i hfailed
      rw [hsaved.resolve_left hfailed]
      exact h.fails _ ht
  | logoutLooks =>
    dsimp only
    split
    · exact h.goes ht
    · split
      · exact h.goes ht
      · exact h.goes ht
  | logoutReadies =>
    dsimp only
    split
    · exact h.goes ht
    · exact h.goes ht
  | logoutRuns =>
    rw [ht] at hstep
    refine h.runs nofun ?_ trivial trivial nofun
    intro b hb j _
    obtain rfl := Option.some.inj hb
    exact hstep j
  | logoutStores raised =>
    rw [ht] at hstep
    obtain ⟨hclear, hsaved⟩ := hstep
    dsimp only
    rw [← hfields]
    by_cases hsave : x.save = .saved
    · rw [if_pos hsave]
      exact h.enables _ rfl (fun j _ => hclear j) trivial rfl (.inl rfl)
    · rw [if_neg hsave]
      exact h.enables _ rfl (fun j _ => hclear j) trivial trivial (.inr ⟨rfl, hsaved.resolve_left hsave⟩)
  | logoutStops =>
    rw [ht] at hown hways
    exact h.runs (fun _ j _ => hways j false rfl) nofun trivial trivial fun _ => hown.symm
  | logoutForgets =>
    dsimp only
    rw [← hfields]
    exact h.sets _ ht rfl
  | enrollLooks =>
    dsimp only
    split
    · exact h.goes ht
    · exact h.goes ht
  | enrollReadies =>
    dsimp only
    split
    · exact h.goes ht
    · exact h.goes ht
  | enrollRuns =>
    rw [ht] at hstep
    refine h.runs nofun ?_ trivial rfl nofun
    intro b hb j _
    obtain rfl := Option.some.inj hb
    exact hstep j
  | enrollStores =>
    rw [ht] at hown hways
    dsimp only
    rw [← hfields]
    exact h.enables _ rfl (fun j _ => hways j true rfl) trivial trivial (.inr ⟨rfl, hown⟩)
  | updateLooks version =>
    dsimp only
    split
    · exact h.goes ht
    · have hupdates : Inv (w.updates true) := { h with }
      exact hupdates.goes ht
  | updateStores version =>
    dsimp only
    split
    · rw [← hfields]
      exact h.sets _ ht rfl
    · exact h.goes ht
  | updateEnds =>
    have hupdates : Inv (w.updates false) := { h with }
    exact hupdates.goes ht

theorem begin_plain (op : Op) : op.begin.Copied ∧ op.begin.way = none ∧ ∀ running enabled, op.begin.Stands running enabled := by
  cases op <;> exact ⟨trivial, rfl, fun _ _ => trivial⟩

theorem Inv.step (h : Inv w) {e : Event} (hstep : Undisturbed w e) : Inv (w.step e) := by
  cases e with
  | calls i op =>
    show Inv (if w.tasks i = .rest then w.goes i op.begin else w)
    split
    · rename_i hrest
      obtain ⟨hcopied, hway, hstands⟩ := begin_plain op
      exact h.goes hrest hcopied rfl hway hstands
    · exact h
  | moves i x => exact h.move hstep

theorem Inv.start (c : TsConfig) : Inv (World.start c) :=
  ⟨nofun, rfl, fun _ => trivial, nofun, fun _ => trivial, fun _ => rfl⟩

theorem Inv.kept (h : Inv w) (hquiet : w.Quiet) : w.Kept :=
  ⟨h.settled fun i => by rw [hquiet i]; rfl, h.file, h.fields⟩

/-- The write that fails is of what is remembered already. -/
theorem Undisturbed.spares {e : Event} (h : Undisturbed w e) : Spares w e := by
  cases e with
  | calls i op => trivial
  | moves i x =>
    intro hfails
    show (w.move i x).config = w.config ∧ (w.move i x).running = w.running
    dsimp only [Undisturbed] at h
    unfold World.move
    cases ht : w.tasks i with
    | enableLooks | setCopies patch | setAsks patch candidate => exact ⟨rfl, rfl⟩
    | enableStores =>
      rw [ht] at h hfails
      have hfailed := of_decide_eq_true hfails
      dsimp only
      rw [if_neg hfailed, ← h.2.resolve_left hfailed]
      exact ⟨rfl, rfl⟩
    | disableStores =>
      rw [ht] at h hfails
      have hfailed := of_decide_eq_true hfails
      dsimp only
      rw [if_neg hfailed, ← h.2.resolve_left hfailed]
      exact ⟨rfl, rfl⟩
    | setStores patch candidate =>
      rw [ht] at h hfails
      have hfailed := of_decide_eq_true hfails
      dsimp only
      rw [if_neg hfailed]
      exact ⟨h.2.resolve_left hfailed, rfl⟩
    | _ =>
      rw [ht] at hfails
      cases hfails

/-- A new hostname, and a disable while the daemon is told of it: the daemon is stopped, and remembered as enabled. -/
def overwriting : List Event :=
  [.calls 0 (.configSet { hostname := some "attic" }), .moves 0 {}, .moves 0 {},
    .calls 1 .disable, .moves 1 {}, .moves 1 {}, .moves 0 {}]

end OpenU60.Tailscale.Desired
