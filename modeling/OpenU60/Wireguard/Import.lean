/-
  OpenU60.Wireguard.Import — importing a WireGuard configuration (`zte-agent/src/wireguard.rs`:
  `parse_ini`, `parse_interface_line`, `parse_peer_line`).

  A line's number is only told in errors, and lines that are blank or a comment change nothing, so a text
  that is accepted gives the same configuration with other such lines. No line sets a hook.
  - `import_split_iff`: an accepted configuration is a split tunnel, with every key its own, no hook and the
    same whatever comments it stands among, exactly when no route is wider than a reserved block that it
    holds and no two routes differ in their host bits alone.
  - `halves_imported`: the two halves of IPv4 are let through as routes.
-/

import OpenU60.Wireguard.Routes

namespace OpenU60.Wireguard

open OpenU60.Lib

def maxConfigBytes : Nat := 64 * 1024

/-! ## The code -/

inductive Section where
  | none
  | interface
  | peer (index : Nat)
  deriving DecidableEq

def lower (cs : List Char) : List Char := cs.map Char.toLower

def inLine (line : Nat) (text : String) : String := "line " ++ toString line ++ ": " ++ text

def setOnce (target : String) (value : List Char) (key : String) (line : Nat) : Except String String :=
  if target ≠ "" then .error (inLine line (key ++ " appears more than once")) else .ok (String.ofList value)

def splitList (value : List Char) : List String :=
  (((value.splitOn ',').map Text.trim).filter (· ≠ [])).map String.ofList

/-- `value.parse::<u16>()` -/
def parseU16 (value : List Char) : Option Nat := Text.parseUnsigned Text.u16Max value

def hookKeys : List String := ["table", "preup", "postup", "predown", "postdown", "saveconfig"]

def parseInterfaceLine (config : Config) (key value : List Char) (line : Nat) : Except String Config :=
  let name := String.ofList (lower key)
  if name = "privatekey" then (setOnce config.privateKey value "PrivateKey" line).map ({ config with privateKey := · })
  else if name = "address" then .ok { config with addresses := config.addresses ++ splitList value }
  else if name = "dns" then .ok { config with dns := config.dns ++ splitList value }
  else if name = "mtu" then
    match parseU16 value with
    | some mtu => .ok { config with mtu := mtu }
    | none => .error (inLine line "MTU must be a number")
  else if name = "listenport" then
    match (parseU16 value).filter (· ≠ 0) with
    | some port => .ok { config with listenPort := some port }
    | none => .error (inLine line "ListenPort must be 1-65535")
  else if name ∈ hookKeys then
    .error (inLine line
      (String.ofList key ++ " is not accepted; the U60 agent owns routes and never executes hook commands"))
  else .error (inLine line ("unsupported [Interface] key " ++ String.ofList key))

def parsePeerLine (peer : Peer) (key value : List Char) (line : Nat) : Except String Peer :=
  let name := String.ofList (lower key)
  if name = "publickey" then (setOnce peer.publicKey value "PublicKey" line).map ({ peer with publicKey := · })
  else if name = "presharedkey" then
    if peer.presharedKey.isSome then .error (inLine line "PresharedKey appears more than once")
    else .ok { peer with presharedKey := some (String.ofList value) }
  else if name = "endpoint" then (setOnce peer.endpoint value "Endpoint" line).map ({ peer with endpoint := · })
  else if name = "allowedips" then .ok { peer with allowedIps := peer.allowedIps ++ splitList value }
  else if name = "persistentkeepalive" then
    match parseU16 value with
    | some keepalive => .ok { peer with persistentKeepalive := some keepalive }
    | none => .error (inLine line "PersistentKeepalive must be 0-65535")
  else .error (inLine line ("unsupported [Peer] key " ++ String.ofList key))

/-- Blank, or a comment. -/
def skipped (raw : List Char) : Bool :=
  let line := Text.trim raw
  line.isEmpty || line.head? = some '#' || line.head? = some ';'

def newPeer (n : Nat) : Peer := { name := "Peer " ++ toString n, publicKey := "", endpoint := "", allowedIps := [] }

def parseKeyLine (config : Config) (current : Section) (line : List Char) (lineNumber : Nat) : Except String (Config × Section) :=
  match Split.splitOnce ['='] line with
  | none => .error (inLine lineNumber "expected Key = value")
  | some (key, value) =>
    let key := Text.trim key
    let value := Text.trim value
    if value = [] then .error (inLine lineNumber (String.ofList key ++ " cannot be empty"))
    else
      match current with
      | .none => .error (inLine lineNumber "add [Interface] first")
      | .interface => (parseInterfaceLine config key value lineNumber).map (·, current)
      | .peer index =>
        match config.peers[index]? with
        | some peer => (parsePeerLine peer key value lineNumber).map fun peer => ({ config with peers := config.peers.set index peer }, current)
        | none => .error "index out of bounds"

def parseLine (config : Config) (current : Section) (raw : List Char) (lineNumber : Nat) : Except String (Config × Section) :=
  let line := Text.trim raw
  if skipped raw then .ok (config, current)
  else if lower line = "[interface]".toList then
    if current ≠ .none then .error (inLine lineNumber "[Interface] must appear once and first") else .ok (config, .interface)
  else if lower line = "[peer]".toList then
    if current = .none then .error (inLine lineNumber "[Interface] must appear before [Peer]")
    else if maxPeers ≤ config.peers.length then .error ("at most " ++ toString maxPeers ++ " peers are supported")
    else .ok ({ config with peers := config.peers ++ [newPeer (config.peers.length + 1)] }, .peer config.peers.length)
  else parseKeyLine config current line lineNumber

def parseLines : Config × Section → Nat → List (List Char) → Except String (Config × Section)
  | state, _, [] => .ok state
  | state, lineNumber, raw :: rest =>
    match parseLine state.1 state.2 raw lineNumber with
    | .error e => .error e
    | .ok state => parseLines state (lineNumber + 1) rest

variable {Key : Type} [DecidableEq Key] (x : Crates Key)

def parseIni (text : List Char) : Except String Config :=
  if maxConfigBytes < Text.byteLen text then
    .error ("WireGuard configuration exceeds " ++ toString maxConfigBytes ++ " bytes")
  else
    match parseLines ({}, .none) 1 (Text.lines text) with
    | .error e => .error e
    | .ok (config, current) =>
      if current = .none then .error "configuration is missing [Interface]"
      else
        match validate x config with
        | .error e => .error e
        | .ok () => .ok config

/-! ## Texts -/

/-- The lines that say something. -/
def content (text : List Char) : List (List Char) := (Text.lines text).filter (!skipped ·)

/-- `PostUp = …`, `Table = …` and the like. -/
def HookLine (raw : List Char) : Prop :=
  skipped raw = false ∧ ∃ key value, Split.splitOnce ['='] (Text.trim raw) = some (key, value) ∧
    String.ofList (lower (Text.trim key)) ∈ hookKeys

structure SafeImport (text : List Char) (config : Config) : Prop where
  split : SplitTunnel (routes x config.peers)
  parsed : ∀ peer ∈ config.peers, ∀ route ∈ peer.allowedIps, x.parseNet (trimmed route) ≠ none
  keys : (config.peers.map (publicOf x)).Nodup
  other : ∀ peer ∈ config.peers, ∃ privateKey key, x.fromBase64 (trimmed config.privateKey) = some privateKey ∧
    publicOf x peer = some key ∧ key ≠ x.getPublic privateKey
  hooks : ∀ raw ∈ Text.lines text, ¬ HookLine raw
  padded : ∀ padded, Text.byteLen padded ≤ maxConfigBytes → content padded = content text → parseIni x padded = .ok config

/-! ## Line numbers -/

section

variable {config : Config} {peer : Peer} {current : Section} {key value line raw : List Char} {n m : Nat}

theorem setOnce_number (target : String) (name : String) : (setOnce target value name n).toOption = (setOnce target value name m).toOption := by
  unfold setOnce
  split <;> rfl

theorem map_toOption {ε α β : Type} (f : α → β) (e : Except ε α) : (e.map f).toOption = e.toOption.map f := by
  cases e <;> rfl

theorem parseInterfaceLine_number :
    (parseInterfaceLine config key value n).toOption = (parseInterfaceLine config key value m).toOption := by
  unfold parseInterfaceLine
  dsimp only
  split
  · rw [map_toOption, map_toOption, setOnce_number]
  · repeat' split
    all_goals rfl

theorem parsePeerLine_number : (parsePeerLine peer key value n).toOption = (parsePeerLine peer key value m).toOption := by
  unfold parsePeerLine
  dsimp only
  split
  · rw [map_toOption, map_toOption, setOnce_number]
  · split
    · split <;> rfl
    · split
      · rw [map_toOption, map_toOption, setOnce_number]
      · repeat' split
        all_goals rfl

theorem parseLine_number : (parseLine config current raw n).toOption = (parseLine config current raw m).toOption := by
  unfold parseLine
  dsimp only
  split
  · rfl
  · split
    · split <;> rfl
    · split
      · repeat' split
        all_goals rfl
      · unfold parseKeyLine
        split
        · rfl
        · dsimp only
          split
          · rfl
          · cases current with
            | none => rfl
            | interface =>
              dsimp only
              rw [map_toOption, map_toOption, parseInterfaceLine_number]
            | peer index =>
              dsimp only
              split
              · rw [map_toOption, map_toOption, parsePeerLine_number]
              · rfl

theorem parseLine_skipped (h : skipped raw = true) : parseLine config current raw n = .ok (config, current) := by
  rw [parseLine]
  exact if_pos h

end

/-- What the lines come to is in the lines that say something. -/
theorem parseLines_content (state : Config × Section) (n m : Nat) (ls : List (List Char)) :
    (parseLines state n ls).toOption = (parseLines state m (ls.filter (!skipped ·))).toOption := by
  induction ls generalizing state n m with
  | nil => rfl
  | cons raw ls ih =>
    cases hskip : skipped raw with
    | true =>
      rw [parseLines, parseLine_skipped hskip, List.filter_cons_of_neg (by simp [hskip])]
      exact ih state (n + 1) m
    | false =>
      rw [List.filter_cons_of_pos (by simp [hskip]), parseLines, parseLines]
      have hline := @parseLine_number state.1 state.2 raw n m
      cases hn : parseLine state.1 state.2 raw n with
      | error e =>
        rw [hn] at hline
        cases hm : parseLine state.1 state.2 raw m with
        | error e' => rfl
        | ok state' =>
          rw [hm] at hline
          cases hline
      | ok next =>
        rw [hn] at hline
        cases hm : parseLine state.1 state.2 raw m with
        | error e' =>
          rw [hm] at hline
          cases hline
        | ok state' =>
          rw [hm] at hline
          cases hline
          exact ih next (n + 1) (m + 1)

theorem parseIni_ok_iff {text : List Char} {config : Config} :
    parseIni x text = .ok config ↔ Text.byteLen text ≤ maxConfigBytes ∧
      ∃ current, (parseLines ({}, .none) 1 (Text.lines text)).toOption = some (config, current) ∧ current ≠ .none ∧
        validate x config = .ok () := by
  unfold parseIni
  by_cases hlong : maxConfigBytes < Text.byteLen text
  · rw [if_pos hlong]
    constructor
    · intro h
      cases h
    · intro h
      exact absurd h.1 (Nat.not_le_of_gt hlong)
  · rw [if_neg hlong]
    cases hlines : parseLines ({}, .none) 1 (Text.lines text) with
    | error e =>
      constructor
      · intro h
        cases h
      · intro h
        obtain ⟨-, current, hsome, -⟩ := h
        cases hsome
    | ok state =>
      obtain ⟨found, current⟩ := state
      dsimp only
      constructor
      · intro h
        split at h
        · cases h
        · next hcurrent =>
          cases hvalid : validate x found with
          | error e =>
            rw [hvalid] at h
            cases h
          | ok u =>
            rw [hvalid] at h
            cases h
            exact ⟨Nat.le_of_not_gt hlong, current, rfl, hcurrent, hvalid⟩
      · intro h
        obtain ⟨-, current', hsome, hcurrent, hvalid⟩ := h
        cases hsome
        rw [if_neg hcurrent, hvalid]

theorem parseIni_padded {text padded : List Char} {config : Config} (h : parseIni x text = .ok config)
    (hlen : Text.byteLen padded ≤ maxConfigBytes) (hcontent : content padded = content text) : parseIni x padded = .ok config := by
  obtain ⟨-, current, hlines, hrest⟩ := (parseIni_ok_iff x).mp h
  refine (parseIni_ok_iff x).mpr ⟨hlen, current, ?_, hrest⟩
  rw [parseLines_content _ 1 1] at hlines ⊢
  rw [content, content] at hcontent
  rw [hcontent]
  exact hlines

/-! ## Hooks -/

section

variable {config : Config} {peer : Peer} {current : Section} {key value raw : List Char} {n : Nat}

theorem parseInterfaceLine_hook (h : String.ofList (lower key) ∈ hookKeys) : ∃ e, parseInterfaceLine config key value n = .error e := by
  have hne : ∀ name, name ∉ hookKeys → String.ofList (lower key) ≠ name := by
    intro name hname heq
    exact hname (heq ▸ h)
  unfold parseInterfaceLine
  dsimp only
  rw [if_neg (hne "privatekey" (by decide)), if_neg (hne "address" (by decide)), if_neg (hne "dns" (by decide)),
    if_neg (hne "mtu" (by decide)), if_neg (hne "listenport" (by decide)), if_pos h]
  exact ⟨_, rfl⟩

theorem parsePeerLine_hook (h : String.ofList (lower key) ∈ hookKeys) : ∃ e, parsePeerLine peer key value n = .error e := by
  have hne : ∀ name, name ∉ hookKeys → String.ofList (lower key) ≠ name := by
    intro name hname heq
    exact hname (heq ▸ h)
  unfold parsePeerLine
  dsimp only
  rw [if_neg (hne "publickey" (by decide)), if_neg (hne "presharedkey" (by decide)), if_neg (hne "endpoint" (by decide)),
    if_neg (hne "allowedips" (by decide)), if_neg (hne "persistentkeepalive" (by decide))]
  exact ⟨_, rfl⟩

/-- A section's head has no equals sign. -/
theorem lower_ne_of_split (h : Split.splitOnce ['='] raw = some (key, value)) {head : List Char} (hhead : '=' ∉ head) : lower raw ≠ head := by
  intro heq
  have hmem : '=' ∈ raw := by
    rw [Split.splitOnce_eq h]
    simp
  have hlow : Char.toLower '=' ∈ lower raw := List.mem_map_of_mem hmem
  rw [heq] at hlow
  exact hhead hlow

theorem parseLine_hook (h : HookLine raw) : ∃ e, parseLine config current raw n = .error e := by
  obtain ⟨hskip, key, value, hsplit, hkey⟩ := h
  have hinterface : lower (Text.trim raw) ≠ "[interface]".toList := lower_ne_of_split hsplit (by decide)
  have hpeer : lower (Text.trim raw) ≠ "[peer]".toList := lower_ne_of_split hsplit (by decide)
  unfold parseLine
  dsimp only
  rw [if_neg (by simp [hskip]), if_neg hinterface, if_neg hpeer]
  unfold parseKeyLine
  rw [hsplit]
  dsimp only
  split
  · exact ⟨_, rfl⟩
  · cases current with
    | none => exact ⟨_, rfl⟩
    | interface =>
      obtain ⟨e, he⟩ := @parseInterfaceLine_hook config (Text.trim key) (Text.trim value) n hkey
      exact ⟨e, by simp only [he, Except.map]⟩
    | peer index =>
      dsimp only
      split
      · next peer hpeer =>
        obtain ⟨e, he⟩ := @parsePeerLine_hook peer (Text.trim key) (Text.trim value) n hkey
        exact ⟨e, by simp only [he, Except.map]⟩
      · exact ⟨_, rfl⟩

theorem parseLines_hook {state : Config × Section} {ls : List (List Char)} (h : (parseLines state n ls).toOption ≠ none) :
    ∀ raw ∈ ls, ¬ HookLine raw := by
  induction ls generalizing state n with
  | nil =>
    intro raw hraw
    exact absurd hraw List.not_mem_nil
  | cons head ls ih =>
    intro raw hraw hhook
    rw [parseLines] at h
    cases hline : parseLine state.1 state.2 head n with
    | error e =>
      rw [hline] at h
      exact h rfl
    | ok next =>
      rw [hline] at h
      rcases List.mem_cons.mp hraw with rfl | hraw
      · obtain ⟨e, he⟩ := @parseLine_hook state.1 state.2 raw n hhook
        rw [hline] at he
        cases he
      · exact ih h raw hraw hhook

end

/-- Routes apart, an accepted configuration is what it should be. -/
theorem import_split_iff {text : List Char} {config : Config} (h : parseIni x text = .ok config) :
    SafeImport x text config ↔ (∀ r ∈ routes x config.peers, ¬ r.Wide) ∧
      ∀ r ∈ routes x config.peers, ∀ s ∈ routes x config.peers, r.trunc = s.trunc → r = s := by
  obtain ⟨-, current, hlines, -, hvalid⟩ := (parseIni_ok_iff x).mp h
  obtain ⟨privateKey, hprivate, hpassed⟩ := validate_ok hvalid
  have hnodup : (routes x config.peers).Nodup := hpassed.owned
  rw [← split_iff hpassed.safe hnodup]
  constructor
  · intro hsafe
    exact hsafe.split
  · intro hsplit
    refine ⟨hsplit, hpassed.parsed, ?_, ?_, ?_, fun padded => parseIni_padded x h⟩
    · refine List.Nodup.of_map (Option.map x.toBase64) ?_
      rw [List.map_map]
      exact hpassed.distinct
    · intro peer hpeer
      obtain ⟨key, hkey, hother, -⟩ := hpassed.decoded peer hpeer
      exact ⟨privateKey, key, hprivate, hkey, hother⟩
    · refine @parseLines_hook 1 ({}, .none) _ ?_
      rw [hlines]
      exact Option.some_ne_none _

def sampleNet (addr : BitVec 32) (len : Nat) : Option IpNet :=
  if h : len ≤ 32 then some (.v4 ⟨addr, len, h⟩) else none

/-- The crates on the keys and the networks of two texts. -/
def sample : Crates String where
  fromBase64 key := if key.length = 44 then some key else none
  toBase64 key := key
  zero := "AAAAAAAAAAAAAAAAAAAAAAAAAAAAAAAAAAAAAAAAAAA="
  getPublic key :=
    if key = "dwdtCnMYpX08FsFyUbJmRd9ML4frwJkqsXf7pR25LCo=" then "hSDwCYkwp1R0i33ctD73Wg2/Og0mOBr066SpjqqbTmo=" else key
  parseNet net :=
    if net = "10.8.0.2/32" then sampleNet 0x0A080002 32
    else if net = "10.8.0.0/16" then sampleNet 0x0A080000 16
    else if net = "0.0.0.0/1" then sampleNet 0 1
    else if net = "128.0.0.0/1" then sampleNet 0x80000000 1
    else none
  showNet _ := ""

def sampleText (allowed : String) : List Char :=
  ["[Interface]", "PrivateKey=dwdtCnMYpX08FsFyUbJmRd9ML4frwJkqsXf7pR25LCo=", "Address=10.8.0.2/32", "[Peer]",
    "PublicKey=3p7bfXt9wbTTW2HC7OQ1Nz+DQ8hbeGdNrfx+FG+IK08=", "Endpoint=vpn.example:51820",
    "AllowedIPs=" ++ allowed].flatMap fun line => line.toList ++ ['\n']

def sampleConfig (allowed : List String) : Config where
  privateKey := "dwdtCnMYpX08FsFyUbJmRd9ML4frwJkqsXf7pR25LCo="
  addresses := ["10.8.0.2/32"]
  peers := [{ name := "Peer 1", publicKey := "3p7bfXt9wbTTW2HC7OQ1Nz+DQ8hbeGdNrfx+FG+IK08=", endpoint := "vpn.example:51820", allowedIps := allowed }]

theorem ok_of_toOption {ε α : Type} {e : Except ε α} {a : α} (h : e.toOption = some a) : e = .ok a := by
  cases e with
  | error e => cases h
  | ok b => exact congrArg Except.ok (Option.some.inj h)

theorem import_split_iff_branch : SafeImport sample (sampleText "10.8.0.0/16") (sampleConfig ["10.8.0.0/16"]) := by
  have hok : parseIni sample (sampleText "10.8.0.0/16") = .ok (sampleConfig ["10.8.0.0/16"]) :=
    (parseIni_ok_iff sample).mpr ⟨by decide +kernel, .peer 0, by decide +kernel, nofun, ok_of_toOption (by decide +kernel)⟩
  have hroutes : routes sample (sampleConfig ["10.8.0.0/16"]).peers = [.v4 ⟨0x0A080000, 16, by decide⟩] := by decide +kernel
  refine (import_split_iff sample hok).mpr ⟨?_, ?_⟩
  · intro r hr
    rw [hroutes] at hr
    obtain rfl := List.mem_singleton.mp hr
    intro hwide
    obtain ⟨block, hblock, hwider, haround⟩ := hwide
    simp only [reserved4, List.mem_cons, List.not_mem_nil, or_false] at hblock
    rcases hblock with rfl | rfl | rfl
    · exact absurd hwider (by decide)
    · exact absurd hwider (by decide)
    · exact absurd hwider (by decide)
  · intro r hr s hs _
    rw [hroutes] at hr hs
    rw [List.mem_singleton.mp hr, List.mem_singleton.mp hs]

/-- Each half is no default route, and its own address is an ordinary one. -/
theorem halves_imported :
    parseIni sample (sampleText "0.0.0.0/1, 128.0.0.0/1") = .ok (sampleConfig ["0.0.0.0/1", "128.0.0.0/1"]) ∧
      (∀ a : BitVec 32, ∃ r ∈ routes sample (sampleConfig ["0.0.0.0/1", "128.0.0.0/1"]).peers, IpAddr.v4 a ∈ r) ∧
      ¬ SafeImport sample (sampleText "0.0.0.0/1, 128.0.0.0/1") (sampleConfig ["0.0.0.0/1", "128.0.0.0/1"]) := by
  have hroutes : routes sample (sampleConfig ["0.0.0.0/1", "128.0.0.0/1"]).peers =
      [.v4 ⟨0, 1, by decide⟩, .v4 ⟨0x80000000, 1, by decide⟩] := by decide +kernel
  have hwhole : ∀ a : BitVec 32, ∃ r ∈ routes sample (sampleConfig ["0.0.0.0/1", "128.0.0.0/1"]).peers, IpAddr.v4 a ∈ r := by
    intro a
    rw [hroutes]
    have ha : a.toNat < 2 ^ 32 := a.isLt
    by_cases hlow : a.toNat < 2 ^ 31
    · refine ⟨_, List.mem_cons_self, ?_⟩
      show a.toNat / 2 ^ 31 = 0 / 2 ^ 31
      omega
    · refine ⟨_, List.mem_cons_of_mem _ List.mem_cons_self, ?_⟩
      show a.toNat / 2 ^ 31 = 0x80000000 / 2 ^ 31
      omega
  have hok : parseIni sample (sampleText "0.0.0.0/1, 128.0.0.0/1") = .ok (sampleConfig ["0.0.0.0/1", "128.0.0.0/1"]) :=
    (parseIni_ok_iff sample).mpr ⟨by decide +kernel, .peer 0, by decide +kernel, nofun, ok_of_toOption (by decide +kernel)⟩
  exact ⟨hok, hwhole, fun h => h.split.partial4 hwhole⟩

end OpenU60.Wireguard
