/-
  OpenU60.Wireguard.Routes — what a WireGuard configuration may route into the tunnel
  (`zte-agent/src/wireguard.rs`: `Config::validate`, `reject_unsafe_route`).

  The crates that read keys and networks are parameters. A route is refused for its own network address
  and only when it is written as another one is.
  - `validate_ok`: what an accepted configuration has, key by key and route by route.
  - `split_iff`: the routes hold no reserved address, leave a part of both address families out and are
    different networks exactly when none of them is wider than a reserved block that it holds and no two
    differ in the host bits alone.
-/

import Mathlib
import OpenU60.Lib.Prefix
import OpenU60.Lib.Split
import OpenU60.Lib.Text
import OpenU60.Wireguard.Manager

namespace OpenU60.Wireguard

open OpenU60.Lib OpenU60.Lib.Prefix

def maxPeers : Nat := 16
def maxAllowedIps : Nat := 64

inductive IpNet where
  | v4 (net : Net 32)
  | v6 (net : Net 128)
  deriving DecidableEq

inductive IpAddr where
  | v4 (a : BitVec 32)
  | v6 (a : BitVec 128)
  deriving DecidableEq

/-- The crates `wireguard-control` and `ipnet`. -/
structure Crates (Key : Type) where
  fromBase64 : String → Option Key
  toBase64 : Key → String
  zero : Key
  getPublic : Key → Key
  parseNet : String → Option IpNet
  showNet : IpNet → String

/-! ## Addresses -/

/-- 127.0.0.0/8 -/
def loopback4 : Net 32 := ⟨0x7F000000, 8, by decide⟩
/-- 224.0.0.0/4 -/
def multicast4 : Net 32 := ⟨0xE0000000, 4, by decide⟩
/-- 169.254.0.0/16 -/
def linkLocal4 : Net 32 := ⟨0xA9FE0000, 16, by decide⟩
/-- ::1/128 -/
def loopback6 : Net 128 := ⟨1, 128, by decide⟩
/-- ff00::/8 -/
def multicast6 : Net 128 := ⟨0xFF000000000000000000000000000000, 8, by decide⟩
/-- fe80::/10 -/
def linkLocal6 : Net 128 := ⟨0xFE800000000000000000000000000000, 10, by decide⟩

def reserved4 : List (Net 32) := [loopback4, multicast4, linkLocal4]
def reserved6 : List (Net 128) := [loopback6, multicast6, linkLocal6]

def IpAddr.isLoopback : IpAddr → Bool
  | .v4 a => a ∈ loopback4
  | .v6 a => a ∈ loopback6

def IpAddr.isMulticast : IpAddr → Bool
  | .v4 a => a ∈ multicast4
  | .v6 a => a ∈ multicast6

/-- `is_link_local` of IPv4, `is_unicast_link_local` of IPv6. -/
def IpAddr.isLinkLocal : IpAddr → Bool
  | .v4 a => a ∈ linkLocal4
  | .v6 a => a ∈ linkLocal6

def IpNet.prefixLen : IpNet → Nat
  | .v4 net => net.prefixLen
  | .v6 net => net.prefixLen

def IpNet.network : IpNet → IpAddr
  | .v4 net => .v4 net.network
  | .v6 net => .v6 net.network

/-! ## The code -/

def trimmed (s : String) : String := String.ofList (Text.trim s.toList)

def refuseIf (p : Prop) [Decidable p] (e : String) : Except String Unit := if p then .error e else .ok ()

section

variable {Key : Type} (x : Crates Key)

def parseKey (value label : String) : Except String Key :=
  match x.fromBase64 (trimmed value) with
  | some key => .ok key
  | none => .error (label ++ " must be a 32-byte base64 WireGuard key")

def parseNetwork (value label : String) : Except String IpNet :=
  match x.parseNet (trimmed value) with
  | some network => .ok network
  | none => .error ("invalid " ++ label ++ ": " ++ value)

def endpointParts (value : String) : Except String (List Char × List Char) :=
  match value.toList with
  | '[' :: rest =>
    match Split.splitOnce [']'] rest with
    | none => .error ("invalid WireGuard endpoint: " ++ value)
    | some (host, ':' :: port) => .ok (host, port)
    | some _ => .error ("invalid WireGuard endpoint: " ++ value)
  | text =>
    match Split.rsplitOnce ':' text with
    | some parts => .ok parts
    | none => .error ("WireGuard endpoint needs host:port: " ++ value)

def parseEndpoint (value : String) : Except String Unit := do
  let (host, port) ← endpointParts value
  refuseIf (host = [] ∨ (Text.parseUnsigned Text.u16Max port).filter (· ≠ 0) = none) ("invalid WireGuard endpoint: " ++ value)

def rejectUnsafeRoute (network : IpNet) : Except String Unit :=
  if network.prefixLen = 0 then
    .error ("default route " ++ x.showNet network ++ " is blocked in the safe split-tunnel release")
  else if network.network.isLoopback || network.network.isMulticast || network.network.isLinkLocal then
    .error ("unsafe WireGuard route: " ++ x.showNet network)
  else .ok ()

/-- The routes of a peer, after those that have an owner already. -/
def checkRoutes (peer : String) : List (IpNet × String) → List String → Except String (List (IpNet × String))
  | owners, [] => .ok owners
  | owners, route :: routes => do
    let network ← parseNetwork x route (peer ++ " AllowedIPs")
    rejectUnsafeRoute x network
    match owners.lookup network with
    | some owner => .error ("route " ++ x.showNet network ++ " is assigned to both " ++ owner ++ " and " ++ peer)
    | none => checkRoutes peer (owners ++ [(network, peer)]) routes

def checkPreshared (peer : Peer) : Except String Unit :=
  match peer.presharedKey with
  | some key => discard (parseKey x key (peer.name ++ " preshared key"))
  | none => .ok ()

/-- The peers, after those whose public keys and routes are known. -/
def checkPeers [DecidableEq Key] (localPublic : Key) : List String → List (IpNet × String) → List Peer → Except String Unit
  | _, _, [] => .ok ()
  | keys, owners, peer :: peers => do
    let publicKey ← parseKey x peer.publicKey (peer.name ++ " public key")
    refuseIf (publicKey = localPublic) (peer.name ++ " uses the interface's own public key")
    refuseIf (x.toBase64 publicKey ∈ keys) (peer.name ++ " repeats a peer public key")
    checkPreshared x peer
    parseEndpoint peer.endpoint
    refuseIf (peer.allowedIps = []) (peer.name ++ " needs at least one AllowedIPs route")
    refuseIf (maxAllowedIps < peer.allowedIps.length)
      (peer.name ++ " has more than " ++ toString maxAllowedIps ++ " AllowedIPs routes")
    let owners ← checkRoutes x peer.name owners peer.allowedIps
    checkPeers localPublic (keys ++ [x.toBase64 publicKey]) owners peers

def validate [DecidableEq Key] (config : Config) : Except String Unit := do
  let privateKey ← parseKey x config.privateKey "interface private key"
  refuseIf (privateKey = x.zero) "interface private key cannot be all zeroes"
  refuseIf (config.addresses = []) "the WireGuard interface needs at least one Address"
  refuseIf (8 < config.addresses.length) "at most 8 interface addresses are supported"
  config.addresses.forM fun address => discard (parseNetwork x address "interface address")
  refuseIf (¬ (1280 ≤ config.mtu ∧ config.mtu ≤ 1500)) "MTU must be between 1280 and 1500"
  refuseIf (config.peers = []) "the configuration needs at least one [Peer]"
  refuseIf (maxPeers < config.peers.length) ("at most " ++ toString maxPeers ++ " peers are supported")
  checkPeers x (x.getPublic privateKey) [] [] config.peers

/-! ## Routes -/

/-- The networks of AllowedIPs. -/
def networks (allowed : List String) : List IpNet := allowed.filterMap fun route => x.parseNet (trimmed route)

/-- Those of all peers. -/
def routes (peers : List Peer) : List IpNet := peers.flatMap fun peer => networks x peer.allowedIps

def publicOf (peer : Peer) : Option Key := x.fromBase64 (trimmed peer.publicKey)

end

instance : Membership IpAddr IpNet where
  mem
    | .v4 net, .v4 a => a ∈ net
    | .v6 net, .v6 a => a ∈ net
    | _, _ => False

def IpAddr.Reserved (a : IpAddr) : Prop := a.isLoopback ∨ a.isMulticast ∨ a.isLinkLocal

/-- The network a route denotes. -/
def IpNet.trunc : IpNet → IpNet
  | .v4 net => .v4 net.trunc
  | .v6 net => .v6 net.trunc

/-- The tunnel takes a part of the traffic, and none of the router's own. -/
structure SplitTunnel (routes : List IpNet) : Prop where
  unreserved : ∀ r ∈ routes, ∀ a ∈ r, ¬ a.Reserved
  partial4 : ¬ ∀ a : BitVec 32, ∃ r ∈ routes, IpAddr.v4 a ∈ r
  partial6 : ¬ ∀ a : BitVec 128, ∃ r ∈ routes, IpAddr.v6 a ∈ r
  distinct : (routes.map IpNet.trunc).Nodup

/-- Wider than one of the reserved blocks, and around it. -/
def IpNet.Wide : IpNet → Prop
  | .v4 net => ∃ block ∈ reserved4, net.prefixLen < block.prefixLen ∧ block.addr ∈ net
  | .v6 net => ∃ block ∈ reserved6, net.prefixLen < block.prefixLen ∧ block.addr ∈ net

variable {Key : Type} {x : Crates Key}

theorem reserved4_iff (a : BitVec 32) : (IpAddr.v4 a).Reserved ↔ ∃ block ∈ reserved4, a ∈ block := by
  simp only [IpAddr.Reserved, IpAddr.isLoopback, IpAddr.isMulticast, IpAddr.isLinkLocal, reserved4, decide_eq_true_eq, List.mem_cons,
    List.not_mem_nil, or_false, exists_eq_or_imp, exists_eq_left]

theorem reserved6_iff (a : BitVec 128) : (IpAddr.v6 a).Reserved ↔ ∃ block ∈ reserved6, a ∈ block := by
  simp only [IpAddr.Reserved, IpAddr.isLoopback, IpAddr.isMulticast, IpAddr.isLinkLocal, reserved6, decide_eq_true_eq, List.mem_cons,
    List.not_mem_nil, or_false, exists_eq_or_imp, exists_eq_left]

/-- What an accepted route is known for. -/
theorem network_unreserved {r : IpNet} (h : rejectUnsafeRoute x r = .ok ()) : ¬ r.network.Reserved := by
  unfold rejectUnsafeRoute at h
  split at h
  · cases h
  · split at h
    · cases h
    · next hsafe =>
      simpa only [IpAddr.Reserved, Bool.or_eq_true, or_assoc] using hsafe

/-- A network meets a family of blocks that its own address is outside of just by being around one. -/
theorem meets_reserved {w : Nat} {net : Net w} {blocks : List (Net w)} (h : ∀ block ∈ blocks, net.network ∉ block) :
    (∃ a ∈ net, ∃ block ∈ blocks, a ∈ block) ↔ ∃ block ∈ blocks, net.prefixLen < block.prefixLen ∧ block.addr ∈ net := by
  constructor
  · intro hmeets
    obtain ⟨a, ha, block, hblock, hab⟩ := hmeets
    exact ⟨block, hblock, (meets_iff (h block hblock)).mp ⟨a, ha, hab⟩⟩
  · intro hwide
    obtain ⟨block, hblock, hwider, hin⟩ := hwide
    exact ⟨block.addr, hin, block, hblock, addr_mem block⟩

theorem unreserved_iff {r : IpNet} (h : rejectUnsafeRoute x r = .ok ()) : (∀ a ∈ r, ¬ a.Reserved) ↔ ¬ r.Wide := by
  have hnetwork := network_unreserved h
  cases r with
  | v4 net =>
    have hout : ∀ block ∈ reserved4, net.network ∉ block := by
      intro block hblock hin
      exact hnetwork ((reserved4_iff _).mpr ⟨block, hblock, hin⟩)
    rw [IpNet.Wide, ← meets_reserved hout]
    constructor
    · intro hall hmeets
      obtain ⟨a, ha, hreserved⟩ := hmeets
      exact hall (.v4 a) ha ((reserved4_iff a).mpr hreserved)
    · intro hnone a ha hreserved
      cases a with
      | v4 a => exact hnone ⟨a, ha, (reserved4_iff a).mp hreserved⟩
      | v6 a => exact ha
  | v6 net =>
    have hout : ∀ block ∈ reserved6, net.network ∉ block := by
      intro block hblock hin
      exact hnetwork ((reserved6_iff _).mpr ⟨block, hblock, hin⟩)
    rw [IpNet.Wide, ← meets_reserved hout]
    constructor
    · intro hall hmeets
      obtain ⟨a, ha, hreserved⟩ := hmeets
      exact hall (.v6 a) ha ((reserved6_iff a).mpr hreserved)
    · intro hnone a ha hreserved
      cases a with
      | v4 a => exact ha
      | v6 a => exact hnone ⟨a, ha, (reserved6_iff a).mp hreserved⟩

theorem split_iff {routes : List IpNet} (hsafe : ∀ r ∈ routes, rejectUnsafeRoute x r = .ok ()) (hnodup : routes.Nodup) :
    SplitTunnel routes ↔ (∀ r ∈ routes, ¬ r.Wide) ∧ ∀ r ∈ routes, ∀ s ∈ routes, r.trunc = s.trunc → r = s := by
  have hreserved : (∀ r ∈ routes, ∀ a ∈ r, ¬ a.Reserved) ↔ ∀ r ∈ routes, ¬ r.Wide :=
    forall_congr' fun r => imp_congr_right fun hr => unreserved_iff (hsafe r hr)
  constructor
  · intro h
    exact ⟨hreserved.mp h.unreserved, fun r hr s hs => List.inj_on_of_nodup_map h.distinct hr hs⟩
  · intro h
    have hall := hreserved.mpr h.1
    refine ⟨hall, ?_, ?_, List.Nodup.map_on (fun r hr s hs => h.2 r hr s hs) hnodup⟩
    -- the loopback address is in no route
    · intro hwhole
      obtain ⟨r, hr, ha⟩ := hwhole loopback4.addr
      exact hall r hr _ ha (.inl (by decide))
    · intro hwhole
      obtain ⟨r, hr, ha⟩ := hwhole loopback6.addr
      exact hall r hr _ ha (.inl (by decide))

/-! ## Accepted configurations -/

theorem bind_ok {ε α β : Type} {e : Except ε α} {f : α → Except ε β} {b : β} (h : (e >>= f) = .ok b) : ∃ a, e = .ok a ∧ f a = .ok b := by
  cases e with
  | error e => cases h
  | ok a => exact ⟨a, rfl, h⟩

theorem refuseIf_ok {p : Prop} [Decidable p] {e : String} (h : refuseIf p e = .ok ()) : ¬ p := by
  intro hp
  rw [refuseIf, if_pos hp] at h
  cases h

theorem parseNetwork_ok {value label : String} {network : IpNet} (h : parseNetwork x value label = .ok network) :
    x.parseNet (trimmed value) = some network := by
  unfold parseNetwork at h
  split at h
  · cases h
    assumption
  · cases h

theorem parseKey_ok {value label : String} {key : Key} (h : parseKey x value label = .ok key) :
    x.fromBase64 (trimmed value) = some key := by
  unfold parseKey at h
  split at h
  · cases h
    assumption
  · cases h

/-- The routes get their owners one by one, each of them new. -/
theorem checkRoutes_ok {peer : String} {owners owned : List (IpNet × String)} {allowed : List String}
    (h : checkRoutes x peer owners allowed = .ok owned) :
    owned.map Prod.fst = owners.map Prod.fst ++ networks x allowed ∧ (∀ r ∈ networks x allowed, rejectUnsafeRoute x r = .ok ()) ∧
      ((owners.map Prod.fst).Nodup → (owned.map Prod.fst).Nodup) ∧ ∀ route ∈ allowed, x.parseNet (trimmed route) ≠ none := by
  induction allowed generalizing owners with
  | nil =>
    cases h
    exact ⟨(List.append_nil _).symm, fun r hr => absurd hr List.not_mem_nil, id, fun r hr => absurd hr List.not_mem_nil⟩
  | cons route allowed ih =>
    unfold checkRoutes at h
    obtain ⟨network, hnetwork, h⟩ := bind_ok h
    obtain ⟨u, hsafe, h⟩ := bind_ok h
    split at h
    · cases h
    · next hfresh =>
      obtain ⟨hkeys, hrest, hnodup, hparsed⟩ := ih h
      have hnew : network ∉ owners.map Prod.fst := by
        intro hmem
        obtain ⟨p, hp, rfl⟩ := List.mem_map.mp hmem
        exact absurd (List.lookup_eq_none_iff.mp hfresh p hp) (by simp)
      have hcons : networks x (route :: allowed) = network :: networks x allowed := List.filterMap_cons_some (parseNetwork_ok hnetwork)
      rw [List.map_append, List.map_cons, List.map_nil] at hkeys hnodup
      refine ⟨?_, ?_,
        fun howners => hnodup (List.nodup_append.mpr ⟨howners, List.nodup_singleton network, ?_⟩), ?_⟩
      · rw [hcons, hkeys, List.append_assoc, List.singleton_append]
      · rw [hcons]
        intro r hr
        rcases List.mem_cons.mp hr with rfl | hr
        · exact hsafe
        · exact hrest r hr
      · intro r hr s hs heq
        rw [List.mem_singleton.mp hs] at heq
        rw [heq] at hr
        exact hnew hr
      · intro r hr
        rcases List.mem_cons.mp hr with rfl | hr
        · rw [parseNetwork_ok hnetwork]
          exact Option.some_ne_none network
        · exact hparsed r hr

/-- What peers have when they pass, after others. -/
structure Passed (x : Crates Key) (localPublic : Key) (keys : List String) (owners : List (IpNet × String)) (peers : List Peer) : Prop where
  decoded : ∀ peer ∈ peers, ∃ key, publicOf x peer = some key ∧ key ≠ localPublic ∧ x.toBase64 key ∉ keys
  distinct : (peers.map fun peer => (publicOf x peer).map x.toBase64).Nodup
  safe : ∀ r ∈ routes x peers, rejectUnsafeRoute x r = .ok ()
  owned : (owners.map Prod.fst ++ routes x peers).Nodup
  parsed : ∀ peer ∈ peers, ∀ route ∈ peer.allowedIps, x.parseNet (trimmed route) ≠ none

theorem checkPeers_ok [DecidableEq Key] {localPublic : Key} {keys : List String} {owners : List (IpNet × String)} {peers : List Peer}
    (h : checkPeers x localPublic keys owners peers = .ok ()) (howners : (owners.map Prod.fst).Nodup) :
    Passed x localPublic keys owners peers := by
  induction peers generalizing keys owners with
  | nil =>
    refine ⟨fun peer hp => absurd hp List.not_mem_nil, List.nodup_nil, fun r hr => absurd hr List.not_mem_nil, ?_,
      fun peer hp => absurd hp List.not_mem_nil⟩
    rw [routes, List.flatMap_nil, List.append_nil]
    exact howners
  | cons peer peers ih =>
    unfold checkPeers at h
    obtain ⟨publicKey, hpublic, h⟩ := bind_ok h
    obtain ⟨_, hlocal, h⟩ := bind_ok h
    obtain ⟨_, hrepeat, h⟩ := bind_ok h
    obtain ⟨-, -, h⟩ := bind_ok h
    obtain ⟨-, -, h⟩ := bind_ok h
    obtain ⟨-, -, h⟩ := bind_ok h
    obtain ⟨-, -, h⟩ := bind_ok h
    obtain ⟨owned, howned, h⟩ := bind_ok h
    obtain ⟨hkeys, hsafe, hnodup, hparsed⟩ := checkRoutes_ok howned
    obtain ⟨hdecoded, hdistinct, hrest, howns, hmore⟩ := ih h (hnodup howners)
    have hkey : publicOf x peer = some publicKey := parseKey_ok hpublic
    have hroutes : routes x (peer :: peers) = networks x peer.allowedIps ++ routes x peers := List.flatMap_cons
    refine ⟨?_, ?_, ?_, ?_, ?_⟩
    · intro p hp
      rcases List.mem_cons.mp hp with rfl | hp
      · exact ⟨publicKey, hkey, refuseIf_ok hlocal, refuseIf_ok hrepeat⟩
      · obtain ⟨key, hp, hother, hnew⟩ := hdecoded p hp
        exact ⟨key, hp, hother, fun hmem => hnew (List.mem_append_left _ hmem)⟩
    · rw [List.map_cons, hkey]
      refine List.nodup_cons.mpr ⟨?_, hdistinct⟩
      intro hmem
      obtain ⟨p, hp, heq⟩ := List.mem_map.mp hmem
      obtain ⟨key, hp, -, hnew⟩ := hdecoded p hp
      rw [hp] at heq
      exact hnew (List.mem_append_right _ (List.mem_singleton.mpr (Option.some.inj heq)))
    · rw [hroutes]
      intro r hr
      rcases List.mem_append.mp hr with hr | hr
      · exact hsafe r hr
      · exact hrest r hr
    · rw [hkeys, List.append_assoc] at howns
      rw [hroutes]
      exact howns
    · intro p hp
      rcases List.mem_cons.mp hp with rfl | hp
      · exact hparsed
      · exact hmore p hp

/-- The interface's key and what its peers have. -/
theorem validate_ok [DecidableEq Key] {config : Config} (h : validate x config = .ok ()) :
    ∃ privateKey, x.fromBase64 (trimmed config.privateKey) = some privateKey ∧
      Passed x (x.getPublic privateKey) [] [] config.peers := by
  unfold validate at h
  obtain ⟨privateKey, hprivate, h⟩ := bind_ok h
  obtain ⟨-, -, h⟩ := bind_ok h
  obtain ⟨-, -, h⟩ := bind_ok h
  obtain ⟨-, -, h⟩ := bind_ok h
  obtain ⟨-, -, h⟩ := bind_ok h
  obtain ⟨-, -, h⟩ := bind_ok h
  obtain ⟨-, -, h⟩ := bind_ok h
  obtain ⟨-, -, h⟩ := bind_ok h
  exact ⟨privateKey, parseKey_ok hprivate, checkPeers_ok h List.nodup_nil⟩

end OpenU60.Wireguard
