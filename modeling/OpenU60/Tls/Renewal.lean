/-
  OpenU60.Tls.Renewal — a refresh of the server certificate from one end to the other (`zte-agent/src/tls/mod.rs`: `issue`,
  `scope_error`, `refresh`; `tls/hosts.rs`: `set`).

  `OpenU60.Tls.Manager` takes the same refresh apart into steps that power loss can come between (`refresh_begins`); here one
  runs to its end, with the hosts file and Settings' line. `Found` is what it finds: the verified clock, the new key, and
  whether each file can be written. The clock and the certificates' dates are seconds, and a date is read back as written.

  - `renewal_settles`: what a refresh issues and when, what the next one does, and how far apart renewals are.
  - `renewal_unsettled`: a certificate issued for a moved address can be renewed a second later, and one that outlives its CA
    does not keep its dates.
-/

import OpenU60.Tls.Survival

namespace OpenU60.Tls

/-! ## One refresh -/

inductive Why where
  | renewed
  | moved
  deriving DecidableEq

structure Found where
  verified : Option Int := none
  /-- The new server key. -/
  key : Except String Key := .ok ⟨0⟩
  savedKey : Except String Unit := .ok ()
  savedCrt : Except String Unit := .ok ()
  /-- The hosts file can be written. -/
  hosts : Except String Unit := .ok ()

/-- The agent and its files while HTTPS is on. -/
structure Https where
  loaded : Loaded
  keys : CertifiedKey
  disk : Disk := {}
  /-- The LAN address last read. -/
  lan : Option Ipv4 := none
  error : Option String := none
  /-- `/tmp/hosts/zte-agent` -/
  hosts : Option String := none
  /-- How often dnsmasq has been told to read it again. -/
  reloads : Nat := 0

def showIpv4 (ip : Ipv4) : String :=
  ".".intercalate ([24, 16, 8, 0].map fun shift => toString ((ip >>> shift).toNat % 256))

/-- An address alone, a network as `net/len`. -/
def net (n : Ipv4) (len : Nat) : String := if len = 32 then showIpv4 n else showIpv4 n ++ "/" ++ toString len

def hostsLine (ip : Ipv4) (name : String) : String := showIpv4 ip ++ " " ++ name ++ "\n"

/-- `Hosts::set`: only a change is written, and only a change signals dnsmasq. -/
def setHosts (s : Https) (ip : Ipv4) (name : String) (x : Found) : Https :=
  let line := hostsLine ip name
  if s.hosts = some line then s
  else
    match x.hosts with
    | .error _ => s
    | .ok () => { s with hosts := some line, reloads := s.reloads + 1 }

/-- What the CA cannot cover at LAN address `lan`. -/
def scopeError (name : String) (port : Nat) (ca : Ca) (lan : Ipv4) : Option String :=
  let nameUrl := "https://" ++ name ++ ":" ++ toString port ++ "/console/"
  if !ca.scope.coversName name then
    some ("The certificate authority was made for " ++ ", ".intercalate ca.scope.dns ++ ", not " ++ name ++
      " (ZTE_AGENT_TLS_NAME). To use the new name, Reset HTTPS and turn it on again (each device must then trust the new authority).")
  else if !isPrivate lan then
    some ("The router’s LAN address " ++ showIpv4 lan ++ " is not a private address (10.x, 172.16–31.x, 192.168.x): only " ++ nameUrl ++ " works.")
  else if !ca.scope.coversIp lan then
    let was := if ca.scope.ips = [] then "no address" else ", ".intercalate (ca.scope.ips.map fun (n, l) => net n l)
    some ("The router’s LAN address is now " ++ showIpv4 lan ++ ", but its certificate authority was made for " ++ was ++ ": only " ++ nameUrl ++
      " works. To use the address, Reset HTTPS and turn it on again (each device must then trust the new authority).")
  else none

namespace Https

variable (name : String) (port : Nat)

/-- A new server pair, saved and swapped in. -/
def issue (s : Https) (ca : Ca) (lan : Option Ipv4) (notBefore notAfter : Int) (x : Found) : Except String Cert × Https :=
  let ips := (lan.filter ca.scope.coversIp).toList
  let dns := [name].filter ca.scope.coversName
  if ips.isEmpty && dns.isEmpty then
    (.error ("The certificate authority covers neither the router’s LAN address nor " ++ name ++ ". " ++ newCa), s)
  else
    let spec : LeafSpec := ⟨dns, ips, notBefore, min notAfter ca.issuing.cert.notAfter⟩
    match x.key with
    | .error e => (.error e, s)
    | .ok key =>
      let server := leaf ca.issuing spec key
      match x.savedKey with
      | .error e => (.error (saving e), s)
      | .ok () =>
        let s := { s with disk.serverKey := some server.key }
        match x.savedCrt with
        | .error e => (.error (saving e), s)
        | .ok () =>
          let s := { s with disk.serverCrt := some server.cert }
          match Loaded.new ca server with
          | .error e => (.error e, s)
          | .ok (loaded, keys) => (.ok server.cert, { s with loaded, keys })

end Https

namespace Loaded

/-- The address the certificate should name. -/
def want (cur : Loaded) (lan : Option Ipv4) : Option Ipv4 := (lan.or cur.serverIp).filter cur.ca.scope.coversIp

def renewal (cur : Loaded) (t : Int) : Int × Int := (t - backdate, min (t - backdate + serverDays * day) cur.ca.issuing.cert.notAfter)

def expiring (cur : Loaded) (verified : Option Int) : Option Int :=
  verified.filter fun t => decide (cur.server.notAfter - t < renewBefore) && decide ((cur.renewal t).2 > cur.server.notAfter)

end Loaded

namespace Https

variable (name : String) (port : Nat)

/-- Also what has become of a new certificate, if one was asked for, and why. -/
def refresh (s : Https) (lan : Option Ipv4) (x : Found) : Option (Why × Except String Cert) × Https :=
  let cur := s.loaded
  let s := if lan.isSome then { s with lan } else s
  let ca := cur.ca
  let want := cur.want lan
  let expiring := cur.expiring x.verified
  let moved := want != cur.serverIp
  let error := lan.bind (scopeError name port ca)
  let (asked, error, s) :=
    if expiring.isSome || moved then
      let ((notBefore, notAfter), why) :=
        match expiring with
        | some t => (cur.renewal t, Why.renewed)
        | none => ((cur.server.notBefore, cur.server.notAfter), Why.moved)
      match s.issue name ca want notBefore notAfter x with
      | (.ok cert, s) => (some (why, .ok cert), error, s)
      | (.error e, s) => (some (why, .error e), some e, s)
    else (none, error, s)
  let s :=
    match lan.or cur.serverIp with
    | some ip => setHosts s ip name x
    | none => s
  let s := if lan.isSome || error.isSome then { s with error } else s
  (asked, s)

end Https

/-! ## What becomes of the certificate -/

/-- A new certificate is due: the address it should name changed, or it runs out and a renewal would end later. -/
def Loaded.Due (cur : Loaded) (lan : Option Ipv4) (verified : Option Int) : Prop :=
  (cur.expiring verified).isSome = true ∨ cur.want lan ≠ cur.serverIp

theorem expiring_eq {cur : Loaded} {verified : Option Int} {t : Int} :
    cur.expiring verified = some t ↔ verified = some t ∧ cur.server.notAfter - t < renewBefore ∧ cur.server.notAfter < (cur.renewal t).2 := by
  unfold Loaded.expiring
  rw [Option.filter_eq_some_iff, Bool.and_eq_true, decide_eq_true_eq, decide_eq_true_eq]

/-- A certificate that `issue` makes. -/
structure Made (ca : Ca) (lan : Option Ipv4) (notBefore notAfter : Int) (cert : Cert) : Prop where
  notBefore : cert.notBefore = notBefore
  notAfter : cert.notAfter = min notAfter ca.issuing.cert.notAfter
  ips : cert.ips = (lan.filter ca.scope.coversIp).toList

section

variable {name : String} {port : Nat} {s : Https} {lan : Option Ipv4} {x : Found}

/-- What `issue` leaves. -/
theorem issue_made {ca : Ca} {notBefore notAfter : Int} {made : Except String Cert} {s' : Https}
    (h : s.issue name ca lan notBefore notAfter x = (made, s')) :
    s'.hosts = s.hosts ∧ s'.reloads = s.reloads ∧
      ((∃ e, made = .error e) ∧ s'.loaded = s.loaded ∨
        made = .ok s'.loaded.server ∧ s'.loaded.ca = ca ∧ Made ca lan notBefore notAfter s'.loaded.server) := by
  unfold Https.issue at h
  dsimp only at h
  split at h
  · cases h
    exact ⟨rfl, rfl, .inl ⟨⟨_, rfl⟩, rfl⟩⟩
  · split at h
    · cases h
      exact ⟨rfl, rfl, .inl ⟨⟨_, rfl⟩, rfl⟩⟩
    · split at h
      · cases h
        exact ⟨rfl, rfl, .inl ⟨⟨_, rfl⟩, rfl⟩⟩
      · split at h
        · cases h
          exact ⟨rfl, rfl, .inl ⟨⟨_, rfl⟩, rfl⟩⟩
        · split at h
          · cases h
            exact ⟨rfl, rfl, .inl ⟨⟨_, rfl⟩, rfl⟩⟩
          · next l keys hl =>
            cases h
            obtain ⟨hca, hserver, -, -⟩ := Loaded.new_ok hl
            refine ⟨rfl, rfl, .inr ⟨by rw [hserver], hca, ?_⟩⟩
            dsimp only
            rw [hserver]
            exact ⟨rfl, rfl, rfl⟩

/-- With a name the CA covers, or an address, and files that can be written, a certificate is issued. -/
theorem issue_succeeds {ca : Ca} {notBefore notAfter : Int}
    (hcovers : ca.scope.coversName name = true ∨ (lan.filter ca.scope.coversIp).isSome = true) {key : Key} (hkey : x.key = .ok key)
    (hsavedKey : x.savedKey = .ok ()) (hsavedCrt : x.savedCrt = .ok ()) :
    ∃ cert s', s.issue name ca lan notBefore notAfter x = (.ok cert, s') := by
  have hcond : ¬ ((lan.filter ca.scope.coversIp).toList.isEmpty && ([name].filter ca.scope.coversName).isEmpty) = true := by
    rcases hcovers with h | h
    · rw [List.filter_cons_of_pos h]
      simp
    · obtain ⟨a, ha⟩ := Option.isSome_iff_exists.mp h
      rw [ha]
      exact nofun
  unfold Https.issue
  dsimp only
  rw [if_neg hcond, hkey, hsavedKey, hsavedCrt]
  dsimp only
  obtain ⟨l, keys, hl⟩ := @Loaded.new_of ca (leaf ca.issuing
    ⟨[name].filter ca.scope.coversName, (lan.filter ca.scope.coversIp).toList, notBefore, min notAfter ca.issuing.cert.notAfter⟩ key) rfl rfl
  rw [hl]
  exact ⟨_, _, rfl⟩

/-- The dates asked for. -/
def Loaded.dates (cur : Loaded) (verified : Option Int) : Int × Int :=
  (cur.expiring verified).elim (cur.server.notBefore, cur.server.notAfter) cur.renewal

def Loaded.why (cur : Loaded) (verified : Option Int) : Why := if (cur.expiring verified).isSome then .renewed else .moved

/-- What has become of a certificate after a refresh. -/
inductive Fate (cur : Loaded) (lan : Option Ipv4) (verified : Option Int) : Option (Why × Except String Cert) → Loaded → Prop where
  | kept (h : ¬ cur.Due lan verified) : Fate cur lan verified none cur
  | failed (h : cur.Due lan verified) (e : String) : Fate cur lan verified (some (cur.why verified, .error e)) cur
  | issued (h : cur.Due lan verified) {l : Loaded} (hca : l.ca = cur.ca)
      (hmade : Made cur.ca (cur.want lan) (cur.dates verified).1 (cur.dates verified).2 l.server) :
      Fate cur lan verified (some (cur.why verified, .ok l.server)) l

theorem setHosts_loaded (s : Https) (ip : Ipv4) (name : String) (x : Found) : (setHosts s ip name x).loaded = s.loaded := by
  unfold setHosts
  dsimp only
  split
  · rfl
  · split <;> rfl

/-- The hosts file after a refresh. -/
def hostsAfter (s : Https) (lan : Option Ipv4) (name : String) (x : Found) : Https :=
  match lan.or s.loaded.serverIp with
  | some ip => setHosts s ip name x
  | none => s

theorem setHosts_congr {s₁ : Https} (hhosts : s₁.hosts = s.hosts) (hreloads : s₁.reloads = s.reloads) (ip : Ipv4) :
    (setHosts s₁ ip name x).hosts = (setHosts s ip name x).hosts ∧ (setHosts s₁ ip name x).reloads = (setHosts s ip name x).reloads := by
  unfold setHosts
  dsimp only
  rw [hhosts]
  split
  · exact ⟨hhosts, hreloads⟩
  · split
    · exact ⟨hhosts, hreloads⟩
    · exact ⟨rfl, congrArg (· + 1) hreloads⟩

/-- A new certificate can be made and saved. -/
structure Able (name : String) (cur : Loaded) (lan : Option Ipv4) (x : Found) : Prop where
  covers : cur.ca.scope.coversName name = true ∨ (cur.want lan).isSome = true
  key : ∃ key, x.key = .ok key
  savedKey : x.savedKey = .ok ()
  savedCrt : x.savedCrt = .ok ()

/-- What a refresh does after the certificate. -/
def closing (name : String) (cur : Loaded) (lan : Option Ipv4) (x : Found) (error : Option String) (s : Https) : Https :=
  let s :=
    match lan.or cur.serverIp with
    | some ip => setHosts s ip name x
    | none => s
  if lan.isSome || error.isSome then { s with error } else s

theorem closing_parts (name : String) (lan : Option Ipv4) (x : Found) {s₁ : Https} (hhosts : s₁.hosts = s.hosts) (hreloads : s₁.reloads = s.reloads) (error : Option String) :
    (closing name s.loaded lan x error s₁).loaded = s₁.loaded ∧
      (closing name s.loaded lan x error s₁).hosts = (hostsAfter s lan name x).hosts ∧
      (closing name s.loaded lan x error s₁).reloads = (hostsAfter s lan name x).reloads := by
  have hset : ∀ s₂ : Https, s₂.loaded = s₁.loaded ∧ s₂.hosts = (hostsAfter s lan name x).hosts ∧ s₂.reloads = (hostsAfter s lan name x).reloads →
      (if lan.isSome || error.isSome then { s₂ with error } else s₂).loaded = s₁.loaded ∧
        (if lan.isSome || error.isSome then { s₂ with error } else s₂).hosts = (hostsAfter s lan name x).hosts ∧
        (if lan.isSome || error.isSome then { s₂ with error } else s₂).reloads = (hostsAfter s lan name x).reloads := by
    intro s₂ h
    split
    · exact h
    · exact h
  refine hset _ ?_
  unfold hostsAfter
  cases lan.or s.loaded.serverIp with
  | none => exact ⟨rfl, hhosts, hreloads⟩
  | some ip =>
    obtain ⟨h, h'⟩ := setHosts_congr hhosts hreloads ip
    exact ⟨setHosts_loaded _ _ _ _, h, h'⟩

/-- The certificate is issued if it is due; then the hosts file follows the address; then Settings' line. -/
theorem refresh_parts (name : String) (port : Nat) (s : Https) (lan : Option Ipv4) (x : Found) :
    Fate s.loaded lan x.verified (s.refresh name port lan x).1 (s.refresh name port lan x).2.loaded ∧
      (s.refresh name port lan x).2.hosts = (hostsAfter s lan name x).hosts ∧
      (s.refresh name port lan x).2.reloads = (hostsAfter s lan name x).reloads ∧
      (Able name s.loaded lan x → ∀ why e, (s.refresh name port lan x).1 ≠ some (why, .error e)) := by
  obtain ⟨s₀, hs₀⟩ : ∃ s₀, s₀ = if lan.isSome then { s with lan } else s := ⟨_, rfl⟩
  have hsame : s₀.loaded = s.loaded ∧ s₀.hosts = s.hosts ∧ s₀.reloads = s.reloads := by
    rw [hs₀]
    split
    · exact ⟨rfl, rfl, rfl⟩
    · exact ⟨rfl, rfl, rfl⟩
  by_cases hdue : s.loaded.Due lan x.verified
  · have hcond : ((s.loaded.expiring x.verified).isSome || s.loaded.want lan != s.loaded.serverIp) = true := by
      rw [Bool.or_eq_true, bne_iff_ne]
      exact hdue
    obtain ⟨made, s₁, hissue⟩ : ∃ made s₁, s₀.issue name s.loaded.ca (s.loaded.want lan) (s.loaded.dates x.verified).1
      (s.loaded.dates x.verified).2 x = (made, s₁) := ⟨_, _, rfl⟩
    have hrefresh : s.refresh name port lan x =
        match made with
        | .ok cert => (some (s.loaded.why x.verified, .ok cert), closing name s.loaded lan x (lan.bind (scopeError name port s.loaded.ca)) s₁)
        | .error e => (some (s.loaded.why x.verified, .error e), closing name s.loaded lan x (some e) s₁) := by
      unfold Loaded.dates at hissue
      unfold Loaded.why
      unfold Https.refresh
      dsimp only
      rw [if_pos hcond, ← hs₀]
      rcases Option.eq_none_or_eq_some (s.loaded.expiring x.verified) with hexp | ⟨t, hexp⟩
      · rw [hexp] at hissue
        dsimp only [Option.elim] at hissue
        simp only [hexp, hissue]
        cases made with
        | ok cert => rfl
        | error e => rfl
      · rw [hexp] at hissue
        dsimp only [Option.elim] at hissue
        simp only [hexp, hissue]
        cases made with
        | ok cert => rfl
        | error e => rfl
    obtain ⟨hhosts, hreloads, hmade⟩ := issue_made hissue
    have hclosing := fun error => closing_parts name lan x (hhosts.trans hsame.2.1) (hreloads.trans hsame.2.2) error
    rw [hrefresh]
    rcases hmade with ⟨⟨e, rfl⟩, hloaded⟩ | ⟨rfl, hca, hcert⟩
    · obtain ⟨hl, hh, hr⟩ := hclosing (some e)
      dsimp only
      rw [hl, hloaded, hsame.1]
      refine ⟨.failed hdue e, hh, hr, fun hable => ?_⟩
      obtain ⟨key, hkey⟩ := hable.key
      have hwant : (s.loaded.want lan).filter s.loaded.ca.scope.coversIp = s.loaded.want lan := by
        rw [Loaded.want, Option.filter_filter]
        simp only [Bool.and_self]
      obtain ⟨cert, s₂, hsucceeds⟩ := issue_succeeds (hwant ▸ hable.covers) hkey hable.savedKey hable.savedCrt
      rw [hsucceeds] at hissue
      cases hissue
    · obtain ⟨hl, hh, hr⟩ := hclosing (lan.bind (scopeError name port s.loaded.ca))
      dsimp only
      rw [hl]
      exact ⟨.issued hdue hca hcert, hh, hr, fun _ why e heq => by cases heq⟩
  · have hcond : ¬ ((s.loaded.expiring x.verified).isSome || s.loaded.want lan != s.loaded.serverIp) = true := by
      rw [Bool.or_eq_true, bne_iff_ne]
      exact hdue
    have hrefresh : s.refresh name port lan x = (none, closing name s.loaded lan x (lan.bind (scopeError name port s.loaded.ca)) s₀) := by
      unfold Https.refresh
      dsimp only
      rw [if_neg hcond, ← hs₀]
      rfl
    obtain ⟨hl, hh, hr⟩ := closing_parts name lan x hsame.2.1 hsame.2.2 (lan.bind (scopeError name port s.loaded.ca))
    rw [hrefresh]
    dsimp only
    rw [hl, hsame.1]
    exact ⟨.kept hdue, hh, hr, fun _ => nofun⟩

/-! ## The next refresh -/

/-- A refresh that is all right: what was due has been issued, and the hosts file has the address's line. -/
structure Succeeded (name : String) (s : Https) (lan : Option Ipv4) (r : Option (Why × Except String Cert) × Https) : Prop where
  issued : ∀ why e, r.1 ≠ some (why, .error e)
  hosts : ∀ ip ∈ lan.or s.loaded.serverIp, r.2.hosts = some (hostsLine ip name)

/-- The certificate names the address it should. -/
def Loaded.Settled (cur : Loaded) (lan : Option Ipv4) : Prop := cur.want lan = cur.serverIp

variable {cur l : Loaded} {verified : Option Int} {asked : Option (Why × Except String Cert)}

theorem Made.serverIp {notBefore notAfter : Int} (h : Made l.ca (cur.want lan) notBefore notAfter l.server) (hca : l.ca = cur.ca) :
    l.serverIp = cur.want lan := by
  unfold Loaded.serverIp
  rw [h.ips, hca, Loaded.want, Option.filter_filter]
  simp only [Bool.and_self]
  cases (lan.or cur.serverIp).filter cur.ca.scope.coversIp with
  | none => rfl
  | some a => rfl

theorem want_want (hip : l.serverIp = cur.want lan) (hca : l.ca = cur.ca) : l.Settled lan := by
  unfold Loaded.Settled
  rw [hip, Loaded.want, Loaded.want, hip, hca]
  cases lan with
  | some a => rfl
  | none =>
    rw [Option.none_or, Loaded.want, Option.none_or, Option.filter_filter]
    simp only [Bool.and_self]

theorem Fate.asked_iff (h : Fate cur lan verified asked l) : asked.isSome = true ↔ cur.Due lan verified := by
  cases h with
  | kept hno => exact iff_of_false nofun hno
  | failed hdue e => exact iff_of_true rfl hdue
  | issued hdue hca hmade => exact iff_of_true rfl hdue

theorem Fate.settled (h : Fate cur lan verified asked l) (hsome : ∃ why cert, asked = some (why, .ok cert)) : l.Settled lan := by
  cases h with
  | kept => obtain ⟨why, cert, h⟩ := hsome; cases h
  | failed h e => obtain ⟨why, cert, h⟩ := hsome; cases h
  | issued h hca hmade => exact want_want ((hca ▸ hmade).serverIp hca) hca

theorem why_renewed (h : cur.why verified = .renewed) : ∃ t, cur.expiring verified = some t := by
  unfold Loaded.why at h
  split at h
  · exact Option.isSome_iff_exists.mp ‹_›
  · cases h

theorem why_moved (h : cur.why verified = .moved) : cur.expiring verified = none := by
  unfold Loaded.why at h
  split at h
  · cases h
  · exact Option.not_isSome_iff_eq_none.mp ‹_›

/-- Fewer than 30 days are left. -/
def Loaded.RunsOut (cur : Loaded) (t : Int) : Prop := cur.server.notAfter - t < renewBefore

/-- The dates of a certificate that has been issued. -/
theorem Fate.dates {why : Why} {cert : Cert} (h : Fate cur lan verified (some (why, .ok cert)) l) :
    l.server = cert ∧ l.ca = cur.ca ∧ cert.notAfter ≤ cur.ca.issuing.cert.notAfter ∧
      (why = .renewed → ∃ t, verified = some t ∧ cur.RunsOut t ∧ cur.server.notAfter < cert.notAfter ∧
        cert.notAfter = min (t - backdate + serverDays * day) cur.ca.issuing.cert.notAfter) ∧
      (why = .moved → cur.want lan ≠ cur.serverIp ∧ cur.expiring verified = none ∧ cert.notBefore = cur.server.notBefore ∧
        cert.notAfter = min cur.server.notAfter cur.ca.issuing.cert.notAfter) := by
  cases h with
  | issued hdue hca hmade =>
    have hend := hmade.notAfter
    refine ⟨rfl, hca, by omega, ?_, ?_⟩
    · intro hwhy
      obtain ⟨t, ht⟩ := why_renewed hwhy
      obtain ⟨hverified, hleft, hlater⟩ := expiring_eq.mp ht
      have hdates : cur.dates verified = cur.renewal t := by rw [Loaded.dates, ht]; rfl
      rw [hdates] at hend
      have hmin : (cur.renewal t).2 = min (t - backdate + serverDays * day) cur.ca.issuing.cert.notAfter := rfl
      exact ⟨t, hverified, hleft, by omega, by omega⟩
    · intro hwhy
      have hnone := why_moved hwhy
      have hdates : cur.dates verified = (cur.server.notBefore, cur.server.notAfter) := by rw [Loaded.dates, hnone]; rfl
      have hstart := hmade.notBefore
      rw [hdates] at hend hstart
      refine ⟨hdue.resolve_left ?_, hnone, hstart, hend⟩
      rw [hnone]
      exact nofun

theorem expiring_of_out {t : Int} (hout : cur.RunsOut t) (hend : cur.server.notAfter < cur.ca.issuing.cert.notAfter) :
    cur.expiring (some t) = some t := by
  refine expiring_eq.mpr ⟨rfl, hout, ?_⟩
  show cur.server.notAfter < min (t - backdate + serverDays * day) cur.ca.issuing.cert.notAfter
  unfold Loaded.RunsOut at hout
  unfold backdate serverDays renewBefore day at *
  omega

/-- What is due at the next refresh runs out by its clock and did not by the one before; and a renewal holds for more
than a day. -/
theorem Fate.next {t t' : Int} (h : Fate cur lan (some t) asked l) (hok : ∀ why e, asked ≠ some (why, .error e))
    (hdue : l.Due lan (some t')) : l.RunsOut t' ∧ ¬ l.RunsOut t ∧ (t' ≤ t + day → ∀ cert, asked ≠ some (.renewed, .ok cert)) := by
  have hsettled : l.Settled lan := by
    cases h with
    | kept hno => exact not_not.mp fun hne => hno (.inr hne)
    | failed hdue e => exact absurd rfl (hok _ e)
    | issued hdue hca hmade => exact want_want ((hca ▸ hmade).serverIp hca) hca
  obtain ⟨t'', ht''⟩ := Option.isSome_iff_exists.mp (hdue.resolve_right fun hne => hne hsettled)
  obtain ⟨heq, hleft, hlater⟩ := expiring_eq.mp ht''
  cases heq
  have hlater : l.server.notAfter < min (t' - backdate + serverDays * day) l.ca.issuing.cert.notAfter := hlater
  refine ⟨hleft, fun hout => ?_, fun hday cert hasked => ?_⟩
  · unfold Loaded.RunsOut at hout
    cases h with
    | kept hno =>
      have hend : cur.server.notAfter < cur.ca.issuing.cert.notAfter := by omega
      refine hno (.inl ?_)
      rw [expiring_of_out hout hend]
      rfl
    | failed hdue e => exact hok _ e rfl
    | issued hdue hca hmade =>
      obtain ⟨-, -, -, hrenewed, hmoved⟩ := (Fate.issued hdue hca hmade).dates
      rw [hca] at hlater
      cases hwhy : cur.why (some t) with
      | renewed =>
        obtain ⟨t₀, ht₀, -, -, hafter⟩ := hrenewed hwhy
        cases ht₀
        unfold backdate serverDays renewBefore day at *
        omega
      | moved =>
        obtain ⟨-, hnone, -, hafter⟩ := hmoved hwhy
        have hkept : cur.RunsOut t ∧ cur.server.notAfter < cur.ca.issuing.cert.notAfter := by
          unfold Loaded.RunsOut
          unfold backdate serverDays renewBefore day at *
          omega
        rw [expiring_of_out hkept.1 hkept.2] at hnone
        cases hnone
  · rw [hasked] at h
    obtain ⟨hserver, hca, -, hrenewed, -⟩ := h.dates
    obtain ⟨t₀, ht₀, -, -, hafter⟩ := hrenewed rfl
    cases ht₀
    rw [hserver] at hleft hlater
    rw [hca] at hlater
    unfold backdate serverDays renewBefore day at *
    omega

/-- The hosts file has the line of the address that the next refresh finds, too. -/
theorem Fate.hosts {t : Option Int} (h : Fate s.loaded lan t asked l) (hok : ∀ why e, asked ≠ some (why, .error e)) {ip : Ipv4}
    (hip : lan.or l.serverIp = some ip) : lan.or s.loaded.serverIp = some ip := by
  cases lan with
  | some a => exact hip
  | none =>
    rw [Option.none_or] at hip ⊢
    cases h with
    | kept => exact hip
    | failed hdue e => exact absurd rfl (hok _ e)
    | issued hdue hca hmade =>
      have hwant := Made.serverIp (hca ▸ hmade) hca
      rw [hwant, Loaded.want, Option.none_or] at hip
      exact (Option.filter_eq_some_iff.mp hip).1

/-! ## A sequence of refreshes -/

/-- Each with what it found and what became of it. -/
def refreshes (name : String) (port : Nat) (s : Https) (lan : Option Ipv4) : List Found → List (Found × Option (Why × Except String Cert))
  | [] => []
  | x :: xs => (x, (s.refresh name port lan x).1) :: refreshes name port (s.refresh name port lan x).2 lan xs

/-- A later certificate is a renewal, and 300 days after an earlier renewal. -/
def Apart (a b : Found × Option (Why × Except String Cert)) : Prop :=
  ∀ why cert why' cert', a.2 = some (why, .ok cert) → b.2 = some (why', .ok cert') →
    why' = .renewed ∧ (why = .renewed → ∃ t t', a.1.verified = some t ∧ b.1.verified = some t' ∧ t + 300 * day ≤ t')

/-- As a renewal at `t` leaves it. -/
def Loaded.Lasts (l : Loaded) (t : Int) : Prop := min (t - backdate + serverDays * day) l.ca.issuing.cert.notAfter ≤ l.server.notAfter

theorem Fate.still_settled (h : Fate cur lan verified asked l) (hsettled : cur.Settled lan) : l.Settled lan := by
  cases h with
  | kept => exact hsettled
  | failed => exact hsettled
  | issued hdue hca hmade => exact want_want ((hca ▸ hmade).serverIp hca) hca

theorem Fate.still_lasts {t : Int} (h : Fate cur lan verified asked l) (hsettled : cur.Settled lan) (hlasts : cur.Lasts t) : l.Lasts t := by
  unfold Loaded.Lasts at hlasts ⊢
  cases h with
  | kept => exact hlasts
  | failed => exact hlasts
  | issued hdue hca hmade =>
    obtain ⟨-, -, -, hrenewed, hmoved⟩ := (Fate.issued hdue hca hmade).dates
    cases hwhy : cur.why verified with
    | renewed =>
      obtain ⟨t₀, -, -, hlater, -⟩ := hrenewed hwhy
      rw [hca]
      omega
    | moved => exact absurd hsettled (hmoved hwhy).1

theorem refreshes_settled {t : Int} {b : Found × Option (Why × Except String Cert)} {xs : List Found} (hsettled : s.loaded.Settled lan)
    (hb : b ∈ refreshes name port s lan xs) {why : Why} {cert : Cert} (hcert : b.2 = some (why, .ok cert)) :
    why = .renewed ∧ (s.loaded.Lasts t → ∃ t', b.1.verified = some t' ∧ t + 300 * day ≤ t') := by
  induction xs generalizing s with
  | nil => cases hb
  | cons x xs ih =>
    obtain ⟨hfate, -⟩ := refresh_parts name port s lan x
    rcases List.mem_cons.mp hb with rfl | hb
    · dsimp only at hcert
      rw [hcert] at hfate
      obtain ⟨-, -, -, hrenewed, hmoved⟩ := hfate.dates
      have hwhy : why = .renewed := by
        cases why with
        | renewed => rfl
        | moved => exact absurd hsettled (hmoved rfl).1
      refine ⟨hwhy, fun hlasts => ?_⟩
      obtain ⟨t', hverified, hout, hlater, hafter⟩ := hrenewed hwhy
      refine ⟨t', hverified, ?_⟩
      unfold Loaded.Lasts at hlasts
      unfold Loaded.RunsOut at hout
      unfold backdate serverDays renewBefore day at *
      omega
    · obtain ⟨hwhy, hlate⟩ := ih (hfate.still_settled hsettled) hb
      exact ⟨hwhy, fun hlasts => hlate (hfate.still_lasts hsettled hlasts)⟩

theorem refreshes_apart (name : String) (port : Nat) (s : Https) (lan : Option Ipv4) (xs : List Found) :
    (refreshes name port s lan xs).Pairwise Apart := by
  induction xs generalizing s with
  | nil => exact .nil
  | cons x xs ih =>
    refine List.pairwise_cons.mpr ⟨?_, ih _⟩
    intro b hb why cert why' cert' ha hcert
    obtain ⟨hfate, -⟩ := refresh_parts name port s lan x
    dsimp only at ha
    rw [ha] at hfate
    have hsettled := hfate.settled ⟨why, cert, rfl⟩
    obtain ⟨hserver, hca, -, hrenewed, -⟩ := hfate.dates
    refine ⟨(refreshes_settled (t := 0) hsettled hb hcert).1, fun hwhy => ?_⟩
    obtain ⟨t, hverified, -, -, hafter⟩ := hrenewed hwhy
    have hlasts : (s.refresh name port lan x).2.loaded.Lasts t := by
      unfold Loaded.Lasts
      rw [hserver, hca, hafter]
    obtain ⟨t', hverified', hle⟩ := (refreshes_settled hsettled hb hcert).2 hlasts
    exact ⟨t, t', hverified, hverified', hle⟩

/-- A refresh asks for a certificate exactly when one is due, and gets it if the CA covers the name or the address and files can
be written; a day on nothing is due unless the thirtieth day before the end has come, and the hosts file stays; no
certificate outlives its CA, a renewal ends later, and one for a moved address keeps its dates; with one address, after the
first certificate there are only renewals, 300 days apart. -/
theorem renewal_settles (name : String) (port : Nat) (s : Https) (lan : Option Ipv4) (x : Found) :
    ((s.refresh name port lan x).1.isSome = true ↔ s.loaded.Due lan x.verified) ∧
    (Able name s.loaded lan x → ∀ why e, (s.refresh name port lan x).1 ≠ some (why, .error e)) ∧
    (∀ t y t', x.verified = some t → Succeeded name s lan (s.refresh name port lan x) → y.verified = some t' → t ≤ t' → t' ≤ t + day →
      (((s.refresh name port lan x).2.refresh name port lan y).1.isSome = true →
        (s.refresh name port lan x).2.loaded.RunsOut t' ∧ ¬ (s.refresh name port lan x).2.loaded.RunsOut t ∧
          ∀ cert, (s.refresh name port lan x).1 ≠ some (.renewed, .ok cert)) ∧
      ((s.refresh name port lan x).2.refresh name port lan y).2.hosts = (s.refresh name port lan x).2.hosts ∧
      ((s.refresh name port lan x).2.refresh name port lan y).2.reloads = (s.refresh name port lan x).2.reloads) ∧
    (∀ why cert, (s.refresh name port lan x).1 = some (why, .ok cert) →
      (s.refresh name port lan x).2.loaded.server = cert ∧ cert.notAfter ≤ s.loaded.ca.issuing.cert.notAfter ∧
      (why = .renewed → s.loaded.server.notAfter < cert.notAfter) ∧
      (why = .moved → cert.notBefore = s.loaded.server.notBefore ∧
        cert.notAfter = min s.loaded.server.notAfter s.loaded.ca.issuing.cert.notAfter)) ∧
    ∀ xs, (refreshes name port s lan xs).Pairwise Apart := by
  obtain ⟨hfate, -, -, hable⟩ := refresh_parts name port s lan x
  refine ⟨hfate.asked_iff, hable, ?_, ?_, refreshes_apart name port s lan⟩
  · intro t y t' hverified hok hverified' _ hday
    obtain ⟨hfate', hhosts, hreloads, -⟩ := refresh_parts name port (s.refresh name port lan x).2 lan y
    rw [hverified] at hfate
    rw [hverified'] at hfate'
    refine ⟨fun hasked => ?_, ?_⟩
    · obtain ⟨hout, hin, hrenewed⟩ := hfate.next hok.issued (hfate'.asked_iff.mp hasked)
      exact ⟨hout, hin, hrenewed hday⟩
    · have hsame : hostsAfter (s.refresh name port lan x).2 lan name y = (s.refresh name port lan x).2 := by
        unfold hostsAfter
        cases hip : lan.or (s.refresh name port lan x).2.loaded.serverIp with
        | none => rfl
        | some ip =>
          have hline := hok.hosts ip (hfate.hosts hok.issued hip)
          exact if_pos hline
      rw [hhosts, hreloads, hsame]
      exact ⟨rfl, rfl⟩
  · intro why cert hcert
    rw [hcert] at hfate
    obtain ⟨hserver, -, hend, hrenewed, hmoved⟩ := hfate.dates
    refine ⟨hserver, hend, fun hwhy => ?_, fun hwhy => ?_⟩
    · obtain ⟨t, -, -, hlater, -⟩ := hrenewed hwhy
      exact hlater
    · obtain ⟨-, -, hstart, hafter⟩ := hmoved hwhy
      exact ⟨hstart, hafter⟩

/-- The refresh that power loss can interrupt begins the same way. -/
theorem refresh_begins (name : String) (w : World) (cur : Loaded) (lan : Option Ipv4) (op : Operation) (x : Outcome) :
    (cur.Due lan x.verified → w.refresh name cur lan op x =
      w.issue name cur.ca (cur.want lan) (cur.dates x.verified).1 (cur.dates x.verified).2 lan op true x) ∧
    (¬ cur.Due lan x.verified → w.refresh name cur lan op x = w.finish op (.ok ())) := by
  have hexpiring : (x.verified.filter fun t => decide (cur.server.notAfter - t < renewBefore) &&
      decide (min (t - backdate + serverDays * day) cur.ca.issuing.cert.notAfter > cur.server.notAfter)) = cur.expiring x.verified := rfl
  unfold World.refresh
  dsimp only
  rw [hexpiring]
  constructor
  · intro hdue
    rw [if_pos (by rw [Bool.or_eq_true, bne_iff_ne]; exact hdue)]
    unfold Loaded.dates
    cases cur.expiring x.verified with
    | none => rfl
    | some t => rfl
  · intro hno
    exact if_neg (by rw [Bool.or_eq_true, bne_iff_ne]; exact hno)

end

/-! ## A certificate for the old address, with 30 days left -/

def movedAuthority (ends : Int) : Ca where
  root := { subject := ⟨some org, "root"⟩, issuer := ⟨some org, "root"⟩, notBefore := 0, notAfter := ends, point := 1, dns := [], ips := [],
            scope := none, signer := ⟨1⟩ }
  issuing :=
    { key := ⟨2⟩
      cert := { subject := ⟨some org, "issuing"⟩, issuer := ⟨some org, "root"⟩, notBefore := 0, notAfter := ends, point := 2, dns := [], ips := [],
                scope := some ⟨[(0xC0A80001, 32)], [localName]⟩, signer := ⟨1⟩ } }
  scope := ⟨[(0xC0A80001, 32)], [localName]⟩
  chained := rfl
  matching := rfl
  permits := rfl

def movedServer (ends : Int) : Https where
  loaded :=
    { ca := movedAuthority ends
      server := { subject := ⟨none, localName⟩, issuer := ⟨some org, "issuing"⟩, notBefore := 0, notAfter := 30 * day, point := 3,
                  dns := [localName], ips := [0x0A000009], scope := none, signer := ⟨2⟩ }
      issued := rfl }
  keys := { chain := [], key := ⟨3⟩ }

theorem renewal_unsettled :
    Succeeded localName (movedServer (3650 * day)) (some 0xC0A80001)
        ((movedServer (3650 * day)).refresh localName 9443 (some 0xC0A80001) { verified := some 0 }) ∧
      ((refreshes localName 9443 (movedServer (3650 * day)) (some 0xC0A80001) [{ verified := some 0 }, { verified := some 1 }]).map
        fun r => r.2.map fun p => (p.1, p.2.isOk)) = [some (.moved, true), some (.renewed, true)] ∧
      ((movedServer (10 * day)).refresh localName 9443 (some 0xC0A80001) { verified := none }).2.loaded.server.notAfter = 10 * day := by
  refine ⟨⟨?_, ?_⟩, by decide +kernel, by decide +kernel⟩
  · intro why e h
    have hok : ((movedServer (3650 * day)).refresh localName 9443 (some 0xC0A80001) { verified := some 0 }).1.all (·.2.isOk) = true := by
      decide +kernel
    rw [h] at hok
    cases hok
  · intro ip hip
    cases hip
    decide +kernel

end OpenU60.Tls
