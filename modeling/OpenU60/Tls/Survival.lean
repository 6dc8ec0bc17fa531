/-
  OpenU60.Tls.Survival — the router's certificate authority across interruptions.

  The disk holds a whole authority or none that could be used: the issuing certificate is the
  last of its files to be saved and the first to be removed, after the server certificate.
  While it holds one, the agent's memory knows no other, and knows it whenever an operation
  is over and `start` has run, so `turn_on` makes no second one.
  - `authority_survives`: where `start` is a boot's first operation, the authority on disk
    stays the one it was when `turn_on` last succeeded, until a reset is asked for; what is
    served is that authority's, within its scope and time, and fits its key; and the next
    start comes up with it, or keeps it for a `turn_on` that then succeeds with it.
  - `overtaken_start_loses_authority`: a `turn_on` before the boot's `start` makes another
    authority, and a start that cannot save stays off.
-/

import OpenU60.Lib.Machine
import OpenU60.Tls.Manager

namespace OpenU60.Tls

open OpenU60.Lib.Machine

/-! ## Certificates -/

/-- Signed by the authority's issuing CA, within its scope and time. -/
structure Issued (ca : Ca) (c : Cert) : Prop where
  issuer : c.issuer = ca.issuing.cert.subject
  signed : c.signer = ca.issuing.key
  ends : c.notAfter ≤ ca.issuing.cert.notAfter
  names : ∀ d ∈ c.dns, ca.scope.coversName d = true
  addresses : ∀ ip ∈ c.ips, ca.scope.coversIp ip = true

variable {ca : Ca}

theorem Ca.new_ok {root : Cert} {issuing : KeyCert} (h : Ca.new root issuing = .ok ca) :
    ca.root = root ∧ ca.issuing = issuing := by
  unfold Ca.new at h
  split at h
  · split at h
    · split at h
      · cases h
        exact ⟨rfl, rfl⟩
      · cases h
    · cases h
  · cases h

theorem Ca.new_self (ca : Ca) : Ca.new ca.root ca.issuing = .ok ca := by
  unfold Ca.new
  rw [dif_pos ca.chained, dif_pos ca.matching]
  split
  · rename_i scope hs
    have : scope = ca.scope := Option.some.inj (hs.symm.trans ca.permits)
    subst this
    rfl
  · rename_i hs
    rw [ca.permits] at hs
    cases hs

theorem Ca.ext_files {a b : Ca} (hroot : a.root = b.root) (hissuing : a.issuing = b.issuing) : a = b := by
  have ha := Ca.new_self a
  rw [hroot, hissuing, Ca.new_self b] at ha
  exact (Except.ok.inj ha).symm

theorem Loaded.new_ok {server : KeyCert} {l : Loaded} {key : CertifiedKey} (h : Loaded.new ca server = .ok (l, key)) :
    l.ca = ca ∧ l.server = server.cert ∧ key = ⟨[server.cert, ca.issuing.cert], server.key⟩ ∧
      server.key.point = server.cert.point := by
  unfold Loaded.new at h
  split at h
  · split at h
    · cases h
      exact ⟨rfl, rfl, rfl, ‹_›⟩
    · cases h
  · cases h

theorem Loaded.new_of {server : KeyCert} (hi : server.cert.issuer = ca.issuing.cert.subject)
    (hk : server.key.point = server.cert.point) : ∃ l key, Loaded.new ca server = .ok (l, key) := by
  unfold Loaded.new
  rw [dif_pos hi, if_pos hk]
  exact ⟨_, _, rfl⟩

theorem leaf_issued {spec : LeafSpec} (key : Key) (hends : spec.notAfter ≤ ca.issuing.cert.notAfter)
    (hnames : ∀ d ∈ spec.dns, ca.scope.coversName d = true) (haddresses : ∀ ip ∈ spec.ips, ca.scope.coversIp ip = true) :
    Issued ca (leaf ca.issuing spec key).cert := ⟨rfl, rfl, hends, hnames, haddresses⟩

theorem leaf_matches (ca : KeyCert) (spec : LeafSpec) (key : Key) :
    (leaf ca spec key).key.point = (leaf ca spec key).cert.point := rfl

/-- A new authority covers its name and its server certificate. -/
theorem newAuthority_sound {name : String} (hname : name.toLower = name) {now : Int} {ip : Ipv4} {d : Draw} {root : Cert}
    {issuing server : KeyCert} (h : World.newAuthority name now ip d = (root, issuing, server)) :
    ∃ ca, Ca.new root issuing = .ok ca ∧ ca.scope.coversName name = true ∧ Issued ca server.cert ∧
      server.key.point = server.cert.point := by
  have hnew : ∃ ca : Ca, Ca.new root issuing = .ok ca ∧ ca.scope = ⟨([ip].filter isPrivate).map fun a => (a, 32), [name.toLower]⟩ := by
    cases h
    exact ⟨_, Ca.new_self ⟨_, _, ⟨_, [name.toLower]⟩, rfl, rfl, rfl⟩, rfl⟩
  obtain ⟨ca, hca, hscope⟩ := hnew
  obtain ⟨-, hissuing⟩ := Ca.new_ok hca
  have hcovers : ca.scope.coversName name = true := by
    rw [hscope, hname]
    simp [Scope.coversName]
  refine ⟨ca, hca, hcovers, ?_, ?_⟩
  · cases h
    rw [← hissuing]
    refine leaf_issued _ ?_ (fun n hn => ?_) (fun a ha => ?_)
    · rw [hissuing]
      show now - backdate + serverDays * day ≤ now + caDays * day
      unfold backdate serverDays caDays day
      omega
    · rw [List.mem_singleton.mp hn]
      exact hcovers
    · rw [hscope]
      unfold Scope.coversIp
      rw [List.map_map] at ha
      obtain ⟨b, hb, rfl⟩ := List.mem_map.mp ha
      rw [List.any_eq_true]
      exact ⟨(b, 32), List.mem_map_of_mem hb, beq_self_eq_true _⟩
  · cases h
    rfl

/-! ## The disk -/

/-- No authority that could be used, and no certificate of one. -/
def Bare (d : Disk) : Prop := d.issuingCrt = none ∧ d.serverCrt = none

/-- The disk holds the authority, and of server certificates at most one of its own. -/
structure Holds (name : String) (d : Disk) (ca : Ca) : Prop where
  root : d.caCrt = some ca.root
  key : d.issuingKey = some ca.issuing.key
  crt : d.issuingCrt = some ca.issuing.cert
  server : ∀ c, d.serverCrt = some c → Issued ca c
  covers : ca.scope.coversName name = true

variable {name : String}

variable {d : Disk}

theorem Holds.unique {a b : Ca} (ha : Holds name d a) (hb : Holds name d b) : a = b := by
  refine Ca.ext_files (Option.some.inj (ha.root.symm.trans hb.root)) ?_
  have hkey := Option.some.inj (ha.key.symm.trans hb.key)
  have hcrt := Option.some.inj (ha.crt.symm.trans hb.crt)
  show (⟨a.issuing.key, a.issuing.cert⟩ : KeyCert) = ⟨b.issuing.key, b.issuing.cert⟩
  rw [hkey, hcrt]

theorem Holds.not_bare (h : Holds name d ca) : ¬ Bare d := by
  intro hb
  have := h.crt
  rw [hb.1] at this
  cases this

theorem Holds.readFiles (h : Holds name d ca) :
    d.readFiles = .ok (some (ca.root, ca.issuing, d.serverKey, d.serverCrt)) := by
  simp only [Disk.readFiles, h.root, h.key, h.crt]

theorem Bare.readFiles (h : Bare d) (f : Cert × KeyCert × Option Key × Option Cert) :
    d.readFiles ≠ .ok (some f) := by
  unfold Disk.readFiles
  rw [h.1]
  cases d.caCrt with
  | none => nofun
  | some root => cases d.issuingKey <;> nofun

theorem Holds.savedKey (h : Holds name d ca) (k : Key) : Holds name { d with serverKey := some k } ca :=
  { h with }

theorem Holds.savedCrt (h : Holds name d ca) {c : Cert} (hc : Issued ca c) :
    Holds name { d with serverCrt := some c } ca :=
  { h with server := fun _ e => Option.some.inj e ▸ hc }

/-! ## The invariant -/

/-- The agent's memory knows no other authority, and the listener has what it holds. -/
structure Sound (m : Memory) (ca : Ca) : Prop where
  loaded : ∀ l, m.loaded = some l → l.ca = ca ∧ Issued ca l.server ∧
    ∃ k : Key, m.keys = some ⟨[l.server, ca.issuing.cert], k⟩ ∧ k.point = l.server.point
  off : m.loaded = none → m.keys = none
  kept : ∀ c, m.kept = some c → c = ca

theorem sound_empty (ca : Ca) : Sound {} ca := ⟨fun _ h => (by cases h), fun _ => rfl, fun _ h => (by cases h)⟩

namespace World

variable (name)

def KeepsPromise (w : World) : Prop := ∀ p, w.promised = some p → p = (w.disk.caCrt, w.disk.issuingCrt)

/-- The agent knows an authority. -/
def Knows (w : World) : Prop := w.memory.loaded.isSome = true ∨ w.memory.kept.isSome = true

structure Steady (w : World) (ca : Ca) : Prop where
  holds : Holds name w.disk ca
  sound : Sound w.memory ca
  promise : w.KeepsPromise

/-- `issue` goes on with a pair of the authority, and what it fails the agent still knows. -/
structure Saving (w : World) (ca : Ca) (server : KeyCert) (op : Operation) (refreshing : Bool) : Prop where
  holds : Holds name w.disk ca
  issued : Issued ca server.cert
  fits : server.key.point = server.cert.point
  knows : (op = .start ∧ refreshing = false) ∨ w.Knows

/-- `turn_on` has saved the first `n` files of a new authority. -/
structure Creating (w : World) (root : Cert) (issuing server : KeyCert) (todo : List File) (n : Nat) : Prop where
  todo : todo = creation.drop n
  root : 1 ≤ n → w.disk.caCrt = some root
  key : 2 ≤ n → w.disk.issuingKey = some issuing.key
  crt : 3 ≤ n → w.disk.issuingCrt = some issuing.cert
  bare : n < 3 → Bare w.disk
  server : ∀ c, w.disk.serverCrt = some c → c = server.cert

/-- `remove_files` has removed the first `n` files. -/
structure Removing (w : World) (todo : List File) (n : Nat) : Prop where
  todo : todo = removal.drop n
  server : 1 ≤ n → w.disk.serverCrt = none
  crt : 3 ≤ n → w.disk.issuingCrt = none

def TaskSound (w : World) : Task → Prop
  | .idle => w.started = true → ¬ w.Knows → Bare w.disk
  | .savingKey ca server _ op refreshing => Saving name w ca server op refreshing
  | .savingCrt ca server _ op refreshing => Saving name w ca server op refreshing
  | .creating root issuing server _ todo =>
    w.memory = {} ∧ w.promised = none ∧
      (∃ ca, Ca.new root issuing = .ok ca ∧ ca.scope.coversName name = true ∧ Issued ca server.cert ∧
        server.key.point = server.cert.point) ∧
      ∃ n, Creating w root issuing server todo n
  | .removing todo => w.memory = {} ∧ w.promised = none ∧ ∃ n, Removing w todo n

structure Inv (w : World) : Prop where
  disk : Bare w.disk ∨ ∃ ca, Holds name w.disk ca
  memory : ∀ ca, Holds name w.disk ca → Sound w.memory ca
  bare : Bare w.disk → w.memory = {} ∧ w.promised = none
  promise : w.KeepsPromise
  task : w.TaskSound name w.task

/-- `start` is a boot's first operation. -/
def Boots (w : World) : Event → Prop
  | .turnOn _ => w.started = true
  | _ => True

instance decidableBoots (w : World) : ∀ e, Decidable (w.Boots e)
  | .turnOn _ => inferInstanceAs (Decidable (_ = _))
  | .start _ => .isTrue trivial
  | .renew _ => .isTrue trivial
  | .lanChanged _ _ => .isTrue trivial
  | .check _ => .isTrue trivial
  | .reset => .isTrue trivial
  | .run _ => .isTrue trivial
  | .powerLoss => .isTrue trivial

variable {name} {w : World} {ca : Ca}

theorem Inv.steady (h : Inv name w) (hc : Holds name w.disk ca) : Steady name w ca := ⟨hc, h.memory ca hc, h.promise⟩

/-- What the agent knows the disk holds. -/
theorem Inv.holds (h : Inv name w) (hk : w.Knows) : ∃ ca, Steady name w ca := by
  rcases h.disk with hb | ⟨ca, hc⟩
  · have hm := (h.bare hb).1
    unfold Knows at hk
    rw [hm] at hk
    rcases hk with hk | hk <;> cases hk
  · exact ⟨ca, h.steady hc⟩

theorem Steady.inv (h : Steady name w ca) {t : Task} (ht : w.task = t) (hsound : w.TaskSound name t) : Inv name w := by
  refine ⟨.inr ⟨ca, h.holds⟩, fun a ha => ?_, fun hb => absurd hb h.holds.not_bare, h.promise, ht ▸ hsound⟩
  rw [ha.unique h.holds]
  exact h.sound

/-! ## What the operations are made of -/

theorem Steady.finish (h : Steady name w ca) (hk : w.Knows) (op : Operation) (r : Except String Unit) :
    Inv name (w.finish op r) := by
  unfold World.finish
  split
  · exact Steady.inv ⟨h.holds, h.sound, fun p hp => (Option.some.inj hp).symm⟩ rfl fun _ hn => absurd hk hn
  · exact Steady.inv ⟨h.holds, h.sound, h.promise⟩ rfl fun _ hn => absurd hk hn

theorem Steady.install (h : Steady name w ca) {server : KeyCert} {l : Loaded} {key : CertifiedKey}
    (hnew : Loaded.new ca server = .ok (l, key)) (hi : Issued ca server.cert) :
    Steady name (w.install l key) l.ca ∧ (w.install l key).Knows := by
  obtain ⟨rfl, hserver, rfl, hfits⟩ := Loaded.new_ok hnew
  refine ⟨⟨h.holds, ⟨fun l' hl => ?_, fun hl => (by cases hl), fun _ hc => (by cases hc)⟩, h.promise⟩, .inl rfl⟩
  cases hl
  exact ⟨rfl, hserver ▸ hi, server.key, hserver ▸ rfl, hserver ▸ hfits⟩

theorem Steady.issueFailed (h : Steady name w ca) {op : Operation} {refreshing : Bool}
    (hk : (op = .start ∧ refreshing = false) ∨ w.Knows) (e : String) : Inv name (w.issueFailed ca op refreshing e) := by
  unfold World.issueFailed
  split
  · rename_i hr
    refine h.finish (hk.resolve_left ?_) _ _
    rintro ⟨-, hf⟩
    rw [hf] at hr
    cases hr
  · split
    · have hs : Steady name { w with memory := { w.memory with kept := some ca } } ca :=
        ⟨h.holds, ⟨h.sound.loaded, h.sound.off, fun c hc => (Option.some.inj hc).symm⟩, h.promise⟩
      exact hs.finish (.inr rfl) ..
    · refine h.finish (hk.resolve_left ?_) _ _
      rintro ⟨rfl, -⟩
      exact ‹Operation.start = .start → False› rfl

/-- A covered name always gets its pair. -/
theorem issue_saves (hcovers : ca.scope.coversName name = true) (w : World) (address : Option Ipv4) (notBefore notAfter : Int)
    (lan : Option Ipv4) (op : Operation) (refreshing : Bool) (x : Outcome) :
    ∃ server, w.issue name ca address notBefore notAfter lan op refreshing x =
      { w with task := .savingKey ca server lan op refreshing } ∧ Issued ca server.cert ∧
      server.key.point = server.cert.point := by
  have hdns : [name].filter ca.scope.coversName = [name] := by
    rw [List.filter_cons, if_pos hcovers, List.filter_nil]
  unfold World.issue
  rw [hdns]
  simp only [List.isEmpty_cons, Bool.and_false, Bool.false_eq_true, if_false]
  refine ⟨_, rfl, leaf_issued _ (Int.min_le_right ..) (fun d hd => ?_) (fun ip hip => ?_), leaf_matches ..⟩
  · rw [List.mem_singleton.mp hd]
    exact hcovers
  · obtain ⟨-, hip⟩ := Option.filter_eq_some_iff.mp (Option.mem_toList.mp hip)
    exact hip

theorem Steady.issue (h : Steady name w ca) {op : Operation} {refreshing : Bool}
    (hk : (op = .start ∧ refreshing = false) ∨ w.Knows) (address : Option Ipv4) (notBefore notAfter : Int) (lan : Option Ipv4)
    (x : Outcome) : Inv name (w.issue name ca address notBefore notAfter lan op refreshing x) := by
  obtain ⟨server, heq, hi, hf⟩ := issue_saves h.holds.covers w address notBefore notAfter lan op refreshing x
  rw [heq]
  exact Steady.inv ⟨h.holds, h.sound, h.promise⟩ rfl ⟨h.holds, hi, hf, hk⟩

theorem Steady.refresh {cur : Loaded} (h : Steady name w cur.ca) (hk : w.Knows) (lan : Option Ipv4) (op : Operation) (x : Outcome) :
    Inv name (w.refresh name cur lan op x) := by
  unfold World.refresh
  simp only
  split
  · exact h.issue (.inr hk) ..
  · exact h.finish hk ..

theorem Steady.issued (h : Steady name w ca) {server : KeyCert} (hi : Issued ca server.cert)
    (hf : server.key.point = server.cert.point) (lan : Option Ipv4) (op : Operation) (refreshing : Bool) (x : Outcome) :
    Inv name (w.issued name ca server lan op refreshing x) := by
  obtain ⟨l, key, hnew⟩ := Loaded.new_of hi.issuer hf
  obtain ⟨hs, hk⟩ := h.install hnew hi
  unfold World.issued
  rw [hnew]
  simp only
  split
  · exact hs.finish hk ..
  · exact hs.refresh hk ..

/-! ## The operations -/

theorem Inv.start (h : Inv name w) (x : Outcome) : Inv name (w.start name x) := by
  rcases h.disk with hb | ⟨ca, hc⟩
  · obtain ⟨hm, hp⟩ := h.bare hb
    have hdone : ∀ r, Inv name (({ w with started := true } : World).finish .start r) := fun r =>
      ⟨.inl hb, h.memory, h.bare, h.promise, fun _ _ => hb⟩
    unfold World.start
    simp only
    split
    · exact hdone _
    · exact hdone _
    · rename_i hr
      exact absurd hr (hb.readFiles _)
  · have hs : Steady name { w with started := true } ca := ⟨hc, h.memory ca hc, h.promise⟩
    unfold World.start
    simp only [hc.readFiles, Ca.new_self]
    split
    · rename_i l key hpair
      split at hpair
      · rename_i k c hk hserver
        obtain ⟨hs, hknows⟩ := hs.install (Option.some.inj hpair) (hc.server c hserver)
        exact hs.refresh hknows ..
      · cases hpair
    · split
      · exact hs.issue (.inl ⟨rfl, rfl⟩) ..
      · exact hs.issueFailed (.inl ⟨rfl, rfl⟩) _

theorem Inv.turnOn (h : Inv name w) (hname : name.toLower = name) (hidle : w.task = .idle) (hstarted : w.started = true)
    (x : Outcome) : Inv name (w.turnOn name x) := by
  have hrefused : ∀ e, Inv name (w.finish .turnOn (.error e)) := fun e =>
    { h with task := by have := h.task; rw [hidle] at this; exact this }
  unfold World.turnOn
  split
  · rename_i hl
    obtain ⟨ca, hs⟩ := h.holds (.inl hl)
    exact hs.finish (.inl hl) ..
  · rename_i hl
    split
    · exact hrefused _
    · split
      · exact hrefused _
      · split
        · rename_i ca hkept
          have hk : w.Knows := .inr (by rw [hkept]; rfl)
          obtain ⟨a, hs⟩ := h.holds hk
          rw [hs.sound.kept ca hkept]
          exact hs.issue (.inr hk) ..
        · rename_i now _ _ ip _ _ hkept
          have hb : Bare w.disk := by
            have := h.task
            rw [hidle] at this
            refine this hstarted ?_
            rintro (hk | hk)
            · exact hl hk
            · rw [hkept] at hk
              cases hk
          obtain ⟨hm, hp⟩ := h.bare hb
          generalize hnew : newAuthority name now ip x.draw = made
          obtain ⟨root, issuing, server⟩ := made
          refine ⟨h.disk, h.memory, h.bare, h.promise, hm, hp, newAuthority_sound hname hnew, 0, rfl, ?_, ?_, ?_, fun _ => hb, ?_⟩
          · omega
          · omega
          · omega
          · intro c hc
            rw [show w.disk.serverCrt = none from hb.2] at hc
            cases hc

theorem Inv.renew (h : Inv name w) (hidle : w.task = .idle) (x : Outcome) : Inv name (w.renew name x) := by
  have hrefused : ∀ e, Inv name (w.finish .renew (.error e)) := fun e =>
    { h with task := by have := h.task; rw [hidle] at this; exact this }
  unfold World.renew
  split
  · exact hrefused _
  · rename_i cur hl
    split
    · exact hrefused _
    · have hk : w.Knows := .inl (by rw [hl]; rfl)
      obtain ⟨ca, hs⟩ := h.holds hk
      obtain ⟨rfl, -⟩ := hs.sound.loaded cur hl
      exact hs.issue (.inr hk) ..

theorem Inv.refreshed (h : Inv name w) (lan : Option Ipv4) (x : Outcome) : Inv name (w.refreshed name lan x) := by
  unfold World.refreshed
  split
  · rename_i cur hl
    have hk : w.Knows := .inl (by rw [hl]; rfl)
    obtain ⟨ca, hs⟩ := h.holds hk
    obtain ⟨rfl, -⟩ := hs.sound.loaded cur hl
    exact hs.refresh hk ..
  · exact h

theorem Inv.reset (h : Inv name w) : Inv name w.reset :=
  ⟨h.disk, fun ca _ => sound_empty ca, fun _ => ⟨rfl, rfl⟩, fun _ hp => (by cases hp), rfl, rfl, 0, rfl,
    fun h => (by omega), fun h => (by omega)⟩

/-! ## Many files one by one -/

variable {n : Nat}

theorem Creating.saved {root : Cert} {issuing server : KeyCert} {f : File} {todo : List File}
    (h : Creating w root issuing server (f :: todo) n) (t : Task) :
    Creating { w with disk := w.disk.save root issuing server f, task := t } root issuing server todo (n + 1) := by
  obtain ⟨htodo, hroot, hkey, hcrt, hbare, hserver⟩ := h
  rcases n with _ | _ | _ | _ | _ | n
  · cases htodo
    exact ⟨rfl, fun _ => rfl, fun h => (by omega), fun h => (by omega), fun _ => hbare (by omega), hserver⟩
  · cases htodo
    exact ⟨rfl, fun _ => hroot (by omega), fun _ => rfl, fun h => (by omega), fun _ => hbare (by omega), hserver⟩
  · cases htodo
    exact ⟨rfl, fun _ => hroot (by omega), fun _ => hkey (by omega), fun _ => rfl, fun h => (by omega), hserver⟩
  · cases htodo
    exact ⟨rfl, fun _ => hroot (by omega), fun _ => hkey (by omega), fun _ => hcrt (by omega), fun h => (by omega), hserver⟩
  · cases htodo
    exact ⟨rfl, fun _ => hroot (by omega), fun _ => hkey (by omega), fun _ => hcrt (by omega), fun h => (by omega),
      fun c hc => (Option.some.inj hc).symm⟩
  · simp [creation] at htodo

theorem Creating.holds {root : Cert} {issuing server : KeyCert} {todo : List File}
    (h : Creating w root issuing server todo n) (hn : 3 ≤ n) (hca : Ca.new root issuing = .ok ca)
    (hcovers : ca.scope.coversName name = true) (hi : Issued ca server.cert) : Holds name w.disk ca := by
  obtain ⟨rfl, rfl⟩ := Ca.new_ok hca
  exact ⟨h.root (by omega), h.key (by omega), h.crt hn, fun c hc => h.server c hc ▸ hi, hcovers⟩

theorem Removing.removed {f : File} {todo : List File} (h : Removing w (f :: todo) n) (t : Task) :
    Removing { w with disk := w.disk.remove f, task := t } todo (n + 1) := by
  obtain ⟨htodo, hserver, hcrt⟩ := h
  rcases n with _ | _ | _ | _ | _ | n
  · cases htodo
    exact ⟨rfl, fun _ => rfl, fun h => (by omega)⟩
  · cases htodo
    exact ⟨rfl, fun _ => hserver (by omega), fun h => (by omega)⟩
  · cases htodo
    exact ⟨rfl, fun _ => hserver (by omega), fun _ => rfl⟩
  · cases htodo
    exact ⟨rfl, fun _ => hserver (by omega), fun _ => hcrt (by omega)⟩
  · cases htodo
    exact ⟨rfl, fun _ => hserver (by omega), fun _ => hcrt (by omega)⟩
  · simp [removal] at htodo

/-- The server certificate goes first and the issuing one before the rest. -/
theorem Removing.disk {f : File} {todo : List File} (h : Removing w (f :: todo) n)
    (hd : Bare w.disk ∨ ∃ ca, Holds name w.disk ca) :
    Bare (w.disk.remove f) ∨ ∃ ca, Holds name (w.disk.remove f) ca := by
  obtain ⟨htodo, hserver, hcrt⟩ := h
  rcases n with _ | _ | _ | _ | _ | n
  · cases htodo
    refine hd.imp (fun hb => ⟨hb.1, rfl⟩) fun ⟨ca, hc⟩ => ⟨ca, hc.root, hc.key, hc.crt, fun c h => (by cases h), hc.covers⟩
  · cases htodo
    exact hd.imp id fun ⟨ca, hc⟩ => ⟨ca, hc.root, hc.key, hc.crt, hc.server, hc.covers⟩
  · cases htodo
    exact .inl ⟨rfl, hserver (by omega)⟩
  · cases htodo
    exact .inl ⟨hcrt (by omega), hserver (by omega)⟩
  · cases htodo
    exact .inl ⟨hcrt (by omega), hserver (by omega)⟩
  · simp [removal] at htodo

/-- An operation during which the agent knows no authority. -/
theorem inv_of_empty (hm : w.memory = {}) (hp : w.promised = none) (hd : Bare w.disk ∨ ∃ ca, Holds name w.disk ca)
    (ht : w.TaskSound name w.task) : Inv name w := by
  refine ⟨hd, fun ca _ => hm ▸ sound_empty ca, fun _ => ⟨hm, hp⟩, fun p h => ?_, ht⟩
  rw [hp] at h
  cases h

theorem Inv.run (h : Inv name w) (x : Outcome) : Inv name (w.run name x) := by
  have htask := h.task
  unfold World.run
  cases ht : w.task with
  | idle => exact h
  | savingKey ca server lan op refreshing =>
    rw [ht] at htask
    have hs := h.steady htask.holds
    simp only
    split
    · exact hs.issueFailed htask.knows _
    · have hs' : Steady name { w with disk.serverKey := some server.key, task := .savingCrt ca server lan op refreshing } ca :=
        ⟨hs.holds.savedKey _, hs.sound, hs.promise⟩
      exact hs'.inv rfl ⟨hs'.holds, htask.issued, htask.fits, htask.knows⟩
  | savingCrt ca server lan op refreshing =>
    rw [ht] at htask
    have hs := h.steady htask.holds
    simp only
    split
    · exact hs.issueFailed htask.knows _
    · have hs' : Steady name { w with disk.serverCrt := some server.cert } ca :=
        ⟨hs.holds.savedCrt htask.issued, hs.sound, hs.promise⟩
      exact hs'.issued htask.issued htask.fits ..
  | creating root issuing server ip todo =>
    rw [ht] at htask
    obtain ⟨hm, hp, ⟨ca, hca, hcovers, hi, hf⟩, n, hn⟩ := htask
    cases todo with
    | nil =>
      have h5 : 5 ≤ n := by
        have := congrArg List.length hn.todo
        simp only [List.length_nil, creation, List.length_drop, List.length_cons] at this
        omega
      obtain ⟨l, key, hnew⟩ := Loaded.new_of hi.issuer hf
      obtain ⟨hs, hk⟩ := (h.steady (hn.holds (by omega) hca hcovers hi)).install hnew hi
      simp only [World.created, hca, hnew]
      exact hs.refresh hk ..
    | cons f todo =>
      simp only
      split
      · exact inv_of_empty hm hp h.disk ⟨hm, hp, 0, rfl, fun h => (by omega), fun h => (by omega)⟩
      · have hn' := hn.saved (.creating root issuing server ip todo)
        refine inv_of_empty hm hp ?_ ⟨hm, hp, ⟨ca, hca, hcovers, hi, hf⟩, n + 1, hn'⟩
        by_cases h3 : n + 1 < 3
        · exact .inl (hn'.bare h3)
        · exact .inr ⟨ca, hn'.holds (by omega) hca hcovers hi⟩
  | removing todo =>
    rw [ht] at htask
    obtain ⟨hm, hp, n, hn⟩ := htask
    cases todo with
    | nil =>
      have h5 : 5 ≤ n := by
        have := congrArg List.length hn.todo
        simp only [List.length_nil, removal, List.length_drop, List.length_cons] at this
        omega
      exact inv_of_empty hm hp h.disk fun _ _ => ⟨hn.crt (by omega), hn.server (by omega)⟩
    | cons f todo =>
      exact inv_of_empty hm hp (hn.disk h.disk) ⟨hm, hp, n + 1, hn.removed _⟩

theorem Inv.step (h : Inv name w) (hname : name.toLower = name) {e : Event} (he : w.Boots e) : Inv name (w.step name e) := by
  unfold World.step
  cases e with
  | run x => exact h.run x
  | powerLoss =>
    exact ⟨h.disk, fun ca _ => sound_empty ca, fun hb => ⟨rfl, (h.bare hb).2⟩, h.promise, fun hs => (by cases hs)⟩
  | start x => cases ht : w.task <;> first | exact h.start x | exact h
  | turnOn x =>
    cases ht : w.task with
    | idle => exact h.turnOn hname ht he x
    | _ => exact h
  | renew x =>
    cases ht : w.task with
    | idle => exact h.renew ht x
    | _ => exact h
  | lanChanged ip x => cases ht : w.task <;> first | exact h.refreshed _ x | exact h
  | check x => cases ht : w.task <;> first | exact h.refreshed _ x | exact h
  | reset => cases ht : w.task <;> first | exact h.reset | exact h

theorem Inv.init : Inv name {} := inv_of_empty rfl rfl (.inl ⟨rfl, rfl⟩) fun hs => by cases hs

/-! ## What the household sees -/

/-- While HTTPS is on, the authority is on disk and what is served is its. -/
def Serves (w : World) : Prop :=
  (∀ l, w.memory.loaded = some l →
    w.disk.caCrt = some l.ca.root ∧ w.disk.issuingKey = some l.ca.issuing.key ∧ w.disk.issuingCrt = some l.ca.issuing.cert ∧
      Issued l.ca l.server ∧
      ∃ k : Key, w.memory.keys = some ⟨[l.server, l.ca.issuing.cert], k⟩ ∧ k.point = l.server.point) ∧
    (w.memory.loaded = none → w.memory.keys = none)

/-- HTTPS is on from the authority. -/
def OnFrom (w : World) (p : Option Cert × Option Cert) : Prop :=
  ∃ l, w.memory.loaded = some l ∧ p = (some l.ca.root, some l.ca.issuing.cert)

/-- The authority is kept for `turn_on`. -/
def KeptFrom (w : World) (p : Option Cert × Option Cert) : Prop :=
  ∃ ca, w.memory.kept = some ca ∧ p = (some ca.root, some ca.issuing.cert)

def Keeps (w : World) : Prop :=
  ∀ p, w.promised = some p → w.started = true → w.task = .idle → w.OnFrom p ∨ w.KeptFrom p

end World

/-- The saved server pair belongs together. -/
def Disk.Pair (d : Disk) : Prop := ∃ k c, d.serverKey = some k ∧ d.serverCrt = some c ∧ k.point = c.point

/-- Something gives dates. -/
def Disk.Dated (d : Disk) (x : Outcome) : Prop := d.serverCrt.isSome = true ∨ x.verified.isSome = true

namespace World

variable (name) in
/-- Power is lost now: what the next start comes up with. -/
def ComesUp (w : World) : Prop :=
  ∀ p, w.promised = some p → ∀ x x₁ x₂ : Outcome,
    let b := w.step name .powerLoss
    (b.disk.Pair → (b.step name (.start x)).OnFrom p) ∧
      (b.disk.Dated x → x₁.saved = .ok () → x₂.saved = .ok () → (exec (step name) b [.start x, .run x₁, .run x₂]).OnFrom p) ∧
      (¬ b.disk.Pair → ¬ b.disk.Dated x → (b.step name (.start x)).KeptFrom p)

variable (name) in
/-- A `turn_on` that can date and save a server pair has HTTPS on from the authority. -/
def Reuses (w : World) : Prop :=
  ∀ p, w.promised = some p → w.started = true → w.task = .idle → ∀ x x₁ x₂ : Outcome,
    (w.utc x).usable.isSome = true → x.lan.isSome = true → x₁.saved = .ok () → x₂.saved = .ok () →
      (exec (step name) w [.turnOn x, .run x₁, .run x₂]).OnFrom p

variable {w : World} {ca : Ca}

theorem Inv.serves (h : Inv name w) : w.Serves := by
  refine ⟨fun l hl => ?_, fun hl => ?_⟩
  · obtain ⟨ca, hs⟩ := h.holds (.inl (by rw [hl]; rfl))
    obtain ⟨rfl, hi, hk⟩ := hs.sound.loaded l hl
    exact ⟨hs.holds.root, hs.holds.key, hs.holds.crt, hi, hk⟩
  · rcases h.disk with hb | ⟨ca, hc⟩
    · rw [(h.bare hb).1]
    · exact (h.memory ca hc).off hl

/-- What was promised is the authority on disk. -/
theorem Inv.promised_holds (h : Inv name w) {p : Option Cert × Option Cert} (hp : w.promised = some p) :
    ∃ ca, Steady name w ca ∧ p = (some ca.root, some ca.issuing.cert) := by
  rcases h.disk with hb | ⟨ca, hc⟩
  · rw [(h.bare hb).2] at hp
    cases hp
  · refine ⟨ca, h.steady hc, ?_⟩
    rw [h.promise p hp, hc.root, hc.crt]

theorem Inv.keeps (h : Inv name w) : w.Keeps := by
  intro p hp hstarted hidle
  obtain ⟨ca, hs, rfl⟩ := h.promised_holds hp
  have hk : w.Knows := by
    by_contra hk
    have := h.task
    rw [hidle] at this
    exact hs.holds.not_bare (this hstarted hk)
  rcases hk with hk | hk
  · obtain ⟨l, hl⟩ := Option.isSome_iff_exists.mp hk
    obtain ⟨rfl, -⟩ := hs.sound.loaded l hl
    exact .inl ⟨l, hl, rfl⟩
  · obtain ⟨c, hc⟩ := Option.isSome_iff_exists.mp hk
    obtain rfl := hs.sound.kept c hc
    exact .inr ⟨c, hc, rfl⟩

theorem finish_memory (w : World) (op : Operation) (r : Except String Unit) : (w.finish op r).memory = w.memory := by
  unfold World.finish
  split <;> rfl

theorem refresh_memory (hcovers : ca.scope.coversName name = true) {cur : Loaded} (hcur : cur.ca = ca) (w : World)
    (lan : Option Ipv4) (op : Operation) (x : Outcome) : (w.refresh name cur lan op x).memory = w.memory := by
  subst hcur
  unfold World.refresh
  simp only
  split
  · obtain ⟨server, heq, -⟩ := issue_saves hcovers w _ _ _ lan op true x
    rw [heq]
  · exact finish_memory ..

/-- Saving a pair of the authority, with nothing in the way, leads to HTTPS on. -/
theorem on_of_saving (hcovers : ca.scope.coversName name = true) {server : KeyCert} {lan : Option Ipv4} {op : Operation}
    (hi : Issued ca server.cert) (hf : server.key.point = server.cert.point) (ht : w.task = .savingKey ca server lan op false)
    {x₁ x₂ : Outcome} (hx₁ : x₁.saved = .ok ()) (hx₂ : x₂.saved = .ok ()) :
    (exec (step name) w [.run x₁, .run x₂]).OnFrom (some ca.root, some ca.issuing.cert) := by
  obtain ⟨l, key, hnew⟩ := Loaded.new_of hi.issuer hf
  obtain ⟨hl, -⟩ := Loaded.new_ok hnew
  simp only [exec_cons, exec_nil, World.step, World.run, ht, hx₁, hx₂, World.issued, hnew, Bool.false_eq_true, if_false]
  refine ⟨l, ?_, by rw [hl]⟩
  rw [refresh_memory hcovers hl]
  rfl

theorem issueFailed_loaded (w : World) (ca : Ca) (op : Operation) (refreshing : Bool) (e : String) :
    (w.issueFailed ca op refreshing e).memory.loaded = w.memory.loaded := by
  unfold World.issueFailed
  split
  · rw [finish_memory]
  · split <;> rw [finish_memory]

/-- HTTPS stays on while the operation goes on. -/
theorem OnFrom.run {p : Option Cert × Option Cert} (ho : w.OnFrom p) (h : Inv name w) (x : Outcome) :
    (w.run name x).OnFrom p := by
  obtain ⟨l, hl, rfl⟩ := ho
  have hempty : w.memory ≠ {} := fun hm => by rw [hm] at hl; cases hl
  have htask := h.task
  unfold World.run
  cases ht : w.task with
  | idle => exact ⟨l, hl, rfl⟩
  | savingKey ca server lan op refreshing =>
    simp only
    split
    · exact ⟨l, (issueFailed_loaded ..).trans hl, rfl⟩
    · exact ⟨l, hl, rfl⟩
  | savingCrt ca server lan op refreshing =>
    rw [ht] at htask
    obtain ⟨hca, -⟩ := (h.memory ca htask.holds).loaded l hl
    simp only
    split
    · exact ⟨l, (issueFailed_loaded ..).trans hl, rfl⟩
    · obtain ⟨l', key, hnew⟩ := Loaded.new_of htask.issued.issuer htask.fits
      obtain ⟨hl', -⟩ := Loaded.new_ok hnew
      simp only [World.issued, hnew]
      split
      · exact ⟨l', by rw [finish_memory]; rfl, by rw [hl', hca]⟩
      · exact ⟨l', by rw [refresh_memory htask.holds.covers hl']; rfl, by rw [hl', hca]⟩
  | creating root issuing server ip todo =>
    rw [ht] at htask
    exact absurd htask.1 hempty
  | removing todo =>
    rw [ht] at htask
    exact absurd htask.1 hempty

theorem pair_starts (hc : Holds name w.disk ca) (hp : w.disk.Pair) (x : Outcome) :
    (w.start name x).OnFrom (some ca.root, some ca.issuing.cert) := by
  obtain ⟨k, c, hk, hcrt, hfits⟩ := hp
  obtain ⟨l, key, hnew⟩ := @Loaded.new_of ca ⟨k, c⟩ (hc.server c hcrt).issuer hfits
  obtain ⟨hl, -⟩ := Loaded.new_ok hnew
  simp only [World.start, hc.readFiles, Ca.new_self, hk, hcrt, hnew]
  refine ⟨l, ?_, by rw [hl]⟩
  rw [refresh_memory hc.covers hl]
  rfl

/-- What `start` does with an authority that has no server pair. -/
theorem start_no_pair (hc : Holds name w.disk ca) (hno : ¬ w.disk.Pair) (x : Outcome) :
    (∃ address notBefore notAfter, w.disk.Dated x ∧
      w.start name x = ({ w with started := true } : World).issue name ca address notBefore notAfter x.lan .start false x) ∨
    ¬ w.disk.Dated x ∧ ∃ e, w.start name x = ({ w with started := true } : World).issueFailed ca .start false e := by
  unfold World.start
  simp only [hc.readFiles, Ca.new_self]
  split
  · rename_i l key hpair
    split at hpair
    · rename_i k c hk hcrt
      obtain ⟨-, -, -, hfits⟩ := Loaded.new_ok (Option.some.inj hpair)
      exact absurd ⟨k, c, hk, hcrt, hfits⟩ hno
    · cases hpair
  · cases hcrt : w.disk.serverCrt with
    | some c =>
      simp only [Option.filter, (hc.server c hcrt).issuer, decide_true, if_true, Option.map_some, Option.some_or]
      exact .inl ⟨_, _, _, .inl (by rw [hcrt]; rfl), rfl⟩
    | none =>
      cases hv : x.verified with
      | some t => exact .inl ⟨_, _, _, .inr (by rw [hv]; rfl), rfl⟩
      | none =>
        refine .inr ⟨?_, _, rfl⟩
        unfold Disk.Dated
        rw [hcrt, hv]
        nofun

theorem Inv.comesUp (h : Inv name w) (hname : name.toLower = name) : w.ComesUp name := by
  intro p hp x x₁ x₂ b
  obtain ⟨ca, hs, rfl⟩ := h.promised_holds hp
  have hc : Holds name b.disk ca := hs.holds
  have hb : Inv name b := h.step hname trivial
  have hb₁ : Inv name (b.step name (.start x)) := hb.step hname trivial
  refine ⟨fun hpair => pair_starts hc hpair x, fun hd hx₁ hx₂ => ?_, fun hno hd => ?_⟩
  · by_cases hpair : b.disk.Pair
    · have hon : (b.step name (.start x)).OnFrom (some ca.root, some ca.issuing.cert) := pair_starts hc hpair x
      have hon₁ := hon.run hb₁ x₁
      exact hon₁.run (hb₁.run x₁) x₂
    · rcases start_no_pair hc hpair x with ⟨address, notBefore, notAfter, -, hstart⟩ | ⟨hnd, -⟩
      · obtain ⟨server, heq, hi, hf⟩ :=
          issue_saves hc.covers { b with started := true } address notBefore notAfter x.lan .start false x
        rw [exec_cons, show b.step name (.start x) = _ from hstart.trans heq]
        exact on_of_saving hc.covers hi hf rfl hx₁ hx₂
      · exact absurd hd hnd
  · rcases start_no_pair hc hno x with ⟨-, -, -, hd', -⟩ | ⟨-, e, hstart⟩
    · exact absurd hd' hd
    · rw [show b.step name (.start x) = _ from hstart]
      exact ⟨ca, rfl, rfl⟩

theorem Inv.reuses (h : Inv name w) : w.Reuses name := by
  intro p hp hstarted hidle x x₁ x₂ hx hlan hx₁ hx₂
  have hstep : w.step name (.turnOn x) = w.turnOn name x := by
    simp only [World.step, hidle]
  rw [exec_cons, hstep]
  rcases h.keeps p hp hstarted hidle with ⟨l, hl, rfl⟩ | ⟨ca, hkept, rfl⟩
  · have hon : w.turnOn name x = w.finish .turnOn (.ok ()) := by
      rw [World.turnOn, hl]
      rfl
    rw [hon]
    exact ⟨l, hl, rfl⟩
  · cases hl : w.memory.loaded with
    | some l =>
      obtain ⟨a, hs⟩ := h.holds (.inr (by rw [hkept]; rfl))
      obtain ⟨rfl, -⟩ := hs.sound.loaded l hl
      obtain rfl := hs.sound.kept ca hkept
      have hon : w.turnOn name x = w.finish .turnOn (.ok ()) := by
        rw [World.turnOn, hl]
        rfl
      rw [hon]
      exact ⟨l, hl, rfl⟩
    | none =>
      obtain ⟨a, hs⟩ := h.holds (.inr (by rw [hkept]; rfl))
      obtain rfl := hs.sound.kept ca hkept
      obtain ⟨now, hnow⟩ := Option.isSome_iff_exists.mp hx
      obtain ⟨ip, hip⟩ := Option.isSome_iff_exists.mp hlan
      obtain ⟨server, heq, hi, hf⟩ := issue_saves hs.holds.covers w (some ip) (now - backdate)
        (now - backdate + serverDays * day) (some ip) .turnOn false x
      have hon : w.turnOn name x = { w with task := .savingKey ca server (some ip) .turnOn false } := by
        simp only [World.turnOn, hl, hnow, hip, hkept, heq, Option.isSome_none, Bool.false_eq_true, if_false]
      rw [hon]
      exact on_of_saving hs.holds.covers hi hf rfl hx₁ hx₂

end World

open World

/-- In every run in which `start` is a boot's first operation, the promised authority stays
    on disk, what is served is the authority's, and the next start comes up with it or keeps it. -/
theorem authority_survives (name : String) (hname : name.toLower = name) (es : List Event)
    (h : Along (step name) Boots {} es) :
    let w := exec (step name) {} es
    w.KeepsPromise ∧ w.Serves ∧ w.Keeps ∧ w.ComesUp name ∧ w.Reuses name := by
  intro w
  have hinv : Inv name w := invariant_along (fun _ _ hi he => hi.step hname he) Inv.init h
  exact ⟨hinv.promise, hinv.serves, hinv.keeps, hinv.comesUp hname, hinv.reuses⟩

section

def localName : String := "u60.home.arpa"

/-- 192.168.0.1 on a day the router's clock is set. -/
def today : Outcome := { lan := some 0xC0A80001, wall := clockFloor + 100 * day, draw := { id := "0000000A" } }

def saves (n : Nat) : List Event := List.replicate n (.run { lan := some 0xC0A80001 })

/-- Turned on; power is lost while the certificate is renewed, its key saved already. -/
def renewalCut : List Event :=
  [.start {}, .turnOn today] ++ saves 6 ++ [.renew { today with draw := { serverKey := ⟨7⟩ } }] ++ saves 1 ++ [.powerLoss]

theorem renewal_cut_survived :
    let w := exec (step localName) {} renewalCut
    w.promised.isSome = true ∧ w.disk.serverKey = some ⟨7⟩ ∧ w.disk.serverCrt.map (·.point) = some 0 ∧
      w.KeepsPromise ∧ w.Serves ∧ w.Keeps ∧ w.ComesUp localName ∧ w.Reuses localName :=
  ⟨by decide +kernel, by decide +kernel, by decide +kernel,
    authority_survives localName (by decide +kernel) renewalCut (by decide +kernel)⟩

/-- Turned on; at the next boot `turn_on` comes before `start`. -/
def overtaken : List Event :=
  [.start {}, .turnOn today] ++ saves 6 ++ [.powerLoss, .turnOn { today with draw := { id := "0000000B" } }] ++ saves 1

/-- Power is lost as above, and the next start cannot save. -/
def fullDisk : List Event := renewalCut ++ [.start {}, .run { saved := .error "No space left on device" }]

theorem overtaken_start_loses_authority :
    ¬ (exec (step localName) {} overtaken).KeepsPromise ∧
      (exec (step localName) {} renewalCut).disk.serverCrt.isSome = true ∧
      (exec (step localName) {} fullDisk).task matches .idle ∧
      (exec (step localName) {} fullDisk).memory.loaded.isNone = true := by
  refine ⟨fun h => ?_, by decide +kernel, by decide +kernel, by decide +kernel⟩
  have hp : (exec (step localName) {} overtaken).promised.all
      (· == ((exec (step localName) {} overtaken).disk.caCrt, (exec (step localName) {} overtaken).disk.issuingCrt)) = true := by
    cases hp : (exec (step localName) {} overtaken).promised with
    | none => rfl
    | some p =>
      rw [h p hp]
      exact beq_self_eq_true _
  revert hp
  decide +kernel

end

end OpenU60.Tls
