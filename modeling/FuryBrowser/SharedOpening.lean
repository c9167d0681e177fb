import FuryBrowser.ProfileShares
import FuryBrowser.RotationReadable

/-!
# Whom a shared profile opens for

What a profile opens to depends on the rows that the server hands out and on the organisation key
that the shell holds, and on nothing that the share carries. So it opens for the one whom it was
given to as it does for its owner exactly when their shell holds the key of the organisation that
the profile is of. Somebody of another organisation holds another key.

For the owner it opens as long as proxies are saved, and rotations done, with the key in force.
-/

namespace FuryBrowser.SharedOpening

open GuardedRuns RowTable WrappedKeys KeyRotation Permissions ProfileShares RotationReadable
open OrgKeys (Ref Role)

universe u v w x y z

variable {κ : Type u} {η : Type v} {β : Type w} {ν : Type x} {π : Type y} {σ : Type z}

section Statements

variable (K : KeyScheme κ η β ν π) (C : Codec σ ν) (w : World κ β π)

/-- Opening a profile derives the same in one shell as in another. -/
def OpensAlike (org profile owner recipient : ℕ) : Prop :=
  ∃ opened, (launch K C w owner org profile).2 = .ok opened ∧
    (launch K C w recipient org profile).2 = .ok opened

/-- A profile that can be launched is shared by an organisation, with the permission to launch it
and for longer than now, with whom a shell is signed in for; another shell is its owner's. -/
structure Shared (org profile owner recipient : ℕ) (o : Org κ β π) : Prop where
  /-- The organisation of the profile. -/
  found : w.orgs org = some o
  listed : (lookup Profile.id o.server.profiles profile).isSome = true
  leaves : (o.proxy profile).isSome = true
  /-- Its owner is signed in. -/
  owned : ∃ user, (w.shells owner).session = some (user, org) ∧ o.role user = some .owner
  /-- The recipient is signed in to some organisation. -/
  given : ∃ user elsewhere g, (w.shells recipient).session = some (user, elsewhere) ∧
    lookup Grant.ref o.grants (profile, user) = some g ∧ g.live w.now = true ∧
    g.permissions.has .launch = true

/-- A shell holds the key in force of the organisation that it is signed in to. -/
def HoldsCurrent (shell : ℕ) : Prop :=
  ∀ o ∈ w.orgOf shell, (w.shells shell).machine.orgKey = some o.key

instance [DecidableEq κ] (shell : ℕ) : Decidable (HoldsCurrent w shell) := by
  unfold HoldsCurrent
  infer_instance

/-- Credentials are sealed, and keys moved, with the key in force, and what is moved is what
there is. -/
def Careful (w : World κ β π) : Label κ η β σ → Prop
  | .saveProxy shell f _ _ _ => f.touchingCredentials = true → HoldsCurrent w shell
  | .removeMember shell _ _ _ _ => HoldsCurrent w shell ∧
      ∀ o ∈ w.orgOf shell, ∀ asked ∈ (w.shells shell).asked,
        (∀ x ∈ o.server.proxies, x.deleted = false → x ∈ asked.proxies) ∧
          ∀ p ∈ o.server.profiles, p ∈ asked.profiles
  | _ => True

deriving instance DecidableEq for Proxy
deriving instance DecidableEq for Profile

instance [DecidableEq κ] [DecidableEq β] (w : World κ β π) (a : Label κ η β σ) :
    Decidable (Careful w a) := by
  cases a <;> dsimp only [Careful] <;> infer_instance

/-- At the start there is no organisation. -/
def Start : Prop := w.drawn = [] ∧ ∀ org, w.orgs org = none

/-- What the rows of an organisation open to under a key. -/
def opened (o : Org κ β π) (key : κ) (profile : ℕ) : Option (Opened κ σ) :=
  (lookup Profile.id o.server.profiles profile).bind fun p => (o.proxy profile).bind fun x =>
    (o.credentialsEnc x.id).bind fun enc => x.wrappedDek.bind fun dek =>
      (openProxyCredentials K C key enc dek).bind fun credentials =>
        (cookieKey K key p).map fun ck => ⟨profileKey K key profile, ck, credentials⟩

/-- Under the key in force, each proxy and each cookie key of an organisation opens. -/
structure Opens (o : Org κ β π) : Prop where
  /-- Proxies that are not deleted. -/
  proxies : ∀ x ∈ o.server.proxies, x.deleted = false → ∃ enc ∈ o.credentialsEnc x.id,
    ∃ v, proxyDek K o.key x = some v ∧
      ((K.toKey v).bind fun dek => (K.unwrap dek enc).bind C.fromSlice).isSome = true
  cookieKeys : ∀ p ∈ o.server.profiles, ∃ ck, cookieKey K o.key p = some ck

/-- What careful runs keep. -/
structure Inv : Prop where
  opens : ∀ org o, w.orgs org = some o → Opens K C o
  apart : KeyUnique Prod.snd w.drawn
  /-- The key in force of an organisation was drawn for it. -/
  own : ∀ org o, w.orgs org = some o → (org, o.key) ∈ w.drawn

end Statements

section Opening

variable {K : KeyScheme κ η β ν π} {C : Codec σ ν} {w : World κ β π} {o : Org κ β π}
variable {out : Opened κ σ} {key : κ} {org profile shell user : ℕ}

/-- A launch derives everything from the key that the shell holds. -/
theorem launchFromSpec_ok_iff {sh : Shell κ β π} {spec : LaunchSpec β}
    (hsession : sh.session.isSome = true) :
    (launchFromSpec K C sh spec).2 = .ok out ↔ ∃ key, sh.machine.orgKey = some key ∧
      ∃ credentials,
        openProxyCredentials K C key spec.credentialsEnc spec.wrappedDek = some credentials ∧
        ∃ ck, cookieKey K key ⟨spec.profileId, spec.wrappedCookieKey⟩ = some ck ∧
          ⟨profileKey K key spec.profileId, ck, credentials⟩ = out := by
  have hsome : sh.session.isNone = false := by simpa using hsession
  unfold launchFromSpec
  cases hkey : sh.machine.orgKey with
  | none => simp
  | some key =>
    dsimp only
    cases hopen : openProxyCredentials K C key spec.credentialsEnc spec.wrappedDek with
    | none =>
      dsimp only
      split <;> simp [hopen]
    | some credentials =>
      cases hck : cookieKey K key ⟨spec.profileId, spec.wrappedCookieKey⟩ with
      | none => simp [hsome, hopen, hck]
      | some ck => simp [hsome, hopen, hck]

/-- Whoever may launch a profile has it opened from the rows of its organisation. -/
theorem launch_ok_iff {elsewhere : ℕ} (ho : w.orgs org = some o)
    (hsession : (w.shells shell).session = some (user, elsewhere))
    (hmay : (o.permissionsForProfile user profile w.now).has .launch = true) :
    (launch K C w shell org profile).2 = .ok out ↔
      ∃ key, (w.shells shell).machine.orgKey = some key ∧ opened K C o key profile = some out := by
  have hlock : (w.orgs org).bind (fun o => o.acquireLock user profile w.now) =
      o.launchSpec user profile := by
    rw [ho, Option.bind_some]
    exact if_pos hmay
  have hsome : (w.shells shell).session.isSome = true := by rw [hsession]; rfl
  unfold launch
  simp only [hsession, hlock]
  unfold Org.launchSpec opened
  cases hp : lookup Profile.id o.server.profiles profile with
  | none => simp
  | some p =>
    have hpid : (⟨profile, p.wrappedCookieKey⟩ : Profile β) = p := by
      rw [← (lookup_some hp).2]
    cases hx : o.proxy profile with
    | none => simp
    | some x =>
      cases henc : o.credentialsEnc x.id with
      | none => simp [henc]
      | some enc =>
        cases hdek : x.wrappedDek with
        | none => simp [henc, hdek]
        | some dek =>
          simp only [Option.bind_some, Option.map_some, henc, hdek]
          rw [launchFromSpec_ok_iff hsome]
          simp only [hpid, Option.bind_eq_some_iff, Option.map_eq_some_iff]

/-- The data key of a proxy opens its credentials. -/
theorem openProxyCredentials_eq {x : Proxy β} {enc dek : β} {v : ν} (hdek : x.wrappedDek = some dek)
    (h : proxyDek K key x = some v) : openProxyCredentials K C key enc dek =
      (K.toKey v).bind fun d => (K.unwrap d enc).bind C.fromSlice := by
  have hunwrap : K.unwrap key dek = some v := by
    unfold proxyDek at h
    rwa [hdek, Option.bind_some] at h
  unfold openProxyCredentials
  rw [hunwrap, Option.bind_some]

/-- Where everything opens, a profile with a proxy does. -/
theorem Opens.opened (h : Opens K C o)
    (hprofile : (lookup Profile.id o.server.profiles profile).isSome = true)
    (hproxy : (o.proxy profile).isSome = true) :
    ∃ out, SharedOpening.opened K C o o.key profile = some out := by
  obtain ⟨p, hp⟩ := Option.isSome_iff_exists.mp hprofile
  obtain ⟨x, hx⟩ := Option.isSome_iff_exists.mp hproxy
  obtain ⟨_, _, hfound⟩ := Option.bind_eq_some_iff.mp hx
  obtain ⟨hrow, hlive⟩ := Option.filter_eq_some_iff.mp hfound
  obtain ⟨enc, henc, v, hv, hcredentials⟩ :=
    h.proxies x (lookup_some hrow).1 (by simpa using hlive)
  obtain ⟨c, hc⟩ := Option.isSome_iff_exists.mp hcredentials
  obtain ⟨ck, hck⟩ := h.cookieKeys p (lookup_some hp).1
  obtain ⟨dek, hdek, _⟩ := Option.bind_eq_some_iff.mp hv
  refine ⟨⟨profileKey K o.key profile, ck, c⟩, ?_⟩
  unfold SharedOpening.opened
  rw [hp, hx, Option.bind_some, Option.bind_some, henc, Option.bind_some, hdek, Option.bind_some,
    openProxyCredentials_eq hdek hv, hc, Option.bind_some, hck, Option.map_some]

theorem Opens.key_of_opened (h : Opens K C o)
    (hopened : SharedOpening.opened K C o key profile = some out) : key = o.key := by
  obtain ⟨p, _, hopened⟩ := Option.bind_eq_some_iff.mp hopened
  obtain ⟨x, hx, hopened⟩ := Option.bind_eq_some_iff.mp hopened
  obtain ⟨enc, _, hopened⟩ := Option.bind_eq_some_iff.mp hopened
  obtain ⟨dek, hdek, hopened⟩ := Option.bind_eq_some_iff.mp hopened
  obtain ⟨c, hc, _⟩ := Option.bind_eq_some_iff.mp hopened
  obtain ⟨v, hv, _⟩ := Option.bind_eq_some_iff.mp hc
  obtain ⟨_, _, hfound⟩ := Option.bind_eq_some_iff.mp hx
  obtain ⟨hrow, hlive⟩ := Option.filter_eq_some_iff.mp hfound
  obtain ⟨_, _, v', hv', _⟩ := h.proxies x (lookup_some hrow).1 (by simpa using hlive)
  have hunwrap : proxyDek K key x = some v := by
    unfold proxyDek
    rw [hdek, Option.bind_some]
    exact hv
  exact proxyDek_unique hunwrap hv'

end Opening

section Rotation

variable {K : KeyScheme κ η β ν π} {C : Codec σ ν} {o : Org κ β π} {new : κ}
variable {asked : Server β π} {req : RotateRequest β} {nonce : Ref → η} {removeUser : Option ℕ}

theorem deleted_moveProxy (x : Proxy β) : (moveProxy req x).deleted = x.deleted := by
  unfold moveProxy write
  induction req.proxies generalizing x with
  | nil => rfl
  | cons w writes ih =>
    rw [List.foldl_cons, ih]
    split <;> rfl

/-- A rotation with the key in force, of all that there is, leaves everything open under the new
key. -/
theorem Opens.rotated (h : Opens K C o) (hnew : new ≠ o.key)
    (hreq : rotateRequest K nonce o.key new asked removeUser = some req)
    (hproxies : ∀ x ∈ o.server.proxies, x.deleted = false → x ∈ asked.proxies)
    (hprofiles : ∀ p ∈ o.server.profiles, p ∈ asked.profiles) :
    Opens K C { o with key := new, server := rotated o.server req } := by
  have hdeks := (proxies_iff o.server hnew hreq).mpr fun x hx v hv => by
    obtain ⟨hin, hlive⟩ := List.mem_filter.mp hx
    exact ⟨x, List.mem_filter.mpr ⟨hproxies x hin (by simpa using hlive), hlive⟩, rfl, trivial, hv⟩
  have hcookies := (cookieKeys_iff o.server hnew hreq).mpr fun p hp ck hck =>
    ⟨p, hprofiles p hp, rfl, trivial, hck⟩
  constructor
  · intro y hy hlive
    obtain ⟨x, hx, rfl⟩ := List.mem_map.mp hy
    rw [deleted_moveProxy] at hlive
    obtain ⟨enc, henc, v, hv, hcredentials⟩ := h.proxies x hx hlive
    have hid : (moveProxy req x).id = x.id := id_write fun _ _ => rfl
    refine ⟨enc, hid ▸ henc, v, ?_, hcredentials⟩
    exact hdeks x (List.mem_filter.mpr ⟨hx, by simp [hlive]⟩) v hv
  · intro q hq
    obtain ⟨p, hp, rfl⟩ := List.mem_map.mp hq
    obtain ⟨ck, hck⟩ := h.cookieKeys p hp
    exact ⟨ck, hcookies p hp ck hck⟩

end Rotation

section Steps

variable {K : KeyScheme κ η β ν π} {C : Codec σ ν} {w w' : World κ β π}
variable {o o' : Org κ β π} {org shell : ℕ} {a : Label κ η β σ}

/-- Only proxies, profiles and the key come into what opens. -/
theorem Opens.of_same (h : Opens K C o) (hkey : o'.key = o.key)
    (hproxies : o'.server.proxies = o.server.proxies)
    (hprofiles : o'.server.profiles = o.server.profiles)
    (henc : o'.credentialsEnc = o.credentialsEnc) : Opens K C o' where
  proxies x hx := by
    rw [hkey, henc]
    exact h.proxies x (hproxies ▸ hx)
  cookieKeys p hp := by
    rw [hkey]
    exact h.cookieKeys p (hprofiles ▸ hp)

/-- A profile that is made has a cookie key. -/
theorem Opens.createProfile (h : Opens K C o) (profile : ℕ) :
    Opens K C (o.createProfile profile) where
  proxies := h.proxies
  cookieKeys p hp := by
    rcases mem_put.mp hp with rfl | ⟨hin, _⟩
    · exact ⟨_, rfl⟩
    · exact h.cookieKeys p hin

/-- A proxy whose credentials are sealed with the key in force opens. -/
theorem Opens.putProxy (h : Opens K C o) (id : ℕ) (dek : κ) (n : η × η)
    (c : ProxyCredentials σ) : Opens K C (o.putProxy
      ⟨id, some (sealProxyCredentials K C o.key dek n c).2, false⟩
      (sealProxyCredentials K C o.key dek n c).1) where
  proxies x hx hlive := by
    rcases mem_put.mp hx with rfl | ⟨hin, hne⟩
    · refine ⟨_, if_pos rfl, K.ofKey dek, K.unwrap_wrap o.key n.2 (K.ofKey dek), ?_⟩
      rw [K.toKey_ofKey, Option.bind_some, sealProxyCredentials, K.unwrap_wrap, Option.bind_some,
        C.fromSlice_toVec]
      rfl
    · obtain ⟨enc, henc, hopens⟩ := h.proxies x hin hlive
      exact ⟨enc, (if_neg hne).trans henc, hopens⟩
  cookieKeys := h.cookieKeys

theorem Opens.deleteProxy (h : Opens K C o) (proxy : ℕ) : Opens K C (o.deleteProxy proxy) where
  proxies x hx hlive := by
    rcases updateWhere_cases hx with ⟨hin, _⟩ | ⟨_, _, _, rfl⟩
    · exact h.proxies x hin hlive
    · cases hlive
  cookieKeys := h.cookieKeys

theorem orgs_setOrg {i : ℕ} {o' : Org κ β π} : (w.setOrg org o).orgs i = some o' ↔
    (i = org ∧ o' = o) ∨ (i ≠ org ∧ w.orgs i = some o') := by
  unfold World.setOrg
  by_cases hi : i = org
  · simp [hi, eq_comm]
  · simp [hi]

/-- An organisation whose key stays and whose rows open may change. -/
theorem Inv.setOrg (h : Inv K C w) (ho : w.orgs org = some o) (hkey : o'.key = o.key)
    (hopens : Opens K C o') : Inv K C (w.setOrg org o') where
  opens i o₁ hi := by
    rcases orgs_setOrg.mp hi with ⟨rfl, rfl⟩ | ⟨_, hi⟩
    · exact hopens
    · exact h.opens i o₁ hi
  apart := h.apart
  own i o₁ hi := by
    rcases orgs_setOrg.mp hi with ⟨rfl, rfl⟩ | ⟨_, hi⟩
    · exact hkey ▸ h.own i o ho
    · exact h.own i o₁ hi

/-- What the shells hold does not come into it, nor the time. -/
theorem Inv.of_same (h : Inv K C w) (horgs : w'.orgs = w.orgs) (hdrawn : w'.drawn = w.drawn) :
    Inv K C w' where
  opens i o hi := h.opens i o (horgs ▸ hi)
  apart := hdrawn ▸ h.apart
  own i o hi := hdrawn ▸ h.own i o (horgs ▸ hi)

/-- An organisation gets a key that is drawn for it. -/
theorem Inv.draw {new : κ} (h : Inv K C w) (hfresh : new ∉ w.drawn.map Prod.snd)
    (horgs : w'.orgs = (w.setOrg org o').orgs) (hdrawn : w'.drawn = (org, new) :: w.drawn)
    (hkey : o'.key = new) (hopens : Opens K C o') : Inv K C w' where
  opens i o₁ hi := by
    rcases orgs_setOrg.mp (horgs ▸ hi) with ⟨rfl, rfl⟩ | ⟨_, hi⟩
    · exact hopens
    · exact h.opens i o₁ hi
  apart := by
    rw [hdrawn]
    exact h.apart.cons fun s hs heq => hfresh (List.mem_map.mpr ⟨s, hs, heq⟩)
  own i o₁ hi := by
    rw [hdrawn]
    rcases orgs_setOrg.mp (horgs ▸ hi) with ⟨rfl, rfl⟩ | ⟨_, hi⟩
    · exact hkey ▸ List.mem_cons_self
    · exact List.mem_cons_of_mem _ (h.own i o₁ hi)

theorem inv_start (h : Start w) : Inv K C w where
  opens i o hi := by
    rw [h.2 i] at hi
    cases hi
  apart := by
    rw [h.1]
    exact keyUnique_nil
  own i o hi := by
    rw [h.2 i] at hi
    cases hi

theorem saveProxy_inv {f : ProxyForm σ} {dek : κ} {n : η × η} {mayReveal : Bool} (h : Inv K C w)
    (hcareful : f.touchingCredentials = true → HoldsCurrent w shell)
    (hs : saveProxy K C w shell f dek n mayReveal = some w') : Inv K C w' := by
  obtain ⟨s, hsession, hs⟩ := Option.bind_eq_some_iff.mp hs
  obtain ⟨o, ho, hs⟩ := Option.bind_eq_some_iff.mp hs
  obtain ⟨orgKey, hkey, hs⟩ := Option.bind_eq_some_iff.mp hs
  obtain ⟨_, hs⟩ := Option.ite_none_right_eq_some.mp hs
  obtain ⟨c, _, rfl⟩ := Option.map_eq_some_iff.mp hs
  split
  · next htouching =>
    have horg : w.orgOf shell = some o := by
      unfold World.orgOf
      rw [hsession, Option.bind_some]
      exact ho
    obtain rfl := Option.some.inj (hkey.symm.trans (hcareful htouching o horg))
    exact h.setOrg ho rfl ((h.opens _ o ho).putProxy f.id dek n c)
  · exact h

theorem shareProfile_inv {profile user : ℕ} {requested : PermSet} {expiresAt : Option ℕ}
    {n : η × η} (h : Inv K C w)
    (hs : shareProfile K w shell profile user requested expiresAt n = some w') : Inv K C w' := by
  obtain ⟨s, _, hs⟩ := Option.bind_eq_some_iff.mp hs
  obtain ⟨o, ho, hs⟩ := Option.bind_eq_some_iff.mp hs
  obtain ⟨_, _, hs⟩ := Option.bind_eq_some_iff.mp hs
  obtain ⟨_, _, hs⟩ := Option.bind_eq_some_iff.mp hs
  obtain ⟨_, _, hs⟩ := Option.bind_eq_some_iff.mp hs
  obtain ⟨o', hshare, rfl⟩ := Option.map_eq_some_iff.mp hs
  obtain ⟨_, hshare⟩ := Option.ite_none_right_eq_some.mp hshare
  cases hshare
  exact h.setOrg ho rfl ((h.opens _ o ho).of_same rfl rfl rfl rfl)

variable [DecidableEq κ]

theorem rotate_inv {removeUser : Option ℕ} {steppedUp : Bool} {new : κ} {nonce : Ref → η}
    (h : Inv K C w) (hcareful : Careful w (.removeMember shell removeUser steppedUp new nonce :
      Label κ η β σ))
    (hs : rotate K w shell removeUser steppedUp new nonce = some w') : Inv K C w' := by
  obtain ⟨s, hsession, hs⟩ := Option.bind_eq_some_iff.mp hs
  obtain ⟨o, ho, hs⟩ := Option.bind_eq_some_iff.mp hs
  obtain ⟨_, _, hs⟩ := Option.bind_eq_some_iff.mp hs
  obtain ⟨asked, hasked, hs⟩ := Option.bind_eq_some_iff.mp hs
  obtain ⟨hfresh, hs⟩ := Option.ite_none_right_eq_some.mp hs
  obtain ⟨⟨m, after⟩, hremove, rfl⟩ := Option.map_eq_some_iff.mp hs
  have horg : w.orgOf shell = some o := by
    unfold World.orgOf
    rw [hsession, Option.bind_some]
    exact ho
  obtain ⟨hcurrent, hsame⟩ := hcareful
  obtain ⟨hproxies, hprofiles⟩ := hsame o horg asked hasked
  obtain ⟨held, req, hheld, hreq, rfl⟩ := removeMember_some hremove
  obtain rfl := Option.some.inj (hheld.symm.trans (hcurrent o horg))
  have hnew : new ≠ o.key := by
    rintro rfl
    exact hfresh (List.mem_map.mpr ⟨_, h.own _ o ho, rfl⟩)
  exact h.draw hfresh rfl rfl rfl ((h.opens _ o ho).rotated hnew hreq hproxies hprofiles)

/-- A careful step keeps everything open. -/
theorem inv_step (h : Inv K C w) (hcareful : Careful w a) (hs : step K C w a = some w') :
    Inv K C w' := by
  cases a with
  | passes seconds =>
    cases hs
    exact h.of_same rfl rfl
  | createOrg org user key n =>
    obtain ⟨hnew, hs⟩ := Option.ite_none_right_eq_some.mp hs
    cases hs
    have hfresh : key ∉ w.drawn.map Prod.snd := by
      simp only [Bool.and_eq_true, decide_eq_true_eq] at hnew
      exact hnew.2
    exact h.draw hfresh rfl rfl rfl
      ⟨List.forall_mem_nil _, List.forall_mem_nil _⟩
  | join org user role wrappedOrk =>
    obtain ⟨o, ho, rfl⟩ := Option.map_eq_some_iff.mp hs
    exact h.setOrg ho rfl ((h.opens _ o ho).of_same rfl rfl rfl rfl)
  | grantProject org user profile permissions =>
    obtain ⟨o, ho, rfl⟩ := Option.map_eq_some_iff.mp hs
    exact h.setOrg ho rfl ((h.opens _ o ho).of_same rfl rfl rfl rfl)
  | signIn shell user org =>
    obtain ⟨o, _, hs⟩ := Option.bind_eq_some_iff.mp hs
    obtain ⟨_, _, rfl⟩ := Option.map_eq_some_iff.mp hs
    exact h.of_same rfl rfl
  | take shell machine generation =>
    cases hs
    exact h.of_same rfl rfl
  | createProfile org profile =>
    obtain ⟨o, ho, hs⟩ := Option.bind_eq_some_iff.mp hs
    obtain ⟨_, hs⟩ := Option.ite_none_right_eq_some.mp hs
    cases hs
    exact h.setOrg ho rfl ((h.opens _ o ho).createProfile profile)
  | assignProxy org profile proxy =>
    obtain ⟨o, ho, rfl⟩ := Option.map_eq_some_iff.mp hs
    exact h.setOrg ho rfl ((h.opens _ o ho).of_same rfl rfl rfl rfl)
  | saveProxy shell f dek n mayReveal => exact saveProxy_inv h hcareful hs
  | deleteProxy org proxy =>
    obtain ⟨o, ho, rfl⟩ := Option.map_eq_some_iff.mp hs
    exact h.setOrg ho rfl ((h.opens _ o ho).deleteProxy proxy)
  | shareProfile shell profile user requested expiresAt n => exact shareProfile_inv h hs
  | revokeShare org profile user =>
    obtain ⟨o, ho, rfl⟩ := Option.map_eq_some_iff.mp hs
    exact h.setOrg ho rfl ((h.opens _ o ho).of_same rfl rfl rfl rfl)
  | launch shell org profile =>
    cases hs
    exact h.of_same rfl rfl
  | ask shell =>
    obtain ⟨_, _, rfl⟩ := Option.map_eq_some_iff.mp hs
    exact h.of_same rfl rfl
  | removeMember shell removeUser steppedUp new nonce => exact rotate_inv h hcareful hs

/-- In careful runs everything stays open. -/
theorem inv_reached (hr : Reached Start (step K C) Careful w) : Inv K C w :=
  hr.invariant (Inv K C) (fun _ h => inv_start h) fun _ _ _ h hcareful hs =>
    inv_step h hcareful hs

end Steps

section Main

variable {K : KeyScheme κ η β ν π} {C : Codec σ ν} {w : World κ β π} {o : Org κ β π}
variable {org profile owner recipient : ℕ}

/-- Whoever holds a live share with the permission to launch may. -/
theorem permissions_of_share {user : ℕ} {g : Grant β}
    (hg : lookup Grant.ref o.grants (profile, user) = some g) (hlive : g.live w.now = true)
    (hlaunch : g.permissions.has .launch = true) :
    (o.permissionsForProfile user profile w.now).has .launch = true := by
  unfold Org.permissionsForProfile
  simp only [hg, hlive, if_true]
  rw [has_or, hlaunch, Bool.or_true]

/-- An owner may launch every profile. -/
theorem permissions_of_owner {user : ℕ} (hrole : o.role user = some .owner) :
    (o.permissionsForProfile user profile w.now).has .launch = true := by
  have hall : PermSet.all.has .launch = true := by decide
  have heffective : ∀ grant, effective .owner grant = PermSet.all := fun _ => rfl
  unfold Org.permissionsForProfile
  simp only [hrole, heffective]
  split
  · split
    · rw [has_or, hall, Bool.true_or]
    · exact hall
  · exact hall

/-- Where everything opens, it opens for both alike if they hold the key in force. -/
theorem Shared.alike_iff (hopens : Opens K C o) (hs : Shared w org profile owner recipient o) :
    OpensAlike K C w org profile owner recipient ↔
      (w.shells owner).machine.orgKey = some o.key ∧
        (w.shells recipient).machine.orgKey = some o.key := by
  obtain ⟨_, howner, hrole⟩ := hs.owned
  obtain ⟨_, _, _, hrecipient, hg, hlive, hlaunch⟩ := hs.given
  have hmine : ∀ out : Opened κ σ, (launch K C w owner org profile).2 = .ok out ↔
      ∃ key, (w.shells owner).machine.orgKey = some key ∧ opened K C o key profile = some out :=
    fun _ => launch_ok_iff hs.found howner (permissions_of_owner hrole)
  have htheirs : ∀ out : Opened κ σ, (launch K C w recipient org profile).2 = .ok out ↔
      ∃ key, (w.shells recipient).machine.orgKey = some key ∧
        opened K C o key profile = some out :=
    fun _ => launch_ok_iff hs.found hrecipient (permissions_of_share hg hlive hlaunch)
  unfold OpensAlike
  simp only [hmine, htheirs]
  constructor
  · rintro ⟨out, ⟨k, hk, hopened⟩, k', hk', hopened'⟩
    obtain rfl := hopens.key_of_opened hopened
    obtain rfl := hopens.key_of_opened hopened'
    exact ⟨hk, hk'⟩
  · rintro ⟨hmine, htheirs⟩
    obtain ⟨out, hout⟩ := hopens.opened hs.listed hs.leaves
    exact ⟨out, ⟨o.key, hmine, hout⟩, o.key, htheirs, hout⟩

/-- In every run in which proxies are saved and rotations done with the key in force, a shared
profile opens for the recipient as it does for its owner exactly when the shells of both hold the
key in force of the organisation of the profile. -/
theorem shared_opens_iff [DecidableEq κ] (hr : Reached Start (step K C) Careful w)
    (hs : Shared w org profile owner recipient o) :
    OpensAlike K C w org profile owner recipient ↔
      (w.shells owner).machine.orgKey = some o.key ∧
        (w.shells recipient).machine.orgKey = some o.key :=
  hs.alike_iff ((inv_reached hr).opens org o hs.found)

end Main

section Examples

/-- Credentials as terms. -/
def plain : Codec ℕ Term where
  toVec c := .derived (.root (c.username.elim 0 Nat.succ)) "" (c.password.elim 0 Nat.succ)
  fromSlice
    | .derived (.root u) _ p => some ⟨if u = 0 then none else some (u - 1),
        if p = 0 then none else some (p - 1)⟩
    | _ => none
  fromSlice_toVec c := by
    rcases c with ⟨_ | _, _ | _⟩ <;> rfl

/-- A shell on which nobody has signed in. -/
def unused : Shell Term (Term × Term) ℕ := ⟨none, ⟨none, none, false⟩, 0, none⟩

/-- A server without an organisation. -/
def fresh : World Term (Term × Term) ℕ where
  orgs _ := none
  publicKey user := user
  shells _ := unused
  drawn := []
  now := 0

theorem fresh_start : Start fresh := ⟨rfl, fun _ => rfl⟩

/-- May see and launch. -/
def seeAndLaunch : PermSet := PermSet.fromIter [.view, .launch]

/-- A shell has an organisation key in memory. -/
def unlock (shell : ℕ) (key : Term) (generation : ℕ) : Label Term Unit (Term × Term) ℕ :=
  .take shell ⟨some key, none, false⟩ generation

/-- Organisation 1 has the profile 7, which leaves through the proxy 5. -/
def equipped : List (Label Term Unit (Term × Term) ℕ) :=
  [.createOrg 1 1 (.root 1) (), .signIn 1 1 1, unlock 1 (.root 1) 1, .createProfile 1 7,
    .saveProxy 1 ⟨5, true, false, ⟨some 3, some 4⟩⟩ (.root 50) ((), ()) true,
    .assignProxy 1 7 (some 5)]

/-- It gives the profile to the owner of organisation 2. -/
def givenAway : List (Label Term Unit (Term × Term) ℕ) :=
  equipped ++ [.createOrg 2 2 (.root 2) (), .signIn 2 2 2, unlock 2 (.root 2) 1,
    .shareProfile 1 7 2 seeAndLaunch none ((), ())]

/-- It gives it to a member, saves another password for the proxy and rotates its key, and the
member takes the new one. -/
def givenToMember : List (Label Term Unit (Term × Term) ℕ) :=
  equipped ++ [.join 1 2 .member none, .signIn 2 2 1, unlock 2 (.root 1) 1,
    .shareProfile 1 7 2 seeAndLaunch none ((), ()),
    .saveProxy 1 ⟨5, false, false, ⟨none, some 6⟩⟩ (.root 51) ((), ()) true, .ask 1,
    .removeMember 1 none true (.root 9) fun _ => (), unlock 2 (.root 9) 2]

/-- The profile is shared, as far as can be seen from the tables. -/
def Given (w : World Term (Term × Term) ℕ) : Prop :=
  (w.shells 1).session = some (1, 1) ∧ ∃ o ∈ w.orgs 1,
    (lookup Profile.id o.server.profiles 7).isSome = true ∧ (o.proxy 7).isSome = true ∧
      o.role 1 = some .owner ∧ ∃ s ∈ (w.shells 2).session,
        ∃ g ∈ lookup Grant.ref o.grants (7, s.1), g.live w.now = true ∧
          g.permissions.has .launch = true

instance (w : World Term (Term × Term) ℕ) : Decidable (Given w) := by
  unfold Given
  infer_instance

theorem Given.shared {w : World Term (Term × Term) ℕ} (h : Given w) :
    ∃ o, w.orgs 1 = some o ∧ Shared w 1 7 1 2 o := by
  obtain ⟨howner, o, ho, hlisted, hleaves, hrole, ⟨user, elsewhere⟩, hs, g, hg, hlive, hlaunch⟩ := h
  exact ⟨o, ho, ho, hlisted, hleaves, ⟨1, howner, hrole⟩,
    ⟨user, elsewhere, g, hs, hg, hlive, hlaunch⟩⟩

/-- A member opens it after an edit and a rotation. -/
theorem shared_opens_iff_givenToMember :
    ∃ w, run (step terms plain) fresh givenToMember = some w ∧
      OpensAlike terms plain w 1 7 1 2 := by
  have hrun : (run (step terms plain) fresh givenToMember).isSome = true := by decide
  obtain ⟨w, hw⟩ := Option.isSome_iff_exists.mp hrun
  have hallowed : Allowed (step terms plain) Careful fresh givenToMember := by decide
  have hgiven : ∀ w ∈ run (step terms plain) fresh givenToMember, Given w := by decide
  have hkeys : ∀ w ∈ run (step terms plain) fresh givenToMember, ∀ o ∈ w.orgs 1,
      (w.shells 1).machine.orgKey = some o.key ∧ (w.shells 2).machine.orgKey = some o.key := by
    decide
  obtain ⟨o, ho, hshared⟩ := (hgiven w hw).shared
  have hreached : Reached Start (step terms plain) Careful w :=
    Reached.run givenToMember (.start fresh_start) hallowed hw
  exact ⟨w, hw, (shared_opens_iff hreached hshared).mpr (hkeys w hw o ho)⟩

/-- The owner of another organisation, whom it is given to, cannot open it. -/
theorem given_away_stays_closed : ¬ ∀ w : World Term (Term × Term) ℕ,
    Reached Start (step terms plain) anyStep w → ∀ org o profile owner recipient,
      Shared w org profile owner recipient o → (w.shells owner).machine.orgKey = some o.key →
        OpensAlike terms plain w org profile owner recipient := by
  have hrun : (run (step terms plain) fresh givenAway).isSome = true := by decide
  obtain ⟨w, hw⟩ := Option.isSome_iff_exists.mp hrun
  have hgiven : ∀ w ∈ run (step terms plain) fresh givenAway, Given w := by decide
  have hkey : ∀ w ∈ run (step terms plain) fresh givenAway, ∀ o ∈ w.orgs 1,
      (w.shells 1).machine.orgKey = some o.key := by decide
  have hclosed : ∀ w ∈ run (step terms plain) fresh givenAway,
      ∀ out : Opened Term ℕ, (launch terms plain w 2 1 7).2 ≠ .ok out := by
    have hrefused : ∀ w ∈ run (step terms plain) fresh givenAway,
        (launch terms plain w 2 1 7).2.isOk = false := by decide
    intro w hw out hout
    have hok := hrefused w hw
    rw [hout] at hok
    cases hok
  intro h
  obtain ⟨o, ho, hshared⟩ := (hgiven w hw).shared
  obtain ⟨out, _, hout⟩ :=
    h w (Reached.run_any givenAway (.start fresh_start) hw) 1 o 7 1 2 hshared (hkey w hw o ho)
  exact hclosed w hw out hout

end Examples

end FuryBrowser.SharedOpening
