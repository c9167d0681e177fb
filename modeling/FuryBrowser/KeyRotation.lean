import FuryBrowser.OrgKeys
import FuryBrowser.WrappedKeys

/-!
# What a rotation moves

`remove_member` asks the server for everything that is under the organisation key, opens it with
the key that this machine holds and wraps it again under a new one: the data keys of proxies and
saved logins under the organisation key itself, those of bundles and the cookie keys of profiles
under keys derived from it. A profile that has no stored cookie key has one that is derived.
What the key does not open is named, except of a proxy, which ends the command.

The server takes the result if nothing that it has is missing from it. Between its two answers
others can change what it has.
-/

namespace FuryBrowser.KeyRotation

open RowTable WrappedKeys
open OrgKeys (Role Ref mayRemove)

universe u v w x y

/-- A row of `org_members`, and of `users`. -/
structure Member (β : Type w) (π : Type y) where
  user : ℕ
  role : Role
  wrappedOrk : Option β
  /-- `disabled_at` is set. -/
  disabled : Bool
  publicKey : π

/-- A row of `proxies`. -/
structure Proxy (β : Type w) where
  id : ℕ
  wrappedDek : Option β
  /-- `deleted_at` is set. -/
  deleted : Bool

/-- A row of `profiles`. -/
structure Profile (β : Type w) where
  id : ℕ
  wrappedCookieKey : Option β

/-- A row of `bundles`. -/
structure Bundle (β : Type w) where
  id : ℕ
  profile : ℕ
  /-- Its key has the prefix of those under a profile key. -/
  shared : Bool
  /-- `wrapped_dek`, without the prefix. -/
  wrappedDek : β

/-- A row of `credentials`. -/
structure Credential (β : Type w) where
  id : ℕ
  wrappedDek : β
  /-- `payload_enc`. -/
  payload : β

/-- A row of `profile_grants`, and the public key of whom it is for. -/
structure Share (β : Type w) (π : Type y) where
  profile : ℕ
  user : ℕ
  /-- Their `public_key`. -/
  publicKey : π
  wrappedKey : β

/-- What a server has of an organisation. -/
structure Server (β : Type w) (π : Type y) where
  /-- `ork_generation`. -/
  generation : ℕ
  /-- `org_members`. -/
  members : List (Member β π)
  proxies : List (Proxy β)
  /-- `profiles`, those in the trash too. -/
  profiles : List (Profile β)
  bundles : List (Bundle β)
  credentials : List (Credential β)
  /-- `profile_grants`. -/
  shares : List (Share β π)
  /-- The primary key of `proxies`. -/
  proxyIds : KeyUnique Proxy.id proxies
  /-- Of `profiles`. -/
  profileIds : KeyUnique Profile.id profiles
  /-- Of `bundles`. -/
  bundleIds : KeyUnique Bundle.id bundles
  /-- Of `credentials`. -/
  credentialIds : KeyUnique Credential.id credentials

/-- The body of `rotate_org_key`. -/
structure RotateRequest (β : Type w) where
  /-- `remove_user_id`. -/
  removeUser : Option ℕ
  /-- The new key, sealed to each member. -/
  members : List (ℕ × β)
  proxies : List (ℕ × β)
  /-- The generation it was computed against. -/
  generation : ℕ
  /-- Cookie keys of profiles. -/
  cookieKeys : List (ℕ × β)
  bundles : List (ℕ × β)
  /-- Data keys of saved logins. -/
  credentials : List (ℕ × β)
  /-- New profile keys, sealed to whom a profile was given. -/
  shares : List ((ℕ × ℕ) × β)
  /-- What the old key did not open. -/
  unreadable : List ℕ

/-- Who calls. -/
structure Caller where
  user : ℕ
  role : Role
  /-- `require_step_up` is satisfied. -/
  steppedUp : Bool
  deriving DecidableEq, Repr

/-- The shell, as far as it holds a key. -/
structure Machine (κ : Type u) where
  /-- `AppState::org_key`, in memory. -/
  memory : Option κ
  keychain : Option κ
  /-- `remember_org_key`. -/
  remember : Bool
  deriving DecidableEq, Repr

/-- `org_key`. -/
def Machine.orgKey {κ : Type u} (m : Machine κ) : Option κ :=
  m.memory <|> if m.remember then m.keychain else none

section Keys

variable {κ : Type u} {η : Type v} {β : Type w} {ν : Type x} {π : Type y}
variable (K : KeyScheme κ η β ν π)

/-- `profile_key`. -/
def profileKey (org : κ) (profile : ℕ) : κ := K.derive org "fury-profile-v1" profile

/-- `os_crypt_key`. -/
def osCryptKey (profileKey : κ) (profile : ℕ) : κ := K.derive profileKey "fury-oscrypt-v1" profile

/-- The data key of a proxy. -/
def proxyDek (org : κ) (x : Proxy β) : Option ν := x.wrappedDek.bind (K.unwrap org)

/-- `cookie_key`. -/
def cookieKey (org : κ) (p : Profile β) : Option κ :=
  match p.wrappedCookieKey with
  | some wrapped => (K.unwrap (profileKey K org p.id) wrapped).bind K.toKey
  | none => some (osCryptKey K (profileKey K org p.id) p.id)

/-- The data key of a bundle that is under a profile key. -/
def bundleDek (org : κ) (b : Bundle β) : Option ν :=
  if b.shared then K.unwrap (profileKey K org b.profile) b.wrappedDek else none

/-- The data key of a saved login. -/
def credentialDek (org : κ) (c : Credential β) : Option ν := K.unwrap org c.wrappedDek

/-- `open_credential`. -/
def openCredential (org : κ) (c : Credential β) : Option ν :=
  (credentialDek K org c).bind fun dek => (K.toKey dek).bind fun key => K.unwrap key c.payload

end Keys

section Client

variable {κ : Type u} {η : Type v} {β : Type w} {ν : Type x} {π : Type y}
variable (K : KeyScheme κ η β ν π) (nonce : Ref → η) (old new : κ) (s : Server β π)

/-- The proxies that `rotation_material` has a data key of. -/
def materialProxies : List (Proxy β) := s.proxies.filter fun x => !x.deleted

/-- The bundles it has. -/
def materialBundles : List (Bundle β) := s.bundles.filter Bundle.shared

/-- The members it has, without the one who goes. -/
def materialMembers (removeUser : Option ℕ) : List (Member β π) :=
  s.members.filter fun m => !m.disabled && m.wrappedOrk.isSome && some m.user ≠ removeUser

/-- The request that `remove_member` puts together. A proxy whose data key does not open ends
it, and so does a public key that cannot be sealed to. -/
def rotateRequest (removeUser : Option ℕ) : Option (RotateRequest β) :=
  let sealKey : Member β π → Option β := fun m =>
    K.sealTo m.publicKey (nonce (.member m.user)) (K.ofKey new)
  let sealShare : Share β π → Option β := fun g =>
    K.sealTo g.publicKey (nonce (.share g.profile g.user)) (K.ofKey (profileKey K new g.profile))
  if (materialMembers s removeUser).all (fun m => (sealKey m).isSome) &&
      (materialProxies s).all (fun x => x.wrappedDek.all fun w => (K.unwrap old w).isSome) &&
      s.shares.all (fun g => (sealShare g).isSome) then
    some {
      removeUser := removeUser
      members := (materialMembers s removeUser).filterMap fun m => (sealKey m).map (m.user, ·)
      -- `rewrap_data_key`, and below `wrap_cookie_key` and `rewrap_bundle_key`.
      proxies := carried Proxy.id (proxyDek K old)
        (fun x v => K.wrap new (nonce (.proxy x.id)) v) (materialProxies s)
      generation := s.generation
      cookieKeys := carried Profile.id (cookieKey K old)
        (fun p v => K.wrap (profileKey K new p.id) (nonce (.cookieKey p.id)) (K.ofKey v)) s.profiles
      bundles := carried Bundle.id (bundleDek K old)
        (fun b v => K.wrap (profileKey K new b.profile) (nonce (.bundle b.id)) v)
        (materialBundles s)
      credentials := carried Credential.id (credentialDek K old)
        (fun c v => K.wrap new (nonce (.credential c.id)) v) s.credentials
      shares := s.shares.filterMap fun g => (sealShare g).map ((g.profile, g.user), ·)
      unreadable := leftOver Profile.id (cookieKey K old) s.profiles ++
        leftOver Bundle.id (bundleDek K old) (materialBundles s) ++
        leftOver Credential.id (credentialDek K old) s.credentials }
  else none

end Client

section Rotation

variable {β : Type w} {π : Type y} (s : Server β π) (req : RotateRequest β)

/-- The `UPDATE`s of `proxies`. -/
def moveProxy : Proxy β → Proxy β :=
  write Proxy.id (fun w x => { x with wrappedDek := some w }) req.proxies

/-- Of `profiles`. -/
def moveProfile : Profile β → Profile β :=
  write Profile.id (fun w p => { p with wrappedCookieKey := some w }) req.cookieKeys

/-- Of `bundles`. -/
def moveBundle : Bundle β → Bundle β :=
  write Bundle.id (fun w b => { b with wrappedDek := w, shared := true }) req.bundles

/-- Of `credentials`. -/
def moveCredential : Credential β → Credential β :=
  write Credential.id (fun w c => { c with wrappedDek := w }) req.credentials

/-- Of `org_members`. -/
def moveMember : Member β π → Member β π := fun m => req.members.foldl (fun m w =>
  if m.user = w.1 && m.wrappedOrk.isSome then { m with wrappedOrk := some w.2 } else m) m

/-- Of `profile_grants`. -/
def moveShare : Share β π → Share β π := fun g => req.shares.foldl (fun g w =>
  if (g.profile, g.user) = w.1 then { g with wrappedKey := w.2 } else g) g

/-- The members who stay. -/
def remaining : List (Member β π) := deleteWhere (fun m => some m.user = req.removeUser) s.members

/-- `rotate_org_key` finds nothing in its way. -/
def accepts (c : Caller) : Bool :=
  (c.role = .owner || c.role = .admin) && (req.removeUser.isNone || c.steppedUp) &&
    req.removeUser ≠ some c.user && req.generation = s.generation &&
    req.removeUser.all (fun gone => s.members.any fun m =>
      m.user = gone && mayRemove c.role m.role) &&
    (remaining s req).all (fun m => m.wrappedOrk.isNone || req.members.any fun w => w.1 = m.user) &&
    s.profiles.all (fun p => req.cookieKeys.any (fun w => w.1 = p.id) || p.id ∈ req.unreadable) &&
    (materialBundles s).all (fun b => req.bundles.any (fun w => w.1 = b.id) ||
      b.id ∈ req.unreadable) &&
    s.credentials.all (fun c => req.credentials.any (fun w => w.1 = c.id) ||
      c.id ∈ req.unreadable) &&
    s.shares.all fun g => req.shares.any fun w => w.1 = (g.profile, g.user)

/-- What is written when everything is. -/
def rotated : Server β π where
  generation := s.generation + 1
  members := (remaining s req).map (moveMember req)
  proxies := s.proxies.map (moveProxy req)
  profiles := s.profiles.map (moveProfile req)
  bundles := s.bundles.map (moveBundle req)
  credentials := s.credentials.map (moveCredential req)
  shares := s.shares.map (moveShare req)
  proxyIds := keyUnique_write s.proxyIds fun _ _ => rfl
  profileIds := keyUnique_write s.profileIds fun _ _ => rfl
  bundleIds := keyUnique_write s.bundleIds fun _ _ => rfl
  credentialIds := keyUnique_write s.credentialIds fun _ _ => rfl

/-- `rotate_org_key`. -/
def rotateOrgKey (c : Caller) : Option (Server β π) :=
  if accepts s req c then some (rotated s req) else none

end Rotation

section Command

variable {κ : Type u} {η : Type v} {β : Type w} {ν : Type x} {π : Type y}
variable (K : KeyScheme κ η β ν π) (nonce : Ref → η) (new : κ)

/-- `remove_member`: what the server had when it was asked, what it has when it is told, and
what both have after it. -/
def removeMember (m : Machine κ) (asked told : Server β π) (c : Caller)
    (removeUser : Option ℕ) : Option (Machine κ × Server β π) :=
  if c.role = .owner || c.role = .admin then
    m.orgKey.bind fun old => (rotateRequest K nonce old new asked removeUser).bind fun req =>
      (rotateOrgKey told req c).map fun s =>
        (⟨some new, if m.remember then some new else m.keychain, m.remember⟩, s)
  else none

end Command

end FuryBrowser.KeyRotation
