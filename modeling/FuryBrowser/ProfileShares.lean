import FuryBrowser.GuardedRuns
import FuryBrowser.KeyRotation
import FuryBrowser.Permissions

/-!
# A profile given to somebody

`share_profile` seals two keys to the public key of whom a profile is given to: the profile's key
and the data key of its proxy. A server has many organisations, and who it is given to need not be
in the one that the profile is of; a grant that is live lets them take the lock and have what a
profile is launched from. A rotation seals the new profile key to them.

`launch_from_spec` opens what it is handed with the organisation key that its own shell holds.
-/

namespace FuryBrowser.ProfileShares

open RowTable WrappedKeys KeyRotation Permissions
open OrgKeys (Ref Role)

universe u v w x y z

variable {κ : Type u} {η : Type v} {β : Type w} {ν : Type x} {π : Type y} {σ : Type z}

/-- `ProxyCredentials`. -/
structure ProxyCredentials (σ : Type z) where
  username : Option σ
  password : Option σ
  deriving DecidableEq, Repr

/-- Credentials as bytes. -/
structure Codec (σ : Type z) (ν : Type x) where
  toVec : ProxyCredentials σ → ν
  fromSlice : ν → Option (ProxyCredentials σ)
  /-- What is written is what is read. -/
  fromSlice_toVec : ∀ c, fromSlice (toVec c) = some c

/-- A row of `profile_grants`, but for `wrapped_key`. -/
structure Grant (β : Type w) where
  profile : ℕ
  user : ℕ
  permissions : PermSet
  expiresAt : Option ℕ
  wrappedProxyKey : Option β

/-- Its primary key. -/
def Grant.ref (g : Grant β) : ℕ × ℕ := (g.profile, g.user)

/-- It has not expired. -/
def Grant.live (g : Grant β) (now : ℕ) : Bool := g.expiresAt.all fun t => now < t

/-- What a server has of an organisation. -/
structure Org (κ : Type u) (β : Type w) (π : Type y) where
  /-- The organisation key, which the server does not have. -/
  key : κ
  /-- The columns that a rotation reads or writes. -/
  server : Server β π
  /-- `proxies.credentials_enc`. -/
  credentialsEnc : ℕ → Option β
  /-- `profiles.proxy_id`. -/
  proxyOf : ℕ → Option ℕ
  /-- What a user is granted on the project of a profile. -/
  projectGrants : ℕ → ℕ → Option PermSet
  /-- `profile_grants`. -/
  grants : List (Grant β)

/-- What a profile is launched from, as far as keys come into it. -/
structure LaunchSpec (β : Type w) where
  profileId : ℕ
  /-- `proxy.credentials_enc`. -/
  credentialsEnc : β
  /-- `proxy.wrapped_dek`. -/
  wrappedDek : β
  /-- The cookie key, once a rotation has stored it. -/
  wrappedCookieKey : Option β
  /-- The generation of the organisation key, for its members. -/
  keyGeneration : Option ℕ

namespace Org

variable (o : Org κ β π) (user profile : ℕ)

/-- The role of a member. -/
def role : Option Role := (lookup Member.user o.server.members user).map Member.role

/-- `permissions_for_profile`. -/
def permissionsForProfile (now : ℕ) : PermSet :=
  let fromProject := match o.role user with
    | some r => effective r (o.projectGrants user profile)
    | none => PermSet.none
  match lookup Grant.ref o.grants (profile, user) with
  | some g => if g.live now then fromProject ||| g.permissions else fromProject
  | none => fromProject

/-- The proxy of a profile, unless it is deleted. -/
def proxy : Option (Proxy β) :=
  (o.proxyOf profile).bind fun id =>
    (lookup Proxy.id o.server.proxies id).filter fun x => !x.deleted

/-- `launch_spec`. -/
def launchSpec : Option (LaunchSpec β) :=
  (lookup Profile.id o.server.profiles profile).bind fun p => (o.proxy profile).bind fun x =>
    (o.credentialsEnc x.id).bind fun enc => x.wrappedDek.map fun dek => {
      profileId := profile
      credentialsEnc := enc
      wrappedDek := dek
      wrappedCookieKey := p.wrappedCookieKey
      -- The row of another organisation is not visible.
      keyGeneration := (o.role user).map fun _ => o.server.generation }

/-- `acquire_lock`, of a profile that is not open. -/
def acquireLock (now : ℕ) : Option (LaunchSpec β) :=
  if (o.permissionsForProfile user profile now).has .launch then o.launchSpec user profile
  else none

end Org

/-- A shell. -/
structure Shell (κ : Type u) (β : Type w) (π : Type y) where
  /-- Who is signed in, and to which organisation. -/
  session : Option (ℕ × ℕ)
  /-- The organisation key it holds. -/
  machine : Machine κ
  /-- The generation that it knows of. -/
  orkGeneration : ℕ
  /-- What `rotation_material` has given it. -/
  asked : Option (Server β π)

/-- Why a profile does not open. -/
inductive Refusal where
  /-- The server does not hand it out. -/
  | denied
  /-- This machine does not hold an organisation key. -/
  | noOrgKey
  /-- `err.orgKeyReplaced`. -/
  | orgKeyReplaced
  /-- Could not open this proxy's credentials. -/
  | credentials
  /-- Could not open this profile's cookie key. -/
  | cookieKey
  | unauthenticated
  deriving DecidableEq, Repr

/-- What the agent is handed. -/
structure Opened (κ : Type u) (σ : Type z) where
  profileKey : κ
  cookieKey : κ
  /-- The login and password of the proxy. -/
  credentials : ProxyCredentials σ
  deriving DecidableEq, Repr

section Client

variable (K : KeyScheme κ η β ν π) (C : Codec σ ν)

/-- `seal_proxy_credentials`, with the data key and the two nonces that it draws. -/
def sealProxyCredentials (orgKey dek : κ) (n : η × η) (c : ProxyCredentials σ) : β × β :=
  (K.wrap dek n.1 (C.toVec c), K.wrap orgKey n.2 (K.ofKey dek))

/-- `open_proxy_credentials`. -/
def openProxyCredentials (orgKey : κ) (credentialsEnc wrappedDek : β) :
    Option (ProxyCredentials σ) :=
  (K.unwrap orgKey wrappedDek).bind fun v => (K.toKey v).bind fun dek =>
    (K.unwrap dek credentialsEnc).bind C.fromSlice

/-- `launch_from_spec`, up to the call of the agent. -/
def launchFromSpec (sh : Shell κ β π) (spec : LaunchSpec β) :
    Shell κ β π × Except Refusal (Opened κ σ) :=
  match sh.machine.orgKey with
  | none => (sh, .error .noOrgKey)
  | some orgKey =>
    match openProxyCredentials K C orgKey spec.credentialsEnc spec.wrappedDek with
    | none =>
      if spec.keyGeneration.any fun g => sh.orkGeneration < g then
        ({ sh with machine := ⟨none, none, sh.machine.remember⟩ }, .error .orgKeyReplaced)
      else (sh, .error .credentials)
    | some credentials =>
      let seen := { sh with orkGeneration := max sh.orkGeneration (spec.keyGeneration.getD 0) }
      if sh.session.isNone then (seen, .error .unauthenticated)
      else match cookieKey K orgKey ⟨spec.profileId, spec.wrappedCookieKey⟩ with
        | none => (seen, .error .cookieKey)
        | some ck => (seen, .ok ⟨profileKey K orgKey spec.profileId, ck, credentials⟩)

/-- The form of a proxy. -/
structure ProxyForm (σ : Type z) where
  id : ℕ
  /-- There is no such proxy yet. -/
  isNew : Bool
  /-- Its kind is `wireguard`. -/
  wireguard : Bool
  credentials : ProxyCredentials σ

/-- `touching_credentials`. -/
def ProxyForm.touchingCredentials (f : ProxyForm σ) : Bool :=
  f.isNew || f.credentials.username.isSome || f.credentials.password.isSome

/-- `one_half`. -/
def ProxyForm.oneHalf (f : ProxyForm σ) : Bool :=
  f.credentials.username.isSome != f.credentials.password.isSome

/-- The credentials that `save_proxy` seals: a half that is not typed is the stored one. -/
def ProxyForm.toSeal (f : ProxyForm σ) (stored : Option (ProxyCredentials σ)) :
    Option (ProxyCredentials σ) :=
  if !f.isNew && f.oneHalf && !f.wireguard then
    stored.map fun s => ⟨f.credentials.username <|> s.username,
      f.credentials.password <|> s.password⟩
  else some f.credentials

/-- The two keys of `share_profile`, sealed to a public key. -/
def sealShare (orgKey : κ) (n : η × η) (publicKey : π) (profile : ℕ) (wrappedProxyDek : Option β) :
    Option (β × Option β) :=
  (K.sealTo publicKey n.1 (K.ofKey (profileKey K orgKey profile))).bind fun wrapped =>
    match wrappedProxyDek with
    | none => some (wrapped, none)
    | some w => (K.unwrap orgKey w).bind fun v => (K.toKey v).bind fun dek =>
      (K.sealTo publicKey n.2 (K.ofKey dek)).map fun wrappedProxy => (wrapped, some wrappedProxy)

end Client

/-- A server, and the shells that talk to it. -/
structure World (κ : Type u) (β : Type w) (π : Type y) where
  /-- `organizations`. -/
  orgs : ℕ → Option (Org κ β π)
  /-- `users.public_key`. -/
  publicKey : ℕ → π
  shells : ℕ → Shell κ β π
  /-- The organisation keys that were drawn, and for which organisation. -/
  drawn : List (ℕ × κ)
  /-- The clock of the server. -/
  now : ℕ

namespace World

variable (w : World κ β π)

/-- An organisation as it is now. -/
def setOrg (org : ℕ) (o : Org κ β π) : World κ β π :=
  { w with orgs := fun i => if i = org then some o else w.orgs i }

/-- A shell as it is now. -/
def setShell (shell : ℕ) (sh : Shell κ β π) : World κ β π :=
  { w with shells := fun i => if i = shell then sh else w.shells i }

/-- The organisation that a shell is signed in to. -/
def orgOf (shell : ℕ) : Option (Org κ β π) :=
  (w.shells shell).session.bind fun s => w.orgs s.2

end World

/-- What happens. -/
inductive Label (κ : Type u) (η : Type v) (β : Type w) (σ : Type z) where
  | passes (seconds : ℕ)
  /-- Somebody founds an organisation, and seals its key to themselves. -/
  | createOrg (org user : ℕ) (key : κ) (n : η)
  | join (org user : ℕ) (role : Role) (wrappedOrk : Option β)
  /-- Somebody is granted something on the project of a profile, or nothing any more. -/
  | grantProject (org user profile : ℕ) (permissions : Option PermSet)
  | signIn (shell user org : ℕ)
  /-- What a shell holds changes: by unlocking, by a key that is handed over, by signing out. -/
  | take (shell : ℕ) (machine : Machine κ) (generation : ℕ)
  | createProfile (org profile : ℕ)
  | assignProxy (org profile : ℕ) (proxy : Option ℕ)
  /-- `save_proxy`, with the data key and nonces it draws; the stored credentials may be read. -/
  | saveProxy (shell : ℕ) (f : ProxyForm σ) (dek : κ) (n : η × η) (mayReveal : Bool)
  | deleteProxy (org proxy : ℕ)
  | shareProfile (shell profile user : ℕ) (requested : PermSet) (expiresAt : Option ℕ) (n : η × η)
  | revokeShare (org profile user : ℕ)
  /-- A profile of an organisation is opened. -/
  | launch (shell org profile : ℕ)
  /-- `rotation_material`. -/
  | ask (shell : ℕ)
  /-- The rest of `remove_member`, with the key it draws. -/
  | removeMember (shell : ℕ) (removeUser : Option ℕ) (steppedUp : Bool) (new : κ) (nonce : Ref → η)

section Server

variable (o : Org κ β π)

/-- `create_profile`. -/
def Org.createProfile (profile : ℕ) : Org κ β π :=
  { o with server := { o.server with
      profiles := put Profile.id ⟨profile, none⟩ o.server.profiles
      profileIds := o.server.profileIds.put } }

/-- `create_proxy`, and `edit_proxy` when it is sent credentials. -/
def Org.putProxy (x : Proxy β) (enc : β) : Org κ β π :=
  { o with
    server := { o.server with
      proxies := put Proxy.id x o.server.proxies
      proxyIds := o.server.proxyIds.put }
    credentialsEnc := fun i => if i = x.id then some enc else o.credentialsEnc i }

/-- `delete_proxy`. -/
def Org.deleteProxy (proxy : ℕ) : Org κ β π :=
  { o with server := { o.server with
      proxies := updateWhere (fun x => x.id = proxy) (fun x => { x with deleted := true })
        o.server.proxies
      proxyIds := o.server.proxyIds.updateWhere fun _ _ => rfl } }

/-- `share_profile` of the server, for somebody who holds `perms`. -/
def Org.share (caller : ℕ) (perms requested : PermSet) (publicKey : π) (g : Grant β)
    (wrappedKey : β) : Option (Org κ β π) :=
  let capped := requested.intersect perms
  if perms.has .manageAccess && g.user ≠ caller && capped.has .view then
    some { o with
      server := { o.server with
        shares := put (fun s => (s.profile, s.user)) ⟨g.profile, g.user, publicKey, wrappedKey⟩
          o.server.shares }
      grants := put Grant.ref { g with permissions := capped } o.grants }
  else none

/-- `revoke_share`. -/
def Org.revoke (profile user : ℕ) : Org κ β π :=
  { o with
    server := { o.server with
      shares := deleteWhere (fun s => (s.profile, s.user) = (profile, user)) o.server.shares }
    grants := deleteWhere (fun g => g.ref = (profile, user)) o.grants }

end Server

section Steps

variable (K : KeyScheme κ η β ν π) (C : Codec σ ν) (w : World κ β π)

/-- `save_proxy`. -/
def saveProxy (shell : ℕ) (f : ProxyForm σ) (dek : κ) (n : η × η) (mayReveal : Bool) :
    Option (World κ β π) :=
  (w.shells shell).session.bind fun s => (w.orgs s.2).bind fun o =>
    (w.shells shell).machine.orgKey.bind fun orgKey =>
      let row := (lookup Proxy.id o.server.proxies f.id).filter fun x => !x.deleted
      let stored := if mayReveal then
          row.bind fun x => (o.credentialsEnc x.id).bind fun enc => x.wrappedDek.bind fun d =>
            openProxyCredentials K C orgKey enc d
        else none
      -- A new proxy has a new id; an edit finds the row that it is of.
      if (if f.isNew then (lookup Proxy.id o.server.proxies f.id).isNone else row.isSome) then
        (f.toSeal stored).map fun c =>
          if f.touchingCredentials then
            let sealed := sealProxyCredentials K C orgKey dek n c
            w.setOrg s.2 (o.putProxy ⟨f.id, some sealed.2, false⟩ sealed.1)
          else w
      else none

/-- `share_profile`. -/
def shareProfile (shell profile user : ℕ) (requested : PermSet) (expiresAt : Option ℕ)
    (n : η × η) : Option (World κ β π) :=
  (w.shells shell).session.bind fun s => (w.orgs s.2).bind fun o =>
    (w.shells shell).machine.orgKey.bind fun orgKey =>
      (lookup Profile.id o.server.profiles profile).bind fun _ =>
        let material := (o.proxy profile).bind Proxy.wrappedDek
        (sealShare K orgKey n (w.publicKey user) profile material).bind fun wrapped =>
          (o.share s.1 (o.permissionsForProfile s.1 profile w.now) requested (w.publicKey user)
            ⟨profile, user, requested, expiresAt, wrapped.2⟩ wrapped.1).map (w.setOrg s.2)

/-- The rest of `remove_member`. -/
def rotate [DecidableEq κ] (w : World κ β π) (shell : ℕ) (removeUser : Option ℕ) (steppedUp : Bool)
    (new : κ) (nonce : Ref → η) : Option (World κ β π) :=
  (w.shells shell).session.bind fun s => (w.orgs s.2).bind fun o =>
    (o.role s.1).bind fun r => (w.shells shell).asked.bind fun asked =>
      -- A key that is drawn is a new one.
      if new ∉ w.drawn.map Prod.snd then
        (removeMember K nonce new (w.shells shell).machine asked o.server ⟨s.1, r, steppedUp⟩
          removeUser).map fun out =>
          { (w.setOrg s.2 { o with key := new, server := out.2 }).setShell shell
              { w.shells shell with machine := out.1, asked := none } with
            drawn := (s.2, new) :: w.drawn }
      else none

/-- What `launch` finds: the shell, and what its agent is handed. -/
def launch (shell org profile : ℕ) : Shell κ β π × Except Refusal (Opened κ σ) :=
  let sh := w.shells shell
  match sh.session with
  | none => (sh, .error .unauthenticated)
  | some s => match (w.orgs org).bind fun o => o.acquireLock s.1 profile w.now with
    | none => (sh, .error .denied)
    | some spec => launchFromSpec K C sh spec

/-- What a step does. -/
def step [DecidableEq κ] (w : World κ β π) : Label κ η β σ → Option (World κ β π)
  | .passes seconds => some { w with now := w.now + seconds }
  | .createOrg org user key n =>
    if (w.orgs org).isNone && key ∉ w.drawn.map Prod.snd then
      some { w.setOrg org {
          key := key
          server := {
            generation := 1
            members := [⟨user, .owner, K.sealTo (w.publicKey user) n (K.ofKey key), false,
              w.publicKey user⟩]
            proxies := [], profiles := [], bundles := [], credentials := [], shares := []
            proxyIds := keyUnique_nil, profileIds := keyUnique_nil
            bundleIds := keyUnique_nil, credentialIds := keyUnique_nil }
          credentialsEnc := fun _ => none
          proxyOf := fun _ => none
          projectGrants := fun _ _ => none
          grants := [] } with drawn := (org, key) :: w.drawn }
    else none
  | .join org user role wrappedOrk => (w.orgs org).map fun o =>
      w.setOrg org { o with server := { o.server with
        members := put Member.user ⟨user, role, wrappedOrk, false, w.publicKey user⟩
          o.server.members } }
  | .grantProject org user profile permissions => (w.orgs org).map fun o =>
      w.setOrg org { o with projectGrants := fun u p =>
        if u = user ∧ p = profile then permissions else o.projectGrants u p }
  | .signIn shell user org => (w.orgs org).bind fun o =>
      (o.role user).map fun _ =>
        w.setShell shell { w.shells shell with session := some (user, org) }
  | .take shell machine generation =>
      some (w.setShell shell
        { w.shells shell with machine := machine, orkGeneration := generation })
  | .createProfile org profile => (w.orgs org).bind fun o =>
      if (lookup Profile.id o.server.profiles profile).isNone then
        some (w.setOrg org (o.createProfile profile))
      else none
  | .assignProxy org profile proxy => (w.orgs org).map fun o =>
      w.setOrg org { o with proxyOf := fun p => if p = profile then proxy else o.proxyOf p }
  | .saveProxy shell f dek n mayReveal => saveProxy K C w shell f dek n mayReveal
  | .deleteProxy org proxy => (w.orgs org).map fun o => w.setOrg org (o.deleteProxy proxy)
  | .shareProfile shell profile user requested expiresAt n =>
      shareProfile K w shell profile user requested expiresAt n
  | .revokeShare org profile user =>
      (w.orgs org).map fun o => w.setOrg org (o.revoke profile user)
  | .launch shell org profile =>
      some (w.setShell shell (launch K C w shell org profile).1)
  | .ask shell => (w.orgOf shell).map fun o =>
      w.setShell shell { w.shells shell with asked := some o.server }
  | .removeMember shell removeUser steppedUp new nonce =>
      rotate K w shell removeUser steppedUp new nonce

end Steps

end FuryBrowser.ProfileShares
