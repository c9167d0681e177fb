import FuryBrowser.AgentDisk
import FuryBrowser.TeamRequests

/-!
# What a rotation is asked for, and what it is checked for

An owner or an admin asks what is under the organisation's key, and sends all of it back under a
new one. What is listed and what is required are queries of their own over the same tables: over
proxies, profiles, bundles, saved logins and shares they are the same, and over members they differ
in those who are disabled.
-/

namespace FuryBrowser.RotationMaterial

open AgentDisk RowTable
open OrgKeys (Role mayRemove)
open TeamRequests (Caller)

section Tables

/-- A row of `organizations`. -/
structure Org where
  id : ℕ
  /-- `ork_generation`. -/
  generation : ℤ
  deriving DecidableEq, Repr

/-- A row of `users`. -/
structure User where
  id : ℕ
  email : String
  publicKey : Bytes
  /-- `disabled_at` is set. -/
  disabled : Bool
  deriving DecidableEq, Repr

/-- A row of `org_members`. -/
structure Member where
  org : ℕ
  user : ℕ
  role : Role
  wrappedOrk : Option Bytes
  /-- `ork_generation`. -/
  generation : ℤ
  deriving DecidableEq, Repr

/-- A row of `proxies`. -/
structure Proxy where
  id : ℕ
  org : ℕ
  wrappedDek : Option Bytes
  /-- `deleted_at` is set. -/
  deleted : Bool
  deriving DecidableEq, Repr

/-- A row of `profiles`. -/
structure Profile where
  id : ℕ
  org : ℕ
  wrappedCookieKey : Option Bytes
  /-- `deleted_at` is set. -/
  deleted : Bool
  deriving DecidableEq, Repr

/-- A row of `bundles`, or of `credentials`. -/
structure Sealed where
  id : ℕ
  profile : ℕ
  wrappedDek : Bytes
  deriving DecidableEq, Repr

/-- A row of `profile_grants`. -/
structure Grant where
  profile : ℕ
  user : ℕ
  wrappedKey : Option Bytes
  expiresAt : Option ℤ
  deriving DecidableEq, Repr

/-- The tables. -/
structure Db where
  /-- `organizations`. -/
  orgs : List Org
  users : List User
  /-- `org_members`. -/
  members : List Member
  proxies : List Proxy
  profiles : List Profile
  bundles : List Sealed
  credentials : List Sealed
  /-- `profile_grants`. -/
  grants : List Grant
  /-- The primary key of `users`. -/
  userIds : KeyUnique User.id users
  /-- The foreign key of `org_members`. -/
  memberUsers : ∀ m ∈ members, ∃ u ∈ users, u.id = m.user

end Tables

section Material

/-- What `rotation_material` answers. -/
structure Material where
  generation : ℤ
  /-- Profiles, with their cookie keys. -/
  profiles : List (ℕ × Option Bytes)
  /-- Bundles, with their profiles and keys. -/
  bundles : List (ℕ × ℕ × Bytes)
  /-- Saved logins, with their keys. -/
  credentials : List (ℕ × Bytes)
  /-- Whom profiles are shared with, with their public keys. -/
  shares : List (ℕ × ℕ × Bytes)
  /-- Members, with their addresses and public keys. -/
  members : List (ℕ × String × Bytes)
  /-- Proxies, with their keys. -/
  proxies : List (ℕ × Option Bytes)
  deriving DecidableEq, Repr

/-- Why a request is refused. -/
inductive Refusal where
  /-- `Denied` of `ManageAccess`. -/
  | denied
  /-- `require_step_up` is not satisfied. -/
  | stepUp
  /-- A `BadRequest` about who is removed, or about a value. -/
  | badRequest
  | notFound
  /-- The organisation was rotated in between. -/
  | conflict
  /-- No new key was supplied for a member. -/
  | lockedOut (user : ℕ)
  /-- The rotation leaves this under the old key. -/
  | missing (what : String) (id : ℕ)
  deriving DecidableEq, Repr

/-- It says that something is not complete. -/
def Refusal.isGap : Refusal → Bool
  | .lockedOut _ | .missing _ _ => true
  | _ => false

variable (db : Db) (org : ℕ)

/-- A profile is one of an organisation. -/
def profileOf (profile : ℕ) : Bool := db.profiles.any fun p => p.id = profile && p.org = org

/-- `rotation_profiles`, those in the trash too. -/
def rotationProfiles : List (ℕ × Option Bytes) :=
  (db.profiles.filter fun p => p.org = org).map fun p => (p.id, p.wrappedCookieKey)

/-- `rotation_bundles`: those whose key begins with `fury:ork1:`. -/
def rotationBundles : List (ℕ × ℕ × Bytes) :=
  (db.bundles.filter fun b => profileOf db org b.profile &&
    (utf8 "fury:ork1:").isPrefixOf b.wrappedDek).map fun b => (b.id, b.profile, b.wrappedDek)

/-- `rotation_credentials`. -/
def rotationCredentials : List (ℕ × Bytes) :=
  (db.credentials.filter fun c => profileOf db org c.profile).map fun c => (c.id, c.wrappedDek)

/-- `rotation_shares`: expired ones too. -/
def rotationShares : List (ℕ × ℕ × Bytes) :=
  (db.grants.filter fun g => profileOf db org g.profile && g.wrappedKey.isSome).flatMap fun g =>
    (db.users.filter fun u => u.id = g.user).map fun u => (g.profile, g.user, u.publicKey)

/-- The members that are listed. -/
def materialMembers : List (ℕ × String × Bytes) :=
  (db.members.filter fun m => m.org = org && m.wrappedOrk.isSome).flatMap fun m =>
    (db.users.filter fun u => u.id = m.user && !u.disabled).map fun u => (u.id, u.email, u.publicKey)

/-- The proxies that are listed. -/
def materialProxies : List (ℕ × Option Bytes) :=
  (db.proxies.filter fun x => x.org = org && !x.deleted).map fun x => (x.id, x.wrappedDek)

/-- `rotation_material`. -/
def rotationMaterial (caller : Caller) : Except Refusal Material :=
  if !caller.administers then .error .denied
  else match lookup Org.id db.orgs caller.org with
    | none => .error .notFound
    | some o => .ok {
        generation := o.generation
        profiles := rotationProfiles db caller.org
        bundles := rotationBundles db caller.org
        credentials := rotationCredentials db caller.org
        shares := rotationShares db caller.org
        members := materialMembers db caller.org
        proxies := materialProxies db caller.org }

end Material

section Rotation

/-- A key that is sent for something, as its text decodes if it does. -/
structure Rotated (ι : Type) where
  id : ι
  wrapped : Option Bytes
  deriving DecidableEq, Repr

/-- `RotateRequest`. -/
structure RotateRequest where
  /-- `remove_user_id`. -/
  removeUser : Option ℕ
  members : List (Rotated ℕ)
  proxies : List (Rotated ℕ)
  generation : ℤ
  cookieKeys : List (Rotated ℕ)
  bundles : List (Rotated ℕ)
  credentials : List (Rotated ℕ)
  shares : List (Rotated (ℕ × ℕ))
  unreadable : List ℕ
  deriving DecidableEq, Repr

/-- Each key is checked and written before the next. -/
def supply {ι : Type} (fits : Bytes → Bool) (write : ι → Bytes → Db → Db) :
    List (Rotated ι) → Db → Except Refusal Db
  | [], db => .ok db
  | x :: xs, db =>
    match x.wrapped.filter fits with
    | none => .error .badRequest
    | some wrapped => supply fits write xs (write x.id wrapped db)

/-- The members with a key whom nothing was supplied for. -/
def coverMembers (db : Db) (org : ℕ) (req : RotateRequest) : Except Refusal Unit :=
  match (db.members.filter fun m => m.org = org && m.wrappedOrk.isSome).find? fun m =>
      !req.members.any fun x => x.id = m.user with
  | some m => .error (.lockedOut m.user)
  | none => .ok ()

/-- What is neither supplied nor named as unreadable. -/
def cover {ι : Type} [DecidableEq ι] (what : String) (name : ι → ℕ) (needed : List ι)
    (supplied : List (Rotated ι)) (unreadable : List ℕ) : Except Refusal Unit :=
  match needed.find? fun i => !supplied.any (fun x => x.id = i) && name i ∉ unreadable with
  | some i => .error (.missing what (name i))
  | none => .ok ()

/-- A member's key is replaced, if they have one. -/
def sealMember (org : ℕ) (next : ℤ) (user : ℕ) (wrapped : Bytes) (db : Db) : Db := {
  db with
  members := updateWhere (fun m => m.org = org && m.user = user && m.wrappedOrk.isSome)
    (fun m => { m with wrappedOrk := some wrapped, generation := next }) db.members
  memberUsers := fun m hm => by
    rcases updateWhere_cases hm with ⟨hin, -⟩ | ⟨old, hold, -, rfl⟩
    · exact db.memberUsers m hin
    · exact db.memberUsers old hold }

/-- A proxy's key is replaced. -/
def wrapProxy (org id : ℕ) (wrapped : Bytes) (db : Db) : Db := {
  db with
  proxies := updateWhere (fun x => x.id = id && x.org = org)
    (fun x => { x with wrappedDek := some wrapped }) db.proxies }

/-- A profile's cookie key is replaced. -/
def wrapCookieKey (org id : ℕ) (wrapped : Bytes) (db : Db) : Db := {
  db with
  profiles := updateWhere (fun p => p.id = id && p.org = org)
    (fun p => { p with wrappedCookieKey := some wrapped }) db.profiles }

/-- A bundle's key is replaced. -/
def wrapBundle (org id : ℕ) (wrapped : Bytes) (db : Db) : Db := {
  db with
  bundles := updateWhere (fun b => b.id = id && profileOf db org b.profile)
    (fun b => { b with wrappedDek := wrapped }) db.bundles }

/-- A saved login's key is replaced. -/
def wrapCredential (org id : ℕ) (wrapped : Bytes) (db : Db) : Db := {
  db with
  credentials := updateWhere (fun c => c.id = id && profileOf db org c.profile)
    (fun c => { c with wrappedDek := wrapped }) db.credentials }

/-- A share's key is replaced, if it has one. -/
def wrapShare (org : ℕ) (share : ℕ × ℕ) (wrapped : Bytes) (db : Db) : Db := {
  db with
  grants := updateWhere (fun g => (g.profile, g.user) = share && g.wrappedKey.isSome &&
      profileOf db org g.profile)
    (fun g => { g with wrappedKey := some wrapped }) db.grants }

/-- A member is removed. -/
def removeMember (org user : ℕ) (db : Db) : Db := {
  db with
  members := deleteWhere (fun m => m.org = org && m.user = user) db.members
  memberUsers := fun m hm => db.memberUsers m (mem_deleteWhere.mp hm).1 }

/-- The member that a rotation removes. -/
def remove (db : Db) (caller : Caller) : Option ℕ → Except Refusal Db
  | none => .ok db
  | some gone =>
    match db.members.find? fun m => m.org = caller.org && m.user = gone with
    | none => .error .notFound
    | some m =>
      if m.role = .owner then .error .badRequest
      else if mayRemove caller.role m.role then .ok (removeMember caller.org gone db)
      else .error .denied

/-- The checks before anything is written. -/
def mayRotate (db : Db) (caller : Caller) (steppedUp : Bool) (req : RotateRequest) :
    Except Refusal Org :=
  if !caller.administers then .error .denied
  else if req.removeUser.isSome && !steppedUp then .error .stepUp
  else if req.removeUser = some caller.user then .error .badRequest
  else match lookup Org.id db.orgs caller.org with
    | none => .error .notFound
    | some o => if o.generation ≠ req.generation then .error .conflict else .ok o

/-- `rotate_org_key`. -/
def rotateOrgKey (db : Db) (caller : Caller) (steppedUp : Bool) (req : RotateRequest) :
    Except Refusal Db := do
  let org := caller.org
  let o ← mayRotate db caller steppedUp req
  let db ← remove db caller req.removeUser
  coverMembers db org req
  let db ← supply (fun w => 104 ≤ w.length) (sealMember org (o.generation + 1)) req.members db
  let db ← supply (fun w => 40 ≤ w.length) (wrapProxy org) req.proxies db
  cover "the cookie key of profile" id ((rotationProfiles db org).map Prod.fst) req.cookieKeys
    req.unreadable
  let db ← supply (fun w => 40 ≤ w.length) (wrapCookieKey org) req.cookieKeys db
  cover "bundle" id ((rotationBundles db org).map Prod.fst) req.bundles req.unreadable
  let db ← supply (fun w => (utf8 "fury:ork1:").isPrefixOf w && 60 ≤ w.length) (wrapBundle org)
    req.bundles db
  cover "saved login" id ((rotationCredentials db org).map Prod.fst) req.credentials
    req.unreadable
  let db ← supply (fun w => 40 ≤ w.length) (wrapCredential org) req.credentials db
  cover "the share of profile" Prod.fst ((rotationShares db org).map fun g => (g.1, g.2.1))
    req.shares []
  let db ← supply (fun w => 104 ≤ w.length) (wrapShare org) req.shares db
  return { db with
    orgs := updateWhere (fun o => o.id = org)
      (fun o' => { o' with generation := o.generation + 1 }) db.orgs }

end Rotation

end FuryBrowser.RotationMaterial
