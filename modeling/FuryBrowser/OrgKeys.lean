import FuryBrowser.GuardedRuns
import FuryBrowser.RowTable

/-!
# The keys of an organisation

Everything an organisation stores is sealed under keys that hang off its
organisation key, and the server keeps only the wrapped keys: of its members, its
proxies, its profiles' cookies, its bundles, its saved logins and its shares. A
rotation replaces the organisation key, and with it every wrapped key, in one
transaction.

The rows below are those of the six tables, with the columns that the requests
about keys read and write. Every statement of a transaction is a step; a row a
transaction has written stays locked until it commits, and so does the
organisation it rotates. What a wrapped key opens with is known to clients only
and travels beside it.
-/

namespace FuryBrowser.OrgKeys

open GuardedRuns RowTable

/-- What the server sees of a wrapped key: its length as text and decoded, if it
decodes, and whether the text begins with `fury:ork1:`. -/
structure Sealed where
  chars : ℕ
  /-- Length of what the text decodes to. -/
  bytes : Option ℕ
  /-- Whether it has the prefix of a shared bundle key. -/
  prefixed : Bool
  deriving DecidableEq, Repr

/-- Whether it decodes to at least this many bytes. -/
def Sealed.atLeast (s : Sealed) (n : ℕ) : Bool := s.bytes.any fun m => n ≤ m

/-- A wrapped key and the generation of the organisation key it was made with. -/
structure Key where
  blob : Sealed
  /-- The generation, which only clients can tell. -/
  generation : ℕ
  deriving DecidableEq, Repr

/-- Roles in an organisation. -/
inductive Role where
  | owner
  | admin
  | manager
  | member
  deriving DecidableEq, Repr

/-- Which row of which table. -/
inductive Ref where
  /-- `org_members`, for `wrapped_ork`. -/
  | member (user : ℕ)
  /-- `proxies`, for `wrapped_dek`. -/
  | proxy (id : ℕ)
  /-- `profiles`, for `wrapped_cookie_key`. -/
  | cookieKey (profile : ℕ)
  /-- `bundles`, for `wrapped_dek`. -/
  | bundle (id : ℕ)
  /-- `credentials`, for `wrapped_dek`. -/
  | credential (id : ℕ)
  /-- `profile_grants`, for `wrapped_key`. -/
  | share (profile user : ℕ)
  deriving DecidableEq, Repr

/-- The six kinds of wrapped keys. -/
inductive Kind where
  | members
  | proxies
  | cookieKeys
  | bundles
  | credentials
  | shares
  deriving DecidableEq, Repr

/-- The table of a row. -/
def Ref.kind : Ref → Kind
  | .member _ => .members
  | .proxy _ => .proxies
  | .cookieKey _ => .cookieKeys
  | .bundle _ => .bundles
  | .credential _ => .credentials
  | .share _ _ => .shares

/-- A row with a wrapped key. -/
structure Row where
  ref : Ref
  /-- Its organisation, its own or its profile's. -/
  org : ℕ
  key : Option Key
  /-- `ork_generation`, for members. -/
  label : Option ℕ
  /-- `deleted_at` is set, for proxies. -/
  deleted : Bool
  deriving DecidableEq, Repr

/-- The other columns of an `org_members` row, and what became of the member. -/
structure Seat where
  user : ℕ
  org : ℕ
  role : Role
  /-- The organisation was created for this owner. -/
  founder : Bool
  /-- Somebody called `hand_over_key` for the member. -/
  admitted : Bool
  deriving DecidableEq, Repr

/-- An organisation. -/
structure Org where
  id : ℕ
  /-- `ork_generation`. -/
  generation : ℕ
  /-- What the last rotation listed as unreadable. -/
  left : List ℕ
  deriving DecidableEq, Repr

/-- An invitation that has not been used. -/
structure Invitation where
  id : ℕ
  /-- The organisation; none when one is to be created. -/
  org : Option ℕ
  role : Role
  deriving DecidableEq, Repr

/-- A `hand_over_key` between its two statements. -/
structure HandOver where
  id : ℕ
  /-- The caller's organisation. -/
  org : ℕ
  user : ℕ
  /-- The organisation key, sealed to the member. -/
  key : Key
  /-- The generation it has read. -/
  generation : ℕ
  deriving DecidableEq, Repr

/-- The body of a rotation. -/
structure RotateRequest where
  /-- Who is removed, if anybody. -/
  removeUserId : Option ℕ
  /-- The new organisation key, sealed to each member. -/
  members : List (ℕ × Sealed)
  proxies : List (ℕ × Sealed)
  /-- The generation it was computed against. -/
  generation : ℕ
  /-- Cookie keys, by profile. -/
  cookieKeys : List (ℕ × Sealed)
  bundles : List (ℕ × Sealed)
  /-- Data keys of saved logins. -/
  credentials : List (ℕ × Sealed)
  /-- Profile keys, by profile and person. -/
  shares : List ((ℕ × ℕ) × Sealed)
  /-- What the old key did not open. -/
  unreadable : List ℕ
  deriving DecidableEq, Repr

/-- What a rotation supplies for one table. -/
def RotateRequest.supplied (req : RotateRequest) : Kind → List (Ref × Sealed)
  | .members => req.members.map fun m => (.member m.1, m.2)
  | .proxies => req.proxies.map fun x => (.proxy x.1, x.2)
  | .cookieKeys => req.cookieKeys.map fun c => (.cookieKey c.1, c.2)
  | .bundles => req.bundles.map fun b => (.bundle b.1, b.2)
  | .credentials => req.credentials.map fun c => (.credential c.1, c.2)
  | .shares => req.shares.map fun g => (.share g.1.1 g.1.2, g.2)

/-- The id by which a row can be listed as unreadable. -/
def Ref.listed (ids : List ℕ) : Ref → Bool
  | .proxy id => id ∈ ids
  | .cookieKey profile => profile ∈ ids
  | .bundle id => id ∈ ids
  | .credential id => id ∈ ids
  | _ => false

/-- The statements of a rotation that come after its lock. -/
inductive Phase where
  /-- Reads a table and refuses the rotation unless it covers it. -/
  | check (kind : Kind)
  /-- Writes what was supplied for a table. -/
  | write (kind : Kind)
  deriving DecidableEq, Repr

/-- The order of `rotate_org_key`. Proxies are written and not checked. -/
def plan : List Phase :=
  [.check .members, .write .members, .write .proxies, .check .cookieKeys, .write .cookieKeys,
    .check .bundles, .write .bundles, .check .credentials, .write .credentials, .check .shares,
    .write .shares]

/-- The rows a rotation has to cover: `rotation_profiles`, `rotation_bundles`,
`rotation_credentials`, `rotation_shares` and the members who hold a key. -/
def Kind.required (r : Row) : Kind → Bool
  | .members => r.key.isSome
  | .proxies => false
  | .cookieKeys => true
  | .bundles => r.key.any fun k => k.blob.prefixed
  | .credentials => true
  | .shares => r.key.isSome

/-- Whether a row of this table may be listed as unreadable instead. -/
def Kind.mayStay : Kind → Bool
  | .cookieKeys => true
  | .bundles => true
  | .credentials => true
  | _ => false

/-- The shape a supplied key must have. -/
def Kind.accepts (s : Sealed) : Kind → Bool
  | .members => s.atLeast 104
  | .proxies => s.atLeast 40
  | .cookieKeys => s.atLeast 40
  | .bundles => s.prefixed && decide (60 ≤ s.chars)
  | .credentials => s.atLeast 40
  | .shares => s.atLeast 104

/-- The rows an `UPDATE` of this table matches, beside the id. -/
def Kind.updates (r : Row) : Kind → Bool
  | .members => r.key.isSome
  | .shares => r.key.isSome
  | _ => true

/-- A rotation in flight: it holds the organisation's row and those it wrote. -/
structure Rotation where
  id : ℕ
  org : ℕ
  req : RotateRequest
  /-- The statements still to come. -/
  todo : List Phase
  writes : List (Ref × Sealed)
  deriving DecidableEq, Repr

/-- The database, and the requests that are between two statements. -/
structure World where
  /-- `organizations`. -/
  orgs : List Org
  /-- `org_members`, without the keys. -/
  seats : List Seat
  /-- `enrollments` that are not used. -/
  invitations : List Invitation
  rows : List Row
  /-- Keys being handed over. -/
  handOvers : List HandOver
  rotations : List Rotation
  nextId : ℕ
  deriving DecidableEq, Repr

/-- An empty server. -/
def empty : World := ⟨[], [], [], [], [], [], 0⟩

/-- Whether a transaction removes this member. -/
def Rotation.removes (rot : Rotation) (ref : Ref) : Bool :=
  rot.req.removeUserId.any fun gone => ref = .member gone

/-- The rows of its organisation, as a rotation sees them after its removal. -/
def Rotation.sees (rot : Rotation) (r : Row) : Bool :=
  r.org = rot.org && !rot.removes r.ref

/-- `ork_generation` of an organisation. -/
def World.generation (w : World) (org : ℕ) : Option ℕ :=
  (lookup Org.id w.orgs org).map Org.generation

/-- Whether a row is there. -/
def World.has (w : World) (ref : Ref) : Bool := (lookup Row.ref w.rows ref).isSome

/-- A rotation has written this row and not committed. -/
def World.locked (w : World) (ref : Ref) : Bool :=
  w.rotations.any fun rot => rot.removes ref || rot.writes.any fun s => s.1 = ref

/-- A rotation holds the organisation's row. An insert that names the
organisation waits for it, as its foreign key is checked against that row. -/
def World.rotating (w : World) (org : ℕ) : Bool := w.rotations.any fun rot => rot.org = org

/-- `INSERT` of a row with or without a key. -/
def World.insert (w : World) (ref : Ref) (org : ℕ) (key : Option Key) (label : Option ℕ) :
    World :=
  { w with rows := ⟨ref, org, key, label, false⟩ :: w.rows }

/-- `UPDATE` of one row's key. -/
def World.setKey (w : World) (ref : Ref) (key : Key) : World :=
  { w with rows := updateWhere (fun r => r.ref = ref) (fun r => { r with key := some key }) w.rows }

/-- `may_remove`. -/
def mayRemove : Role → Role → Bool
  | _, .owner => false
  | .owner, _ => true
  | .admin, .admin => false
  | .admin, _ => true
  | _, _ => false

/-- What can happen next. -/
inductive Label where
  /-- `signup`: a new organisation and its owner. -/
  | signup (user org : ℕ) (wrappedOrk : Sealed)
  /-- `create_invitation`. -/
  | invite (caller : ℕ) (role : Role)
  /-- `fury-server invite`, with `--org` (none) or `--org-id`. -/
  | cliInvite (org : Option ℕ) (role : Role)
  /-- `complete_enrollment`; the new ids are those it draws. -/
  | enroll (invitation user newOrg : ℕ) (wrappedOrk : Option Key)
  /-- `hand_over_key` reads the generation. -/
  | handOverReads (caller user : ℕ) (wrappedOrk : Key)
  /-- `hand_over_key` writes the key under it. -/
  | handOverWrites (id : ℕ)
  /-- `rotate_org_key`, up to the removal. -/
  | rotateBegins (caller : ℕ) (req : RotateRequest)
  /-- `rotate_org_key` reads or writes the next table. -/
  | rotateGoesOn (id : ℕ)
  /-- `rotate_org_key` commits. -/
  | rotateCommits (id : ℕ)
  /-- A rotation is lost: its connection, its client or the server. -/
  | rotateFails (id : ℕ)
  | createProxy (org id : ℕ) (wrappedDek : Key)
  /-- `edit_proxy` with new credentials. -/
  | editProxy (id : ℕ) (wrappedDek : Key)
  | deleteProxy (id : ℕ)
  | createCredential (profile id : ℕ) (wrappedDek : Key)
  | editCredential (id : ℕ) (wrappedDek : Key)
  | createProfile (org profile : ℕ)
  /-- Access to a profile is granted without a key. -/
  | grantAccess (profile user : ℕ)
  | shareProfile (profile user : ℕ) (wrappedKey : Key)
  /-- `upload_bundle`, from its lock on the profile to its commit. -/
  | uploadBundle (profile id : ℕ) (wrappedDek : Key) (keyGeneration : Option ℕ)
  /-- A row goes: a login is deleted, a share revoked, a bundle pruned, a profile
  purged. -/
  | removeRow (ref : Ref)
  deriving DecidableEq, Repr

/-- The organisation of a profile. -/
def World.orgOf (w : World) (profile : ℕ) : Option ℕ :=
  (lookup Row.ref w.rows (.cookieKey profile)).map Row.org

/-- The organisation in which somebody is owner or admin. -/
def World.administers (w : World) (caller : ℕ) : Option Seat :=
  (lookup Seat.user w.seats caller).filter fun s => s.role = .owner || s.role = .admin

/-- `signup`. -/
def signup (w : World) (user org : ℕ) (wrappedOrk : Sealed) : Option World :=
  if (lookup Seat.user w.seats user).isSome || w.has (.member user) || (w.generation org).isSome
  then none
  else some { w.insert (.member user) org (some ⟨wrappedOrk, 1⟩) (some 1) with
    orgs := ⟨org, 1, []⟩ :: w.orgs
    seats := ⟨user, org, .owner, true, false⟩ :: w.seats }

/-- `create_invitation`. -/
def createInvitation (w : World) (caller : ℕ) (role : Role) : Option World :=
  (w.administers caller).bind fun s =>
    if role = .owner || (s.role = .admin && role = .admin) then none
    else some { w with
      invitations := ⟨w.nextId, some s.org, role⟩ :: w.invitations
      nextId := w.nextId + 1 }

/-- `fury-server invite`. -/
def cliInvite (w : World) (org : Option ℕ) (role : Role) : Option World :=
  if org.any (fun id => role = .owner || (w.generation id).isNone) then none
  else some { w with
    invitations := ⟨w.nextId, org, role⟩ :: w.invitations
    nextId := w.nextId + 1 }

/-- The `org_members` row of `complete_enrollment`: a key that came with the
request is labelled with generation 1. -/
def World.join (w : World) (user org : ℕ) (role : Role) (founder : Bool)
    (wrappedOrk : Option Key) : World :=
  { w.insert (.member user) org wrappedOrk (wrappedOrk.map fun _ => 1) with
    seats := ⟨user, org, role, founder, false⟩ :: w.seats }

/-- `complete_enrollment`. The key that comes with a new organisation is its
first. -/
def completeEnrollment (w : World) (invitation user newOrg : ℕ) (wrappedOrk : Option Key) :
    Option World :=
  (lookup Invitation.id w.invitations invitation).bind fun inv =>
    let used := { w with
      invitations := deleteWhere (fun i => i.id = invitation) w.invitations }
    if (inv.role = .owner && wrappedOrk.isNone) || (lookup Seat.user w.seats user).isSome ||
        w.has (.member user) then none
    else match inv.org with
      | some org =>
        if w.rotating org || (w.generation org).isNone then none
        else some (used.join user org inv.role false wrappedOrk)
      | none =>
        if (w.generation newOrg).isSome then none
        else
          let founded : World := { used with orgs := ⟨newOrg, 1, []⟩ :: w.orgs }
          some (founded.join user newOrg inv.role (inv.role = .owner)
            (wrappedOrk.map fun k => ⟨k.blob, 1⟩))

/-- The checks of `hand_over_key` and its read of the generation. -/
def handOverReads (w : World) (caller user : ℕ) (wrappedOrk : Key) : Option World :=
  (w.administers caller).bind fun s =>
    if wrappedOrk.blob.atLeast 104 then
      (w.generation s.org).map fun generation => { w with
        handOvers := ⟨w.nextId, s.org, user, wrappedOrk, generation⟩ :: w.handOvers
        nextId := w.nextId + 1 }
    else none

/-- The `UPDATE` of `hand_over_key`. -/
def handOverWrites (w : World) (id : ℕ) : Option World :=
  (lookup HandOver.id w.handOvers id).bind fun h =>
    if w.locked (.member h.user) then none
    else some { w with
      rows := updateWhere (fun r => r.ref = .member h.user && r.org = h.org)
        (fun r => { r with key := some h.key, label := some h.generation }) w.rows
      seats := updateWhere (fun s => s.user = h.user && s.org = h.org)
        (fun s => { s with admitted := true }) w.seats
      handOvers := deleteWhere (fun h => h.id = id) w.handOvers }

/-- Whether a rotation may remove whom it names. -/
def mayRotate (w : World) (caller : Seat) (req : RotateRequest) : Bool :=
  req.removeUserId.all fun gone =>
    gone ≠ caller.user && (lookup Seat.user w.seats gone).any fun target =>
      target.org = caller.org && mayRemove caller.role target.role

/-- `rotate_org_key` up to the removal. A second rotation waits for the first. -/
def rotateBegins (w : World) (caller : ℕ) (req : RotateRequest) : Option World :=
  (w.administers caller).bind fun s =>
    if mayRotate w s req && !w.rotating s.org && w.generation s.org = some req.generation
    then some { w with
      rotations := ⟨w.nextId, s.org, req, plan, []⟩ :: w.rotations
      nextId := w.nextId + 1 }
    else none

/-- Whether a rotation covers a row: it supplies it or lists it as unreadable. -/
def Rotation.covers (rot : Rotation) (kind : Kind) (r : Row) : Bool :=
  (rot.req.supplied kind).any (fun s => s.1 = r.ref) ||
    (kind.mayStay && r.ref.listed rot.req.unreadable)

/-- One statement; none when it refuses the rotation. -/
def Rotation.runs (rot : Rotation) (w : World) : Phase → Option (List (Ref × Sealed))
  | .check kind =>
    if w.rows.all fun r =>
      !(rot.sees r && r.ref.kind = kind && kind.required r) || rot.covers kind r
    then some rot.writes else none
  | .write kind =>
    if (rot.req.supplied kind).all fun s => kind.accepts s.2 then
      some (rot.writes ++ (rot.req.supplied kind).filter fun s =>
        w.rows.any fun r => rot.sees r && r.ref = s.1 && kind.updates r)
    else none

/-- End a rotation that did not commit. -/
def World.rollback (w : World) (id : ℕ) : World :=
  { w with rotations := deleteWhere (fun r => r.id = id) w.rotations }

/-- The next statement of a rotation; a refusal rolls it back. -/
def rotateGoesOn (w : World) (id : ℕ) : Option World :=
  (lookup Rotation.id w.rotations id).bind fun rot =>
    match rot.todo with
    | [] => none
    | phase :: rest =>
      match rot.runs w phase with
      | none => some (w.rollback id)
      | some writes => some { w with
          rotations := updateWhere (fun r => r.id = id)
            (fun r => { r with todo := rest, writes := writes }) w.rotations }

/-- A row as a committed rotation leaves it. -/
def Rotation.applied (rot : Rotation) (r : Row) : Row :=
  match rot.writes.reverse.find? fun s => s.1 = r.ref && r.org = rot.org with
  | none => r
  | some s => { r with
      key := some ⟨s.2, rot.req.generation + 1⟩
      label := if r.ref.kind = .members then some (rot.req.generation + 1) else r.label }

/-- `rotate_org_key` commits. -/
def rotateCommits (w : World) (id : ℕ) : Option World :=
  (lookup Rotation.id w.rotations id).bind fun rot =>
    if rot.todo = [] then
      some { w.rollback id with
        orgs := updateWhere (fun o => o.id = rot.org)
          (fun o => { o with generation := rot.req.generation + 1, left := rot.req.unreadable })
          w.orgs
        seats := deleteWhere (fun s => s.org = rot.org && rot.removes (.member s.user)) w.seats
        rows := deleteWhere (fun r => r.org = rot.org && rot.removes r.ref)
          (w.rows.map rot.applied) }
    else none

/-- `create_proxy`. -/
def createProxy (w : World) (org id : ℕ) (wrappedDek : Key) : Option World :=
  if wrappedDek.blob.atLeast 40 && !w.has (.proxy id) && (w.generation org).isSome &&
      !w.rotating org
  then some (w.insert (.proxy id) org (some wrappedDek) none) else none

/-- `edit_proxy` with new credentials. -/
def editProxy (w : World) (id : ℕ) (wrappedDek : Key) : Option World :=
  if wrappedDek.blob.atLeast 40 && !w.locked (.proxy id) &&
      (lookup Row.ref w.rows (.proxy id)).any (fun r => !r.deleted)
  then some (w.setKey (.proxy id) wrappedDek) else none

/-- `delete_proxy`. -/
def deleteProxy (w : World) (id : ℕ) : Option World :=
  if w.locked (.proxy id) then none
  else some { w with
    rows := updateWhere (fun r => r.ref = .proxy id) (fun r => { r with deleted := true }) w.rows }

/-- `create_credential`; the text is measured, not what it decodes to. -/
def createCredential (w : World) (profile id : ℕ) (wrappedDek : Key) : Option World :=
  (w.orgOf profile).bind fun org =>
    if 40 ≤ wrappedDek.blob.chars && !w.has (.credential id)
    then some (w.insert (.credential id) org (some wrappedDek) none) else none

/-- `edit_credential`. -/
def editCredential (w : World) (id : ℕ) (wrappedDek : Key) : Option World :=
  if 40 ≤ wrappedDek.blob.chars && !w.locked (.credential id) && w.has (.credential id)
  then some (w.setKey (.credential id) wrappedDek) else none

/-- A new profile has no stored cookie key. -/
def createProfile (w : World) (org profile : ℕ) : Option World :=
  if (w.generation org).isSome && !w.has (.cookieKey profile) && !w.rotating org
  then some (w.insert (.cookieKey profile) org none none) else none

/-- A grant without a key. -/
def grantAccess (w : World) (profile user : ℕ) : Option World :=
  (w.orgOf profile).bind fun org =>
    if !w.has (.share profile user) && !w.rotating org
    then some (w.insert (.share profile user) org none none) else none

/-- `share_profile`: a new grant, or the key of the one there is. -/
def shareProfile (w : World) (profile user : ℕ) (wrappedKey : Key) : Option World :=
  (w.orgOf profile).bind fun org =>
    if !wrappedKey.blob.atLeast 1 then none
    else if w.has (.share profile user) then
      if w.locked (.share profile user) then none
      else some (w.setKey (.share profile user) wrappedKey)
    else if w.rotating org then none
    else some (w.insert (.share profile user) org (some wrappedKey) none)

/-- `upload_bundle`. It locks its profile's row, and with a generation in its
headers the organisation's as well. -/
def uploadBundle (w : World) (profile id : ℕ) (wrappedDek : Key)
    (keyGeneration : Option ℕ) : Option World :=
  (w.orgOf profile).bind fun org =>
    if w.locked (.cookieKey profile) || w.has (.bundle id) then none
    else if keyGeneration.all fun sealedUnder =>
        !w.rotating org && (w.generation org).all fun current => current ≤ sealedUnder
    then some (w.insert (.bundle id) org (some wrappedDek) none)
    else none

/-- A row that is not a member's goes. -/
def removeRow (w : World) (ref : Ref) : Option World :=
  if ref.kind = .members || w.locked ref then none
  else some { w with rows := deleteWhere (fun r => r.ref = ref) w.rows }

/-- One step of the server. A refused request changes nothing and is no step. -/
def step (w : World) : Label → Option World
  | .signup user org wrappedOrk => signup w user org wrappedOrk
  | .invite caller role => createInvitation w caller role
  | .cliInvite org role => cliInvite w org role
  | .enroll invitation user newOrg wrappedOrk =>
    completeEnrollment w invitation user newOrg wrappedOrk
  | .handOverReads caller user wrappedOrk => handOverReads w caller user wrappedOrk
  | .handOverWrites id => handOverWrites w id
  | .rotateBegins caller req => rotateBegins w caller req
  | .rotateGoesOn id => rotateGoesOn w id
  | .rotateCommits id => rotateCommits w id
  | .rotateFails id => some (w.rollback id)
  | .createProxy org id wrappedDek => createProxy w org id wrappedDek
  | .editProxy id wrappedDek => editProxy w id wrappedDek
  | .deleteProxy id => deleteProxy w id
  | .createCredential profile id wrappedDek => createCredential w profile id wrappedDek
  | .editCredential id wrappedDek => editCredential w id wrappedDek
  | .createProfile org profile => createProfile w org profile
  | .grantAccess profile user => grantAccess w profile user
  | .shareProfile profile user wrappedKey => shareProfile w profile user wrappedKey
  | .uploadBundle profile id wrappedDek keyGeneration =>
    uploadBundle w profile id wrappedDek keyGeneration
  | .removeRow ref => removeRow w ref

/-- The server has just been set up. -/
def init (w : World) : Prop := w = empty

/-- The server after these steps. -/
def after (labels : List Label) : World := (run step empty labels).getD empty

/-- The steps of a rotation that goes through; the request has this id. -/
def wholeRotation (id caller : ℕ) (req : RotateRequest) : List Label :=
  .rotateBegins caller req :: plan.map (fun _ => .rotateGoesOn id) ++ [.rotateCommits id]

/-- A sealed organisation key, or any other of 104 bytes. -/
def sealedKey : Sealed := ⟨208, some 104, false⟩

end FuryBrowser.OrgKeys
