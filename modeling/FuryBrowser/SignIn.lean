import FuryBrowser.AgentDisk
import FuryBrowser.GuardedRuns
import FuryBrowser.OrgKeys
import Mathlib.Algebra.Group.Nat.Defs

/-!
# Signing in

An organisation's policy says from where its members may sign in and when they have
to present a code. Four handlers make sessions: `login` when it asks for no code,
`login_totp` when the code is right, and `complete_enrollment` and `signup` for
somebody new. A sign-in that passed the password and waits for its code is a row of
`login_challenges`.

`login` is one step, in which any of its queries can fail; `complete_enrollment` and
`signup` are one transaction; `login_totp` runs statement by statement, any number of
them at once. Anything else may happen to users, members, policies and invitations in
between. How passwords are verified and how codes are derived from a secret by
HMAC is a parameter.
-/

namespace FuryBrowser.SignIn

open GuardedRuns RowTable AgentDisk
open OrgKeys (Role)

/-- What the server takes from other crates. -/
structure Crypto where
  /-- `verify_password`: a password against what is stored of it. -/
  verifyPassword : String → String → Bool
  /-- HMAC-SHA1 of a counter, twenty bytes. -/
  hmac : List UInt8 → ℕ → List UInt8

section Codes

variable (crypto : Crypto)

/-- `code_at`, of six digits and thirty seconds. -/
def codeAt (secret : List UInt8) (unixSeconds : ℕ) : String :=
  let digest := crypto.hmac secret (unixSeconds / 30)
  let byte := fun i => (digest.getD i 0).toNat
  let offset := byte (digest.length - 1) % 16
  let binary := byte offset % 128 * 2 ^ 24 + byte (offset + 1) * 2 ^ 16 +
    byte (offset + 2) * 2 ^ 8 + byte (offset + 3)
  let digits := toString (binary % 10 ^ 6)
  "".pushn '0' (6 - digits.length) ++ digits

/-- `code_matches`: the code of now, or of half a minute before or after. -/
def codeMatches (clock : ℕ) (secret : List UInt8) (code : String) : Bool :=
  let code := trim code
  code.utf8ByteSize = 6 && code.toList.all Char.isDigit &&
    [clock - 30, clock, clock + 30].any fun t => codeAt crypto secret t = code

end Codes

/-- `IpAddr`. -/
inductive IpAddr where
  | v4 (address : BitVec 32)
  | v6 (address : BitVec 128)
  deriving DecidableEq, Repr

/-- An entry of the allowlist, as `parse_cidr` reads it: a network and how many of its
bits count. -/
structure Cidr where
  net : IpAddr
  bits : ℕ
  deriving DecidableEq, Repr

/-- The ones in front of a mask. -/
def mask (width bits : ℕ) : BitVec width :=
  if bits = 0 then 0 else BitVec.allOnes width <<< (width - bits)

/-- `cidr_contains`; an address of version 4 may arrive as one of version 6. -/
def cidrContains (entry : Cidr) (ip : IpAddr) : Bool :=
  match entry.net, ip with
  | .v4 n, .v4 a => n &&& mask 32 entry.bits = a &&& mask 32 entry.bits
  | .v6 n, .v6 a => n &&& mask 128 entry.bits = a &&& mask 128 entry.bits
  | .v4 n, .v6 a => a >>> 32 = 0xffff#128 &&
      n &&& mask 32 entry.bits = a.setWidth 32 &&& mask 32 entry.bits
  | .v6 _, .v4 _ => false

/-- `second_factor`. -/
inductive SecondFactor where
  | off
  | newDevice
  | always
  deriving DecidableEq, Repr

/-- What an organisation requires at sign-in. -/
structure Policy where
  /-- When a code is asked for. -/
  secondFactor : SecondFactor
  /-- From where its members sign in. -/
  ipAllowlist : List Cidr
  /-- Whether its owner signs in from anywhere. -/
  ownerExempt : Bool
  deriving DecidableEq, Repr

/-- `Policy::default`. -/
def Policy.default : Policy := ⟨.off, [], true⟩

/-- `admits`. -/
def Policy.admits (policy : Policy) (ip : Option IpAddr) (role : Role) : Bool :=
  policy.ipAllowlist.isEmpty || (policy.ownerExempt && role = .owner) ||
    ip.any fun a => policy.ipAllowlist.any fun entry => cidrContains entry a

/-- `second_factor_required`. -/
def secondFactorRequired (policy : Policy) (enrolled knownDevice : Bool) : Bool :=
  enrolled && match policy.secondFactor with
    | .always => true
    | .newDevice => !knownDevice
    | .off => false

/-- A row of `users`. -/
structure User where
  id : ℕ
  email : String
  passwordHash : String
  totpSecret : Option (List UInt8)
  /-- `totp_enabled_at` is set. -/
  totpEnabled : Bool
  /-- `disabled_at` is set. -/
  disabled : Bool
  deriving DecidableEq, Repr

/-- The user has a second factor enrolled. -/
def User.enrolled (u : User) : Bool := u.totpSecret.isSome && u.totpEnabled

/-- A row of `org_members`. -/
structure Member where
  user : ℕ
  org : ℕ
  role : Role
  deriving DecidableEq, Repr

/-- A row of `organizations`. -/
structure Org where
  id : ℕ
  /-- `security`. -/
  policy : Policy
  deriving DecidableEq, Repr

/-- A row of `login_challenges`. -/
structure Challenge where
  id : ℕ
  user : ℕ
  ip : Option IpAddr
  machineId : Option String
  attempts : ℕ
  /-- `expires_at`, in seconds. -/
  expires : ℕ
  deriving DecidableEq, Repr

/-- How an attempt ended, for `login_events`. -/
inductive Outcome where
  | ok
  | badPassword
  | ipRefused
  | totpRequired
  | totpFailed
  deriving DecidableEq, Repr

/-- A row of `login_events`. -/
structure Event where
  /-- Whose sign-in, if the address is known. -/
  user : Option ℕ
  machineId : Option String
  outcome : Outcome
  deriving DecidableEq, Repr

/-- A row of `sessions`. -/
structure Session where
  /-- `token_hash`. -/
  token : ℕ
  user : ℕ
  deriving DecidableEq, Repr

/-- A row of `enrollments`. -/
structure Invitation where
  /-- `code_hash`. -/
  code : ℕ
  email : String
  /-- Into which organisation; none creates one. -/
  org : Option ℕ
  role : Role
  /-- `expires_at`, in seconds. -/
  expires : ℕ
  /-- `used_at` is set. -/
  used : Bool
  deriving DecidableEq, Repr

/-- The database. -/
structure Db where
  /-- `now()`, in seconds. -/
  now : ℕ
  users : List User
  /-- `org_members`. -/
  members : List Member
  /-- `organizations`. -/
  orgs : List Org
  /-- `enrollments`. -/
  invitations : List Invitation
  /-- `login_challenges`. -/
  challenges : List Challenge
  /-- `login_events`. -/
  events : List Event
  sessions : List Session
  /-- The next id or token to be drawn. -/
  fresh : ℕ
  deriving DecidableEq, Repr

namespace Db

variable (db : Db)

/-- A user. -/
def user (id : ℕ) : Option User := lookup User.id db.users id

/-- Somebody's seat. -/
def member (user : ℕ) : Option Member := lookup Member.user db.members user

/-- `policy_of`. -/
def policyOf (org : ℕ) : Policy :=
  ((lookup Org.id db.orgs org).map Org.policy).getD Policy.default

/-- The policy that a sign-in of somebody is under. -/
def policyFor (user : ℕ) : Policy :=
  ((db.member user).map fun m => db.policyOf m.org).getD Policy.default

/-- Their role; somebody with no seat counts as a plain member. -/
def roleOf (user : ℕ) : Role := ((db.member user).map Member.role).getD .member

/-- `known_device`. -/
def knownDevice (user : ℕ) (machineId : Option String) : Bool :=
  machineId.any fun m => m ≠ "" && db.events.any fun e =>
    e.user = some user && e.machineId = some m && e.outcome = .ok

/-- `record_login`. -/
def record (user : Option ℕ) (machineId : Option String) (outcome : Outcome) : Db :=
  { db with events := ⟨user, machineId, outcome⟩ :: db.events }

/-- `INSERT INTO sessions`. -/
def openSession (user : ℕ) : Db :=
  { db with sessions := ⟨db.fresh, user⟩ :: db.sessions, fresh := db.fresh + 1 }

end Db

/-- The queries of `login`. -/
inductive Query where
  /-- The user of an address. -/
  | user
  | seat
  /-- Its organisation's policy. -/
  | policy
  /-- Whether the second factor is confirmed. -/
  | enrolled
  /-- The sign-ins from the device. -/
  | known
  | challenge
  /-- The keys that go out with a session. -/
  | keys
  | session
  /-- The organisation key that goes out with it. -/
  | seatKey
  | journal
  deriving DecidableEq, Repr

/-- `LoginRequest`. -/
structure LoginRequest where
  email : String
  password : String
  /-- The installation's id, if it sends one. -/
  machineId : Option String
  deriving DecidableEq, Repr

section Login

variable (db : Db) (req : LoginRequest) (ip : Option IpAddr) (fails : List Query)

/-- A line in the journal, if it can be written. -/
def journal (user : Option ℕ) (outcome : Outcome) : Db :=
  if .journal ∈ fails then db else db.record user req.machineId outcome

/-- `SELECT … FROM users WHERE email = $1 AND disabled_at IS NULL`. -/
def loginUser : Option User := db.users.find? fun u => u.email = req.email && !u.disabled

/-- `enrolled`: a query that fails counts as no. -/
def readsEnrolled (u : User) : Bool :=
  u.totpSecret.isSome && if .enrolled ∈ fails then false else u.totpEnabled

/-- `known`: a query that fails counts none. -/
def readsKnown (u : User) : Bool :=
  if .known ∈ fails then false else db.knownDevice u.id req.machineId

/-- `login`, once the password is right: what it leaves, and the challenge it opened for
whom. -/
def passedPassword (u : User) : Db × Option (ℕ × ℕ) :=
  if secondFactorRequired (db.policyFor u.id) (readsEnrolled fails u)
      (readsKnown db req fails u) then
    if .challenge ∈ fails then (db, none)
    else (journal { db with
        challenges := ⟨db.fresh, u.id, ip, req.machineId, 0, db.now + 300⟩ :: db.challenges
        fresh := db.fresh + 1 } req fails (some u.id) .totpRequired, some (db.fresh, u.id))
  else if .keys ∈ fails || .session ∈ fails then (db, none)
  else if .seatKey ∈ fails then (db.openSession u.id, none)
  else (journal (db.openSession u.id) req fails (some u.id) .ok, none)

/-- `login`. -/
def login (crypto : Crypto) : Db × Option (ℕ × ℕ) :=
  if .user ∈ fails then (db, none)
  else match loginUser db req with
  | none => (journal db req fails none .badPassword, none)
  | some u =>
    if .seat ∈ fails || ((db.member u.id).isSome && .policy ∈ fails) then (db, none)
    else if !(db.policyFor u.id).admits ip (db.roleOf u.id) then
      (journal db req fails (some u.id) .ipRefused, none)
    else if !crypto.verifyPassword req.password u.passwordHash then
      (journal db req fails (some u.id) .badPassword, none)
    else passedPassword db req ip fails u

end Login

/-- `complete_enrollment`, of an invitation that stands for somebody new; its other
checks have passed. -/
def completeEnrollment (db : Db) (code : ℕ) (passwordHash : String) : Option Db :=
  (db.invitations.find? fun i => i.code = code && !i.used && db.now < i.expires).bind fun i =>
    if db.users.any fun u => u.email = i.email then none
    else
      let org := i.org.getD (db.fresh + 1)
      some { db with
        users := ⟨db.fresh, i.email, passwordHash, none, false, false⟩ :: db.users
        members := ⟨db.fresh, org, i.role⟩ :: db.members
        orgs := if i.org.isSome then db.orgs else ⟨org, Policy.default⟩ :: db.orgs
        invitations := updateWhere (fun j => j.code = code) (fun j => { j with used := true })
          db.invitations
        sessions := ⟨db.fresh + 2, db.fresh⟩ :: db.sessions
        fresh := db.fresh + 3 }

/-- `signup`, on a server that takes strangers; its other checks have passed. -/
def signup (db : Db) (email passwordHash : String) : Option Db :=
  if db.users.any fun u => u.email = email then none
  else some { db with
    users := ⟨db.fresh, email, passwordHash, none, false, false⟩ :: db.users
    members := ⟨db.fresh, db.fresh + 1, .owner⟩ :: db.members
    orgs := ⟨db.fresh + 1, Policy.default⟩ :: db.orgs
    sessions := ⟨db.fresh + 2, db.fresh⟩ :: db.sessions
    fresh := db.fresh + 3 }

/-- How far a `login_totp` has come. -/
inductive Stage where
  | asked (challenge : ℕ) (code : String)
  /-- The challenge has had its five wrong codes, and is about to be deleted. -/
  | spent (challenge : ℕ)
  /-- It has read the challenge, and is about to read the secret and compare. -/
  | read (challenge : Challenge) (code : String)
  /-- The code was wrong, and is about to be counted. -/
  | counting (challenge : Challenge)
  /-- It was right, and the challenge is about to be deleted. -/
  | matched (challenge : Challenge) (secret : List UInt8) (code : String) (clock : ℕ)
  /-- The session is about to be opened. -/
  | issuing (challenge : Challenge) (secret : List UInt8) (code : String) (clock : ℕ)
  /-- The attempt is about to be written down. -/
  | journaling (challenge : Challenge) (outcome : Outcome)
  deriving DecidableEq, Repr

/-- A `login_totp` in flight. -/
structure Flight where
  id : ℕ
  stage : Stage
  deriving DecidableEq, Repr

/-- The database and the requests in flight. -/
structure World where
  db : Db
  /-- `login_totp` requests in flight. -/
  flights : List Flight
  nextId : ℕ
  /-- The challenges that a right password has opened, and whose. Nothing reads it. -/
  passed : List (ℕ × ℕ)
  /-- The challenges a code was compared for, and whether it was right. Nothing reads it. -/
  compared : List (ℕ × Bool)
  /-- The challenges a session was opened from. Nothing reads it. -/
  issued : List ℕ
  deriving DecidableEq, Repr

/-- A server with nothing stored. -/
def empty : World := ⟨⟨0, [], [], [], [], [], [], [], 0⟩, [], 0, [], [], []⟩

/-- What other requests may make of the tables they write. -/
structure Change where
  users : List User
  /-- `org_members`. -/
  members : List Member
  /-- `organizations`. -/
  orgs : List Org
  /-- `enrollments`. -/
  invitations : List Invitation
  /-- The next id or token to be drawn. -/
  fresh : ℕ
  deriving DecidableEq, Repr

/-- What can happen next. -/
inductive Label where
  | login (req : LoginRequest) (ip : Option IpAddr) (fails : List Query)
  /-- `complete_enrollment`. -/
  | enrolls (code : ℕ) (passwordHash : String) (ip : Option IpAddr)
  /-- `signup`. -/
  | signsUp (email passwordHash : String) (ip : Option IpAddr)
  /-- A `login_totp` arrives. -/
  | presents (challenge : ℕ) (code : String)
  /-- Its next statement runs. The server's clock shows this time. -/
  | runs (id clock : ℕ)
  /-- It is lost, or a query of it fails. -/
  | lost (id : ℕ)
  /-- Other requests change users, seats, policies and invitations. -/
  | changes (change : Change)
  | tick (seconds : ℕ)
  deriving DecidableEq, Repr

/-- A handler goes on with a stage, or is done. -/
def World.goOn (w : World) (id : ℕ) : Option Stage → List Flight
  | none => deleteWhere (fun f => f.id = id) w.flights
  | some stage => updateWhere (fun f => f.id = id) (fun f => { f with stage := stage }) w.flights

/-- Its secret, if the second factor is confirmed. -/
def secretOf (db : Db) (user : ℕ) : Option (List UInt8) :=
  ((db.user user).filter fun u => u.totpEnabled).bind User.totpSecret

/-- What is left of a state when a handler goes on. -/
def World.put (w : World) (id : ℕ) (db : Db) (stage : Option Stage) : World :=
  { w with db := db, flights := w.goOn id stage }

/-- One statement of `login_totp`. -/
def next (crypto : Crypto) (w : World) (f : Flight) (clock : ℕ) : World :=
  let db := w.db
  match f.stage with
  | .asked challenge code =>
    match (lookup Challenge.id db.challenges challenge).filter fun c => db.now < c.expires with
    | none => w.put f.id db none
    | some c => w.put f.id db (some (if 5 ≤ c.attempts then .spent challenge else .read c code))
  | .spent challenge => w.put f.id { db with
      challenges := deleteWhere (fun c => c.id = challenge) db.challenges } none
  | .read c code =>
    match secretOf db c.user with
    | none => w.put f.id db none
    | some secret =>
      if codeMatches crypto clock secret code then
        { w.put f.id db (some (.matched c secret code clock)) with
          compared := (c.id, true) :: w.compared }
      else { w.put f.id db (some (.counting c)) with compared := (c.id, false) :: w.compared }
  | .counting c => w.put f.id { db with
      challenges := updateWhere (fun d => d.id = c.id)
        (fun d => { d with attempts := d.attempts + 1 }) db.challenges }
      (some (.journaling c .totpFailed))
  | .matched c secret code compared => w.put f.id { db with
      challenges := deleteWhere (fun d => d.id = c.id) db.challenges }
      (some (.issuing c secret code compared))
  | .issuing c _ _ _ =>
    { w.put f.id (db.openSession c.user) (some (.journaling c .ok)) with
      issued := c.id :: w.issued }
  | .journaling c outcome => w.put f.id (db.record (some c.user) c.machineId outcome) none

/-- Ids are unique and were drawn, and nobody has two seats. -/
def Change.sound (change : Change) (db : Db) : Prop :=
  (KeyUnique User.id change.users ∧ ∀ u ∈ change.users, u.id < change.fresh) ∧
    (KeyUnique Member.user change.members ∧ ∀ m ∈ change.members, m.user < change.fresh) ∧
    db.fresh ≤ change.fresh

instance (change : Change) (db : Db) : Decidable (change.sound db) := by
  unfold Change.sound KeyUnique
  infer_instance

/-- One step. -/
def step (crypto : Crypto) (w : World) : Label → Option World
  | .login req ip fails =>
    let r := login w.db req ip fails crypto
    some { w with db := r.1, passed := r.2.toList ++ w.passed }
  | .enrolls code passwordHash _ =>
    (completeEnrollment w.db code passwordHash).map fun db => { w with db := db }
  | .signsUp email passwordHash _ =>
    (signup w.db email passwordHash).map fun db => { w with db := db }
  | .presents challenge code => some { w with
      flights := ⟨w.nextId, .asked challenge code⟩ :: w.flights
      nextId := w.nextId + 1 }
  | .runs id clock => (lookup Flight.id w.flights id).map fun f => next crypto w f clock
  | .lost id => some { w with flights := deleteWhere (fun f => f.id = id) w.flights }
  | .changes change =>
    if change.sound w.db then some { w with db := { w.db with
      users := change.users
      members := change.members
      orgs := change.orgs
      invitations := change.invitations
      fresh := change.fresh } }
    else none
  | .tick seconds => some { w with db := { w.db with now := w.db.now + seconds } }

/-- The server has just been set up. -/
def init (w : World) : Prop := w = empty

/-- The server after these steps. -/
def after (crypto : Crypto) (labels : List Label) : World :=
  (run (step crypto) empty labels).getD empty

end FuryBrowser.SignIn

/-!
## What one step of a sign-in does

Three things can come of a `login`: nothing but a line in the journal, a parked
sign-in, or a session. The tables other than the ones it writes stay as they were.
The ids of users, seats and requests in flight are kept unique.
-/

namespace FuryBrowser.SignIn

open GuardedRuns RowTable AgentDisk
open OrgKeys (Role)

variable {crypto : Crypto} {db db' : Db} {w w' : World} {a : Label} {req : LoginRequest}
  {ip : Option IpAddr} {fails : List Query} {u : User} {opened : Option (ℕ × ℕ)}

/-- The user a `login` finds is one, and not disabled. -/
theorem loginUser_some (h : loginUser db req = some u) : u ∈ db.users ∧ u.disabled = false := by
  refine ⟨List.mem_of_find?_eq_some h, ?_⟩
  have hp := List.find?_some h
  simp only [Bool.and_eq_true, Bool.not_eq_true'] at hp
  exact hp.2

/-- The journal is the only table that `journal` writes. -/
theorem journal_eq (db : Db) (req : LoginRequest) (fails : List Query) (user : Option ℕ)
    (outcome : Outcome) :
    ∃ events, journal db req fails user outcome = { db with events := events } := by
  unfold journal
  split
  · exact ⟨db.events, rfl⟩
  · exact ⟨_, rfl⟩

/-- What a `login` leaves, and the challenge it opened. -/
inductive LoggedIn (crypto : Crypto) (db : Db) (req : LoginRequest) (ip : Option IpAddr)
    (fails : List Query) : Db → Option (ℕ × ℕ) → Prop
  /-- It was refused, or a query failed. -/
  | refused (events : List Event) :
      LoggedIn crypto db req ip fails { db with events := events } none
  | parked (u : User) (events : List Event) (hu : loginUser db req = some u)
      (hadmits : (db.policyFor u.id).admits ip (db.roleOf u.id) = true)
      (hright : crypto.verifyPassword req.password u.passwordHash = true) :
      LoggedIn crypto db req ip fails { db with
        challenges := ⟨db.fresh, u.id, ip, req.machineId, 0, db.now + 300⟩ :: db.challenges
        events := events
        fresh := db.fresh + 1 } (some (db.fresh, u.id))
  | session (u : User) (events : List Event) (hu : loginUser db req = some u)
      (hadmits : (db.policyFor u.id).admits ip (db.roleOf u.id) = true)
      (hright : crypto.verifyPassword req.password u.passwordHash = true)
      (hfactor : secondFactorRequired (db.policyFor u.id) (readsEnrolled fails u)
        (readsKnown db req fails u) = false) :
      LoggedIn crypto db req ip fails { db.openSession u.id with events := events } none

theorem passedPassword_cases (hu : loginUser db req = some u)
    (hadmits : (db.policyFor u.id).admits ip (db.roleOf u.id) = true)
    (hright : crypto.verifyPassword req.password u.passwordHash = true) :
    LoggedIn crypto db req ip fails (passedPassword db req ip fails u).1
      (passedPassword db req ip fails u).2 := by
  unfold passedPassword
  split
  · split
    · exact .refused db.events
    · obtain ⟨events, heq⟩ := journal_eq { db with
        challenges := ⟨db.fresh, u.id, ip, req.machineId, 0, db.now + 300⟩ :: db.challenges
        fresh := db.fresh + 1 } req fails (some u.id) .totpRequired
      rw [heq]
      exact .parked u events hu hadmits hright
  · rename_i hfactor
    have hfactor := Bool.not_eq_true _ ▸ hfactor
    split
    · exact .refused db.events
    · split
      · exact .session u db.events hu hadmits hright hfactor
      · obtain ⟨events, heq⟩ := journal_eq (db.openSession u.id) req fails (some u.id) .ok
        rw [heq]
        exact .session u events hu hadmits hright hfactor

/-- Nothing else can come of a `login`. -/
theorem login_cases (crypto : Crypto) (db : Db) (req : LoginRequest) (ip : Option IpAddr)
    (fails : List Query) :
    LoggedIn crypto db req ip fails (login db req ip fails crypto).1
      (login db req ip fails crypto).2 := by
  unfold login
  split
  · exact .refused db.events
  · split
    · obtain ⟨events, heq⟩ := journal_eq db req fails none .badPassword
      rw [heq]
      exact .refused events
    · rename_i u hu
      split
      · exact .refused db.events
      · split
        · obtain ⟨events, heq⟩ := journal_eq db req fails (some u.id) .ipRefused
          rw [heq]
          exact .refused events
        · rename_i hadmits
          split
          · obtain ⟨events, heq⟩ := journal_eq db req fails (some u.id) .badPassword
            rw [heq]
            exact .refused events
          · rename_i hright
            exact passedPassword_cases hu (by simpa using hadmits) (by simpa using hright)

/-- The user and the seat that an enrolment or a sign-up makes are new. -/
structure Joined (db db' : Db) (org : ℕ) (role : Role) : Prop where
  /-- The new user is not disabled, and has no second factor. -/
  users : ∃ email passwordHash,
    db'.users = ⟨db.fresh, email, passwordHash, none, false, false⟩ :: db.users
  members : db'.members = ⟨db.fresh, org, role⟩ :: db.members
  sessions : db'.sessions = ⟨db.fresh + 2, db.fresh⟩ :: db.sessions
  /-- Nobody's sign-in is parked. -/
  challenges : db'.challenges = db.challenges
  fresh : db'.fresh = db.fresh + 3

/-- An enrolment is one into the organisation of the invitation, or into a new one. -/
theorem completeEnrollment_some {code : ℕ} {passwordHash : String}
    (h : completeEnrollment db code passwordHash = some db') :
    ∃ i, (db.invitations.find? fun i => i.code = code && !i.used && db.now < i.expires) = some i ∧
      Joined db db' (i.org.getD (db.fresh + 1)) i.role ∧
      db'.policyOf (i.org.getD (db.fresh + 1)) =
        (i.org.map fun org => db.policyOf org).getD Policy.default := by
  obtain ⟨i, hi, hsome⟩ := Option.bind_eq_some_iff.mp h
  refine ⟨i, hi, ?_⟩
  split at hsome
  · cases hsome
  · cases hsome
    refine ⟨⟨⟨_, _, rfl⟩, rfl, rfl, rfl, rfl⟩, ?_⟩
    cases i.org with
    | none => simp [Db.policyOf, lookup]
    | some org => rfl

/-- A sign-up makes an organisation of its own. -/
theorem signup_some {email passwordHash : String} (h : signup db email passwordHash = some db') :
    Joined db db' (db.fresh + 1) .owner ∧ db'.policyOf (db.fresh + 1) = Policy.default := by
  unfold signup at h
  split at h
  · cases h
  · cases h
    exact ⟨⟨⟨_, _, rfl⟩, rfl, rfl, rfl, rfl⟩, by simp [Db.policyOf, lookup]⟩

/-- The challenge that a request has read. -/
def Stage.challenge : Stage → Option Challenge
  | .read c _ | .counting c | .matched c _ _ _ | .issuing c _ _ _ => some c
  | _ => none

/-- A request in flight stays as it is or goes on. -/
theorem mem_goOn {id : ℕ} {stage : Option Stage} {g : Flight} (h : g ∈ w.goOn id stage) :
    (g ∈ w.flights ∧ g.id ≠ id) ∨ (g.id = id ∧ stage = some g.stage) := by
  cases stage with
  | none =>
    obtain ⟨hin, hne⟩ := mem_deleteWhere.mp h
    exact .inl ⟨hin, by simpa using hne⟩
  | some stage =>
    rcases updateWhere_cases h with ⟨hin, hne⟩ | ⟨old, _, heq, rfl⟩
    · exact .inl ⟨hin, by simpa using hne⟩
    · exact .inr ⟨by simpa using heq, rfl⟩

/-- What a statement of a `login_totp` leaves. -/
inductive Went (crypto : Crypto) (w : World) (f : Flight) (clock : ℕ) : World → Prop
  /-- The challenge is not there, or its user has no second factor. -/
  | givesUp (hstage : (∃ k code, f.stage = .asked k code) ∨ ∃ c code, f.stage = .read c code) :
      Went crypto w f clock (w.put f.id w.db none)
  /-- It reads the challenge. -/
  | reads {c : Challenge} {code : String} (hstage : f.stage = .asked c.id code)
      (hc : c ∈ w.db.challenges) (hfew : c.attempts < 5) :
      Went crypto w f clock (w.put f.id w.db (some (.read c code)))
  /-- It finds that the challenge has had its wrong codes. -/
  | finds {c : Challenge} {code : String} (hstage : f.stage = .asked c.id code)
      (hc : c ∈ w.db.challenges) (hmany : 5 ≤ c.attempts) :
      Went crypto w f clock (w.put f.id w.db (some (.spent c.id)))
  /-- It deletes such a challenge. -/
  | ends {challenge : ℕ} (hstage : f.stage = .spent challenge) :
      Went crypto w f clock (w.put f.id { w.db with
        challenges := deleteWhere (fun c => c.id = challenge) w.db.challenges } none)
  | right {c : Challenge} {code : String} {secret : List UInt8} (hstage : f.stage = .read c code)
      (hright : codeMatches crypto clock secret code = true) :
      Went crypto w f clock { w.put f.id w.db (some (.matched c secret code clock)) with
        compared := (c.id, true) :: w.compared }
  | wrong {c : Challenge} {code : String} (hstage : f.stage = .read c code) :
      Went crypto w f clock { w.put f.id w.db (some (.counting c)) with
        compared := (c.id, false) :: w.compared }
  /-- It counts the wrong code. -/
  | counts {c : Challenge} (hstage : f.stage = .counting c) :
      Went crypto w f clock (w.put f.id { w.db with
        challenges := updateWhere (fun d => d.id = c.id)
          (fun d => { d with attempts := d.attempts + 1 }) w.db.challenges }
        (some (.journaling c .totpFailed)))
  /-- It deletes the challenge. -/
  | deletes {c : Challenge} {secret : List UInt8} {code : String} {compared : ℕ}
      (hstage : f.stage = .matched c secret code compared) :
      Went crypto w f clock (w.put f.id { w.db with
        challenges := deleteWhere (fun d => d.id = c.id) w.db.challenges }
        (some (.issuing c secret code compared)))
  | opens {c : Challenge} {secret : List UInt8} {code : String} {compared : ℕ}
      (hstage : f.stage = .issuing c secret code compared) :
      Went crypto w f clock
        { w.put f.id (w.db.openSession c.user) (some (.journaling c .ok)) with
          issued := c.id :: w.issued }
  /-- It writes the attempt down. -/
  | records {c : Challenge} {outcome : Outcome} (hstage : f.stage = .journaling c outcome) :
      Went crypto w f clock
        (w.put f.id (w.db.record (some c.user) c.machineId outcome) none)

/-- Nothing else can come of a statement. -/
theorem next_cases (crypto : Crypto) (w : World) (f : Flight) (clock : ℕ) :
    Went crypto w f clock (next crypto w f clock) := by
  cases hstage : f.stage with
  | asked challenge code =>
    cases hc : (lookup Challenge.id w.db.challenges challenge).filter
        fun c => w.db.now < c.expires with
    | none =>
      simp only [next, hstage, hc]
      exact .givesUp (.inl ⟨challenge, code, hstage⟩)
    | some c =>
      obtain ⟨hl, _⟩ := Option.filter_eq_some_iff.mp hc
      obtain ⟨hin, rfl⟩ := lookup_some hl
      simp only [next, hstage, hc]
      split
      · rename_i hmany
        exact .finds hstage hin hmany
      · rename_i hfew
        exact .reads hstage hin (Nat.lt_of_not_le hfew)
  | spent challenge =>
    simp only [next, hstage]
    exact .ends hstage
  | read c code =>
    cases hsecret : secretOf w.db c.user with
    | none =>
      simp only [next, hstage, hsecret]
      exact .givesUp (.inr ⟨c, code, hstage⟩)
    | some secret =>
      simp only [next, hstage, hsecret]
      split
      · rename_i hright
        exact .right hstage hright
      · exact .wrong hstage
  | counting c =>
    simp only [next, hstage]
    exact .counts hstage
  | matched c secret code compared =>
    simp only [next, hstage]
    exact .deletes hstage
  | issuing c secret code compared =>
    simp only [next, hstage]
    exact .opens hstage
  | journaling c outcome =>
    simp only [next, hstage]
    exact .records hstage

end FuryBrowser.SignIn
