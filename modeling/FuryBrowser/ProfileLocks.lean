import Mathlib.Data.Int.Notation
import FuryBrowser.GuardedRuns
import FuryBrowser.RowTable

/-!
# Locks on profiles and the uploads they authorise

Whoever opens a profile takes its lock and keeps it by a heartbeat. An upload
presents the lock's token at its start, streams its body for as long as that
takes, and records its version in a transaction at its end, under a lock on the
profile's row. In between the lock can be taken over, lapse, be released or
revoked, and the profile can be deleted.

Every statement is a step. Time passes in steps of its own.
-/

namespace FuryBrowser.ProfileLocks

open GuardedRuns RowTable

/-- A row of `profiles`. -/
structure Profile where
  id : ℕ
  /-- `current_version`. -/
  version : ℤ
  /-- `deleted_at` is set. -/
  deleted : Bool
  deriving DecidableEq, Repr

/-- A row of `profile_locks`. -/
structure Lock where
  /-- The profile, its primary key. -/
  profile : ℕ
  user : ℕ
  /-- `token_hash`. -/
  token : ℕ
  /-- `expires_at`, in seconds. -/
  expires : ℕ
  deriving DecidableEq, Repr

/-- How far an upload has come. -/
inductive Stage where
  /-- It has passed the permission check. -/
  | asked
  /-- It has passed the lock check and streams its body. -/
  | streaming
  /-- It holds the profile's row and has compared the versions. -/
  | recording
  deriving DecidableEq, Repr

/-- An `upload_bundle` in flight. -/
structure Upload where
  id : ℕ
  profile : ℕ
  /-- Hash of `x-fury-lock-token`. -/
  token : ℕ
  /-- `x-fury-base-version`. -/
  base : ℤ
  stage : Stage
  deriving DecidableEq, Repr

/-- An `acquire_lock` that has passed its permission check. -/
structure Acquisition where
  id : ℕ
  profile : ℕ
  user : ℕ
  /-- Takes over a live lock. -/
  force : Bool
  deriving DecidableEq, Repr

/-- A `delete_profile` or `delete_project` that has found no open lock. -/
structure Deletion where
  id : ℕ
  /-- The profile, or those of the project. -/
  profiles : List ℕ
  deriving DecidableEq, Repr

/-- The database, the clock, and the requests between two statements. -/
structure World where
  /-- `now()`, in seconds. -/
  now : ℕ
  profiles : List Profile
  /-- `profile_locks`. -/
  locks : List Lock
  uploads : List Upload
  /-- Locks about to be taken. -/
  acquisitions : List Acquisition
  /-- Deletions about to be written. -/
  deletions : List Deletion
  nextId : ℕ
  nextToken : ℕ
  deriving DecidableEq, Repr

/-- A server with nothing stored. -/
def empty : World := ⟨0, [], [], [], [], [], 0, 0⟩

/-- The profile of an id. -/
def World.profile (w : World) (id : ℕ) : Option Profile := lookup Profile.id w.profiles id

/-- The lock of a profile. -/
def World.lock (w : World) (profile : ℕ) : Option Lock := lookup Lock.profile w.locks profile

/-- A profile that is there and not deleted. -/
def World.live (w : World) (profile : ℕ) : Bool := (w.profile profile).any fun p => !p.deleted

/-- An upload holds the profile's row. -/
def World.rowLocked (w : World) (profile : ℕ) : Bool :=
  w.uploads.any fun u => u.profile = profile && u.stage = .recording

/-- What can happen next. -/
inductive Label where
  | createProfile (profile : ℕ)
  /-- `acquire_lock` passes its permission check. -/
  | lockAsks (profile user : ℕ) (force : Bool)
  /-- `acquire_lock` takes the lock, or is refused. -/
  | lockTakes (id : ℕ)
  | heartbeat (profile user token : ℕ)
  /-- `release_lock`. -/
  | release (profile token : ℕ)
  /-- `revoke_share`, `revoke_access` or the removal of a member: the user's locks
  on these profiles go. -/
  | revoke (user : ℕ) (profiles : List ℕ)
  /-- `upload_bundle` passes its permission check. -/
  | uploadAsks (profile token : ℕ) (base : ℤ)
  /-- `upload_bundle` looks for its lock. -/
  | uploadChecks (id : ℕ)
  /-- `upload_bundle` has its body, locks the profile's row and compares versions. -/
  | uploadLocks (id : ℕ)
  /-- `upload_bundle` commits the new version. -/
  | uploadCommits (id : ℕ)
  /-- An upload ends without one. -/
  | uploadFails (id : ℕ)
  /-- `delete_profile` or `delete_project` finds no open lock. -/
  | deleteAsks (profiles : List ℕ)
  /-- It marks the profiles deleted. -/
  | deleteWrites (id : ℕ)
  /-- `restore_profile`. -/
  | restore (profile : ℕ)
  /-- `purge_profile`. -/
  | purge (profile : ℕ)
  | tick (seconds : ℕ)
  deriving DecidableEq, Repr

/-- `acquire_lock` up to its upsert: a deleted profile is not found. -/
def lockAsks (w : World) (profile user : ℕ) (force : Bool) : Option World :=
  if w.live profile then
    some { w with
      acquisitions := ⟨w.nextId, profile, user, force⟩ :: w.acquisitions
      nextId := w.nextId + 1 }
  else none

/-- The upsert of `acquire_lock`. An expired lock is free, a live one yields to a
forced takeover. A new row waits for the profile's. -/
def lockTakes (w : World) (id : ℕ) : Option World :=
  (lookup Acquisition.id w.acquisitions id).bind fun q =>
    let done := { w with
      acquisitions := deleteWhere (fun q => q.id = id) w.acquisitions }
    let taken : Lock := ⟨q.profile, q.user, w.nextToken, w.now + 90⟩
    match w.lock q.profile with
    | none =>
      if w.rowLocked q.profile then none
      else if (w.profile q.profile).isNone then some done
      else some { done with locks := taken :: w.locks, nextToken := w.nextToken + 1 }
    | some l =>
      if l.expires ≤ w.now || q.force then
        some { done with
          locks := updateWhere (fun l => l.profile = q.profile) (fun _ => taken) w.locks
          nextToken := w.nextToken + 1 }
      else some done

/-- `heartbeat`. -/
def heartbeat (w : World) (profile user token : ℕ) : World :=
  { w with
    locks := updateWhere (fun l => l.profile = profile && l.user = user && l.token = token)
      (fun l => { l with expires := w.now + 90 }) w.locks }

/-- `release_lock`. -/
def release (w : World) (profile token : ℕ) : World :=
  { w with locks := deleteWhere (fun l => l.profile = profile && l.token = token) w.locks }

/-- The locks of a user on these profiles go. -/
def revoke (w : World) (user : ℕ) (profiles : List ℕ) : World :=
  { w with locks := deleteWhere (fun l => l.user = user && l.profile ∈ profiles) w.locks }

/-- `upload_bundle` up to its permission check. -/
def uploadAsks (w : World) (profile token : ℕ) (base : ℤ) : Option World :=
  if w.live profile then
    some { w with
      uploads := ⟨w.nextId, profile, token, base, .asked⟩ :: w.uploads
      nextId := w.nextId + 1 }
  else none

/-- Move an upload on. -/
def World.move (w : World) (id : ℕ) (stage : Stage) : World :=
  { w with
    uploads := updateWhere (fun u => u.id = id) (fun u => { u with stage := stage }) w.uploads }

/-- End an upload. -/
def World.finish (w : World) (id : ℕ) : World :=
  { w with uploads := deleteWhere (fun u => u.id = id) w.uploads }

/-- `holds_lock`. -/
def holdsLock (w : World) (u : Upload) : Bool :=
  w.locks.any fun l => l.profile = u.profile && l.token = u.token && w.now < l.expires

/-- The lock check of `upload_bundle`. -/
def uploadChecks (w : World) (id : ℕ) : Option World :=
  (lookup Upload.id w.uploads id).bind fun u =>
    if u.stage = .asked then
      some (if holdsLock w u then w.move id .streaming else w.finish id)
    else none

/-- `SELECT current_version … FOR UPDATE`: it waits for another upload, finds a
deleted profile too, and refuses a version that is not the base. -/
def uploadLocks (w : World) (id : ℕ) : Option World :=
  (lookup Upload.id w.uploads id).bind fun u =>
    if u.stage = .streaming && !w.rowLocked u.profile then
      match w.profile u.profile with
      | none => some (w.finish id)
      | some p => some (if u.base = p.version then w.move id .recording else w.finish id)
    else none

/-- The version is recorded and committed. -/
def uploadCommits (w : World) (id : ℕ) : Option World :=
  (lookup Upload.id w.uploads id).bind fun u =>
    if u.stage = .recording then
      some { w.finish id with
        profiles := updateWhere (fun p => p.id = u.profile)
          (fun p => { p with version := p.version + 1 }) w.profiles }
    else none

/-- The check of `delete_profile` and `delete_project`. -/
def deleteAsks (w : World) (profiles : List ℕ) : Option World :=
  if w.locks.any fun l => l.profile ∈ profiles && w.now < l.expires then none
  else some { w with
    deletions := ⟨w.nextId, profiles⟩ :: w.deletions
    nextId := w.nextId + 1 }

/-- Their `UPDATE`, which waits for the rows. -/
def deleteWrites (w : World) (id : ℕ) : Option World :=
  (lookup Deletion.id w.deletions id).bind fun q =>
    if q.profiles.any w.rowLocked then none
    else some { w with
      deletions := deleteWhere (fun q => q.id = id) w.deletions
      profiles := updateWhere (fun p => p.id ∈ q.profiles)
        (fun p => { p with deleted := true }) w.profiles }

/-- `restore_profile`. -/
def restore (w : World) (profile : ℕ) : Option World :=
  if w.rowLocked profile then none
  else some { w with
    profiles := updateWhere (fun p => p.id = profile)
      (fun p => { p with deleted := false }) w.profiles }

/-- `purge_profile`, and the lock with the row. -/
def purge (w : World) (profile : ℕ) : Option World :=
  if w.rowLocked profile || w.live profile then none
  else some { w with
    profiles := deleteWhere (fun p => p.id = profile) w.profiles
    locks := deleteWhere (fun l => l.profile = profile) w.locks }

/-- A profile begins at version 0. -/
def createProfile (w : World) (profile : ℕ) : Option World :=
  if (w.profile profile).isSome then none
  else some { w with profiles := ⟨profile, 0, false⟩ :: w.profiles }

/-- One step. A refused request changes nothing but itself. -/
def step (w : World) : Label → Option World
  | .createProfile profile => createProfile w profile
  | .lockAsks profile user force => lockAsks w profile user force
  | .lockTakes id => lockTakes w id
  | .heartbeat profile user token => some (heartbeat w profile user token)
  | .release profile token => some (release w profile token)
  | .revoke user profiles => some (revoke w user profiles)
  | .uploadAsks profile token base => uploadAsks w profile token base
  | .uploadChecks id => uploadChecks w id
  | .uploadLocks id => uploadLocks w id
  | .uploadCommits id => uploadCommits w id
  | .uploadFails id => some (w.finish id)
  | .deleteAsks profiles => deleteAsks w profiles
  | .deleteWrites id => deleteWrites w id
  | .restore profile => restore w profile
  | .purge profile => purge w profile
  | .tick seconds => some { w with now := w.now + seconds }

/-- The server has just been set up. -/
def init (w : World) : Prop := w = empty

/-- The server after these steps. -/
def after (labels : List Label) : World := (run step empty labels).getD empty

end FuryBrowser.ProfileLocks
