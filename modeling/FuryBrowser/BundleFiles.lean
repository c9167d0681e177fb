import Mathlib.Data.Int.Notation
import FuryBrowser.GuardedRuns
import FuryBrowser.RowTable

/-!
# The bundles of a profile and their files

An upload streams its body to a file of its own and compares its digest. In a
transaction it then takes the profile's row, moves its file to the name of the
next version, records that version and drops the oldest rows, whose files go
after the commit. A handler that ends early removes its file.

A handler and its transaction end separately. The client goes away, the connection
is lost, the server is killed, and a commit can be applied although its answer
never arrives.
-/

namespace FuryBrowser.BundleFiles

open GuardedRuns RowTable

/-- A row of `bundles`. -/
structure Row where
  /-- `version`, which the file is named after. -/
  version : ℤ
  sha256 : String
  deriving DecidableEq, Repr

/-- A file `<version>.bundle`. -/
structure File where
  version : ℤ
  body : List UInt8
  deriving DecidableEq, Repr

/-- How far the handler of an upload has come. -/
inductive Handler where
  | streaming
  /-- The body fits its digest. -/
  | checked
  /-- The file has its name, and `bundle_guard` removes it. -/
  | placed
  /-- The commit is answered and the guard disarmed. -/
  | pruning
  /-- It has ended before its transaction. -/
  | gone
  deriving DecidableEq, Repr

/-- How far its transaction has come. -/
inductive Transaction where
  | idle
  /-- It holds the profile's row. -/
  | opened
  /-- `COMMIT` is on its way. -/
  | committing
  | applied
  | aborted
  deriving DecidableEq, Repr

/-- An `upload_bundle` in flight. -/
structure Upload where
  id : ℕ
  /-- `x-fury-base-version`. -/
  base : ℤ
  /-- `x-fury-sha256`. -/
  sha256 : String
  /-- `keep_bundle_versions`. -/
  keep : ℤ
  /-- What has been received, in its `.incoming-` file. -/
  received : List UInt8
  handler : Handler
  tx : Transaction
  /-- The version it records, once it holds the row. -/
  version : ℤ
  /-- The versions whose rows it has dropped. -/
  stale : List ℤ
  deriving DecidableEq, Repr

/-- A profile, its bundles and the uploads in flight. -/
structure World where
  /-- `current_version`. -/
  current : ℤ
  /-- `bundles`. -/
  rows : List Row
  /-- The directory of the profile's bundles. -/
  files : List File
  uploads : List Upload
  nextId : ℕ
  deriving DecidableEq, Repr

/-- A new profile. -/
def empty : World := ⟨0, [], [], [], 0⟩

/-- A transaction that is not over holds the profile's row. -/
def Upload.holds (u : Upload) : Bool := u.tx = .opened || u.tx = .committing

/-- The profile's row is locked. -/
def World.rowLocked (w : World) : Bool := w.uploads.any Upload.holds

/-- The upload of an id. -/
def World.upload (w : World) (id : ℕ) : Option Upload := lookup Upload.id w.uploads id

/-- Change an upload. -/
def World.move (w : World) (id : ℕ) (f : Upload → Upload) : World :=
  { w with uploads := updateWhere (fun u => u.id = id) f w.uploads }

/-- End an upload. -/
def World.finish (w : World) (id : ℕ) : World :=
  { w with uploads := deleteWhere (fun u => u.id = id) w.uploads }

/-- What can happen next. -/
inductive Label where
  /-- `upload_bundle` passes its checks and begins to receive. -/
  | begins (base : ℤ) (digest : String) (keep : ℤ)
  | receives (id : ℕ) (chunk : List UInt8)
  /-- It has the whole body and compares the digest. -/
  | checks (id : ℕ)
  /-- It takes the profile's row, compares versions and renames its file. -/
  | places (id : ℕ)
  /-- It has written its rows and sends `COMMIT`. -/
  | commits (id : ℕ)
  /-- The database applies the commit. -/
  | applies (id : ℕ)
  /-- The handler gets the answer and disarms its guard. -/
  | answered (id : ℕ)
  /-- It removes the files of the rows it dropped. -/
  | prunes (id : ℕ)
  /-- The handler ends early: an error, or its client is gone. -/
  | drops (id : ℕ)
  /-- The database loses the connection and rolls back. -/
  | connectionLost (id : ℕ)
  | crashes
  deriving DecidableEq, Repr

section Steps

variable (sha256 : List UInt8 → String)

/-- `upload_bundle` up to its first chunk. -/
def begins (w : World) (base : ℤ) (digest : String) (keep : ℤ) : World :=
  { w with
    uploads := ⟨w.nextId, base, digest, keep, [], .streaming, .idle, 0, []⟩ :: w.uploads
    nextId := w.nextId + 1 }

/-- A chunk is written to the file. -/
def receives (w : World) (id : ℕ) (chunk : List UInt8) : Option World :=
  (w.upload id).bind fun u =>
    if u.handler = .streaming then
      some (w.move id fun u => { u with received := u.received ++ chunk })
    else none

/-- The digest is compared before anything is visible. -/
def checks (w : World) (id : ℕ) : Option World :=
  (w.upload id).bind fun u =>
    if u.handler = .streaming then
      some (if sha256 u.received = u.sha256 then w.move id fun u => { u with handler := .checked }
        else w.finish id)
    else none

/-- `SELECT current_version … FOR UPDATE`, which waits, then `rename`, over a file
that has the name. -/
def places (w : World) (id : ℕ) : Option World :=
  (w.upload id).bind fun u =>
    if u.handler = .checked && !w.rowLocked then
      some (if u.base = w.current then
        { w.move id fun u => { u with
            handler := .placed, tx := .opened, version := w.current + 1 } with
          files := put File.version ⟨w.current + 1, u.received⟩ w.files }
        else w.finish id)
    else none

/-- The last statement of the transaction. -/
def commits (w : World) (id : ℕ) : Option World :=
  (w.upload id).bind fun u =>
    if u.handler = .placed && u.tx = .opened then
      some (w.move id fun u => { u with tx := .committing })
    else none

/-- `DELETE FROM bundles WHERE version <= $2 - $3`, unless everything is kept. -/
def Upload.isStale (u : Upload) (r : Row) : Bool := 0 < u.keep && r.version ≤ u.version - u.keep

/-- The new row, the dropped ones and `current_version` become visible together. -/
def applies (w : World) (id : ℕ) : Option World :=
  (w.upload id).bind fun u =>
    if u.tx = .committing then
      let done :=
        if u.handler = .gone then w.finish id
        else w.move id fun u => { u with
          tx := .applied, stale := (w.rows.filter u.isStale).map Row.version }
      some { done with
        current := u.version
        rows := ⟨u.version, u.sha256⟩ :: deleteWhere u.isStale w.rows }
    else none

/-- `bundle_guard.disarm()`. -/
def answered (w : World) (id : ℕ) : Option World :=
  (w.upload id).bind fun u =>
    if u.handler = .placed && u.tx = .applied then
      some (w.move id fun u => { u with handler := .pruning })
    else none

/-- The files of dropped rows go, and the upload is over. -/
def prunes (w : World) (id : ℕ) : Option World :=
  (w.upload id).bind fun u =>
    if u.handler = .pruning then
      some { w.finish id with files := deleteWhere (fun f => f.version ∈ u.stale) w.files }
    else none

/-- `RemoveOnDrop`, and the rollback of a transaction whose `COMMIT` is not sent.
One that is sent stays with the database. -/
def drops (w : World) (id : ℕ) : Option World :=
  (w.upload id).bind fun u =>
    if u.handler = .pruning || u.handler = .gone then none
    else
      let left :=
        if u.tx = .committing then w.move id fun u => { u with handler := .gone }
        else w.finish id
      some { left with
        files := if u.handler = .placed then deleteWhere (fun f => f.version = u.version) w.files
          else w.files }

/-- The database rolls back, and the handler has yet to notice. -/
def connectionLost (w : World) (id : ℕ) : Option World :=
  (w.upload id).bind fun u =>
    if u.holds then
      some (if u.handler = .gone then w.finish id
        else w.move id fun u => { u with tx := .aborted })
    else none

/-- No guard runs, and only a `COMMIT` that is sent survives the server. -/
def crashes (w : World) : World :=
  { w with
    uploads := updateWhere (fun _ => true) (fun u => { u with handler := .gone })
      (deleteWhere (fun u => u.tx ≠ .committing) w.uploads) }

/-- One step. -/
def step (w : World) : Label → Option World
  | .begins base digest keep => some (begins w base digest keep)
  | .receives id chunk => receives w id chunk
  | .checks id => checks sha256 w id
  | .places id => places w id
  | .commits id => commits w id
  | .applies id => applies w id
  | .answered id => answered w id
  | .prunes id => prunes w id
  | .drops id => drops w id
  | .connectionLost id => connectionLost w id
  | .crashes => some (crashes w)

end Steps

/-- The profile has just been created. -/
def init (w : World) : Prop := w = empty

end FuryBrowser.BundleFiles
