import FuryBrowser.BundleRoundTrip
import FuryBrowser.LocalStore
import FuryBrowser.ProgramRules

/-!
# Projects in files

A project is written to a file under a passphrase: the manifest of its profiles and of the proxies
they use, and with it, if asked, the files of their directories. Reading it back makes a project of
its own, then the proxies, the profiles and their files, one call to the store or the disk after
the other. Nothing takes back what an earlier call did when a later one fails.
-/

namespace FuryBrowser.ProjectTransfer

open AgentDisk PathTree BundleUnpack BundlePack LocalStore
open BundleRoundTrip (ProperName)

variable {ω : Type}

section Formats

/-- `Manifest`. -/
structure Manifest (ω : Type) where
  /-- The name of the project. -/
  projectName : String
  exportedAt : String
  profiles : List (Profile ω)
  proxies : List Proxy
  /-- Whether their files came along. -/
  withData : Bool

/-- `Version`. -/
inductive Version where
  /-- The first format, which is still read. -/
  | v1
  /-- The format that is written. -/
  | v2
  deriving DecidableEq, Repr

/-- A component of a path in an archive, as the standard library splits it. -/
inductive Part where
  /-- A leading `/`. -/
  | rootDir
  /-- A leading `.`. -/
  | curDir
  /-- `..`. -/
  | parentDir
  | normal (name : String)
  deriving DecidableEq, Repr

/-- An entry of an archive. -/
structure Entry where
  path : List Part
  /-- The header says a regular file. -/
  isFile : Bool
  /-- Its bytes, when they can be read to their end. -/
  content : Option Bytes
  deriving DecidableEq, Repr

/-- What the libraries under the file format compute. -/
structure TransferLibrary (ω : Type) extends PackLibrary where
  /-- Argon2 of a passphrase and a salt, or what it fails with. -/
  deriveKey : Version → String → Bytes → Except String Key
  /-- Gunzip, then the entries of the tar archive; `none` is an entry that cannot be read, and ends
  the list. -/
  entries : Bytes → Option (List (Option Entry))
  manifestBytes : Manifest ω → Bytes
  /-- And back, or what it fails with. -/
  parseManifest : Bytes → Except String (Manifest ω)

/-- `MAGIC`. -/
def magicV2 : Bytes := utf8 "FURY-EX2"

/-- `MAGIC_V1`. -/
def magicV1 : Bytes := utf8 "FURY-EX1"

/-- `SALT_LEN`. -/
def saltLen : ℕ := 16

end Formats

section Export

/-- A file in the directory of a profile. -/
structure DataFile where
  id : String
  /-- The path below its directory. -/
  inner : Path
  content : Bytes

/-- A file found on the disk, under names that a file system gives. -/
structure DiskFile extends DataFile where
  proper : ProperName id ∧ ∀ name ∈ inner, ProperName name

/-- What `export_project` draws. -/
structure Sealing where
  salt : Bytes
  nonce : Bytes
  lengths : salt.length = saltLen ∧ nonce.length = nonceLen

variable (lib : TransferLibrary ω) (vault : Vault) (db : Db ω)

/-- The proxies that the profiles of a project use, whole. -/
def usedProxies (project : String) : List Proxy :=
  let ids := (db.profilesList (some project)).filterMap fun p => p.proxy.map Proxy.id
  (db.proxiesList lib.toPackLibrary vault).filter fun x => ids.contains x.id

/-- The manifest of a project. -/
def manifestOf (project : Project) (exportedAt : String) (withData : Bool) : Manifest ω where
  projectName := project.name
  exportedAt := exportedAt
  profiles := db.profilesList (some project.id)
  proxies := usedProxies lib vault db project.id
  withData := withData

/-- The files of its profiles, if they come along, from those on the disk. -/
def exportedData (manifest : Manifest ω) (files : List DiskFile) : List DiskFile :=
  if manifest.withData then
    manifest.profiles.flatMap fun p => files.filter fun file => file.id = p.id
  else []

/-- What goes into the archive. -/
def archiveFiles (manifest : Manifest ω) (files : List DiskFile) : List (Path × Bytes) :=
  (["manifest.json"], lib.manifestBytes manifest) ::
    (exportedData manifest files).map fun file => ("data" :: file.id :: file.inner, file.content)

/-- `export_project`, up to the writing of the file. -/
def exportProject (files : List DiskFile) (project passphrase exportedAt : String)
    (withData : Bool) (sealing : Sealing) : Except AgentError (Manifest ω × Bytes) := do
  if passphrase.length < 8 then
    throw (.message
      "the passphrase must be at least 8 characters — this file holds live accounts")
  let some found := db.projectsList.find? (fun p => p.id = project)
    | throw (.message "no such project")
  let manifest := manifestOf lib vault db found exportedAt withData
  match lib.deriveKey .v2 passphrase sealing.salt with
  | .error e => throw (.message ("deriving the key failed: " ++ e))
  | .ok key =>
    match lib.encrypt key sealing.nonce (lib.writeArchive (archiveFiles lib manifest files)) with
    | none => throw (.message "encryption failed")
    | some sealed => return (manifest, magicV2 ++ sealing.salt ++ sealing.nonce ++ sealed)

end Export

section Reading

variable (lib : TransferLibrary ω)

/-- The text of a component. -/
def Part.text : Part → String
  | .rootDir => "/"
  | .curDir => "."
  | .parentDir => ".."
  | .normal name => name

/-- The name of a component that is one. -/
def Part.name : Part → Option String
  | .normal name => some name
  | _ => none

/-- The loop over the entries of an archive: the last manifest in it, and the files of profiles. A
path that climbs is refused. -/
def readEntries (manifest : Option (Manifest ω)) (data : List DataFile) :
    List (Option Entry) → Except AgentError (Option (Manifest ω) × List DataFile)
  | [] => .ok (manifest, data.reverse)
  | none :: _ => .error .io
  | some entry :: rest =>
    if entry.path = [.normal "manifest.json"] then
      match entry.content with
      | none => .error .io
      | some content =>
        match lib.parseManifest content with
        | .error e => .error (.message e)
        | .ok found => readEntries (some found) data rest
    else
      match entry.path with
      | .normal "data" :: id :: inner =>
        if .parentDir ∈ inner then
          .error (.message "the archive contains a path that escapes its directory")
        else if entry.isFile then
          match entry.content with
          | none => .error .io
          | some content =>
            readEntries manifest (⟨id.text, inner.filterMap Part.name, content⟩ :: data) rest
        else readEntries manifest data rest
      | _ => readEntries manifest data rest

/-- What `import_project` makes of a file before it asks the store for anything. -/
def openExport (src : Option Bytes) (passphrase : String) :
    Except AgentError (Manifest ω × List DataFile) := do
  let some raw := src | throw .io
  let version ←
    if raw.take magicV2.length = magicV2 then pure Version.v2
    else if raw.take magicV1.length = magicV1 then pure Version.v1
    else throw (.message "this is not a Fury export file")
  if raw.length < magicV2.length + saltLen + nonceLen then
    throw (.message "this is not a Fury export file")
  let body := raw.drop magicV2.length
  match lib.deriveKey version passphrase (body.take saltLen) with
  | .error e => throw (.message ("deriving the key failed: " ++ e))
  | .ok key =>
    let sealed := body.drop saltLen
    let some compressed := lib.decrypt key (sealed.take nonceLen) (sealed.drop nonceLen)
      | throw (.message "wrong passphrase, or the file has been altered")
    let some entries := lib.entries compressed | throw .io
    match ← readEntries lib none [] entries with
    | (some manifest, data) => return (manifest, data)
    | (none, _) => throw (.message "the archive has no manifest")

end Reading

section Import

/-- The tables and the disk, and how many calls there were. -/
structure World (ω : Type) where
  db : Db ω
  disk : Disk
  calls : ℕ

/-- What the rest of the machine answers: which calls fail, and what is drawn. -/
structure Env where
  /-- The database or the file system refuses a call. -/
  fails : ℕ → Bool
  newId : List String → String
  /-- It is none of those there are. -/
  newId_new : ∀ known, newId known ∉ known
  seed : ℕ → ℤ
  seed_pos : ∀ n, 0 < seed n
  nonces : ℕ → Bytes × Bytes
  /-- The vault, as the call finds it. -/
  vault : ℕ → Vault

/-- The import. -/
abbrev ImportM (ω : Type) := EStateM AgentError (World ω)

variable (lib : TransferLibrary ω) (env : Env) (dirs : String → Path)

/-- The ids there are, in the tables and in the file. -/
def knownIds (db : Db ω) (manifest : Manifest ω) : List String :=
  "" :: db.projects.map ProjectRow.id ++ db.proxies.map ProxyRow.id ++
    db.profiles.map ProfileRow.id ++ manifest.profiles.filterMap Profile.proxyId

/-- A call to the store. -/
def storeCall {α : Type} (f : ℕ → Db ω → Option (α × Db ω)) : ImportM ω α := fun w =>
  match if env.fails w.calls then none else f w.calls w.db with
  | none => .error .io { w with calls := w.calls + 1 }
  | some (a, db) => .ok a { w with db := db, calls := w.calls + 1 }

/-- A call to the file system. What it refuses is among the failures. -/
def fileCall (f : Disk → Disk) : ImportM ω Unit := fun w =>
  if env.fails w.calls then .error .io { w with calls := w.calls + 1 }
  else .ok () { w with disk := f w.disk, calls := w.calls + 1 }

/-- `create_dir_all`, where it goes through. -/
def makeDirs (path : Path) (disk : Disk) : Disk :=
  path.inits.foldl (fun disk p => if isDir disk p then disk else setNode disk p .dir) disk

/-- The newest entry of a map under a key. -/
def newest (ids : List (String × String)) (key : String) : Option String :=
  (ids.find? fun entry => entry.1 = key).map Prod.snd

/-- The proxies are saved as new ones, and their ids noted. -/
def importProxies (manifest : Manifest ω) (ids : List (String × String)) :
    List Proxy → ImportM ω (List (String × String))
  | [] => pure ids
  | proxy :: rest => do
    let id ← storeCall env fun n db =>
      some (db.upsertProxy lib.toPackLibrary (env.vault n) (env.newId (knownIds db manifest))
        (env.nonces n) { proxy with id := "" })
    importProxies manifest ((proxy.id, id) :: ids) rest

/-- A profile of the file as it is saved: new, in the new project, with the new id in the copy of
its proxy. The reference beside the copy stays. -/
def freshProfile (project : String) (proxyIds : List (String × String)) (p : Profile ω) :
    Profile ω := {
  p with
  id := ""
  projectId := some project
  proxy := p.proxy.bind fun x => (newest proxyIds x.id).map fun id => { x with id := id } }

/-- The profiles are saved as new ones, and their ids noted. -/
def importProfiles (manifest : Manifest ω) (project : String) (proxyIds : List (String × String))
    (ids : List (String × String)) : List (Profile ω) → ImportM ω (List (String × String))
  | [] => pure ids
  | profile :: rest => do
    let id ← storeCall env fun n db =>
      db.upsertProfile (env.newId (knownIds db manifest)) (env.seed n)
        (freshProfile project proxyIds profile)
    importProfiles manifest project proxyIds ((profile.id, id) :: ids) rest

/-- The files of the profiles are written. -/
def importFiles (ids : List (String × String)) : List DataFile → ImportM ω Unit
  | [] => pure ()
  | file :: rest =>
    match newest ids file.id with
    | none => importFiles ids rest
    | some id => do
      let target := dirs id ++ file.inner
      fileCall env (makeDirs target.dropLast)
      fileCall env (fun disk => setNode disk target (.file file.content))
      importFiles ids rest

/-- `import_project` once its project is there: the proxies first, since a profile refers to one. -/
def importRest (manifest : Manifest ω) (data : List DataFile) (project : String) :
    ImportM ω (String × ℕ) := do
  let proxyIds ← importProxies lib env manifest [] manifest.proxies
  let ids ← importProfiles env manifest project proxyIds [] manifest.profiles
  importFiles env dirs ids data
  return (project, manifest.profiles.length)

/-- `import_project`. -/
def importProject (src : Option Bytes) (passphrase : String) : ImportM ω (String × ℕ) :=
  match openExport lib src passphrase with
  | .error e => throw e
  | .ok (manifest, data) => do
    let taken ← storeCall env fun _ db => some (db.projectsList.map Project.name, db)
    let name := if taken.contains manifest.projectName then
      manifest.projectName ++ " (imported)" else manifest.projectName
    let project ← storeCall env fun _ db =>
      let id := env.newId (knownIds db manifest)
      some (id, db.createProject id name "")
    importRest lib env dirs manifest data project

end Import

end FuryBrowser.ProjectTransfer
