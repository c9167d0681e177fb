import FuryBrowser.BundleUnpack
import FuryBrowser.UnsyncedSlot

/-!
# From the profile directory to the spawn

The part of `launch` that decides what the browser opens: make the directory,
check the cookie-key marker, pull the server's bundle, and hand the directory
and the cookie key to the browser. The checks before it only refuse a launch,
and the marker written after the spawn belongs to the next launch.

The two files beside the directory are kept by `unsynced`: the server version
the copy is, and the version an unsent session started from.
-/

namespace FuryBrowser.LaunchPull

open PathTree AgentDisk BundleUnpack UnsyncedSlot

/-- What an agent computes with and where it keeps its profiles. -/
structure Agent where
  lib : SealLibrary
  /-- `serde_json` reading the base version of an unsent-session marker. -/
  readMarker : Bytes → Option ℤ
  /-- The marker `mark` writes for a base version. -/
  writeMarker : ℤ → Bytes
  /-- The agent's data directory. -/
  dataDir : Path
  vault : Vault
  /-- The time, in seconds, that names a copy moved aside. -/
  now : ℕ

section Unsynced

variable (agent : Agent) (id : ProfileId)

/-- `paths::profile_dir`. -/
abbrev dir : Path := profileDir agent.dataDir id

/-- `unsynced::marker_path`. -/
def markerPath : Path := besideProfileDir agent.dataDir id "unsynced.json"

/-- `unsynced::held_path`. -/
def heldPath : Path := besideProfileDir agent.dataDir id "version"

/-- Where `set_aside` moves the copy. -/
def asidePath : Path := besideProfileDir agent.dataDir id ("unsent-" ++ toString agent.now)

/-- The version the file beside the directory records. -/
def recordedVersion (disk : Disk) : Option ℤ :=
  (readToString disk (heldPath agent id)).bind fun text => parseI32 (trim text)

/-- `unsynced::held`. -/
def held (disk : Disk) : Option ℤ :=
  if isDir disk (dir agent id) then recordedVersion agent id disk else none

/-- `unsynced::base`. -/
def base (disk : Disk) : Option ℤ :=
  (fileAt disk (markerPath agent id)).bind agent.readMarker

/-- `unsynced::mark`: a failed write is only logged. -/
def mark (baseVersion : ℤ) : DiskOp Unit :=
  tryIo (writeFile · (markerPath agent id) (agent.writeMarker baseVersion))

/-- `unsynced::clear`. -/
def clear : DiskOp Unit := tryIo fun disk => removeFile disk (markerPath agent id)

/-- `unsynced::record_held`: a failed write is only logged. -/
def recordHeld (version : ℤ) : DiskOp Unit :=
  tryIo (writeFile · (heldPath agent id) (utf8 (toString version)))

/-- `unsynced::set_aside`. -/
def setAside : DiskOp Unit := do
  io (renameDir · (dir agent id) (asidePath agent id))
  clear agent id
  tryIo fun disk => removeFile disk (heldPath agent id)

end Unsynced

/-- The server's reply to one request for a bundle. -/
structure Response where
  status : ℕ
  /-- The header `x-fury-wrapped-key`. -/
  wrappedKey : Option String
  /-- The header `x-fury-version`. -/
  version : Option String
  /-- The header `server`, which names who answered. -/
  answeredBy : Option String
  /-- The body, when the transfer goes through. -/
  body : Option Bytes

/-- A server: its reply to a request with an optional `If-None-Match`; `none`
when no reply arrives. -/
abbrev Server := Option ℤ → Option Response

/-- What `fetch_bundle` brings back. -/
inductive Fetched where
  /-- The server's current version is the one this machine said it holds. -/
  | unchanged (version : ℤ)
  | bundle (bytes : Bytes) (wrapped : String) (version : ℤ)
  /-- No bundle on the server yet. -/
  | nothing
  deriving DecidableEq, Repr

/-- `TRANSFER_HINT`, shown when the connection breaks off. -/
def transferHint : String :=
  "moving this profile's data to or from the team server broke off. " ++
    "Small requests reaching the server and this failing usually means something in between " ++
    "limits large transfers -- a proxy such as Cloudflare's (set the record to DNS only), " ++
    "an antivirus, or a very slow link. See docs/14-team-server.md"

/-- `refused_by`: whether a proxy answered in the server's place. -/
def refusedBy (res : Response) : String :=
  if (res.answeredBy.map String.toLower) = some "cloudflare" then
    " -- answered by Cloudflare's proxy, not by the Fury server; set the record to DNS only " ++
      "(docs/14)"
  else ""

/-- `Server::fetch_bundle`. -/
def fetchBundle (server : Server) (holding : Option ℤ) : Except AgentError Fetched :=
  match server holding with
  | none => .error (.message transferHint)
  | some res =>
    if res.status = 404 then .ok .nothing
    else match holding with
      | some v => if res.status = 304 then .ok (.unchanged v) else received res
      | none => received res
where
  /-- The answer is neither "none yet" nor "not modified". -/
  received (res : Response) : Except AgentError Fetched :=
    if ¬(200 ≤ res.status ∧ res.status < 300) then
      .error (.message s!"the server refused the bundle ({res.status}){refusedBy res}")
    else match res.wrappedKey with
      | none => .error (.message "the server sent a bundle with no key")
      | some wrapped =>
        match res.body with
        | none => .error (.message transferHint)
        | some bytes => .ok (.bundle bytes wrapped ((res.version.bind parseI32).getD 0))

/-- The keys the shell hands down with a team profile. -/
structure TeamKeys where
  profileKey : Key
  /-- The cookie key a rotation carried over, when there is one. -/
  cookieKey : Option Key

/-- What a launch is asked for. -/
structure LaunchRequest where
  id : ProfileId
  /-- The keys of a team profile; none for one of this machine. -/
  team : Option TeamKeys
  /-- The server, for a profile that lives on one. -/
  server : Option Server

/-- The directory and key handed to `launcher::spawn`, and the version the
session grows from. -/
structure Launched where
  /-- The browser's user data directory. -/
  userDataDir : Path
  /-- The key the browser encrypts cookies with. -/
  osCryptKey : Option Key
  /-- The version the session grows from. -/
  pulledVersion : ℤ

section Launch

variable (agent : Agent) (request : LaunchRequest)

/-- The sealer `launch` opens a pulled bundle with. -/
def launchSealer : Sealer :=
  match request.team with
  | some team => .shared team.profileKey (some agent.vault)
  | none => .machine agent.vault

/-- The key the browser will encrypt a team profile's cookies with. -/
def osCryptKey : Option Key :=
  request.team.map fun team =>
    team.cookieKey.getD (agent.lib.subkey team.profileKey "fury-oscrypt-v1" request.id.text)

/-- The file naming the key a directory's cookies were saved under. -/
def keyMarker : Path := dir agent request.id ++ ["Fury Key Id"]

/-- The file left behind by the previous run of the browser. -/
def devToolsPort : Path := dir agent request.id ++ ["DevToolsActivePort"]

/-- The refusal of a directory whose cookies were saved under another key. -/
def cookieKeyChanged : AgentError :=
  .coded "err.cookieKeyChanged"
    ("this profile's cookies were saved under a key that no longer exists: the organisation " ++
      "key was replaced by a version of Fury that did not carry the cookie key over. Opening " ++
      "the profile would make the browser delete those cookies, so it was not opened")

/-- The guard of `launch` on the local marker: text that is not blank must be
the key's fingerprint, and a marker that cannot be read as text passes. -/
def checkKeyMarker : DiskOp Unit := fun disk =>
  match osCryptKey agent request with
  | none => .ok () disk
  | some key =>
    match readToString disk (keyMarker agent request) with
    | none => .ok () disk
    | some text =>
      let found := trim text
      if found ≠ "" ∧ found ≠ agent.lib.keyFingerprint key then .error cookieKeyChanged disk
      else .ok () disk

/-- Unpack the server's bundle into the directory and record its version. -/
def unpackPulled (bytes : Bytes) (wrapped : String) (version : ℤ) : DiskOp Unit := do
  let _ ← unpack agent.lib bytes wrapped (launchSealer agent request) (dir agent request.id)
  recordHeld agent request.id version

/-- What `launch` does with the server's answer; the version the session then
grows from. -/
def applyFetched (fetched : Fetched) : DiskOp ℤ := fun disk =>
  match fetched with
  | .unchanged version => .ok version disk
  | .nothing => .ok 0 disk
  | .bundle bytes wrapped version =>
    if held agent request.id disk = some version then .ok version disk
    else
      match decidePull (base agent request.id disk) version with
      | .keepLocal => .ok version disk
      | .unpack => (do
          unpackPulled agent request bytes wrapped version
          pure version) disk
      | .setAsideThenUnpack => (do
          setAside agent request.id
          unpackPulled agent request bytes wrapped version
          pure version) disk

/-- The pull of `launch`: nothing without a server. -/
def pull : DiskOp ℤ := fun disk =>
  match request.server with
  | none => .ok 0 disk
  | some server =>
    match fetchBundle server (held agent request.id disk) with
    | .error e => .error e disk
    | .ok fetched => (do
        let pulledVersion ← applyFetched agent request fetched
        tryIo fun disk => removeFile disk (devToolsPort agent request)
        pure pulledVersion) disk

/-- `launch`, from making the directory to the spawn. A result is a browser
about to start on the disk as it then is. -/
def launch : DiskOp Launched := do
  io (createDirAll · (dir agent request.id))
  tryIo fun disk => removeFile disk (devToolsPort agent request)
  checkKeyMarker agent request
  let pulledVersion ← pull agent request
  pure ⟨dir agent request.id, osCryptKey agent request, pulledVersion⟩

end Launch

section Outcome

variable {agent : Agent} {request : LaunchRequest} {disk disk' ready : Disk}

/-- The disk a launch pulls into: the directory is there, the stale port file
is not, and the local marker passed. -/
def Checked (agent : Agent) (request : LaunchRequest) (disk ready : Disk) : Prop :=
  ∃ made, createDirAll disk (dir agent request.id) = some made ∧
    ready = removeFile made (devToolsPort agent request) ∧
    checkKeyMarker agent request ready = .ok () ready

/-- The launch keeps the local copy: there is no server, nothing newer on it,
or an unsent session that grew from the version on it. -/
def Keeps (agent : Agent) (request : LaunchRequest) (ready : Disk) : Prop :=
  request.server = none ∨
    ∃ server fetched, request.server = some server ∧
      fetchBundle server (held agent request.id ready) = .ok fetched ∧
      ∀ bytes wrapped version, fetched = .bundle bytes wrapped version →
        held agent request.id ready = some version ∨
          base agent request.id ready = some version

/-- The launch unpacks the archive of the server's bundle, over the local copy
or, when that was moved aside, into a new directory. -/
def Unpacks (agent : Agent) (request : LaunchRequest) (ready : Disk) (inPlace : Bool)
    (entries : List (Option TarEntry)) : Prop :=
  ∃ server bytes wrapped version target, request.server = some server ∧
    fetchBundle server (held agent request.id ready) = .ok (.bundle bytes wrapped version) ∧
    held agent request.id ready ≠ some version ∧
    (if inPlace then base agent request.id ready = none ∧ target = ready
      else (∃ b, base agent request.id ready = some b ∧ b ≠ version) ∧
        setAside agent request.id ready = .ok () target) ∧
    openBundle agent.lib bytes wrapped (launchSealer agent request) = .ok entries ∧
    ∃ n after, unpack agent.lib bytes wrapped (launchSealer agent request)
      (dir agent request.id) target = .ok n after

theorem checkKeyMarker_ok {u : Unit} (h : checkKeyMarker agent request disk = .ok u disk') :
    disk' = disk := by
  unfold checkKeyMarker at h
  split at h
  · cases h
    rfl
  · split at h
    · cases h
      rfl
    · dsimp only at h
      split at h
      · cases h
      · cases h
        rfl

/-- A launch reaches the spawn exactly when its check passes and its pull does. -/
theorem launch_ok {r : Launched} :
    launch agent request disk = .ok r disk' ↔
      ∃ ready, Checked agent request disk ready ∧
        pull agent request ready = .ok r.pulledVersion disk' ∧
        r.userDataDir = dir agent request.id ∧ r.osCryptKey = osCryptKey agent request := by
  unfold launch
  simp only [bind_ok, io_ok, tryIo_ok, pure_ok]
  constructor
  · rintro ⟨_, made, hmade, _, ready, hready, _, checked, hcheck, v, after, hpull, rfl, rfl⟩
    obtain rfl := checkKeyMarker_ok hcheck
    exact ⟨_, ⟨made, hmade, hready.symm, hcheck⟩, hpull, rfl, rfl⟩
  · rintro ⟨ready, ⟨made, hmade, rfl, hcheck⟩, hpull, hdir, hkey⟩
    refine ⟨(), made, hmade, (), _, rfl, (), _, hcheck, _, disk', hpull, ?_, rfl⟩
    cases r
    simp_all

/-- A file beside the directory is none of the files in it. -/
theorem beside_ne {id : ProfileId} {q : Path} (hq : dir agent id <+: q) (ext : String) :
    q ≠ besideProfileDir agent.dataDir id ext := by
  rintro rfl
  exact besideProfileDir_outside _ _ _ hq

theorem heldPath_ne {id : ProfileId} {q : Path} (hq : dir agent id <+: q) :
    q ≠ heldPath agent id := beside_ne hq _

theorem markerPath_ne {id : ProfileId} {q : Path} (hq : dir agent id <+: q) :
    q ≠ markerPath agent id := beside_ne hq _

/-- Recording a version changes no file of the directory. -/
theorem recordHeld_fileAt {version : ℤ} {u : Unit} {q : Path}
    (h : recordHeld agent request.id version disk = .ok u disk')
    (hq : dir agent request.id <+: q) : fileAt disk' q = fileAt disk q := by
  obtain rfl := tryIo_ok.mp h
  cases hw : writeFile disk (heldPath agent request.id) (utf8 (toString version)) with
  | none => rfl
  | some d =>
    rw [Option.getD_some, writeFile_fileAt hw, if_neg (heldPath_ne hq)]

/-- Moving the copy aside leaves no file in the directory. -/
theorem setAside_fileAt {u : Unit} {q : Path}
    (h : setAside agent request.id disk = .ok u disk') (hq : dir agent request.id <+: q) :
    fileAt disk' q = none := by
  unfold setAside clear at h
  simp only [bind_ok, io_ok, tryIo_ok, Option.getD_some] at h
  obtain ⟨_, moved, hmoved, _, cleared, rfl, rfl⟩ := h
  rw [removeFile_fileAt, if_neg (heldPath_ne hq), removeFile_fileAt, if_neg (markerPath_ne hq)]
  obtain ⟨rest, rfl⟩ := hq
  have hlen : (dir agent request.id).length ≤ (asidePath agent request.id).length := by
    simp [dir, profileDir, asidePath, besideProfileDir]
  unfold fileAt
  rw [renameDir_gone hmoved hlen rest]

/-- What a launch that unpacks leaves in the directory. -/
theorem unpackPulled_fileAt {bytes : Bytes} {wrapped : String} {version : ℤ} {u : Unit}
    {entries : List (Option TarEntry)}
    (ho : openBundle agent.lib bytes wrapped (launchSealer agent request) = .ok entries)
    (h : unpackPulled agent request bytes wrapped version disk = .ok u disk') {q : Path}
    (hq : dir agent request.id <+: q) :
    fileAt disk' q =
      (bundleFile (dir agent request.id) entries q).orElse fun _ => fileAt disk q := by
  unfold unpackPulled at h
  obtain ⟨n, after, hunpack, hrecord⟩ := bind_ok.mp h
  obtain ⟨entries', _, ho', -, -, hfiles⟩ := unpack_ok hunpack
  cases ho.symm.trans ho'
  rw [recordHeld_fileAt hrecord hq, hfiles q]

/-- A launch that keeps the local copy goes on with the files it had. -/
theorem pull_of_keeps (hk : Keeps agent request ready) :
    ∃ version after, pull agent request ready = .ok version after ∧
      ∀ q, q ≠ devToolsPort agent request → fileAt after q = fileAt ready q := by
  have tidy (q : Path) (hq : q ≠ devToolsPort agent request) :
      fileAt (removeFile ready (devToolsPort agent request)) q = fileAt ready q := by
    rw [removeFile_fileAt, if_neg hq]
  unfold pull
  rcases hk with hs | ⟨server, fetched, hs, hf, hkeep⟩
  · exact ⟨0, ready, by rw [hs], fun _ _ => rfl⟩
  simp only [hs, hf]
  have kept (v : ℤ) (hv : applyFetched agent request fetched ready = .ok v ready) :
      ∃ version after, (do
        let pulledVersion ← applyFetched agent request fetched
        tryIo fun disk => removeFile disk (devToolsPort agent request)
        pure pulledVersion : DiskOp ℤ) ready = .ok version after ∧
        ∀ q, q ≠ devToolsPort agent request → fileAt after q = fileAt ready q := by
    refine ⟨v, _, ?_, tidy⟩
    simp only [bind_ok, tryIo_ok, pure_ok]
    exact ⟨v, ready, hv, (), _, rfl, rfl, rfl⟩
  cases fetched with
  | unchanged version => exact kept version rfl
  | nothing => exact kept 0 rfl
  | bundle bytes wrapped version =>
    refine kept version ?_
    unfold applyFetched
    by_cases hh : held agent request.id ready = some version
    · simp [hh]
    · have hbase := (hkeep bytes wrapped version rfl).resolve_left hh
      simp [hh, decidePull_keepLocal_iff.mpr hbase]

/-- A launch that unpacks goes on with the bundle's files, over the local ones
when these were not moved aside. -/
theorem pull_of_unpacks {inPlace : Bool} {entries : List (Option TarEntry)}
    (hu : Unpacks agent request ready inPlace entries) :
    ∃ version after, pull agent request ready = .ok version after ∧
      ∀ q, dir agent request.id <+: q → q ≠ devToolsPort agent request →
        fileAt after q = (bundleFile (dir agent request.id) entries q).orElse fun _ =>
          if inPlace then fileAt ready q else none := by
  obtain ⟨server, bytes, wrapped, version, target, hs, hf, hh, htarget, ho, n, unpacked,
    hunpack⟩ := hu
  obtain ⟨recorded, hrecord⟩ : ∃ recorded,
      recordHeld agent request.id version unpacked = .ok () recorded := ⟨_, tryIo_ok.mpr rfl⟩
  have hpulled : unpackPulled agent request bytes wrapped version target = .ok () recorded :=
    bind_ok.mpr ⟨n, unpacked, hunpack, hrecord⟩
  have happly : applyFetched agent request (.bundle bytes wrapped version) ready =
      .ok version recorded := by
    unfold applyFetched
    cases inPlace with
    | true =>
      obtain ⟨hbase, rfl⟩ := htarget
      simp only [if_neg hh, decidePull_unpack_iff.mpr hbase]
      exact bind_ok.mpr ⟨(), recorded, hpulled, rfl⟩
    | false =>
      obtain ⟨⟨b, hb, hne⟩, haside⟩ := htarget
      simp only [if_neg hh, hb, decidePull, if_neg hne]
      exact bind_ok.mpr ⟨(), target, haside, bind_ok.mpr ⟨(), recorded, hpulled, rfl⟩⟩
  refine ⟨version, removeFile recorded (devToolsPort agent request), ?_, fun q hq hport => ?_⟩
  · unfold pull
    simp only [hs, hf, bind_ok, tryIo_ok, pure_ok]
    exact ⟨version, recorded, happly, (), _, rfl, rfl, rfl⟩
  · rw [removeFile_fileAt, if_neg hport, unpackPulled_fileAt ho hpulled hq]
    cases inPlace with
    | true =>
      obtain ⟨-, rfl⟩ := htarget
      rfl
    | false => rw [setAside_fileAt htarget.2 hq]; rfl

/-- A pull that goes through kept the local copy or unpacked the bundle. -/
theorem pull_cases {version : ℤ} (h : pull agent request ready = .ok version disk') :
    Keeps agent request ready ∨ ∃ inPlace entries, Unpacks agent request ready inPlace entries := by
  unfold pull at h
  cases hs : request.server with
  | none => exact .inl (.inl hs)
  | some server =>
    cases hf : fetchBundle server (held agent request.id ready) with
    | error e => simp [hs, hf] at h
    | ok fetched =>
      simp only [hs, hf] at h
      obtain ⟨v, applied, happly, -⟩ := bind_ok.mp h
      cases fetched with
      | unchanged _ => exact .inl (.inr ⟨server, _, hs, hf, nofun⟩)
      | nothing => exact .inl (.inr ⟨server, _, hs, hf, nofun⟩)
      | bundle bytes wrapped version =>
        unfold applyFetched at happly
        by_cases hh : held agent request.id ready = some version
        · refine .inl (.inr ⟨server, _, hs, hf, ?_⟩)
          rintro _ _ _ ⟨⟩
          exact .inl hh
        · cases hd : decidePull (base agent request.id ready) version with
          | keepLocal =>
            refine .inl (.inr ⟨server, _, hs, hf, ?_⟩)
            rintro _ _ _ ⟨⟩
            exact .inr (decidePull_keepLocal_iff.mp hd)
          | unpack =>
            simp only [if_neg hh, hd, bind_ok, unpackPulled] at happly
            obtain ⟨_, _, ⟨n, after, hunpack, -⟩, -⟩ := happly
            obtain ⟨entries, _, ho, -⟩ := unpack_ok hunpack
            exact .inr ⟨true, entries, server, bytes, wrapped, version, ready, hs, hf, hh,
              ⟨decidePull_unpack_iff.mp hd, rfl⟩, ho, n, after, hunpack⟩
          | setAsideThenUnpack =>
            simp only [if_neg hh, hd, bind_ok, unpackPulled] at happly
            obtain ⟨_, target, haside, _, _, ⟨n, after, hunpack, -⟩, -⟩ := happly
            obtain ⟨entries, _, ho, -⟩ := unpack_ok hunpack
            refine .inr ⟨false, entries, server, bytes, wrapped, version, target, hs, hf, hh,
              ⟨?_, haside⟩, ho, n, after, hunpack⟩
            cases hb : base agent request.id ready with
            | none => simp [hb, decidePull] at hd
            | some b =>
              refine ⟨b, rfl, fun hbv => ?_⟩
              simp [hb, decidePull, hbv] at hd

end Outcome

section Sample

/-- A number's last bytes, the most significant first. -/
def bytesOfNat (n : ℕ) : ℕ → Bytes
  | 0 => []
  | length + 1 => bytesOfNat (n / 256) length ++ [.ofNat (n % 256)]

/-- A profile key. -/
def sampleProfileKey : Key := .replicate 32 0x11

/-- The data key of the bundle below. -/
def sampleDataKey : Key := .replicate 32 0x33

/-- The gzipped archive of one file, `Fury Key Id`. -/
def sampleCompressed : Bytes :=
  bytesOfNat 0x1f8b0800000000000203732b2daa54f04ead54f04c61a015300002331313300d04e8b481 36 ++
  bytesOfNat 0x8111121b2c6e6e666ccca060c04007505a5c925804b492616482641303638ba4445373e3 36 ++
  bytesOfNat 0x942483448b448651300a46c128180523020000bf33c3c900080000 27

/-- The archive sealed under the data key and the nonce of 24 bytes `0x44`. -/
def sampleBody : Bytes :=
  bytesOfNat 0x072d78d430e23783907338353d7d965770afb6c86cb3e75435b0d560a114760ed059ff5d 36 ++
  bytesOfNat 0x18744e87b7b263b9bf644f4e11587fb3b801e93a9c51ce3dec0c269269f16b6368a6f6d2 36 ++
  bytesOfNat 0x5a35bd4b7bca661d57157c2e0ddca180d204856b79dc9cac21ea5a01bbf68c484aa8053a 36 ++
  bytesOfNat 0x1f7f6b2fbac900 7

/-- The data key sealed under the profile key and the nonce of 24 bytes `0x55`. -/
def sampleWrappedBody : Bytes :=
  bytesOfNat 0x6894edbc27798598b229108b093a6b25f6363d1428c4e045f186afe59e65238b702dfa5f 36 ++
  bytesOfNat 0x6a450baf8f86f56b1afcf556120bce2a278e6cf64dfc697b26120cc2a21b3ed0990b57f7 36 ++
  bytesOfNat 0x338da6ad23ac19b3 8

/-- The wrapped key in base64. -/
def sampleBase64 : String :=
  "VVVVVVVVVVVVVVVVVVVVVVVVVVVVVVVVaJTtvCd5hZiyKRCLCTprJfY2PRQoxOBF8Yav5Z5lI4twLfpfakULr4+G" ++
    "9Wsa/PVWEgvOKieObPZN/Gl7JhIMwqIbPtCZC1f3M42mrSOsGbM="

/-- The cookie key derived from the profile key. -/
def sampleOsCryptKey : Key :=
  bytesOfNat 0xb6ab4591a927be898571f4cab97c3c7b1a07e029718dd762d714f4a9400c06e6 32

/-- The cookie key of the same profile under another organisation key. -/
def sampleOldOsCryptKey : Key :=
  bytesOfNat 0xcfe8de3671af4a4a6083334d0ec0c084ad9178c50d72703240635db8273230e8 32

/-- The archive's one file: the fingerprint of the other organisation's cookie key. -/
def sampleEntry : TarEntry :=
  ⟨false, [.normal "Fury Key Id"], true, some (utf8 "c4038ba573db0a8a")⟩

/-- The libraries on the values above: what they compute there, and no key, no
text and no archive anywhere else. -/
def sampleLibrary : SealLibrary where
  decrypt key nonce body :=
    if key = sampleDataKey ∧ nonce = .replicate 24 0x44 ∧ body = sampleBody then
      some sampleCompressed
    else if key = sampleProfileKey ∧ nonce = .replicate 24 0x55 ∧ body = sampleWrappedBody then
      some (utf8 "3333333333333333333333333333333333333333333333333333333333333333")
    else none
  base64Decode text :=
    if text = utf8 sampleBase64 then some (.replicate 24 0x55 ++ sampleWrappedBody) else none
  readArchive compressed :=
    if compressed = sampleCompressed then some [some sampleEntry] else none
  subkey key label id :=
    if key = sampleProfileKey ∧ label = "fury-oscrypt-v1" ∧
        id = "7f9c2ba4-e88f-4276-9d5e-0b1c6a3d4e5f" then sampleOsCryptKey
    else []
  keyFingerprint key :=
    if key = sampleOsCryptKey then "03264ef07abb6bf4"
    else if key = sampleOldOsCryptKey then "c4038ba573db0a8a"
    else ""

/-- An agent with no machine key. -/
def sampleAgent : Agent where
  lib := sampleLibrary
  readMarker _ := none
  writeMarker _ := []
  dataDir := ["fury"]
  vault := ⟨none⟩
  now := 1760000000

/-- A team profile, launched with a cookie key carried over or none, whose server
answers with the bundle above as some version. -/
def sampleRequest (cookieKey : Option Key) (version : String) : LaunchRequest where
  id := ⟨"7f9c2ba4-e88f-4276-9d5e-0b1c6a3d4e5f", by decide⟩
  team := some ⟨sampleProfileKey, cookieKey⟩
  server := some fun _ => some
    { status := 200, wrappedKey := some (sharedPrefix ++ sampleBase64), version := some version,
      answeredBy := none, body := some (magic ++ .replicate 24 0x44 ++ sampleBody) }

end Sample

end FuryBrowser.LaunchPull
