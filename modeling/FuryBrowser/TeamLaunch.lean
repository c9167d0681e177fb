import FuryBrowser.GuardedRuns
import FuryBrowser.Permissions
import FuryBrowser.RowTable

/-!
# Opening a team profile

Three programs have a part in it. The server resolves what somebody may do with the profile,
and answers with the lock the restrictions that follow from it. The shell takes the lock and
hands the profile to the agent. The agent starts the browser, with the restrictions it knows.

A browser is closed by its window or by the agent. Its directory stays on the machine.
-/

namespace FuryBrowser.TeamLaunch

open RowTable Permissions

/-- `LaunchRestrictions`. -/
structure LaunchRestrictions where
  /-- No debugging endpoint is handed out. -/
  denyCdp : Bool
  /-- Developer tools are locked. -/
  lockDevtools : Bool
  /-- Passwords and bookmarks cannot be exported. -/
  lockDataExport : Bool
  /-- The local copy is wiped on exit. -/
  wipeOnExit : Bool
  /-- Credentials are only filled in. -/
  autofillOnly : Bool
  deriving DecidableEq, Repr

/-- `LaunchRestrictions::for_perms`. -/
def forPerms (p : PermSet) : LaunchRestrictions where
  denyCdp := !p.has .exportCookies
  lockDevtools := !p.has .exportCookies
  lockDataExport := !p.has .exportCookies
  wipeOnExit := !p.has .exportCookies
  autofillOnly := !p.has .revealSecrets

/-- `PermSet::full_profile_work`. -/
def fullProfileWork : PermSet :=
  PermSet.fromIter [.view, .launch, .editProfile, .editFingerprint, .editProxy, .revealSecrets,
    .exportCookies, .createProfile]

section Server

/-- What a profile is launched from, as far as the browser is told. -/
structure Spec where
  /-- The pages it starts with. -/
  startUrls : List String
  deriving DecidableEq, Repr

/-- What the server grants. -/
structure LockGrant where
  restrictions : LaunchRestrictions
  spec : Spec
  deriving DecidableEq, Repr

/-- `acquire_lock`: what is resolved has to allow it, the profile to be ready for a launch and
the lock to be free, or taken over. -/
def acquireLock (perms : PermSet) (force free : Bool) (spec : Option Spec) : Option LockGrant :=
  if perms.has .launch && (!force || perms.has .manageAccess) then
    spec.bind fun spec => if free || force then some ⟨forPerms perms, spec⟩ else none
  else none

end Server

section Agent

/-- `launcher::LaunchSpec`, as far as restrictions come into it. -/
structure LaunchSpec where
  /-- The switches that every launch has. -/
  common : List String
  restrictions : LaunchRestrictions
  /-- The pages it starts with. -/
  startUrls : List String
  debugPort : Option ℕ
  deriving DecidableEq, Repr

/-- `build_args`. -/
def buildArgs (spec : LaunchSpec) : List String :=
  spec.common ++ (if spec.restrictions.lockDevtools then ["--fury-lock-devtools"] else []) ++
    (if spec.restrictions.lockDataExport then ["--fury-lock-data-export"] else []) ++
    (match spec.debugPort with
      | some p =>
        if spec.restrictions.denyCdp then []
        else ["--remote-debugging-port=" ++ toString p, "--remote-allow-origins=*"]
      | none => []) ++
    spec.startUrls

/-- A browser that the agent has started. -/
structure Running where
  profile : ℕ
  /-- For a team profile, what the server resolved for whoever opened it. -/
  perms : Option PermSet
  /-- What it was started from. -/
  spec : LaunchSpec
  /-- `ws_endpoint`, which is handed out. -/
  endpoint : Option ℕ
  alive : Bool
  deriving DecidableEq, Repr

/-- The directory of a team profile that is not open. -/
structure Copy where
  profile : ℕ
  /-- What it was last opened with. -/
  perms : PermSet
  deriving DecidableEq, Repr

/-- The agent. -/
structure Agent where
  running : List Running
  /-- The profiles of this machine, in its store. -/
  stored : List (ℕ × Spec)
  /-- Directories that closed team profiles have left. -/
  copies : List Copy
  deriving DecidableEq, Repr

/-- What a launch meets on this machine. -/
structure Machine where
  /-- Core, persona, proxy and bundle are as they must be. -/
  ready : Bool
  /-- The switches that every launch has. -/
  common : List String
  /-- The port the browser has written down, if it has in time. -/
  port : Option ℕ
  deriving DecidableEq, Repr

/-- What `profile.launch` is asked, as far as it decides anything here. -/
structure LaunchParams where
  profile : ℕ
  /-- `profile`: a team profile comes along, with what was resolved for it. -/
  inline : Option (PermSet × Spec)
  /-- The debugging port is asked for. -/
  cdp : Bool
  deriving DecidableEq, Repr

namespace Agent

variable (a : Agent) (profile : ℕ)

/-- The entry of a profile. -/
def entry : Option Running := lookup Running.profile a.running profile

/-- `stop`: the entry goes, and the directory of a team profile stays. -/
def stop : Agent :=
  match a.entry profile with
  | none => a
  | some r =>
    { a with
      running := deleteWhere (fun r => r.profile = profile) a.running
      copies := match r.perms with
        | none => a.copies
        | some perms => put Copy.profile ⟨profile, perms⟩ a.copies }

/-- The browser's window is closed. -/
def exits : Agent :=
  { a with running :=
      updateWhere (fun r => r.profile = profile) (fun r => { r with alive := false }) a.running }

/-- The restrictions of every launch. -/
def restrictions : LaunchRestrictions := forPerms fullProfileWork

/-- The browser that `launch` starts. -/
def browser (m : Machine) (q : LaunchParams) (spec : Spec) : Running :=
  let wantsCdp := q.cdp && !restrictions.denyCdp
  ⟨q.profile, q.inline.map Prod.fst,
    ⟨m.common, restrictions, spec.startUrls, if wantsCdp then some 0 else none⟩,
    if wantsCdp then m.port else none, true⟩

/-- `launch`. A profile that is open is refused; an entry whose browser is gone is stopped
first. -/
def launch (m : Machine) (q : LaunchParams) : Option Agent :=
  if (a.entry q.profile).any Running.alive then none
  else
    let a := a.stop q.profile
    let spec := match q.inline with
      | some (_, spec) => some spec
      | none => (lookup Prod.fst a.stored q.profile).map Prod.snd
    spec.bind fun spec =>
      if m.ready then
        some { a with
          running := browser m q spec :: a.running
          copies := deleteWhere (fun c => c.profile = q.profile) a.copies }
      else none

/-- What warming, mirroring, a farming session and a cookie exchange do first: a browser that
is not open is launched from the store, with its debugging port. -/
def ensureOpen (m : Machine) : Option Agent :=
  if (a.entry profile).isSome then some a else a.launch m ⟨profile, none, true⟩

/-- A cookie exchange closes what it has opened. -/
def exchangesCookies (m : Machine) : Option Agent :=
  if (a.entry profile).isSome then some a
  else (a.launch m ⟨profile, none, true⟩).map fun a => a.stop profile

end Agent

end Agent

section Shell

/-- What the shell meets. -/
structure Meets where
  free : Bool
  /-- What the server has of the profile, if it can be launched. -/
  spec : Option Spec
  /-- The organisation key is here and opens what came with the lock. -/
  unsealed : Bool
  machine : Machine
  deriving DecidableEq, Repr

/-- `take_and_launch`. -/
def takeAndLaunch (a : Agent) (profile : ℕ) (perms : PermSet) (force cdp : Bool) (m : Meets) :
    Option Agent :=
  (acquireLock perms force m.free m.spec).bind fun grant =>
    if cdp && grant.restrictions.denyCdp then none
    else if m.unsealed then a.launch m.machine ⟨profile, some (perms, grant.spec), cdp⟩
    else none

/-- `warm_start` for a team profile, which a farming session goes through as well: one that is
open here is left to the agent. -/
def warmStart (a : Agent) (profile : ℕ) (perms : PermSet) (m : Meets) : Option Agent :=
  if (a.entry profile).isSome then some a else takeAndLaunch a profile perms false true m

end Shell

/-- What can happen next. -/
inductive Label where
  | opens (profile : ℕ) (perms : PermSet) (force : Bool) (m : Meets)
  /-- A warm-up or a farming session. -/
  | warms (profile : ℕ) (perms : PermSet) (m : Meets)
  /-- The agent is to warm or mirror a profile, and opens it. -/
  | drives (profile : ℕ) (m : Machine)
  | exchanges (profile : ℕ) (m : Machine)
  /-- Somebody calls `profile.launch` with what a grant has given them. -/
  | calls (q : LaunchParams) (m : Machine)
  | exits (profile : ℕ)
  /-- `profile.stop`, or the agent has found the browser gone. -/
  | stops (profile : ℕ)
  deriving DecidableEq, Repr

/-- One step; none when nothing is started. -/
def step (a : Agent) : Label → Option Agent
  | .opens profile perms force m => takeAndLaunch a profile perms force false m
  | .warms profile perms m => warmStart a profile perms m
  | .drives profile m => a.ensureOpen profile m
  | .exchanges profile m => a.exchangesCookies profile m
  | .calls q m => a.launch m q
  | .exits profile => some (a.exits profile)
  | .stops profile => some (a.stop profile)

end FuryBrowser.TeamLaunch
