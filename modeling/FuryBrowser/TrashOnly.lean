import FuryBrowser.TeamTables

/-!
# Emptying the trash

What is stored of a profile is a row, a row for each bundle, and a directory of files beside
the database. `purge_profile` removes the directory, and then deletes the row if it is in the
trash, with everything that refers to it. It can stop after any of its statements, and a
directory can go in part.

On a profile in the trash success leaves nothing of it. The directory goes whether or not the
profile is there.
-/

namespace FuryBrowser.TrashPurge

open RowTable Permissions TeamTables

/-- A row of `bundles`. -/
structure Bundle where
  profile : ℕ
  version : ℤ
  /-- `s3_key`, beneath the profile's directory. -/
  file : String
  /-- `wrapped_dek`. -/
  wrapped : List UInt8
  deriving DecidableEq, Repr

/-- A file of a bundle, complete or not. -/
structure BundleFile where
  /-- The profile whose directory it is in. -/
  profile : ℕ
  name : String
  body : List UInt8
  deriving DecidableEq, Repr

/-- What a server stores. -/
structure Server where
  /-- Persons, projects, profiles and grants. -/
  team : Db
  /-- The primary key of `profiles`. -/
  profileIds : KeyUnique Profile.id team.profiles
  bundles : List Bundle
  /-- The profiles that have a directory. -/
  dirs : List ℕ
  files : List BundleFile
  /-- A file is in a directory. -/
  inDirs : ∀ f ∈ files, f.profile ∈ dirs

/-- What a call meets on its way. -/
structure Meets where
  /-- `require_step_up` is satisfied. -/
  steppedUp : Bool
  /-- Its questions to the database are answered. -/
  answered : Bool
  /-- `remove_dir_all` stops with an error, and leaves the files of these names. -/
  stops : Option (List String)
  /-- The `DELETE` is not answered, and was applied or not. -/
  lost : Option Bool
  /-- The audit entry is written. -/
  audited : Bool
  deriving DecidableEq, Repr

/-- What a call answers. -/
inductive Answer where
  | purged
  /-- A fresh code is asked for. -/
  | stepUp
  /-- `ApiError::NotFound`. -/
  | notFound
  /-- `ApiError::Denied`. -/
  | denied (p : Perm)
  /-- `ApiError::Internal`. -/
  | internal
  deriving DecidableEq, Repr

namespace Server

variable (s : Server) (user profile : ℕ)

/-- The row of a profile that the caller sees, in the trash or not. -/
def row : Option Profile := (s.team.profile profile).filter fun p => s.team.sees user p.id

/-- Its rows of `bundles`. -/
def bundlesOf : List Bundle := s.bundles.filter fun b => b.profile = profile

/-- Its files. -/
def filesOf : List BundleFile := s.files.filter fun f => f.profile = profile

/-- `remove_dir_all` of the profile's directory, if there is one; and whether it has gone
through. -/
def removeDir (stops : Option (List String)) : Server × Bool :=
  if profile ∈ s.dirs then
    match stops with
    | none =>
      ({ s with
          dirs := deleteWhere (fun d => d = profile) s.dirs
          files := deleteWhere (fun f => f.profile = profile) s.files
          inDirs := fun f hf => by
            obtain ⟨hin, hne⟩ := mem_deleteWhere.mp hf
            exact mem_deleteWhere.mpr ⟨s.inDirs f hin, hne⟩ }, true)
    | some left =>
      ({ s with
          files := deleteWhere (fun f => f.profile = profile && f.name ∉ left) s.files
          inDirs := fun f hf => s.inDirs f (mem_deleteWhere.mp hf).1 }, false)
  else (s, true)

/-- `DELETE FROM profiles WHERE id = $1 AND deleted_at IS NOT NULL`, as far as the caller sees,
with the bundles, shares and locks that refer to the row. -/
def deleteRow : Server :=
  if (s.row user profile).any Profile.deleted then
    { s with
      team := { s.team with
        profiles := deleteWhere (fun p => p.id = profile) s.team.profiles
        profileGrants := deleteWhere (fun g => g.profile = profile) s.team.profileGrants
        locks := deleteWhere (fun l => l.profile = profile) s.team.locks }
      profileIds := s.profileIds.deleteWhere
      bundles := deleteWhere (fun b => b.profile = profile) s.bundles }
  else s

end Server

/-- `rbac_guard::require`. -/
def require (db : Db) (user project : ℕ) (p : Perm) : Option Answer :=
  let perms := db.permissionsFor user project
  if perms = PermSet.none then some .notFound
  else if perms.has p then none
  else some (.denied p)

/-- The part of `purge_profile` that destroys. -/
def destroy (s : Server) (user profile : ℕ) (m : Meets) : Server × Answer :=
  match s.removeDir profile m.stops with
  | (s, false) => (s, .internal)
  | (s, true) =>
    match m.lost with
    | some applied => (if applied then s.deleteRow user profile else s, .internal)
    | none => (s.deleteRow user profile, if m.audited then .purged else .internal)

/-- `purge_profile`. -/
def purgeProfile (s : Server) (user profile : ℕ) (m : Meets) : Server × Answer :=
  if !m.steppedUp then (s, .stepUp)
  else if !m.answered then (s, .internal)
  else match s.row user profile with
    | none => (s, .notFound)
    | some p =>
      match require s.team user p.project .deleteProfile with
      | some refused => (s, refused)
      | none => destroy s user profile m

/-- What `download_bundle` answers. -/
inductive Download where
  /-- `ApiError::NotFound`. -/
  | notFound
  /-- `ApiError::Denied`. -/
  | denied (p : Perm)
  /-- The caller holds this version already. -/
  | notModified (version : ℤ)
  | bundle (version : ℤ) (wrapped body : List UInt8)
  /-- The database has this version, and the disk has not. -/
  | missing (version : ℤ)
  deriving DecidableEq, Repr

/-- `ORDER BY version DESC LIMIT 1`. -/
def newest : List Bundle → Option Bundle
  | [] => none
  | b :: bundles =>
    match newest bundles with
    | none => some b
    | some c => if c.version < b.version then some b else some c

/-- The tag of a version, as the agent writes it too. -/
def etag (version : ℤ) : String := "\"v" ++ toString version ++ "\""

/-- `download_bundle`, with the tags the caller says it holds. -/
def downloadBundle (s : Server) (user profile : ℕ) (held : List String) : Download :=
  let perms := s.team.permissionsForProfile user profile
  if perms = PermSet.none then .notFound
  else if perms.has .launch then
    match newest ((s.bundlesOf profile).filter fun b => s.team.sees user b.profile) with
    | none => .notFound
    | some b =>
      if etag b.version ∈ held then .notModified b.version
      else match s.files.find? fun f => f.profile = b.profile && f.name = b.file with
        | none => .missing b.version
        | some f => .bundle b.version b.wrapped f.body
  else .denied .launch

end FuryBrowser.TrashPurge

/-!
## A purge and the trash

`purge_profile` keeps the row and the bundles of a profile that is not in the trash, but not
its files. It touches nothing but the trash as long as it is not asked about such a profile, or
is refused before it destroys anything, or finds no file to remove. What it leaves of a live
profile cannot be downloaded any more.
-/

namespace FuryBrowser.TrashOnly

open RowTable Permissions TeamTables TrashPurge

variable (s : Server) (user profile : ℕ) (m : Meets)

/-- What a purge may do. -/
structure OnlyTrash : Prop where
  /-- A profile that is not in the trash keeps its row, its bundles and its files. -/
  live : ∀ p, s.team.liveProfile profile = some p →
    (purgeProfile s user profile m).1.team.profile profile = some p ∧
      (purgeProfile s user profile m).1.bundlesOf profile = s.bundlesOf profile ∧
      (purgeProfile s user profile m).1.filesOf profile = s.filesOf profile
  /-- Success leaves nothing of one that is. -/
  trashed : ∀ p, s.team.profile profile = some p → p.deleted = true →
    (purgeProfile s user profile m).2 = .purged →
      (purgeProfile s user profile m).1.team.profile profile = none ∧
        (purgeProfile s user profile m).1.bundlesOf profile = [] ∧
        (purgeProfile s user profile m).1.filesOf profile = []

/-- The call gets as far as to destroy something. -/
structure Reaches (p : Profile) : Prop where
  /-- A fresh code, or none is needed. -/
  steppedUp : m.steppedUp = true
  answered : m.answered = true
  row : s.row user profile = some p
  /-- The caller may delete in its project. -/
  allowed : require s.team user p.project .deleteProfile = none

/-- A call about a profile that is not in the trash is refused, or removes no file. -/
def Spared : Prop :=
  ∀ p, Reaches s user profile m p → p.deleted = false → ∀ f ∈ s.filesOf profile,
    ∃ left, m.stops = some left ∧ f.name ∈ left

section Steps

variable {s} {user profile} {m} {p : Profile} {stops : Option (List String)}

theorem removeDir_same : (s.removeDir profile stops).1.team = s.team ∧
    (s.removeDir profile stops).1.bundles = s.bundles := by
  unfold Server.removeDir
  split
  · cases stops <;> exact ⟨rfl, rfl⟩
  · exact ⟨rfl, rfl⟩

/-- A profile without a directory has no files. -/
theorem filesOf_nil (h : profile ∉ s.dirs) : s.filesOf profile = [] := by
  refine List.filter_eq_nil_iff.mpr fun f hf heq => h ?_
  rw [← of_decide_eq_true heq]
  exact s.inDirs f hf

/-- Which files are left of a directory. -/
theorem removeDir_files : (s.removeDir profile stops).1.filesOf profile =
    (s.filesOf profile).filter fun f => stops.any fun left => f.name ∈ left := by
  by_cases hdir : profile ∈ s.dirs
  · unfold Server.removeDir
    rw [if_pos hdir]
    unfold Server.filesOf deleteWhere
    cases stops with
    | none => simp [List.filter_filter]
    | some left =>
      simp only [List.filter_filter, Option.any_some]
      refine List.filter_congr fun f _ => ?_
      by_cases hf : f.profile = profile <;> simp [hf]
  · unfold Server.removeDir
    rw [if_neg hdir, filesOf_nil hdir]
    rfl

/-- A directory that goes through is gone. -/
theorem removeDir_gone (h : (s.removeDir profile stops).2 = true) :
    (s.removeDir profile stops).1.filesOf profile = [] := by
  by_cases hdir : profile ∈ s.dirs
  · cases stops with
    | none =>
      rw [removeDir_files]
      exact List.filter_eq_nil_iff.mpr fun _ _ hleft => by cases hleft
    | some left =>
      unfold Server.removeDir at h
      rw [if_pos hdir] at h
      cases h
  · rw [removeDir_files, filesOf_nil hdir]
    rfl

/-- A row that is not in the trash stays. -/
theorem deleteRow_live (h : s.team.liveProfile profile = some p) :
    s.deleteRow user profile = s := by
  unfold Server.deleteRow
  refine if_neg fun hdeleted => ?_
  obtain ⟨p', hp', hdeleted⟩ := (Option.any_eq_true ..).mp hdeleted
  obtain ⟨hprofile, hlive⟩ := Option.filter_eq_some_iff.mp h
  have hsame : p' = p :=
    Option.some.inj ((Option.filter_eq_some_iff.mp hp').1.symm.trans hprofile)
  rw [hsame] at hdeleted
  simp [hdeleted] at hlive

/-- One that is goes, and its bundles with it. The files are not its concern. -/
theorem deleteRow_trashed (h : s.row user profile = some p) (hdeleted : p.deleted = true) :
    (s.deleteRow user profile).team.profile profile = none ∧
      (s.deleteRow user profile).bundlesOf profile = [] ∧
      (s.deleteRow user profile).filesOf profile = s.filesOf profile := by
  have hany : (s.row user profile).any Profile.deleted = true := by
    rw [h]
    exact hdeleted
  unfold Server.deleteRow
  rw [if_pos hany]
  refine ⟨List.find?_eq_none.mpr fun q hq => ?_, List.filter_eq_nil_iff.mpr fun b hb => ?_, rfl⟩
  · simpa using (mem_deleteWhere.mp hq).2
  · simpa using (mem_deleteWhere.mp hb).2

theorem purge_reaches (h : Reaches s user profile m p) :
    purgeProfile s user profile m = destroy s user profile m := by
  unfold purgeProfile
  rw [h.steppedUp, h.answered, h.row]
  simp only [Bool.not_true, Bool.false_eq_true, if_false, h.allowed]

/-- Whoever is refused has changed nothing. -/
theorem purge_refused (h : ∀ p, ¬ Reaches s user profile m p) :
    (purgeProfile s user profile m).1 = s ∧ (purgeProfile s user profile m).2 ≠ .purged := by
  unfold purgeProfile
  split
  · exact ⟨rfl, fun heq => by cases heq⟩
  next hstepped =>
  split
  · exact ⟨rfl, fun heq => by cases heq⟩
  next hanswered =>
  cases hrow : s.row user profile with
  | none => exact ⟨rfl, fun heq => by cases heq⟩
  | some p =>
    cases hallowed : require s.team user p.project .deleteProfile with
    | none => exact absurd ⟨by simpa using hstepped, by simpa using hanswered, hrow, hallowed⟩ (h p)
    | some refused =>
      simp only [hallowed, true_and]
      rintro rfl
      simp only [require] at hallowed
      split at hallowed
      · cases hallowed
      · split at hallowed <;> cases hallowed

/-- Of a live profile a purge keeps what is in the database, and files that it has not come to. -/
theorem destroy_live (h : s.team.liveProfile profile = some p) :
    (destroy s user profile m).1 = (s.removeDir profile m.stops).1 := by
  have hkept : (s.removeDir profile m.stops).1.deleteRow user profile =
      (s.removeDir profile m.stops).1 := by
    refine deleteRow_live (p := p) ?_
    rw [removeDir_same.1]
    exact h
  unfold destroy
  split
  next s' heq => rw [heq]
  next s' heq =>
    rw [heq] at hkept ⊢
    cases m.lost with
    | none => exact hkept
    | some applied => cases applied <;> simp [hkept]

/-- Of a profile in the trash a success leaves nothing. -/
theorem destroy_trashed (h : s.row user profile = some p) (hdeleted : p.deleted = true)
    (hpurged : (destroy s user profile m).2 = .purged) :
    (destroy s user profile m).1.team.profile profile = none ∧
      (destroy s user profile m).1.bundlesOf profile = [] ∧
      (destroy s user profile m).1.filesOf profile = [] := by
  have hrow : (s.removeDir profile m.stops).1.row user profile = some p := by
    unfold Server.row
    rw [removeDir_same.1]
    exact h
  have hgone : (s.removeDir profile m.stops).2 = true →
      (s.removeDir profile m.stops).1.filesOf profile = [] := removeDir_gone
  unfold destroy at hpurged ⊢
  split at hpurged
  · cases hpurged
  next s' heq =>
    rw [heq] at hrow hgone
    split at hpurged
    · cases hpurged
    next hlost =>
      obtain ⟨hprofile, hbundles, hfiles⟩ := deleteRow_trashed hrow hdeleted
      dsimp only
      exact ⟨hprofile, hbundles, hfiles.trans (hgone rfl)⟩

end Steps

/-- A purge touches nothing but the trash exactly when it is not asked about a profile that is
not there, or is refused, or removes no file. -/
theorem purge_touches_trash (s : Server) (user profile : ℕ) (m : Meets) :
    OnlyTrash s user profile m ↔ Spared s user profile m := by
  constructor
  · intro h p hreach hlive f hf
    have hprofile : s.team.liveProfile profile = some p :=
      Option.filter_eq_some_iff.mpr ⟨(Option.filter_eq_some_iff.mp hreach.row).1, by simp [hlive]⟩
    have hkept := (h.live p hprofile).2.2
    rw [purge_reaches hreach, destroy_live hprofile, removeDir_files] at hkept
    rw [← hkept] at hf
    obtain ⟨left, hstops, hname⟩ := (Option.any_eq_true ..).mp (List.mem_filter.mp hf).2
    exact ⟨left, hstops, of_decide_eq_true hname⟩
  · intro h
    by_cases hreach : ∃ p, Reaches s user profile m p
    · obtain ⟨p, hreach⟩ := hreach
      have hrow := (Option.filter_eq_some_iff.mp hreach.row).1
      refine ⟨fun q hq => ?_, fun q hq hdeleted hpurged => ?_⟩
      · obtain ⟨hprofile, hlive⟩ := Option.filter_eq_some_iff.mp hq
        have hsame : q = p := Option.some.inj (hprofile.symm.trans hrow)
        rw [purge_reaches hreach, destroy_live hq, removeDir_files]
        unfold Server.bundlesOf
        rw [removeDir_same.1, removeDir_same.2]
        refine ⟨hprofile, rfl, List.filter_eq_self.mpr fun f hf => ?_⟩
        obtain ⟨left, hstops, hname⟩ := h p hreach (by simpa [hsame] using hlive) f hf
        rw [hstops]
        exact decide_eq_true hname
      · have hsame : q = p := Option.some.inj (hq.symm.trans hrow)
        rw [purge_reaches hreach] at hpurged ⊢
        exact destroy_trashed hreach.row (hsame ▸ hdeleted) hpurged
    · obtain ⟨hsame, hnot⟩ := purge_refused (not_exists.mp hreach)
      refine ⟨fun q hq => ?_, fun q _ _ hpurged => absurd hpurged hnot⟩
      rw [hsame]
      exact ⟨(Option.filter_eq_some_iff.mp hq).1, rfl, rfl⟩

section Downloads

variable {s : Server} {user profile : ℕ} {m : Meets} {p : Profile}

theorem newest_mem {bundles : List Bundle} {b : Bundle} (h : newest bundles = some b) :
    b ∈ bundles := by
  induction bundles generalizing b with
  | nil => cases h
  | cons c bundles ih =>
    simp only [newest] at h
    cases hrest : newest bundles with
    | none =>
      rw [hrest] at h
      cases h
      exact List.mem_cons_self
    | some d =>
      rw [hrest] at h
      by_cases hlt : d.version < c.version
      · simp only [hlt, if_true, Option.some.injEq] at h
        exact h ▸ List.mem_cons_self
      · simp only [hlt, if_false, Option.some.injEq] at h
        exact List.mem_cons_of_mem _ (ih (hrest.trans (congrArg some h)))

/-- A live profile whose directory a purge has removed is still there to everybody, and every
download that brought its bundle finds it missing. -/
theorem purged_live_missing (h : Reaches s user profile m p) (hlive : p.deleted = false)
    (hstops : m.stops = none) (user' : ℕ) (held : List String) :
    downloadBundle (purgeProfile s user profile m).1 user' profile held =
      match downloadBundle s user' profile held with
      | .bundle version _ _ => .missing version
      | other => other := by
  have hprofile : s.team.liveProfile profile = some p :=
    Option.filter_eq_some_iff.mpr ⟨(Option.filter_eq_some_iff.mp h.row).1, by simp [hlive]⟩
  have hfiles : (s.removeDir profile m.stops).1.filesOf profile = [] := by
    rw [removeDir_files, hstops]
    exact List.filter_eq_nil_iff.mpr fun _ _ hleft => by cases hleft
  have hmissing : ∀ b ∈ s.bundlesOf profile, (s.removeDir profile m.stops).1.files.find?
      (fun f => f.profile = b.profile && f.name = b.file) = none := by
    intro b hb
    refine List.find?_eq_none.mpr fun f hf heq => ?_
    have hb : b.profile = profile := of_decide_eq_true (List.mem_filter.mp hb).2
    rw [Bool.and_eq_true, hb] at heq
    exact List.filter_eq_nil_iff.mp hfiles f hf heq.1
  have hbundles : (s.removeDir profile m.stops).1.bundlesOf profile = s.bundlesOf profile := by
    unfold Server.bundlesOf
    rw [removeDir_same.2]
  rw [purge_reaches h, destroy_live hprofile]
  simp only [downloadBundle, removeDir_same.1, hbundles]
  split
  · rfl
  split
  · cases hnewest : newest ((s.bundlesOf profile).filter fun b => s.team.sees user' b.profile) with
    | none => rfl
    | some b =>
      have hb : b ∈ s.bundlesOf profile := (List.mem_filter.mp (newest_mem hnewest)).1
      simp only [hmissing b hb]
      split
      · rfl
      · cases s.files.find? fun f => f.profile = b.profile && f.name = b.file <;> rfl
  · rfl

end Downloads

/-- A profile with one bundle. -/
def storing : Server where
  team :=
    { now := 0, users := 1, orgs := [⟨7, 1⟩], members := [⟨0, 7, .owner⟩], sessions := [],
      projects := [⟨10, 7, false⟩], profiles := [⟨20, 7, 10, false⟩], projectGrants := [],
      profileGrants := [], accessRoles := [], domainLists := [], locks := [], fresh := 30 }
  profileIds := by
    unfold KeyUnique
    decide
  bundles := [⟨20, 1, "1.bundle", []⟩]
  dirs := [20]
  files := [⟨20, "1.bundle", [0]⟩]
  inDirs := by decide

/-- Its owner purges it while it is live, and asks for the bundle. -/
theorem purged_live_missing_storing :
    downloadBundle storing 0 20 [] = .bundle 1 [] [0] ∧
      downloadBundle (purgeProfile storing 0 20 ⟨true, true, none, none, true⟩).1 0 20 [] =
        .missing 1 := by
  have hreaches : Reaches storing 0 20 ⟨true, true, none, none, true⟩ ⟨20, 7, 10, false⟩ :=
    ⟨rfl, rfl, by decide, by decide⟩
  have hbefore : downloadBundle storing 0 20 [] = .bundle 1 [] [0] := by decide
  refine ⟨hbefore, (purged_live_missing hreaches rfl rfl 0 []).trans ?_⟩
  rw [hbefore]

/-- Purged without having been in the trash. -/
theorem purge_destroys_live : ¬ ∀ (s : Server) (user profile : ℕ) (m : Meets),
    OnlyTrash s user profile m := by
  intro hall
  have hkept := ((hall storing 0 20 ⟨true, true, none, none, true⟩).live ⟨20, 7, 10, false⟩
    (by decide)).2.2
  exact absurd hkept (by decide)

end FuryBrowser.TrashOnly
