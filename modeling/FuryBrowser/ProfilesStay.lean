import FuryBrowser.BundleRoundTrip
import FuryBrowser.GuardedRuns
import FuryBrowser.LocalStore

/-!
# Profiles stay

A profile is months of a warmed account. Over every sequence of commands its row stays, with its
seed, and a project or a proxy that is deleted takes no profile with it. Deleting a project takes
its profiles out of it first; what a later command files into it again is the exception.
-/

namespace FuryBrowser.ProfilesStay

open RowTable GuardedRuns AgentDisk BundleUnpack BundlePack BundleRoundTrip
  LocalStore

variable {ω : Type}

/-- What the window asks of the store, with what the store draws for it. -/
inductive Command (ω : Type)
  | createProject (new name notes : String)
  | renameProject (id name notes : String)
  | deleteProject (id : String)
  /-- `upsert_proxy`, by the vault as it is then. -/
  | upsertProxy (vault : Vault) (new : String) (nonces : Bytes × Bytes) (p : Proxy)
  | recordExit (id : String) (ip country timezone location : Option String)
  | deleteProxy (id : String)
  | upsertProfile (new : String) (seed : ℤ) (p : Profile ω)
  | moveProfiles (ids : List String) (project : Option String)
  | reseedProfile (id : String) (seed : ℤ)
  | deleteProfile (id : String)
  | restoreProfile (id : String)
  | touchOpened (id now : String)

/-- The tables after a command, when they accept it. -/
def answer (lib : PackLibrary) (db : Db ω) : Command ω → Option (Db ω)
  | .createProject new name notes =>
    if db.projects.any fun p => p.id = new then none else some (db.createProject new name notes)
  | .renameProject id name notes => some (db.renameProject id name notes)
  | .deleteProject id => some (db.deleteProject id)
  | .upsertProxy vault new nonces p => some (db.upsertProxy lib vault new nonces p).2
  | .recordExit id ip country timezone location =>
    some (db.recordExit id ip country timezone location)
  | .deleteProxy id => some (db.deleteProxy id)
  | .upsertProfile new seed p => (db.upsertProfile new seed p).map Prod.snd
  | .moveProfiles ids project => db.moveProfiles ids project
  | .reseedProfile id seed => db.reseedProfile id seed
  | .deleteProfile id => some (db.deleteProfile id)
  | .restoreProfile id => some (db.restoreProfile id)
  | .touchOpened id now => some (db.touchOpened id now)

/-- The tables of a fresh installation. -/
def fresh : Db ω := ⟨[], [], [], []⟩

/-- The project is in the tables, deleted. -/
def Gone (db : Db ω) (id : String) : Prop :=
  ∃ p ∈ db.projects, p.id = id ∧ p.deleted = true

instance (db : Db ω) (id : String) : Decidable (Gone db id) :=
  inferInstanceAs (Decidable (∃ p ∈ db.projects, p.id = id ∧ p.deleted = true))

/-- Every profile that is not in the trash is in the list of all. -/
def AllListed (db : Db ω) : Prop :=
  ∀ f ∈ db.profiles, f.deleted = false → ∃ p ∈ db.profilesList none, p.id = f.id

/-- And none of them is in a project that was deleted. -/
def NoneInGone (db : Db ω) : Prop :=
  ∀ f ∈ db.profiles, f.deleted = false → ∀ id, f.projectId = some id → ¬Gone db id

/-- The command deletes a project or a proxy. -/
def Command.deletesFolder : Command ω → Bool
  | .deleteProject _ | .deleteProxy _ => true
  | _ => false

/-- What a command leaves of a profile: its row, its seed unless it asks for another, and its
place in the list if it only deletes a project or a proxy. -/
structure Survives (c : Command ω) (f after : ProfileRow ω) : Prop where
  same : after.id = f.id
  seed : after.fpSeed = f.fpSeed ∨ ∃ seed, c = .reseedProfile f.id seed
  shown : c.deletesFolder = true → after.deleted = f.deleted

/-- What nothing a command does to a store may break. -/
structure Safe (lib : PackLibrary) (db : Db ω) : Prop where
  /-- No two profiles are one. -/
  unique : KeyUnique ProfileRow.id db.profiles
  /-- Every profile survives every command. -/
  survive : ∀ c after, answer lib db c = some after →
    ∀ f ∈ db.profiles, ∃ f' ∈ after.profiles, Survives c f f'
  /-- Every profile is listed. -/
  listed : AllListed db
  /-- And none is in a deleted project. -/
  homes : NoneInGone db

/-- The command does not file a profile into a deleted project. -/
def FilesNoneInGone (db : Db ω) : Command ω → Prop
  | .upsertProfile _ _ p => ∀ id ∈ p.projectId, Gone db id →
    ∃ x ∈ Db.proxyIdOf p, ∀ row ∈ db.proxies, row.id ≠ x
  | .moveProfiles ids (some project) => Gone db project →
    ∀ f ∈ db.profiles, f.id ∈ ids → f.deleted = true
  | _ => True

instance (db : Db ω) (c : Command ω) : Decidable (FilesNoneInGone db c) :=
  match c with
  | .upsertProfile _ _ p =>
    inferInstanceAs (Decidable (∀ id ∈ p.projectId, Gone db id →
      ∃ x ∈ Db.proxyIdOf p, ∀ row ∈ db.proxies, row.id ≠ x))
  | .moveProfiles ids (some project) =>
    inferInstanceAs (Decidable (Gone db project → ∀ f ∈ db.profiles, f.id ∈ ids → f.deleted = true))
  | .moveProfiles _ none | .createProject .. | .renameProject .. | .deleteProject _
  | .upsertProxy .. | .recordExit .. | .deleteProxy _ | .reseedProfile .. | .deleteProfile _
  | .restoreProfile _ | .touchOpened .. => .isTrue trivial

section Survival

variable {lib : PackLibrary} {db after : Db ω} {c : Command ω}

/-- A row that is left alone survives. -/
theorem Survives.refl (f : ProfileRow ω) : Survives c f f :=
  ⟨rfl, .inl rfl, fun _ => rfl⟩

/-- An update under which the rows it matches survive. -/
theorem survive_updateWhere {p : ProfileRow ω → Bool} {g : ProfileRow ω → ProfileRow ω}
    (hg : ∀ f, p f = true → Survives c f (g f)) {rows : List (ProfileRow ω)} :
    ∀ f ∈ rows, ∃ f' ∈ updateWhere p g rows, Survives c f f' := by
  intro f hf
  cases hp : p f with
  | true => exact ⟨g f, mem_updateWhere_of hf hp, hg f hp⟩
  | false => exact ⟨f, mem_updateWhere_of_not hf hp, .refl f⟩

/-- Every command leaves every profile, whatever the tables are. -/
theorem survive_answer (h : answer lib db c = some after) :
    ∀ f ∈ db.profiles, ∃ f' ∈ after.profiles, Survives c f f' := by
  intro f hf
  cases c with
  | createProject new name notes =>
    simp only [answer] at h
    split at h
    · cases h
    · cases h
      exact ⟨f, hf, .refl f⟩
  | renameProject | upsertProxy | recordExit | deleteProxy =>
    cases h
    exact ⟨f, hf, .refl f⟩
  | deleteProject id =>
    cases h
    refine survive_updateWhere (fun f _ => ?_) f hf
    exact ⟨rfl, .inl rfl, fun _ => rfl⟩
  | upsertProfile new seed p =>
    obtain ⟨⟨id, saved⟩, hup, rfl⟩ := Option.map_eq_some_iff.mp h
    obtain ⟨-, -, ⟨-, rfl⟩ | ⟨-, rfl⟩⟩ := Db.upsertProfile_cases hup
    · refine survive_updateWhere (fun f _ => ?_) f hf
      exact ⟨rfl, .inl rfl, fun hc => by cases hc⟩
    · exact ⟨f, List.mem_cons_of_mem _ hf, .refl f⟩
  | moveProfiles ids project =>
    simp only [answer, Db.moveProfiles] at h
    split at h
    · cases h
      refine survive_updateWhere (fun f _ => ?_) f hf
      exact ⟨rfl, .inl rfl, fun _ => rfl⟩
    · cases h
  | reseedProfile id seed =>
    simp only [answer, Db.reseedProfile] at h
    split at h
    · cases h
      refine survive_updateWhere (fun f hp => ?_) f hf
      have hid : f.id = id := by simpa using (Bool.and_eq_true_iff.mp hp).1
      exact ⟨rfl, .inr ⟨seed, by rw [hid]⟩, fun hc => by cases hc⟩
    · cases h
  | deleteProfile id =>
    cases h
    refine survive_updateWhere (fun f _ => ?_) f hf
    exact ⟨rfl, .inl rfl, fun hc => by cases hc⟩
  | restoreProfile id =>
    cases h
    refine survive_updateWhere (fun f _ => ?_) f hf
    exact ⟨rfl, .inl rfl, fun hc => by cases hc⟩
  | touchOpened id now =>
    cases h
    refine survive_updateWhere (fun f _ => ?_) f hf
    exact ⟨rfl, .inl rfl, fun _ => rfl⟩

/-- The list of all leaves out the trash and nothing else. -/
theorem allListed (db : Db ω) : AllListed db := by
  intro f hf hshown
  refine ⟨db.rowToProfile f, List.mem_map.mpr ⟨f, List.mem_filter.mpr ⟨hf, ?_⟩, rfl⟩, rfl⟩
  simp [hshown]

end Survival

section Homes

variable {lib : PackLibrary} {db after : Db ω}

/-- What a run keeps. -/
structure Kept (db : Db ω) : Prop where
  /-- Ids of profiles are unique. -/
  unique : KeyUnique ProfileRow.id db.profiles
  /-- So are ids of projects. -/
  projects : KeyUnique ProjectRow.id db.projects
  /-- No profile is in a deleted project. -/
  homes : NoneInGone db

theorem kept_fresh : Kept (fresh : Db ω) where
  unique := keyUnique_nil
  projects := keyUnique_nil
  homes := fun _ hf => by cases hf

/-- A project that is there undeleted is not gone. -/
theorem Kept.not_gone (h : Kept db) {p : ProjectRow} (hp : p ∈ db.projects)
    (hd : p.deleted = false) : ¬Gone db p.id := by
  rintro ⟨q, hq, hid, hgone⟩
  rw [h.projects.eq hq hp hid, hd] at hgone
  cases hgone

/-- Profiles whose rows are replaced by rows of the same ids, each in no project, in the project
it was in before, or in one that is not deleted. -/
theorem Kept.profiles (h : Kept db) {p : ProfileRow ω → Bool} {g : ProfileRow ω → ProfileRow ω}
    (hid : ∀ f, (g f).id = f.id)
    (hhome : ∀ f ∈ db.profiles, p f = true → (g f).deleted = false →
      ∀ id, (g f).projectId = some id → ¬Gone db id) :
    Kept { db with profiles := updateWhere p g db.profiles } where
  unique := h.unique.updateWhere fun f _ => hid f
  projects := h.projects
  homes := by
    intro f hf hshown id hin
    rcases updateWhere_cases hf with ⟨hold, -⟩ | ⟨old, hold, hp, rfl⟩
    · exact h.homes f hold hshown id hin
    · exact hhome old hold hp hshown id hin

/-- Tables with the same profiles and projects keep the same. -/
theorem Kept.congr (h : Kept db) (hf : after.profiles = db.profiles)
    (hp : after.projects = db.projects) : Kept after where
  unique := by rw [hf]; exact h.unique
  projects := by rw [hp]; exact h.projects
  homes := by
    intro f hin hshown id hid
    rw [hf] at hin
    have hgone := h.homes f hin hshown id hid
    unfold Gone at hgone ⊢
    rw [hp]
    exact hgone

theorem Kept.createProject (h : Kept db) {new name notes : String}
    (hnew : ∀ p ∈ db.projects, p.id ≠ new) : Kept (db.createProject new name notes) where
  unique := h.unique
  projects := h.projects.cons hnew
  homes := by
    rintro f hf hshown id hid ⟨p, hp, hpid, hgone⟩
    rcases List.mem_cons.mp hp with rfl | hold
    · cases hgone
    · exact h.homes f hf hshown id hid ⟨p, hold, hpid, hgone⟩

theorem Kept.renameProject (h : Kept db) (id name notes : String) :
    Kept (db.renameProject id name notes) where
  unique := h.unique
  projects := h.projects.updateWhere fun _ _ => rfl
  homes := by
    rintro f hf hshown home hin ⟨p, hp, hpid, hgone⟩
    rcases updateWhere_cases hp with ⟨hold, -⟩ | ⟨old, hold, -, rfl⟩
    · exact h.homes f hf hshown home hin ⟨p, hold, hpid, hgone⟩
    · exact h.homes f hf hshown home hin ⟨old, hold, hpid, hgone⟩

/-- A project that is deleted has been emptied first. -/
theorem Kept.deleteProject (h : Kept db) (id : String) : Kept (db.deleteProject id) where
  unique := h.unique.updateWhere fun _ _ => rfl
  projects := h.projects.updateWhere fun _ _ => rfl
  homes := by
    rintro f hf hshown home hin ⟨p, hp, hpid, hgone⟩
    rcases updateWhere_cases hf with ⟨hold, hout⟩ | ⟨old, -, -, rfl⟩
    · rcases updateWhere_cases hp with ⟨hpold, -⟩ | ⟨old, -, hmatch, rfl⟩
      · exact h.homes f hold hshown home hin ⟨p, hpold, hpid, hgone⟩
      · -- The project deleted now: the profile would have been taken out of it.
        have hhome : old.id = id := by simpa using hmatch
        rw [hin, ← hpid, ← hhome] at hout
        simp [hshown] at hout
    · cases hin

/-- A profile saved in no project or in one that is not deleted. -/
theorem Kept.upsertProfile (h : Kept db) {new id : String} {seed : ℤ} {p : Profile ω}
    (hs : db.upsertProfile new seed p = some (id, after))
    (hg : FilesNoneInGone db (.upsertProfile new seed p)) : Kept after := by
  obtain ⟨hproxy, -, hafter⟩ := Db.upsertProfile_cases hs
  have hhome : ∀ home, p.projectId = some home → ¬Gone db home := by
    intro home hin hgone
    obtain ⟨x, hx, hno⟩ := hg home hin hgone
    obtain ⟨row, hrow, hid⟩ := hproxy x hx
    exact hno row hrow hid
  rcases hafter with ⟨-, rfl⟩ | ⟨hnew, rfl⟩
  · exact h.profiles (fun _ => rfl) fun _ _ _ _ home hin => hhome home hin
  · refine ⟨h.unique.cons hnew, h.projects, fun f hf hshown home hin => ?_⟩
    rcases List.mem_cons.mp hf with rfl | hold
    · exact hhome home hin
    · exact h.homes f hold hshown home hin

/-- Profiles moved out of their projects, or into one that is not deleted. -/
theorem Kept.moveProfiles (h : Kept db) {ids : List String} {project : Option String}
    (hs : db.moveProfiles ids project = some after)
    (hg : FilesNoneInGone db (.moveProfiles ids project)) : Kept after := by
  simp only [Db.moveProfiles] at hs
  split at hs
  · cases hs
    refine h.profiles (fun _ => rfl) fun f hf hmoves hshown home hin hgone => ?_
    dsimp only at hin hshown
    subst hin
    have hid : f.id ∈ ids := by simpa using (Bool.and_eq_true_iff.mp hmoves).1
    rw [hg hgone f hf hid] at hshown
    cases hshown
  · cases hs

/-- A profile that is restored comes back to its project, or to none. -/
theorem Kept.restoreProfile (h : Kept db) (id : String) : Kept (db.restoreProfile id) := by
  refine h.profiles (fun _ => rfl) fun f _ _ _ home hin => ?_
  obtain ⟨-, hlive⟩ := Option.filter_eq_some_iff.mp hin
  obtain ⟨p, hp, hmatch⟩ := List.any_eq_true.mp hlive
  obtain ⟨hpid, hd⟩ : p.id = home ∧ p.deleted = false := by simpa using hmatch
  exact hpid ▸ h.not_gone hp hd

/-- Every command that files nothing into a deleted project keeps what a run keeps. -/
theorem kept_answer : Preserved (answer lib) FilesNoneInGone (Kept (ω := ω)) := by
  intro db c after h hg hs
  cases c with
  | createProject new name notes =>
    simp only [answer] at hs
    split at hs
    · cases hs
    · rename_i hnew
      cases hs
      exact h.createProject (by simpa using hnew)
  | renameProject id name notes =>
    cases hs
    exact h.renameProject id name notes
  | deleteProject id =>
    cases hs
    exact h.deleteProject id
  | upsertProxy | recordExit | deleteProxy =>
    cases hs
    exact h.congr rfl rfl
  | upsertProfile new seed p =>
    obtain ⟨⟨id, db'⟩, hup, rfl⟩ := Option.map_eq_some_iff.mp hs
    exact h.upsertProfile hup hg
  | moveProfiles ids project => exact h.moveProfiles hs hg
  | reseedProfile id seed =>
    simp only [answer, Db.reseedProfile] at hs
    split at hs
    · cases hs
      exact h.profiles (fun _ => rfl) fun f hf _ hshown home hin => h.homes f hf hshown home hin
    · cases hs
  | deleteProfile id =>
    cases hs
    exact h.profiles (fun _ => rfl) fun _ _ _ hshown => by cases hshown
  | restoreProfile id =>
    cases hs
    exact h.restoreProfile id
  | touchOpened id now =>
    cases hs
    exact h.profiles (fun _ => rfl) fun f hf _ hshown home hin => h.homes f hf hshown home hin

end Homes

section Exact

variable {lib : PackLibrary} {db : Db ω} {c : Command ω}

/-- What is filed into a deleted project is in it, and not in the trash. -/
theorem filing_breaks (h : ¬FilesNoneInGone db c) :
    ∃ after, answer lib db c = some after ∧ ¬NoneInGone after := by
  cases c with
  | upsertProfile new seed p =>
    simp only [FilesNoneInGone, not_forall, not_exists, not_and] at h
    obtain ⟨home, hin, hgone, hproxy⟩ := h
    obtain ⟨q, hq, hqid, hdeleted⟩ := id hgone
    have hkeys : (p.projectId.all (fun id => db.projects.any fun p => p.id = id) &&
        (Db.proxyIdOf p).all (fun id => db.proxies.any fun x => x.id = id)) = true := by
      rw [Option.mem_def.mp hin]
      refine Bool.and_eq_true_iff.mpr ⟨List.any_eq_true.mpr ⟨q, hq, by simpa using hqid⟩, ?_⟩
      cases hx : Db.proxyIdOf p with
      | none => rfl
      | some x =>
        obtain ⟨row, hrow, hid⟩ : ∃ row ∈ db.proxies, row.id = x := by simpa using hproxy x hx
        exact List.any_eq_true.mpr ⟨row, hrow, by simpa using hid⟩
    simp only [answer, Db.upsertProfile]
    rw [if_pos hkeys]
    refine ⟨_, rfl, fun hnone => ?_⟩
    dsimp only at hnone
    generalize (if p.id = "" then new else p.id) = chosen at hnone
    split at hnone
    · rename_i hthere
      obtain ⟨f, hf, hid⟩ := List.any_eq_true.mp hthere
      exact hnone _ (mem_updateWhere_of hf hid) rfl home hin hgone
    · exact hnone _ List.mem_cons_self rfl home hin hgone
  | moveProfiles ids project =>
    cases project with
    | none => exact absurd trivial h
    | some home =>
      simp only [FilesNoneInGone, not_forall] at h
      obtain ⟨hgone, f, hf, hid, hshown⟩ := h
      obtain ⟨q, hq, hqid, hdeleted⟩ := id hgone
      have hknown : db.projects.any (fun p => p.id = home) = true :=
        List.any_eq_true.mpr ⟨q, hq, by simpa using hqid⟩
      simp only [answer, Db.moveProfiles, Option.all_some, hknown, Bool.true_or, if_true]
      refine ⟨_, rfl, fun hnone => ?_⟩
      have hmoves : (ids.contains f.id && !f.deleted) = true := by simp [hid, hshown]
      exact hnone _ (mem_updateWhere_of hf hmoves) (by simpa using hshown) home rfl hgone
  | _ => exact absurd trivial h

end Exact

section Runs

variable {lib : PackLibrary} {db : Db ω}

/-- Over every sequence of commands that file nothing into a deleted project, every profile
survives whatever comes next, is listed unless it is in the trash, and is in no deleted
project. -/
theorem profiles_stay (hr : Reached (fun s => s = fresh) (answer lib) FilesNoneInGone db) :
    Safe lib db := by
  have hkept : Kept db := by
    refine hr.invariant Kept (fun s hs => ?_) kept_answer
    rw [hs]
    exact kept_fresh
  exact {
    unique := hkept.unique
    survive := fun _ _ h => survive_answer h
    listed := allListed db
    homes := hkept.homes }

/-- One project that stays and a profile in it, which is moved to no project, then reseeded. -/
theorem profiles_stay_moved :
    Safe sampleLibrary (⟨[⟨"shop", "Shop", "", false⟩], [],
      [⟨"f1", none, "first", "", [], [], "new", "persona", 7, none, none, none, [], false, (),
        none, false⟩], []⟩ : Db Unit) := by
  refine profiles_stay ?_
  refine .run [.createProject "shop" "Shop" "",
    .upsertProfile "f1" 5 ⟨"", some "shop", none, "first", "", [], "new", [], "persona", 0, false,
      none, none, none, none, (), [], none⟩,
    .moveProfiles ["f1"] none, .reseedProfile "f1" 7] (.start rfl) ?_ rfl
  decide

/-- A project is deleted, and a window that still shows it saves a profile into it. -/
theorem saved_into_deleted :
    ¬∀ db : Db Unit, Reached (fun s => s = fresh) (answer sampleLibrary) anyStep db →
      NoneInGone db := by
  intro h
  have hr : Reached (fun s => s = fresh) (answer sampleLibrary) anyStep
      (⟨[⟨"shop", "Shop", "", true⟩], [],
        [⟨"f1", some "shop", "first", "", [], [], "new", "persona", 5, none, none, none, [],
          false, (), none, false⟩], []⟩ : Db Unit) := by
    refine .run_any [.createProject "shop" "Shop" "", .deleteProject "shop",
      .upsertProfile "f1" 5 ⟨"", some "shop", none, "first", "", [], "new", [], "persona", 0,
        false, none, none, none, none, (), [], none⟩] (.start rfl) rfl
  exact h _ hr _ List.mem_cons_self rfl "shop" rfl ⟨_, List.mem_cons_self, rfl, rfl⟩

end Runs

end FuryBrowser.ProfilesStay
