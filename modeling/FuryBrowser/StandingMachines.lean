import FuryBrowser.ProfileRuns

/-!
# A live profile's machine exists

What a profile pins is checked against its machine when the profile is written. The machine
can be replaced or deleted afterwards, the profile can come back from the trash, and the
check is made in the organisation of whoever asks. Where none of these takes a machine from
under a profile, or from under a request that has passed its check, every profile outside of
the trash has a machine that what it pins applies to.
-/

namespace FuryBrowser.StandingMachines

open GuardedRuns RowTable Machines InFlight ProfileRequests ProfileRuns
open TeamRequests (Caller)

/-- A machine of an organisation, and what is pinned about it. -/
structure Pinned where
  org : ℕ
  personaId : String
  overrides : MachineOverrides
  deriving DecidableEq, Repr

/-- It is in the catalogue, and what is pinned applies to it without error. -/
def Pinned.stands (m : Pinned) (s : Shared) (db : Db) : Bool :=
  db.stands s m.org m.personaId m.overrides

/-- It is on this machine, or takes its GPU. -/
def Pinned.Uses (m : Pinned) (id : String) : Prop :=
  m.personaId = id ∨ m.overrides.gpu = some id

instance (m : Pinned) (id : String) : Decidable (m.Uses id) := by
  unfold Pinned.Uses
  infer_instance

/-- The machine of a profile. -/
def pinned (p : Profile) : Pinned := ⟨p.org, p.personaId, p.overrides⟩

/-- The profile that a statement of an edit is about, and what it will pin. -/
def editing : Stage → Option (ℕ × MachineOverrides)
  | .editProxy profile _ overrides => some (profile, overrides)
  | .updating profile _ overrides => some (profile, overrides)
  | _ => none

/-- What a request has checked, and will write. -/
def carried (db : Db) (c : Caller) : Stage → List Pinned
  | .createProxy row => [⟨c.org, row.personaId, row.overrides⟩]
  | .cloneRequires row _ => [⟨c.org, row.personaId, row.overrides⟩]
  | .inserting row count => if count = 0 then [] else [⟨c.org, row.personaId, row.overrides⟩]
  | .editProxy profile _ overrides =>
    (db.profiles.filter fun p => p.id = profile && !p.deleted).map fun p =>
      ⟨p.org, p.personaId, overrides⟩
  | .updating profile _ overrides =>
    (db.profiles.filter fun p => p.id = profile && !p.deleted).map fun p =>
      ⟨p.org, p.personaId, overrides⟩
  | _ => []

/-- The machines of live profiles, and of what requests have checked and will write. -/
def relying (w : World) : List Pinned :=
  (w.db.profiles.filter fun p => !p.deleted).map pinned ++
    w.flights.all.flatMap fun f => carried w.db f.caller f.stage

/-- A replaced machine still stands for whatever is on it, a deleted one has nothing on it, a
restored profile stands, and so does what somebody of another organisation pins. -/
def Careful (s : Shared) (w : World) (c : Caller) : Stage → Prop
  | .savingPersona persona => ∀ m ∈ relying w, m.org = c.org → m.Uses persona.id →
      m.stands s (savePersona w.db c persona) = true
  | .deletingPersona id => ∀ m ∈ relying w, m.org = c.org → ¬ m.Uses id
  | .restoring profile => ∀ p ∈ w.db.profiles, p.id = profile → p.deleted = true →
      (pinned p).stands s w.db = true ∧
        ∀ g ∈ w.flights.all, ∀ e ∈ editing g.stage, e.1 = profile →
          (Pinned.mk p.org p.personaId e.2).stands s w.db = true
  | .editChecks profile _ _ overrides => ∀ p ∈ w.db.profiles, p.id = profile →
      p.deleted = false → p.org ≠ c.org →
        (Pinned.mk p.org p.personaId overrides).stands s w.db = true
  | _ => True

instance (s : Shared) (w : World) (c : Caller) (stage : Stage) :
    Decidable (Careful s w c stage) := by
  cases stage <;> dsimp only [Careful] <;> infer_instance

/-- Every statement is careful. -/
def Guard (conf : Config) (w : World) : Label → Prop
  | .runs id _ => ∀ f ∈ w.flights.all, f.id = id → Careful conf.shared w f.caller f.stage
  | _ => True

instance (conf : Config) : DecidableRel (Guard conf) := fun w l => by
  rcases l with _ | _ | _ | _ <;> dsimp only [Guard] <;> infer_instance

section Catalogue

variable {s : Shared} {db db' : Db} {org : ℕ} {id : String}

/-- In a catalogue with an organisation's machines after it, an id finds what it found, or
else the organisation's machine. -/
theorem find_addOwn (rows : List OrgPersona) (catalogue : List Persona) (id : String) :
    find (rows.foldl addOwn catalogue) id = (find catalogue id).or
      ((rows.find? fun r => r.id = id && r.persona.id = r.id).map OrgPersona.persona) := by
  induction rows generalizing catalogue with
  | nil => simp
  | cons r rows ih =>
    rw [List.foldl_cons, ih]
    by_cases hadd : r.persona.id = r.id ∧ ¬ catalogue.any fun p => p.id = r.id
    · have happend : addOwn catalogue r = catalogue ++ [r.persona] := by
        unfold addOwn
        rw [if_pos (by simpa using hadd)]
      rw [happend]
      unfold find
      rw [List.find?_append, Option.or_assoc]
      by_cases hid : r.id = id
      · simp [hadd.1, hid]
      · simp [hadd.1, hid]
    · have hsame : addOwn catalogue r = catalogue := by
        unfold addOwn
        rw [if_neg (by simpa using hadd)]
      rw [hsame]
      by_cases hr : r.id = id ∧ r.persona.id = r.id
      · -- Its id is taken, so what had the id is found as before.
        obtain ⟨rfl, hown⟩ := hr
        have htaken : catalogue.any (fun p => p.id = r.id) = true := by
          simpa [hown] using hadd
        obtain ⟨p, hp⟩ := Option.isSome_iff_exists.mp (List.find?_isSome.mpr
          (List.any_eq_true.mp htaken))
        unfold find
        rw [hp]
        simp
      · congr 2
        rw [List.find?_cons_of_neg]
        simpa using hr

/-- In an organisation's catalogue an id finds a built-in machine, or else the row with it. -/
theorem find_orgCatalogue (h : KeyUnique OrgPersona.key db.personas) :
    find (db.orgCatalogue s org) id = (find s.builtIn id).or
      (((lookup OrgPersona.key db.personas (org, id)).filter fun r => r.persona.id = r.id).map
        OrgPersona.persona) := by
  unfold Db.orgCatalogue
  rw [find_addOwn]
  congr 2
  have hmem : ∀ r, r ∈ db.orgPersonas org ↔ r ∈ db.personas ∧ r.org = org := by
    intro r
    unfold Db.orgPersonas
    rw [List.mem_insertionSort, List.mem_filter, decide_eq_true_eq]
  cases hl : (lookup OrgPersona.key db.personas (org, id)).filter fun r => r.persona.id = r.id with
  | none =>
    refine List.find?_eq_none.mpr fun r hr hfits => ?_
    obtain ⟨hin, rfl⟩ := (hmem r).mp hr
    simp only [Bool.and_eq_true, decide_eq_true_eq] at hfits
    obtain ⟨rfl, hown⟩ := hfits
    have hfound := lookup_of_mem h hin
    rw [show (r.org, r.id) = r.key from rfl, hfound] at hl
    simp [hown] at hl
  | some r =>
    obtain ⟨hlookup, hown⟩ := Option.filter_eq_some_iff.mp hl
    obtain ⟨hin, hkey⟩ := lookup_some hlookup
    obtain ⟨horg, hid⟩ := Prod.mk.inj hkey
    have hsome : ((db.orgPersonas org).find? fun r => r.id = id && r.persona.id = r.id).isSome :=
      List.find?_isSome.mpr ⟨r, (hmem r).mpr ⟨hin, horg⟩, by simpa [hid] using hown⟩
    obtain ⟨r', hr'⟩ := Option.isSome_iff_exists.mp hsome
    obtain ⟨hin', horg'⟩ := (hmem r').mp (List.mem_of_find?_eq_some hr')
    have hfits := List.find?_some hr'
    simp only [Bool.and_eq_true, decide_eq_true_eq] at hfits
    rw [hr', h.eq hin' hin (Prod.ext (horg'.trans horg.symm) (hfits.1.trans hid.symm))]

/-- What is pinned applies alike where the catalogues agree on the machine whose GPU it takes. -/
theorem apply_congr {o : MachineOverrides} {base : Persona} {catalogue catalogue' : List Persona}
    (h : ∀ donor, o.gpu = some donor → find catalogue donor = find catalogue' donor) :
    o.apply base s catalogue = o.apply base s catalogue' := by
  have hgpu : o.applyGpu base catalogue = o.applyGpu base catalogue' := by
    unfold MachineOverrides.applyGpu
    cases hdonor : o.gpu with
    | none => rfl
    | some donor => simp only [h donor hdonor]
  unfold MachineOverrides.apply
  rw [hgpu]

/-- A machine stands alike where the rows it uses are the same. -/
theorem stands_congr {m : Pinned} (h : KeyUnique OrgPersona.key db.personas)
    (h' : KeyUnique OrgPersona.key db'.personas)
    (hsame : ∀ id, m.Uses id → lookup OrgPersona.key db'.personas (m.org, id) =
      lookup OrgPersona.key db.personas (m.org, id)) : m.stands s db' = m.stands s db := by
  have hfind : ∀ id, m.Uses id →
      find (db'.orgCatalogue s m.org) id = find (db.orgCatalogue s m.org) id := by
    intro id huses
    rw [find_orgCatalogue h, find_orgCatalogue h', hsame id huses]
  unfold Pinned.stands Db.stands
  rw [hfind m.personaId (.inl rfl)]
  congr 1
  funext p
  rw [apply_congr fun donor hdonor => hfind donor (.inr hdonor)]

/-- Only the organisation's machines matter. -/
theorem stands_of_personas {m : Pinned} (h : db'.personas = db.personas) :
    m.stands s db' = m.stands s db := by
  unfold Pinned.stands Db.stands Db.orgCatalogue Db.orgPersonas
  rw [h]

/-- Saving a machine leaves what is not on it, here or elsewhere. -/
theorem stands_savePersona {m : Pinned} {c : Caller} {persona : Persona}
    (h : KeyUnique OrgPersona.key db.personas)
    (hother : m.org = c.org → ¬ m.Uses persona.id) :
    m.stands s (savePersona db c persona) = m.stands s db := by
  refine stands_congr h h.put fun id huses => lookup_put_of_ne fun heq => ?_
  obtain ⟨horg, rfl⟩ : m.org = c.org ∧ id = persona.id := Prod.mk.inj heq
  exact hother horg huses

theorem stands_deletePersona {m : Pinned} {org : ℕ} {id : String}
    (h : KeyUnique OrgPersona.key db.personas) (hother : m.org = org → ¬ m.Uses id) :
    m.stands s { db with personas := deleteWhere (fun r => r.key = (org, id)) db.personas } =
      m.stands s db := by
  refine stands_congr h h.deleteWhere fun id' huses => lookup_deleteWhere_of fun r hr => ?_
  rw [decide_eq_false_iff_not, hr]
  intro heq
  obtain ⟨horg, hid⟩ := Prod.mk.inj heq
  exact hother horg (hid ▸ huses)

end Catalogue

/-- Every live profile's machine stands. -/
structure Tables (s : Shared) (db : Db) : Prop where
  proper : Proper db
  live : ∀ p ∈ db.profiles, p.deleted = false → (pinned p).stands s db = true

/-- The profile that an edit is about, once it has read it. -/
def edited : Stage → Option ℕ
  | .editChecks profile _ _ _ => some profile
  | .editProxy profile _ _ => some profile
  | .updating profile _ _ => some profile
  | _ => none

/-- The machine that an edit has read and not checked. -/
def hasRead : Stage → Option (ℕ × String)
  | .editChecks profile _ personaId _ => some (profile, personaId)
  | _ => none

/-- What a request carries is right. -/
structure Carries (s : Shared) (db : Db) (c : Caller) (stage : Stage) : Prop where
  /-- What it has checked stands. -/
  checked : ∀ m ∈ carried db c stage, m.stands s db = true
  /-- It edits a profile that was there. -/
  drawn : ∀ profile, edited stage = some profile → profile < db.fresh
  /-- The machine it has read is the profile's. -/
  machine : ∀ profile personaId, hasRead stage = some (profile, personaId) →
    ∀ p ∈ db.profiles, p.id = profile → p.personaId = personaId

/-- No profile is live that was not, but new ones. -/
def Fewer (db db' : Db) : Prop :=
  ∀ p' ∈ db'.profiles, p'.id < db.fresh → p'.deleted = false →
    ∃ p ∈ db.profiles,
      p.deleted = false ∧ p'.id = p.id ∧ p'.org = p.org ∧ p'.personaId = p.personaId

section Kept

variable {s : Shared} {db db' : Db} {c : Caller} {stage : Stage}

/-- An update that leaves which profile it is, and takes none out of the trash. -/
theorem fewer_update {p : Profile → Bool} {f : Profile → Profile}
    (hf : ∀ r, ((f r).deleted = false → r.deleted = false) ∧
      (f r).id = r.id ∧ (f r).org = r.org ∧ (f r).personaId = r.personaId) :
    Fewer db (updateProfiles db p f) := by
  intro r hr _ hlive
  rcases updateWhere_cases hr with ⟨hin, _⟩ | ⟨old, hold, _, rfl⟩
  · exact ⟨r, hin, hlive, rfl, rfl, rfl⟩
  · exact ⟨old, hold, (hf old).1 hlive, (hf old).2⟩

/-- A request that edits nothing has to have checked what it carries. -/
theorem carries_of_checked (hchecked : ∀ m ∈ carried db c stage, m.stands s db = true)
    (hedited : edited stage = none) (hread : hasRead stage = none) : Carries s db c stage where
  checked := hchecked
  drawn := fun profile h => by
    rw [hedited] at h
    cases h
  machine := fun profile personaId h => by
    rw [hread] at h
    cases h

/-- One that carries nothing has nothing to check. -/
theorem carries_nothing (hcarried : carried db c stage = []) (hedited : edited stage = none)
    (hread : hasRead stage = none) : Carries s db c stage := by
  refine carries_of_checked (fun m hm => ?_) hedited hread
  rw [hcarried] at hm
  cases hm

/-- What an edit carries is about the live row it edits. -/
theorem mem_carried_of_editing {profile : ℕ} {overrides : MachineOverrides} {p : Profile}
    (h : editing stage = some (profile, overrides)) (hin : p ∈ db.profiles) (hid : p.id = profile)
    (hlive : p.deleted = false) : ⟨p.org, p.personaId, overrides⟩ ∈ carried db c stage := by
  have hmem : Pinned.mk p.org p.personaId overrides ∈
      (db.profiles.filter fun p => p.id = profile && !p.deleted).map
        fun p => Pinned.mk p.org p.personaId overrides :=
    List.mem_map.mpr ⟨p, List.mem_filter.mpr ⟨hin, by simp [hid, hlive]⟩, rfl⟩
  cases stage with
  | editProxy profile' proxy overrides' =>
    cases h
    exact hmem
  | updating profile' proxy overrides' =>
    cases h
    exact hmem
  | _ => cases h

/-- What a request carries does not depend on the tables, or is about a live row. -/
theorem carried_cases (db : Db) {m : Pinned} (h : m ∈ carried db' c stage) :
    m ∈ carried db c stage ∨ ∃ profile overrides, editing stage = some (profile, overrides) ∧
      edited stage = some profile ∧ ∃ p ∈ db'.profiles, p.id = profile ∧ p.deleted = false ∧
        m = ⟨p.org, p.personaId, overrides⟩ := by
  have hrow : ∀ {profile : ℕ} {overrides : MachineOverrides},
      m ∈ (db'.profiles.filter fun p => p.id = profile && !p.deleted).map
        (fun p => Pinned.mk p.org p.personaId overrides) →
      ∃ p ∈ db'.profiles, p.id = profile ∧ p.deleted = false ∧
        m = ⟨p.org, p.personaId, overrides⟩ := by
    intro profile overrides hm
    obtain ⟨p, hp, rfl⟩ := List.mem_map.mp hm
    obtain ⟨hin, hmatch⟩ := List.mem_filter.mp hp
    simp only [Bool.and_eq_true, decide_eq_true_eq, Bool.not_eq_true'] at hmatch
    exact ⟨p, hin, hmatch.1, hmatch.2, rfl⟩
  cases stage with
  | editProxy profile proxy overrides => exact .inr ⟨profile, overrides, rfl, rfl, hrow h⟩
  | updating profile proxy overrides => exact .inr ⟨profile, overrides, rfl, rfl, hrow h⟩
  | _ => exact .inl h

/-- What is to be written for live rows is no more, when no more rows are live. -/
theorem carried_fewer (hfewer : Fewer db db')
    (hdrawn : ∀ profile, edited stage = some profile → profile < db.fresh) :
    ∀ m ∈ carried db' c stage, m ∈ carried db c stage := by
  intro m hm
  rcases carried_cases db hm with hsame | ⟨profile, overrides, he, hedited, p', hp', rfl,
    hlive', rfl⟩
  · exact hsame
  · obtain ⟨p, hin, hlive, hid, horg, hpersona⟩ := hfewer p' hp' (hdrawn _ hedited) hlive'
    rw [horg, hpersona]
    exact mem_carried_of_editing he hin hid.symm hlive

/-- What a request carries stays right when what it has checked still stands. -/
theorem Carries.kept (hk : Kept db db') (h : Carries s db c stage)
    (hstands : ∀ m ∈ carried db' c stage, m.stands s db' = true) : Carries s db' c stage where
  checked := hstands
  drawn := fun profile hprofile => Nat.lt_of_lt_of_le (h.drawn profile hprofile) hk.fresh
  machine := fun profile personaId hread p' hp' hid => by
    have hdrawn : profile < db.fresh := h.drawn profile (by
      cases stage with
      | editChecks profile' proxy personaId' overrides =>
        cases hread
        rfl
      | _ => cases hread)
    rcases hk.profiles p' hp' with hnew | ⟨p, hp, hsame, _, hpersona⟩
    · exact absurd (hid ▸ hnew) (Nat.not_le_of_lt hdrawn)
    · exact hpersona.trans (h.machine profile personaId hread p hp (hsame.symm.trans hid))

end Kept

section Reads

variable {conf : Config} {db : Db} {c : Caller} {a : Access} {stage stage' : Stage}

/-- A profile is the only one with its id. -/
theorem profile_unique (hp : Proper db) {profile : ℕ} {p p' : Profile}
    (h : db.profile profile = some p) (hin : p' ∈ db.profiles) (hid : p'.id = profile) :
    p' = p := by
  obtain ⟨hmem, rfl⟩ := lookup_some h
  exact hp.profiles.eq hin hmem hid

/-- An edit goes on with the profile's machine, or with what is pinned already. -/
theorem carries_editReads (ht : Tables conf.shared db) {profile proxy : ℕ}
    {overrides : Option MachineOverrides} {perms : Permissions.PermSet}
    (h : editReads db profile proxy overrides perms = some stage') :
    Carries conf.shared db c stage' := by
  obtain ⟨p, hfound, h⟩ := Option.bind_eq_some_iff.mp h
  obtain ⟨hin, hid⟩ := lookup_some hfound
  have hdrawn : profile < db.fresh := hid ▸ ht.proper.freshProfile p hin
  split at h
  · cases h
  dsimp only at h
  split at h
  next hchanged =>
    obtain ⟨_, rfl⟩ := goOn_some h
    refine ⟨fun m hm => absurd hm List.not_mem_nil, fun x hx => ?_, fun x y hxy p' hp' hid' => ?_⟩
    · cases hx
      exact hdrawn
    · cases hxy
      rw [profile_unique ht.proper hfound hp' hid']
  next hsame =>
    cases h
    refine ⟨fun m hm => ?_, fun x hx => ?_, fun x y hxy => ?_⟩
    · -- What it pins is what the row pins, and a live row stands.
      obtain ⟨p', hp', rfl⟩ := List.mem_map.mp hm
      obtain ⟨hin', hmatch⟩ := List.mem_filter.mp hp'
      simp only [Bool.and_eq_true, decide_eq_true_eq, Bool.not_eq_true'] at hmatch
      obtain rfl := profile_unique ht.proper hfound hin' hmatch.1
      rw [Classical.not_not.mp hsame]
      exact ht.live p' hin' hmatch.2
    · cases hx
      exact hdrawn
    · cases hxy

/-- What passes the check stands in the profile's organisation, which is the caller's or the
guard's. -/
theorem carries_editChecks {profile proxy : ℕ} {personaId : String} {overrides : MachineOverrides}
    (hc : Carries conf.shared db c (.editChecks profile proxy personaId overrides))
    (hg : ∀ p ∈ db.profiles, p.id = profile → p.deleted = false → p.org ≠ c.org →
      (Pinned.mk p.org p.personaId overrides).stands conf.shared db = true)
    (hok : db.stands conf.shared c.org personaId overrides = true) :
    Carries conf.shared db c (.editProxy profile proxy overrides) := by
  refine ⟨fun m hm => ?_, fun x hx => hc.drawn x hx, fun x y hxy => by cases hxy⟩
  obtain ⟨p, hp, rfl⟩ := List.mem_map.mp hm
  obtain ⟨hin, hmatch⟩ := List.mem_filter.mp hp
  simp only [Bool.and_eq_true, decide_eq_true_eq, Bool.not_eq_true'] at hmatch
  by_cases horg : p.org = c.org
  · have hpersona := hc.machine profile personaId rfl p hin hmatch.1
    unfold Pinned.stands
    rw [horg, hpersona]
    exact hok
  · exact hg p hin hmatch.1 hmatch.2 horg

/-- What a handler goes on with, after a statement that only reads. -/
theorem carries_reads (ht : Tables conf.shared db) (hc : Carries conf.shared db c stage)
    (hg : ∀ profile proxy personaId overrides,
      stage = .editChecks profile proxy personaId overrides → ∀ p ∈ db.profiles, p.id = profile →
        p.deleted = false → p.org ≠ c.org →
          (Pinned.mk p.org p.personaId overrides).stands conf.shared db = true)
    (hsame : (next conf db c a stage).1 = db) (h : (next conf db c a stage).2 = some stage') :
    Carries conf.shared db c stage' := by
  cases stage with
  | arrived req =>
    cases req <;>
    · obtain ⟨_, rfl⟩ := goOn_some h
      exact carries_nothing rfl rfl rfl
  | createCounts row =>
    obtain ⟨_, rfl⟩ := goOn_some h
    exact carries_nothing rfl rfl rfl
  | createChecks row =>
    obtain ⟨hok, rfl⟩ := goOn_some h
    refine carries_of_checked (fun m hm => ?_) rfl rfl
    rw [List.mem_singleton.mp hm]
    exact hok
  | createProxy row =>
    obtain ⟨_, rfl⟩ := goOn_some h
    exact carries_of_checked hc.checked rfl rfl
  | cloneReads profile count =>
    obtain ⟨p, hfound, rfl⟩ := Option.map_eq_some_iff.mp h
    obtain ⟨hlookup, hown⟩ := Option.filter_eq_some_iff.mp hfound
    simp only [Bool.and_eq_true, decide_eq_true_eq, Bool.not_eq_true'] at hown
    have hlive := ht.live p (lookup_some hlookup).1 hown.2
    refine carries_of_checked (fun m hm => ?_) rfl rfl
    rw [List.mem_singleton.mp hm, ← hown.1]
    exact hlive
  | cloneRequires row count =>
    obtain ⟨_, rfl⟩ := goOn_some h
    refine carries_of_checked (fun m hm => hc.checked m ?_) rfl rfl
    simp only [carried] at hm ⊢
    split at hm
    · cases hm
    · exact hm
  | editReads profile proxy overrides perms => exact carries_editReads ht h
  | editChecks profile proxy personaId overrides =>
    obtain ⟨hok, rfl⟩ := goOn_some h
    exact carries_editChecks hc (hg profile proxy personaId overrides rfl) hok
  | editProxy profile proxy overrides =>
    obtain ⟨_, rfl⟩ := goOn_some h
    exact ⟨hc.checked, hc.drawn, fun x y hxy => by cases hxy⟩
  | inserting row count =>
    cases count with
    | zero => cases h
    | succ n =>
      have hgrown := congrArg (fun db => db.profiles.length) hsame
      simp [next, insertProfile] at hgrown
  | moving todo project moved =>
    cases todo with
    | nil => cases h
    | cons id todo =>
      obtain ⟨p, _, h⟩ := Option.bind_eq_some_iff.mp h
      split at h
      · cases h
        exact carries_nothing rfl rfl rfl
      · obtain ⟨_, rfl⟩ := goOn_some h
        exact carries_nothing rfl rfl rfl
  | deletingCounts id =>
    obtain ⟨_, rfl⟩ := goOn_some h
    exact carries_nothing rfl rfl rfl
  | _ => cases h

end Reads

section Writes

variable {s : Shared} {w : World} {f : Flight Caller Stage} {db' : Db} {st : Option Stage}

/-- A statement that leaves the machines, and makes no profile live that was not, only has to
put what stands. -/
theorem keeps_of_fewer (hw : Sound (Tables s) (Carries s) w) (hproper : Proper db')
    (hk : Kept w.db db') (hpersonas : db'.personas = w.db.personas) (hfewer : Fewer w.db db')
    (hlive : ∀ p ∈ db'.profiles, p.deleted = false → (pinned p).stands s w.db = true)
    (hself : ∀ stage, st = some stage → Carries s db' f.caller stage) :
    Keeps (Tables s) (Carries s) w f db' st := by
  refine ⟨⟨hproper, fun p hp hd => ?_⟩, hself, fun g hg _ => ?_⟩
  · rw [stands_of_personas hpersonas]
    exact hlive p hp hd
  · have hown := hw.own g hg
    refine hown.kept hk fun m hm => ?_
    rw [stands_of_personas hpersonas]
    exact hown.checked m (carried_fewer hfewer hown.drawn m hm)

/-- An update that leaves what profiles are and pin, and takes none out of the trash, leaves
every live machine standing. -/
theorem live_update {db : Db} (ht : Tables s db) {p : Profile → Bool} {g : Profile → Profile}
    (hg : ∀ r, ((g r).deleted = false → r.deleted = false) ∧ pinned (g r) = pinned r) :
    ∀ r ∈ (updateProfiles db p g).profiles, r.deleted = false →
      (pinned r).stands s db = true := by
  intro r hr hd
  rcases updateWhere_cases hr with ⟨hin, _⟩ | ⟨old, hold, _, rfl⟩
  · exact ht.live r hin hd
  · rw [(hg old).2]
    exact ht.live old hold ((hg old).1 hd)

/-- A new profile is on what its request has checked. -/
theorem keeps_insert (hw : Sound (Tables s) (Carries s) w) {row : NewProfile} {n : ℕ}
    (hf : f ∈ w.flights.all) (hstage : f.stage = .inserting row (n + 1)) :
    Keeps (Tables s) (Carries s) w f (insertProfile w.db f.caller row)
      (some (.inserting row n)) := by
  have hchecked : (Pinned.mk f.caller.org row.personaId row.overrides).stands s w.db = true := by
    refine (hw.own f hf).checked _ ?_
    rw [hstage]
    exact List.mem_singleton.mpr rfl
  refine keeps_of_fewer hw (hw.db.proper.insertProfile row) (.insertProfile w.db f.caller row) rfl
    (fun p' hp' hdrawn hd => ?_) (fun p hp hd => ?_) fun stage hst => ?_
  · rcases List.mem_cons.mp hp' with rfl | hin
    · exact absurd hdrawn (Nat.lt_irrefl _)
    · exact ⟨p', hin, hd, rfl, rfl, rfl⟩
  · rcases List.mem_cons.mp hp with rfl | hin
    · exact hchecked
    · exact hw.db.live p hin hd
  · cases hst
    refine carries_of_checked (fun m hm => ?_) rfl rfl
    simp only [carried] at hm
    split at hm
    · cases hm
    · rw [List.mem_singleton.mp hm]
      exact hchecked

/-- An edit pins what it has checked. -/
theorem keeps_updating (hw : Sound (Tables s) (Carries s) w) {profile proxy : ℕ}
    {overrides : MachineOverrides} (hf : f ∈ w.flights.all)
    (hstage : f.stage = .updating profile proxy overrides) :
    Keeps (Tables s) (Carries s) w f
      (updateProfiles w.db (fun p => p.id = profile && !p.deleted)
        fun p => { p with proxy := some proxy, overrides := overrides }) none := by
  refine keeps_of_fewer hw (hw.db.proper.updateProfiles fun _ => rfl)
    (.updateProfiles w.db fun _ => ⟨rfl, rfl, rfl⟩) rfl
    (fewer_update fun _ => ⟨fun h => h, rfl, rfl, rfl⟩) (fun p hp hd => ?_) (fun _ h => by cases h)
  rcases updateWhere_cases hp with ⟨hin, _⟩ | ⟨old, hold, hmatch, rfl⟩
  · exact hw.db.live p hin hd
  · simp only [Bool.and_eq_true, decide_eq_true_eq, Bool.not_eq_true'] at hmatch
    have hediting : editing f.stage = some (profile, overrides) := by rw [hstage]; rfl
    have hmem : Pinned.mk old.org old.personaId overrides ∈ carried w.db f.caller f.stage :=
      mem_carried_of_editing hediting hold hmatch.1 hmatch.2
    exact (hw.own f hf).checked _ hmem

/-- A profile that comes back stands, and so does what edits of it have checked. -/
theorem keeps_restoring (hw : Sound (Tables s) (Carries s) w) {profile : ℕ}
    (hg : ∀ p ∈ w.db.profiles, p.id = profile → p.deleted = true →
      (pinned p).stands s w.db = true ∧
        ∀ g ∈ w.flights.all, ∀ e ∈ editing g.stage, e.1 = profile →
          (Pinned.mk p.org p.personaId e.2).stands s w.db = true) :
    Keeps (Tables s) (Carries s) w f
      (updateProfiles w.db (fun p => p.id = profile) fun p => { p with deleted := false })
      none := by
  refine ⟨⟨hw.db.proper.updateProfiles fun _ => rfl, fun p hp hd => ?_⟩, (fun _ h => by cases h),
    fun g hin _ => ?_⟩
  · rw [stands_of_personas rfl]
    rcases updateWhere_cases hp with ⟨hin, _⟩ | ⟨old, hold, hmatch, rfl⟩
    · exact hw.db.live p hin hd
    · cases hdeleted : old.deleted with
      | true => exact (hg old hold (of_decide_eq_true hmatch) hdeleted).1
      | false => exact hw.db.live old hold hdeleted
  · have hown := hw.own g hin
    refine hown.kept (.updateProfiles w.db fun _ => ⟨rfl, rfl, rfl⟩) fun m hm => ?_
    rw [stands_of_personas rfl]
    rcases carried_cases w.db hm with hsame | ⟨x, overrides, he, _, p, hp, rfl, hd, rfl⟩
    · exact hown.checked m hsame
    · rcases updateWhere_cases hp with ⟨hold, _⟩ | ⟨old, hold, hmatch, rfl⟩
      · exact hown.checked _ (mem_carried_of_editing he hold rfl hd)
      · cases hdeleted : old.deleted with
        | true =>
          have hid : old.id = profile := of_decide_eq_true hmatch
          exact (hg old hold hid hdeleted).2 g hin _ he hid
        | false =>
          have hmem : Pinned.mk old.org old.personaId overrides ∈ carried w.db g.caller g.stage :=
            mem_carried_of_editing he hold rfl hdeleted
          exact hown.checked _ hmem

/-- What relies on a machine is a live profile's, or carried by a request. -/
theorem mem_relying_of_live {p : Profile} (hp : p ∈ w.db.profiles) (hd : p.deleted = false) :
    pinned p ∈ relying w :=
  List.mem_append_left _ (List.mem_map_of_mem (List.mem_filter.mpr ⟨hp, by simp [hd]⟩))

theorem mem_relying_of_carried {g : Flight Caller Stage} {m : Pinned} (hg : g ∈ w.flights.all)
    (hm : m ∈ carried w.db g.caller g.stage) : m ∈ relying w :=
  List.mem_append_right _ (List.mem_flatMap.mpr ⟨g, hg, hm⟩)

/-- Where only machines change, and what relies on them still stands, all is right. -/
theorem sound_of_personas (hw : Sound (Tables s) (Carries s) w) (hproper : Proper db')
    (hk : Kept w.db db') (hprofiles : db'.profiles = w.db.profiles)
    (hstands : ∀ m ∈ relying w, m.stands s w.db = true → m.stands s db' = true) :
    Sound (Tables s) (Carries s) ⟨db', w.flights⟩ := by
  refine ⟨⟨hproper, fun p hp hd => ?_⟩, fun g hg => ?_⟩
  · have hin : p ∈ w.db.profiles := hprofiles ▸ hp
    exact hstands _ (mem_relying_of_live hin hd) (hw.db.live p hin hd)
  · have hown := hw.own g hg
    refine hown.kept hk fun m hm => ?_
    have hsame : m ∈ carried w.db g.caller g.stage := by
      refine carried_fewer (fun p hp _ hd => ?_) hown.drawn m hm
      exact ⟨p, hprofiles ▸ hp, hd, rfl, rfl, rfl⟩
    exact hstands m (mem_relying_of_carried hg hsame) (hown.checked m hsame)

end Writes

section Runs

variable {conf : Config}

theorem keeps_next {w : World} {f : Flight Caller Stage} {a : Access}
    (hw : Sound (Tables conf.shared) (Carries conf.shared) w) (hf : f ∈ w.flights.all)
    (hg : Careful conf.shared w f.caller f.stage) :
    Keeps (Tables conf.shared) (Carries conf.shared) w f (next conf w.db f.caller a f.stage).1
      (next conf w.db f.caller a f.stage).2 := by
  have hproper : Proper (next conf w.db f.caller a f.stage).1 := proper_next hw.db.proper
  have hkept : Kept w.db (next conf w.db f.caller a f.stage).1 := kept_next
  have hreads : ∀ stage, (next conf w.db f.caller a f.stage).1 = w.db →
      (next conf w.db f.caller a f.stage).2 = some stage →
        Carries conf.shared w.db f.caller stage := by
    refine fun stage hsame hst => carries_reads hw.db (hw.own f hf) ?_ hsame hst
    intro profile proxy personaId overrides hstage
    rw [hstage] at hg
    exact hg
  obtain ⟨id, c, stage⟩ := f
  cases stage with
  | inserting row count =>
    cases count with
    | zero => exact .of_read hw fun stage hst => by cases hst
    | succ n => exact keeps_insert hw hf rfl
  | updating profile proxy overrides => exact keeps_updating hw hf rfl
  | trashing profile =>
    exact keeps_of_fewer hw hproper hkept rfl
      (fewer_update fun _ => ⟨(fun h => by cases h), rfl, rfl, rfl⟩)
      (live_update hw.db fun _ => ⟨(fun h => by cases h), rfl⟩) (fun _ h => by cases h)
  | restoring profile => exact keeps_restoring hw hg
  | purging profile =>
    refine keeps_of_fewer hw hproper hkept rfl (fun p hp _ hd => ?_) (fun p hp hd => ?_)
      (fun _ h => by cases h)
    · exact ⟨p, (mem_deleteWhere.mp hp).1, hd, rfl, rfl, rfl⟩
    · exact hw.db.live p (mem_deleteWhere.mp hp).1 hd
  | moving todo project moved =>
    cases todo with
    | nil =>
      exact keeps_of_fewer hw hproper hkept rfl (fewer_update fun _ => ⟨fun h => h, rfl, rfl, rfl⟩)
        (live_update hw.db fun _ => ⟨fun h => h, rfl⟩) (fun _ h => by cases h)
    | cons id todo => exact .of_read hw fun stage hst => hreads stage rfl hst
  | trashingProject project =>
    exact keeps_of_fewer hw hproper hkept rfl
      (fewer_update fun _ => ⟨(fun h => by cases h), rfl, rfl, rfl⟩)
      (live_update hw.db fun _ => ⟨(fun h => by cases h), rfl⟩) (fun _ h => by cases h)
  | savingPersona persona =>
    refine .of_last (sound_of_personas hw hproper hkept rfl fun m hm hstands => ?_)
    by_cases huses : m.org = c.org ∧ m.Uses persona.id
    · exact hg m hm huses.1 huses.2
    · exact (stands_savePersona hw.db.proper.personas fun horg hu => huses ⟨horg, hu⟩).trans hstands
  | deletingPersona id =>
    refine .of_last (sound_of_personas hw hproper hkept rfl fun m hm hstands => ?_)
    exact (stands_deletePersona hw.db.proper.personas (hg m hm)).trans hstands
  | _ => exact .of_read hw fun stage hst => hreads stage rfl hst

/-- Machines stand over a guarded step. -/
theorem sound_step (conf : Config) :
    Preserved (step conf) (Guard conf) (Sound (Tables conf.shared) (Carries conf.shared)) := by
  refine sound_preserved (fun db c req _ => carries_nothing rfl rfl rfl) ?_ ?_
  · exact fun w f a hw hf hg => keeps_next hw hf (hg f hf rfl)
  · intro w x hw
    have hpersonas : (change w.db x).personas = w.db.personas := by cases x <;> rfl
    have hprofiles : (change w.db x).profiles = w.db.profiles := by cases x <;> rfl
    exact sound_of_personas hw (proper_change hw.db.proper x) (kept_change w.db x) hprofiles
      fun m _ hstands => (stands_of_personas hpersonas).trans hstands

end Runs

/-- Nothing is in flight, and every live profile's machine stands. -/
def Start (s : Shared) (w : World) : Prop := w.flights.all = [] ∧ Tables s w.db

/-- Over every careful run, a profile outside of the trash has a machine in its organisation's
catalogue that what it pins applies to. -/
theorem live_machines_stand (conf : Config) {w : World}
    (hr : Reached (Start conf.shared) (step conf) (Guard conf) w) :
    ∀ p ∈ w.db.profiles, p.deleted = false →
      w.db.stands conf.shared p.org p.personaId p.overrides = true := by
  have hsound : Sound (Tables conf.shared) (Carries conf.shared) w := by
    refine hr.invariant _ ?_ (sound_step conf)
    rintro w ⟨hnone, htables⟩
    exact .of_idle htables hnone
  exact hsound.db.live

/-- A machine that can exist. -/
def office (id : String) (cores : ℕ) : Persona where
  id := id
  weight := 1 / 2
  os := ⟨"Windows", "Win32", "Windows", "Mozilla/5.0 (Windows NT 10.0; Win64; x64)"⟩
  gpu := ⟨"Intel UHD 630 (0x00003E92) Direct3D11", none⟩
  screen := ⟨1920, 1080, 1920, 1040, 24, 1⟩
  scrollbarWidth := 15
  cores := cores
  memoryGb := 8
  maxTouchPoints := 0
  sampleRate := 48000
  fonts := ["Segoe UI", "Calibri"]
  mobile := none

/-- A server with one built-in machine. -/
def small : Config := ⟨⟨[office "win11-uhd630" 8], ["en-US"], String.toLower⟩, none⟩

theorem start_empty : Start small.shared empty :=
  ⟨rfl, proper_empty, fun _ h => by cases h⟩

/-- An owner asks for something, and so many statements of it run. -/
def asks (id statements : ℕ) (req : Request) : List Label :=
  .arrives ⟨1, 1, .owner⟩ (.arrived req) ::
    List.replicate statements (.runs id ⟨Permissions.PermSet.all, .none, false⟩)

/-- They bring a machine of their own, and make a profile on it. -/
def onOwnMachine : List Label :=
  [.outside (.addProject 1), .outside (.addProxy 1 true)] ++
    asks 0 2 (.addOrgPersona (office "lab-7" 8)) ++
    asks 1 6 (.createProfile ⟨0, "lab-7", { MachineOverrides.default with cores := some 4 }, some 1⟩)

/-- The machine is replaced by one that fits, and the profile comes back from the trash. -/
theorem live_machines_stand_replaced :
    ∃ w', run (step small) empty (onOwnMachine ++
        asks 2 2 (.addOrgPersona (office "lab-7" 12)) ++ asks 3 2 (.deleteProfile 2) ++
        asks 4 2 (.restoreProfile 2)) = some w' ∧
      (w'.db.profiles.map fun p => (p.id, p.deleted)) = [(2, false)] ∧
      ∀ p ∈ w'.db.profiles, p.deleted = false →
        w'.db.stands small.shared p.org p.personaId p.overrides = true := by
  have hrun : ((run (step small) empty (onOwnMachine ++
        asks 2 2 (.addOrgPersona (office "lab-7" 12)) ++ asks 3 2 (.deleteProfile 2) ++
        asks 4 2 (.restoreProfile 2))).map
      fun w' => w'.db.profiles.map fun p => (p.id, p.deleted)) = some [(2, false)] := by
    decide +kernel
  obtain ⟨w', h, hprofiles⟩ := Option.map_eq_some_iff.mp hrun
  have hstart : Reached (Start small.shared) (step small) (Guard small) empty := .start start_empty
  exact ⟨w', h, hprofiles, live_machines_stand small (hstart.run _ (by decide +kernel) h)⟩

/-- The profile goes to the trash, its machine is deleted, and it comes back without one. -/
theorem restored_without_machine :
    ¬ ∀ (conf : Config) (w : World), Reached (Start conf.shared) (step conf) anyStep w →
      ∀ p ∈ w.db.profiles, p.deleted = false →
        w.db.stands conf.shared p.org p.personaId p.overrides = true := by
  intro hall
  have hrun : ((run (step small) empty (onOwnMachine ++ asks 2 2 (.deleteProfile 2) ++
        asks 3 3 (.deleteOrgPersona "lab-7") ++ asks 4 2 (.restoreProfile 2))).map
      fun w' => w'.db.profiles.all fun p =>
        p.deleted || w'.db.stands small.shared p.org p.personaId p.overrides) = some false := by
    decide +kernel
  obtain ⟨w', h, hfalls⟩ := Option.map_eq_some_iff.mp hrun
  have hstart : Reached (Start small.shared) (step small) anyStep empty := .start start_empty
  have hstands := hall small w' (hstart.run_any _ h)
  have htrue : (w'.db.profiles.all fun p =>
      p.deleted || w'.db.stands small.shared p.org p.personaId p.overrides) = true := by
    refine List.all_eq_true.mpr fun p hp => ?_
    cases hd : p.deleted with
    | true => rfl
    | false => simpa using hstands p hp hd
  exact Bool.false_ne_true (hfalls.symm.trans htrue)

end FuryBrowser.StandingMachines
