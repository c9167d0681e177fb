import FuryBrowser.InFlight
import FuryBrowser.ProfileRequests

/-!
# Requests about profiles, in any order

Any number of requests about profiles and machines are in flight over the tables of
`ProfileRequests`, and projects and proxies come and go besides. What each of them leaves
as it was is said here once.
-/

namespace FuryBrowser.ProfileRuns

open GuardedRuns RowTable Permissions Machines InFlight ProfileRequests
open TeamTables (Project)
open TeamRequests (Caller)

/-- What other requests do to the tables. -/
inductive Change where
  /-- `create_project`. -/
  | addProject (org : ℕ)
  /-- `create_proxy`. -/
  | addProxy (org : ℕ) (stored : Bool)
  /-- `edit_proxy`, with credentials. -/
  | storeCredentials (proxy : ℕ)
  | retireProxy (proxy : ℕ)
  deriving DecidableEq, Repr

/-- What a change makes of the tables. -/
def change (db : Db) : Change → Db
  | .addProject org =>
    { db with projects := ⟨db.fresh, org, false⟩ :: db.projects, fresh := db.fresh + 1 }
  | .addProxy org stored =>
    { db with proxies := ⟨db.fresh, org, stored, false⟩ :: db.proxies, fresh := db.fresh + 1 }
  | .storeCredentials proxy =>
    { db with proxies :=
                updateWhere (fun x => x.id = proxy) (fun x => { x with stored := true }) db.proxies }
  | .retireProxy proxy =>
    { db with proxies :=
                updateWhere (fun x => x.id = proxy) (fun x => { x with deleted := true }) db.proxies }

/-- A request begins with its first statement. -/
def Stage.isArrived : Stage → Bool
  | .arrived _ => true
  | _ => false

/-- The handlers. -/
def handlers (conf : Config) : Handlers Db Caller Stage Access Change where
  arrives := Stage.isArrived
  next db c a stage := some (next conf db c a stage)
  outside := change

/-- The tables of a server and its requests. -/
abbrev World := InFlight.World Db Caller Stage

/-- What happens next. -/
abbrev Label := InFlight.Label Caller Stage Access Change

/-- One step. -/
abbrev step (conf : Config) : World → Label → Option World := InFlight.step (handlers conf)

/-- A server with nothing stored. -/
def empty : World := ⟨⟨[], [], [], [], 0⟩, .none⟩

/-- Primary keys. -/
structure Proper (db : Db) : Prop where
  profiles : KeyUnique Profile.id db.profiles
  proxies : KeyUnique Proxy.id db.proxies
  projects : KeyUnique Project.id db.projects
  /-- Of `org_personas`. -/
  personas : KeyUnique OrgPersona.key db.personas
  /-- A new id is no profile's. -/
  freshProfile : ∀ p ∈ db.profiles, p.id < db.fresh
  freshProxy : ∀ x ∈ db.proxies, x.id < db.fresh
  freshProject : ∀ q ∈ db.projects, q.id < db.fresh

theorem proper_empty : Proper empty.db where
  profiles := keyUnique_nil
  proxies := keyUnique_nil
  projects := keyUnique_nil
  personas := keyUnique_nil
  freshProfile := fun _ h => by cases h
  freshProxy := fun _ h => by cases h
  freshProject := fun _ h => by cases h

/-- What no statement changes: rows are of the organisation they were of, projects and
proxies stay in the tables, and a profile is the machine it was. -/
structure Kept (db db' : Db) : Prop where
  /-- A project is still there. -/
  projects : ∀ q ∈ db.projects, ∃ q' ∈ db'.projects, q'.id = q.id ∧ q'.org = q.org
  proxies : ∀ x ∈ db.proxies, ∃ x' ∈ db'.proxies, x'.id = x.id ∧ x'.org = x.org
  /-- A profile was there, or is new. -/
  profiles : ∀ p' ∈ db'.profiles, db.fresh ≤ p'.id ∨
    ∃ p ∈ db.profiles, p'.id = p.id ∧ p'.org = p.org ∧ p'.personaId = p.personaId
  fresh : db.fresh ≤ db'.fresh

theorem Kept.refl (db : Db) : Kept db db where
  projects := fun q hq => ⟨q, hq, rfl, rfl⟩
  proxies := fun x hx => ⟨x, hx, rfl, rfl⟩
  profiles := fun p hp => .inr ⟨p, hp, rfl, rfl, rfl⟩
  fresh := Nat.le_refl _

section Updates

variable {db : Db} {c : Caller}

/-- An update of profiles that leaves their ids. -/
theorem Proper.updateProfiles (h : Proper db) {p : Profile → Bool} {f : Profile → Profile}
    (hf : ∀ r, (f r).id = r.id) : Proper (updateProfiles db p f) :=
  { h with
    profiles := h.profiles.updateWhere fun r _ => hf r
    freshProfile := fun r hr => by
      rcases updateWhere_cases hr with ⟨hin, _⟩ | ⟨old, hold, _, rfl⟩
      · exact h.freshProfile r hin
      · exact (hf old).symm ▸ h.freshProfile old hold }

theorem Proper.insertProfile (h : Proper db) (row : NewProfile) :
    Proper (insertProfile db c row) :=
  { h with
    profiles := h.profiles.cons fun p hp => Nat.ne_of_lt (h.freshProfile p hp)
    freshProfile := fun p hp => by
      rcases List.mem_cons.mp hp with rfl | hin
      · exact Nat.lt_succ_self _
      · exact Nat.lt_succ_of_lt (h.freshProfile p hin)
    freshProxy := fun x hx => Nat.lt_succ_of_lt (h.freshProxy x hx)
    freshProject := fun q hq => Nat.lt_succ_of_lt (h.freshProject q hq) }

theorem Kept.insertProfile (db : Db) (c : Caller) (row : NewProfile) :
    Kept db (insertProfile db c row) :=
  { Kept.refl db with
    profiles := fun p hp => by
      rcases List.mem_cons.mp hp with rfl | hin
      · exact .inl (Nat.le_refl _)
      · exact .inr ⟨p, hin, rfl, rfl, rfl⟩
    fresh := Nat.le_succ _ }

theorem Kept.updateProfiles (db : Db) {p : Profile → Bool} {f : Profile → Profile}
    (hf : ∀ r, (f r).id = r.id ∧ (f r).org = r.org ∧ (f r).personaId = r.personaId) :
    Kept db (updateProfiles db p f) :=
  { Kept.refl db with
    profiles := fun r hr => by
      rcases updateWhere_cases hr with ⟨hin, _⟩ | ⟨old, hold, _, rfl⟩
      · exact .inr ⟨r, hin, rfl, rfl, rfl⟩
      · exact .inr ⟨old, hold, hf old⟩ }

/-- A row that is changed but not in its key or its organisation is still there. -/
theorem updated_still {ρ : Type} {id org : ρ → ℕ} {rows : List ρ} {r : ρ} (p : ρ → Bool)
    {f : ρ → ρ} (hr : r ∈ rows) (hf : id (f r) = id r ∧ org (f r) = org r) :
    ∃ r' ∈ updateWhere p f rows, id r' = id r ∧ org r' = org r := by
  cases hp : p r with
  | true => exact ⟨f r, mem_updateWhere_of hr hp, hf⟩
  | false => exact ⟨r, mem_updateWhere_of_not hr hp, rfl, rfl⟩

end Updates

section Statements

variable {conf : Config} {db : Db} {c : Caller} {a : Access} {stage : Stage}

theorem proper_next (h : Proper db) : Proper (next conf db c a stage).1 := by
  cases stage with
  | inserting row count =>
    cases count with
    | zero => exact h
    | succ n => exact h.insertProfile row
  | updating profile proxy overrides => exact h.updateProfiles fun _ => rfl
  | trashing profile => exact h.updateProfiles fun _ => rfl
  | restoring profile => exact h.updateProfiles fun _ => rfl
  | purging profile =>
    exact { h with
      profiles := h.profiles.deleteWhere
      freshProfile := fun p hp => h.freshProfile p (mem_deleteWhere.mp hp).1 }
  | moving todo project moved =>
    cases todo with
    | nil => exact h.updateProfiles fun _ => rfl
    | cons id todo => exact h
  | trashingProject project =>
    have hprofiles := h.updateProfiles (p := fun p => p.project = project && p.org = c.org)
      (f := fun p => { p with deleted := true }) fun _ => rfl
    exact { hprofiles with
      projects := h.projects.updateWhere fun _ _ => rfl
      freshProject := fun q hq => by
        rcases updateWhere_cases hq with ⟨hin, _⟩ | ⟨old, hold, _, rfl⟩
        · exact h.freshProject q hin
        · exact h.freshProject old hold }
  | savingPersona persona => exact { h with personas := h.personas.put }
  | deletingPersona id => exact { h with personas := h.personas.deleteWhere }
  | _ => exact h

theorem kept_next : Kept db (next conf db c a stage).1 := by
  cases stage with
  | inserting row count =>
    cases count with
    | zero => exact .refl db
    | succ n => exact .insertProfile db c row
  | updating profile proxy overrides => exact .updateProfiles db fun _ => ⟨rfl, rfl, rfl⟩
  | trashing profile => exact .updateProfiles db fun _ => ⟨rfl, rfl, rfl⟩
  | restoring profile => exact .updateProfiles db fun _ => ⟨rfl, rfl, rfl⟩
  | purging profile =>
    exact { Kept.refl db with
      profiles := fun p hp => .inr ⟨p, (mem_deleteWhere.mp hp).1, rfl, rfl, rfl⟩ }
  | moving todo project moved =>
    cases todo with
    | nil => exact .updateProfiles db fun _ => ⟨rfl, rfl, rfl⟩
    | cons id todo => exact .refl db
  | trashingProject project =>
    have hprofiles := Kept.updateProfiles db (p := fun p => p.project = project && p.org = c.org)
      (f := fun p => { p with deleted := true }) fun _ => ⟨rfl, rfl, rfl⟩
    exact { hprofiles with projects := fun q hq => updated_still _ hq ⟨rfl, rfl⟩ }
  | savingPersona persona => exact { Kept.refl db with }
  | deletingPersona id => exact { Kept.refl db with }
  | _ => exact .refl db

theorem proper_change (h : Proper db) (x : Change) : Proper (change db x) := by
  cases x with
  | addProject org =>
    exact { h with
      projects := h.projects.cons fun q hq => Nat.ne_of_lt (h.freshProject q hq)
      freshProfile := fun p hp => Nat.lt_succ_of_lt (h.freshProfile p hp)
      freshProxy := fun x hx => Nat.lt_succ_of_lt (h.freshProxy x hx)
      freshProject := fun q hq => by
        rcases List.mem_cons.mp hq with rfl | hin
        · exact Nat.lt_succ_self _
        · exact Nat.lt_succ_of_lt (h.freshProject q hin) }
  | addProxy org stored =>
    exact { h with
      proxies := h.proxies.cons fun x hx => Nat.ne_of_lt (h.freshProxy x hx)
      freshProfile := fun p hp => Nat.lt_succ_of_lt (h.freshProfile p hp)
      freshProject := fun q hq => Nat.lt_succ_of_lt (h.freshProject q hq)
      freshProxy := fun x hx => by
        rcases List.mem_cons.mp hx with rfl | hin
        · exact Nat.lt_succ_self _
        · exact Nat.lt_succ_of_lt (h.freshProxy x hin) }
  | storeCredentials proxy =>
    exact { h with
      proxies := h.proxies.updateWhere fun _ _ => rfl
      freshProxy := fun x hx => by
        rcases updateWhere_cases hx with ⟨hin, _⟩ | ⟨old, hold, _, rfl⟩
        · exact h.freshProxy x hin
        · exact h.freshProxy old hold }
  | retireProxy proxy =>
    exact { h with
      proxies := h.proxies.updateWhere fun _ _ => rfl
      freshProxy := fun x hx => by
        rcases updateWhere_cases hx with ⟨hin, _⟩ | ⟨old, hold, _, rfl⟩
        · exact h.freshProxy x hin
        · exact h.freshProxy old hold }

theorem kept_change (db : Db) (x : Change) : Kept db (change db x) := by
  cases x with
  | addProject org =>
    exact { Kept.refl db with
      projects := fun q hq => ⟨q, List.mem_cons_of_mem _ hq, rfl, rfl⟩
      fresh := Nat.le_succ _ }
  | addProxy org stored =>
    exact { Kept.refl db with
      proxies := fun x hx => ⟨x, List.mem_cons_of_mem _ hx, rfl, rfl⟩
      fresh := Nat.le_succ _ }
  | storeCredentials proxy =>
    exact { Kept.refl db with proxies := fun x hx => updated_still _ hx ⟨rfl, rfl⟩ }
  | retireProxy proxy =>
    exact { Kept.refl db with proxies := fun x hx => updated_still _ hx ⟨rfl, rfl⟩ }

end Statements

/-- What a check goes on with, it goes on with because it passed. -/
theorem goOn_some {ok : Bool} {stage stage' : Stage} (h : goOn ok stage = some stage') :
    ok = true ∧ stage' = stage := by
  cases ok with
  | false => cases h
  | true => exact ⟨rfl, (Option.some.inj h).symm⟩

section Steps

variable {conf : Config} {w w' : World}

/-- A statement is one of a request in flight, and does what `next` says. -/
theorem runs_next {id : ℕ} {a : Access} (hs : step conf w (.runs id a) = some w') :
    ∃ f ∈ w.flights.all, f.id = id ∧
      w' = ⟨(next conf w.db f.caller a f.stage).1,
        w.flights.goOn f.id (next conf w.db f.caller a f.stage).2⟩ := by
  obtain ⟨f, hf, hid, db', st, hnext, rfl⟩ := runs_some hs
  have heq : next conf w.db f.caller a f.stage = (db', st) := Option.some.inj hnext
  exact ⟨f, hf, hid, by rw [heq]⟩

theorem proper_step (conf : Config) (guard : World → Label → Prop) :
    Preserved (step conf) guard fun w => Proper w.db := by
  intro w l w' hw _ hs
  cases l with
  | arrives c stage =>
    obtain ⟨_, rfl⟩ := arrives_some hs
    exact hw
  | runs id a =>
    obtain ⟨f, _, _, rfl⟩ := runs_next hs
    exact proper_next hw
  | lost id =>
    cases hs
    exact hw
  | outside x =>
    cases hs
    exact proper_change hw x

/-- Tables and requests stay right when every statement, and every other change, keeps
them so. -/
theorem sound_preserved {guard : World → Label → Prop} {inv : Db → Prop}
    {own : Db → Caller → Stage → Prop}
    (harrives : ∀ db c req, inv db → own db c (.arrived req))
    (hruns : ∀ w f a, Sound inv own w → f ∈ w.flights.all → guard w (.runs f.id a) →
      Keeps inv own w f (next conf w.db f.caller a f.stage).1
        (next conf w.db f.caller a f.stage).2)
    (houtside : ∀ w x, Sound inv own w → Sound inv own { w with db := change w.db x }) :
    Preserved (step conf) guard (Sound inv own) := by
  refine preserved_sound ?_ ?_ fun w x hw _ => houtside w x hw
  · intro db c stage hdb hstage
    cases stage with
    | arrived req => exact harrives db c req hdb
    | _ => cases hstage
  · intro w f a db' st hw hf hg hnext
    have heq : next conf w.db f.caller a f.stage = (db', st) := Option.some.inj hnext
    have hkeeps := hruns w f a hw hf hg
    rwa [heq] at hkeeps

end Steps

end FuryBrowser.ProfileRuns
