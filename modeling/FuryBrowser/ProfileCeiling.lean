import FuryBrowser.ProfileRuns

/-!
# The ceiling on profiles

A server may limit how many profiles an organisation holds outside of the trash. Creating
and cloning count them first; what a count has let through is inserted later, and restoring
a profile counts nothing. The ceiling holds as long as a count that lets a request through
leaves room for what earlier counts have let through, and a restored profile fits besides.
-/

namespace FuryBrowser.ProfileCeiling

open GuardedRuns RowTable InFlight ProfileRequests ProfileRuns
open TeamRequests (Caller)

/-- How many profiles an organisation holds outside of the trash. -/
def used (db : Db) (org : ℕ) : ℕ := (db.live org).length

/-- The rows a request was let insert, and has not inserted yet. -/
def owed : Stage → ℕ
  | .createChecks _ => 1
  | .createProxy _ => 1
  | .cloneReads _ count => count
  | .cloneRequires _ count => count
  | .inserting _ count => count
  | _ => 0

/-- The rows of an organisation that a request still inserts. -/
def owedTo (org : ℕ) (f : Flight Caller Stage) : ℕ := if f.caller.org = org then owed f.stage else 0

/-- All rows of an organisation that were counted for and are not inserted. -/
def pending (w : World) (org : ℕ) : ℕ := w.flights.total (owedTo org)

/-- So many more fit beside those that are there and those that are still to come. -/
def Fits (m : ℤ) (w : World) (org wanted : ℕ) : Prop :=
  (used w.db org : ℤ) + pending w org + wanted ≤ m

instance (m : ℤ) (w : World) (org wanted : ℕ) : Decidable (Fits m w org wanted) := by
  unfold Fits
  infer_instance

/-- The rows that a count in this statement lets in. -/
def letsIn (conf : Config) (db : Db) (org : ℕ) : Stage → ℕ
  | .arrived (.cloneProfile _ count) =>
    if 1 ≤ count && count ≤ 500 && db.hasRoom conf org count then count else 0
  | .createCounts _ => if db.hasRoom conf org 1 then 1 else 0
  | _ => 0

/-- The profile that a statement takes out of the trash. -/
def restores : Stage → Option ℕ
  | .restoring profile => some profile
  | _ => none

/-- A count that lets a request in has room for it beside what was let in before. A profile
that comes back from the trash has room, unless its organisation holds too many already. -/
def Roomy (conf : Config) (m : ℤ) (w : World) (f : Flight Caller Stage) : Prop :=
  (0 < letsIn conf w.db f.caller.org f.stage →
    Fits m w f.caller.org (letsIn conf w.db f.caller.org f.stage)) ∧
  ∀ p ∈ w.db.profiles, restores f.stage = some p.id → p.deleted = true →
    (used w.db p.org : ℤ) ≤ m → Fits m w p.org 1

/-- Every statement that counts or restores has room. -/
def Guard (conf : Config) (m : ℤ) (w : World) : Label → Prop
  | .runs id _ => ∀ f ∈ w.flights.all, f.id = id → Roomy conf m w f
  | _ => True

instance (conf : Config) (m : ℤ) : DecidableRel (Guard conf m) := fun w l => by
  rcases l with _ | _ | _ | _ <;> dsimp only [Guard, Roomy] <;> infer_instance

/-- Any tables, and nothing in flight. -/
def Start (w : World) : Prop := Proper w.db ∧ w.flights.all = []

/-- What is still to be inserted fits. -/
def Within (m : ℤ) (used pending : ℕ) : Prop := pending = 0 ∨ (used : ℤ) + pending ≤ m

/-- What a step may do to the two numbers. -/
structure Safe (m : ℤ) (used pending used' pending' : ℕ) : Prop where
  /-- What is still to be inserted fits afterwards. -/
  within : Within m used pending → Within m used' pending'
  /-- The ceiling holds afterwards. -/
  ceiling : Within m used pending → (used : ℤ) ≤ m → (used' : ℤ) ≤ m

section Numbers

variable {m : ℤ} {u u' p p' : ℕ}

/-- Nothing is added to what was there or still to come. -/
theorem Safe.of_fewer (hp : p' ≤ p) (hu : u' + p' ≤ u + p) : Safe m u p u' p' where
  within := by
    unfold Within
    omega
  ceiling := by
    unfold Within
    omega

theorem Safe.of_fits (hu : (u : ℤ) ≤ m → (u' : ℤ) + p' ≤ m) (hp : p' ≠ 0 → p ≠ 0 ∨ (u : ℤ) ≤ m) :
    Safe m u p u' p' where
  within := by
    unfold Within
    omega
  ceiling := by
    unfold Within
    omega

end Numbers

section Counts

variable {db : Db} {c : Caller} {org : ℕ}

theorem used_eq (db : Db) (org : ℕ) :
    used db org = db.profiles.countP fun p => p.org = org && !p.deleted :=
  List.countP_eq_length_filter.symm

/-- An update after which no row is live that was not. -/
theorem used_update_le {p : Profile → Bool} {f : Profile → Profile}
    (hf : ∀ r ∈ db.profiles, p r = true → (f r).org = r.org ∧ ((f r).deleted = false →
      r.deleted = false)) : used (updateProfiles db p f) org ≤ used db org := by
  rw [used_eq, used_eq]
  simp only [updateProfiles, updateWhere, List.countP_map]
  refine List.countP_mono_left fun r hr hlive => ?_
  simp only [Function.comp_apply] at hlive
  cases hp : p r with
  | false => simpa [hp] using hlive
  | true =>
    obtain ⟨horg, hdeleted⟩ := hf r hr hp
    simp only [hp, if_true, Bool.and_eq_true, Bool.not_eq_true', decide_eq_true_eq] at hlive ⊢
    exact ⟨horg ▸ hlive.1, hdeleted hlive.2⟩

theorem used_insert (row : NewProfile) :
    used (insertProfile db c row) org = used db org + if c.org = org then 1 else 0 := by
  rw [used_eq, used_eq]
  simp [insertProfile, List.countP_cons]

/-- Restoring a profile adds one where it lay in the trash, and none elsewhere. -/
theorem used_restore (h : Proper db) (org profile : ℕ) :
    let db' := updateProfiles db (fun p => p.id = profile) fun p => { p with deleted := false }
    used db' org ≤ used db org ∨ ∃ p ∈ db.profiles, p.id = profile ∧ p.deleted = true ∧
      p.org = org ∧ used db' org = used db org + 1 := by
  intro db'
  have hused' : used db' org = (updateWhere (fun p => p.id = profile)
      (fun p => { p with deleted := false }) db.profiles).countP
      fun p => p.org = org && !p.deleted := used_eq db' org
  have hused := used_eq db org
  cases hl : lookup Profile.id db.profiles profile with
  | none =>
    have hnot : ∀ p ∈ db.profiles, decide (p.id = profile) = false := fun p hp => by
      simpa using lookup_none hl p hp
    rw [updateWhere_of_not hnot] at hused'
    exact .inl (Nat.le_of_eq (hused'.trans hused.symm))
  | some p =>
    obtain ⟨hp, rfl⟩ := lookup_some hl
    have hcount := countP_updateWhere h.profiles hp (fun p => { p with deleted := false })
      fun p => p.org = org && !p.deleted
    rw [← hused', ← hused] at hcount
    by_cases horg : p.org = org
    · cases hdeleted : p.deleted with
      | true =>
        refine .inr ⟨p, hp, rfl, hdeleted, horg, ?_⟩
        simpa [horg, hdeleted] using hcount
      | false =>
        refine .inl (Nat.le_of_eq ?_)
        simpa [horg, hdeleted] using hcount
    · refine .inl (Nat.le_of_eq ?_)
      simpa [horg] using hcount

/-- The rows a request goes on to insert. -/
def owes (st : Option Stage) : ℕ := (st.map owed).getD 0

theorem owes_goOn (ok : Bool) (stage : Stage) : owes (goOn ok stage) ≤ owed stage := by
  cases ok with
  | false => exact Nat.zero_le _
  | true => exact Nat.le_refl _

theorem owes_moveNext {a : Access} {id project : ℕ} {todo moved : List ℕ} :
    owes (moveNext db c a id todo project moved) = 0 := by
  unfold moveNext
  cases (db.profile id).filter fun p => p.org = c.org && !p.deleted with
  | none => rfl
  | some p =>
    simp only [Option.bind_some]
    split
    · rfl
    · exact Nat.eq_zero_of_le_zero (owes_goOn _ _)

theorem owes_editReads {profile proxy : ℕ} {overrides : Option Machines.MachineOverrides}
    {perms : Permissions.PermSet} : owes (editReads db profile proxy overrides perms) = 0 := by
  unfold editReads
  cases db.profile profile with
  | none => rfl
  | some p =>
    simp only [Option.bind_some]
    split
    · rfl
    · split
      · exact Nat.eq_zero_of_le_zero (owes_goOn _ _)
      · rfl

end Counts

section Steps

variable {conf : Config} {m : ℤ} {w w' : World} {f : Flight Caller Stage} {a : Access} {org : ℕ}

/-- A request counts as what it goes on with. -/
theorem pending_goOn (hf : f ∈ w.flights.all) (org : ℕ) (db' : Db) (st : Option Stage) :
    pending ⟨db', w.flights.goOn f.id st⟩ org + owedTo org f =
      pending w org + if f.caller.org = org then owes st else 0 := by
  unfold pending
  rw [Flights.total_goOn hf]
  cases st with
  | none => simp [owes]
  | some stage => simp [owes, owedTo]

/-- A statement that lets nothing more in and adds no profile that was not owed. -/
theorem safe_of_paid (hf : f ∈ w.flights.all) {db' : Db} {st : Option Stage}
    (howes : owes st ≤ owed f.stage)
    (hused : used db' org + (if f.caller.org = org then owes st else 0) ≤
      used w.db org + owedTo org f) :
    Safe m (used w.db org) (pending w org) (used db' org)
      (pending ⟨db', w.flights.goOn f.id st⟩ org) := by
  have hpending := pending_goOn hf org db' st
  have hle : (if f.caller.org = org then owes st else 0) ≤ owedTo org f := by
    unfold owedTo
    split
    · exact howes
    · exact Nat.le_refl _
  exact .of_fewer (by omega) (by omega)

/-- A statement that only reads, and lets nothing in. -/
theorem safe_of_read (hf : f ∈ w.flights.all) {st : Option Stage}
    (howes : owes st ≤ owed f.stage) :
    Safe m (used w.db org) (pending w org) (used w.db org)
      (pending ⟨w.db, w.flights.goOn f.id st⟩ org) := by
  refine safe_of_paid hf howes (Nat.add_le_add_left ?_ _)
  unfold owedTo
  split
  · exact howes
  · exact Nat.le_refl _

/-- The last statement of a request that adds no profile. -/
theorem safe_of_last (hf : f ∈ w.flights.all) {db' : Db} (hused : used db' org ≤ used w.db org) :
    Safe m (used w.db org) (pending w org) (used db' org)
      (pending ⟨db', w.flights.goOn f.id none⟩ org) := by
  refine safe_of_paid hf (Nat.zero_le _) ?_
  simp only [owes, Option.map_none, Option.getD_none, ite_self, Nat.add_zero]
  omega

theorem safe_of_count (hf : f ∈ w.flights.all) (howed : owed f.stage = 0) {ok : Bool}
    {stage : Stage} (hfits : ok = true → Fits m w f.caller.org (owed stage)) :
    Safe m (used w.db org) (pending w org) (used w.db org)
      (pending ⟨w.db, w.flights.goOn f.id (goOn ok stage)⟩ org) := by
  have hpending := pending_goOn hf org w.db (goOn ok stage)
  have hzero : owedTo org f = 0 := by simp [owedTo, howed]
  rw [hzero] at hpending
  by_cases hnow : ok = true ∧ f.caller.org = org
  · obtain ⟨rfl, rfl⟩ := hnow
    have hroom := hfits rfl
    have howes : owes (goOn true stage) = owed stage := rfl
    simp only [howes, if_true, Nat.add_zero] at hpending
    unfold Fits at hroom
    exact .of_fits (fun _ => by omega) fun _ => .inr (by omega)
  · have hnone : (if f.caller.org = org then owes (goOn ok stage) else 0) = 0 := by
      by_cases horg : f.caller.org = org
      · have hok : ok = false := by simpa [horg] using hnow
        simp [hok, goOn, owes]
      · simp [horg]
    rw [hnone] at hpending
    exact .of_fewer (by omega) (by omega)

/-- A profile that is taken out of the trash has room, and nothing more is owed. -/
theorem safe_restoring {id : ℕ} {c : Caller} {profile : ℕ} (hp : Proper w.db)
    (hf : ⟨id, c, .restoring profile⟩ ∈ w.flights.all)
    (hg : Roomy conf m w ⟨id, c, .restoring profile⟩) (org : ℕ) :
    Safe m (used w.db org) (pending w org) (used (next conf w.db c a (.restoring profile)).1 org)
      (pending ⟨(next conf w.db c a (.restoring profile)).1,
        w.flights.goOn id (next conf w.db c a (.restoring profile)).2⟩ org) := by
  rcases used_restore hp org profile with hle | ⟨p, hin, hid, hdeleted, rfl, hused⟩
  · exact safe_of_last hf hle
  · have hpending := pending_goOn hf p.org (next conf w.db c a (.restoring profile)).1 none
    have hroom := hg.2 p hin (by rw [hid]; rfl) hdeleted
    simp only [owedTo, owed, owes, ite_self, Nat.add_zero, Option.map_none,
      Option.getD_none] at hpending
    refine .of_fits (fun hu => ?_) fun hne => .inl (by rwa [← hpending])
    have hfits := hroom hu
    simp only [Fits] at hfits
    simp only [next] at hpending ⊢
    rw [hpending, hused]
    push_cast
    omega

/-- A statement keeps what is owed within the room there is. -/
theorem safe_runs (hp : Proper w.db) (hf : f ∈ w.flights.all)
    (hg : Roomy conf m w f) (org : ℕ) :
    Safe m (used w.db org) (pending w org)
      (used (next conf w.db f.caller a f.stage).1 org)
      (pending ⟨(next conf w.db f.caller a f.stage).1,
        w.flights.goOn f.id (next conf w.db f.caller a f.stage).2⟩ org) := by
  obtain ⟨id, c, stage⟩ := f
  cases stage with
  | arrived req =>
    cases req with
    | cloneProfile profile count =>
      refine safe_of_count hf rfl fun hok => ?_
      have hcount : 1 ≤ count := by
        simp only [Bool.and_eq_true, decide_eq_true_eq] at hok
        exact hok.1.1
      have hfits := hg.1
      simp only [letsIn, hok, if_true] at hfits
      exact hfits hcount
    | _ => exact safe_of_read hf (owes_goOn _ _)
  | createCounts row =>
    refine safe_of_count hf rfl fun hok => ?_
    have hfits := hg.1
    simp only [letsIn, hok, if_true] at hfits
    exact hfits Nat.one_pos
  | createChecks row => exact safe_of_read hf (owes_goOn _ _)
  | createProxy row => exact safe_of_read hf (owes_goOn _ _)
  | cloneReads profile count =>
    refine safe_of_read hf ?_
    simp only [next]
    cases (w.db.profile profile).filter fun p => p.org = c.org && !p.deleted with
    | none => exact Nat.zero_le _
    | some p => exact Nat.le_refl _
  | cloneRequires row count => exact safe_of_read hf (owes_goOn _ _)
  | inserting row count =>
    cases count with
    | zero => exact safe_of_read hf (Nat.le_refl _)
    | succ n =>
      refine safe_of_paid hf (Nat.le_succ n) ?_
      simp only [next, used_insert, owes, owedTo, owed, Option.map_some, Option.getD_some]
      split <;> omega
  | editReads profile proxy overrides perms =>
    exact safe_of_read hf (Nat.le_of_eq owes_editReads)
  | editChecks profile proxy personaId overrides => exact safe_of_read hf (owes_goOn _ _)
  | editProxy profile proxy overrides => exact safe_of_read hf (owes_goOn _ _)
  | updating profile proxy overrides =>
    exact safe_of_last hf (used_update_le fun _ _ _ => ⟨rfl, fun hlive => hlive⟩)
  | trashing profile =>
    exact safe_of_last hf (used_update_le fun _ _ _ => ⟨rfl, fun hd => by cases hd⟩)
  | restoring profile => exact safe_restoring hp hf hg org
  | purging profile =>
    refine safe_of_last hf ?_
    rw [used_eq, used_eq]
    exact List.filter_sublist.countP_le
  | moving todo project moved =>
    cases todo with
    | nil => exact safe_of_last hf (used_update_le fun _ _ _ => ⟨rfl, fun hlive => hlive⟩)
    | cons id todo => exact safe_of_read hf (Nat.le_of_eq owes_moveNext)
  | trashingProject project =>
    exact safe_of_last hf (used_update_le fun _ _ _ => ⟨rfl, fun hd => by cases hd⟩)
  | savingPersona persona => exact safe_of_last hf (Nat.le_refl _)
  | deletingCounts id => exact safe_of_read hf (owes_goOn _ _)
  | deletingPersona id => exact safe_of_last hf (Nat.le_refl _)

/-- Whatever happens, the rows that are owed fit, and no ceiling is passed. -/
theorem safe_step (hp : Proper w.db) {l : Label} (hg : Guard conf m w l)
    (hs : step conf w l = some w') (org : ℕ) :
    Safe m (used w.db org) (pending w org) (used w'.db org) (pending w' org) := by
  cases l with
  | arrives c stage =>
    obtain ⟨harrived, rfl⟩ := arrives_some hs
    have hnone : owed stage = 0 := by
      cases stage with
      | arrived req => rfl
      | _ => cases harrived
    have hpending : pending { w with flights := w.flights.start c stage } org =
        pending w org := by
      unfold pending
      rw [Flights.total_start]
      simp [owedTo, hnone]
    exact .of_fewer (Nat.le_of_eq hpending) (Nat.add_le_add_left (Nat.le_of_eq hpending) _)
  | runs id a =>
    obtain ⟨f, hf, rfl, rfl⟩ := runs_next hs
    exact safe_runs hp hf (hg f hf rfl) org
  | lost id =>
    cases hs
    have hle : (w.flights.drop id).total (owedTo org) ≤ w.flights.total (owedTo org) :=
      Flights.total_drop_le (owedTo org)
    exact .of_fewer hle (Nat.add_le_add_left hle _)
  | outside x =>
    cases hs
    have hused : used (change w.db x) org = used w.db org := by cases x <;> rfl
    exact .of_fewer (Nat.le_refl _) (Nat.add_le_add_right (Nat.le_of_eq hused) _)

end Steps

section Runs

variable {conf : Config} {m : ℤ}

/-- What every guarded run keeps. -/
structure Inv (m : ℤ) (w : World) : Prop where
  proper : Proper w.db
  /-- What is counted for and not inserted fits. -/
  within : ∀ org, Within m (used w.db org) (pending w org)

theorem inv_start {w : World} (h : Start w) : Inv m w :=
  ⟨h.1, fun org => .inl (by simp [pending, Flights.total, h.2])⟩

theorem inv_step : Preserved (step conf) (Guard conf m) (Inv m) := by
  intro w l w' hw hg hs
  have hproper := proper_step conf (Guard conf m) hw.proper hg hs
  exact ⟨hproper, fun org => (safe_step hw.proper hg hs org).within (hw.within org)⟩

/-- The ceiling is not passed by any number of steps. -/
theorem ceiling_run {w w' : World} (hw : Inv m w) (labels : List Label)
    (ha : Allowed (step conf) (Guard conf m) w labels) (h : run (step conf) w labels = some w')
    {org : ℕ} (hin : (used w.db org : ℤ) ≤ m) : (used w'.db org : ℤ) ≤ m := by
  induction labels generalizing w with
  | nil =>
    cases h
    exact hin
  | cons l rest ih =>
    obtain ⟨hg, hrest⟩ := ha
    obtain ⟨t, ht, hrun⟩ := Option.bind_eq_some_iff.mp h
    have hstep := safe_step hw.proper hg ht org
    exact ih (inv_step hw hg ht) (hrest t ht) hrun (hstep.ceiling (hw.within org) hin)

end Runs

/-- An organisation at or under the ceiling never comes to hold more, in any run in which
what is let in and what is restored fits beside what is still to be inserted. -/
theorem profiles_within_ceiling (shared : Machines.Shared) (m : ℤ) {w w' : World}
    (hr : Reached Start (step ⟨shared, some m⟩) (Guard ⟨shared, some m⟩ m) w)
    (labels : List Label) (ha : Allowed (step ⟨shared, some m⟩) (Guard ⟨shared, some m⟩ m) w labels)
    (h : run (step ⟨shared, some m⟩) w labels = some w') (org : ℕ)
    (hin : (used w.db org : ℤ) ≤ m) : (used w'.db org : ℤ) ≤ m :=
  ceiling_run (hr.invariant (Inv m) (fun _ => inv_start) inv_step) labels ha h hin

/-- A server whose machines do not matter. -/
def plain : Machines.Shared := ⟨[], ["en-US"], String.toLower⟩

/-- One organisation with one project, a profile in it, and one in the trash. -/
def cluttered : World where
  db :=
    { projects := [⟨1, 1, false⟩]
      personas := []
      proxies := []
      profiles := [⟨⟨1, "win11", .default, none⟩, 2, 1, false⟩,
        ⟨⟨1, "win11", .default, none⟩, 3, 1, true⟩]
      fresh := 4 }
  flights := .none

theorem start_cluttered : Start cluttered := by
  refine ⟨⟨?_, ?_, ?_, ?_, ?_, ?_, ?_⟩, rfl⟩ <;> (try unfold KeyUnique) <;> decide

/-- Their owner asks for something, and so many statements of it run. -/
def asks (id statements : ℕ) (req : Request) : List Label :=
  .arrives ⟨1, 1, .owner⟩ (.arrived req) ::
    List.replicate statements (.runs id ⟨Permissions.PermSet.all, .none, false⟩)

/-- What was in the trash comes back, and the other profile is cloned, into the room there is. -/
theorem profiles_within_ceiling_cluttered :
    ∃ w', run (step ⟨plain, some 3⟩) cluttered
        (asks 0 2 (.restoreProfile 3) ++ asks 1 5 (.cloneProfile 2 1)) = some w' ∧
      used w'.db 1 = 3 ∧ (used w'.db 1 : ℤ) ≤ 3 := by
  have hrun : ((run (step ⟨plain, some 3⟩) cluttered
      (asks 0 2 (.restoreProfile 3) ++ asks 1 5 (.cloneProfile 2 1))).map
        fun w' => used w'.db 1) = some 3 := by decide
  obtain ⟨w', h, hused⟩ := Option.map_eq_some_iff.mp hrun
  exact ⟨w', h, hused, profiles_within_ceiling plain 3 (.start start_cluttered) _
    (by decide) h 1 (by decide)⟩

/-- An organisation that may hold one profile comes to hold two. -/
theorem restore_passes_ceiling :
    ¬ ∀ (shared : Machines.Shared) (m : ℤ) (w w' : World) (labels : List Label) (org : ℕ),
      Start w → run (step ⟨shared, some m⟩) w labels = some w' →
      (used w.db org : ℤ) ≤ m → (used w'.db org : ℤ) ≤ m := by
  intro hall
  have hrun : ((run (step ⟨plain, some 1⟩) cluttered (asks 0 2 (.restoreProfile 3))).map
      fun w' => used w'.db 1) = some 2 := by decide
  obtain ⟨w', h, hused⟩ := Option.map_eq_some_iff.mp hrun
  have hle := hall plain 1 cluttered w' _ 1 start_cluttered h (by decide)
  rw [hused] at hle
  exact absurd hle (by decide)

end FuryBrowser.ProfileCeiling
