import Mathlib.Data.Int.Notation
import FuryBrowser.InFlight

/-!
# The ceiling on storage

A server may limit how many bytes of bundles an organisation stores. An upload reads once
what its caller's organisation has stored, refuses each chunk that would pass the ceiling,
and records the bundle later, for the profile. The ceiling holds as long as what the
profile's organisation stores when the bundle is recorded is no more than what was read.

The transaction that records a bundle holds the profile's row from its first statement on,
so it is one step.
-/

namespace FuryBrowser.StorageCeiling

open GuardedRuns RowTable InFlight

/-- How the server is set up. -/
structure Config where
  maxBundleBytes : ℕ
  /-- `max_storage_per_org`. -/
  maxStorage : Option ℤ
  /-- `keep_bundle_versions`. -/
  keep : ℤ

/-- A row of `profiles`. -/
structure Profile where
  id : ℕ
  org : ℕ
  /-- `deleted_at` is set. -/
  deleted : Bool
  /-- `current_version`. -/
  current : ℤ
  deriving DecidableEq, Repr

/-- A row of `bundles`. -/
structure Bundle where
  profile : ℕ
  version : ℤ
  /-- `size_bytes`. -/
  size : ℕ
  deriving DecidableEq, Repr

/-- The tables. -/
structure Db where
  profiles : List Profile
  bundles : List Bundle
  /-- The next id to be drawn. -/
  fresh : ℕ
  deriving DecidableEq, Repr

namespace Db

variable (db : Db)

/-- A profile, deleted or not. -/
def profile (id : ℕ) : Option Profile := lookup Profile.id db.profiles id

/-- A bundle is one of an organisation's profiles. -/
def owns (org : ℕ) (b : Bundle) : Bool := (db.profile b.profile).any fun p => p.org = org

/-- `sum(b.size_bytes)` over the profiles of an organisation. -/
def stored (org : ℕ) : ℕ := ((db.bundles.filter (db.owns org)).map Bundle.size).sum

end Db

/-- What an upload carries to its next statement. -/
inductive Stage where
  /-- Its permission and its lock are to be checked. -/
  | arrived (profile : ℕ) (base : ℤ)
  /-- It is about to read what is stored. -/
  | asking (profile : ℕ) (base : ℤ)
  /-- It has read `org_used` and received `written` bytes. -/
  | streaming (profile : ℕ) (base : ℤ) (orgUsed written : ℕ)
  /-- The body fits its digest. -/
  | recording (profile : ℕ) (base : ℤ) (orgUsed written : ℕ)
  deriving DecidableEq, Repr

/-- What a statement of an upload meets. -/
inductive Input where
  | chunk (bytes : ℕ)
  /-- The body has ended, or there is none to come. What else is checked is passed or not:
  permission and lock, the digest, the key's generation. -/
  | passes (ok : Bool)
  deriving DecidableEq, Repr

/-- What other requests do. -/
inductive Change where
  | createProfile (org : ℕ)
  | deleteProfile (profile : ℕ)
  | restoreProfile (profile : ℕ)
  /-- `purge_profile`, whose bundles go with it. -/
  | purgeProfile (profile : ℕ)
  deriving DecidableEq, Repr

/-- A version that a new one makes stale. -/
def isStale (keep : ℤ) (profile : ℕ) (version : ℤ) (b : Bundle) : Bool :=
  0 < keep && b.profile = profile && b.version ≤ version - keep

/-- The bundle of a profile is recorded as its next version, and old versions go. -/
def record (conf : Config) (db : Db) (p : Profile) (written : ℕ) : Db :=
  { db with
    profiles := updateWhere (fun q => q.id = p.id) (fun q => { q with current := p.current + 1 })
      db.profiles
    bundles := deleteWhere (isStale conf.keep p.id (p.current + 1))
      (⟨p.id, p.current + 1, written⟩ :: db.bundles) }

/-- Another chunk is received, unless it is too much. -/
def receives (conf : Config) (profile : ℕ) (base : ℤ) (orgUsed written : ℕ) : Option Stage :=
  if conf.maxBundleBytes < written || conf.maxStorage.any (fun max => max < (orgUsed : ℤ) + written)
  then none
  else some (.streaming profile base orgUsed written)

/-- One statement of an upload by somebody of an organisation. -/
def next (conf : Config) (db : Db) (org : ℕ) : Input → Stage → Option (Db × Option Stage)
  | .passes ok, .arrived profile base => some (db, if ok then some (.asking profile base) else none)
  | .passes _, .asking profile base => some (db, some (.streaming profile base (db.stored org) 0))
  | .chunk bytes, .streaming profile base orgUsed written =>
    some (db, receives conf profile base orgUsed (written + bytes))
  | .passes ok, .streaming profile base orgUsed written =>
    some (db, if ok then some (.recording profile base orgUsed written) else none)
  | .passes ok, .recording profile base _ written =>
    match (db.profile profile).filter fun p => ok && p.current = base with
    | none => some (db, none)
    | some p => some (record conf db p written, none)
  | .chunk _, _ => none

/-- What a change makes of the tables. -/
def change (db : Db) : Change → Db
  | .createProfile org =>
    { db with profiles := ⟨db.fresh, org, false, 0⟩ :: db.profiles, fresh := db.fresh + 1 }
  | .deleteProfile profile =>
    { db with profiles :=
                updateWhere (fun p => p.id = profile) (fun p => { p with deleted := true })
                  db.profiles }
  | .restoreProfile profile =>
    { db with profiles :=
                updateWhere (fun p => p.id = profile) (fun p => { p with deleted := false })
                  db.profiles }
  | .purgeProfile profile =>
    if (db.profile profile).any Profile.deleted then
      { db with
        profiles := deleteWhere (fun p => p.id = profile) db.profiles
        bundles := deleteWhere (fun b => b.profile = profile) db.bundles }
    else db

/-- An upload begins with its checks. -/
def Stage.isArrived : Stage → Bool
  | .arrived _ _ => true
  | _ => false

/-- The handlers. -/
def handlers (conf : Config) : Handlers Db ℕ Stage Input Change where
  arrives := Stage.isArrived
  next := next conf
  outside := change

/-- The tables, and the uploads over them, each of somebody of an organisation. -/
abbrev World := InFlight.World Db ℕ Stage

/-- What happens next. -/
abbrev Label := InFlight.Label ℕ Stage Input Change

/-- One step. -/
abbrev step (conf : Config) : World → Label → Option World := InFlight.step (handlers conf)

/-- When a bundle is recorded, the profile's organisation stores no more than the upload read,
or nothing is added. -/
def upToDate (db : Db) : Stage → Prop
  | .recording profile _ orgUsed written => written = 0 ∨
      ∀ p ∈ db.profile profile, db.stored p.org ≤ orgUsed
  | _ => True

instance (db : Db) (stage : Stage) : Decidable (upToDate db stage) := by
  cases stage <;> dsimp only [upToDate] <;> infer_instance

/-- Every bundle is recorded on what was read. -/
def Guard (w : World) : Label → Prop
  | .runs id _ => ∀ f ∈ w.flights.all, f.id = id → upToDate w.db f.stage
  | _ => True

instance : DecidableRel Guard := fun w l => by
  rcases l with _ | _ | _ | _ <;> dsimp only [Guard] <;> infer_instance

/-- Keys, and what refers to them. -/
structure Proper (db : Db) : Prop where
  /-- The primary key of `profiles`. -/
  profiles : KeyUnique Profile.id db.profiles
  /-- A new id is no profile's. -/
  fresh : ∀ p ∈ db.profiles, p.id < db.fresh
  /-- Nor does a bundle refer to it. -/
  drawn : ∀ b ∈ db.bundles, b.profile < db.fresh

/-- What an upload has received fits beside what it read. -/
def Fits (m : ℤ) : Stage → Prop
  | .streaming _ _ orgUsed written => written = 0 ∨ (orgUsed : ℤ) + written ≤ m
  | .recording _ _ orgUsed written => written = 0 ∨ (orgUsed : ℤ) + written ≤ m
  | _ => True

section Sums

variable {p q : Bundle → Bool} {rows : List Bundle}

/-- The bytes of some bundles. -/
def bytes (p : Bundle → Bool) (rows : List Bundle) : ℕ := ((rows.filter p).map Bundle.size).sum

theorem bytes_cons (p : Bundle → Bool) (b : Bundle) (rows : List Bundle) :
    bytes p (b :: rows) = (if p b then b.size else 0) + bytes p rows := by
  unfold bytes
  rw [List.filter_cons]
  split
  · rw [List.map_cons, List.sum_cons]
  · omega

theorem bytes_deleteWhere_le : bytes p (deleteWhere q rows) ≤ bytes p rows := by
  induction rows with
  | nil => exact Nat.le_refl _
  | cons b rows ih =>
    unfold deleteWhere at ih ⊢
    rw [List.filter_cons, bytes_cons]
    split
    · rw [bytes_cons]
      omega
    · omega

theorem bytes_congr (h : ∀ b ∈ rows, p b = q b) : bytes p rows = bytes q rows := by
  unfold bytes
  rw [List.filter_congr h]

end Sums

section Totals

variable {conf : Config} {db db' : Db} {org : ℕ}

/-- Profiles keep their organisation when only other columns are written. -/
theorem owns_of_updated {p : Profile → Bool} {f : Profile → Profile}
    (h : db'.profiles = updateWhere p f db.profiles)
    (hf : ∀ r, (f r).id = r.id ∧ (f r).org = r.org) (b : Bundle) :
    db'.owns org b = db.owns org b := by
  unfold Db.owns Db.profile
  rw [h, lookup_updateWhere fun r _ => (hf r).1]
  cases lookup Profile.id db.profiles b.profile with
  | none => rfl
  | some r =>
    simp only [Option.map_some, Option.any_some]
    split
    · rw [(hf r).2]
    · rfl

/-- Recording a bundle adds at most what was written, to its profile's organisation. -/
theorem stored_record {p : Profile} (written : ℕ) (hp : db.profile p.id = some p) :
    (record conf db p written).stored org ≤
      db.stored org + if p.org = org then written else 0 := by
  let new : Bundle := ⟨p.id, p.current + 1, written⟩
  have hstored : (record conf db p written).stored org =
      bytes (db.owns org) (record conf db p written).bundles :=
    bytes_congr fun b _ => owns_of_updated
      (f := fun q => { q with current := p.current + 1 }) rfl (fun _ => ⟨rfl, rfl⟩) b
  have hle : bytes (db.owns org) (record conf db p written).bundles ≤
      bytes (db.owns org) (new :: db.bundles) := bytes_deleteWhere_le
  have hnew : db.owns org new = decide (p.org = org) := by
    unfold Db.owns
    rw [hp, Option.any_some]
  have hall : db.stored org = bytes (db.owns org) db.bundles := rfl
  rw [bytes_cons, hnew] at hle
  simp only [decide_eq_true_eq] at hle
  rw [hstored, hall]
  exact Nat.le_trans hle (Nat.le_of_eq (Nat.add_comm _ _))

/-- What other requests do adds nothing. -/
theorem stored_change (h : Proper db) (x : Change) : (change db x).stored org ≤ db.stored org := by
  cases x with
  | createProfile newOrg =>
    refine Nat.le_of_eq (bytes_congr fun b hb => ?_)
    have hne : db.fresh ≠ b.profile := Nat.ne_of_gt (h.drawn b hb)
    have hsame : (change db (.createProfile newOrg)).profile b.profile = db.profile b.profile := by
      simp only [change, Db.profile, lookup]
      exact List.find?_cons_of_neg (by simpa using hne)
    unfold Db.owns
    rw [hsame]
  | deleteProfile profile =>
    exact Nat.le_of_eq (bytes_congr fun b _ => owns_of_updated
      (f := fun p => { p with deleted := true }) rfl (fun _ => ⟨rfl, rfl⟩) b)
  | restoreProfile profile =>
    exact Nat.le_of_eq (bytes_congr fun b _ => owns_of_updated
      (f := fun p => { p with deleted := false }) rfl (fun _ => ⟨rfl, rfl⟩) b)
  | purgeProfile profile =>
    simp only [change]
    split
    · let rest := deleteWhere (fun b : Bundle => b.profile = profile) db.bundles
      have hle : bytes (db.owns org) rest ≤ db.stored org := bytes_deleteWhere_le
      refine Nat.le_trans (Nat.le_of_eq (bytes_congr fun b hb => ?_)) hle
      have hne : b.profile ≠ profile := by simpa using (mem_deleteWhere.mp hb).2
      unfold Db.owns Db.profile
      rw [lookup_deleteWhere_of fun r hr => by simpa [hr] using hne]
    · exact Nat.le_refl _

theorem Proper.updated (h : Proper db) {p : Profile → Bool} {f : Profile → Profile}
    (hf : ∀ r, (f r).id = r.id) : Proper { db with profiles := updateWhere p f db.profiles } where
  profiles := h.profiles.updateWhere fun r _ => hf r
  fresh := fun r hr => by
    rcases updateWhere_cases hr with ⟨hin, _⟩ | ⟨old, hold, _, rfl⟩
    · exact h.fresh r hin
    · exact (hf old).symm ▸ h.fresh old hold
  drawn := h.drawn

theorem proper_record {p : Profile} {written : ℕ} (h : Proper db) (hp : p.id < db.fresh) :
    Proper (record conf db p written) :=
  { h.updated (f := fun q => { q with current := p.current + 1 }) fun _ => rfl with
    drawn := fun b hb => by
      rcases List.mem_cons.mp (mem_deleteWhere.mp hb).1 with rfl | hin
      · exact hp
      · exact h.drawn b hin }

theorem proper_change (h : Proper db) (x : Change) : Proper (change db x) := by
  cases x with
  | createProfile newOrg =>
    refine ⟨h.profiles.cons fun p hp => Nat.ne_of_lt (h.fresh p hp), fun p hp => ?_, fun b hb => ?_⟩
    · rcases List.mem_cons.mp hp with rfl | hin
      · exact Nat.lt_succ_self _
      · exact Nat.lt_succ_of_lt (h.fresh p hin)
    · exact Nat.lt_succ_of_lt (h.drawn b hb)
  | deleteProfile profile => exact h.updated fun _ => rfl
  | restoreProfile profile => exact h.updated fun _ => rfl
  | purgeProfile profile =>
    simp only [change]
    split
    · exact ⟨h.profiles.deleteWhere, fun p hp => h.fresh p (mem_deleteWhere.mp hp).1,
        fun b hb => h.drawn b (mem_deleteWhere.mp hb).1⟩
    · exact h

end Totals

section Steps

variable {conf : Config} {m : ℤ} {w w' : World} {org : ℕ}

/-- What a statement does to what is stored: nothing, or it records a bundle. -/
theorem next_cases {db db' : Db} {c : ℕ} {input : Input} {stage : Stage} {st : Option Stage}
    (h : next conf db c input stage = some (db', st)) :
    db' = db ∨ ∃ profile base orgUsed written p, stage = .recording profile base orgUsed written ∧
      st = none ∧ db.profile profile = some p ∧ db' = record conf db p written := by
  unfold next at h
  split at h
  all_goals try exact .inl (Prod.mk.inj (Option.some.inj h)).1.symm
  · split at h
    · exact .inl (Prod.mk.inj (Option.some.inj h)).1.symm
    · next profile base orgUsed written _ p hp =>
      cases h
      exact .inr ⟨profile, base, orgUsed, written, p, rfl, rfl,
        (Option.filter_eq_some_iff.mp hp).1, rfl⟩
  · cases h

/-- What an upload has received still fits after the next chunk. -/
theorem fits_next (hm : conf.maxStorage = some m) {db db' : Db} {c : ℕ} {input : Input}
    {stage stage' : Stage} (hfits : Fits m stage)
    (h : next conf db c input stage = some (db', some stage')) : Fits m stage' := by
  unfold next at h
  split at h
  · split at h
    · cases h
      trivial
    · cases h
  · cases h
    exact .inl rfl
  · next bytes profile base orgUsed written =>
    have hreceives := (Prod.mk.inj (Option.some.inj h)).2
    unfold receives at hreceives
    split at hreceives
    · cases hreceives
    · next hroom =>
      cases hreceives
      simp only [hm, Option.any_some, Bool.or_eq_true, decide_eq_true_eq, not_or] at hroom
      exact .inr (by omega)
  · split at h
    · cases h
      exact hfits
    · cases h
  · split at h <;> cases h
  · cases h

/-- Keys stay unique, and what uploads have received fits beside what they read. -/
theorem sound_step (hm : conf.maxStorage = some m) (guard : World → Label → Prop) :
    Preserved (step conf) guard (Sound Proper fun _ _ stage => Fits m stage) := by
  refine preserved_sound ?_ ?_ ?_
  · intro db c stage _ hstage
    cases stage with
    | arrived profile base => trivial
    | _ => cases hstage
  · intro w f input db' st hw hf _ hnext
    refine ⟨?_, fun stage hst => ?_, fun g hg _ => hw.own g hg⟩
    · rcases next_cases hnext with rfl | ⟨_, _, _, written, p, _, _, hp, rfl⟩
      · exact hw.db
      · exact proper_record hw.db (hw.db.fresh p (lookup_some hp).1)
    · subst hst
      exact fits_next hm (hw.own f hf) hnext
  · exact fun w x hw _ => ⟨proper_change hw.db x, hw.own⟩

/-- After a step an organisation stores no more than the ceiling, or than before. -/
theorem stored_step (hw : Sound Proper (fun _ _ stage => Fits m stage) w) {l : Label}
    (hg : Guard w l) (hs : step conf w l = some w') (org : ℕ) :
    (w'.db.stored org : ℤ) ≤ m ∨ w'.db.stored org ≤ w.db.stored org := by
  cases l with
  | arrives c stage =>
    obtain ⟨_, rfl⟩ := arrives_some hs
    exact .inr (Nat.le_refl _)
  | runs id input =>
    obtain ⟨f, hf, rfl, db', st, hnext, rfl⟩ := runs_some hs
    rcases next_cases hnext with rfl | ⟨profile, base, orgUsed, written, p, hstage, _, hp, rfl⟩
    · exact .inr (Nat.le_refl _)
    · have hid : p.id = profile := (lookup_some hp).2
      have hadded : (record conf w.db p written).stored org ≤
          w.db.stored org + if p.org = org then written else 0 := stored_record written (hid ▸ hp)
      have hread := hg f hf rfl
      have hfits := hw.own f hf
      rw [hstage] at hread hfits
      have hzero : written = 0 → (record conf w.db p written).stored org ≤ w.db.stored org := by
        rintro rfl
        simpa using hadded
      change ((record conf w.db p written).stored org : ℤ) ≤ m ∨
        (record conf w.db p written).stored org ≤ w.db.stored org
      rcases hfits with hnone | hfits
      · exact .inr (hzero hnone)
      rcases hread with hnone | hread
      · exact .inr (hzero hnone)
      by_cases horg : p.org = org
      · have hcurrent := hread p hp
        rw [horg] at hcurrent
        rw [if_pos horg] at hadded
        exact .inl (by omega)
      · rw [if_neg horg] at hadded
        exact .inr hadded
  | lost id =>
    cases hs
    exact .inr (Nat.le_refl _)
  | outside x =>
    cases hs
    exact .inr (stored_change hw.db x)

/-- After any number of steps an organisation stores no more than the ceiling, or than
before. -/
theorem stored_run (hm : conf.maxStorage = some m)
    (hw : Sound Proper (fun _ _ stage => Fits m stage) w) (labels : List Label)
    (ha : Allowed (step conf) Guard w labels) (h : run (step conf) w labels = some w') (org : ℕ) :
    (w'.db.stored org : ℤ) ≤ m ∨ w'.db.stored org ≤ w.db.stored org := by
  induction labels generalizing w with
  | nil =>
    cases h
    exact .inr (Nat.le_refl _)
  | cons l rest ih =>
    obtain ⟨hg, hrest⟩ := ha
    obtain ⟨t, ht, hrun⟩ := Option.bind_eq_some_iff.mp h
    have hfirst := stored_step hw hg ht org
    have hlater := ih (sound_step hm Guard hw hg ht) (hrest t ht) hrun
    omega

end Steps

/-- Any tables, and nothing in flight. -/
def Start (w : World) : Prop := w.flights.all = [] ∧ Proper w.db

/-- In every run in which bundles are recorded on what was read, no organisation comes to store
more than the ceiling: from any state of the run on, it stores at most the ceiling, or what it
stored. -/
theorem storage_within_ceiling (maxBundleBytes : ℕ) (keep m : ℤ) {w w' : World}
    (hr : Reached Start (step ⟨maxBundleBytes, some m, keep⟩) Guard w) (labels : List Label)
    (ha : Allowed (step ⟨maxBundleBytes, some m, keep⟩) Guard w labels)
    (h : run (step ⟨maxBundleBytes, some m, keep⟩) w labels = some w') (org : ℕ) :
    (w'.db.stored org : ℤ) ≤ m ∨ w'.db.stored org ≤ w.db.stored org := by
  have hsound : Sound Proper (fun _ _ stage => Fits m stage) w := by
    refine hr.invariant _ ?_ (sound_step rfl Guard)
    rintro w ⟨hnone, hproper⟩
    exact .of_idle hproper hnone
  exact stored_run rfl hsound labels ha h org

/-- Two profiles of one organisation, with nothing stored. -/
def fresh : World where
  db := ⟨[⟨1, 7, false, 0⟩, ⟨2, 7, false, 0⟩], [], 3⟩
  flights := .none

theorem start_fresh : Start fresh := by
  refine ⟨rfl, ?_, ?_, ?_⟩
  · unfold KeyUnique
    decide
  · decide
  · decide

/-- An upload by a member starts, and reads what is stored. -/
def starts (id profile : ℕ) (base : ℤ) : List Label :=
  [.arrives 7 (.arrived profile base), .runs id (.passes true), .runs id (.passes true)]

/-- So many bytes arrive, and are recorded. -/
def ends (id bytes : ℕ) : List Label :=
  [.runs id (.chunk bytes), .runs id (.passes true), .runs id (.passes true)]

/-- One upload after the other, the second refused at its second chunk. -/
theorem storage_within_ceiling_serial :
    ∃ w', run (step ⟨1000, some 100, 10⟩) fresh (starts 0 1 0 ++ ends 0 60 ++ starts 1 2 0 ++
        [.runs 1 (.chunk 30), .runs 1 (.chunk 30)]) = some w' ∧ w'.db.stored 7 = 60 ∧
      ((w'.db.stored 7 : ℤ) ≤ 100 ∨ w'.db.stored 7 ≤ fresh.db.stored 7) := by
  have hrun : ((run (step ⟨1000, some 100, 10⟩) fresh (starts 0 1 0 ++ ends 0 60 ++ starts 1 2 0 ++
      [.runs 1 (.chunk 30), .runs 1 (.chunk 30)])).map fun w' => w'.db.stored 7) = some 60 := by
    decide
  obtain ⟨w', h, hstored⟩ := Option.map_eq_some_iff.mp hrun
  exact ⟨w', h, hstored, storage_within_ceiling 1000 10 100 (.start start_fresh) _ (by decide) h 7⟩

/-- Two uploads that both read before either is recorded. -/
theorem uploads_pass_ceiling :
    ¬ ∀ (maxBundleBytes : ℕ) (keep m : ℤ) (w w' : World) (labels : List Label) (org : ℕ),
      Start w → run (step ⟨maxBundleBytes, some m, keep⟩) w labels = some w' →
      (w'.db.stored org : ℤ) ≤ m ∨ w'.db.stored org ≤ w.db.stored org := by
  intro hall
  have hrun : ((run (step ⟨1000, some 100, 10⟩) fresh (starts 0 1 0 ++ starts 1 2 0 ++ ends 0 60 ++
      ends 1 60)).map fun w' => w'.db.stored 7) = some 120 := by decide
  obtain ⟨w', h, hstored⟩ := Option.map_eq_some_iff.mp hrun
  have hle := hall 1000 10 100 fresh w' _ 7 start_fresh h
  rw [hstored] at hle
  exact absurd hle (by decide)

end FuryBrowser.StorageCeiling
