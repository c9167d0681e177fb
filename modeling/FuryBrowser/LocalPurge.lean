import FuryBrowser.LocalStore

/-!
# Emptying the local trash

A profile that is purged loses two things: its row, with its logins, and its directory. The query
has a condition, that the row is in the trash. The removal before it has none.
-/

namespace FuryBrowser.LocalPurge

open RowTable PathTree AgentDisk LocalStore

variable {ω : Type}

/-- The tables and the disk. -/
structure Machine (ω : Type) where
  db : Db ω
  disk : Disk
  /-- The id of a profile is its primary key. -/
  unique : KeyUnique ProfileRow.id db.profiles

/-- How `remove_dir_all` ends, on a directory. -/
inductive Removal
  | whole
  /-- It fails, and what is below these paths has gone already. -/
  | broken (gone : Path → Bool)

/-- What the operating system and the database answer. -/
structure Answers where
  removal : Removal
  /-- The query goes through. -/
  query : Bool

/-- `Path::exists`. -/
def present (disk : Disk) (dir : Path) : Bool :=
  isDir disk dir || (nodeAt disk dir).isSome

/-- `remove_dir_all`, which refuses a file; and whether it went through. -/
def removeDirAll (disk : Disk) (dir : Path) (removal : Removal) : Bool × Disk :=
  if isDir disk dir then
    match removal with
    | .whole => (true, dropWhere disk fun p => dir.isPrefixOf p)
    | .broken gone => (false, dropWhere disk fun p => dir.isPrefixOf p && p ≠ dir && gone p)
  else (false, disk)

namespace Machine

variable (m : Machine ω) (id : String) (dir : Path) (answers : Answers)

/-- The query of `purge_profile` on the tables of a machine. -/
def purgeRow (disk : Disk) : Machine ω where
  db := m.db.purgeRow id
  disk := disk
  unique := m.unique.deleteWhere

/-- `purge_profile`, and whether it went through. -/
def purgeProfile : Bool × Machine ω :=
  let (removed, disk) :=
    if present m.disk dir then removeDirAll m.disk dir answers.removal else (true, m.disk)
  if removed && answers.query then (true, m.purgeRow id disk) else (false, { m with disk := disk })

/-- The profile is in the trash. -/
def Trashed : Prop := ∃ f ∈ m.db.profiles, f.id = id ∧ f.deleted = true

/-- The directory is there and cannot be removed. -/
def Stuck : Prop :=
  present m.disk dir = true ∧ (isDir m.disk dir = true → answers.removal ≠ .whole)

/-- What a purge of a profile means. -/
structure PurgesOnlyTrash : Prop where
  /-- A profile that is not in the trash, or not there, keeps every row and every file. -/
  live : ¬m.Trashed id → (m.purgeProfile id dir answers).2.db = m.db ∧
    ∀ p, nodeAt (m.purgeProfile id dir answers).2.disk p = nodeAt m.disk p
  /-- One in the trash goes with its logins and the directory it has, and nothing else does. -/
  gone : m.Trashed id → ¬m.Stuck dir answers →
    (m.purgeProfile id dir answers).2.db = { m.db with
      profiles := deleteWhere (fun f => f.id = id) m.db.profiles
      credentials := deleteWhere (fun c => c.profileId = id) m.db.credentials } ∧
    ∀ p, nodeAt (m.purgeProfile id dir answers).2.disk p =
      if dir.isPrefixOf p && isDir m.disk dir then none else nodeAt m.disk p
  /-- If its directory cannot be removed, the row stays, and what is elsewhere. -/
  stuck : m.Trashed id → m.Stuck dir answers →
    (m.purgeProfile id dir answers).2.db = m.db ∧
    ∀ p, dir.isPrefixOf p = false →
      nodeAt (m.purgeProfile id dir answers).2.disk p = nodeAt m.disk p

/-- The removal leaves every file: there is no directory, or it fails at once. -/
def RemovesNothing : Prop :=
  isDir m.disk dir = true → ∃ gone, answers.removal = .broken gone ∧
    ∀ p, dir.isPrefixOf p = true → p ≠ dir → gone p = true → nodeAt m.disk p = none

end Machine

section Outcomes

variable {m : Machine ω} {id : String} {dir : Path} {answers : Answers}

/-- What is removed is below the directory. -/
theorem removeDirAll_elsewhere (disk : Disk) (removal : Removal) {p : Path}
    (hp : dir.isPrefixOf p = false) :
    nodeAt (removeDirAll disk dir removal).2 p = nodeAt disk p := by
  unfold removeDirAll
  split
  · cases removal with
    | whole => rw [nodeAt_dropWhere, hp, if_neg (by simp)]
    | broken gone => rw [nodeAt_dropWhere, hp, Bool.false_and, Bool.false_and, if_neg (by simp)]
  · rfl

/-- A directory that cannot be removed keeps the rows. -/
theorem purgeProfile_stuck (h : m.Stuck dir answers) :
    m.purgeProfile id dir answers =
      (false, { m with disk := (removeDirAll m.disk dir answers.removal).2 }) := by
  obtain ⟨hthere, hwhole⟩ := h
  have hfails : (removeDirAll m.disk dir answers.removal).1 = false := by
    unfold removeDirAll
    split
    · rename_i hdir
      cases hr : answers.removal with
      | whole => exact absurd hr (hwhole hdir)
      | broken gone => rfl
    · rfl
  unfold Machine.purgeProfile
  rw [if_pos hthere]
  dsimp only
  rw [hfails, Bool.false_and, if_neg (by simp)]

variable (id) in
/-- One that can leaves the rows to the query. -/
theorem purgeProfile_removed (h : ¬m.Stuck dir answers) :
    ∃ disk, (∀ p, nodeAt disk p = if dir.isPrefixOf p && isDir m.disk dir then none
        else nodeAt m.disk p) ∧
      m.purgeProfile id dir answers =
        if answers.query then (true, m.purgeRow id disk) else (false, { m with disk := disk }) := by
  unfold Machine.purgeProfile
  cases hthere : present m.disk dir with
  | false =>
    have hdir : isDir m.disk dir = false := (Bool.or_eq_false_iff.mp hthere).1
    exact ⟨m.disk, fun p => by simp [hdir], by simp⟩
  | true =>
    have hwhole : isDir m.disk dir = true ∧ answers.removal = .whole := by
      by_contra hno
      exact h ⟨hthere, fun hdir hr => hno ⟨hdir, hr⟩⟩
    refine ⟨dropWhere m.disk fun p => dir.isPrefixOf p, fun p => ?_, ?_⟩
    · rw [nodeAt_dropWhere, hwhole.1, Bool.and_true]
    · simp [removeDirAll, hwhole.1, hwhole.2]

/-- The query deletes nothing of a profile that is not in the trash. -/
theorem purgeRow_live (h : ¬m.Trashed id) : m.db.purgeRow id = m.db := by
  have hno : ∀ f ∈ m.db.profiles, (decide (f.id = id) && f.deleted) = false := by
    intro f hf
    cases hd : f.deleted with
    | false => simp
    | true => simpa using fun hid => h ⟨f, hf, hid, hd⟩
  have hany : (m.db.profiles.any fun f => f.id = id && f.deleted) = false := by
    rw [List.any_eq_false]
    intro f hf hmatch
    rw [hno f hf] at hmatch
    cases hmatch
  unfold Db.purgeRow
  rw [deleteWhere_of_not hno, hany]
  simp [deleteWhere]

/-- Of one in the trash it deletes the row and its logins. -/
theorem purgeRow_trashed (h : m.Trashed id) :
    m.db.purgeRow id = { m.db with
      profiles := deleteWhere (fun f => f.id = id) m.db.profiles
      credentials := deleteWhere (fun c => c.profileId = id) m.db.credentials } := by
  obtain ⟨f, hf, hid, hd⟩ := h
  have hany : (m.db.profiles.any fun f => f.id = id && f.deleted) = true :=
    List.any_eq_true.mpr ⟨f, hf, by simp [hid, hd]⟩
  have hrows : deleteWhere (fun f => f.id = id && f.deleted) m.db.profiles =
      deleteWhere (fun f => f.id = id) m.db.profiles := by
    refine List.filter_congr fun g hg => ?_
    by_cases hgid : g.id = id
    · obtain rfl := m.unique.eq hg hf (hgid.trans hid.symm)
      simp [hd]
    · simp [hgid]
  unfold Db.purgeRow
  rw [hrows, hany]
  simp

theorem not_trashed_of_deleted (h : m.Trashed id) :
    m.db ≠ { m.db with
      profiles := deleteWhere (fun f => f.id = id) m.db.profiles
      credentials := deleteWhere (fun c => c.profileId = id) m.db.credentials } := by
  obtain ⟨f, hf, hid, -⟩ := h
  intro heq
  rw [heq] at hf
  simp [hid] at hf

end Outcomes

section Exact

variable {m : Machine ω} {id : String} {dir : Path} {answers : Answers}

/-- The directory of a profile that is not in the trash stays when nothing is removed. -/
theorem live_kept (hlive : ¬m.Trashed id) (h : m.RemovesNothing dir answers) :
    (m.purgeProfile id dir answers).2.db = m.db ∧
      ∀ p, nodeAt (m.purgeProfile id dir answers).2.disk p = nodeAt m.disk p := by
  by_cases hstuck : m.Stuck dir answers
  · rw [purgeProfile_stuck hstuck]
    refine ⟨rfl, fun p => ?_⟩
    dsimp only
    unfold removeDirAll
    split
    · rename_i hdir
      obtain ⟨gone, hr, hnone⟩ := h hdir
      rw [hr]
      dsimp only
      rw [nodeAt_dropWhere]
      split
      · rename_i hp
        obtain ⟨hbelow, hgone⟩ := Bool.and_eq_true_iff.mp hp
        obtain ⟨hpre, hne⟩ := Bool.and_eq_true_iff.mp hbelow
        exact (hnone p hpre (of_decide_eq_true hne) hgone).symm
      · rfl
    · rfl
  · obtain ⟨disk, hdisk, heq⟩ := purgeProfile_removed id hstuck
    have hdir : isDir m.disk dir = false := by
      cases hd : isDir m.disk dir with
      | false => rfl
      | true =>
        obtain ⟨gone, hr, -⟩ := h hd
        refine absurd ⟨?_, fun _ => ?_⟩ hstuck
        · simp [present, hd]
        · simp [hr]
    have hsame : ∀ p, nodeAt disk p = nodeAt m.disk p := fun p => by rw [hdisk, hdir]; simp
    rw [heq]
    split
    · exact ⟨purgeRow_live hlive, hsame⟩
    · exact ⟨rfl, hsame⟩

theorem removesNothing_of_kept (hdir : dir ≠ [])
    (h : ∀ p, nodeAt (m.purgeProfile id dir answers).2.disk p = nodeAt m.disk p) :
    m.RemovesNothing dir answers := by
  intro hd
  by_cases hstuck : m.Stuck dir answers
  · cases hr : answers.removal with
    | whole => exact absurd hr (hstuck.2 hd)
    | broken gone =>
      refine ⟨gone, rfl, fun p hpre hne hgone => ?_⟩
      have hp := h p
      rw [purgeProfile_stuck hstuck] at hp
      simp only [removeDirAll, hd, hr, if_true] at hp
      rw [nodeAt_dropWhere, hpre, hgone] at hp
      simpa [hne] using hp.symm
  · obtain ⟨disk, hdisk, heq⟩ := purgeProfile_removed id hstuck
    have hgone : nodeAt disk dir = none := by
      rw [hdisk, hd]
      simp
    have hthere : nodeAt m.disk dir = some .dir := (isDir_iff hdir).mp hd
    have hp := h dir
    rw [heq] at hp
    split at hp
    · exact absurd (hp.symm.trans hgone) (by simp [hthere])
    · exact absurd (hp.symm.trans hgone) (by simp [hthere])

/-- A purge touches only the trash exactly when the profile is in the trash and the query goes
through, unless the directory cannot be removed, or it is not in the trash and the removal removes
nothing. -/
theorem purges_only_trash_iff (m : Machine ω) (id : String) (profiles : Path) (name : String)
    (answers : Answers) :
    m.PurgesOnlyTrash id (profiles ++ [name]) answers ↔
      (m.Trashed id ∧ (answers.query = true ∨ m.Stuck (profiles ++ [name]) answers)) ∨
      (¬m.Trashed id ∧ m.RemovesNothing (profiles ++ [name]) answers) := by
  have hdir : profiles ++ [name] ≠ [] := by simp
  generalize profiles ++ [name] = dir at hdir ⊢
  constructor
  · intro h
    by_cases ht : m.Trashed id
    · refine .inl ⟨ht, ?_⟩
      by_cases hstuck : m.Stuck dir answers
      · exact .inr hstuck
      · obtain ⟨disk, -, heq⟩ := purgeProfile_removed id hstuck
        cases hq : answers.query with
        | true => exact .inl rfl
        | false =>
          have hrows := (h.gone ht hstuck).1
          rw [heq, hq, if_neg (by simp)] at hrows
          exact absurd hrows (not_trashed_of_deleted ht)
    · exact .inr ⟨ht, removesNothing_of_kept hdir (h.live ht).2⟩
  · rintro (⟨ht, hanswer⟩ | ⟨ht, hnothing⟩)
    · refine ⟨fun hno => absurd ht hno, fun _ hstuck => ?_, fun _ hstuck => ?_⟩
      · obtain ⟨disk, hdisk, heq⟩ := purgeProfile_removed id hstuck
        rw [heq, hanswer.resolve_right hstuck, if_pos rfl]
        exact ⟨purgeRow_trashed ht, hdisk⟩
      · rw [purgeProfile_stuck hstuck]
        exact ⟨rfl, fun p hp => removeDirAll_elsewhere m.disk answers.removal hp⟩
    · exact ⟨fun _ => live_kept ht hnothing, fun hyes => absurd hyes ht,
        fun hyes => absurd hyes ht⟩

/-- A profile in use, with its cookies. -/
def liveMachine : Machine Unit where
  db := ⟨[], [], [⟨"f1", none, "first", "", [], [], "new", "persona", 5, none, none, none, [],
    false, (), none, false⟩], []⟩
  disk := [(["profiles"], .dir), (["profiles", "f1"], .dir),
    (["profiles", "f1", "Cookies"], .file [1])]
  unique := List.nodup_singleton _

/-- A purge of it keeps its row, and takes its cookies. -/
theorem live_cookies_purged :
    ¬∀ (m : Machine Unit) (id : String) (profiles : Path) (name : String) (answers : Answers),
      m.PurgesOnlyTrash id (profiles ++ [name]) answers := by
  intro h
  have hlive : ¬liveMachine.Trashed "f1" := by
    rintro ⟨f, hf, -, hd⟩
    rw [List.mem_singleton.mp hf] at hd
    cases hd
  have hsame := (h liveMachine "f1" ["profiles"] "f1" ⟨.whole, true⟩).live hlive
  have hcookies := hsame.2 ["profiles", "f1", "Cookies"]
  revert hcookies
  decide

end Exact

end FuryBrowser.LocalPurge
