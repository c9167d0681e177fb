import FuryBrowser.ProfileLocks

/-!
# Who records a version

An upload shows the lock's token when it starts and is not asked again when it
commits. The transaction that records the version compares the base version and
locks the profile's row, so the versions are always in order. It looks neither
at the lock nor at whether the profile was deleted in the meantime.

In runs in which no lock is taken over, released, revoked or lapses under an
upload that has shown it, and no profile is deleted under an upload, every
version is recorded by the holder of its profile's lock.
-/

namespace FuryBrowser.LockHolder

open GuardedRuns RowTable ProfileLocks

/-- The upload's token is the profile's unexpired lock. -/
def Holds (w : World) (u : Upload) : Prop :=
  ∃ l, w.lock u.profile = some l ∧ l.token = u.token ∧ w.now < l.expires

/-- The profile is not deleted. -/
def Live (w : World) (u : Upload) : Prop :=
  ∃ p, w.profile u.profile = some p ∧ p.deleted = false

/-- The upload's base is the version it is about to replace. -/
def OnBase (w : World) (u : Upload) : Prop :=
  ∃ p, w.profile u.profile = some p ∧ p.version = u.base

/-- A version is recorded by the lock's holder, into a profile that is there, over
the version it was made from. -/
structure ByHolder (w : World) (u : Upload) : Prop where
  /-- The lock is the upload's. -/
  holds : Holds w u
  /-- The profile is not deleted. -/
  live : Live w u
  /-- The base is the version replaced. -/
  base : OnBase w u

/-- An upload that has shown its lock. -/
def shown (u : Upload) : Bool := u.stage ≠ .asked

/-- Nothing happens to the lock of an upload that has shown it, nor to the profile
of an upload in flight. -/
def Undisturbed (w : World) (a : Label) : Prop :=
  match a with
  | .lockTakes id => ∀ q ∈ lookup Acquisition.id w.acquisitions id, q.force = true →
    ∀ u ∈ w.uploads, shown u = true → u.profile ≠ q.profile
  | .release profile token => ∀ u ∈ w.uploads, shown u = true → u.profile = profile →
    u.token ≠ token
  | .revoke user profiles => ∀ u ∈ w.uploads, shown u = true → u.profile ∈ profiles →
    ∀ l ∈ w.lock u.profile, l.user ≠ user
  | .tick seconds => ∀ u ∈ w.uploads, shown u = true → ∀ l ∈ w.lock u.profile,
    w.now + seconds < l.expires
  | .deleteWrites id => ∀ q ∈ lookup Deletion.id w.deletions id, ∀ u ∈ w.uploads,
    u.profile ∉ q.profiles
  | _ => True

instance : DecidableRel Undisturbed := fun w a => by
  unfold Undisturbed
  split <;> infer_instance

/-- What those runs keep. -/
structure Inv (w : World) : Prop where
  /-- Profiles have their own ids. -/
  profileIds : KeyUnique Profile.id w.profiles
  /-- A profile has one lock. -/
  lockKeys : KeyUnique Lock.profile w.locks
  /-- Uploads have their own ids. -/
  uploadIds : KeyUnique Upload.id w.uploads
  /-- The next id is a new one. -/
  uploadOld : ∀ u ∈ w.uploads, u.id < w.nextId
  /-- One upload at a time has a profile's row. -/
  alone : ∀ u ∈ w.uploads, ∀ v ∈ w.uploads, u.stage = .recording → v.stage = .recording →
    u.profile = v.profile → u = v
  /-- No profile is deleted under an upload. -/
  live : ∀ u ∈ w.uploads, Live w u
  /-- An upload that has shown its lock still has it. -/
  holds : ∀ u ∈ w.uploads, shown u = true → Holds w u
  /-- An upload that is recording has the version it replaces. -/
  onBase : ∀ u ∈ w.uploads, u.stage = .recording → OnBase w u

theorem inv_empty : Inv empty where
  profileIds := keyUnique_nil
  lockKeys := keyUnique_nil
  uploadIds := keyUnique_nil
  uploadOld := nofun
  alone := nofun
  live := nofun
  holds := nofun
  onBase := nofun

theorem rowLocked_false {w : World} {profile : ℕ} (h : w.rowLocked profile = false)
    {u : Upload} (hu : u ∈ w.uploads) (hstage : u.stage = .recording) : u.profile ≠ profile := by
  have hnot := List.any_eq_false.mp h u hu
  simpa [hstage] using hnot

section Rows

variable {w w' : World} {u : Upload}

/-- An unchanged profile table keeps a profile live and at its version. -/
theorem Live.same (h : Live w u) (hp : w'.profiles = w.profiles) : Live w' u := by
  unfold Live World.profile
  rw [hp]
  exact h

theorem OnBase.same (h : OnBase w u) (hp : w'.profiles = w.profiles) : OnBase w' u := by
  unfold OnBase World.profile
  rw [hp]
  exact h

theorem Holds.same (h : Holds w u) (hl : w'.locks = w.locks) (hn : w'.now = w.now) :
    Holds w' u := by
  unfold Holds World.lock
  rw [hl, hn]
  exact h

end Rows

section Steps

variable {w w' : World}

/-- The invariant passes to a state with some of the uploads, when what it says of
each passes. -/
theorem Inv.fewer (h : Inv w) (hids : KeyUnique Upload.id w'.uploads)
    (hups : ∀ u ∈ w'.uploads, u ∈ w.uploads) (hnext : w.nextId ≤ w'.nextId)
    (hprofiles : KeyUnique Profile.id w'.profiles) (hlocks : KeyUnique Lock.profile w'.locks)
    (hlive : ∀ u ∈ w'.uploads, Live w u → Live w' u)
    (hholds : ∀ u ∈ w'.uploads, shown u = true → Holds w u → Holds w' u)
    (hbase : ∀ u ∈ w'.uploads, u.stage = .recording → OnBase w u → OnBase w' u) : Inv w' where
  profileIds := hprofiles
  lockKeys := hlocks
  uploadIds := hids
  uploadOld u hu := Nat.lt_of_lt_of_le (h.uploadOld u (hups u hu)) hnext
  alone u hu v hv := h.alone u (hups u hu) v (hups v hv)
  live u hu := hlive u hu (h.live u (hups u hu))
  holds u hu hs := hholds u hu hs (h.holds u (hups u hu) hs)
  onBase u hu hs := hbase u hu hs (h.onBase u (hups u hu) hs)

/-- Requests that change neither profiles, locks nor uploads. -/
theorem Inv.same (h : Inv w) (hp : w'.profiles = w.profiles) (hl : w'.locks = w.locks)
    (hn : w'.now = w.now) (hu : w'.uploads = w.uploads) (hnext : w.nextId ≤ w'.nextId) :
    Inv w' := by
  refine h.fewer (hu ▸ h.uploadIds) (fun _ hin => hu ▸ hin) hnext (hp ▸ h.profileIds)
    (hl ▸ h.lockKeys) ?_ ?_ ?_
  · exact fun _ _ hlive => hlive.same hp
  · exact fun _ _ _ hholds => hholds.same hl hn
  · exact fun _ _ _ hbase => hbase.same hp

theorem Inv.finish (h : Inv w) (id : ℕ) : Inv (w.finish id) := by
  refine h.fewer h.uploadIds.deleteWhere (fun _ hu => (mem_deleteWhere.mp hu).1)
    (Nat.le_refl _) h.profileIds h.lockKeys ?_ ?_ ?_
  · exact fun _ _ hlive => hlive.same rfl
  · exact fun _ _ _ hholds => hholds.same rfl rfl
  · exact fun _ _ _ hbase => hbase.same rfl

/-- Locks can change as long as those shown are still held. -/
theorem Inv.withLocks (h : Inv w) (hp : w'.profiles = w.profiles) (hu : w'.uploads = w.uploads)
    (hnext : w.nextId ≤ w'.nextId) (hlocks : KeyUnique Lock.profile w'.locks)
    (hholds : ∀ u ∈ w.uploads, shown u = true → Holds w u → Holds w' u) : Inv w' := by
  refine h.fewer (hu ▸ h.uploadIds) (fun _ hin => hu ▸ hin) hnext (hp ▸ h.profileIds) hlocks
    ?_ ?_ ?_
  · exact fun _ _ hlive => hlive.same hp
  · exact fun u hin => hholds u (hu ▸ hin)
  · exact fun _ _ _ hbase => hbase.same hp

/-- An upload can move on to a stage that needs no more than is known of it. -/
theorem Inv.move (h : Inv w) {u : Upload} {id : ℕ} (hlook : lookup Upload.id w.uploads id = some u)
    {stage : Stage} (hholds : Holds w u) (hbase : stage = .recording → OnBase w u)
    (halone : stage = .recording → w.rowLocked u.profile = false) : Inv (w.move id stage) := by
  obtain ⟨hmem, rfl⟩ := lookup_some hlook
  have hcases : ∀ x ∈ (w.move u.id stage).uploads,
      x ∈ w.uploads ∨ x = { u with stage := stage } := by
    intro x hx
    rcases updateWhere_cases hx with ⟨hin, _⟩ | ⟨old, hin, hid, rfl⟩
    · exact .inl hin
    · have heq : old = u := h.uploadIds.eq hin hmem (by simpa using hid)
      exact .inr (by rw [heq])
  refine
    { profileIds := h.profileIds
      lockKeys := h.lockKeys
      uploadIds := h.uploadIds.updateWhere fun _ _ => rfl
      uploadOld := fun x hx => ?_
      alone := fun x hx y hy hxs hys hp => ?_
      live := fun x hx => ?_
      holds := fun x hx hs => ?_
      onBase := fun x hx hs => ?_ }
  · rcases hcases x hx with hin | rfl
    · exact h.uploadOld x hin
    · exact h.uploadOld u hmem
  · rcases hcases x hx with hx | rfl <;> rcases hcases y hy with hy | rfl
    · exact h.alone x hx y hy hxs hys hp
    · exact absurd hp (rowLocked_false (halone hys) hx hxs)
    · exact absurd hp.symm (rowLocked_false (halone hxs) hy hys)
    · rfl
  · rcases hcases x hx with hin | rfl
    · exact (h.live x hin).same rfl
    · exact h.live u hmem
  · rcases hcases x hx with hin | rfl
    · exact (h.holds x hin hs).same rfl rfl
    · exact hholds
  · rcases hcases x hx with hin | rfl
    · exact (h.onBase x hin hs).same rfl
    · exact hbase hs

theorem inv_lockTakes (h : Inv w) {id : ℕ} (hg : Undisturbed w (.lockTakes id))
    (hs : lockTakes w id = some w') : Inv w' := by
  obtain ⟨q, hq, hs⟩ := Option.bind_eq_some_iff.mp hs
  cases hl : w.lock q.profile with
  | none =>
    simp only [hl, Option.ite_none_left_eq_some] at hs
    obtain ⟨_, hs⟩ := hs
    split at hs <;> cases hs
    · exact h.same rfl rfl rfl rfl (Nat.le_refl _)
    · refine h.withLocks rfl rfl (Nat.le_refl _) (h.lockKeys.cons (lookup_none hl)) ?_
      rintro u _ _ ⟨l, hlock, hrest⟩
      have hne : q.profile ≠ u.profile := by
        intro heq
        rw [heq, hlock] at hl
        cases hl
      refine ⟨l, ?_, hrest⟩
      simpa [World.lock, lookup, hne] using hlock
  | some old =>
    simp only [hl] at hs
    split at hs <;> cases hs
    · next htakes =>
      have hkeep : ∀ r : Lock, decide (r.profile = q.profile) = true →
          (⟨q.profile, q.user, w.nextToken, w.now + 90⟩ : Lock).profile = r.profile :=
        fun r hr => (of_decide_eq_true hr).symm
      refine h.withLocks rfl rfl (Nat.le_refl _) (h.lockKeys.updateWhere hkeep) ?_
      rintro u hu hshown ⟨l, hlock, htoken, hexpires⟩
      have hne : u.profile ≠ q.profile := by
        intro heq
        rw [heq, hl] at hlock
        cases hlock
        simp only [Bool.or_eq_true, decide_eq_true_eq] at htakes
        rcases htakes with hlapsed | hforce
        · omega
        · exact hg q hq hforce u hu hshown heq
      refine ⟨l, ?_, htoken, hexpires⟩
      have hprofile : l.profile ≠ q.profile := by
        rw [(lookup_some hlock).2]
        exact hne
      unfold World.lock at hlock ⊢
      rw [lookup_updateWhere hkeep, hlock]
      simp [hprofile]
    · exact h.same rfl rfl rfl rfl (Nat.le_refl _)

theorem inv_heartbeat (h : Inv w) (profile user token : ℕ) :
    Inv (heartbeat w profile user token) := by
  refine h.withLocks rfl rfl (Nat.le_refl _) (h.lockKeys.updateWhere fun _ _ => rfl) ?_
  rintro u _ _ ⟨l, hlock, htoken, hexpires⟩
  have hfound : (heartbeat w profile user token).lock u.profile = (w.lock u.profile).map fun l =>
      if l.profile = profile && l.user = user && l.token = token
      then { l with expires := w.now + 90 } else l :=
    lookup_updateWhere fun _ _ => rfl
  rw [hlock, Option.map_some] at hfound
  refine ⟨_, hfound, ?_⟩
  split
  · exact ⟨htoken, Nat.lt_add_of_pos_right (by decide)⟩
  · exact ⟨htoken, hexpires⟩

/-- Locks can go that no upload has shown. -/
theorem inv_deleteLocks (h : Inv w) {p : Lock → Bool}
    (hp : ∀ u ∈ w.uploads, shown u = true → ∀ l, w.lock u.profile = some l →
      l.token = u.token → p l = false) :
    Inv { w with locks := deleteWhere p w.locks } := by
  refine h.withLocks rfl rfl (Nat.le_refl _) h.lockKeys.deleteWhere ?_
  rintro u hu hshown ⟨l, hlock, htoken, hexpires⟩
  exact ⟨l, lookup_deleteWhere hlock (hp u hu hshown l hlock htoken), htoken, hexpires⟩

theorem inv_uploadAsks (h : Inv w) {profile token : ℕ} {base : ℤ}
    (hs : uploadAsks w profile token base = some w') : Inv w' := by
  simp only [uploadAsks, Option.ite_none_right_eq_some, Option.some.injEq] at hs
  obtain ⟨hlive, rfl⟩ := hs
  refine
    { profileIds := h.profileIds
      lockKeys := h.lockKeys
      uploadIds := h.uploadIds.cons fun u hu => Nat.ne_of_lt (h.uploadOld u hu)
      uploadOld := fun u hu => ?_
      alone := fun u hu v hv hus hvs hp => ?_
      live := fun u hu => ?_
      holds := fun u hu hshown => ?_
      onBase := fun u hu hstage => ?_ }
  · rcases List.mem_cons.mp hu with rfl | hu
    · exact Nat.lt_succ_self _
    · exact Nat.lt_succ_of_lt (h.uploadOld u hu)
  · rcases List.mem_cons.mp hu with rfl | hu
    · cases hus
    · rcases List.mem_cons.mp hv with rfl | hv
      · cases hvs
      · exact h.alone u hu v hv hus hvs hp
  · rcases List.mem_cons.mp hu with rfl | hu
    · obtain ⟨p, hp, hnot⟩ := (Option.any_eq_true _ _).mp hlive
      exact ⟨p, hp, by simpa using hnot⟩
    · exact (h.live u hu).same rfl
  · rcases List.mem_cons.mp hu with rfl | hu
    · cases hshown
    · exact (h.holds u hu hshown).same rfl rfl
  · rcases List.mem_cons.mp hu with rfl | hu
    · cases hstage
    · exact (h.onBase u hu hstage).same rfl

/-- The lock check finds the profile's lock. -/
theorem holds_of_holdsLock (h : Inv w) {u : Upload} (hl : holdsLock w u = true) : Holds w u := by
  obtain ⟨l, hmem, hmatch⟩ := List.any_eq_true.mp hl
  simp only [Bool.and_eq_true, decide_eq_true_eq] at hmatch
  obtain ⟨⟨hprofile, htoken⟩, hexpires⟩ := hmatch
  exact ⟨l, hprofile ▸ lookup_of_mem h.lockKeys hmem, htoken, hexpires⟩

theorem inv_uploadChecks (h : Inv w) {id : ℕ} (hs : uploadChecks w id = some w') : Inv w' := by
  obtain ⟨u, hu, hs⟩ := Option.bind_eq_some_iff.mp hs
  simp only [Option.ite_none_right_eq_some, Option.some.injEq] at hs
  obtain ⟨_, rfl⟩ := hs
  split
  · next hl => exact h.move hu (holds_of_holdsLock h hl) nofun nofun
  · exact h.finish id

theorem inv_uploadLocks (h : Inv w) {id : ℕ} (hs : uploadLocks w id = some w') : Inv w' := by
  obtain ⟨u, hu, hs⟩ := Option.bind_eq_some_iff.mp hs
  simp only [Option.ite_none_right_eq_some, Bool.and_eq_true, decide_eq_true_eq,
    Bool.not_eq_eq_eq_not, Bool.not_true] at hs
  obtain ⟨⟨hstage, hfree⟩, hs⟩ := hs
  split at hs <;> cases hs
  · exact h.finish id
  · next p hp =>
    split
    · next hbase =>
      have hshown : shown u = true := by simp [shown, hstage]
      exact h.move hu (h.holds u (lookup_some hu).1 hshown) (fun _ => ⟨p, hp, hbase.symm⟩)
        fun _ => hfree
    · exact h.finish id

/-- Profiles can change as long as those with uploads stay, and keep the version
an upload is about to replace. -/
theorem inv_updateProfiles (h : Inv w) {p : Profile → Bool} {f : Profile → Profile}
    (hprofiles : w'.profiles = updateWhere p f w.profiles) (hf : ∀ r, p r = true → (f r).id = r.id)
    (hlocks : w'.locks = w.locks) (hnow : w'.now = w.now)
    (hids : KeyUnique Upload.id w'.uploads) (hups : ∀ u ∈ w'.uploads, u ∈ w.uploads)
    (hnext : w.nextId ≤ w'.nextId)
    (hlive : ∀ u ∈ w'.uploads, ∀ r, r.id = u.profile → p r = true → r.deleted = false →
      (f r).deleted = false)
    (hbase : ∀ u ∈ w'.uploads, u.stage = .recording → ∀ r, r.id = u.profile → p r = true →
      (f r).version = r.version) : Inv w' := by
  refine h.fewer hids hups hnext (hprofiles ▸ h.profileIds.updateWhere hf)
    (hlocks ▸ h.lockKeys) ?_ ?_ ?_
  · rintro u hu ⟨r, hr, hd⟩
    refine ⟨if p r then f r else r, ?_, ?_⟩
    · unfold World.profile at hr ⊢
      rw [hprofiles, lookup_updateWhere hf, hr]
      rfl
    · split
      · next hp => exact hlive u hu r (lookup_some hr).2 hp hd
      · exact hd
  · exact fun _ _ _ hholds => hholds.same hlocks hnow
  · rintro u hu hstage ⟨r, hr, hv⟩
    refine ⟨if p r then f r else r, ?_, ?_⟩
    · unfold World.profile at hr ⊢
      rw [hprofiles, lookup_updateWhere hf, hr]
      rfl
    · split
      · next hp => exact (hbase u hu hstage r (lookup_some hr).2 hp).trans hv
      · exact hv

theorem inv_uploadCommits (h : Inv w) {id : ℕ} (hs : uploadCommits w id = some w') : Inv w' := by
  obtain ⟨u, hu, hs⟩ := Option.bind_eq_some_iff.mp hs
  simp only [Option.ite_none_right_eq_some, Option.some.injEq] at hs
  obtain ⟨hstage, rfl⟩ := hs
  obtain ⟨hmem, hid⟩ := lookup_some hu
  refine inv_updateProfiles h rfl (fun _ _ => rfl) rfl rfl h.uploadIds.deleteWhere
    (fun _ hx => (mem_deleteWhere.mp hx).1) (Nat.le_refl _) (fun _ _ _ _ _ hd => hd) ?_
  intro x hx hxs r hr hp
  -- Only the committing upload has the profile's row.
  obtain ⟨hin, hne⟩ := mem_deleteWhere.mp hx
  have hsame : x.profile = u.profile := hr.symm.trans (by simpa using hp)
  have heq := h.alone x hin u hmem hxs hstage hsame
  rw [heq, hid] at hne
  simp at hne

theorem inv_deleteWrites (h : Inv w) {id : ℕ} (hg : Undisturbed w (.deleteWrites id))
    (hs : deleteWrites w id = some w') : Inv w' := by
  obtain ⟨q, hq, hs⟩ := Option.bind_eq_some_iff.mp hs
  simp only [Option.ite_none_left_eq_some, Option.some.injEq] at hs
  obtain ⟨_, rfl⟩ := hs
  refine inv_updateProfiles h rfl (fun _ _ => rfl) rfl rfl h.uploadIds (fun _ hx => hx)
    (Nat.le_refl _) (fun u hu r hr hp _ => ?_) (fun _ _ _ _ _ _ => rfl)
  have hin : r.id ∈ q.profiles := by simpa using hp
  rw [hr] at hin
  exact absurd hin (hg q hq u hu)

theorem inv_purge (h : Inv w) {profile : ℕ} (hs : purge w profile = some w') : Inv w' := by
  simp only [purge, Option.ite_none_left_eq_some, Bool.or_eq_true, not_or, Bool.not_eq_true,
    Option.some.injEq] at hs
  obtain ⟨⟨_, hdead⟩, rfl⟩ := hs
  -- A profile with an upload is not deleted, so it is not the one purged.
  have hother : ∀ u ∈ w.uploads, u.profile ≠ profile := by
    intro u hu heq
    obtain ⟨p, hp, hd⟩ := h.live u hu
    rw [heq] at hp
    simp [World.live, hp, hd] at hdead
  refine h.fewer h.uploadIds (fun _ hu => hu) (Nat.le_refl _) h.profileIds.deleteWhere
    h.lockKeys.deleteWhere ?_ ?_ ?_
  · rintro u hu ⟨p, hp, hd⟩
    have hne : p.id ≠ profile := by
      rw [(lookup_some hp).2]
      exact hother u hu
    exact ⟨p, lookup_deleteWhere hp (by simpa using hne), hd⟩
  · rintro u hu _ ⟨l, hl, hrest⟩
    have hne : l.profile ≠ profile := by
      rw [(lookup_some hl).2]
      exact hother u hu
    exact ⟨l, lookup_deleteWhere hl (by simpa using hne), hrest⟩
  · rintro u hu _ ⟨p, hp, hv⟩
    have hne : p.id ≠ profile := by
      rw [(lookup_some hp).2]
      exact hother u hu
    exact ⟨p, lookup_deleteWhere hp (by simpa using hne), hv⟩

theorem inv_createProfile (h : Inv w) {profile : ℕ} (hs : createProfile w profile = some w') :
    Inv w' := by
  simp only [createProfile, Option.ite_none_left_eq_some, Bool.not_eq_true,
    Option.some.injEq] at hs
  obtain ⟨hnew, rfl⟩ := hs
  have hnone : w.profile profile = none := by simpa using hnew
  have hfound : ∀ {id : ℕ} {p : Profile}, w.profile id = some p →
      World.profile { w with profiles := ⟨profile, 0, false⟩ :: w.profiles } id = some p := by
    intro id p hp
    have hne : profile ≠ id := by
      rintro rfl
      rw [hnone] at hp
      cases hp
    simpa [World.profile, lookup, hne] using hp
  refine h.fewer h.uploadIds (fun _ hu => hu) (Nat.le_refl _)
    (h.profileIds.cons (lookup_none hnone)) h.lockKeys ?_ ?_ ?_
  · rintro u _ ⟨p, hp, hd⟩
    exact ⟨p, hfound hp, hd⟩
  · exact fun _ _ _ hholds => hholds.same rfl rfl
  · rintro u _ _ ⟨p, hp, hv⟩
    exact ⟨p, hfound hp, hv⟩

end Steps

theorem inv_step : Preserved step Undisturbed Inv := by
  intro w a w' h hg hs
  cases a with
  | createProfile profile => exact inv_createProfile h hs
  | lockAsks profile user force =>
    simp only [step, lockAsks, Option.ite_none_right_eq_some, Option.some.injEq] at hs
    obtain ⟨_, rfl⟩ := hs
    exact h.same rfl rfl rfl rfl (Nat.le_succ _)
  | lockTakes id => exact inv_lockTakes h hg hs
  | heartbeat profile user token =>
    cases hs
    exact inv_heartbeat h profile user token
  | release profile token =>
    cases hs
    refine inv_deleteLocks h fun u hu hshown l hl htoken => ?_
    have hprofile : l.profile = u.profile := (lookup_some hl).2
    by_cases heq : u.profile = profile
    · have hne := hg u hu hshown heq
      simp [htoken, hne]
    · simp [hprofile, heq]
  | revoke user profiles =>
    cases hs
    refine inv_deleteLocks h fun u hu hshown l hl _ => ?_
    have hprofile : l.profile = u.profile := (lookup_some hl).2
    by_cases hin : u.profile ∈ profiles
    · have hne := hg u hu hshown hin l hl
      simp [hne]
    · simp [hprofile, hin]
  | uploadAsks profile token base => exact inv_uploadAsks h hs
  | uploadChecks id => exact inv_uploadChecks h hs
  | uploadLocks id => exact inv_uploadLocks h hs
  | uploadCommits id => exact inv_uploadCommits h hs
  | uploadFails id =>
    cases hs
    exact h.finish id
  | deleteAsks profiles =>
    simp only [step, deleteAsks, Option.ite_none_left_eq_some, Option.some.injEq] at hs
    obtain ⟨_, rfl⟩ := hs
    exact h.same rfl rfl rfl rfl (Nat.le_succ _)
  | deleteWrites id => exact inv_deleteWrites h hg hs
  | restore profile =>
    simp only [step, restore, Option.ite_none_left_eq_some, Option.some.injEq] at hs
    obtain ⟨_, rfl⟩ := hs
    exact inv_updateProfiles h rfl (fun _ _ => rfl) rfl rfl h.uploadIds (fun _ hx => hx)
      (Nat.le_refl _) (fun _ _ _ _ _ _ => rfl) (fun _ _ _ _ _ _ => rfl)
  | purge profile => exact inv_purge h hs
  | tick seconds =>
    cases hs
    refine h.fewer h.uploadIds (fun _ hu => hu) (Nat.le_refl _) h.profileIds h.lockKeys ?_ ?_ ?_
    · exact fun _ _ hlive => hlive.same rfl
    · rintro u hu hshown ⟨l, hl, htoken, _⟩
      exact ⟨l, hl, htoken, hg u hu hshown l hl⟩
    · exact fun _ _ _ hbase => hbase.same rfl

/-- However uploads and locks interleave, in undisturbed runs every version is
recorded by the holder of its profile's lock. -/
theorem versions_recorded_by_holder {w w' : World} {id : ℕ}
    (hr : Reached init step Undisturbed w) (hs : step w (.uploadCommits id) = some w') :
    ∀ u ∈ lookup Upload.id w.uploads id, ByHolder w u := by
  have h := hr.invariant Inv (fun _ hi => hi ▸ inv_empty) inv_step
  obtain ⟨u, hu, hs⟩ := Option.bind_eq_some_iff.mp hs
  simp only [Option.ite_none_right_eq_some] at hs
  obtain ⟨hstage, _⟩ := hs
  have hmem := (lookup_some hu).1
  intro x hx
  cases hu.symm.trans hx
  exact ⟨h.holds u hmem (by simp [shown, hstage]), h.live u hmem, h.onBase u hmem hstage⟩

/-- A profile, its lock, and an upload that has shown it. -/
def uploading : List Label :=
  [.createProfile 5, .lockAsks 5 1 false, .lockTakes 0, .uploadAsks 5 0 0, .uploadChecks 1]

/-- The upload of these runs, about to commit. -/
def theUpload : Upload := ⟨1, 5, 0, 0, .recording⟩

/-- The browser's lock is renewed while the body is streamed. -/
def renewed : List Label := uploading ++ [.tick 60, .heartbeat 5 1 0, .tick 60, .uploadLocks 1]

theorem versions_recorded_by_holder_renewed : ByHolder (after renewed) theUpload := by
  have hempty : Reached init step Undisturbed empty := .start rfl
  have hreached : Reached init step Undisturbed (after renewed) :=
    hempty.run renewed (by decide) (by decide)
  have hcommits : step (after renewed) (.uploadCommits 1) =
      some (after (renewed ++ [.uploadCommits 1])) := by decide
  exact versions_recorded_by_holder hreached hcommits theUpload (by decide)

/-- Somebody takes the lock over while the body is streamed. -/
def takenOver : List Label := uploading ++ [.lockAsks 5 2 true, .lockTakes 2, .uploadLocks 1]

/-- The lock lapses while the body is streamed, and the profile is deleted. -/
def lapsed : List Label := uploading ++ [.tick 90, .deleteAsks [5], .deleteWrites 2, .uploadLocks 1]

/-- An upload is committed under a lock that is somebody else's by now, and
another into a profile that is deleted. -/
theorem version_recorded_without_lock :
    (Reached init step anyStep (after takenOver) ∧
      (lookup Upload.id (after takenOver).uploads 1 = some theUpload ∧
        step (after takenOver) (.uploadCommits 1) =
          some (after (takenOver ++ [.uploadCommits 1]))) ∧
      ¬ Holds (after takenOver) theUpload) ∧
    Reached init step anyStep (after lapsed) ∧
      (lookup Upload.id (after lapsed).uploads 1 = some theUpload ∧
        step (after lapsed) (.uploadCommits 1) = some (after (lapsed ++ [.uploadCommits 1]))) ∧
      ¬ Holds (after lapsed) theUpload ∧ ¬ Live (after lapsed) theUpload := by
  have hempty : Reached init step anyStep empty := .start rfl
  have htaken : (after takenOver).lock 5 = some ⟨5, 2, 1, 90⟩ := by decide
  have hlapsed : (after lapsed).lock 5 = some ⟨5, 1, 0, 90⟩ := by decide
  have hdeleted : (after lapsed).profile 5 = some ⟨5, 0, true⟩ := by decide
  refine ⟨⟨?_, by decide, ?_⟩, ?_, by decide, ?_, ?_⟩
  · exact hempty.run_any takenOver (by decide)
  · rintro ⟨l, hl, htoken, _⟩
    cases htaken.symm.trans hl
    cases htoken
  · exact hempty.run_any lapsed (by decide)
  · rintro ⟨l, hl, _, hexpires⟩
    cases hlapsed.symm.trans hl
    exact absurd hexpires (by decide)
  · rintro ⟨p, hp, hd⟩
    cases hdeleted.symm.trans hp
    cases hd

end FuryBrowser.LockHolder
