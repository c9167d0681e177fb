import FuryBrowser.LaunchLocks

/-!
# The lock of an open browser

A plain request for a lock is refused as long as there is time left on the one there is, whoever
has it. A forced one replaces it, and so does any where the lock has lapsed; that the browser of
that very lock is open on this machine is looked at by the agent, later. A launch whose answer is
lost counts as failed, though the agent goes on with it, and a stop that the agent has no entry
for counts as done, though the browser may not be in the map yet, or not have closed yet.
-/

namespace FuryBrowser.BrowserLocks

open GuardedRuns RowTable InFlight LaunchLocks

universe u

variable {π : Type u}

/-- No lock was taken from an open browser, and none that was released after a failed launch has
a browser or will have one. -/
structure Safe (db : Db π) : Prop where
  /-- Nothing was replaced or released while its browser was open. -/
  torn : db.torn = []
  /-- What was released after a failed launch is not in use. -/
  failed : ∀ t ∈ db.failed, db.isOpen t = false ∧ db.underWay t = false

section Conditions

/-- A lock that is replaced by force or after it has lapsed is not that of an open browser; the
shell stops waiting for a launch only when it is over; and a lock is returned at a stop that the
agent had nothing to do for only when its browser is not open. -/
def Meets (db : Db π) (p : π) : Stage → Outcome → Prop
  | .acquiring _ _, .failed => True
  | .acquiring force _, _ => ∀ k ∈ db.row p, force = true ∨ k.live = false →
    db.isOpen k.token = false
  | .waiting t, .lost => db.isOpen t = false ∧ db.underWay t = false
  | .giving _, .failed => True
  | .giving t, _ => db.isOpen t = false
  | _, _ => True

/-- A command's next step is such. -/
def Guard (w : World π) : Label π → Prop
  | .runs id o => ∀ f ∈ lookup Flight.id w.tasks.all id, Meets w.db f.caller f.stage o
  | _ => True

instance (db : Db π) (p : π) (stage : Stage) (o : Outcome) : Decidable (Meets db p stage o) := by
  cases stage <;> cases o <;> dsimp only [Meets] <;> infer_instance

instance (w : World π) (l : Label π) : Decidable (Guard w l) := by
  cases l <;> dsimp only [Guard] <;> infer_instance

end Conditions

section Tokens

/-- The token that a command took a lock with. -/
def own : Stage → Option ℕ
  | .granted _ t | .opening t | .waiting t | .failing t | .borrowed t => some t
  | _ => none

/-- A launch is over: it has no browser, and will have none. -/
def Over (db : Db π) (t : ℕ) : Prop := db.isOpen t = false ∧ db.underWay t = false

/-- A browser is running only after it was started. -/
def Sane (db : Db π) : Prop :=
  ∀ t l, db.launches t = some l → l.alive = true →
    l.phase = .spawned ∨ l.phase = .opened ∨ l.phase = .cut

/-- Before the shell turns to the agent there is no launch; when it gives up, there is none
left. -/
def Fits (db : Db π) : Stage → Prop
  | .granted _ t | .opening t | .borrowed t => db.launches t = none
  | .failing t => Over db t
  | _ => True

/-- What a command knows of its token. -/
structure Holds (db : Db π) (stage : Stage) (t : ℕ) : Prop where
  given : t < db.nextToken
  /-- It was not released as failed. -/
  kept : t ∉ db.failed
  /-- The agent is not further with it than the shell. -/
  fits : Fits db stage

/-- What guarded runs keep. -/
structure Inv (w : World π) : Prop where
  /-- The next tokens are new. -/
  fresh : ∀ t, w.db.nextToken ≤ t → w.db.launches t = none ∧ t ∉ w.db.failed
  /-- Every command's token is as it should be. -/
  tasks : ∀ f ∈ w.tasks.all, ∀ t, own f.stage = some t → Holds w.db f.stage t
  /-- No two commands have the same. -/
  unique : ∀ f ∈ w.tasks.all, ∀ g ∈ w.tasks.all, ∀ t, own f.stage = some t →
    own g.stage = some t → f.id = g.id
  sane : Sane w.db
  /-- What was taken and released. -/
  safe : Safe w.db

variable {db db' : Db π} {p : π} {t : ℕ} {stage : Stage}

/-- A step under which launches that are over stay so, and no token is released as failed. -/
structure Later (db db' : Db π) : Prop where
  /-- There are no launches out of nothing. -/
  absent : ∀ t, db.launches t = none → db'.launches t = none
  ended : ∀ t, Over db t → Over db' t
  /-- A browser is started first. -/
  sane : Sane db → Sane db'
  /-- Tokens are given one after the other. -/
  next : db.nextToken ≤ db'.nextToken
  /-- Nothing is released as failed. -/
  failed : db'.failed = db.failed
  /-- Nothing is taken from a browser. -/
  torn : db'.torn = db.torn

theorem Later.congr (hl : db'.launches = db.launches) (hn : db.nextToken ≤ db'.nextToken)
    (hf : db'.failed = db.failed) (ht : db'.torn = db.torn) : Later db db' := by
  refine ⟨fun t h => by rw [hl, h], fun t h => ?_, fun h => ?_, hn, hf, ht⟩
  · unfold Over Db.isOpen Db.underWay at h ⊢
    rwa [hl]
  · unfold Sane at h ⊢
    rwa [hl]

theorem Later.refl (db : Db π) : Later db db := .congr rfl (Nat.le_refl _) rfl rfl

theorem over_of_none (h : db.launches t = none) : Over db t := by
  unfold Over Db.isOpen Db.underWay
  rw [h]
  exact ⟨rfl, rfl⟩

theorem Later.fits (h : Later db db') (hs : Fits db stage) : Fits db' stage := by
  cases stage with
  | granted | opening | borrowed => exact h.absent _ hs
  | failing => exact h.ended _ hs
  | _ => trivial

theorem Later.holds (h : Later db db') (hs : Holds db stage t) : Holds db' stage t := by
  refine ⟨Nat.lt_of_lt_of_le hs.given h.next, ?_, h.fits hs.fits⟩
  rw [h.failed]
  exact hs.kept

theorem Later.safe (h : Later db db') (hs : Safe db) : Safe db' := by
  refine ⟨h.torn.trans hs.torn, fun t ht => h.ended t (hs.failed t ?_)⟩
  rwa [← h.failed]

theorem Later.fresh (h : Later db db')
    (hf : ∀ t, db.nextToken ≤ t → db.launches t = none ∧ t ∉ db.failed) :
    ∀ t, db'.nextToken ≤ t → db'.launches t = none ∧ t ∉ db'.failed := by
  intro t ht
  obtain ⟨hnone, hfailed⟩ := hf t (Nat.le_trans h.next ht)
  refine ⟨h.absent t hnone, ?_⟩
  rwa [h.failed]

/-- What happens outside of the shell. -/
theorem Inv.outside {w : World π} (hw : Inv w) (h : Later w.db db') : Inv ⟨db', w.tasks⟩ :=
  ⟨h.fresh hw.fresh, fun f hf t ht => h.holds (hw.tasks f hf t ht), hw.unique,
    h.sane hw.sane, h.safe hw.safe⟩

/-- A command goes on with its token, or with a new one, or without any. -/
theorem Inv.goOn {w : World π} {f : Flight π Stage} {st : Option Stage} (hw : Inv w)
    (hf : f ∈ w.tasks.all)
    (hfresh : ∀ t, db'.nextToken ≤ t → db'.launches t = none ∧ t ∉ db'.failed)
    (hsane : Sane db') (hsafe : Safe db')
    (hothers : ∀ g ∈ w.tasks.all, g.id ≠ f.id → ∀ t, own g.stage = some t → Holds db' g.stage t)
    (hself : ∀ stage, st = some stage → ∀ t, own stage = some t → Holds db' stage t ∧
      (own f.stage = some t ∨ w.db.nextToken ≤ t)) : Inv ⟨db', w.tasks.goOn f.id st⟩ := by
  -- A token of another command is neither that of this one nor a new one.
  have hne (g : Flight π Stage) (hg : g ∈ w.tasks.all) (hid : g.id ≠ f.id) (t : ℕ)
      (ht : own g.stage = some t) : ¬(own f.stage = some t ∨ w.db.nextToken ≤ t) := by
    intro hor
    rcases hor with hown | hnew
    · exact hid (hw.unique g hg f hf t ht hown)
    · exact absurd (hw.tasks g hg t ht).given (Nat.not_lt.mpr hnew)
  refine ⟨hfresh, fun g hg t ht => ?_, fun g hg g' hg' t ht ht' => ?_, hsane, hsafe⟩
  · rcases Flights.mem_goOn hf hg with ⟨hin, hid⟩ | ⟨stage, hst, rfl⟩
    · exact hothers g hin hid t ht
    · exact (hself stage hst t ht).1
  · rcases Flights.mem_goOn hf hg with ⟨hin, hid⟩ | ⟨stage, hst, rfl⟩ <;>
      rcases Flights.mem_goOn hf hg' with ⟨hin', hid'⟩ | ⟨stage', hst', rfl⟩
    · exact hw.unique g hin g' hin' t ht ht'
    · exact absurd (hself stage' hst' t ht').2 (hne g hin hid t ht)
    · exact absurd (hself stage hst t ht).2 (hne g' hin' hid' t ht')
    · rfl

/-- A command's step that changes nothing about launches. -/
theorem Inv.quiet {w : World π} {f : Flight π Stage} {st : Option Stage} (hw : Inv w)
    (hf : f ∈ w.tasks.all) (h : Later w.db db')
    (hself : ∀ stage, st = some stage → ∀ t, own stage = some t →
      own f.stage = some t ∧ Fits db' stage) : Inv ⟨db', w.tasks.goOn f.id st⟩ := by
  refine hw.goOn hf (h.fresh hw.fresh) (h.sane hw.sane) (h.safe hw.safe)
    (fun g hg _ t ht => h.holds (hw.tasks g hg t ht)) fun stage hst t ht => ?_
  obtain ⟨hown, hfits⟩ := hself stage hst t ht
  have hold := h.holds (hw.tasks f hf t hown)
  exact ⟨⟨hold.given, hold.kept, hfits⟩, .inl hown⟩

theorem Sane.setLaunch {l' : Launch π} (h : Sane db)
    (hl' : l'.alive = true → l'.phase = .spawned ∨ l'.phase = .opened ∨ l'.phase = .cut) :
    Sane (db.setLaunch t l') := by
  intro t' l ht'
  change Function.update db.launches t (some l') t' = some l at ht'
  by_cases heq : t' = t
  · rw [heq, Function.update_self] at ht'
    cases ht'
    exact hl'
  · rw [Function.update_of_ne heq] at ht'
    exact h t' l ht'

/-- A launch gets to another phase: one that is over stays over. -/
theorem Later.setLaunch {l l' : Launch π} (hl : db.launches t = some l)
    (hover : Over db t → l'.alive = false ∧ l'.phase.underWay = false)
    (hsane : Sane db → l'.alive = true →
      l'.phase = .spawned ∨ l'.phase = .opened ∨ l'.phase = .cut) :
    Later db (db.setLaunch t l') := by
  have hother (t' : ℕ) (hne : t' ≠ t) : (db.setLaunch t l').launches t' = db.launches t' :=
    Function.update_of_ne hne _ _
  refine ⟨fun t' h => ?_, fun t' h => ?_, fun h => .setLaunch h (hsane h), Nat.le_refl _, rfl,
    rfl⟩
  · by_cases heq : t' = t
    · rw [heq, hl] at h
      cases h
    · rw [hother t' heq, h]
  · by_cases heq : t' = t
    · subst heq
      unfold Over Db.isOpen Db.underWay
      change (((Function.update db.launches t' (some l')) t').any _ = false) ∧
        ((Function.update db.launches t' (some l')) t').any _ = false
      rw [Function.update_self]
      exact hover h
    · unfold Over Db.isOpen Db.underWay at h ⊢
      rwa [hother t' heq]

theorem over_iff {l : Launch π} (hl : db.launches t = some l) :
    Over db t ↔ l.alive = false ∧ l.phase.underWay = false := by
  unfold Over Db.isOpen Db.underWay
  rw [hl]
  rfl

/-- A launch that is still under way is not over. -/
theorem Later.move {l l' : Launch π} (hl : db.launches t = some l)
    (hphase : l.phase.underWay = true)
    (hsane : Sane db → l'.alive = true →
      l'.phase = .spawned ∨ l'.phase = .opened ∨ l'.phase = .cut) :
    Later db (db.setLaunch t l') := by
  refine .setLaunch hl (fun hover => ?_) hsane
  have hnot := ((over_iff hl).mp hover).2
  rw [hphase] at hnot
  cases hnot

/-- Nothing is torn where no browser is open. -/
theorem tearing_nil (h : ∀ k ∈ db.row p, db.isOpen k.token = false) : db.tearing p = [] := by
  unfold Db.tearing
  split
  next k hk =>
    have hclosed := h k hk
    simp [hclosed]
  · rfl

variable [DecidableEq π]

theorem Later.releaseLock : Later db (db.releaseLock p t) := by
  unfold Db.releaseLock
  split
  · exact .congr rfl (Nat.le_refl _) rfl rfl
  · exact .refl db

/-- The shell releases a lock whose browser is not open. -/
theorem Later.unlock (h : db.isOpen t = false) : Later db (db.unlock p t) := by
  unfold Db.unlock
  split
  next htoken =>
    have hnil : db.tearing p = [] := by
      refine tearing_nil fun k hk => ?_
      rw [Option.mem_def.mp hk] at htoken
      rw [Option.some.inj htoken]
      exact h
    have hold : Later db (db.releaseLock p t) := .releaseLock
    rw [hnil]
    exact ⟨hold.absent, hold.ended, hold.sane, hold.next, hold.failed, rfl⟩
  · exact .refl db

/-- Whatever happens outside of the shell, launches that are over stay so. -/
theorem event_later {e : Event π} (h : db.event e = some db') : Later db db' := by
  cases e with
  | checks t =>
    obtain ⟨l, hl, h⟩ := Option.bind_eq_some_iff.mp h
    obtain ⟨hphase, h⟩ := Option.ite_none_right_eq_some.mp h
    have hway : l.phase.underWay = true := by rw [hphase]; rfl
    -- It has no browser yet.
    have hno : Sane db → l.alive = false := fun hsane => by
      simpa [hphase] using hsane t l hl
    unfold Db.checks at h
    split at h
    · cases h
      exact .move hl hway fun hsane halive => absurd halive (by simp [hno hsane])
    · obtain ⟨_, h⟩ := Option.ite_none_right_eq_some.mp h
      cases h
      exact .move hl hway fun hsane halive => absurd halive (by simp [hno hsane])
  | fails t =>
    obtain ⟨l, hl, h⟩ := Option.bind_eq_some_iff.mp h
    obtain ⟨hphase, h⟩ := Option.ite_none_right_eq_some.mp h
    cases h
    refine .move hl ?_ fun hsane halive => ?_
    · rcases hphase with hphase | hphase <;> rw [hphase] <;> rfl
    · have hstarted := hsane t l hl halive
      rcases hphase with hphase | hphase <;> simp [hphase] at hstarted
  | spawns t =>
    obtain ⟨l, hl, h⟩ := Option.bind_eq_some_iff.mp h
    obtain ⟨hphase, h⟩ := Option.ite_none_right_eq_some.mp h
    cases h
    exact .move hl (by rw [hphase]; rfl) fun _ _ => .inl rfl
  | inserts t =>
    obtain ⟨l, hl, h⟩ := Option.bind_eq_some_iff.mp h
    obtain ⟨hphase, h⟩ := Option.ite_none_right_eq_some.mp h
    cases h
    have hmove : Later db (db.setLaunch t { l with phase := .opened }) :=
      .move hl (by rw [hphase]; rfl) fun _ _ => .inr (.inl rfl)
    exact ⟨hmove.absent, hmove.ended, hmove.sane, hmove.next, hmove.failed, hmove.torn⟩
  | closes t =>
    obtain ⟨l, hl, rfl⟩ := Option.map_eq_some_iff.mp h
    exact .setLaunch hl (fun hover => ⟨rfl, ((over_iff hl).mp hover).2⟩) fun _ h => (by cases h)
  | stops p =>
    obtain ⟨t, _, rfl⟩ := Option.map_eq_some_iff.mp h
    exact .congr rfl (Nat.le_refl _) rfl rfl
  | stopEnds t releases =>
    obtain ⟨l, _, h⟩ := Option.bind_eq_some_iff.mp h
    obtain ⟨_, h⟩ := Option.ite_none_right_eq_some.mp h
    cases h
    cases releases with
    | false => exact .congr rfl (Nat.le_refl _) rfl rfl
    | true =>
      have hold : Later db (db.releaseLock l.profile t) := .releaseLock
      exact ⟨hold.absent, hold.ended, hold.sane, hold.next, hold.failed, hold.torn⟩
  | agentEnds =>
    cases h
    refine ⟨fun t ht => ?_, fun t ht => ?_, fun hsane t l' hl' halive => ?_, Nat.le_refl _, rfl,
      rfl⟩
    · change (db.launches t).map Db.cutShort = none
      rw [ht]
      rfl
    · cases hl : db.launches t with
      | none =>
        refine over_of_none ?_
        change (db.launches t).map Db.cutShort = none
        rw [hl]
        rfl
      | some l =>
        obtain ⟨halive, hway⟩ := (over_iff hl).mp ht
        have hcut : Db.cutShort l = l := by simp [Db.cutShort, hway]
        refine (over_iff (l := l) ?_).mpr ⟨halive, hway⟩
        change (db.launches t).map Db.cutShort = some l
        rw [hl, Option.map_some, hcut]
    · obtain ⟨l, hl, rfl⟩ := Option.map_eq_some_iff.mp hl'
      unfold Db.cutShort at halive ⊢
      split
      · exact .inr (.inr rfl)
      next hway =>
        rw [if_neg hway] at halive
        exact hsane t l hl halive
  | agentStarts =>
    cases h
    exact .congr rfl (Nat.le_refl _) rfl rfl
  | renews t =>
    obtain ⟨l, _, rfl⟩ := Option.map_eq_some_iff.mp h
    exact .congr rfl (Nat.le_refl _) rfl rfl
  | lapses p =>
    cases h
    exact .congr rfl (Nat.le_refl _) rfl rfl
  | taken p =>
    cases h
    exact .congr rfl (Nat.le_succ _) rfl rfl
  | dropped p =>
    cases h
    exact .congr rfl (Nat.le_refl _) rfl rfl

end Tokens

section Commands

variable {w w' : World π} {f : Flight π Stage} {db' : Db π} {st : Option Stage}
  {p : π} {t : ℕ}

/-- The command goes on without a token. -/
theorem Inv.without (hw : Inv w) (hf : f ∈ w.tasks.all) (h : Later w.db db')
    (hnone : ∀ stage, st = some stage → own stage = none) : Inv ⟨db', w.tasks.goOn f.id st⟩ := by
  refine hw.quiet hf h fun stage hst t ht => ?_
  rw [hnone stage hst] at ht
  cases ht

/-- The command goes on with its token. -/
theorem Inv.keep {stage : Stage} (hw : Inv w) (hf : f ∈ w.tasks.all) (h : Later w.db db')
    (hown : own f.stage = own stage) (hfits : Fits db' stage) :
    Inv ⟨db', w.tasks.goOn f.id (some stage)⟩ := by
  refine hw.quiet hf h fun stage' hst t ht => ?_
  cases hst
  exact ⟨hown.trans ht, hfits⟩

/-- A lock that is granted is not that of an open browser: a plain request that finds one with
time left is refused. -/
theorem tearing_of_free {db : Db π} {force : Bool} (hfree : db.free p force = true)
    (h : ∀ k ∈ db.row p, force = true ∨ k.live = false → db.isOpen k.token = false) :
    db.tearing p = [] := by
  refine tearing_nil fun k hk => h k hk ?_
  unfold Db.free at hfree
  rw [Option.mem_def.mp hk] at hfree
  simpa [or_comm] using hfree

theorem Inv.arrive (hw : Inv w) (hf : f ∈ w.tasks.all) (hstage : f.stage = .opening t) :
    Inv ⟨w.db.setLaunch t ⟨p, .asked, false⟩, w.tasks.goOn f.id (some (.waiting t))⟩ := by
  have hold := hw.tasks f hf t (by rw [hstage]; rfl)
  have hother (t' : ℕ) (hne : t' ≠ t) :
      (w.db.setLaunch t ⟨p, .asked, false⟩).launches t' = w.db.launches t' :=
    Function.update_of_ne hne _ _
  have hover (t' : ℕ) (hne : t' ≠ t) (h : Over w.db t') :
      Over (w.db.setLaunch t ⟨p, .asked, false⟩) t' := by
    unfold Over Db.isOpen Db.underWay at h ⊢
    rwa [hother t' hne]
  refine hw.goOn hf (fun t' ht => ?_) (hw.sane.setLaunch fun h => by cases h)
    ⟨hw.safe.torn, fun t' ht => ?_⟩ (fun g hg hid t' ht => ?_) fun stage hst t' ht => ?_
  · have hne : t' ≠ t := fun heq => Nat.lt_irrefl _ (Nat.lt_of_lt_of_le hold.given (heq ▸ ht))
    rw [hother t' hne]
    exact hw.fresh t' ht
  · exact hover t' (fun heq => hold.kept (heq ▸ ht)) (hw.safe.failed t' ht)
  · have hne : t' ≠ t := by
      intro heq
      exact hid (hw.unique g hg f hf t (heq ▸ ht) (by rw [hstage]; rfl))
    obtain ⟨hgiven, hkept, hfits⟩ := hw.tasks g hg t' ht
    refine ⟨hgiven, hkept, ?_⟩
    cases hs : g.stage with
    | granted | opening | borrowed =>
      rw [hs] at ht hfits
      cases ht
      exact (hother _ hne).trans hfits
    | failing =>
      rw [hs] at ht hfits
      cases ht
      exact hover _ hne hfits
    | _ => trivial
  · cases hst
    cases ht
    exact ⟨⟨hold.given, hold.kept, trivial⟩, .inl (by rw [hstage]; rfl)⟩

variable [DecidableEq π]

theorem acquireLock_later {db : Db π} (h : db.tearing p = []) : Later db (db.acquireLock p) := by
  refine .congr rfl (Nat.le_succ _) rfl ?_
  change db.tearing p ++ db.torn = db.torn
  rw [h, List.nil_append]

/-- The shell gets a lock, and its token is a new one. -/
theorem Inv.acquire {use : Use} (hw : Inv w) (hf : f ∈ w.tasks.all) (h : w.db.tearing p = []) :
    Inv ⟨w.db.acquireLock p, w.tasks.goOn f.id (some (.granted use w.db.nextToken))⟩ := by
  have hlater := acquireLock_later h
  refine hw.goOn hf (hlater.fresh hw.fresh) (hlater.sane hw.sane) (hlater.safe hw.safe)
    (fun g hg _ t ht => hlater.holds (hw.tasks g hg t ht)) fun stage hst t ht => ?_
  cases hst
  cases ht
  obtain ⟨hnone, hfailed⟩ := hw.fresh _ (Nat.le_refl _)
  exact ⟨⟨Nat.lt_succ_self _, hfailed, hnone⟩, .inr (Nat.le_refl _)⟩

/-- The shell gives back the lock of a launch that is over. -/
theorem Inv.fail (hw : Inv w) (hf : f ∈ w.tasks.all) (hstage : f.stage = .failing t) :
    Inv ⟨w.db.unlockFailed p t, w.tasks.goOn f.id (some .forgetting)⟩ := by
  have hold := hw.tasks f hf t (by rw [hstage]; rfl)
  have hfits := hold.fits
  rw [hstage] at hfits
  have hover : Over w.db t := hfits
  have hlater : Later w.db (w.db.unlock p t) := .unlock hover.1
  unfold Db.unlockFailed
  split
  · refine hw.goOn hf (fun t' ht => ?_) (hlater.sane hw.sane)
      ⟨hlater.torn.trans hw.safe.torn, fun t' ht => ?_⟩ (fun g hg hid t' ht => ?_)
      fun stage hst t' ht => ?_
    · obtain ⟨hnone, hkept⟩ := hlater.fresh hw.fresh t' ht
      refine ⟨hnone, fun hmem => ?_⟩
      rcases List.mem_cons.mp hmem with rfl | hmem
      · exact absurd hold.given (Nat.not_lt.mpr (Nat.le_trans hlater.next ht))
      · exact hkept (hlater.failed ▸ hmem)
    · rcases List.mem_cons.mp ht with rfl | ht
      · exact hlater.ended t' hover
      · exact hlater.ended t' (hw.safe.failed t' ht)
    · have hholds := hlater.holds (hw.tasks g hg t' ht)
      refine ⟨hholds.given, fun hmem => ?_, hholds.fits⟩
      rcases List.mem_cons.mp hmem with rfl | hmem
      · exact hid (hw.unique g hg f hf t' ht (by rw [hstage]; rfl))
      · exact (hw.tasks g hg t' ht).kept hmem
    · cases hst
      cases ht
  · refine hw.without hf (.refl _) fun stage hst => ?_
    cases hst
    rfl

omit [DecidableEq π] in
/-- A launch that the agent refused has no browser. -/
theorem over_of_failed {db : Db π} (hsane : Sane db) (h : db.phase t = some .failed) :
    Over db t := by
  obtain ⟨l, hl, hphase⟩ := Option.map_eq_some_iff.mp h
  refine (over_iff hl).mpr ⟨?_, by rw [hphase]; rfl⟩
  simpa [hphase] using hsane t l hl

theorem runs_inv {o : Outcome} (hw : Inv w) (hf : f ∈ w.tasks.all)
    (hg : Meets w.db f.caller f.stage o)
    (h : w.db.runs f.caller f.stage o = some (db', st)) : Inv ⟨db', w.tasks.goOn f.id st⟩ := by
  have hfits (stage : Stage) (hstage : f.stage = stage) (t : ℕ) (ht : own stage = some t) :
      Fits w.db stage := hstage ▸ (hw.tasks f hf t (hstage ▸ ht)).fits
  cases hstage : f.stage with
  | asking use =>
    rw [hstage] at h
    cases o with
    | done =>
      obtain ⟨_, h⟩ := Option.ite_none_right_eq_some.mp h
      cases h
      refine hw.without hf (.refl _) fun stage hst => ?_
      split at hst <;> cases hst
      rfl
    | failed =>
      cases h
      exact hw.keep hf (.refl _) (by rw [hstage]; rfl) trivial
    | lost => cases h
  | acquiring force use =>
    rw [hstage] at h hg
    cases o with
    | done =>
      obtain ⟨hfree, h⟩ := Option.ite_none_right_eq_some.mp h
      cases h
      exact hw.acquire hf (tearing_of_free hfree hg)
    | lost =>
      obtain ⟨hfree, h⟩ := Option.ite_none_right_eq_some.mp h
      cases h
      exact hw.without hf (acquireLock_later (tearing_of_free hfree hg)) fun _ hst => (by cases hst)
    | failed =>
      cases h
      exact hw.without hf (.refl _) fun _ hst => (by cases hst)
  | granted use t =>
    rw [hstage] at h
    have hnone := hfits _ hstage t rfl
    cases use <;> cases o <;> cases h
    · exact hw.keep hf (.congr rfl (Nat.le_refl _) rfl rfl) (by rw [hstage]; rfl) hnone
    · exact hw.keep hf (.refl _) (by rw [hstage]; rfl) hnone
  | opening t =>
    rw [hstage] at h
    have hover : Over w.db t := over_of_none (hfits _ hstage t rfl)
    cases o with
    | done =>
      dsimp only [Db.runs] at h
      split at h <;> cases h
      · exact hw.arrive hf hstage
      · exact hw.keep hf (.refl _) (by rw [hstage]; rfl) hover
    | failed =>
      cases h
      exact hw.keep hf (.refl _) (by rw [hstage]; rfl) hover
    | lost => cases h
  | waiting t =>
    rw [hstage] at h hg
    cases o with
    | done =>
      obtain ⟨_, h⟩ := Option.ite_none_right_eq_some.mp h
      cases h
      exact hw.without hf (.refl _) fun _ hst => (by cases hst)
    | failed =>
      obtain ⟨hphase, h⟩ := Option.ite_none_right_eq_some.mp h
      cases h
      exact hw.keep hf (.refl _) (by rw [hstage]; rfl) (over_of_failed hw.sane hphase)
    | lost =>
      cases h
      exact hw.keep hf (.refl _) (by rw [hstage]; rfl) hg
  | failing t =>
    rw [hstage] at h
    cases o with
    | failed =>
      cases h
      exact hw.without hf (.refl _) fun _ hst => (by cases hst; rfl)
    | done | lost =>
      cases h
      exact hw.fail hf hstage
  | forgetting =>
    rw [hstage] at h
    cases o <;> cases h
    exact hw.without hf (.congr rfl (Nat.le_refl _) rfl rfl) fun _ hst => (by cases hst)
  | borrowed t =>
    rw [hstage] at h
    have hover : Over w.db t := over_of_none (hfits _ hstage t rfl)
    cases o with
    | failed =>
      cases h
      exact hw.without hf (.refl _) fun _ hst => (by cases hst)
    | done | lost =>
      cases h
      exact hw.without hf (.unlock hover.1) fun _ hst => (by cases hst)
  | stopping =>
    rw [hstage] at h
    cases o <;> cases h
    refine hw.without hf (.refl _) fun stage hst => ?_
    obtain ⟨t, _, rfl⟩ := Option.map_eq_some_iff.mp hst
    rfl
  | stopAsked t =>
    rw [hstage] at h
    cases o with
    | done =>
      dsimp only [Db.runs] at h
      split at h
      · split at h <;> cases h
        · exact hw.without hf (.congr rfl (Nat.le_refl _) rfl rfl) fun _ hst => (by cases hst; rfl)
        · exact hw.without hf (.refl _) fun _ hst => (by cases hst; rfl)
      · cases h
        exact hw.without hf (.refl _) fun _ hst => (by cases hst; rfl)
    | failed =>
      cases h
      exact hw.without hf (.refl _) fun _ hst => (by cases hst; rfl)
    | lost => cases h
  | stopWaits =>
    rw [hstage] at h
    cases h
    exact hw.without hf (.refl _) fun _ hst => (by cases hst; rfl)
  | giving t =>
    rw [hstage] at h hg
    cases o with
    | done =>
      cases h
      exact hw.without hf (.unlock hg) fun _ hst => (by cases hst; rfl)
    | lost =>
      cases h
      exact hw.without hf (.unlock hg) fun _ hst => (by cases hst)
    | failed =>
      cases h
      exact hw.without hf (.refl _) fun _ hst => (by cases hst)

theorem step_inv : Preserved (step : World π → Label π → _) Guard Inv := by
  intro w l w' hw hg hs
  cases l with
  | start p stage =>
    obtain ⟨hbegins, hs⟩ := Option.ite_none_right_eq_some.mp hs
    cases hs
    -- A command that begins has no lock yet.
    have hnone : own stage = none := by
      cases stage <;> first | rfl | cases hbegins
    have hold (f : Flight π Stage) (hf : f ∈ (w.tasks.start p stage).all) (t : ℕ)
        (ht : own f.stage = some t) : f ∈ w.tasks.all := by
      rcases Flights.mem_start.mp hf with rfl | hf
      · rw [hnone] at ht
        cases ht
      · exact hf
    exact ⟨hw.fresh, fun f hf t ht => hw.tasks f (hold f hf t ht) t ht,
      fun f hf g hg t ht ht' => hw.unique f (hold f hf t ht) g (hold g hg t ht') t ht ht',
      hw.sane, hw.safe⟩
  | runs id o =>
    obtain ⟨f, hlookup, hs⟩ := Option.bind_eq_some_iff.mp hs
    obtain ⟨⟨db', st⟩, hruns, rfl⟩ := Option.map_eq_some_iff.mp hs
    obtain ⟨hf, rfl⟩ := lookup_some hlookup
    exact runs_inv hw hf (hg f hlookup) hruns
  | event e =>
    obtain ⟨db', hevent, rfl⟩ := Option.map_eq_some_iff.mp hs
    exact hw.outside (event_later hevent)
  | quits =>
    cases hs
    exact ⟨hw.fresh, List.forall_mem_nil _, List.forall_mem_nil _, hw.sane, hw.safe.torn,
      hw.safe.failed⟩

/-- In every run in which no lock is replaced by force or after it lapsed while its browser is
open here, the shell stops waiting for a launch only when it is over, and returns a lock at a
stop that the agent had nothing to do for only when its browser is not open, no lock is taken
from an open browser, and none that was released after a failed launch has a browser or will
have one. -/
theorem open_browser_keeps_lock (hr : Reached Start step Guard w) : Safe w.db := by
  refine (hr.invariant Inv (fun w hw => ?_) step_inv).safe
  refine ⟨fun t _ => ⟨hw.launches t, ?_⟩, ?_, ?_, fun t l hl => ?_, hw.torn, ?_⟩
  · rw [hw.failed]
    exact List.not_mem_nil
  · rw [hw.tasks]
    exact List.forall_mem_nil _
  · rw [hw.tasks]
    exact List.forall_mem_nil _
  · rw [hw.launches t] at hl
    cases hl
  · rw [hw.failed]
    exact List.forall_mem_nil _

end Commands

section Examples

/-- Nobody has a lock, and nothing is open. -/
def idle : World ℕ where
  db :=
    { row := fun _ => none, nextToken := 0, locks := fun _ => none, launches := fun _ => none,
      running := fun _ => none, stops := [], up := true, torn := [], failed := [] }
  tasks := .none

theorem idle_start : Start idle :=
  ⟨rfl, fun _ => rfl, fun _ => rfl, rfl, fun _ => rfl, fun _ _ h => (by cases h), rfl, rfl⟩

/-- A profile is opened. -/
def opens : List (Label ℕ) :=
  [.start 7 (.acquiring false .launch), .runs 0 .done, .runs 0 .done, .runs 0 .done,
    .event (.checks 0), .event (.spawns 0), .event (.inserts 0), .runs 0 .done]

/-- It is opened, renewed late and closed; a colleague takes it, and a forced launch fails. -/
def openAndClose : List (Label ℕ) :=
  opens ++ [.event (.lapses 7), .event (.renews 0), .start 7 .stopping, .runs 1 .done,
    .runs 1 .done, .event (.closes 0), .event (.stopEnds 0 true), .runs 1 .done, .runs 1 .done,
    .event (.taken 7), .start 7 (.acquiring true .launch), .runs 2 .done, .runs 2 .done,
    .runs 2 .failed, .runs 2 .done]

/-- Its lock is released, and nothing is torn. -/
theorem open_browser_keeps_lock_openAndClose : ∃ w, run step idle openAndClose = some w ∧
    w.db.failed = [2] ∧ Safe w.db := by
  have hrun : (run step idle openAndClose).map (fun w => w.db.failed) = some [2] := by
    decide
  obtain ⟨w, h, hfailed⟩ := Option.map_eq_some_iff.mp hrun
  exact ⟨w, h, hfailed, open_browser_keeps_lock
    ((Reached.start idle_start).run openAndClose (by decide) h)⟩

/-- A forced launch of a profile that is open here replaces its lock. -/
theorem forced_launch_tears : ¬∀ w : World ℕ, Reached Start step anyStep w → Safe w.db := by
  intro hall
  have hrun : (run step idle (opens ++ [.start 7 (.acquiring true .launch), .runs 1 .done])).map
      (fun w => w.db.torn) = some [0] := by decide
  obtain ⟨w, h, htorn⟩ := Option.map_eq_some_iff.mp hrun
  have hsafe := (hall w ((Reached.start idle_start).run_any _ h)).torn
  exact absurd (htorn.symm.trans hsafe) (by simp)

end Examples

end FuryBrowser.BrowserLocks
