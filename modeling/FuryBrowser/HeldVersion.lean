import FuryBrowser.SessionRuns

/-!
# The held version and its directory

A launch that skips the download believes the version file beside the
directory. `held` asks whether the directory exists, but the launch has made it
by then, so the file is believed without it. The same holds of the marker of an
unsent session, which keeps the local copy.

Runs in which no launch meets a missing directory beside a file naming the
server's current version believe the file only when the directory holds it, and
never upload less than the version they replace.
-/

namespace FuryBrowser.HeldVersion

open GuardedRuns UnsyncedSlot SessionRuns

/-- The sessions of the server's current version. -/
def top (w : World) : Content := w.server.headD []

/-- The directory exists and holds the server's current version. -/
def HoldsCurrent (w : World) : Prop :=
  ∃ content, w.slot.dir = some content ∧ ∀ s ∈ top w, s ∈ content

instance (w : World) : Decidable (HoldsCurrent w) :=
  match h : w.slot.dir with
  | none => .isFalse (by simp [HoldsCurrent, h])
  | some content =>
    decidable_of_iff (∀ s ∈ top w, s ∈ content) (by simp [HoldsCurrent, h])

/-- Whether a launch's answer is one it does not unpack because of the version
it holds. -/
def skips (w : World) : Bool :=
  match w.phase with
  | .fetched (.unchanged _) => true
  | .fetched (.bundle _ version) => w.slot.held = some version
  | _ => false

/-- A launch skips the bundle only if the directory was there and held it, and an
accepted upload has everything of the version it replaces. -/
def BelievesRightly (w : World) (a : Label) (w' : World) : Prop :=
  match a with
  | .launch _ => skips w' = true → HoldsCurrent w
  | .push _ => ∀ s ∈ top w, s ∈ top w'
  | _ => True

instance (w w' : World) (a : Label) : Decidable (BelievesRightly w a w') := by
  unfold BelievesRightly
  split <;> infer_instance

/-- A launch that makes a missing directory finds no file beside it that names
the server's current version. -/
def DirOrNoRecord (w : World) : Label → Prop
  | .launch _ => w.slot.dir.isSome = true ∨ w.server = [] ∨
      (w.slot.version ≠ some w.current ∧ w.slot.unsynced ≠ some w.current)
  | _ => True

instance : DecidableRel DirOrNoRecord := fun w a => by
  unfold DirOrNoRecord
  split <;> infer_instance

/-- A recorded version is one of the server's, and the directory, when it exists
and the version is the current one, holds it. -/
def Recorded (w : World) (record : Option ℤ) : Prop :=
  ∀ v, record = some v → v ≤ w.current ∧
    (v = w.current → ∀ content, w.slot.dir = some content → ∀ s ∈ top w, s ∈ content)

/-- The version a session grows from is one of the server's, and the directory
holds it when it is the current one. -/
def Based (w : World) (base : ℤ) : Prop :=
  base ≤ w.current ∧ (base = w.current → HoldsCurrent w)

/-- An answer a launch can act on: nothing newer than the server, and no older
than the two records. -/
def Offered (w : World) : Answer Content → Prop
  | .unchanged version => Based w version
  | .nothing => Based w 0
  | .bundle content version =>
    version ≤ w.current ∧ (version = w.current → top w = content) ∧
      (∀ v, w.slot.version = some v → v ≤ version) ∧
      ∀ b, w.slot.unsynced = some b → b ≤ version

/-- What every phase relies on. -/
def PhaseInv (w : World) : Phase → Prop
  | .idle => True
  | .fetched answer => w.slot.dir.isSome = true ∧ Offered w answer
  | .pulled base => w.slot.dir.isSome = true ∧ Based w base
  | .opened base => w.slot.dir.isSome = true ∧ Based w base
  | .closing base => w.slot.dir.isSome = true ∧ Based w base
  | .answered base none => w.slot.dir.isSome = true ∧ Based w base
  | .answered _ (some version) => w.slot.dir.isSome = true ∧ Based w version

/-- What every run keeps. -/
structure Inv (w : World) : Prop where
  version : Recorded w w.slot.version
  /-- The marker of an unsent session. -/
  unsynced : Recorded w w.slot.unsynced
  phase : PhaseInv w w.phase

section Records

variable {w w' : World}

theorem current_nonneg : 0 ≤ w.current := Int.natCast_nonneg _

/-- A record is usable once the directory is there. -/
theorem Recorded.based {record : Option ℤ} (h : Recorded w record) {v : ℤ}
    (hv : record = some v) (hd : w.slot.dir.isSome = true) : Based w v := by
  obtain ⟨content, hcontent⟩ := Option.isSome_iff_exists.mp hd
  have hrec := h v hv
  exact ⟨hrec.1, fun hcur => ⟨content, hcontent, hrec.2 hcur content hcontent⟩⟩

/-- What a session may grow from may be recorded. -/
theorem Based.recorded {v : ℤ} (h : Based w v) : Recorded w (some v) := by
  rintro _ ⟨⟩
  refine ⟨h.1, fun hcur content hcontent => ?_⟩
  obtain ⟨content', hcontent', hall⟩ := h.2 hcur
  rw [hcontent] at hcontent'
  cases hcontent'
  exact hall

/-- With no version on the server any directory holds the current one. -/
theorem based_zero (hserver : w.server = []) (hd : w.slot.dir.isSome = true) : Based w 0 := by
  obtain ⟨content, hcontent⟩ := Option.isSome_iff_exists.mp hd
  refine ⟨current_nonneg, fun _ => ⟨content, hcontent, ?_⟩⟩
  simp [top, hserver]

/-- A step that leaves the server alone and the directory no smaller keeps what a
session grows from. -/
theorem Based.mono {v : ℤ} (h : Based w v) (hserver : w'.server = w.server)
    (hdir : ∀ content, w.slot.dir = some content →
      ∃ content', w'.slot.dir = some content' ∧ ∀ s ∈ content, s ∈ content') :
    Based w' v := by
  have hcur : w'.current = w.current := by simp [World.current, hserver]
  have htop : top w' = top w := by simp [top, hserver]
  refine ⟨hcur ▸ h.1, fun hv => ?_⟩
  obtain ⟨content, hcontent, hall⟩ := h.2 (hcur ▸ hv)
  obtain ⟨content', hcontent', hsub⟩ := hdir content hcontent
  exact ⟨content', hcontent', fun s hs => hsub s (hall s (htop ▸ hs))⟩

/-- Likewise a record, when the directory has no other content than one that
was there. -/
theorem Recorded.mono {record : Option ℤ} (h : Recorded w record)
    (hserver : w'.server = w.server)
    (hdir : ∀ content', w'.slot.dir = some content' →
      ∃ content, w.slot.dir = some content ∧ ∀ s ∈ content, s ∈ content') :
    Recorded w' record := by
  have hcur : w'.current = w.current := by simp [World.current, hserver]
  have htop : top w' = top w := by simp [top, hserver]
  intro v hv
  obtain ⟨hle, hrec⟩ := h v hv
  refine ⟨hcur ▸ hle, fun hv' content' hcontent' s hs => ?_⟩
  obtain ⟨content, hcontent, hsub⟩ := hdir content' hcontent'
  exact hsub s (hrec (hcur ▸ hv') content hcontent s (htop ▸ hs))

/-- A record of an earlier version says nothing about the directory. -/
theorem Recorded.of_lt {record : Option ℤ} (h : ∀ v, record = some v → v < w.current) :
    Recorded w record := by
  intro v hv
  have hlt := h v hv
  exact ⟨by omega, fun hcur => by omega⟩

/-- A new version leaves every record behind. -/
theorem Recorded.newVersion {record : Option ℤ} (h : Recorded w record) {content : Content}
    (hserver : w'.server = content :: w.server) : Recorded w' record := by
  refine Recorded.of_lt fun v hv => ?_
  have hle := (h v hv).1
  have hcur : w'.current = w.current + 1 := by simp [World.current, hserver]
  omega

/-- A new version leaves what a session grew from behind. -/
theorem Based.newVersion {v : ℤ} (h : Based w v) {content : Content}
    (hserver : w'.server = content :: w.server) : Based w' v := by
  have hle := h.1
  have hcur : w'.current = w.current + 1 := by simp [World.current, hserver]
  exact ⟨by omega, fun _ => by omega⟩

end Records

section Steps

variable {w w' : World}

/-- Making the directory leaves the records as true as they were. -/
theorem recorded_createDir {record : Option ℤ} (phase : Phase) (h : Recorded w record)
    (hg : w.slot.dir.isSome = true ∨ w.server = [] ∨ record ≠ some w.current) :
    Recorded { w with slot := w.slot.createDir [], phase := phase } record := by
  intro v hv
  refine ⟨(h v hv).1, fun hcur content hcontent s hs => ?_⟩
  rcases hg with hd | hserver | hne
  · obtain ⟨old, hold⟩ := Option.isSome_iff_exists.mp hd
    have hsame : content = old := by simpa [hold] using hcontent.symm
    exact hsame ▸ (h v hv).2 hcur old hold s hs
  · simp [top, hserver] at hs
  · exact absurd (hv.trans (congrArg some hcur)) hne

/-- The server's answer is one the launch can act on. -/
theorem offered_serverAnswer {honoursEtag : Bool} (hd : w.slot.dir.isSome = true)
    (hv : Recorded w w.slot.version) (hu : Recorded w w.slot.unsynced)
    (hheld : w.slot.held = w.slot.version) :
    Offered w (serverAnswer w.server w.slot.held honoursEtag) := by
  cases hserver : w.server with
  | nil => exact based_zero hserver hd
  | cons head rest =>
    have hcur : ((head :: rest).length : ℤ) = w.current := by simp [World.current, hserver]
    unfold serverAnswer
    dsimp only
    rw [hcur]
    split
    next hc => exact hv.based (hheld ▸ hc.2) hd
    · refine ⟨Int.le_refl _, fun _ => by simp [top, hserver], fun v h => (hv v h).1,
        fun b h => (hu b h).1⟩

/-- A launch keeps the invariant, and skips only a directory that holds the
server's version. -/
theorem inv_launch (hi : Inv w) {reply : Reply} (hg : DirOrNoRecord w (.launch reply))
    (hs : step w (.launch reply) = some w') :
    Inv w' ∧ BelievesRightly w (.launch reply) w' := by
  have hgv : w.slot.dir.isSome = true ∨ w.server = [] ∨ w.slot.version ≠ some w.current :=
    hg.imp_right (Or.imp_right And.left)
  have hgu : w.slot.dir.isSome = true ∨ w.server = [] ∨ w.slot.unsynced ≠ some w.current :=
    hg.imp_right (Or.imp_right And.right)
  cases hp : w.phase with
  | idle =>
    cases reply with
    | failed =>
      simp only [step, hp, Option.some.injEq] at hs
      subst hs
      refine ⟨⟨recorded_createDir .idle hi.version hgv, recorded_createDir .idle hi.unsynced hgu,
        trivial⟩, ?_⟩
      intro hskip
      simp [skips] at hskip
    | answered honoursEtag =>
      simp only [step, hp, Option.some.injEq] at hs
      subst hs
      have hversion := recorded_createDir (.fetched
        (serverAnswer w.server (w.slot.createDir []).held honoursEtag)) hi.version hgv
      have hunsynced := recorded_createDir (.fetched
        (serverAnswer w.server (w.slot.createDir []).held honoursEtag)) hi.unsynced hgu
      refine ⟨⟨hversion, hunsynced, rfl, ?_⟩, fun hskip => ?_⟩
      · exact offered_serverAnswer rfl hversion hunsynced rfl
      · have hnonempty : w.server ≠ [] := by
          intro hnil
          simp [skips, serverAnswer, hnil] at hskip
        have hver : w.slot.version = some w.current := by
          cases hserver : w.server with
          | nil => exact absurd hserver hnonempty
          | cons head rest =>
            have hcur : ((head :: rest).length : ℤ) = w.current := by
              simp [World.current, hserver]
            simp only [skips, serverAnswer, hserver, hcur] at hskip
            split at hskip
            next hf =>
              split at hf
              next hc => exact hc.2
              · cases hf
            next hf =>
              split at hf
              · cases hf
              · cases hf
                exact of_decide_eq_true hskip
            · cases hskip
        have hd : w.slot.dir.isSome = true := by
          rcases hgv with h | h | h
          · exact h
          · exact absurd h hnonempty
          · exact absurd hver h
        exact (hi.version.based hver hd).2 rfl
  | _ => simp [step, hp] at hs

/-- The records of the slot a bundle goes into are of earlier versions. -/
theorem target_records (hi : Inv w) {content : Content} {version : ℤ} {target : Slot Content}
    (hp : w.phase = .fetched (.bundle content version))
    (ht : w.slot.unpackTarget version = some target) :
    target.unsynced = none ∧ ∀ v, target.version = some v → v < w.current := by
  have hphase := hi.phase
  rw [hp] at hphase
  obtain ⟨hd, hle, -, hver, -⟩ := hphase
  obtain ⟨hheld, ⟨hu, rfl⟩ | ⟨_, _, -, -, -, rfl⟩⟩ := Slot.unpackTarget_some ht
  · refine ⟨hu, fun v hv => ?_⟩
    have hlt : v ≠ version := by
      rintro rfl
      rw [Slot.held, if_pos hd] at hheld
      exact hheld hv
    have hvle := hver v hv
    omega
  · exact ⟨rfl, fun v hv => by cases hv⟩

/-- A pull records the version it leaves in the directory. -/
theorem inv_apply (hi : Inv w) (hs : step w .apply = some w') : Inv w' := by
  cases hp : w.phase with
  | fetched answer =>
    have hphase := hi.phase
    rw [hp] at hphase
    obtain ⟨hd, hoffered⟩ := hphase
    simp only [step, hp, Option.some.injEq] at hs
    subst hs
    cases answer with
    | unchanged version => exact ⟨hi.version, hi.unsynced, hd, hoffered⟩
    | nothing => exact ⟨hi.version, hi.unsynced, hd, hoffered⟩
    | bundle content version =>
      cases ht : w.slot.unpackTarget version with
      | none =>
        have hbased : Based w version := by
          rcases Slot.unpackTarget_none ht hd with h | h
          · exact hi.version.based (by rwa [Slot.held, if_pos hd] at h) hd
          · exact hi.unsynced.based h hd
        simp only [Slot.pull, ht]
        exact ⟨hi.version, hi.unsynced, hd, hbased⟩
      | some target =>
        obtain ⟨hu, -⟩ := target_records hi hp ht
        obtain ⟨hle, htop, -, -⟩ := hoffered
        simp only [Slot.pull, ht]
        have hdir : (target.unpack overlay content).dir = some content := by
          cases htd : target.dir <;> simp [Slot.unpack, Slot.overlaid, htd, overlay]
        have hbased : Based
            { w with
              slot := (target.unpack overlay content).recordHeld version
              phase := .pulled version } version :=
          ⟨hle, fun hcur => ⟨content, hdir, fun s hs => htop hcur ▸ hs⟩⟩
        refine ⟨hbased.recorded, ?_, rfl, hbased⟩
        intro v hv
        have hnone : target.unsynced = some v := hv
        rw [hu] at hnone
        cases hnone
  | _ => simp [step, hp] at hs

/-- A stopped pull leaves records of earlier versions, or no directory. -/
theorem inv_fault (hi : Inv w) {point : Fault} (hs : step w (.fault point) = some w') :
    Inv w' := by
  cases hp : w.phase with
  | fetched answer =>
    cases answer with
    | bundle content version =>
      simp only [step, hp, Option.bind_eq_bind, Option.bind_eq_some_iff, Option.some.injEq] at hs
      obtain ⟨target, ht, slot, hslot, rfl⟩ := hs
      obtain ⟨hu, hlt⟩ := target_records hi hp ht
      have gone (record : Option ℤ) (h : Recorded w record) (slot' : Slot Content)
          (hd : slot'.dir = none) : Recorded { w with slot := slot', phase := .idle } record :=
        h.mono rfl fun content' hcontent' => by
          rw [show slot'.dir = some content' from hcontent'] at hd
          cases hd
      have earlier (slot' : Slot Content) (hv : slot'.version = target.version)
          (hu' : slot'.unsynced = target.unsynced) :
          Inv { w with slot := slot', phase := .idle } := by
        refine ⟨.of_lt fun v h => hlt v (hv ▸ h), fun v h => ?_, trivial⟩
        rw [show slot'.unsynced = some v from h, hu] at hu'
        cases hu'
      unfold faultSlot at hslot
      cases point with
      | renamed =>
        dsimp only at hslot
        split at hslot <;> cases hslot
        exact ⟨gone _ hi.version _ rfl, gone _ hi.unsynced _ rfl, trivial⟩
      | cleared =>
        dsimp only at hslot
        split at hslot <;> cases hslot
        exact ⟨gone _ hi.version _ rfl, nofun, trivial⟩
      | setAside =>
        dsimp only at hslot
        split at hslot <;> cases hslot
        exact earlier _ rfl rfl
      | unpacking left =>
        dsimp only at hslot
        split at hslot <;> cases hslot
        exact earlier _ rfl rfl
      | unrecorded =>
        cases hslot
        exact earlier _ rfl rfl
    | _ => simp [step, hp] at hs
  | _ => simp [step, hp] at hs

theorem inv_session (hi : Inv w) (hs : step w .session = some w') : Inv w' := by
  cases hp : w.phase with
  | opened base =>
    have hphase := hi.phase
    rw [hp] at hphase
    obtain ⟨hd, hbased⟩ := hphase
    obtain ⟨old, hold⟩ := Option.isSome_iff_exists.mp hd
    simp only [step, hp, Option.some.injEq] at hs
    subst hs
    have hdir : (addSession w.slot (.mine w.written)).dir = some (.mine w.written :: old) := by
      simp [addSession, hold]
    have hgrows : ∀ content, (addSession w.slot (.mine w.written)).dir = some content →
        ∃ c, w.slot.dir = some c ∧ ∀ s ∈ c, s ∈ content := by
      intro content hc
      rw [hdir] at hc
      cases hc
      exact ⟨old, hold, fun _ h => List.mem_cons_of_mem _ h⟩
    refine ⟨hi.version.mono rfl hgrows, hi.unsynced.mono rfl hgrows, ?_, ?_⟩
    · simp [hdir]
    · refine hbased.mono rfl fun content hc => ⟨_, hdir, ?_⟩
      rw [hold] at hc
      cases hc
      exact fun _ h => List.mem_cons_of_mem _ h
  | _ => simp [step, hp] at hs

/-- A new version leaves what a phase relies on behind. -/
theorem phaseInv_newVersion {content : Content} {phase : Phase} (h : PhaseInv w phase)
    (hserver : w'.server = content :: w.server) (hslot : w'.slot = w.slot) :
    PhaseInv w' phase := by
  cases phase with
  | idle => trivial
  | fetched answer =>
    refine ⟨hslot ▸ h.1, ?_⟩
    cases answer with
    | unchanged version => exact h.2.newVersion hserver
    | nothing => exact h.2.newVersion hserver
    | bundle offered version =>
      obtain ⟨hle, -, hv, hu⟩ := h.2
      have hcur : w'.current = w.current + 1 := by simp [World.current, hserver]
      exact ⟨by omega, fun _ => by omega, hslot ▸ hv, hslot ▸ hu⟩
  | answered base accepted =>
    cases accepted with
    | none => exact ⟨hslot ▸ h.1, h.2.newVersion hserver⟩
    | some version => exact ⟨hslot ▸ h.1, h.2.newVersion hserver⟩
  | _ => exact ⟨hslot ▸ h.1, h.2.newVersion hserver⟩

/-- An accepted upload holds everything of the version it replaces. -/
theorem inv_push (hi : Inv w) {result : Push} (hs : step w (.push result) = some w') :
    Inv w' ∧ BelievesRightly w (.push result) w' := by
  cases hp : w.phase with
  | closing base =>
    have hphase := hi.phase
    rw [hp] at hphase
    obtain ⟨hd, hbased⟩ := hphase
    obtain ⟨content, hcontent⟩ := Option.isSome_iff_exists.mp hd
    have pushed (hbase : base = w.current) : ∀ s ∈ top w, s ∈ w.slot.dir.getD [] := by
      obtain ⟨held, hheld, hall⟩ := hbased.2 hbase
      rw [hheld]
      exact hall
    cases result with
    | failed =>
      simp only [step, hp, Option.some.injEq] at hs
      subst hs
      exact ⟨⟨hi.version, hi.unsynced, hd, hbased⟩, fun _ h => h⟩
    | accepted =>
      simp only [step, hp] at hs
      split at hs
      next hbase =>
        cases hs
        refine ⟨⟨hi.version.newVersion rfl, hi.unsynced.newVersion rfl, hd, ?_⟩, pushed hbase⟩
        refine ⟨by simp [World.current], fun _ => ⟨content, hcontent, ?_⟩⟩
        simp [top, hcontent]
      · cases hs
    | acceptedUnheard =>
      simp only [step, hp] at hs
      split at hs
      next hbase =>
        cases hs
        exact ⟨⟨hi.version.newVersion rfl, hi.unsynced.newVersion rfl, hd,
          hbased.newVersion rfl⟩, pushed hbase⟩
      · cases hs
  | _ => simp [step, hp] at hs

/-- Writing down how an upload ended records what the directory holds. -/
theorem inv_settle (hi : Inv w) (hs : step w .settle = some w') : Inv w' := by
  cases hp : w.phase with
  | answered base accepted =>
    have hphase := hi.phase
    rw [hp] at hphase
    cases accepted with
    | none =>
      have hmarked : Recorded w (some base) := hphase.2.recorded
      simp only [step, hp, Option.some.injEq] at hs
      subst hs
      exact ⟨hi.version, hmarked, trivial⟩
    | some version =>
      have hrecorded : Recorded w (some version) := hphase.2.recorded
      simp only [step, hp, Option.some.injEq] at hs
      subst hs
      exact ⟨hrecorded, nofun, trivial⟩
  | _ => simp [step, hp] at hs

/-- Every step of a run keeps the invariant and believes only what is there. -/
theorem inv_step {a : Label} (hi : Inv w) (hg : DirOrNoRecord w a)
    (hs : step w a = some w') : Inv w' ∧ BelievesRightly w a w' := by
  cases a with
  | launch reply => exact inv_launch hi hg hs
  | apply => exact ⟨inv_apply hi hs, trivial⟩
  | fault point => exact ⟨inv_fault hi hs, trivial⟩
  | spawn ok =>
    cases hp : w.phase with
    | pulled base =>
      have hphase := hi.phase
      rw [hp] at hphase
      simp only [step, hp, Option.some.injEq] at hs
      subst hs
      cases ok with
      | true => exact ⟨⟨hi.version, hi.unsynced, hphase⟩, trivial⟩
      | false => exact ⟨⟨hi.version, hi.unsynced, trivial⟩, trivial⟩
    | _ => simp [step, hp] at hs
  | session => exact ⟨inv_session hi hs, trivial⟩
  | close =>
    cases hp : w.phase with
    | opened base =>
      have hphase := hi.phase
      rw [hp] at hphase
      simp only [step, hp, Option.some.injEq] at hs
      subst hs
      exact ⟨⟨hi.version, hi.unsynced, hphase⟩, trivial⟩
    | _ => simp [step, hp] at hs
  | push result => exact inv_push hi hs
  | settle => exact ⟨inv_settle hi hs, trivial⟩
  | settleCut =>
    cases hp : w.phase with
    | answered base accepted =>
      cases accepted with
      | none => simp [step, hp] at hs
      | some version =>
        simp only [step, hp, Option.some.injEq] at hs
        subst hs
        exact ⟨⟨hi.version, nofun, trivial⟩, trivial⟩
    | _ => simp [step, hp] at hs
  | kill =>
    simp only [step, Option.some.injEq] at hs
    subst hs
    exact ⟨⟨hi.version, hi.unsynced, trivial⟩, trivial⟩
  | upload content =>
    simp only [step] at hs
    split at hs <;> cases hs
    exact ⟨⟨hi.version.newVersion rfl, hi.unsynced.newVersion rfl,
      phaseInv_newVersion hi.phase rfl rfl⟩, trivial⟩
  | removeDir =>
    cases hp : w.phase with
    | idle =>
      simp only [step, hp, Option.some.injEq] at hs
      subst hs
      exact ⟨⟨hi.version.mono rfl nofun, hi.unsynced.mono rfl nofun, trivial⟩, trivial⟩
    | _ => simp [step, hp] at hs
  | removeVersion =>
    cases hp : w.phase with
    | idle =>
      simp only [step, hp, Option.some.injEq] at hs
      subst hs
      exact ⟨⟨nofun, hi.unsynced, trivial⟩, trivial⟩
    | _ => simp [step, hp] at hs

/-- A machine that has never opened the profile has recorded nothing. -/
theorem inv_init (hw : init w) : Inv w := by
  obtain ⟨hslot, hphase, -⟩ := hw
  refine ⟨?_, ?_, ?_⟩
  · rw [hslot]
    nofun
  · rw [hslot]
    nofun
  · rw [hphase]
    trivial

/-- In every run whose launches find the directory, or no file naming the current
version, the held version is believed only when the directory holds it, and no
upload leaves out what it replaces. -/
theorem held_version_believed_rightly (h : Reached init step DirOrNoRecord w) {a : Label}
    (hg : DirOrNoRecord w a) (hs : step w a = some w') : BelievesRightly w a w' := by
  have hi : Inv w := h.invariant Inv (fun _ => inv_init) fun _ _ _ hi hg hs =>
    (inv_step hi hg hs).1
  exact (inv_step hi hg hs).2

end Steps

section Examples

/-- A profile opened once, written in, and uploaded as version 1. -/
def uploadedRun : List Label :=
  [.launch (.answered true), .apply, .spawn true, .session, .close, .push .accepted, .settle]

/-- The machine holds version 1. -/
def uploadedWorld : World :=
  ⟨[[.mine 0]], ⟨some [.mine 0], some 1, none, []⟩, .idle, 1⟩

/-- The next launch skips the download. -/
def skippedWorld : World :=
  ⟨[[.mine 0]], ⟨some [.mine 0], some 1, none, []⟩, .fetched (.unchanged 1), 1⟩

theorem held_version_believed_rightly_uploaded :
    BelievesRightly uploadedWorld (.launch (.answered true)) skippedWorld :=
  held_version_believed_rightly
    (Reached.run uploadedRun (.start fresh_init) (by decide) (by decide)) (by decide) (by decide)

/-- The directory is deleted and its version file stays. -/
def deletedWorld : World :=
  ⟨[[.mine 0]], ⟨none, some 1, none, []⟩, .idle, 1⟩

/-- Without the condition a launch believes the file of a deleted directory. -/
theorem held_version_without_directory :
    ¬∀ w, Reached init step anyStep w → ∀ a w', step w a = some w' → BelievesRightly w a w' := by
  intro h
  have hreached : Reached init step anyStep deletedWorld :=
    Reached.run_any (uploadedRun ++ [.removeDir]) (.start fresh_init) (by decide)
  have hskip : step deletedWorld (.launch (.answered true)) = some
      ⟨[[.mine 0]], ⟨some [], some 1, none, []⟩, .fetched (.unchanged 1), 1⟩ := by decide
  exact absurd (h deletedWorld hreached _ _ hskip) (by decide)

end Examples

end FuryBrowser.HeldVersion
