import FuryBrowser.SessionRuns

/-!
# No session is lost

Work the machine wrote stays on the server, in the directory, or in a copy
moved aside. A marked session is never unpacked over; an unmarked one, left by
a kill, is, as soon as the server's version is not the recorded one. Launches
in exactly that state are what the runs below leave out.
-/

namespace FuryBrowser.SessionKept

open GuardedRuns UnsyncedSlot SessionRuns

/-- Whether a session's work is on the server, in the directory, or in a copy
moved aside. -/
def kept (w : World) (s : Session) : Bool :=
  w.onServer s || (w.slot.dir.getD []).contains s || w.slot.aside.any fun c => c.contains s

/-- Every session the machine wrote is kept. -/
def SessionsKept (w : World) : Prop := ∀ n < w.written, kept w (.mine n) = true

/-- When the launch is about to unpack over the directory, everything the machine
wrote in it is on the server. -/
def NothingUnpackedOver (w : World) : Prop :=
  ∀ content version, w.phase = .fetched (.bundle content version) →
    w.slot.unpackTarget version = some w.slot → w.ownSaved (w.slot.dir.getD []) = true

/-- A launch that gets an answer starts with its unsent session marked, with no
unsent session, or at the recorded version. -/
def SafeLaunch (w : World) : Label → Prop
  | .launch (.answered _) =>
    w.slot.unsynced ≠ none ∨ w.ownSaved (w.slot.dir.getD []) = true ∨
      w.slot.version.getD 0 = w.current
  | _ => True

instance : DecidableRel SafeLaunch := fun w a => by
  unfold SafeLaunch
  split <;> infer_instance

/-- The steps of the runs considered: nothing is deleted by hand and every launch is
safe. -/
def Considered (w : World) (a : Label) : Prop := a.removes = false ∧ SafeLaunch w a

instance : DecidableRel Considered := fun _ _ => inferInstanceAs (Decidable (_ ∧ _))

/-- What every considered run keeps. -/
structure Inv (w : World) : Prop where
  /-- Nothing the machine wrote is lost. -/
  kept : SessionsKept w
  /-- An answer that will be unpacked in place meets a saved directory. -/
  saved : ∀ content version, w.phase = .fetched (.bundle content version) →
    w.slot.unsynced = none → w.slot.held ≠ some version →
    w.ownSaved (w.slot.dir.getD []) = true
  /-- From the launch on, the directory is there. -/
  present : w.phase ≠ .idle → w.slot.dir.isSome = true

section Saved

variable {w w' : World}

@[simp] theorem kept_iff {s : Session} :
    kept w s = true ↔
      w.onServer s = true ∨ s ∈ w.slot.dir.getD [] ∨ ∃ c ∈ w.slot.aside, s ∈ c := by
  simp [kept, or_assoc]

theorem kept_of_onServer {s : Session} (h : w.onServer s = true) : kept w s = true := by
  simp [h]

theorem kept_of_dir {s : Session} (h : s ∈ w.slot.dir.getD []) : kept w s = true := by
  simp [h]

theorem kept_of_aside {s : Session} {c : Content} (hc : c ∈ w.slot.aside) (h : s ∈ c) :
    kept w s = true := by
  rw [kept_iff]
  exact .inr (.inr ⟨c, hc, h⟩)

theorem ownSaved_iff {content : Content} :
    w.ownSaved content = true ↔ ∀ n, .mine n ∈ content → w.onServer (.mine n) = true := by
  unfold World.ownSaved
  rw [List.all_eq_true]
  constructor
  · intro h n hn
    exact h _ hn
  · intro h s hs
    cases s with
    | mine n => exact h n hs
    | theirs n => rfl

theorem onServer_cons {content : Content} {s : Session} {server : List Content}
    (hs : w.server = server) (hs' : w'.server = content :: server)
    (h : w.onServer s = true) : w'.onServer s = true := by
  unfold World.onServer at h ⊢
  rw [hs', List.any_cons, ← hs, h, Bool.or_true]

/-- The newest version is on the server. -/
theorem onServer_head {content : Content} {s : Session} {server : List Content}
    (hs' : w'.server = content :: server) (h : s ∈ content) : w'.onServer s = true := by
  unfold World.onServer
  rw [hs', List.any_cons, List.contains_iff_mem.mpr h, Bool.true_or]

/-- Sessions stay kept when the server, the directory and the copies aside keep
what they had, or the machine's own work in the directory is on the server. -/
theorem SessionsKept.mono (h : SessionsKept w) (hw : w'.written = w.written)
    (hserver : ∀ s, w.onServer s = true → w'.onServer s = true)
    (haside : ∀ c ∈ w.slot.aside, c ∈ w'.slot.aside)
    (hdir : ∀ n, .mine n ∈ w.slot.dir.getD [] → kept w' (.mine n) = true) :
    SessionsKept w' := by
  intro n hn
  have hkept := h n (hw ▸ hn)
  rw [kept_iff] at hkept
  rcases hkept with hs | hd | ⟨c, hc, hin⟩
  · exact kept_of_onServer (hserver _ hs)
  · exact hdir n hd
  · exact kept_of_aside (haside c hc) hin

/-- Nothing is lost by a step that leaves the server and the copy alone. -/
theorem SessionsKept.same (h : SessionsKept w) (hw : w'.written = w.written)
    (hserver : w'.server = w.server) (hdir : w'.slot.dir.getD [] = w.slot.dir.getD [])
    (haside : w'.slot.aside = w.slot.aside) : SessionsKept w' := by
  have hon (s : Session) : w'.onServer s = w.onServer s := by
    unfold World.onServer
    rw [hserver]
  refine h.mono hw (fun s hs => (hon s).trans hs) (fun c hc => haside ▸ hc) fun n hn => ?_
  exact kept_of_dir (hdir ▸ hn)

end Saved

section Steps

variable {w w' : World}

/-- Unpacking loses nothing: what it overwrites is on the server, and what is not
has been moved aside. -/
theorem kept_of_unpack (hi : Inv w) {content : Content} {version : ℤ} {target : Slot Content}
    (hp : w.phase = .fetched (.bundle content version))
    (ht : w.slot.unpackTarget version = some target) (hw : w'.written = w.written)
    (hserver : w'.server = w.server) (haside : w'.slot.aside = target.aside) :
    SessionsKept w' := by
  have hon (s : Session) (hs : w.onServer s = true) : w'.onServer s = true := by
    unfold World.onServer at hs ⊢
    rw [hserver, hs]
  obtain ⟨hheld, ⟨hu, rfl⟩ | ⟨_, old, -, -, hd, rfl⟩⟩ := Slot.unpackTarget_some ht
  · have hsaved := hi.saved content version hp hu hheld
    refine hi.kept.mono hw hon (fun c hc => haside ▸ hc) fun n hn => ?_
    exact kept_of_onServer (hon _ (ownSaved_iff.mp hsaved n hn))
  · refine hi.kept.mono hw hon (fun c hc => ?_) fun n hn => ?_
    · rw [haside]
      exact List.mem_cons_of_mem _ hc
    · rw [hd, Option.getD_some] at hn
      exact kept_of_aside (haside ▸ List.mem_cons_self) hn

/-- A safe launch meets a saved directory, or one it will not unpack over. -/
theorem inv_launch (hi : Inv w) {reply : Reply} (hg : SafeLaunch w (.launch reply))
    (hs : step w (.launch reply) = some w') : Inv w' := by
  cases hp : w.phase with
  | idle =>
    cases reply with
    | failed =>
      simp only [step, hp, Option.some.injEq] at hs
      subst hs
      have hdir : (w.slot.createDir []).dir.getD [] = w.slot.dir.getD [] := rfl
      exact ⟨hi.kept.same rfl rfl hdir rfl, by simp, by simp⟩
    | answered honoursEtag =>
      simp only [step, hp, Option.some.injEq] at hs
      subst hs
      refine ⟨hi.kept.same rfl rfl rfl rfl, ?_, by simp⟩
      intro content version hphase hu hheld
      have hdir : w.ownSaved (w.slot.dir.getD []) = true ∨
          w.slot.version.getD 0 = w.current := by
        rcases hg with h | h | h
        · exact absurd hu h
        · exact .inl h
        · exact .inr h
      rcases hdir with h | hcur
      · exact h
      · cases hserver : w.server with
        | nil => simp [serverAnswer, hserver] at hphase
        | cons head rest =>
          have hv : version = w.current := by
            simp only [serverAnswer, hserver, Phase.fetched.injEq] at hphase
            split at hphase
            · cases hphase
            · cases hphase
              simp [World.current, hserver]
          have hpos : 0 < w.current := by
            simp [World.current, hserver]
          have hne : w.slot.version ≠ some version := hheld
          cases hver : w.slot.version with
          | none =>
            simp only [hver, Option.getD_none] at hcur
            omega
          | some v =>
            simp only [hver, Option.getD_some] at hcur
            exact absurd (by rw [hver, hcur, hv]) hne
  | _ => simp [step, hp] at hs

theorem inv_apply (hi : Inv w) (hs : step w .apply = some w') : Inv w' := by
  cases hp : w.phase with
  | fetched answer =>
    have hpresent := hi.present (by simp [hp])
    simp only [step, hp, Option.some.injEq] at hs
    subst hs
    have same : (w.slot.pull overlay answer).1 = w.slot →
        Inv { w with
          slot := (w.slot.pull overlay answer).1
          phase := .pulled (w.slot.pull overlay answer).2 } := by
      intro h
      rw [h]
      exact ⟨hi.kept.same rfl rfl rfl rfl, by simp, fun _ => hpresent⟩
    cases answer with
    | unchanged version => exact same rfl
    | nothing => exact same rfl
    | bundle content version =>
      cases ht : w.slot.unpackTarget version with
      | none => exact same (by simp [Slot.pull, ht])
      | some target =>
        simp only [Slot.pull, ht]
        refine ⟨kept_of_unpack hi hp ht rfl rfl rfl, by simp, fun _ => ?_⟩
        simp [Slot.recordHeld, Slot.unpack]
  | _ => simp [step, hp] at hs

/-- A pull that is stopped half-way loses nothing. -/
theorem inv_fault (hi : Inv w) {point : Fault} (hs : step w (.fault point) = some w') :
    Inv w' := by
  cases hp : w.phase with
  | fetched answer =>
    cases answer with
    | bundle content version =>
      simp only [step, hp, Option.bind_eq_bind, Option.bind_eq_some_iff, Option.some.injEq] at hs
      obtain ⟨target, ht, slot, hslot, rfl⟩ := hs
      have haside := faultSlot_aside hslot
      exact ⟨kept_of_unpack hi hp ht rfl rfl haside, by simp, by simp⟩
    | _ => simp [step, hp] at hs
  | _ => simp [step, hp] at hs

/-- A step that leaves the server and the copy alone, and does not fetch. -/
theorem Inv.same (hi : Inv w) (hw : w'.written = w.written) (hserver : w'.server = w.server)
    (hdir : w'.slot.dir = w.slot.dir) (haside : w'.slot.aside = w.slot.aside)
    (hphase : ∀ answer, w'.phase ≠ .fetched answer)
    (hidle : w'.phase ≠ .idle → w.phase ≠ .idle) : Inv w' where
  kept := hi.kept.same hw hserver (by rw [hdir]) haside
  saved _ _ hp := absurd hp (hphase _)
  present hp := hdir ▸ hi.present (hidle hp)

/-- A session's work is in the directory as soon as it is written. -/
theorem inv_session (hi : Inv w) (hs : step w .session = some w') : Inv w' := by
  cases hp : w.phase with
  | opened base =>
    obtain ⟨old, hold⟩ := Option.isSome_iff_exists.mp (hi.present (by simp [hp]))
    simp only [step, hp, Option.some.injEq] at hs
    subst hs
    refine ⟨fun n hn => ?_, by simp, by simp [addSession, hold]⟩
    rcases Nat.lt_succ_iff_lt_or_eq.mp hn with hlt | rfl
    · have hk := hi.kept n hlt
      rw [kept_iff] at hk ⊢
      rcases hk with h | h | h
      · exact .inl h
      · refine .inr (.inl ?_)
        simp only [hold, Option.getD_some] at h
        simp [addSession, hold, h]
      · exact .inr (.inr h)
    · exact kept_of_dir (by simp [addSession, hold])
  | _ => simp [step, hp] at hs

/-- A new version only adds to what the server has. -/
theorem inv_newVersion (hi : Inv w) {content : Content} (hw : w'.written = w.written)
    (hserver : w'.server = content :: w.server) (hslot : w'.slot = w.slot)
    (hphase : w'.phase = w.phase ∨ ∀ answer, w'.phase ≠ .fetched answer)
    (hidle : w'.phase ≠ .idle → w.phase ≠ .idle) : Inv w' where
  kept := by
    refine hi.kept.mono hw (fun s hs => onServer_cons rfl hserver hs)
      (fun c hc => hslot ▸ hc) fun n hn => ?_
    exact kept_of_dir (hslot ▸ hn)
  saved c v hp hu hheld := by
    rcases hphase with h | h
    · rw [hslot] at hu hheld ⊢
      have hsaved := ownSaved_iff.mp (hi.saved c v (h ▸ hp) hu hheld)
      exact ownSaved_iff.mpr fun n hn => onServer_cons rfl hserver (hsaved n hn)
    · exact absurd hp (h _)
  present hp := hslot ▸ hi.present (hidle hp)

/-- An upload that is accepted adds a version. -/
theorem inv_push (hi : Inv w) {result : Push} (hs : step w (.push result) = some w') :
    Inv w' := by
  cases hp : w.phase with
  | closing base =>
    cases result with
    | failed =>
      simp only [step, hp, Option.some.injEq] at hs
      subst hs
      exact hi.same rfl rfl rfl rfl (by simp) (by simp [hp])
    | accepted =>
      simp only [step, hp] at hs
      split at hs
      · cases hs
        exact inv_newVersion hi rfl rfl rfl (.inr (by simp)) (by simp [hp])
      · cases hs
    | acceptedUnheard =>
      simp only [step, hp] at hs
      split at hs
      · cases hs
        exact inv_newVersion hi rfl rfl rfl (.inr (by simp)) (by simp [hp])
      · cases hs
  | _ => simp [step, hp] at hs

/-- Writing down how an upload ended changes no copy. -/
theorem inv_settle (hi : Inv w) (hs : step w .settle = some w') : Inv w' := by
  cases hp : w.phase with
  | answered base accepted =>
    cases accepted with
    | none =>
      simp only [step, hp, Option.some.injEq] at hs
      subst hs
      exact hi.same rfl rfl rfl rfl (by simp) (by simp)
    | some version =>
      simp only [step, hp, Option.some.injEq] at hs
      subst hs
      exact hi.same rfl rfl rfl rfl (by simp) (by simp)
  | _ => simp [step, hp] at hs

/-- Every considered step keeps the invariant. -/
theorem inv_step : Preserved step Considered Inv := by
  intro w a w' hi hg hs
  cases a with
  | launch reply => exact inv_launch hi hg.2 hs
  | apply => exact inv_apply hi hs
  | fault point => exact inv_fault hi hs
  | spawn ok =>
    cases hp : w.phase with
    | pulled base =>
      simp only [step, hp, Option.some.injEq] at hs
      subst hs
      exact hi.same rfl rfl rfl rfl (by cases ok <;> simp) (by simp [hp])
    | _ => simp [step, hp] at hs
  | session => exact inv_session hi hs
  | close =>
    cases hp : w.phase with
    | opened base =>
      simp only [step, hp, Option.some.injEq] at hs
      subst hs
      exact hi.same rfl rfl rfl rfl (by simp) (by simp [hp])
    | _ => simp [step, hp] at hs
  | push result => exact inv_push hi hs
  | settle => exact inv_settle hi hs
  | settleCut =>
    cases hp : w.phase with
    | answered base accepted =>
      cases accepted with
      | none => simp [step, hp] at hs
      | some version =>
        simp only [step, hp, Option.some.injEq] at hs
        subst hs
        exact hi.same rfl rfl rfl rfl (by simp) (by simp)
    | _ => simp [step, hp] at hs
  | kill =>
    simp only [step, Option.some.injEq] at hs
    subst hs
    exact hi.same rfl rfl rfl rfl (by simp) (by simp)
  | upload content =>
    simp only [step] at hs
    split at hs
    · cases hs
      exact inv_newVersion hi rfl rfl rfl (.inl rfl) id
    · cases hs
  | removeDir => exact absurd hg.1 (by decide)
  | removeVersion => exact absurd hg.1 (by decide)

/-- A machine that has written nothing has lost nothing. -/
theorem inv_init (hw : init w) : Inv w := by
  obtain ⟨hslot, hphase, hwritten⟩ := hw
  refine ⟨fun n hn => ?_, ?_, ?_⟩
  · rw [hwritten] at hn
    exact absurd hn (Nat.not_lt_zero n)
  · simp [hphase]
  · simp [hphase]

/-- The invariant leaves nothing to be unpacked over. -/
theorem Inv.nothingUnpackedOver (hi : Inv w) : NothingUnpackedOver w := by
  intro content version hp ht
  have hpresent := hi.present (by simp [hp])
  obtain ⟨hheld, ⟨hu, -⟩ | ⟨_, _, -, -, -, heq⟩⟩ := Slot.unpackTarget_some ht
  · exact hi.saved content version hp hu hheld
  · rw [heq] at hpresent
    cases hpresent

/-- In every run whose launches are safe, every session the machine wrote is kept
and nothing unsaved is about to be unpacked over. -/
theorem sessions_never_lost (h : Reached init step Considered w) :
    SessionsKept w ∧ NothingUnpackedOver w := by
  have hi := h.invariant Inv (fun _ => inv_init) inv_step
  exact ⟨hi.kept, hi.nothingUnpackedOver⟩

end Steps

section WithoutKill

variable {w w' : World}

/-- The runs in which nothing is deleted by hand and the agent is not killed
under a session. -/
def Unkilled (_ : World) (a : Label) : Prop := a.removes = false ∧ a ≠ .kill

instance : DecidableRel Unkilled := fun _ _ => inferInstanceAs (Decidable (_ ∧ _))

/-- Whether the browser may have written since the last time the agent wrote
down what the directory is. -/
def writing : Phase → Bool
  | .opened _ => true
  | .closing _ => true
  | .answered _ none => true
  | _ => false

/-- What runs without a kill keep: an unmarked directory is on the server. -/
structure Settled (w : World) : Prop where
  /-- Between sessions the directory is marked or saved. -/
  marked : writing w.phase = false →
    w.slot.unsynced ≠ none ∨ w.ownSaved (w.slot.dir.getD []) = true
  /-- An accepted upload was the directory. -/
  pushed : ∀ base version, w.phase = .answered base (some version) →
    w.ownSaved (w.slot.dir.getD []) = true
  /-- A bundle on offer is a version of the server. -/
  offered : ∀ content version, w.phase = .fetched (.bundle content version) →
    content ∈ w.server

theorem ownSaved_of_mem {content : Content} (h : content ∈ w.server) :
    w.ownSaved content = true := by
  rw [ownSaved_iff]
  intro n hn
  unfold World.onServer
  rw [List.any_eq_true]
  exact ⟨content, h, List.contains_iff_mem.mpr hn⟩

/-- What was saved stays saved when a version is added. -/
theorem ownSaved_cons {content added : Content} (hserver : w'.server = added :: w.server)
    (h : w.ownSaved content = true) : w'.ownSaved content = true := by
  rw [ownSaved_iff] at h ⊢
  exact fun n hn => onServer_cons rfl hserver (h n hn)

/-- A stopped unpack leaves a directory that is marked or saved. -/
theorem settled_fault (hi : Settled w) {content : Content} {version : ℤ}
    {target slot : Slot Content} {point : Fault}
    (hp : w.phase = .fetched (.bundle content version))
    (ht : w.slot.unpackTarget version = some target)
    (hf : faultSlot w.slot target content point = some slot) :
    slot.unsynced ≠ none ∨ w.ownSaved (slot.dir.getD []) = true := by
  have hbundle := ownSaved_of_mem (hi.offered content version hp)
  have hold : w.ownSaved (target.dir.getD []) = true := by
    obtain ⟨-, ⟨hu, rfl⟩ | ⟨_, _, -, -, -, rfl⟩⟩ := Slot.unpackTarget_some ht
    · exact (hi.marked (by simp [hp, writing])).resolve_left (· hu)
    · rfl
  unfold faultSlot at hf
  cases point with
  | unrecorded =>
    cases hf
    right
    cases hd : target.dir <;> simpa [Slot.unpack, Slot.overlaid, hd, overlay] using hbundle
  | unpacking left =>
    dsimp only at hf
    split at hf
    next hleft =>
      cases hf
      right
      rw [ownSaved_iff] at hbundle hold ⊢
      intro n hn
      have hin := List.all_eq_true.mp hleft _ hn
      simp only [Bool.or_eq_true, List.contains_iff_mem] at hin
      rcases hin with h | h
      · exact hbundle n h
      · exact hold n h
    · cases hf
  | setAside =>
    dsimp only at hf
    split at hf <;> cases hf
    exact .inr hold
  | _ =>
    dsimp only at hf
    split at hf <;> cases hf
    exact .inr rfl

/-- A step without a kill keeps the directory marked or saved between sessions. -/
theorem settled_step : Preserved step Unkilled Settled := by
  intro w a w' hi hg hs
  cases a with
  | launch reply =>
    cases hp : w.phase with
    | idle =>
      have hmarked := hi.marked (by simp [hp, writing])
      cases reply with
      | failed =>
        simp only [step, hp, Option.some.injEq] at hs
        subst hs
        exact ⟨fun _ => hmarked, by simp, by simp⟩
      | answered honoursEtag =>
        simp only [step, hp, Option.some.injEq] at hs
        subst hs
        refine ⟨fun _ => hmarked, by simp, fun content version hphase => ?_⟩
        cases hserver : w.server with
        | nil => simp [serverAnswer, hserver] at hphase
        | cons head rest =>
          simp only [serverAnswer, hserver, Phase.fetched.injEq] at hphase
          split at hphase <;> cases hphase
          exact List.mem_cons_self
    | _ => simp [step, hp] at hs
  | apply =>
    cases hp : w.phase with
    | fetched answer =>
      have hmarked := hi.marked (by simp [hp, writing])
      simp only [step, hp, Option.some.injEq] at hs
      subst hs
      refine ⟨fun _ => ?_, by simp, by simp⟩
      cases answer with
      | unchanged version => exact hmarked
      | nothing => exact hmarked
      | bundle content version =>
        cases ht : w.slot.unpackTarget version with
        | none =>
          simp only [Slot.pull, ht]
          exact hmarked
        | some target =>
          have hf : faultSlot w.slot target content .unrecorded =
              some (target.unpack overlay content) := rfl
          have hafter := settled_fault hi hp ht hf
          simp only [Slot.pull, ht]
          exact hafter
    | _ => simp [step, hp] at hs
  | fault point =>
    cases hp : w.phase with
    | fetched answer =>
      cases answer with
      | bundle content version =>
        simp only [step, hp, Option.bind_eq_bind, Option.bind_eq_some_iff,
          Option.some.injEq] at hs
        obtain ⟨target, ht, slot, hslot, rfl⟩ := hs
        exact ⟨fun _ => settled_fault hi hp ht hslot, by simp, by simp⟩
      | _ => simp [step, hp] at hs
    | _ => simp [step, hp] at hs
  | spawn ok =>
    cases hp : w.phase with
    | pulled base =>
      have hmarked := hi.marked (by simp [hp, writing])
      simp only [step, hp, Option.some.injEq] at hs
      subst hs
      exact ⟨fun _ => hmarked, by cases ok <;> simp, by cases ok <;> simp⟩
    | _ => simp [step, hp] at hs
  | session =>
    cases hp : w.phase with
    | opened base =>
      simp only [step, hp, Option.some.injEq] at hs
      subst hs
      exact ⟨by simp [writing], by simp, by simp⟩
    | _ => simp [step, hp] at hs
  | close =>
    cases hp : w.phase with
    | opened base =>
      simp only [step, hp, Option.some.injEq] at hs
      subst hs
      exact ⟨by simp [writing], by simp, by simp⟩
    | _ => simp [step, hp] at hs
  | push result =>
    cases hp : w.phase with
    | closing base =>
      cases result with
      | accepted =>
        simp only [step, hp] at hs
        split at hs <;> cases hs
        have hsaved : World.ownSaved
            { w with
              server := w.slot.dir.getD [] :: w.server
              phase := .answered base (some (w.current + 1)) } (w.slot.dir.getD []) = true :=
          ownSaved_of_mem List.mem_cons_self
        exact ⟨fun _ => .inr hsaved, fun _ _ _ => hsaved, by simp⟩
      | acceptedUnheard =>
        simp only [step, hp] at hs
        split at hs <;> cases hs
        exact ⟨by simp [writing], by simp, by simp⟩
      | failed =>
        simp only [step, hp, Option.some.injEq] at hs
        subst hs
        exact ⟨by simp [writing], by simp, by simp⟩
    | _ => simp [step, hp] at hs
  | settle =>
    cases hp : w.phase with
    | answered base accepted =>
      cases accepted with
      | none =>
        simp only [step, hp, Option.some.injEq] at hs
        subst hs
        exact ⟨fun _ => .inl (by simp [Slot.mark]), by simp, by simp⟩
      | some version =>
        have hsaved := hi.pushed base version hp
        simp only [step, hp, Option.some.injEq] at hs
        subst hs
        exact ⟨fun _ => .inr hsaved, by simp, by simp⟩
    | _ => simp [step, hp] at hs
  | settleCut =>
    cases hp : w.phase with
    | answered base accepted =>
      cases accepted with
      | none => simp [step, hp] at hs
      | some version =>
        have hsaved := hi.pushed base version hp
        simp only [step, hp, Option.some.injEq] at hs
        subst hs
        exact ⟨fun _ => .inr hsaved, by simp, by simp⟩
    | _ => simp [step, hp] at hs
  | kill => exact absurd rfl hg.2
  | upload content =>
    simp only [step] at hs
    split at hs <;> cases hs
    refine ⟨fun hw => (hi.marked hw).imp_right (ownSaved_cons rfl), fun b v hp => ?_,
      fun c v hp => List.mem_cons_of_mem _ (hi.offered c v hp)⟩
    exact ownSaved_cons rfl (hi.pushed b v hp)
  | removeDir => exact absurd hg.1 (by decide)
  | removeVersion => exact absurd hg.1 (by decide)

/-- While the agent is not killed under a session, every launch is safe and no
session is lost, whatever the others upload. -/
theorem sessions_kept_without_kill (h : Reached init step Unkilled w) :
    SessionsKept w ∧ NothingUnpackedOver w := by
  have hboth : Inv w ∧ Settled w := by
    refine h.invariant (fun w => Inv w ∧ Settled w) (fun w hw => ⟨inv_init hw, ?_⟩)
      fun w a w' hi hg hs => ⟨inv_step hi.1 ⟨hg.1, ?_⟩ hs, settled_step hi.2 hg hs⟩
    · obtain ⟨hslot, hphase, -⟩ := hw
      exact ⟨fun _ => .inr (by rw [hslot]; rfl), by simp [hphase], by simp [hphase]⟩
    · cases a with
      | launch reply =>
        cases reply with
        | failed => trivial
        | answered honoursEtag =>
          cases hp : w.phase with
          | idle => exact (hi.2.marked (by simp [hp, writing])).imp_right .inl
          | _ => simp [step, hp] at hs
      | _ => trivial
  exact ⟨hboth.1.kept, hboth.1.nothingUnpackedOver⟩

end WithoutKill

section Unsafe

variable {w : World}

/-- The condition on launches is exact: one that breaks it, answered by a server
with a bundle, leaves work that is on no version out of the directory. -/
theorem unsafe_launch_unpacks_over {honoursEtag : Bool} (hp : w.phase = .idle)
    (hserver : w.server ≠ []) (hg : ¬SafeLaunch w (.launch (.answered honoursEtag))) :
    ∃ w' n, run step w [.launch (.answered honoursEtag), .apply] = some w' ∧
      .mine n ∈ w.slot.dir.getD [] ∧ w.onServer (.mine n) = false ∧
      .mine n ∉ w'.slot.dir.getD [] := by
  simp only [SafeLaunch, not_or, not_not, Bool.not_eq_true] at hg
  obtain ⟨hu, hdirty, hver⟩ := hg
  obtain ⟨n, hin, hout⟩ : ∃ n, .mine n ∈ w.slot.dir.getD [] ∧ w.onServer (.mine n) = false := by
    by_contra hnone
    have hsaved := ownSaved_iff.mpr fun n hn => by
      by_contra h
      exact hnone ⟨n, hn, by simpa using h⟩
    rw [hdirty] at hsaved
    exact Bool.noConfusion hsaved
  cases hs : w.server with
  | nil => exact absurd hs hserver
  | cons head rest =>
    have hcur : ((head :: rest).length : ℤ) = w.current := by simp [World.current, hs]
    have hne : w.slot.version ≠ some w.current := by
      intro h
      rw [h, Option.getD_some] at hver
      exact hver rfl
    have htarget : (w.slot.createDir []).unpackTarget w.current = some (w.slot.createDir []) := by
      simp [Slot.unpackTarget, hne, hu, decidePull]
    refine ⟨{ w with
      slot := ((w.slot.createDir []).unpack overlay head).recordHeld w.current
      phase := .pulled w.current }, n, ?_, hin, hout, ?_⟩
    · have hanswer : serverAnswer w.server (w.slot.createDir []).held honoursEtag =
          .bundle head w.current := by
        simp only [serverAnswer, hs, hcur, Slot.held_createDir, hne, and_false, if_false]
      simp only [run, step, hp, hanswer, Option.bind_some, Slot.pull, htarget]
    · simp only [Slot.recordHeld, Slot.unpack, Slot.overlaid, Slot.createDir_dir, overlay,
        Option.getD_some]
      intro hhead
      have hsaved : w.onServer (.mine n) = true := onServer_head hs hhead
      rw [hout] at hsaved
      exact Bool.noConfusion hsaved

end Unsafe

section Examples

/-- A session whose upload failed, a colleague's version, and the next launch. -/
def setAsideRun : List Label :=
  [.launch (.answered true), .apply, .spawn true, .session, .close, .push .failed, .settle,
    .upload [.theirs 0], .launch (.answered true), .apply]

/-- The session is aside and the colleague's version in the directory. -/
def setAsideWorld : World :=
  ⟨[[.theirs 0]], ⟨some [.theirs 0], some 1, none, [[.mine 0]]⟩, .pulled 1, 1⟩

theorem sessions_never_lost_setAside :
    SessionsKept setAsideWorld ∧ NothingUnpackedOver setAsideWorld :=
  sessions_never_lost (Reached.run setAsideRun (.start fresh_init) (by decide) (by decide))

theorem sessions_kept_without_kill_setAside :
    SessionsKept setAsideWorld ∧ NothingUnpackedOver setAsideWorld :=
  sessions_kept_without_kill (Reached.run setAsideRun (.start fresh_init) (by decide) (by decide))

/-- A session on top of version 1, the agent killed under it, a colleague's
version 2, and the next launch. -/
def killedRun : List Label :=
  [.launch (.answered true), .apply, .spawn true, .session, .close, .push .accepted, .settle,
    .launch (.answered true), .apply, .spawn true, .session, .kill, .upload [.mine 0],
    .launch (.answered true), .apply]

/-- The second session is nowhere. -/
def killedWorld : World :=
  ⟨[[.mine 0], [.mine 0]], ⟨some [.mine 0], some 2, none, []⟩, .pulled 2, 2⟩

/-- What the kill leaves, with the colleague's version on the server. -/
def leftWorld : World :=
  ⟨[[.mine 0], [.mine 0]], ⟨some [.mine 1, .mine 0], some 1, none, []⟩, .idle, 2⟩

theorem unsafe_launch_unpacks_over_left :
    ∃ w' n, run step leftWorld [.launch (.answered true), .apply] = some w' ∧
      .mine n ∈ leftWorld.slot.dir.getD [] ∧ leftWorld.onServer (.mine n) = false ∧
      .mine n ∉ w'.slot.dir.getD [] :=
  unsafe_launch_unpacks_over rfl (by decide) (by decide)

/-- Without a condition on the launches a session is lost. -/
theorem session_lost_after_kill :
    ¬∀ w, Reached init step (fun _ a => a.removes = false) w →
      SessionsKept w ∧ NothingUnpackedOver w := by
  intro h
  have hreached : Reached init step (fun _ a => a.removes = false) killedWorld :=
    Reached.run killedRun (.start fresh_init) (by decide) (by decide)
  have hlost : kept killedWorld (.mine 1) = false := by decide
  have hkept := (h killedWorld hreached).1 1 (by decide)
  rw [hlost] at hkept
  exact Bool.noConfusion hkept

end Examples

end FuryBrowser.SessionKept
