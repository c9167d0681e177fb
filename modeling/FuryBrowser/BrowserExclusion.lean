import FuryBrowser.AgentRuns

/-!
# One browser to a directory

The check of a launch and its entry in the map are two steps, and a stop takes
its entry out before the browser has gone and the directory is packed. Between
the two the map says nothing about the directory, and a second request for the
same profile passes every check.

An operation needs the directory whole, shared with other readers, or not at
all. In runs in which no request starts beside an operation whose need it does
not go with, and no operation gives up a live browser, there is never a second
browser on a directory, nor a browser on one that is packed or unpacked.
-/

namespace FuryBrowser.BrowserExclusion

open GuardedRuns RowTable AgentRuns

/-- What an operation needs of the directory: nothing while it uploads, to read
it while no browser writes, or all of it. Two needs go together when they add up
to no more than two. -/
def need : Task → ℕ
  | .pushing false => 0
  | .packing false => 1
  | .dirWork => 1
  | _ => 2

/-- The browser an operation lets go of when it fails. -/
def abandoned (w : World) : Label → Option ℕ
  | .launchFails id => (w.op id).bind fun o => o.task.child
  | .closeFails id => (w.op id).bind fun o => o.task.child
  | _ => none

/-- Whether an operation that needs this much can start on a profile. -/
def Room (w : World) (profile needed : ℕ) : Prop :=
  ∀ o ∈ w.ops, o.profile = profile → need o.task + needed ≤ 2

instance (w : World) (profile needed : ℕ) : Decidable (Room w profile needed) := by
  unfold Room
  infer_instance

/-- No request starts beside an operation in its way, and none fails with a live
browser in its hands. -/
def Orderly (w : World) (a : Label) : Prop :=
  (∀ t ∈ begins w a, Room w t.1 (need t.2)) ∧ ∀ child ∈ abandoned w a, w.isAlive child = false

instance : DecidableRel Orderly := fun w a => by
  unfold Orderly
  infer_instance

/-- A browser is accounted for: in the map, or in the hands of the launch that
is about to put it there or of the stop that is closing it. -/
def Held (w : World) (b : Browser) : Prop :=
  ⟨b.profile, b.child⟩ ∈ w.running ∨
    ∃ o ∈ w.ops, o.profile = b.profile ∧ o.task.child = some b.child

/-- Mutual exclusion on the directories. -/
structure Exclusive (w : World) : Prop where
  /-- A profile has at most one live browser. -/
  one : ∀ profile, (w.alive.filter fun b => b.profile = profile).length ≤ 1
  /-- Every live browser is accounted for. -/
  held : ∀ b ∈ w.alive, Held w b
  /-- No directory with a live browser is packed, unpacked or trimmed. -/
  untouched : ∀ o ∈ w.ops, o.task.touches = true → ∀ b ∈ w.alive, b.profile ≠ o.profile

/-- What orderly runs keep. -/
structure Inv (w : World) : Prop where
  /-- Operations have their own ids. -/
  opIds : KeyUnique Op.id w.ops
  /-- The next id is a new one. -/
  opOld : ∀ o ∈ w.ops, o.id < w.nextOp
  /-- The map has one entry a profile. -/
  mapKeys : KeyUnique Running.profile w.running
  /-- A profile has at most one live browser. -/
  one : KeyUnique Browser.profile w.alive
  /-- Every live browser is accounted for. -/
  held : ∀ b ∈ w.alive, Held w b
  /-- An operation that needs the directory has its live browser in hand. -/
  sole : ∀ o ∈ w.ops, 0 < need o.task → ∀ b ∈ w.alive, b.profile = o.profile →
    o.task.child = some b.child
  /-- Operations on one profile have needs that go together. -/
  apart : ∀ o ∈ w.ops, ∀ o' ∈ w.ops, o.profile = o'.profile → o.id ≠ o'.id →
    need o.task + need o'.task ≤ 2

theorem inv_fresh : Inv fresh where
  opIds := keyUnique_nil
  opOld := nofun
  mapKeys := keyUnique_nil
  one := keyUnique_nil
  held := nofun
  sole := nofun
  apart := nofun

/-- An operation with a browser in hand needs the whole directory. -/
theorem need_of_child {task : Task} {child : ℕ} (h : task.child = some child) :
    need task = 2 := by
  cases task <;> first | rfl | cases h

/-- An operation at work on the directory needs it, and has no browser. -/
theorem need_of_touches {task : Task} (h : task.touches = true) :
    0 < need task ∧ task.child = none := by
  cases task with
  | unpacking => exact ⟨by decide, rfl⟩
  | packing thenLaunch => cases thenLaunch <;> exact ⟨by decide, rfl⟩
  | dirWork => exact ⟨by decide, rfl⟩
  | _ => cases h

section Parts

variable {w : World} {o : Op} {profile : ℕ} {task : Task} {reaper : Bool}

/-- With room for a new operation every live browser of the profile is in the
map. -/
theorem Inv.registered_of_room (h : Inv w) {needed : ℕ} (hpos : 0 < needed)
    (hroom : Room w profile needed) {b : Browser} (hb : b ∈ w.alive)
    (hp : b.profile = profile) : ⟨b.profile, b.child⟩ ∈ w.running := by
  rcases h.held b hb with hin | ⟨o, ho, hprofile, hchild⟩
  · exact hin
  · have hfull := need_of_child hchild
    have hle := hroom o ho (hprofile.trans hp)
    omega

/-- A new operation fits when there is room for it and it has the profile's live
browser in hand. -/
theorem Inv.start (h : Inv w) (hroom : Room w profile (need task))
    (hsole : 0 < need task → ∀ b ∈ w.alive, b.profile = profile →
      task.child = some b.child) : Inv (w.start profile task reaper) where
  opIds := h.opIds.cons fun o ho => Nat.ne_of_lt (h.opOld o ho)
  opOld o ho := by
    rcases List.mem_cons.mp ho with rfl | ho
    · exact Nat.lt_succ_self _
    · exact Nat.lt_succ_of_lt (h.opOld o ho)
  mapKeys := h.mapKeys
  one := h.one
  held b hb := by
    rcases h.held b hb with hin | ⟨o, ho, hrest⟩
    · exact .inl hin
    · exact .inr ⟨o, List.mem_cons_of_mem _ ho, hrest⟩
  sole o ho hneed b hb hp := by
    rcases List.mem_cons.mp ho with rfl | ho
    · exact hsole hneed b hb hp
    · exact h.sole o ho hneed b hb hp
  apart a ha b hb hp hne := by
    rcases List.mem_cons.mp ha with rfl | ha <;> rcases List.mem_cons.mp hb with rfl | hb
    · exact absurd rfl hne
    · have hle := hroom b hb hp.symm
      show need task + need b.task ≤ 2
      omega
    · exact hroom a ha hp
    · exact h.apart a ha b hb hp hne

/-- Browsers that end leave everything else as it was. -/
theorem Inv.fewer (h : Inv w) (p : Browser → Bool) :
    Inv { w with alive := deleteWhere p w.alive } where
  opIds := h.opIds
  opOld := h.opOld
  mapKeys := h.mapKeys
  one := h.one.deleteWhere
  held b hb := h.held b (mem_deleteWhere.mp hb).1
  sole o ho hneed b hb := h.sole o ho hneed b (mem_deleteWhere.mp hb).1
  apart := h.apart

/-- An entry can be taken out once the profile's browser is in the hands of an
operation. -/
theorem Inv.unregister (h : Inv w)
    (hheld : ∀ b ∈ w.alive, b.profile = profile →
      ∃ o ∈ w.ops, o.profile = b.profile ∧ o.task.child = some b.child) :
    Inv (w.unregister profile) where
  opIds := h.opIds
  opOld := h.opOld
  mapKeys := h.mapKeys.deleteWhere
  one := h.one
  held b hb := by
    by_cases hp : b.profile = profile
    · exact .inr (hheld b hb hp)
    · rcases h.held b hb with hin | hop
      · exact .inl (mem_deleteWhere.mpr ⟨hin, by simpa using hp⟩)
      · exact .inr hop
  sole := h.sole
  apart := h.apart

/-- An entry can be put in when it is for the profile's live browser. -/
theorem Inv.register (h : Inv w) {child : ℕ}
    (hsole : ∀ b ∈ w.alive, b.profile = profile → b.child = child) :
    Inv (w.register profile child) where
  opIds := h.opIds
  opOld := h.opOld
  mapKeys := h.mapKeys.deleteWhere.cons fun e he => by
    simpa using (mem_deleteWhere.mp he).2
  one := h.one
  held b hb := by
    by_cases hp : b.profile = profile
    · left
      rw [hp, hsole b hb hp]
      exact List.mem_cons_self
    · rcases h.held b hb with hin | hop
      · exact .inl (List.mem_cons_of_mem _ (mem_deleteWhere.mpr ⟨hin, by simpa using hp⟩))
      · exact .inr hop
  sole := h.sole
  apart := h.apart

/-- An operation that moves on to need no more keeps the browser it has, unless
there is none. -/
theorem Inv.move (h : Inv w) (ho : o ∈ w.ops) (hneed : need task ≤ need o.task)
    (hchild : task.child = o.task.child ∨ ∀ b ∈ w.alive, b.profile ≠ o.profile) :
    Inv (w.move o.id task) := by
  have hcases : ∀ x ∈ (w.move o.id task).ops,
      ∃ old ∈ w.ops, old.id = x.id ∧ old.profile = x.profile ∧ need x.task ≤ need old.task ∧
        ((old = o ∧ x.task = task) ∨ x = old) := by
    intro x hx
    rcases updateWhere_cases hx with ⟨hold, _⟩ | ⟨old, hold, hid, rfl⟩
    · exact ⟨x, hold, rfl, rfl, Nat.le_refl _, .inr rfl⟩
    · have heq : old = o := h.opIds.eq hold ho (by simpa using hid)
      subst heq
      exact ⟨old, hold, rfl, rfl, hneed, .inl ⟨rfl, rfl⟩⟩
  refine
    { opIds := h.opIds.updateWhere fun _ _ => rfl
      opOld := ?_
      mapKeys := h.mapKeys
      one := h.one
      held := ?_
      sole := ?_
      apart := ?_ }
  · intro x hx
    obtain ⟨old, hold, hid, _⟩ := hcases x hx
    exact hid ▸ h.opOld old hold
  · intro b hb
    rcases h.held b hb with hin | ⟨x, hx, hp, hc⟩
    · exact .inl hin
    · right
      by_cases hid : x.id = o.id
      · have heq : x = o := h.opIds.eq hx ho hid
        subst heq
        have hsame : task.child = x.task.child := by
          rcases hchild with hsame | hnone
          · exact hsame
          · exact absurd hp.symm (hnone b hb)
        exact ⟨{ x with task := task }, mem_updateWhere_of hx (by simp), hp, hsame.trans hc⟩
      · exact ⟨x, mem_updateWhere_of_not hx (by simpa using hid), hp, hc⟩
  · intro x hx hpos b hb hp
    obtain ⟨old, hold, _, hprofile, hle, hwhich⟩ := hcases x hx
    have hc := h.sole old hold (by omega) b hb (hp.trans hprofile.symm)
    rcases hwhich with ⟨rfl, htask⟩ | rfl
    · rcases hchild with hsame | hnone
      · rw [htask, hsame]
        exact hc
      · exact absurd (hp.trans hprofile.symm) (hnone b hb)
    · exact hc
  · intro x hx y hy hp hne
    obtain ⟨oldx, holdx, hidx, hpx, hlex, _⟩ := hcases x hx
    obtain ⟨oldy, holdy, hidy, hpy, hley, _⟩ := hcases y hy
    have hle := h.apart oldx holdx oldy holdy (by omega) (by omega)
    omega

/-- An operation can end when the browser it has in hand, if that is alive, is in
the map. -/
theorem Inv.finish (h : Inv w) (ho : o ∈ w.ops)
    (hdone : ∀ b ∈ w.alive, b.profile = o.profile → o.task.child = some b.child →
      ⟨b.profile, b.child⟩ ∈ w.running) : Inv (w.finish o.id) where
  opIds := h.opIds.deleteWhere
  opOld x hx := h.opOld x (mem_deleteWhere.mp hx).1
  mapKeys := h.mapKeys
  one := h.one
  held b hb := by
    rcases h.held b hb with hin | ⟨x, hx, hp, hc⟩
    · exact .inl hin
    · by_cases hid : x.id = o.id
      · have heq : x = o := h.opIds.eq hx ho hid
        subst heq
        exact .inl (hdone b hb hp.symm hc)
      · exact .inr ⟨x, mem_deleteWhere.mpr ⟨hx, by simpa using hid⟩, hp, hc⟩
  sole x hx := h.sole x (mem_deleteWhere.mp hx).1
  apart x hx y hy := h.apart x (mem_deleteWhere.mp hx).1 y (mem_deleteWhere.mp hy).1

/-- A browser can come up in the hands of an operation when the profile has no
other. -/
theorem Inv.spawn (h : Inv w) (ho : o ∈ w.ops) {child next : ℕ}
    (hchild : o.task.child = some child) (hnone : ∀ b ∈ w.alive, b.profile ≠ o.profile) :
    Inv { w with alive := ⟨child, o.profile⟩ :: w.alive, nextChild := next } where
  opIds := h.opIds
  opOld := h.opOld
  mapKeys := h.mapKeys
  one := h.one.cons hnone
  held b hb := by
    rcases List.mem_cons.mp hb with rfl | hb
    · exact .inr ⟨o, ho, rfl, hchild⟩
    · exact h.held b hb
  sole x hx hpos b hb hp := by
    rcases List.mem_cons.mp hb with rfl | hb
    · by_cases hid : x.id = o.id
      · have heq : x = o := h.opIds.eq hx ho hid
        exact heq ▸ hchild
      · -- The spawning launch needs the whole directory, so nothing else needs any of it.
        have hfull := need_of_child hchild
        have hle := h.apart x hx o ho hp.symm hid
        omega
    · exact h.sole x hx hpos b hb hp
  apart := h.apart

/-- An operation that needs the directory and has no browser is on a profile
without one. -/
theorem Inv.none_alive (h : Inv w) (ho : o ∈ w.ops) (hpos : 0 < need o.task)
    (hchild : o.task.child = none) : ∀ b ∈ w.alive, b.profile ≠ o.profile := by
  intro b hb hp
  have hc := h.sole o ho hpos b hb hp
  rw [hchild] at hc
  cases hc

/-- Once its browser is gone, an operation that has one in hand is on a profile
without one. -/
theorem Inv.none_alive_of_gone (h : Inv w) (ho : o ∈ w.ops) {child : ℕ}
    (hchild : o.task.child = some child) (hgone : ∀ b ∈ w.alive, b.child ≠ child) :
    ∀ b ∈ w.alive, b.profile ≠ o.profile := by
  intro b hb hp
  have hpos : 0 < need o.task := by rw [need_of_child hchild]; decide
  have hc := h.sole o ho hpos b hb hp
  rw [hchild] at hc
  cases hc
  exact hgone b hb rfl

/-- A stop that is done leaves no browser behind. -/
theorem Inv.stopDone (h : Inv w) (ho : o ∈ w.ops) {thenLaunch : Bool}
    (hneed : thenLaunch = true → need o.task = 2)
    (hquiet : o.task.child = none ∨ ∀ b ∈ w.alive, b.profile ≠ o.profile) :
    Inv (w.stopDone o.id thenLaunch) := by
  cases thenLaunch with
  | true =>
    refine h.move ho (Nat.le_of_eq (hneed rfl).symm) ?_
    exact hquiet.imp_left Eq.symm
  | false =>
    refine h.finish ho fun b hb hp hc => ?_
    rcases hquiet with hnone | hnone
    · rw [hnone] at hc
      cases hc
    · exact absurd hp (hnone b hb)

end Parts

theorem isAlive_false {w : World} {child : ℕ} (h : w.isAlive child = false) :
    ∀ b ∈ w.alive, b.child ≠ child := by
  simpa [World.isAlive] using h

/-- An orderly step of an operation in flight. -/
theorem inv_opStep {w w' : World} {o : Op} {a : Label} (h : Inv w) (ho : o ∈ w.ops)
    (hleft : ∀ id, a = .launchFails id ∨ a = .closeFails id →
      ∀ child, o.task.child = some child → w.isAlive child = false)
    (hs : opStep w o a = some w') : Inv w' := by
  cases a with
  | tidy id =>
    cases ht : o.task with
    | tidying =>
      have hpos : 0 < need o.task := by rw [ht]; decide
      have hnone := h.none_alive ho hpos (by rw [ht]; rfl)
      cases he : w.entry o.profile with
      | none =>
        simp only [opStep, ht, he, Option.some.injEq] at hs
        subst hs
        exact h.move ho (by rw [ht]; decide) (.inr hnone)
      | some e =>
        simp only [opStep, ht, he, Option.some.injEq] at hs
        subst hs
        have hout : Inv (w.unregister o.profile) :=
          h.unregister fun b hb hp => absurd hp (hnone b hb)
        exact hout.move ho (by simp [ht, need]) (.inr hnone)
    | _ => simp [opStep, ht] at hs
  | fetched id unpacks =>
    cases ht : o.task with
    | preparing =>
      simp only [opStep, ht, Option.some.injEq] at hs
      subst hs
      cases unpacks <;> exact h.move ho (by rw [ht]; decide) (.inl (by rw [ht]; rfl))
    | _ => simp [opStep, ht] at hs
  | unpacked id =>
    cases ht : o.task with
    | unpacking =>
      simp only [opStep, ht, Option.some.injEq] at hs
      subst hs
      exact h.move ho (by rw [ht]; decide) (.inl (by rw [ht]; rfl))
    | _ => simp [opStep, ht] at hs
  | spawned id =>
    cases ht : o.task with
    | spawning =>
      simp only [opStep, ht, Option.some.injEq] at hs
      subst hs
      have hnone := h.none_alive ho (by rw [ht]; decide) (by rw [ht]; rfl)
      have hmoved : Inv (w.move o.id (.registering w.nextChild)) :=
        h.move ho (by simp [ht, need]) (.inr hnone)
      exact hmoved.spawn (o := { o with task := .registering w.nextChild })
        (mem_updateWhere_of ho (by simp)) rfl hnone
    | _ => simp [opStep, ht] at hs
  | registered id =>
    cases ht : o.task with
    | registering child =>
      simp only [opStep, ht, Option.some.injEq] at hs
      subst hs
      have hsole : ∀ b ∈ w.alive, b.profile = o.profile → b.child = child := by
        intro b hb hp
        have hc := h.sole o ho (by simp [ht, need]) b hb hp
        rw [ht] at hc
        exact (Option.some.inj hc).symm
      refine (h.register hsole).finish ho fun b hb hp _ => ?_
      rw [hp, hsole b hb hp]
      exact List.mem_cons_self
    | _ => simp [opStep, ht] at hs
  | launchFails id =>
    have hquiet : ∀ b ∈ w.alive, b.profile = o.profile → o.task.child ≠ some b.child := by
      intro b hb _ hc
      exact isAlive_false (hleft id (.inl rfl) _ hc) b hb rfl
    have hdone : Inv (w.finish o.id) :=
      h.finish ho fun b hb hp hc => absurd hc (hquiet b hb hp)
    cases ht : o.task <;> simp only [opStep, ht, Option.some.injEq, reduceCtorEq] at hs <;>
      exact hs ▸ hdone
  | closed id hasServer =>
    cases ht : o.task with
    | closing child thenLaunch =>
      have hchild : o.task.child = some child := by rw [ht]; rfl
      have hfewer := h.fewer fun b => b.child = child
      have hnone := hfewer.none_alive_of_gone ho hchild fun b hb => by
        simpa using (mem_deleteWhere.mp hb).2
      simp only [opStep, ht, Option.some.injEq] at hs
      subst hs
      cases hasServer with
      | true =>
        refine hfewer.move ho ?_ (.inr hnone)
        cases thenLaunch <;> simp [ht, need]
      | false => exact hfewer.stopDone ho (fun _ => by rw [ht]; rfl) (.inr hnone)
    | _ => simp [opStep, ht] at hs
  | closeFails id =>
    cases ht : o.task with
    | closing child thenLaunch =>
      have hchild : o.task.child = some child := by rw [ht]; rfl
      have hnone := h.none_alive_of_gone ho hchild
        (isAlive_false (hleft id (.inr rfl) child hchild))
      simp only [opStep, ht, Option.some.injEq] at hs
      subst hs
      exact h.stopDone ho (fun _ => by rw [ht]; rfl) (.inr hnone)
    | _ => simp [opStep, ht] at hs
  | packed id =>
    cases ht : o.task with
    | packing thenLaunch =>
      simp only [opStep, ht, Option.some.injEq] at hs
      subst hs
      refine h.move ho ?_ (.inl (by rw [ht]; rfl))
      rw [ht]
      cases thenLaunch <;> decide
    | _ => simp [opStep, ht] at hs
  | pushed id =>
    cases ht : o.task with
    | pushing thenLaunch =>
      simp only [opStep, ht, Option.some.injEq] at hs
      subst hs
      refine h.stopDone ho (fun hthen => ?_) (.inl (by rw [ht]; rfl))
      rw [ht, hthen]
      rfl
    | _ => simp [opStep, ht] at hs
  | workDone id =>
    cases ht : o.task with
    | dirWork =>
      simp only [opStep, ht, Option.some.injEq] at hs
      subst hs
      refine h.finish ho fun b hb hp hc => ?_
      rw [ht] at hc
      cases hc
    | _ => simp [opStep, ht] at hs
  | _ => cases hs

/-- A stop that finds an entry has the profile's browser in hand. -/
theorem Inv.stop {w : World} {profile : ℕ} {reaper : Bool} (h : Inv w)
    (hroom : ∀ e ∈ w.entry profile, Room w profile 2) :
    Inv (w.stop profile reaper) := by
  unfold World.stop
  cases he : w.entry profile with
  | none => exact h
  | some e =>
    have hfree : Room w profile 2 := hroom e he
    obtain ⟨hmem, hkey⟩ := lookup_some he
    have hsole : ∀ b ∈ w.alive, b.profile = profile → b.child = e.child := by
      intro b hb hp
      have hin := h.registered_of_room (by decide) hfree hb hp
      exact congrArg Running.child (h.mapKeys.eq hin hmem (hp.trans hkey.symm))
    have hstart : Inv (w.start profile (.closing e.child false) reaper) :=
      h.start hfree fun _ b hb hp => congrArg some (hsole b hb hp).symm
    refine hstart.unregister fun b hb hp => ?_
    exact ⟨_, List.mem_cons_self, hp.symm, congrArg some (hsole b hb hp).symm⟩

/-- The flags and the reaper's list say nothing about directories. -/
theorem Inv.flags {w w' : World} (h : Inv w) (hrunning : w'.running = w.running)
    (halive : w'.alive = w.alive) (hops : w'.ops = w.ops) (hnext : w'.nextOp = w.nextOp) :
    Inv w' := by
  cases w
  cases w'
  cases hrunning
  cases halive
  cases hops
  cases hnext
  exact ⟨h.opIds, h.opOld, h.mapKeys, h.one, h.held, h.sole, h.apart⟩

/-- A launch that passes its check finds no live browser. -/
theorem Inv.launch {w : World} {profile : ℕ} {task : Task} (h : Inv w)
    (htask : need task = 2) (hroom : Room w profile 2)
    (hdead : ∀ e, w.entry profile = some e → w.isAlive e.child = false) :
    Inv (w.start profile task false) := by
  refine h.start (htask ▸ hroom) fun _ b hb hp => ?_
  have hin := h.registered_of_room (by decide) hroom hb hp
  cases he : w.entry profile with
  | none => exact absurd hp (lookup_none he _ hin)
  | some e =>
    obtain ⟨hmem, hkey⟩ := lookup_some he
    have heq := h.mapKeys.eq hin hmem (hp.trans hkey.symm)
    exact absurd (congrArg Running.child heq) (isAlive_false (hdead e he) b hb)

/-- An orderly request, an act of the reaper or an event outside. -/
theorem inv_freeStep {w w' : World} {a : Label} (h : Inv w)
    (hroom : ∀ t ∈ begins w a, Room w t.1 (need t.2)) (hs : freeStep w a = some w') : Inv w' := by
  cases a with
  | launch profile requested =>
    have hflag : Inv (if requested then { w with exitWhenIdle := false } else w) := by
      cases requested
      · exact h
      · exact h.flags rfl rfl rfl rfl
    simp only [freeStep] at hs
    cases he : w.entry profile with
    | none =>
      have hfree : Room w profile 2 := hroom (profile, .preparing) (by simp [begins, he])
      rw [he] at hs
      cases hs
      refine hflag.launch rfl ?_ ?_ <;> cases requested
      · exact hfree
      · exact hfree
      · exact fun e hsome => absurd (he.symm.trans hsome) nofun
      · exact fun e hsome => absurd (he.symm.trans hsome) nofun
    | some e =>
      rw [he] at hs
      cases hd : w.isAlive e.child with
      | true =>
        simp only [hd, if_true, Option.some.injEq] at hs
        exact hs ▸ hflag
      | false =>
        have hfree : Room w profile 2 :=
          hroom (profile, .tidying) (by simp [begins, he, hd])
        simp only [hd, Bool.false_eq_true, if_false, Option.some.injEq] at hs
        subst hs
        have hdead : ∀ x, w.entry profile = some x → w.isAlive x.child = false := by
          intro x hx
          cases he.symm.trans hx
          exact hd
        refine hflag.launch rfl ?_ ?_ <;> cases requested
        · exact hfree
        · exact hfree
        · exact hdead
        · exact hdead
  | stop profile =>
    cases hs
    exact h.stop fun e he => hroom _ (Option.mem_map_of_mem _ he)
  | dirWork profile =>
    simp only [freeStep] at hs
    cases he : w.entry profile with
    | none =>
      rw [he] at hs
      cases hs
      have hfree : Room w profile 1 := hroom (profile, .dirWork) (by simp [begins, he])
      refine h.start hfree fun _ b hb hp => ?_
      have hin := h.registered_of_room (by decide) hfree hb hp
      exact absurd hp (lookup_none he _ hin)
    | some e =>
      rw [he] at hs
      cases hs
      exact h
  | browserExits child =>
    cases hs
    exact h.fewer _
  | reaperLists =>
    simp only [freeStep] at hs
    split at hs
    · cases hs
      exact h.flags rfl rfl rfl rfl
    · cases hs
  | reaperStops =>
    simp only [freeStep] at hs
    split at hs
    · cases hs
    · split at hs
      · next profile rest hlist =>
        cases hs
        simp only [begins, hlist] at hroom
        have hflag : Inv { w with reaping := some rest } := h.flags rfl rfl rfl rfl
        exact hflag.stop fun e he => hroom _ (Option.mem_map_of_mem _ he)
      · cases hs
  | reaperDecides =>
    simp only [freeStep] at hs
    split at hs
    · cases hs
    · split at hs
      · cases hs
        exact h.flags rfl rfl rfl rfl
      · cases hs
  | status =>
    cases hs
    exact h.flags rfl rfl rfl rfl
  | shutdown whenIdle =>
    cases whenIdle <;> simp only [freeStep] at hs <;> split at hs <;> cases hs
    · exact h.flags rfl rfl rfl rfl
    · exact h
    · exact h.flags rfl rfl rfl rfl
    · exact h.flags rfl rfl rfl rfl
  | download on =>
    cases hs
    exact h.flags rfl rfl rfl rfl
  | disconnect =>
    cases hs
    exact h
  | exit =>
    simp only [freeStep] at hs
    split at hs
    · cases hs
      exact h.flags rfl rfl rfl rfl
    · cases hs
  | _ => cases hs

theorem inv_step : Preserved step Orderly Inv := by
  intro w a w' h hg hs
  unfold step at hs
  split at hs
  · cases hs
  · split at hs
    · next id hid =>
      obtain ⟨o, ho, hs⟩ := Option.bind_eq_some_iff.mp hs
      refine inv_opStep h (lookup_some ho).1 (fun i hi child hc => ?_) hs
      refine hg.2 child ?_
      rcases hi with rfl | rfl
      · cases hid
        simp [abandoned, ho, hc]
      · cases hid
        simp [abandoned, ho, hc]
    · exact inv_freeStep h hg.1 hs

theorem Inv.exclusive {w : World} (h : Inv w) : Exclusive w where
  one profile := by
    have hsub : ((w.alive.filter fun b => b.profile = profile).map Browser.profile).Nodup :=
      h.one.sublist (List.filter_sublist.map Browser.profile)
    have hsame : ∀ p ∈ (w.alive.filter fun b => b.profile = profile).map Browser.profile,
        p = profile := by
      intro p hp
      obtain ⟨b, hb, rfl⟩ := List.mem_map.mp hp
      simpa using (List.mem_filter.mp hb).2
    have hrep := List.eq_replicate_of_mem hsame
    rw [hrep] at hsub
    simpa using List.nodup_replicate.mp hsub
  held := h.held
  untouched o ho htouches := by
    obtain ⟨hpos, hchild⟩ := need_of_touches htouches
    exact h.none_alive ho hpos hchild

/-- However requests interleave, orderly runs keep one browser to a directory. -/
theorem one_browser_to_a_directory {w : World} (hr : Reached init step Orderly w) :
    Exclusive w :=
  (hr.invariant Inv (fun _ hi => hi ▸ inv_fresh) inv_step).exclusive

/-- A launch from the check to the map, a second launch that is refused, a stop
and a pack. -/
def orderlyRun : List Label :=
  [.launch 1 true, .fetched 0 true, .unpacked 0, .spawned 0, .registered 0, .launch 1 true,
    .stop 1, .closed 1 true, .packed 1, .dirWork 1]

/-- The state of that run. -/
def orderlyEnd : World :=
  { fresh with
    ops := [⟨2, 1, .dirWork, false⟩, ⟨1, 1, .pushing false, false⟩]
    nextChild := 1
    nextOp := 3 }

theorem one_browser_to_a_directory_packed : Exclusive orderlyEnd := by
  have hfresh : Reached init step Orderly fresh := .start rfl
  exact one_browser_to_a_directory
    (hfresh.run orderlyRun (by decide) (by decide))

/-- Two launches of one profile, the second checked before the first has put its
browser into the map. -/
def twoLaunches : List Label :=
  [.launch 1 true, .launch 1 true, .fetched 0 false, .spawned 0, .fetched 1 true]

/-- The second launch unpacks over the directory of the first one's browser. -/
def unpackingUnderBrowser : World :=
  { fresh with
    alive := [⟨0, 1⟩]
    ops := [⟨1, 1, .unpacking, false⟩, ⟨0, 1, .registering 0, false⟩]
    nextChild := 1
    nextOp := 2 }

/-- It then spawns, and its entry takes the place of the first one's. -/
def twoBrowsers : World :=
  { fresh with running := [⟨1, 1⟩], alive := [⟨1, 1⟩, ⟨0, 1⟩], nextChild := 2, nextOp := 2 }

/-- Without the order, two launches unpack under a live browser, end with two
browsers on the directory, and lose the first one from the map. -/
theorem second_launch_breaks_exclusion :
    Reached init step anyStep unpackingUnderBrowser ∧ ¬ Exclusive unpackingUnderBrowser ∧
      Reached init step anyStep twoBrowsers ∧ ¬ Exclusive twoBrowsers ∧
      ¬ Held twoBrowsers ⟨0, 1⟩ := by
  have hfresh : Reached init step anyStep fresh := .start rfl
  have hunder : Reached init step anyStep unpackingUnderBrowser :=
    hfresh.run_any twoLaunches (by decide)
  refine ⟨hunder, fun h => ?_, ?_, fun h => ?_, ?_⟩
  · exact h.untouched ⟨1, 1, .unpacking, false⟩ (by decide) rfl ⟨0, 1⟩ (by decide) rfl
  · exact hunder.run_any [.unpacked 1, .spawned 1, .registered 0, .registered 1]
      (by decide)
  · exact absurd (h.one 1) (by decide)
  · rintro (hin | ⟨o, ho, _⟩)
    · exact absurd hin (by decide)
    · cases ho

end FuryBrowser.BrowserExclusion
