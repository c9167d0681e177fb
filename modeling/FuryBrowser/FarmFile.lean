import Mathlib.Algebra.Order.BigOperators.Group.List
import Mathlib.Algebra.Order.Group.Nat
import FuryBrowser.FarmRuns

/-!
# The file of the farming plans

A file that the agent can read and understands keeps its plans, in memory and on the disk, however
the writes go that come later. Any other file is taken for no plans at all, and the next write
that succeeds puts the plans there are in its place.
-/

namespace FuryBrowser.Farming

open AgentDisk (trim)
open GuardedRuns

variable {β : Type} {fmt : PlansFormat β} {w t : World β}

/-- The plans of the file, if it can be read and is understood. -/
def World.understood (fmt : PlansFormat β) (w : World β) (readable : Bool) : Option (List Farm) :=
  if readable then w.onDisk fmt else none

/-- It is the same plan, however far it is. -/
structure Same (f g : Farm) : Prop where
  id : g.id = f.id
  /-- It was made when it was. -/
  createdMs : g.createdMs = f.createdMs
  spec : g.spec = f.spec
  /-- It has the same profiles. -/
  targets : g.targets = f.targets

/-- Every plan of a list is in another. -/
def Among (plans list : List Farm) : Prop := ∀ f ∈ plans, ∃ g ∈ list, Same f g

/-- The plans that were understood are in memory and in the file, and a file that was not is as it
was. -/
def Keeps (fmt : PlansFormat β) (file : Option β) (understood : Option (List Farm))
    (w : World β) : Prop :=
  match file, understood with
  | none, _ => True
  | some _, some plans => Among plans w.list ∧ ∃ list, w.onDisk fmt = some list ∧ Among plans list
  | some bytes, none => w.file = some bytes

/-- What comes later is no start of the agent, and no deletion of one of some plans. -/
def Later (plans : List Farm) (_ : World β) (label : Op × Wrote β) : Prop :=
  match label.1 with
  | .load _ => False
  | .delete id => ∀ f ∈ plans, f.id ≠ id
  | _ => True

section Plans

variable {plans list list' : List Farm} {f g h : Farm}

theorem Same.refl (f : Farm) : Same f f := ⟨rfl, rfl, rfl, rfl⟩

theorem Same.trans (hfg : Same f g) (hgh : Same g h) : Same f h :=
  ⟨hgh.id.trans hfg.id, hgh.createdMs.trans hfg.createdMs, hgh.spec.trans hfg.spec,
    hgh.targets.trans hfg.targets⟩

theorem Among.trans (hlist : Among plans list) (hlist' : Among list list') :
    Among plans list' := by
  intro f hf
  obtain ⟨g, hg, hfg⟩ := hlist f hf
  obtain ⟨h, hh, hgh⟩ := hlist' g hg
  exact ⟨h, hh, hfg.trans hgh⟩

theorem Among.of_subset (h : list ⊆ list') : Among list list' :=
  fun f hf => ⟨f, h hf, .refl f⟩

/-- A change of one plan's progress loses none. -/
theorem among_modifyFirst {p : Farm → Bool} {change : Farm → Farm}
    (hchange : ∀ f, Same f (change f)) : Among list (modifyFirst p change list) := by
  induction list with
  | nil => nofun
  | cons e rest ih =>
    intro f hf
    unfold modifyFirst
    rcases List.mem_cons.mp hf with rfl | hf
    · split
      · exact ⟨_, List.mem_cons_self, hchange f⟩
      · exact ⟨f, List.mem_cons_self, .refl f⟩
    · split
      · exact ⟨f, List.mem_cons_of_mem _ hf, .refl f⟩
      · obtain ⟨g, hg, hfg⟩ := ih f hf
        exact ⟨g, List.mem_cons_of_mem _ hg, hfg⟩

theorem among_setTrack {farm profile : String} {track : Track} :
    Among list (setTrack list farm profile track) :=
  among_modifyFirst fun _ => ⟨rfl, rfl, rfl, rfl⟩

theorem among_stepAll {p : Pass} {starts : List Start} {log : List Record} {rng : Rng}
    {done : Passed} (h : stepAll p list starts log rng = some done) : Among list done.list := by
  induction list generalizing starts log rng done with
  | nil => nofun
  | cons e rest ih =>
    obtain ⟨⟨e', r⟩, hfarm, hrest⟩ := Option.bind_eq_some_iff.mp h
    obtain ⟨after, hafter, rfl⟩ := Option.map_eq_some_iff.mp hrest
    have he : Same e e' := by
      unfold stepFarm at hfarm
      split at hfarm
      · cases hfarm
        exact .refl _
      · obtain ⟨r', -, heq⟩ := Option.map_eq_some_iff.mp hfarm
        cases heq
        exact ⟨rfl, rfl, rfl, rfl⟩
    intro f hf
    rcases List.mem_cons.mp hf with rfl | hf
    · exact ⟨e', List.mem_cons_self, he⟩
    · obtain ⟨g, hg, hfg⟩ := ih hafter f hf
      exact ⟨g, List.mem_cons_of_mem _ hg, hfg⟩

/-- Nothing that comes later loses one of these plans, or forgets what it is. -/
theorem among_after {op : Op} {wrote : Wrote β} {u : World β} {saves : Bool}
    (hlater : Later plans w (op, wrote)) (hlist : Among plans w.list)
    (hafter : w.after fmt op = some (u, saves)) : Among plans u.list ∧ u.file = w.file := by
  cases op with
  | create spec targets nowMs id =>
    cases hcreate : Farming.create w.list spec targets nowMs id with
    | error e =>
      simp only [World.after, hcreate] at hafter
      cases hafter
      exact ⟨hlist, rfl⟩
    | ok list =>
      simp only [World.after, hcreate] at hafter
      split at hafter
      · cases hafter
      · cases hafter
        obtain ⟨-, -, urls, rfl⟩ := create_ok hcreate
        exact ⟨hlist.trans (.of_subset (List.subset_append_left _ _)), rfl⟩
  | step pass rng =>
    obtain ⟨r, hr, heq⟩ := Option.map_eq_some_iff.mp hafter
    cases heq
    exact ⟨hlist.trans (among_stepAll hr), rfl⟩
  | claim farm profile nowMs openIds =>
    cases hclaim : Farming.claim w.list farm profile nowMs openIds with
    | none =>
      simp only [World.after, hclaim] at hafter
      cases hafter
      exact ⟨hlist, rfl⟩
    | some taken =>
      obtain ⟨list, plan, begun⟩ := taken
      simp only [World.after, hclaim] at hafter
      cases hafter
      obtain ⟨_, -, h⟩ := Option.bind_eq_some_iff.mp hclaim
      obtain ⟨f, -, h⟩ := Option.bind_eq_some_iff.mp h
      obtain ⟨track, -, h⟩ := Option.bind_eq_some_iff.mp h
      obtain ⟨found, -, h⟩ := Option.bind_eq_some_iff.mp h
      cases h
      exact ⟨hlist.trans among_setTrack, rfl⟩
  | report farm profile begun last =>
    simp only [World.after] at hafter
    split at hafter
    · cases hreport : Farming.report w.list farm profile last with
      | none =>
        simp only [hreport] at hafter
        cases hafter
        exact ⟨hlist, rfl⟩
      | some list =>
        simp only [hreport] at hafter
        cases hafter
        obtain ⟨old, -, h⟩ := Option.bind_eq_some_iff.mp hreport
        obtain ⟨new, -, h⟩ := Option.bind_eq_some_iff.mp h
        cases h
        exact ⟨hlist.trans among_setTrack, rfl⟩
    · cases hafter
  | fail farm profile error =>
    cases hfail : Farming.fail w.list farm profile error with
    | none =>
      simp only [World.after, hfail] at hafter
      cases hafter
      exact ⟨hlist, rfl⟩
    | some list =>
      simp only [World.after, hfail] at hafter
      cases hafter
      obtain ⟨old, -, h⟩ := Option.bind_eq_some_iff.mp hfail
      cases h
      exact ⟨hlist.trans among_setTrack, rfl⟩
  | pause id paused =>
    cases hafter
    exact ⟨hlist.trans (among_modifyFirst fun _ => ⟨rfl, rfl, rfl, rfl⟩), rfl⟩
  | delete id =>
    cases hafter
    refine ⟨fun f hf => ?_, rfl⟩
    obtain ⟨g, hg, hfg⟩ := hlist f hf
    refine ⟨g, List.mem_filter.mpr ⟨hg, decide_eq_true ?_⟩, hfg⟩
    exact hfg.id ▸ hlater f hf
  | stageApplied farm profile =>
    cases hafter
    refine ⟨hlist.trans ?_, rfl⟩
    dsimp only [Farming.stageApplied]
    cases trackOf w.list farm profile with
    | none => exact .of_subset (List.Subset.refl _)
    | some track => exact among_setTrack
  | load readable => exact hlater.elim

end Plans

section Loads

variable {readable : Bool} {plans : List Farm}

/-- A file that can be read and is understood is what the agent finds. -/
theorem found_of_understood (h : w.understood fmt readable = some plans) :
    w.found fmt readable = plans ∧ w.onDisk fmt = some plans := by
  unfold World.understood at h
  split at h
  · rename_i hr
    refine ⟨?_, h⟩
    unfold World.onDisk at h
    obtain ⟨bytes, hbytes, hparse⟩ := Option.bind_eq_some_iff.mp h
    simp [World.found, World.raw, hr, hbytes, hparse]
  · cases h

/-- Any other is nothing to it, and then what it knows of the file is no plans either. -/
theorem found_of_not_understood (h : w.understood fmt readable = none) :
    w.found fmt readable = [] ∧ ∀ list, fmt.print list ≠ w.raw fmt readable := by
  have hraw : fmt.parse (w.raw fmt readable) = none := by
    unfold World.understood at h
    unfold World.raw
    split at h
    · rename_i hr
      rw [if_pos hr]
      unfold World.onDisk at h
      cases hbytes : w.file.filter fun bytes => fmt.isText bytes with
      | none => exact fmt.parse_blank
      | some bytes =>
        rw [hbytes] at h
        exact h
    · rename_i hr
      rw [if_neg hr]
      exact fmt.parse_blank
  refine ⟨by simp [World.found, hraw], fun list heq => ?_⟩
  rw [← heq, fmt.parse_print] at hraw
  cases hraw

/-- Plans that are not the same are not written the same. -/
theorem print_injective {list list' : List Farm} (h : fmt.print list = fmt.print list') :
    list = list' := by
  have hparse := congrArg fmt.parse h
  rw [fmt.parse_print, fmt.parse_print] at hparse
  exact Option.some.inj hparse

theorem exists_new (ids : List String) : ∃ id, id ∉ ids := by
  refine ⟨String.ofList (List.replicate ((ids.map String.length).sum + 1) 'a'), fun hin => ?_⟩
  have hle := List.single_le_sum (fun _ _ => Nat.zero_le _) _
    (List.mem_map_of_mem (f := String.length) hin)
  simp at hle

variable [DecidableEq β] {wrote : Wrote β}

/-- What the agent has and the disk has when it has started. -/
def World.loaded (fmt : PlansFormat β) (w : World β) (readable : Bool) : World β :=
  { w with
    list := (w.found fmt readable).map Farm.interrupt
    written := w.raw fmt readable
    intact := w.intact && decide (w.found fmt readable = w.list) }

theorem step_load : World.step fmt w (.load readable, wrote) =
    some ((w.loaded fmt readable).save fmt wrote) := rfl

/-- A write leaves the plans in the file. -/
theorem among_save (hlist : Among plans w.list)
    (hdisk : ∃ list, w.onDisk fmt = some list ∧ Among plans list) :
    Among plans (w.save fmt wrote).list ∧
      ∃ list, (w.save fmt wrote).onDisk fmt = some list ∧ Among plans list := by
  have hcases : (w.save fmt wrote).onDisk fmt = w.onDisk fmt ∨
      (w.save fmt wrote).onDisk fmt = some w.list := World.save_onDisk
  rw [World.save_list]
  refine ⟨hlist, ?_⟩
  rcases hcases with heq | heq
  · rw [heq]
    exact hdisk
  · exact ⟨w.list, heq, hlist⟩

/-- Plans that are in memory and in the file stay there. -/
theorem among_step : Preserved (World.step fmt) (Later plans) fun w =>
    Among plans w.list ∧ ∃ list, w.onDisk fmt = some list ∧ Among plans list := by
  rintro w label t ⟨hlist, hdisk⟩ hlater hstep
  obtain ⟨u, saves, hafter, ht⟩ := World.step_cases hstep
  obtain ⟨hu, hfile⟩ := among_after hlater hlist hafter
  have hdisk' : ∃ list, u.onDisk fmt = some list ∧ Among plans list := by
    unfold World.onDisk at hdisk ⊢
    rw [hfile]
    exact hdisk
  rcases ht with rfl | rfl
  · exact ⟨hu, hdisk'⟩
  · exact among_save hu hdisk'

/-- A write that succeeds puts the plans in the file. -/
theorem save_done (h : fmt.print w.list ≠ w.written) : w.save fmt .done =
    { w with written := fmt.print w.list, file := some (fmt.print w.list), beside := none } := by
  rw [World.save, if_neg h]

/-- A plan is made, and written. -/
def createOne (id : String) : Op × Wrote β :=
  (.create (oneSite 1) [profileFrom "local"] 0 id, .done)

/-- It is the only one. -/
def onlyOne (id : String) : List Farm :=
  [⟨id, 0, oneSite 1, [profileFrom "local"], [], false⟩]

theorem create_one (id : String) :
    Farming.create [] (oneSite 1) [profileFrom "local"] 0 id = .ok (onlyOne id) := by
  have hcheck : (oneSite 1).check = .ok () := rfl
  have hurls : ((oneSite 1).urls.map trim).filter (fun u => u ≠ "") = (oneSite 1).urls := by
    decide
  unfold create
  rw [hcheck, hurls]
  rfl

/-- Without plans it is the only one, and the file says so. -/
theorem step_createOne (fmt : PlansFormat β) (hlist : w.list = []) {id : String} (hid : id ∉ w.ids)
    (hwritten : fmt.print (onlyOne id) ≠ w.written) :
    ∃ t, World.step fmt w (createOne id) = some t ∧
      t.file = some (fmt.print (onlyOne id)) := by
  have hafter : w.after fmt (createOne (β := β) id).1 =
      some ({ w with list := onlyOne id, ids := id :: w.ids }, true) := by
    simp [World.after, createOne, hlist, create_one, hid]
  refine ⟨({ w with list := onlyOne id, ids := id :: w.ids } : World β).save fmt .done, ?_, ?_⟩
  · rw [World.step, hafter]
    rfl
  · rw [save_done hwritten]

/-- After a file that was not understood the next plan that is made is the only one, in memory and
on the disk. -/
theorem create_after_load (h : w.understood fmt readable = none) {id : String}
    (hid : id ∉ w.ids) : ∃ u t, World.step fmt w (.load readable, .done) = some u ∧
      World.step fmt u (createOne id) = some t ∧ u.file = some (fmt.print []) ∧
      t.file = some (fmt.print (onlyOne id)) := by
  obtain ⟨hfound, hraw⟩ := found_of_not_understood h
  have hload : (w.loaded fmt readable).list = [] := by simp [World.loaded, hfound]
  have hsaved : (w.loaded fmt readable).save fmt .done =
      { w.loaded fmt readable with
        list := []
        written := fmt.print []
        file := some (fmt.print [])
        beside := none } := by
    rw [save_done (hload.symm ▸ hraw []), hload]
  have hnew : fmt.print (onlyOne id) ≠ fmt.print [] := fun heq =>
    absurd (print_injective heq) (by simp [onlyOne])
  rw [step_load, hsaved]
  obtain ⟨t, ht, hfile⟩ := step_createOne fmt (w := { w.loaded fmt readable with
        list := []
        written := fmt.print []
        file := some (fmt.print [])
        beside := none }) rfl hid hnew
  exact ⟨_, t, rfl, ht, rfl, hfile⟩

end Loads

section Results

variable [DecidableEq β]

/-- Whatever is done after a start of the agent, but for another start and deletions, and however
its writes go: the plans of the file are still in memory and in the file, and a file that was not
understood is as it was. It is so exactly if there is no file, or the file can be read and is
understood. -/
theorem load_keeps_iff (fmt : PlansFormat β) (w : World β) (readable : Bool) :
    (∀ wrote u t, World.step fmt w (.load readable, wrote) = some u →
      Reached (· = u) (World.step fmt) (Later ((w.understood fmt readable).getD [])) t →
      Keeps fmt w.file (w.understood fmt readable) t) ↔
    w.file = none ∨ (w.understood fmt readable).isSome := by
  constructor
  · intro hall
    cases hfile : w.file with
    | none => exact .inl rfl
    | some bytes =>
      refine .inr ?_
      cases hund : w.understood fmt readable with
      | some plans => rfl
      | none =>
        obtain ⟨id, hid⟩ := exists_new w.ids
        obtain ⟨u, t, hu, ht, hufile, htfile⟩ := create_after_load hund hid
        have hstart : Reached (· = u) (World.step fmt)
            (Later ((w.understood fmt readable).getD [])) u := .start rfl
        have hnext : Reached (· = u) (World.step fmt)
            (Later ((w.understood fmt readable).getD [])) t :=
          .next (a := createOne id) hstart trivial ht
        have hkept := hall .done u u hu hstart
        have hkept' := hall .done u t hu hnext
        rw [hfile, hund] at hkept hkept'
        have hsame := hufile.symm.trans (hkept.trans (hkept'.symm.trans htfile))
        exact absurd (print_injective (Option.some.inj hsame)) (by simp [onlyOne])
  · intro hcases wrote u t hu hreached
    cases hfile : w.file with
    | none => trivial
    | some bytes =>
      obtain ⟨plans, hund⟩ := Option.isSome_iff_exists.mp
        (hcases.resolve_left (by rw [hfile]; nofun))
      obtain ⟨hfound, hdisk⟩ := found_of_understood hund
      rw [hund] at hreached ⊢
      refine hreached.invariant (fun w => Among plans w.list ∧
        ∃ list, w.onDisk fmt = some list ∧ Among plans list) ?_ among_step
      rintro _ rfl
      rw [step_load] at hu
      cases hu
      refine among_save ?_ ⟨plans, hdisk, .of_subset (List.Subset.refl _)⟩
      intro f hf
      refine ⟨f.interrupt, List.mem_map_of_mem ?_, ⟨rfl, rfl, rfl, rfl⟩⟩
      rw [hfound]
      exact hf

/-- A file that was cut short: it is no JSON. -/
def cutShort : World (List Farm ⊕ String) :=
  { World.new plainPlans with
    file := some (.inr "[\n  \x7b\n    \"id\": \"f\",\n    \"created_ms\"") }

/-- The start of the agent writes an empty list over it. -/
theorem load_overwrites : ∃ u, World.step plainPlans cutShort (.load true, .done) = some u ∧
    cutShort.understood plainPlans true = none ∧ u.file = some (.inl []) ∧
    u.beside = none ∧ ¬Keeps plainPlans cutShort.file none u := by
  refine ⟨_, rfl, rfl, rfl, rfl, ?_⟩
  intro hkept
  cases hkept

end Results

end FuryBrowser.Farming
