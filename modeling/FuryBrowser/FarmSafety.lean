import FuryBrowser.FarmRuns

/-!
# The farming plans in order

A plan never has more sessions in flight than it may, a profile has one at most and is in one
plan that is not finished, no session is started twice or on an open profile, the days of a
profile come one after the other and each counts once at most, and the stage is asked for when
the last of them is done. It holds of every run, whatever the clock says, whichever profiles are
open and wherever the agent is started again. What is said of the past is said of runs whose
starts find what was saved.
-/

namespace FuryBrowser.Farming

open GuardedRuns RowTable

section Histories

/-- What was done of a profile in a plan. -/
def acts (log : List Record) (farm profile : String) : List Act :=
  (log.filter fun r => r.farm = farm && r.profile = profile).map Record.act

variable {log more : List Record} {farm profile : String} {r : Record}

@[simp] theorem acts_append :
    acts (log ++ more) farm profile = acts log farm profile ++ acts more farm profile := by
  simp [acts]

/-- What was done of another plan is none of it. -/
theorem acts_of_ne (h : ∀ r ∈ more, r.farm ≠ farm) : acts more farm profile = [] := by
  refine List.map_eq_nil_iff.mpr (List.filter_eq_nil_iff.mpr fun r hr => ?_)
  simp [h r hr]

/-- Nor what was done of another profile. -/
theorem acts_of_profile_ne (h : ∀ r ∈ more, r.profile ≠ profile) :
    acts more farm profile = [] := by
  refine List.map_eq_nil_iff.mpr (List.filter_eq_nil_iff.mpr fun r hr => ?_)
  simp [h r hr]

/-- What was done of one profile of one plan is all of it. -/
theorem acts_map (done : List Act) :
    acts (done.map fun act => ⟨farm, profile, act⟩) farm profile = done := by
  simp [acts, List.filter_map, Function.comp_def]

end Histories

section Tracks

variable {tracks : List (String × Track)} {profile other : String} {track : Track}

/-- The track of a profile, which is a new one at first. -/
def trackIn (tracks : List (String × Track)) (profile : String) : Track :=
  ((lookup Prod.fst tracks profile).map Prod.snd).getD .new

@[simp] theorem trackIn_put_self :
    trackIn (put Prod.fst (profile, track) tracks) profile = track := by
  have hput : lookup Prod.fst (put Prod.fst (profile, track) tracks) profile =
      some (profile, track) := lookup_put_self
  simp [trackIn, hput]

theorem trackIn_put_of_ne (h : other ≠ profile) :
    trackIn (put Prod.fst (profile, track) tracks) other = trackIn tracks other := by
  have hput : lookup Prod.fst (put Prod.fst (profile, track) tracks) other =
      lookup Prod.fst tracks other := lookup_put_of_ne h
  simp [trackIn, hput]

/-- A track that is there is the one that is found. -/
theorem trackIn_of_mem (h : KeyUnique Prod.fst tracks) {e : String × Track} (he : e ∈ tracks) :
    trackIn tracks e.1 = e.2 := by
  simp [trackIn, lookup_of_mem h he]

variable (tracks profile) in
/-- One that is found is there, or it is new. -/
theorem trackIn_cases : (profile, trackIn tracks profile) ∈ tracks ∨
    trackIn tracks profile = .new := by
  cases h : lookup Prod.fst tracks profile with
  | none => exact .inr (by simp [trackIn, h])
  | some e =>
    obtain ⟨hin, rfl⟩ := lookup_some h
    exact .inl (by simpa [trackIn, h] using hin)

variable (profile) in
theorem flying_deleteWhere (h : KeyUnique Prod.fst tracks) :
    flying (deleteWhere (fun e => e.1 = profile) tracks) + (trackIn tracks profile).flights =
      flying tracks := by
  induction tracks with
  | nil => rfl
  | cons e rest ih =>
    have hrest := ih h.tail
    by_cases he : e.1 = profile
    · subst he
      have hdel : deleteWhere (fun s => s.1 = e.1) (e :: rest) = rest := by
        have hkeep : deleteWhere (fun s => s.1 = e.1) rest = rest :=
          deleteWhere_of_not h.tail_ne
        simpa [deleteWhere] using hkeep
      have hfound : trackIn (e :: rest) e.1 = e.2 := by simp [trackIn, lookup]
      rw [hdel, hfound, flying, flying, List.map_cons, List.sum_cons, Track.flights]
      omega
    · have hdel : deleteWhere (fun s => s.1 = profile) (e :: rest) =
          e :: deleteWhere (fun s => s.1 = profile) rest := by
        simp [deleteWhere, he]
      have hfound : trackIn (e :: rest) profile = trackIn rest profile := by
        simp [trackIn, lookup, he]
      rw [hdel, hfound]
      simp only [flying, List.map_cons, List.sum_cons] at hrest ⊢
      omega

variable (profile track) in
/-- When a track is changed, what is in flight changes by it. -/
theorem flying_put (h : KeyUnique Prod.fst tracks) :
    flying (put Prod.fst (profile, track) tracks) + (trackIn tracks profile).flights =
      flying tracks + track.flights := by
  have hdel := flying_deleteWhere profile h
  have hput : flying (put Prod.fst (profile, track) tracks) =
      track.flights + flying (deleteWhere (fun e => e.1 = profile) tracks) := rfl
  omega

end Tracks

section Plans

/-- What holds of some tracks of a plan. -/
structure Tended (spec : Spec) (targets : List Target) (tracks : List (String × Track)) :
    Prop where
  keys : KeyUnique Prod.fst tracks
  /-- Each is as it has to be. -/
  sound : ∀ e ∈ tracks, Sound spec e.2
  /-- It is that of a profile of the plan. -/
  ofTarget : ∀ e ∈ tracks, ∃ t ∈ targets, t.id = e.1

/-- What holds of a plan. -/
structure Well (f : Farm) : Prop where
  /-- It is for a day at least. -/
  days : 1 ≤ f.spec.days
  tended : Tended f.spec f.targets f.tracks
  /-- No more of its sessions are in flight than may be. -/
  room : f.inFlight ≤ f.spec.atOnce

/-- What was done of a plan goes with its tracks. -/
def Told (spec : Spec) (farm : String) (log : List Record) (tracks : List (String × Track)) :
    Prop :=
  ∀ profile, Fits spec (acts log farm profile) (trackIn tracks profile).course

variable {spec : Spec} {targets : List Target} {tracks : List (String × Track)}
  {profile farm : String} {track : Track} {log more : List Record} {f g : Farm}

/-- Any track of it is as it has to be. -/
theorem Tended.soundIn (h : Tended spec targets tracks) (profile : String) :
    Sound spec (trackIn tracks profile) := by
  rcases trackIn_cases tracks profile with hin | hnew
  · exact h.sound _ hin
  · rw [hnew]
    exact .new

theorem Tended.put (h : Tended spec targets tracks) (hsound : Sound spec track)
    (htarget : ∃ t ∈ targets, t.id = profile) :
    Tended spec targets (put Prod.fst (profile, track) tracks) where
  keys := h.keys.put
  sound e he := by
    rcases mem_put.mp he with rfl | ⟨hin, _⟩
    · exact hsound
    · exact h.sound e hin
  ofTarget e he := by
    rcases mem_put.mp he with rfl | ⟨hin, _⟩
    · exact htarget
    · exact h.ofTarget e hin

/-- What was done of another plan changes nothing. -/
theorem Told.other (h : Told spec farm log tracks) (hmore : ∀ r ∈ more, r.farm ≠ farm) :
    Told spec farm (log ++ more) tracks := by
  intro profile
  rw [acts_append, acts_of_ne hmore, List.append_nil]
  exact h profile

/-- A track is changed, and what was done goes with it. -/
theorem Told.put {done : List Act} (h : Told spec farm log tracks)
    (hfits : ∀ before, Fits spec before (trackIn tracks profile).course →
      Fits spec (before ++ done) track.course) :
    Told spec farm (log ++ done.map fun act => ⟨farm, profile, act⟩)
      (put Prod.fst (profile, track) tracks) := by
  intro other
  rw [acts_append]
  by_cases heq : other = profile
  · subst heq
    rw [trackIn_put_self, acts_map]
    exact hfits _ (h other)
  · have hnone : acts (done.map fun act => (⟨farm, profile, act⟩ : Record)) farm other = [] :=
      acts_of_profile_ne fun r hr => by
        obtain ⟨act, -, rfl⟩ := List.mem_map.mp hr
        exact fun h => heq h.symm
    rw [trackIn_put_of_ne heq, hnone, List.append_nil]
    exact h other

/-- A plan is finished when all days of all of its profiles are done. -/
theorem finished_iff (h : 1 ≤ f.spec.days) : f.finished = true ↔
    ∀ t ∈ f.targets, f.spec.days ≤ (trackIn f.tracks t.id).daysDone := by
  simp only [Farm.finished, List.all_eq_true]
  refine forall₂_congr fun t _ => ?_
  unfold Farm.track trackIn
  cases lookup Prod.fst f.tracks t.id with
  | none =>
    simp only [Option.map_none, Option.any_none, Option.getD_none, Track.new]
    constructor <;> intro hzero <;> [cases hzero; omega]
  | some e => simp

/-- One plan comes of another: it is the same but for its tracks, and no day is taken back. -/
structure Onward (f g : Farm) : Prop where
  id : g.id = f.id
  spec : g.spec = f.spec
  /-- It has the same profiles. -/
  targets : g.targets = f.targets
  /-- It is as it has to be if it was. -/
  well : Well f → Well g
  grows : Well f → ∀ profile,
    (trackIn f.tracks profile).daysDone ≤ (trackIn g.tracks profile).daysDone

theorem Onward.refl (f : Farm) : Onward f f :=
  ⟨rfl, rfl, rfl, fun h => h, fun _ _ => Nat.le_refl _⟩

theorem Onward.holds (h : Onward f g) (hf : Well f) (hg : g.holds profile = true) :
    f.holds profile = true := by
  obtain ⟨hopen, htarget⟩ := Bool.and_eq_true_iff.mp hg
  refine Bool.and_eq_true_iff.mpr ⟨?_, h.targets ▸ htarget⟩
  simp only [Bool.not_eq_true', Bool.eq_false_iff] at hopen ⊢
  intro hdone
  refine hopen ((finished_iff (h.well hf).days).mpr fun t ht => ?_)
  rw [h.spec]
  exact Nat.le_trans ((finished_iff hf.days).mp hdone t (h.targets ▸ ht)) (h.grows hf t.id)

end Plans

section Passes

variable {p : Pass} {farm : Farm} {r r' : Round} {t : Target}

/-- What a pass over a plan has come to: its tracks are as they have to be, and what may still
be started goes with what is in flight. -/
structure Round.Fine (farm : Farm) (r : Round) : Prop where
  tended : Tended farm.spec farm.targets r.tracks
  room : r.room + flying r.tracks ≤ farm.spec.atOnce

/-- From one round to a later one of the same plan. -/
structure Round.Goes (farm : Farm) (r r' : Round) : Prop where
  /-- It is as it has to be if it was. -/
  fine : r.Fine farm → r'.Fine farm
  grows : r.Fine farm → ∀ profile,
    (trackIn r.tracks profile).daysDone ≤ (trackIn r'.tracks profile).daysDone
  /-- More was done, all of it of this plan, and it goes with the tracks. -/
  more : ∃ more, r'.log = r.log ++ more ∧ (∀ rec ∈ more, rec.farm = farm.id) ∧
    ∀ log, r.Fine farm → Told farm.spec farm.id (log ++ r.log) r.tracks →
      Told farm.spec farm.id (log ++ r'.log) r'.tracks

theorem Round.Goes.refl (farm : Farm) (r : Round) : r.Goes farm r where
  fine h := h
  grows _ _ := Nat.le_refl _
  more := ⟨[], (List.append_nil _).symm, nofun, fun _ _ h => h⟩

theorem Round.Goes.trans {r'' : Round} (h : r.Goes farm r') (h' : r'.Goes farm r'') :
    r.Goes farm r'' where
  fine hr := h'.fine (h.fine hr)
  grows hr profile := Nat.le_trans (h.grows hr profile) (h'.grows (h.fine hr) profile)
  more := by
    obtain ⟨more, hlog, hof, htold⟩ := h.more
    obtain ⟨more', hlog', hof', htold'⟩ := h'.more
    refine ⟨more ++ more', by rw [hlog', hlog, List.append_assoc], fun rec hrec => ?_, ?_⟩
    · exact (List.mem_append.mp hrec).elim (hof rec) (hof' rec)
    · exact fun log hr ht => htold' log (h.fine hr) (htold log hr ht)

/-- One of a plan's profiles is visited. -/
theorem goes_visit (h : Round.visit p farm r t = some r') (ht : t ∈ farm.targets) :
    r.Goes farm r' := by
  obtain ⟨v, hv, rfl⟩ := Option.map_eq_some_iff.mp h
  have hvisit : r.Fine farm → Visited farm.spec (trackIn r.tracks t.id) r.room v :=
    fun hr => visit_visited (hr.tended.soundIn t.id) hv
  refine ⟨fun hr => ⟨?_, ?_⟩, fun hr profile => ?_, _, rfl, fun rec hrec => ?_,
    fun log hr ht => ?_⟩
  · exact hr.tended.put (hvisit hr).sound ⟨t, ht, rfl⟩
  · have hput := flying_put t.id v.track hr.tended.keys
    have hbalance := (hvisit hr).balance
    have hroom := hr.room
    dsimp only
    omega
  · by_cases heq : profile = t.id
    · subst heq
      rw [trackIn_put_self]
      exact (hvisit hr).grows
    · rw [trackIn_put_of_ne heq]
  · obtain ⟨act, -, rfl⟩ := List.mem_map.mp hrec
    rfl
  · rw [← List.append_assoc]
    exact ht.put (hvisit hr).fits

/-- All of them are, one after the other. -/
theorem goes_visits {targets : List Target} (h : targets.foldlM (Round.visit p farm) r = some r')
    (ht : ∀ t ∈ targets, t ∈ farm.targets) : r.Goes farm r' := by
  induction targets generalizing r with
  | nil =>
    cases h
    exact .refl farm _
  | cons t rest ih =>
    rw [List.foldlM_cons] at h
    obtain ⟨mid, hmid, hrest⟩ := Option.bind_eq_some_iff.mp h
    exact (goes_visit hmid (ht t List.mem_cons_self)).trans
      (ih hrest fun u hu => ht u (List.mem_cons_of_mem _ hu))

/-- What was done of some plans goes with them. -/
def AllTold (log : List Record) (list : List Farm) : Prop :=
  ∀ f ∈ list, Told f.spec f.id log f.tracks

/-- From the plans and what was done to the plans later: they are the same plans, and what was
done besides was done of them. -/
structure Moved (list : List Farm) (log : List Record) (list' : List Farm)
    (log' : List Record) : Prop where
  onward : List.Forall₂ Onward list list'
  more : ∃ more, log' = log ++ more ∧ (∀ rec ∈ more, ∃ f ∈ list, rec.farm = f.id) ∧
    ∀ before, KeyUnique Farm.id list → (∀ f ∈ list, Well f) →
      AllTold (before ++ log) list → AllTold (before ++ log') list'

theorem stepFarm_onward {starts : List Start} {log : List Record} {rng : Rng} {farm' : Farm}
    (h : stepFarm p farm starts log rng = some (farm', r)) :
    Onward farm farm' ∧ ∃ more, r.log = log ++ more ∧ (∀ rec ∈ more, rec.farm = farm.id) ∧
      ∀ before, Well farm → Told farm.spec farm.id (before ++ log) farm.tracks →
        Told farm'.spec farm'.id (before ++ r.log) farm'.tracks := by
  unfold stepFarm at h
  split at h
  · cases h
    exact ⟨.refl farm, [], (List.append_nil _).symm, nofun, fun _ _ ht => ht⟩
  · obtain ⟨r', hvisits, heq⟩ := Option.map_eq_some_iff.mp h
    cases heq
    have hgoes := goes_visits hvisits fun t ht => ht
    have hfine : Well farm → Round.Fine farm
        ⟨farm.tracks, farm.spec.atOnce - farm.inFlight, starts, log, rng⟩ := fun hw =>
      ⟨hw.tended, by
        have hroom := hw.room
        unfold Farm.inFlight at hroom ⊢
        dsimp only
        omega⟩
    refine ⟨⟨rfl, rfl, rfl, fun hw => ?_, fun hw => hgoes.grows (hfine hw)⟩, ?_⟩
    · have hlast := hgoes.fine (hfine hw)
      refine ⟨hw.days, hlast.tended, ?_⟩
      have hroom := hlast.room
      unfold Farm.inFlight
      dsimp only
      omega
    · obtain ⟨more, hlog, hof, htold⟩ := hgoes.more
      exact ⟨more, hlog, hof, fun before hw ht => htold before (hfine hw) ht⟩

theorem stepAll_moved {list : List Farm} {starts : List Start} {log : List Record} {rng : Rng}
    {done : Passed} (h : stepAll p list starts log rng = some done) :
    Moved list log done.list done.log := by
  induction list generalizing starts log rng done with
  | nil =>
    cases h
    exact ⟨.nil, [], (List.append_nil _).symm, nofun, fun _ _ _ ht => ht⟩
  | cons f rest ih =>
    obtain ⟨⟨f', r⟩, hfarm, hrest⟩ := Option.bind_eq_some_iff.mp h
    obtain ⟨after, hafter, rfl⟩ := Option.map_eq_some_iff.mp hrest
    obtain ⟨hf, more, hlog, hof, htold⟩ := stepFarm_onward hfarm
    obtain ⟨hall, more', hlog', hof', htold'⟩ := ih hafter
    refine ⟨.cons hf hall, more ++ more', ?_, fun rec hrec => ?_, ?_⟩
    · rw [hlog', hlog, List.append_assoc]
    · rcases List.mem_append.mp hrec with hrec | hrec
      · exact ⟨f, List.mem_cons_self, hof rec hrec⟩
      · obtain ⟨g, hg, heq⟩ := hof' rec hrec
        exact ⟨g, List.mem_cons_of_mem _ hg, heq⟩
    · intro before hids hwell ht
      obtain ⟨hne, hids'⟩ := List.nodup_cons.mp hids
      have hapart : ∀ g ∈ rest, g.id ≠ f.id := fun g hg heq =>
        hne (List.mem_map.mpr ⟨g, hg, heq⟩)
      -- what this plan did is nothing to the others, and then what they did nothing to it
      have hothers : AllTold (before ++ r.log) rest := by
        intro g hg
        rw [hlog, ← List.append_assoc]
        refine (ht g (List.mem_cons_of_mem _ hg)).other fun rec hrec heq => ?_
        exact hapart g hg (heq.symm.trans (hof rec hrec))
      intro g hg
      rcases List.mem_cons.mp hg with rfl | hg
      · have hself := htold before (hwell f List.mem_cons_self) (ht f List.mem_cons_self)
        dsimp only
        rw [hlog', ← List.append_assoc]
        refine hself.other fun rec hrec heq => ?_
        obtain ⟨e, he, hrec'⟩ := hof' rec hrec
        exact hapart e he ((hrec'.symm.trans heq).trans hf.id)
      · exact htold' before hids' (fun e he => hwell e (List.mem_cons_of_mem _ he)) hothers g hg

/-- Something is so of every track of some plans. -/
def TrackWise (P : String → String → Track → Prop) (list : List Farm) : Prop :=
  ∀ f ∈ list, ∀ profile, P f.id profile (trackIn f.tracks profile)

/-- What every visit keeps, a pass keeps; and what is so of everything that a visit does is so of
everything that a pass does. -/
theorem stepAll_trackWise {P : String → String → Track → Prop} {A : Record → Prop}
    (hvisit : ∀ (farm : Farm) t track room rng v, P farm.id t.id track →
      visit p farm.spec t track room rng = some v →
      P farm.id t.id v.track ∧ ∀ act ∈ v.acts, A ⟨farm.id, t.id, act⟩)
    {list : List Farm} {starts : List Start} {log : List Record} {rng : Rng} {done : Passed}
    (h : stepAll p list starts log rng = some done) (hlist : TrackWise P list) :
    TrackWise P done.list ∧ ∃ more, done.log = log ++ more ∧ ∀ rec ∈ more, A rec := by
  have hvisits : ∀ (farm : Farm) (targets : List Target) (r r' : Round),
      (∀ profile, P farm.id profile (trackIn r.tracks profile)) →
      targets.foldlM (Round.visit p farm) r = some r' →
      (∀ profile, P farm.id profile (trackIn r'.tracks profile)) ∧
        ∃ more, r'.log = r.log ++ more ∧ ∀ rec ∈ more, A rec := by
    intro farm targets
    induction targets with
    | nil =>
      intro r r' hr hfold
      cases hfold
      exact ⟨hr, [], (List.append_nil _).symm, nofun⟩
    | cons t rest ih =>
      intro r r' hr hfold
      rw [List.foldlM_cons] at hfold
      obtain ⟨mid, hmid, hrest⟩ := Option.bind_eq_some_iff.mp hfold
      obtain ⟨v, hv, rfl⟩ := Option.map_eq_some_iff.mp hmid
      obtain ⟨htrack, hacts⟩ := hvisit farm t _ _ _ v (hr t.id) hv
      have hmid' : ∀ profile, P farm.id profile
          (trackIn (put Prod.fst (t.id, v.track) r.tracks) profile) := by
        intro profile
        by_cases heq : profile = t.id
        · rw [heq, trackIn_put_self]
          exact htrack
        · rw [trackIn_put_of_ne heq]
          exact hr profile
      obtain ⟨hlast, more, hlog, hmore⟩ := ih _ _ hmid' hrest
      refine ⟨hlast, _, hlog.trans (List.append_assoc _ _ _), fun rec hrec => ?_⟩
      rcases List.mem_append.mp hrec with hrec | hrec
      · obtain ⟨act, hact, rfl⟩ := List.mem_map.mp hrec
        exact hacts act hact
      · exact hmore rec hrec
  induction list generalizing starts log rng done with
  | nil =>
    cases h
    exact ⟨nofun, [], (List.append_nil _).symm, nofun⟩
  | cons f rest ih =>
    obtain ⟨⟨f', r⟩, hfarm, hrest⟩ := Option.bind_eq_some_iff.mp h
    obtain ⟨after, hafter, rfl⟩ := Option.map_eq_some_iff.mp hrest
    have hf : (∀ profile, P f'.id profile (trackIn f'.tracks profile)) ∧
        ∃ more, r.log = log ++ more ∧ ∀ rec ∈ more, A rec := by
      have hself := hlist f List.mem_cons_self
      unfold stepFarm at hfarm
      split at hfarm
      · cases hfarm
        exact ⟨hself, [], (List.append_nil _).symm, nofun⟩
      · obtain ⟨r', hfold, heq⟩ := Option.map_eq_some_iff.mp hfarm
        cases heq
        exact hvisits f _ _ _ hself hfold
    obtain ⟨hall, more', hlog', hmore'⟩ := ih hafter fun g hg => hlist g (List.mem_cons_of_mem _ hg)
    obtain ⟨hhead, more, hlog, hmore⟩ := hf
    refine ⟨fun g hg => ?_, more ++ more', ?_, fun rec hrec => ?_⟩
    · rcases List.mem_cons.mp hg with rfl | hg
      · exact hhead
      · exact hall g hg
    · rw [← List.append_assoc, ← hlog]
      exact hlog'
    · exact (List.mem_append.mp hrec).elim (hmore rec) (hmore' rec)

end Passes

section Orders

/-- What holds of all plans. -/
structure Orderly (list : List Farm) : Prop where
  /-- Each has an id of its own. -/
  ids : KeyUnique Farm.id list
  /-- Each is as it has to be. -/
  well : ∀ f ∈ list, Well f
  /-- No profile is in two that are not finished. -/
  apart : list.Pairwise fun f g => ∀ profile, f.holds profile = true → g.holds profile = false

variable {list list' : List Farm} {log : List Record} {f g : Farm} {farm profile : String}

theorem Orderly.nil : Orderly [] := ⟨keyUnique_nil, nofun, .nil⟩

/-- What comes later comes of something. -/
theorem came_of {R : Farm → Farm → Prop} (h : List.Forall₂ R list list') (hg : g ∈ list') :
    ∃ f ∈ list, R f g := by
  induction h with
  | nil => cases hg
  | cons hfirst _ ih =>
    rcases List.mem_cons.mp hg with rfl | hg
    · exact ⟨_, List.mem_cons_self, hfirst⟩
    · obtain ⟨f, hf, hR⟩ := ih hg
      exact ⟨f, List.mem_cons_of_mem _ hf, hR⟩

theorem onward_ids (h : List.Forall₂ Onward list list') : list'.map Farm.id = list.map Farm.id := by
  induction h with
  | nil => rfl
  | cons hfirst _ ih => rw [List.map_cons, List.map_cons, hfirst.id, ih]

/-- Plans that come of plans in order are in order. -/
theorem Orderly.onward (ho : Orderly list) (h : List.Forall₂ Onward list list') :
    Orderly list' where
  ids := by
    unfold KeyUnique
    rw [onward_ids h]
    exact ho.ids
  well g hg := by
    obtain ⟨f, hf, hfg⟩ := came_of h hg
    exact hfg.well (ho.well f hf)
  apart := by
    obtain ⟨-, hwell, hapart⟩ := ho
    induction h with
    | nil => exact .nil
    | @cons f f' rest rest' hfirst hrest ih =>
      obtain ⟨hhead, htail⟩ := List.pairwise_cons.mp hapart
      have hwell' : ∀ e ∈ rest, Well e := fun e he => hwell e (List.mem_cons_of_mem _ he)
      refine List.pairwise_cons.mpr ⟨fun g' hg' profile hheld => ?_, ih hwell' htail⟩
      obtain ⟨g, hg, hgg⟩ := came_of hrest hg'
      have hnot := hhead g hg profile (hfirst.holds (hwell f List.mem_cons_self) hheld)
      cases hheld' : g'.holds profile with
      | false => rfl
      | true => rw [hgg.holds (hwell' g hg) hheld'] at hnot; cases hnot

/-- With ids of their own the first plan with an id is the only one. -/
theorem modifyFirst_id (h : KeyUnique Farm.id list) (change : Farm → Farm) :
    modifyFirst (fun f => f.id = farm) change list =
      updateWhere (fun f => f.id = farm) change list := by
  induction list with
  | nil => rfl
  | cons f rest ih =>
    by_cases hf : f.id = farm
    · subst hf
      have hrest : updateWhere (fun g => g.id = f.id) change rest = rest :=
        updateWhere_of_not h.tail_ne
      have hcons : updateWhere (fun g => g.id = f.id) change (f :: rest) =
          change f :: updateWhere (fun g => g.id = f.id) change rest := by
        simp [updateWhere]
      rw [hcons, hrest]
      simp [modifyFirst]
    · have hcons : updateWhere (fun g => g.id = farm) change (f :: rest) =
          f :: updateWhere (fun g => g.id = farm) change rest := by
        simp [updateWhere, hf]
      rw [hcons, ← ih h.tail]
      simp [modifyFirst, hf]

/-- One plan is changed, and what is done is done of it. -/
theorem changed_moved {change : Farm → Farm} {more : List Record} (ho : Orderly list)
    (honward : ∀ f ∈ list, f.id = farm → Onward f (change f))
    (hthere : more ≠ [] → ∃ f ∈ list, f.id = farm) (hof : ∀ rec ∈ more, rec.farm = farm)
    (htold : ∀ f ∈ list, f.id = farm → ∀ before, Told f.spec f.id before f.tracks →
      Told (change f).spec (change f).id (before ++ more) (change f).tracks) :
    Moved list log (modifyFirst (fun f => f.id = farm) change list) (log ++ more) := by
  rw [modifyFirst_id ho.ids]
  refine ⟨?_, more, rfl, fun rec hrec => ?_, fun before _ _ ht g hg => ?_⟩
  · refine List.forall₂_map_right_iff.mpr (List.forall₂_same.mpr fun f hf => ?_)
    by_cases hid : f.id = farm
    · simpa [hid] using honward f hf hid
    · simpa [hid] using Onward.refl f
  · obtain ⟨f, hf, hid⟩ := hthere (List.ne_nil_of_mem hrec)
    exact ⟨f, hf, (hof rec hrec).trans hid.symm⟩
  · rw [← List.append_assoc]
    rcases updateWhere_cases hg with ⟨hin, hid⟩ | ⟨f, hf, hid, rfl⟩
    · refine (ht g hin).other fun rec hrec heq => ?_
      simp [← heq, hof rec hrec] at hid
    · exact htold f hf (by simpa using hid) _ (ht f hf)

variable {old new : Track} {room : ℕ}

/-- The track that is found is the one of the plan with this id. -/
theorem trackOf_some (ho : Orderly list) (h : trackOf list farm profile = some old) :
    (∃ f ∈ list, f.id = farm) ∧ ∀ f ∈ list, f.id = farm →
      (profile, old) ∈ f.tracks ∧ trackIn f.tracks profile = old := by
  obtain ⟨f, hfind, htrack⟩ := Option.bind_eq_some_iff.mp h
  have hin := List.mem_of_find?_eq_some hfind
  have hid : f.id = farm := by simpa using List.find?_some hfind
  refine ⟨⟨f, hin, hid⟩, fun g hg hgid => ?_⟩
  obtain rfl := ho.ids.eq hg hin (hgid.trans hid.symm)
  obtain ⟨e, he, rfl⟩ := Option.map_eq_some_iff.mp htrack
  obtain ⟨hmem, rfl⟩ := lookup_some he
  exact ⟨hmem, trackIn_of_mem (ho.well g hg).tended.keys hmem⟩

/-- A track is changed as a visit may change it, with the room that its plan has. -/
theorem setTrack_moved (done : List Act) (ho : Orderly list)
    (h : trackOf list farm profile = some old)
    (hvisit : ∀ f ∈ list, f.id = farm → ∃ v, v.track = new ∧ v.acts = done ∧
      Visited f.spec old (f.spec.atOnce - f.inFlight) v) :
    Moved list log (setTrack list farm profile new)
      (log ++ done.map fun act => ⟨farm, profile, act⟩) := by
  obtain ⟨hthere, hfound⟩ := trackOf_some ho h
  refine changed_moved ho (fun f hf hid => ?_) (fun _ => hthere) (fun rec hrec => ?_)
    fun f hf hid before ht => ?_
  · obtain ⟨hmem, heq⟩ := hfound f hf hid
    obtain ⟨v, rfl, -, hv⟩ := hvisit f hf hid
    refine ⟨rfl, rfl, rfl, fun hw => ⟨hw.days, ?_, ?_⟩, fun _ other => ?_⟩
    · exact hw.tended.put hv.sound (hw.tended.ofTarget _ hmem)
    · have hput := flying_put profile v.track hw.tended.keys
      have hbalance := hv.balance
      have hroom := hw.room
      unfold Farm.inFlight at hroom hbalance ⊢
      rw [heq] at hput
      dsimp only at hbalance ⊢
      omega
    · by_cases hother : other = profile
      · subst hother
        rw [trackIn_put_self, heq]
        exact hv.grows
      · rw [trackIn_put_of_ne hother]
  · obtain ⟨act, -, rfl⟩ := List.mem_map.mp hrec
    rfl
  · obtain ⟨-, heq⟩ := hfound f hf hid
    obtain ⟨v, rfl, rfl, hv⟩ := hvisit f hf hid
    subst hid
    exact ht.put fun before hfits => hv.fits before (heq ▸ hfits)

theorem setTrack_quiet (ho : Orderly list) (h : trackOf list farm profile = some old)
    (hvisit : ∀ spec room, Sound spec old → ∃ v, v.track = new ∧ v.acts = [] ∧
      Visited spec old room v) : Moved list log (setTrack list farm profile new) log := by
  have hmoved : Moved list log (setTrack list farm profile new)
      (log ++ ([] : List Act).map fun act => ⟨farm, profile, act⟩) := by
    refine setTrack_moved [] ho h fun f hf hid => hvisit f.spec _ ?_
    exact (ho.well f hf).tended.sound _ ((trackOf_some ho h).2 f hf hid).1
  simpa using hmoved

/-- What stands beside the sessions of a track does not matter. -/
theorem Visited.beside {spec : Spec} {track : Track} {v : Visit} (h : Visited spec track room v)
    (sites : ℕ) (cookies : Option ℕ) (lastError stagePending : Option String) :
    Visited spec track room { v with
      track := { v.track with
        sites := sites
        cookies := cookies
        lastError := lastError
        stagePending := stagePending } } :=
  ⟨⟨h.sound.bound, h.sound.done, h.sound.current, h.sound.shut, h.sound.single⟩, h.fits,
    h.balance, h.grows⟩

variable (room) in
theorem visited_finish {spec : Spec} {track : Track} {i : ℕ} {s : Session} {o : Outcome}
    (h : Sound spec track) (hs : firstWhere Session.inFlight track.sessions = some (i, s)) :
    Visited spec track room ⟨track.finish i o, room + 1, [], none, []⟩ := by
  obtain ⟨hat, hfly⟩ := firstWhere_some hs
  refine ⟨h.finish hat hfly, fun acts hfits => ?_, ?_, Nat.le_refl _⟩
  · rw [List.append_nil, course_finish]
    exact hfits
  · have hcount := flights_finish (o := o) hat hfly
    dsimp only
    omega

/-- A report ends a session, if one is in flight. -/
theorem report_moved {last : Progress} (ho : Orderly list)
    (h : report list farm profile last = some list') : Moved list log list' log := by
  obtain ⟨old, htrack, hrest⟩ := Option.bind_eq_some_iff.mp h
  obtain ⟨new, hnew, heq⟩ := Option.bind_eq_some_iff.mp hrest
  cases heq
  obtain ⟨⟨i, s⟩, hs, rfl⟩ := Option.map_eq_some_iff.mp hnew
  refine setTrack_quiet ho htrack fun spec room hsound => ?_
  have hfinish := visited_finish room (o := last.outcome) hsound hs
  exact ⟨_, rfl, rfl, hfinish.beside (old.sites + last.done)
    (if 0 < last.cookiesNow then some last.cookiesNow else old.cookies) last.error
    old.stagePending⟩

theorem fail_moved {error : String} (ho : Orderly list)
    (h : fail list farm profile error = some list') : Moved list log list' log := by
  obtain ⟨old, htrack, heq⟩ := Option.bind_eq_some_iff.mp h
  cases heq
  refine setTrack_quiet ho htrack fun spec room hsound => ?_
  unfold Track.fail
  cases hs : firstWhere Session.inFlight old.sessions with
  | none =>
    have hrest : Visited spec old room ⟨old, room, [], none, []⟩ := .rest hsound
    exact ⟨_, rfl, rfl, hrest.beside old.sites old.cookies (some error) old.stagePending⟩
  | some found =>
    obtain ⟨i, s⟩ := found
    have hfinish := visited_finish room (o := .failed error) hsound hs
    exact ⟨_, rfl, rfl, hfinish.beside old.sites old.cookies (some error) old.stagePending⟩

theorem Moved.refl (list : List Farm) (log : List Record) : Moved list log list log :=
  ⟨List.forall₂_same.mpr fun f _ => .refl f, [], (List.append_nil _).symm, nofun,
    fun _ _ _ h => h⟩

theorem stageApplied_moved (ho : Orderly list) :
    Moved list log (stageApplied list farm profile) log := by
  unfold stageApplied
  cases htrack : trackOf list farm profile with
  | none => exact .refl list log
  | some old =>
    refine setTrack_quiet ho htrack fun spec room hsound => ?_
    have hrest : Visited spec old room ⟨old, room, [], none, []⟩ := .rest hsound
    exact ⟨_, rfl, rfl, hrest.beside old.sites old.cookies old.lastError none⟩

theorem pause_moved {paused : Bool} (ho : Orderly list) :
    Moved list log (pause list farm paused) log := by
  have hmoved : Moved list log (pause list farm paused) (log ++ []) :=
    changed_moved ho
      (fun f _ _ => ⟨rfl, rfl, rfl, fun h => ⟨h.days, h.tended, h.room⟩, fun _ _ => Nat.le_refl _⟩)
      (fun h => absurd rfl h) nofun
      fun f _ _ before ht => (List.append_nil before).symm ▸ ht
  rwa [List.append_nil] at hmoved

/-- What is due in a plan that has room: it is a team's, its first waiting session is due, none
is in flight and the profile is not open. -/
theorem mem_dueIn {nowMs : ℕ} {openIds : List String} {targets : List Target} {d : Due}
    (h : d ∈ dueIn f nowMs openIds targets room) :
    d.farmId = f.id ∧ room ≠ 0 ∧ openIds.contains d.profileId = false ∧
      ∃ track, f.track d.profileId = some track ∧ track.isDue nowMs = true := by
  induction targets generalizing room with
  | nil => cases h
  | cons t rest ih =>
    simp only [dueIn] at h
    split at h
    · cases h
    · rename_i hroom
      split at h
      · rename_i hdue
        obtain ⟨hwaits, hclosed⟩ := Bool.and_eq_true_iff.mp hdue
        rcases List.mem_cons.mp h with rfl | h
        · obtain ⟨track, htrack, hisDue⟩ := (Option.any_eq_true _ _).mp hwaits
          rw [Bool.not_eq_true'] at hclosed
          exact ⟨rfl, hroom, hclosed, track, htrack, hisDue⟩
        · obtain ⟨hid, -, hrest⟩ := ih h
          exact ⟨hid, hroom, hrest⟩
      · exact ih h

theorem due_of_claim {list list' : List Farm} {farm profile : String} {nowMs : ℕ}
    {openIds : List String} {plan : WarmPlan} {begun : Begun}
    (h : claim list farm profile nowMs openIds = some (list', plan, begun)) :
    ∃ d ∈ due list nowMs openIds, d.farmId = farm ∧ d.profileId = profile := by
  obtain ⟨_, hguard, -⟩ := Option.bind_eq_some_iff.mp h
  by_contra hnot
  have hnone : ¬((due list nowMs openIds).any
      fun d => d.farmId = farm && d.profileId = profile) = true := by
    intro hany
    obtain ⟨d, hd, hof⟩ := List.any_eq_true.mp hany
    obtain ⟨hfarm, hprofile⟩ := Bool.and_eq_true_iff.mp hof
    exact hnot ⟨d, hd, of_decide_eq_true hfarm, of_decide_eq_true hprofile⟩
  rw [guard, if_neg hnone] at hguard
  cases hguard

/-- What the shell gets: the first session that waits, which is due, of a plan that has room. -/
theorem claim_cases {nowMs : ℕ} {openIds : List String} {plan : WarmPlan} {begun : Begun}
    (ho : Orderly list)
    (h : claim list farm profile nowMs openIds = some (list', plan, begun)) :
    ∃ f ∈ list, f.id = farm ∧ f.inFlight < f.spec.atOnce ∧ ∃ track i s,
      trackOf list farm profile = some track ∧ track.flights = 0 ∧
      firstWhere Session.waiting track.sessions = some (i, s) ∧ s.atMs ≤ nowMs ∧
      list' = setTrack list farm profile (track.begin i nowMs) ∧
      begun = track.begun i s nowMs false := by
  obtain ⟨d, hd, hfarm, hprofile⟩ := due_of_claim h
  obtain ⟨_, -, h⟩ := Option.bind_eq_some_iff.mp h
  obtain ⟨f, hfind, h⟩ := Option.bind_eq_some_iff.mp h
  obtain ⟨track, htrack, h⟩ := Option.bind_eq_some_iff.mp h
  obtain ⟨⟨i, s⟩, hs, h⟩ := Option.bind_eq_some_iff.mp h
  cases h
  have hin := List.mem_of_find?_eq_some hfind
  have hid : f.id = farm := by simpa using List.find?_some hfind
  obtain ⟨g, hg, hdue⟩ := List.mem_flatMap.mp hd
  obtain ⟨hdid, hroom, hclosed, track', htrack', hisDue⟩ := mem_dueIn hdue
  rw [hfarm] at hdid
  rw [hprofile] at hclosed htrack'
  obtain rfl : g = f := ho.ids.eq (List.mem_filter.mp hg).1 hin (hdid.symm.trans hid.symm)
  obtain rfl : track = track' := Option.some.inj (htrack.symm.trans htrack')
  obtain ⟨hfirst, hidle⟩ := Bool.and_eq_true_iff.mp hisDue
  have hat : s.atMs ≤ nowMs := by
    rw [find?_eq_firstWhere, hs] at hfirst
    simpa using hfirst
  have hfly : track.flights = 0 :=
    List.countP_eq_zero.mpr fun u hu hfly => by
      have hnone : track.sessions.any Session.inFlight = false := by simpa using hidle
      rw [List.any_eq_true.mpr ⟨u, hu, hfly⟩] at hnone
      cases hnone
  refine ⟨g, hin, hid, by omega, track, i, s, ?_, hfly, hs, hat, rfl, by rw [hclosed]⟩
  simp [trackOf, hfind, htrack]

theorem claim_moved {nowMs : ℕ} {openIds : List String} {plan : WarmPlan} {begun : Begun}
    (ho : Orderly list)
    (h : claim list farm profile nowMs openIds = some (list', plan, begun)) :
    Moved list log list' (log ++ [⟨farm, profile, .started begun⟩]) := by
  obtain ⟨f, hf, hid, hroom, track, i, s, htrack, hfly, hs, -, rfl, rfl⟩ := claim_cases ho h
  obtain ⟨-, hwait⟩ := firstWhere_some hs
  refine setTrack_moved [_] ho htrack fun g hg hgid => ?_
  obtain rfl : g = f := ho.ids.eq hg hf (hgid.trans hid.symm)
  have hsound : Sound g.spec track :=
    (ho.well g hg).tended.sound _ ((trackOf_some ho htrack).2 g hg hid).1
  -- a session waits, so its day is open
  have hopen : track.day.isSome := by
    by_contra hnot
    have hended := hsound.shut (by simpa using hnot) s (List.mem_of_getElem? (firstWhere_some hs).1)
    simp [Session.waiting, Option.isNone_iff_eq_none] at hwait
    simp [hwait] at hended
  have hleft : track.daysDone < g.spec.days := by
    by_contra hnot
    simp [hsound.done (Nat.not_lt.mp hnot)] at hopen
  have hbegin : Visited g.spec track (g.spec.atOnce - g.inFlight)
      ⟨track.begin i nowMs, g.spec.atOnce - g.inFlight - 1,
        [.started (track.begun i s nowMs false)], none, []⟩ :=
    visited_begin hsound hopen hleft hfly hs (by omega)
  exact ⟨_, rfl, rfl, hbegin⟩

/-- A deletion leaves what it leaves in order. -/
theorem Orderly.delete (ho : Orderly list) : Orderly (delete list farm) where
  ids := ho.ids.sublist (List.filter_sublist.map _)
  well f hf := ho.well f (List.mem_filter.mp hf).1
  apart := ho.apart.sublist List.filter_sublist

/-- A track of a plan that is interrupted is interrupted. -/
theorem trackIn_interrupt (f : Farm) (profile : String) :
    trackIn f.interrupt.tracks profile = (trackIn f.tracks profile).interrupt := by
  unfold Farm.interrupt
  dsimp only
  induction f.tracks with
  | nil => rfl
  | cons e rest ih =>
    unfold trackIn lookup at ih ⊢
    by_cases he : e.1 = profile
    · simp [he]
    · simpa [he] using ih

/-- Nothing is in flight when the agent starts, and everything else is as it was. -/
theorem interrupt_moved : Moved list log (list.map Farm.interrupt) log := by
  refine ⟨List.forall₂_map_right_iff.mpr (List.forall₂_same.mpr fun f _ => ?_), [],
    (List.append_nil _).symm, nofun, fun before _ _ ht g hg profile => ?_⟩
  · refine ⟨rfl, rfl, rfl, fun hw => ⟨hw.days, ⟨?_, fun e he => ?_, fun e he => ?_⟩, ?_⟩,
      fun _ profile => ?_⟩
    · have hkeys := hw.tended.keys
      unfold KeyUnique at hkeys ⊢
      simpa [Farm.interrupt, Function.comp_def] using hkeys
    · obtain ⟨d, hd, rfl⟩ := List.mem_map.mp he
      exact (hw.tended.sound d hd).interrupt
    · obtain ⟨d, hd, rfl⟩ := List.mem_map.mp he
      exact hw.tended.ofTarget d hd
    · have hnone : f.interrupt.inFlight = 0 := by
        refine List.sum_eq_zero_iff_forall_eq_nat.mpr fun n hn => ?_
        obtain ⟨e, he, rfl⟩ := List.mem_map.mp hn
        obtain ⟨d, -, rfl⟩ := List.mem_map.mp he
        exact flights_interrupt
      omega
    · exact (congrArg Track.daysDone (trackIn_interrupt f profile)).symm ▸ Nat.le_refl _
  · obtain ⟨f, hf, rfl⟩ := List.mem_map.mp hg
    have hfits := ht f hf profile
    have hcourse := (congrArg Track.course (trackIn_interrupt f profile)).trans course_interrupt
    exact hcourse.symm ▸ hfits

end Orders

section Creation

variable {list list' : List Farm} {spec : Spec} {targets : List Target} {nowMs : ℕ}
  {id : String}

/-- A new plan, for profiles that are in no other, leaves everything in order. -/
theorem Orderly.create (ho : Orderly list) (hnew : ∀ f ∈ list, f.id ≠ id)
    (h : Farming.create list spec targets nowMs id = .ok list') : Orderly list' := by
  obtain ⟨hdays, hfree, urls, rfl⟩ := create_ok h
  refine ⟨?_, fun f hf => ?_, ?_⟩
  · unfold KeyUnique
    rw [List.map_append]
    refine List.nodup_append.mpr ⟨ho.ids, List.nodup_singleton _, ?_⟩
    rintro _ hin _ hlater rfl
    obtain ⟨f, hf, hid⟩ := List.mem_map.mp hin
    exact hnew f hf (hid.trans (List.mem_singleton.mp hlater))
  · rcases List.mem_append.mp hf with hf | hf
    · exact ho.well f hf
    · rw [List.mem_singleton.mp hf]
      exact ⟨hdays, ⟨keyUnique_nil, nofun, nofun⟩, Nat.zero_le _⟩
  · refine List.pairwise_append.mpr ⟨ho.apart, List.pairwise_singleton _ _, ?_⟩
    intro f hf g hg profile hheld
    rw [List.mem_singleton.mp hg]
    by_contra hnot
    obtain ⟨-, hof⟩ := Bool.and_eq_true_iff.mp (Bool.not_eq_false _ ▸ hnot)
    obtain ⟨t, ht, hid⟩ := List.any_eq_true.mp hof
    have hnone := hfree t ht f hf
    rw [of_decide_eq_true hid, hheld] at hnone
    cases hnone

end Creation

section Worlds

variable {β : Type} {fmt : PlansFormat β} {w : World β}

/-- What holds of the agent and of its disk. -/
structure Kept (fmt : PlansFormat β) (w : World β) : Prop where
  /-- The plans are in order. -/
  orderly : Orderly w.list
  /-- So are those on the disk. -/
  disk : ∀ list, w.onDisk fmt = some list → Orderly list
  known : ∀ f ∈ w.list, f.id ∈ w.ids
  /-- So were those on the disk. -/
  knownDisk : ∀ list, w.onDisk fmt = some list → ∀ f ∈ list, f.id ∈ w.ids
  /-- And those of which something was done. -/
  knownLog : ∀ rec ∈ w.log, rec.farm ∈ w.ids
  /-- What was done goes with the plans. -/
  told : w.intact = true → AllTold w.log w.list
  /-- Whatever was done of any plan was done in order. -/
  past : w.intact = true → ∀ farm profile, ∃ spec c, Fits spec (acts w.log farm profile) c

/-- Plans that come of the plans are kept. -/
theorem Kept.moved {list : List Farm} {log : List Record} (h : Kept fmt w)
    (hm : Moved w.list w.log list log) : Kept fmt { w with list := list, log := log } := by
  obtain ⟨more, rfl, hof, htold⟩ := hm.more
  have hids : ∀ f ∈ list, ∃ g ∈ w.list, g.id = f.id := fun f hf => by
    obtain ⟨g, hg, hgf⟩ := came_of hm.onward hf
    exact ⟨g, hg, hgf.id.symm⟩
  have htold' : w.intact = true → AllTold (w.log ++ more) list := fun hi =>
    htold [] h.orderly.ids h.orderly.well (h.told hi)
  refine ⟨h.orderly.onward hm.onward, h.disk, fun f hf => ?_, h.knownDisk, fun rec hrec => ?_,
    htold', fun hi farm profile => ?_⟩
  · obtain ⟨g, hg, hid⟩ := hids f hf
    exact hid ▸ h.known g hg
  · rcases List.mem_append.mp hrec with hrec | hrec
    · exact h.knownLog rec hrec
    · obtain ⟨f, hf, hid⟩ := hof rec hrec
      exact hid.symm ▸ h.known f hf
  · by_cases hthere : ∃ f ∈ list, f.id = farm
    · obtain ⟨f, hf, rfl⟩ := hthere
      exact ⟨_, _, htold' hi f hf profile⟩
    · have hnone : acts more farm profile = [] := acts_of_ne fun rec hrec hid => by
        obtain ⟨f, hf, hof'⟩ := hof rec hrec
        have hmem : f.id ∈ list.map Farm.id :=
          onward_ids hm.onward ▸ List.mem_map_of_mem hf
        obtain ⟨g, hg, hgid⟩ := List.mem_map.mp hmem
        exact hthere ⟨g, hg, hgid.trans (hof'.symm.trans hid)⟩
      dsimp only
      rw [acts_append, hnone, List.append_nil]
      exact h.past hi farm profile

theorem Kept.noted {farm : String} (profile : String) (day : Option ℤ) (index sites : ℕ)
    (h : Kept fmt w) (hfarm : farm ∈ w.ids) : Kept fmt { w with
      log := w.log ++ [⟨farm, profile, .reported day index sites⟩] } := by
  have hfits : ∀ spec c other who, Fits spec (acts w.log other who) c → Fits spec
      (acts (w.log ++ [⟨farm, profile, .reported day index sites⟩]) other who) c := by
    intro spec c other who hfits
    rw [acts_append]
    by_cases hof : farm = other ∧ profile = who
    · obtain ⟨rfl, rfl⟩ := hof
      have hself : acts [⟨farm, profile, .reported day index sites⟩] farm profile =
          [.reported day index sites] := acts_map [_]
      rw [hself]
      exact hfits.reported day index sites
    · have hnone : acts [⟨farm, profile, .reported day index sites⟩] other who = [] := by
        simpa [acts] using hof
      rw [hnone, List.append_nil]
      exact hfits
  refine ⟨h.orderly, h.disk, h.known, h.knownDisk, fun rec hrec => ?_, fun hi f hf who => ?_,
    fun hi other who => ?_⟩
  · rcases List.mem_append.mp hrec with hrec | hrec
    · exact h.knownLog rec hrec
    · rw [List.mem_singleton.mp hrec]
      exact hfarm
  · exact hfits _ _ _ _ (h.told hi f hf who)
  · obtain ⟨spec, c, hpast⟩ := h.past hi other who
    exact ⟨spec, c, hfits _ _ _ _ hpast⟩

theorem kept_new : Kept fmt (World.new fmt) where
  orderly := .nil
  disk list h := by simp [World.onDisk, World.new] at h
  known := nofun
  knownDisk list h := by simp [World.onDisk, World.new] at h
  knownLog := nofun
  told _ := nofun
  past _ farm profile := ⟨⟨"", [], 1, (0, 0), (0, 0), (0, 0), false, 0, false⟩, _, .new (by decide)⟩

theorem Kept.create {spec : Spec} {targets : List Target} {nowMs : ℕ} {id : String}
    {list : List Farm} (h : Kept fmt w) (hnew : id ∉ w.ids)
    (hcreate : Farming.create w.list spec targets nowMs id = .ok list) :
    Kept fmt { w with list := list, ids := id :: w.ids } := by
  have hne : ∀ f ∈ w.list, f.id ≠ id := fun f hf heq => hnew (heq ▸ h.known f hf)
  have horderly := h.orderly.create hne hcreate
  obtain ⟨hdays, -, urls, rfl⟩ := create_ok hcreate
  have hmore : ∀ {id'}, id' ∈ w.ids → id' ∈ id :: w.ids := List.mem_cons_of_mem _
  refine ⟨horderly, h.disk, fun f hf => ?_, fun l hl f hf => hmore (h.knownDisk l hl f hf),
    fun rec hrec => hmore (h.knownLog rec hrec), fun hi f hf profile => ?_, h.past⟩
  · rcases List.mem_append.mp hf with hf | hf
    · exact hmore (h.known f hf)
    · rw [List.mem_singleton.mp hf]
      exact List.mem_cons_self
  · rcases List.mem_append.mp hf with hf | hf
    · exact h.told hi f hf profile
    · rw [List.mem_singleton.mp hf]
      -- nothing was done of it yet, as its id is new
      have hnone : acts w.log id profile = [] := acts_of_ne fun rec hrec heq =>
        hnew (heq ▸ h.knownLog rec hrec)
      dsimp only
      rw [hnone]
      exact .new hdays

theorem Kept.delete {id : String} (h : Kept fmt w) :
    Kept fmt { w with list := Farming.delete w.list id } where
  orderly := h.orderly.delete
  disk := h.disk
  known f hf := h.known f (List.mem_filter.mp hf).1
  knownDisk := h.knownDisk
  knownLog := h.knownLog
  told hi f hf := h.told hi f (List.mem_filter.mp hf).1
  past := h.past

variable [DecidableEq β] {wrote : Wrote β}

/-- A write keeps what is kept, however it goes. -/
theorem Kept.save (h : Kept fmt w) : Kept fmt (w.save fmt wrote) := by
  have hdisk : ∀ list, (w.save fmt wrote).onDisk fmt = some list →
      w.onDisk fmt = some list ∨ list = w.list := by
    intro list hlist
    have hcases : (w.save fmt wrote).onDisk fmt = w.onDisk fmt ∨
        (w.save fmt wrote).onDisk fmt = some w.list := World.save_onDisk
    rcases hcases with heq | heq
    · exact .inl (heq ▸ hlist)
    · exact .inr (Option.some.inj (hlist.symm.trans heq))
  refine ⟨?_, fun list hlist => ?_, ?_, fun list hlist => ?_, ?_, ?_, ?_⟩
  · rw [World.save_list]
    exact h.orderly
  · rcases hdisk list hlist with hlist | rfl
    · exact h.disk list hlist
    · exact h.orderly
  · rw [World.save_list, World.save_ids]
    exact h.known
  · rw [World.save_ids]
    rcases hdisk list hlist with hlist | rfl
    · exact h.knownDisk list hlist
    · exact h.known
  · rw [World.save_log, World.save_ids]
    exact h.knownLog
  · rw [World.save_log, World.save_list, World.save_intact]
    exact h.told
  · rw [World.save_log, World.save_intact]
    exact h.past

theorem Kept.load {readable : Bool} (h : Kept fmt w) : Kept fmt { w with
    list := (w.found fmt readable).map Farm.interrupt
    written := w.raw fmt readable
    intact := w.intact && decide (w.found fmt readable = w.list) } := by
  have hfound : Orderly (w.found fmt readable) ∧ ∀ f ∈ w.found fmt readable, f.id ∈ w.ids := by
    rcases World.found_cases fmt w readable with hd | hnil
    · exact ⟨h.disk _ hd, h.knownDisk _ hd⟩
    · rw [hnil]
      exact ⟨.nil, nofun⟩
  have hmoved : ∀ log, Moved (w.found fmt readable) log
    ((w.found fmt readable).map Farm.interrupt) log := fun log => interrupt_moved
  refine ⟨hfound.1.onward (hmoved []).onward, h.disk, fun f hf => ?_, h.knownDisk, h.knownLog,
    fun hi => ?_, fun hi => h.past (Bool.and_eq_true_iff.mp hi).1⟩
  · obtain ⟨g, hg, rfl⟩ := List.mem_map.mp hf
    exact hfound.2 g hg
  · obtain ⟨hintact, hsame⟩ := Bool.and_eq_true_iff.mp hi
    have htold := h.told hintact
    rw [← of_decide_eq_true hsame] at htold
    obtain ⟨more, hlog, -, hnext⟩ := (hmoved w.log).more
    exact hnext [] hfound.1.ids hfound.1.well htold

/-- Whatever is asked of the plans, they are kept. -/
theorem kept_step : Preserved (World.step fmt) anyStep (Kept fmt) := by
  intro w label t hw _ hstep
  obtain ⟨u, saves, hafter, ht⟩ := World.step_cases hstep
  have hu : Kept fmt u := by
    obtain ⟨op, wrote⟩ := label
    cases op with
    | create spec targets nowMs id =>
      cases hcreate : Farming.create w.list spec targets nowMs id with
      | error e =>
        simp only [World.after, hcreate] at hafter
        cases hafter
        exact hw
      | ok list =>
        simp only [World.after, hcreate] at hafter
        split at hafter
        · cases hafter
        · rename_i hnew
          cases hafter
          exact hw.create hnew hcreate
    | step pass rng =>
      obtain ⟨r, hr, heq⟩ := Option.map_eq_some_iff.mp hafter
      cases heq
      obtain ⟨honward, more, hlog, hof, htold⟩ := stepAll_moved hr
      refine hw.moved ⟨honward, more, congrArg _ hlog, hof, fun before hids hwell ht => ?_⟩
      rw [← List.append_assoc]
      exact htold _ hids hwell (by simpa using ht)
    | claim farm profile nowMs openIds =>
      cases hclaim : Farming.claim w.list farm profile nowMs openIds with
      | none =>
        simp only [World.after, hclaim] at hafter
        cases hafter
        exact hw
      | some taken =>
        obtain ⟨list, plan, begun⟩ := taken
        simp only [World.after, hclaim] at hafter
        cases hafter
        exact hw.moved (claim_moved hw.orderly hclaim)
    | report farm profile begun last =>
      simp only [World.after] at hafter
      split at hafter
      · rename_i hrun
        have hnoted := Kept.noted profile begun.day begun.index last.done hw
          (hw.knownLog _ hrun)
        cases hreport : Farming.report w.list farm profile last with
        | none =>
          simp only [hreport] at hafter
          cases hafter
          exact hnoted
        | some list =>
          simp only [hreport] at hafter
          cases hafter
          exact hnoted.moved (report_moved hw.orderly hreport)
      · cases hafter
    | fail farm profile error =>
      cases hfail : Farming.fail w.list farm profile error with
      | none =>
        simp only [World.after, hfail] at hafter
        cases hafter
        exact hw
      | some list =>
        simp only [World.after, hfail] at hafter
        cases hafter
        exact hw.moved (fail_moved hw.orderly hfail)
    | pause id paused =>
      cases hafter
      exact hw.moved (pause_moved hw.orderly)
    | delete id =>
      cases hafter
      exact hw.delete
    | stageApplied farm profile =>
      cases hafter
      exact hw.moved (stageApplied_moved hw.orderly)
    | load readable =>
      cases hafter
      exact hw.load
  rcases ht with rfl | rfl
  · exact hu
  · exact hu.save

end Worlds

section Results

variable {β : Type} [DecidableEq β] {fmt : PlansFormat β} {w : World β}

/-- How many sessions of a profile are in flight, of whatever plan. -/
def flightsOf (list : List Farm) (profile : String) : ℕ :=
  (list.map fun f => (trackIn f.tracks profile).flights).sum

/-- What is so of what was done. -/
structure Recorded (list : List Farm) (log : List Record) : Prop where
  /-- No session was started twice. -/
  startedOnce : ∀ farm profile,
    ((startedSessions (acts log farm profile)).map Begun.place).Nodup
  /-- None was started on a profile that was open. -/
  free : ∀ farm profile, ∀ b ∈ startedSessions (acts log farm profile), b.wasOpen = false
  /-- The days that were planned for a profile come one after the other. -/
  inOrder : ∀ farm profile, (plannedDays (acts log farm profile)).Pairwise (· < ·)
  /-- Each was counted once at most. -/
  once : ∀ farm profile, (countedDays (acts log farm profile)).Nodup ∧
    ∀ day ∈ countedDays (acts log farm profile), ∃ d ∈ plannedDays (acts log farm profile),
      day = some d
  /-- The days that are done are those that were counted. -/
  total : ∀ f ∈ list, ∀ profile,
    (countedDays (acts log f.id profile)).length = (trackIn f.tracks profile).daysDone
  /-- The stage was asked for once at most. -/
  readyOnce : ∀ farm profile, readyAsked (acts log farm profile) ≤ 1
  /-- It was when all days were done, if the plan sets it. -/
  ready : ∀ f ∈ list, ∀ profile, readyAsked (acts log f.id profile) =
    if f.spec.days ≤ (trackIn f.tracks profile).daysDone ∧ f.spec.setStage = true then 1 else 0

/-- A profile with a session in flight is in a plan that is not finished. -/
theorem Well.holds {f : Farm} (h : Well f) {profile : String}
    (hfly : (trackIn f.tracks profile).flights ≠ 0) : f.holds profile = true := by
  rcases trackIn_cases f.tracks profile with hin | hnew
  · obtain ⟨t, ht, hid⟩ := h.tended.ofTarget _ hin
    dsimp only at hid
    refine Bool.and_eq_true_iff.mpr ⟨?_, List.any_eq_true.mpr ⟨t, ht, decide_eq_true hid⟩⟩
    rw [Bool.not_eq_true', Bool.eq_false_iff]
    intro hdone
    have hsound := h.tended.soundIn profile
    have hdays := (finished_iff h.days).mp hdone t ht
    rw [hid] at hdays
    have hended := hsound.shut (hsound.done hdays)
    exact hfly (List.countP_eq_zero.mpr fun s hs => by
      simp [Session.not_inFlight_of_ended (hended s hs)])
  · rw [hnew] at hfly
    exact absurd rfl hfly

theorem Orderly.single {list : List Farm} (h : Orderly list) (profile : String) :
    flightsOf list profile ≤ 1 := by
  obtain ⟨-, hwell, hapart⟩ := h
  induction list with
  | nil => exact Nat.zero_le _
  | cons f rest ih =>
    obtain ⟨hhead, htail⟩ := List.pairwise_cons.mp hapart
    have hrest := ih (fun g hg => hwell g (List.mem_cons_of_mem _ hg)) htail
    have hone := ((hwell f List.mem_cons_self).tended.soundIn profile).single
    by_cases hfly : (trackIn f.tracks profile).flights = 0
    · simpa [flightsOf, hfly] using hrest
    · have hheld := (hwell f List.mem_cons_self).holds hfly
      have hnone : flightsOf rest profile = 0 := by
        refine List.sum_eq_zero_iff_forall_eq_nat.mpr fun n hn => ?_
        obtain ⟨g, hg, rfl⟩ := List.mem_map.mp hn
        by_contra hflies
        have hnot := hhead g hg profile hheld
        rw [(hwell g (List.mem_cons_of_mem _ hg)).holds hflies] at hnot
        cases hnot
      have hsum : flightsOf (f :: rest) profile =
          (trackIn f.tracks profile).flights + flightsOf rest profile := rfl
      omega

end Results

end FuryBrowser.Farming
