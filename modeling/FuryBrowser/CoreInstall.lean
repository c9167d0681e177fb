import FuryBrowser.GuardedRuns

/-!
# Installing a core

A core is unpacked beside the one that is there, run once, and then takes its place: the old one is
moved aside, the new one is moved in, and the old one is removed. A core that an earlier version
installed is moved to where it is looked for now when one is looked for. Any of this may fail or
end half way, and the next install or start goes on from what is left.
-/

namespace FuryBrowser.CoreInstall

open GuardedRuns

/-- What matters of the trees that directories hold. -/
structure Trees (T : Type) where
  /-- A directory with nothing in it. -/
  empty : T
  /-- A core is found in it, and starts. -/
  complete : T → Bool
  /-- None is in an empty one. -/
  complete_empty : complete empty = false

/-- The directories that a core goes through. -/
structure Disk (T : Type) where
  /-- `legacy_core_dir`. -/
  legacy : Option T
  /-- `core_dir`. -/
  dest : Option T
  /-- The old core, moved aside. -/
  previous : Option T
  /-- The new one, while it is unpacked. -/
  incoming : Option T
  deriving DecidableEq, Repr

/-- How far `install` is. -/
inductive Point
  | idle
  /-- It removes what another one left. -/
  | clearing
  /-- It makes the staging directory. -/
  | creating
  | filling
  /-- It looks for the core and runs it. -/
  | checking
  /-- It removes an old core that was left aside. -/
  | dropping
  /-- It moves the old core aside, if there is one. -/
  | aside
  /-- It makes the directory above, and has moved one aside or not. -/
  | parent (moved : Bool)
  /-- It moves the new one in. -/
  | placing (moved : Bool)
  /-- It removes the old one. -/
  | tidying
  /-- It writes down which release it was. -/
  | recording
  deriving DecidableEq, Repr

/-- How a step ends. What it leaves of the directory it works on is given where it may be
anything. -/
inductive Outcome (T : Type)
  | done
  | failed (rest : Option T)
  | killed (rest : Option T)
  deriving DecidableEq, Repr

/-- What happens next. -/
inductive Label (T : Type)
  /-- A core is looked for, and moving a legacy one works or does not. -/
  | start (moves : Bool)
  /-- `install`, with a source that is there. -/
  | install
  /-- The source has been unpacked, to this. -/
  | unpacked (tree : T)
  | runs (o : Outcome T)
  deriving DecidableEq, Repr

/-- The disk, the install under way, and the complete core that was put in place last. -/
structure World (T : Type) where
  disk : Disk T
  point : Point
  kept : Option T
  deriving DecidableEq, Repr

variable {T : Type}

section Steps

variable (trees : Trees T)

/-- `migrate_legacy_dir`, when the rename works. -/
def Disk.migrate (disk : Disk T) : Disk T :=
  if disk.legacy.isSome ∧ disk.dest = none then { disk with legacy := none, dest := disk.legacy }
  else disk

/-- What a removal that does not end leaves: nothing where there was nothing. -/
def remainder (there rest : Option T) : Option T := if there.isSome then rest else none

/-- A rename to a place is refused if something is there, other than an empty directory. -/
def free [DecidableEq T] (there : Option T) : Bool := there = none || there = some trees.empty

/-- One step of `install`. -/
def World.runs [DecidableEq T] (w : World T) : Outcome T → Option (World T)
  | .done =>
    match w.point with
    | .clearing => some { w with disk.incoming := none, point := .creating }
    | .creating => some { w with disk.incoming := some trees.empty, point := .filling }
    | .checking => if w.disk.incoming.any trees.complete then some { w with point := .dropping }
      else none
    | .dropping => some { w with disk.previous := none, point := .aside }
    | .aside =>
      if w.disk.dest = none then some { w with point := .parent false }
      else if free trees w.disk.previous then
        some { w with disk.previous := w.disk.dest, disk.dest := none, point := .parent true }
      else none
    | .parent moved => some { w with point := .placing moved }
    | .placing _ =>
      if free trees w.disk.dest then
        some { w with disk.dest := w.disk.incoming, disk.incoming := none, point := .tidying,
                      kept := w.disk.incoming }
      else none
    | .tidying => some { w with disk.previous := none, point := .recording }
    | .recording => some { w with point := .idle }
    | .idle | .filling => none
  | .failed rest =>
    match w.point with
    | .clearing => some { w with disk.incoming := remainder w.disk.incoming rest, point := .idle }
    | .creating | .filling => some { w with disk.incoming := rest, point := .idle }
    -- These two failures are not looked at.
    | .dropping => some { w with disk.previous := remainder w.disk.previous rest, point := .aside }
    | .tidying =>
      some { w with disk.previous := remainder w.disk.previous rest, point := .recording }
    | .checking | .aside | .parent _ | .placing _ | .recording => some { w with point := .idle }
    | .idle => none
  | .killed rest =>
    match w.point with
    | .clearing => some { w with disk.incoming := remainder w.disk.incoming rest, point := .idle }
    | .creating | .filling => some { w with disk.incoming := rest, point := .idle }
    | .dropping | .tidying =>
      some { w with disk.previous := remainder w.disk.previous rest, point := .idle }
    | .checking | .aside | .parent _ | .placing _ | .recording => some { w with point := .idle }
    | .idle => none

/-- One step. -/
def step [DecidableEq T] (w : World T) : Label T → Option (World T)
  | .start moves =>
    if w.point = .idle then some (if moves then { w with disk := w.disk.migrate } else w) else none
  | .install => if w.point = .idle then some { w with point := .clearing } else none
  | .unpacked tree =>
    if w.point = .filling then some { w with disk.incoming := some tree, point := .checking }
    else none
  | .runs o => w.runs trees o

/-- The complete core that a disk has: the one in place, or one that may be put there. -/
def Disk.kept (disk : Disk T) : Option T :=
  (disk.dest.filter trees.complete).or
    ((disk.legacy.filter trees.complete).or (disk.previous.filter trees.complete))

/-- Any disk may be there at first. -/
def Start (w : World T) : Prop := w.point = .idle ∧ w.kept = w.disk.kept trees

end Steps

section Property

/-- The core that was put in place last is there or aside, and with no install under way it is in
place, or is put there when a core is looked for. -/
structure Safe (w : World T) : Prop where
  /-- It has not been removed. -/
  held : ∀ c ∈ w.kept, c ∈ w.disk.dest ∨ c ∈ w.disk.previous ∨ c ∈ w.disk.legacy
  /-- It is where it is looked for. -/
  found : w.point = .idle → ∀ c ∈ w.kept, c ∈ w.disk.migrate.dest

variable (trees : Trees T)

/-- A disk with a complete core in place, with a legacy one that can be moved there, or with
none at all. -/
def Sound (disk : Disk T) : Prop :=
  disk.dest.any trees.complete ∨ (disk.dest = none ∧ disk.legacy.any trees.complete) ∨
    disk.kept trees = none

/-- A run that starts with such a disk. -/
def SoundStart (w : World T) : Prop := Start trees w ∧ Sound trees w.disk

/-- Whether a label ends an install early. -/
def interrupts : Label T → Bool
  | .runs (.failed _) | .runs (.killed _) => true
  | _ => false

/-- Whether the old core has been moved aside and the new one is not in place yet. -/
def between : Point → Bool
  | .parent moved | .placing moved => moved
  | _ => false

/-- No install ends early while a complete core is aside and none in place. -/
def Guard (w : World T) (label : Label T) : Prop :=
  between w.point → interrupts label → w.disk.previous.any trees.complete = false

instance (w : World T) (label : Label T) : Decidable (Guard trees w label) :=
  inferInstanceAs (Decidable (_ → _ → _))

end Property

end FuryBrowser.CoreInstall

/-!
## The core that is kept

As long as no install ends between the moment it moves a complete core aside and the moment the new
one is in its place, the core that was put in place last is never removed, and is found whenever
none is being installed. An install that does end there leaves the core aside, where nothing looks
for it and the next install removes it first.
-/

namespace FuryBrowser.CoreInstall

open GuardedRuns

variable {T : Type} {trees : Trees T}

section Places

variable {disk : Disk T} {c : T}

/-- A core that is looked for is found in place, or moved there. -/
theorem mem_migrate_dest :
    c ∈ disk.migrate.dest ↔ c ∈ disk.dest ∨ disk.dest = none ∧ c ∈ disk.legacy := by
  unfold Disk.migrate
  cases hdest : disk.dest with
  | some d => simp [hdest]
  | none => cases disk.legacy <;> simp [hdest]

/-- A disk's complete core is complete. -/
theorem kept_complete (h : c ∈ disk.kept trees) : trees.complete c := by
  simp only [Disk.kept, Option.mem_def, Option.or_eq_some_iff, Option.filter_eq_some_iff] at h
  rcases h with ⟨-, hc⟩ | ⟨-, ⟨-, hc⟩ | ⟨-, -, hc⟩⟩ <;> exact hc

/-- It is the one in place, if that is complete. -/
theorem kept_of_dest (h : disk.dest.any trees.complete) : disk.kept trees = disk.dest := by
  cases hdest : disk.dest with
  | none => simp [hdest] at h
  | some d =>
    have hcomplete : trees.complete d := by simpa [hdest] using h
    simp [Disk.kept, hdest, Option.filter_some, hcomplete]

/-- With none in place, it is the legacy one. -/
theorem kept_of_legacy (hnone : disk.dest = none) (h : disk.legacy.any trees.complete) :
    disk.kept trees = disk.legacy := by
  cases hlegacy : disk.legacy with
  | none => simp [hlegacy] at h
  | some d =>
    have hcomplete : trees.complete d := by simpa [hlegacy] using h
    simp [Disk.kept, hnone, hlegacy, Option.filter_some, hcomplete]

end Places

section Invariant

/-- Whether what has been unpacked has been checked and is not in place yet. -/
def checked : Point → Bool
  | .dropping | .aside | .parent _ | .placing _ => true
  | _ => false

/-- What holds between the steps of any such run. -/
structure Inv (trees : Trees T) (w : World T) : Prop where
  /-- The core that is kept is complete. -/
  complete : ∀ c ∈ w.kept, trees.complete c
  /-- It is in place or can be moved there, unless it is aside. -/
  found : between w.point = false → ∀ c ∈ w.kept, c ∈ w.disk.migrate.dest
  aside : between w.point → ∀ c ∈ w.kept, c ∈ w.disk.previous
  /-- What has been checked is complete. -/
  checked : checked w.point → w.disk.incoming.any trees.complete

variable {w t : World T}

/-- A step that leaves the core where it is looked for alone. -/
theorem Inv.elsewhere (hw : Inv trees w) (hdest : t.disk.dest = w.disk.dest)
    (hlegacy : t.disk.legacy = w.disk.legacy) (hkept : t.kept = w.kept)
    (hsame : between t.point → between w.point ∧ t.disk.previous = w.disk.previous)
    (hback : between t.point = false → between w.point = false ∨ w.kept = none)
    (hchecked : CoreInstall.checked t.point → t.disk.incoming.any trees.complete) :
    Inv trees t := by
  refine ⟨hkept ▸ hw.complete, fun h c hc => ?_, fun h c hc => ?_, hchecked⟩
  · rw [hkept] at hc
    rcases hback h with hquiet | hnone
    · rw [mem_migrate_dest, hdest, hlegacy, ← mem_migrate_dest]
      exact hw.found hquiet c hc
    · rw [hnone] at hc
      cases hc
  · rw [hkept] at hc
    rw [(hsame h).2]
    exact hw.aside (hsame h).1 c hc

/-- When a complete core is aside, no install ends early. -/
theorem Inv.interrupted (hw : Inv trees w) {o : Outcome T} (hg : Guard trees w (.runs o))
    (ho : interrupts (.runs o)) : between w.point = false ∨ w.kept = none := by
  cases hbetween : between w.point with
  | false => exact .inl rfl
  | true =>
    right
    refine Option.eq_none_iff_forall_ne_some.mpr fun c hc => ?_
    have hnone := hg hbetween ho
    rw [hw.aside hbetween c hc, Option.any_some, hw.complete c hc] at hnone
    cases hnone

/-- An install that ends leaves the core where it is. -/
theorem Inv.ends (hw : Inv trees w) (hback : between w.point = false ∨ w.kept = none)
    (hdest : t.disk.dest = w.disk.dest) (hlegacy : t.disk.legacy = w.disk.legacy)
    (hkept : t.kept = w.kept) (hpoint : t.point = .idle) : Inv trees t := by
  refine hw.elsewhere hdest hlegacy hkept (fun h => ?_) (fun _ => hback) fun h => ?_
  · rw [hpoint] at h
    cases h
  · rw [hpoint] at h
    cases h

variable [DecidableEq T]

theorem Inv.done (hw : Inv trees w) (hs : w.runs trees .done = some t) : Inv trees t := by
  unfold World.runs at hs
  cases hpoint : w.point with
  | clearing | creating | tidying | recording =>
    simp only [hpoint] at hs
    cases hs
    exact hw.elsewhere rfl rfl rfl (fun h => by cases h) (fun _ => .inl (by rw [hpoint]; rfl))
      fun h => by cases h
  | checking =>
    simp only [hpoint] at hs
    obtain ⟨hcomplete, hs⟩ := Option.ite_none_right_eq_some.mp hs
    cases hs
    exact hw.elsewhere rfl rfl rfl (fun h => by cases h) (fun _ => .inl (by rw [hpoint]; rfl))
      fun _ => hcomplete
  | dropping =>
    simp only [hpoint] at hs
    cases hs
    exact hw.elsewhere rfl rfl rfl (fun h => by cases h) (fun _ => .inl (by rw [hpoint]; rfl))
      fun _ => hw.checked (by rw [hpoint]; rfl)
  | aside =>
    have hquiet : between w.point = false := by rw [hpoint]; rfl
    have hcomplete := hw.checked (by rw [hpoint]; rfl)
    simp only [hpoint] at hs
    split at hs
    · cases hs
      exact hw.elsewhere rfl rfl rfl (fun h => by cases h) (fun _ => .inl hquiet)
        fun _ => hcomplete
    · rename_i hdest
      obtain ⟨-, hs⟩ := Option.ite_none_right_eq_some.mp hs
      cases hs
      refine ⟨hw.complete, (fun h => by cases h), fun _ c hc => ?_, fun _ => hcomplete⟩
      -- The core that is moved aside is the one that was in place.
      exact (mem_migrate_dest.mp (hw.found hquiet c hc)).resolve_right fun h => hdest h.1
  | parent moved =>
    simp only [hpoint] at hs
    cases hs
    exact hw.elsewhere rfl rfl rfl (fun h => ⟨hpoint ▸ h, rfl⟩) (fun h => .inl (hpoint ▸ h))
      fun _ => hw.checked (by rw [hpoint]; rfl)
  | placing moved =>
    have hcomplete := hw.checked (by rw [hpoint]; rfl)
    simp only [hpoint] at hs
    obtain ⟨-, hs⟩ := Option.ite_none_right_eq_some.mp hs
    cases hs
    refine ⟨fun c hc => ?_, fun _ c hc => mem_migrate_dest.mpr (.inl hc),
      (fun h => by cases h), fun h => by cases h⟩
    have hincoming : w.disk.incoming = some c := hc
    rwa [hincoming] at hcomplete
  | idle | filling =>
    simp only [hpoint] at hs
    cases hs

theorem Inv.failed (hw : Inv trees w) {rest : Option T} (hg : Guard trees w (.runs (.failed rest)))
    (hs : w.runs trees (.failed rest) = some t) : Inv trees t := by
  have hback := hw.interrupted hg rfl
  unfold World.runs at hs
  cases hpoint : w.point with
  | idle =>
    simp only [hpoint] at hs
    cases hs
  | dropping =>
    simp only [hpoint] at hs
    cases hs
    exact hw.elsewhere rfl rfl rfl (fun h => by cases h) (fun _ => hback)
      fun _ => hw.checked (by rw [hpoint]; rfl)
  | tidying =>
    simp only [hpoint] at hs
    cases hs
    exact hw.elsewhere rfl rfl rfl (fun h => by cases h) (fun _ => hback) fun h => by cases h
  | clearing | creating | filling | checking | aside | parent moved | placing moved | recording =>
    simp only [hpoint] at hs
    cases hs
    exact hw.ends hback rfl rfl rfl rfl

/-- One at which the process is killed. -/
theorem Inv.killed (hw : Inv trees w) {rest : Option T} (hg : Guard trees w (.runs (.killed rest)))
    (hs : w.runs trees (.killed rest) = some t) : Inv trees t := by
  have hback := hw.interrupted hg rfl
  unfold World.runs at hs
  cases hpoint : w.point <;> simp only [hpoint] at hs <;> cases hs <;>
    exact hw.ends hback rfl rfl rfl rfl

theorem step_inv : Preserved (step trees) (Guard trees) (Inv trees) := by
  intro w label t hw hg hs
  cases label with
  | start moves =>
    obtain ⟨hidle, hs⟩ := Option.ite_none_right_eq_some.mp hs
    cases hs
    split
    · refine ⟨hw.complete, fun h c hc => ?_, fun h => ?_, fun h => ?_⟩
      · exact mem_migrate_dest.mpr (.inl (hw.found h c hc))
      · rw [hidle] at h
        cases h
      · rw [hidle] at h
        cases h
    · exact hw
  | install =>
    obtain ⟨hidle, hs⟩ := Option.ite_none_right_eq_some.mp hs
    cases hs
    exact hw.elsewhere rfl rfl rfl (fun h => by cases h) (fun _ => .inl (by rw [hidle]; rfl))
      fun h => by cases h
  | unpacked tree =>
    obtain ⟨hfilling, hs⟩ := Option.ite_none_right_eq_some.mp hs
    cases hs
    exact hw.elsewhere rfl rfl rfl (fun h => by cases h) (fun _ => .inl (by rw [hfilling]; rfl))
      fun h => by cases h
  | runs o =>
    cases o with
    | done => exact hw.done hs
    | failed rest => exact hw.failed hg hs
    | killed rest => exact hw.killed hg hs

end Invariant

section Runs

theorem Inv.safe {w : World T} (hw : Inv trees w) : Safe w := by
  refine ⟨fun c hc => ?_, fun hidle c hc => hw.found (by rw [hidle]; rfl) c hc⟩
  cases hbetween : between w.point with
  | true => exact .inr (.inl (hw.aside hbetween c hc))
  | false =>
    rcases mem_migrate_dest.mp (hw.found hbetween c hc) with hdest | ⟨-, hlegacy⟩
    · exact .inl hdest
    · exact .inr (.inr hlegacy)

theorem Inv.start {w : World T} (hstart : Start trees w) (hsound : Sound trees w.disk) :
    Inv trees w := by
  obtain ⟨hidle, hkept⟩ := hstart
  refine ⟨fun c hc => kept_complete (hkept ▸ hc), fun _ c hc => ?_, fun h => ?_, fun h => ?_⟩
  · rw [hkept] at hc
    rcases hsound with hdest | ⟨hnone, hlegacy⟩ | hnone
    · exact mem_migrate_dest.mpr (.inl (kept_of_dest hdest ▸ hc))
    · exact mem_migrate_dest.mpr (.inr ⟨hnone, kept_of_legacy hnone hlegacy ▸ hc⟩)
    · rw [hnone] at hc
      cases hc
  · rw [hidle] at h
    cases h
  · rw [hidle] at h
    cases h

variable [DecidableEq T]

/-- From a disk whose complete core is in place or can be moved there, in every run in which no
install ends while a complete core is aside, the core that was put in place last is never lost,
and is found. -/
theorem core_is_kept {w : World T}
    (hr : Reached (SoundStart trees) (step trees) (Guard trees) w) :
    Safe w :=
  (hr.invariant (Inv trees) (fun _ h => Inv.start h.1 h.2) step_inv).safe

end Runs

section Examples

/-- Trees that are numbers: of an empty one, and one that is not complete. -/
def numbers : Trees ℕ := ⟨0, (1 < ·), rfl⟩

/-- A core is in place. -/
def installed : World ℕ := ⟨⟨none, some 2, none, none⟩, .idle, some 2⟩

/-- An install up to the moment the old core is aside. -/
def upToAside : List (Label ℕ) :=
  [.install, .runs .done, .runs .done, .unpacked 3, .runs .done, .runs .done, .runs .done]

/-- An install that is killed while it unpacks, and one that works. -/
def killedThenInstalled : List (Label ℕ) :=
  [.install, .runs .done, .runs .done, .runs (.killed (some 1)), .start true] ++ upToAside ++
    [.runs .done, .runs .done, .runs (.failed (some 1)), .runs .done]

theorem core_is_kept_installed :
    ∃ w, run (step numbers) installed killedThenInstalled = some w ∧ w.kept = some 3 ∧ Safe w := by
  have hrun : run (step numbers) installed killedThenInstalled =
      some ⟨⟨none, some 3, some 1, none⟩, .idle, some 3⟩ := by decide
  have hstart : SoundStart numbers installed := ⟨⟨rfl, by decide⟩, .inl (by decide)⟩
  exact ⟨_, hrun, rfl, core_is_kept ((Reached.start hstart).run _ (by decide) hrun)⟩

/-- An install is killed after it has moved the old core aside. -/
theorem core_left_aside :
    ¬∀ w : World ℕ, Reached (Start numbers) (step numbers) anyStep w → Safe w := by
  intro hall
  have hrun : run (step numbers) installed (upToAside ++ [.runs (.killed none)]) =
      some ⟨⟨none, none, some 2, some 3⟩, .idle, some 2⟩ := by decide
  have hstart : Start numbers installed := ⟨rfl, by decide⟩
  have hfound := (hall _ ((Reached.start hstart).run_any _ hrun)).found rfl 2 rfl
  cases hfound

end Examples

end FuryBrowser.CoreInstall
