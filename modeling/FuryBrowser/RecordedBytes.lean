import FuryBrowser.BundleFiles

/-!
# Every recorded version has its bytes

The row of a version names a file. While a transaction holds the profile's row,
the file of the next version is the one it placed, so what it records is there
when it commits. The file goes only with a handler that ends early: as long as no
handler ends while its `COMMIT` is unanswered, and none whose connection is lost
holds a name that another upload has taken since, no recorded file goes.
-/

namespace FuryBrowser.RecordedBytes

open GuardedRuns RowTable BundleFiles

variable {sha256 : List UInt8 → String}

/-- Rows, files and `current_version` agree. -/
structure Recorded (sha256 : List UInt8 → String) (w : World) : Prop where
  /-- A row names a file with the bytes of its digest. -/
  bytes : ∀ r ∈ w.rows, ∃ f, lookup File.version w.files r.version = some f ∧
    sha256 f.body = r.sha256
  /-- No row is above `current_version`. -/
  highest : ∀ r ∈ w.rows, r.version ≤ w.current
  /-- It has a row, unless nothing was uploaded. -/
  present : (w.current = 0 ∧ w.rows = []) ∨ ∃ r ∈ w.rows, r.version = w.current

/-- The file of an upload is nobody else's: no row names it, and no transaction
that holds the row has placed its own there. -/
def Unclaimed (w : World) (u : Upload) : Prop :=
  (∀ r ∈ w.rows, r.version ≠ u.version) ∧
    ∀ other ∈ w.uploads, other.holds = true → other.version ≠ u.version

instance (w : World) (u : Upload) : Decidable (Unclaimed w u) :=
  inferInstanceAs (Decidable (_ ∧ _))

/-- A handler with a placed file ends early only before it sends `COMMIT`, or when
its transaction is rolled back and its file is nobody else's. -/
def Careful (w : World) : Label → Prop
  | .drops id => ∀ u ∈ w.upload id, u.handler = .placed →
      u.tx = .opened ∨ (u.tx = .aborted ∧ Unclaimed w u)
  | _ => True

instance : DecidableRel Careful := fun w a => by
  rcases a with _ | _ <;> dsimp only [Careful] <;> infer_instance

/-- Which handlers go with which transactions. -/
def InPhase (u : Upload) : Prop :=
  match u.handler with
  | .streaming => u.tx = .idle
  | .checked => u.tx = .idle
  | .placed => u.tx ≠ .idle
  | .pruning => u.tx = .applied
  | .gone => u.tx = .committing

/-- What is known of an upload in flight. -/
structure Good (sha256 : List UInt8 → String) (w : World) (u : Upload) : Prop where
  /-- Its handler and its transaction go together. -/
  phase : InPhase u
  /-- The digest was compared. -/
  digest : u.handler ≠ .streaming → sha256 u.received = u.sha256
  /-- While it holds the row, its file has the next version's name. -/
  placed : u.holds = true → u.version = w.current + 1 ∧
    lookup File.version w.files u.version = some ⟨u.version, u.received⟩
  /-- The versions it dropped have no row any more. -/
  stale : ∀ v ∈ u.stale, v ≤ w.current ∧ ∀ r ∈ w.rows, r.version ≠ v

/-- What every careful run keeps. -/
structure Inv (sha256 : List UInt8 → String) (w : World) : Prop where
  /-- Rows, files and `current_version` agree. -/
  recorded : Recorded sha256 w
  ids : KeyUnique Upload.id w.uploads
  /-- The next id is a new one. -/
  fresh : ∀ u ∈ w.uploads, u.id < w.nextId
  /-- At most one upload holds the row. -/
  one : ∀ u ∈ w.uploads, ∀ v ∈ w.uploads, u.holds = true → v.holds = true → u.id = v.id
  /-- What is known of each upload. -/
  good : ∀ u ∈ w.uploads, Good sha256 w u

theorem inv_empty : Inv sha256 empty :=
  ⟨⟨nofun, nofun, .inl ⟨rfl, rfl⟩⟩, keyUnique_nil, List.forall_mem_nil _, List.forall_mem_nil _,
    List.forall_mem_nil _⟩

section Uploads

variable {w : World} {id : ℕ} {u u' : Upload} {f : Upload → Upload}

theorem Good.of_same {w' : World} (h : Good sha256 w u) (hcurrent : w'.current = w.current)
    (hrows : w'.rows = w.rows) (hfiles : u.holds = true →
      lookup File.version w'.files u.version = lookup File.version w.files u.version) :
    Good sha256 w' u where
  phase := h.phase
  digest := h.digest
  placed := fun hh => by
    rw [hcurrent, hfiles hh]
    exact h.placed hh
  stale := by
    rw [hcurrent, hrows]
    exact h.stale

/-- A change to one upload leaves the others. -/
theorem mem_move (hw : Inv sha256 w) (hu : w.upload id = some u)
    (hin : u' ∈ (w.move id f).uploads) : (u' ∈ w.uploads ∧ u'.id ≠ id) ∨ u' = f u := by
  obtain ⟨hmem, hid⟩ := lookup_some hu
  rcases updateWhere_cases hin with ⟨hin, hne⟩ | ⟨old, hold, heq, rfl⟩
  · exact .inl ⟨hin, by simpa using hne⟩
  · have hsame : old = u := hw.ids.eq hold hmem ((of_decide_eq_true heq).trans hid.symm)
    exact .inr (by rw [hsame])

/-- Moving an upload that does not come to hold the row, with no other change. -/
theorem Inv.move (hw : Inv sha256 w) (hu : w.upload id = some u) (hid : ∀ u, (f u).id = u.id)
    (hholds : (f u).holds = true → u.holds = true) (hgood : Good sha256 w (f u)) :
    Inv sha256 (w.move id f) := by
  obtain ⟨hmem, huid⟩ := lookup_some hu
  have hback : ∀ u' ∈ (w.move id f).uploads,
      ∃ old ∈ w.uploads, old.id = u'.id ∧ (u'.holds = true → old.holds = true) := by
    intro u' hin
    rcases mem_move hw hu hin with ⟨hin, _⟩ | rfl
    · exact ⟨u', hin, rfl, fun hh => hh⟩
    · exact ⟨u, hmem, (hid u).symm, hholds⟩
  refine ⟨⟨hw.recorded.bytes, hw.recorded.highest, hw.recorded.present⟩,
    hw.ids.updateWhere fun u _ => hid u, ?_, ?_, ?_⟩
  · intro u' hin
    obtain ⟨old, hold, heq, _⟩ := hback u' hin
    exact heq ▸ hw.fresh old hold
  · intro a ha b hb hha hhb
    obtain ⟨olda, holda, heqa, hholdsa⟩ := hback a ha
    obtain ⟨oldb, holdb, heqb, hholdsb⟩ := hback b hb
    exact heqa ▸ heqb ▸ hw.one olda holda oldb holdb (hholdsa hha) (hholdsb hhb)
  · intro u' hin
    rcases mem_move hw hu hin with ⟨hin, _⟩ | rfl
    · exact (hw.good u' hin).of_same rfl rfl fun _ => rfl
    · exact hgood.of_same rfl rfl fun _ => rfl

/-- Uploads may end, and files go that neither a row nor a transaction needs. -/
theorem Inv.fewer (hw : Inv sha256 w) {p : Upload → Bool} {q : File → Bool}
    (hrows : ∀ r ∈ w.rows, ∀ f, f.version = r.version → q f = false)
    (hholds : ∀ u ∈ w.uploads, p u = false → u.holds = true →
      ∀ f, f.version = u.version → q f = false) :
    Inv sha256 { w with uploads := deleteWhere p w.uploads, files := deleteWhere q w.files } := by
  refine ⟨⟨?_, hw.recorded.highest, hw.recorded.present⟩, hw.ids.deleteWhere, ?_, ?_, ?_⟩
  · intro r hr
    obtain ⟨f, hf, hdigest⟩ := hw.recorded.bytes r hr
    exact ⟨f, lookup_deleteWhere hf (hrows r hr f (lookup_some hf).2), hdigest⟩
  · exact fun u hu => hw.fresh u (mem_deleteWhere.mp hu).1
  · exact fun a ha b hb => hw.one a (mem_deleteWhere.mp ha).1 b (mem_deleteWhere.mp hb).1
  · intro u hu
    obtain ⟨hin, hp⟩ := mem_deleteWhere.mp hu
    refine (hw.good u hin).of_same rfl rfl fun hh => ?_
    obtain ⟨_, hf⟩ := (hw.good u hin).placed hh
    rw [hf]
    exact lookup_deleteWhere hf (hholds u hin hp hh _ rfl)

/-- An upload may end with its files left. -/
theorem Inv.finish (hw : Inv sha256 w) (id : ℕ) : Inv sha256 (w.finish id) := by
  have hfiles : deleteWhere (fun _ => false) w.files = w.files := by simp [deleteWhere]
  have h := hw.fewer (p := fun u => u.id = id) (q := fun _ => false) (fun _ _ _ _ => rfl)
    fun _ _ _ _ _ _ => rfl
  rw [hfiles] at h
  exact h

/-- Whoever holds the row has placed its file, and its handler may be gone since. -/
theorem handler_of_holds (h : InPhase u) (hh : u.holds = true) :
    u.handler = .placed ∨ u.handler = .gone := by
  cases hhandler : u.handler with
  | placed => exact .inl rfl
  | gone => exact .inr rfl
  | streaming | checked | pruning =>
    have htx := by simpa [InPhase, hhandler] using h
    simp [Upload.holds, htx] at hh

/-- With the row free, nobody holds it. -/
theorem not_holds (h : w.rowLocked = false) (hu : u ∈ w.uploads) : u.holds = false := by
  simpa using List.any_eq_false.mp h u hu

end Uploads

section Steps

variable {w w' : World} {id : ℕ} {u : Upload}

theorem inv_begins (hw : Inv sha256 w) (base : ℤ) (digest : String) (keep : ℤ) :
    Inv sha256 (begins w base digest keep) := by
  have hnew : ∀ u ∈ w.uploads, u.id ≠ w.nextId := fun u hu => Nat.ne_of_lt (hw.fresh u hu)
  refine ⟨⟨hw.recorded.bytes, hw.recorded.highest, hw.recorded.present⟩, hw.ids.cons hnew, ?_,
    ?_, ?_⟩
  · intro u hu
    rcases List.mem_cons.mp hu with rfl | hin
    · exact Nat.lt_succ_self _
    · exact Nat.lt_succ_of_lt (hw.fresh u hin)
  · intro a ha b hb hha hhb
    -- The new upload holds nothing.
    rcases List.mem_cons.mp ha with rfl | hain
    · cases hha
    · rcases List.mem_cons.mp hb with rfl | hbin
      · cases hhb
      · exact hw.one a hain b hbin hha hhb
  · intro u hu
    rcases List.mem_cons.mp hu with rfl | hin
    · exact ⟨rfl, fun h => absurd rfl h, nofun, nofun⟩
    · exact (hw.good u hin).of_same rfl rfl fun _ => rfl

theorem inv_receives (hw : Inv sha256 w) {chunk : List UInt8}
    (hs : receives w id chunk = some w') : Inv sha256 w' := by
  obtain ⟨u, hu, hs⟩ := Option.bind_eq_some_iff.mp hs
  simp only [Option.ite_none_right_eq_some, Option.some.injEq] at hs
  obtain ⟨hstreaming, rfl⟩ := hs
  have hgood := hw.good u (lookup_some hu).1
  have hidle : u.tx = .idle := by simpa [InPhase, hstreaming] using hgood.phase
  refine hw.move hu (fun _ => rfl) (fun hh => hh) ⟨hgood.phase, ?_, ?_, hgood.stale⟩
  · exact fun h => absurd hstreaming h
  · exact fun hh => absurd hh (by simp [Upload.holds, hidle])

theorem inv_checks (hw : Inv sha256 w) (hs : checks sha256 w id = some w') : Inv sha256 w' := by
  obtain ⟨u, hu, hs⟩ := Option.bind_eq_some_iff.mp hs
  simp only [Option.ite_none_right_eq_some, Option.some.injEq] at hs
  obtain ⟨hstreaming, rfl⟩ := hs
  have hgood := hw.good u (lookup_some hu).1
  have hidle : u.tx = .idle := by simpa [InPhase, hstreaming] using hgood.phase
  split
  · rename_i hdigest
    refine hw.move hu (fun _ => rfl) (fun hh => hh) ⟨hidle, fun _ => hdigest, ?_, hgood.stale⟩
    exact fun hh => absurd hh (by simp [Upload.holds, hidle])
  · exact hw.finish id

/-- With the row free and the file in place under the next version's name, the
upload holds the row. -/
theorem inv_places (hw : Inv sha256 w) (hs : places w id = some w') : Inv sha256 w' := by
  obtain ⟨u, hu, hs⟩ := Option.bind_eq_some_iff.mp hs
  simp only [Option.ite_none_right_eq_some, Option.some.injEq, Bool.and_eq_true,
    decide_eq_true_eq, Bool.not_eq_true'] at hs
  obtain ⟨⟨hchecked, hfree⟩, rfl⟩ := hs
  split
  swap
  · exact hw.finish id
  obtain ⟨hmem, huid⟩ := lookup_some hu
  have hgood := hw.good u hmem
  have hdigest : sha256 u.received = u.sha256 := hgood.digest (by simp [hchecked])
  -- Nobody else holds the row, so only the names of rows matter.
  have hother : ∀ v ∈ w.uploads, v.holds = false := fun v hv => not_holds hfree hv
  refine ⟨⟨?_, hw.recorded.highest, hw.recorded.present⟩, hw.ids.updateWhere fun _ _ => rfl, ?_,
    ?_, ?_⟩
  · intro r hr
    obtain ⟨f, hf, hbody⟩ := hw.recorded.bytes r hr
    have hle := hw.recorded.highest r hr
    have hne : r.version ≠ (⟨w.current + 1, u.received⟩ : File).version :=
      show r.version ≠ w.current + 1 by omega
    exact ⟨f, (lookup_put_of_ne hne).trans hf, hbody⟩
  · intro v hv
    rcases mem_move hw hu hv with ⟨hin, _⟩ | rfl
    · exact hw.fresh v hin
    · exact hw.fresh u hmem
  · intro a ha b hb hha hhb
    rcases mem_move hw hu ha with ⟨hin, _⟩ | rfl
    · exact absurd hha (by simp [hother a hin])
    · rcases mem_move hw hu hb with ⟨hin, _⟩ | rfl
      · exact absurd hhb (by simp [hother b hin])
      · rfl
  · intro v hv
    rcases mem_move hw hu hv with ⟨hin, _⟩ | rfl
    · exact (hw.good v hin).of_same rfl rfl fun hh => absurd hh (by simp [hother v hin])
    · exact ⟨nofun, fun _ => hdigest, fun _ => ⟨rfl, lookup_put_self⟩, hgood.stale⟩

theorem inv_commits (hw : Inv sha256 w) (hs : commits w id = some w') : Inv sha256 w' := by
  obtain ⟨u, hu, hs⟩ := Option.bind_eq_some_iff.mp hs
  simp only [Option.ite_none_right_eq_some, Option.some.injEq, Bool.and_eq_true,
    decide_eq_true_eq] at hs
  obtain ⟨⟨hplaced, hopened⟩, rfl⟩ := hs
  have hgood := hw.good u (lookup_some hu).1
  have hholds : u.holds = true := by simp [Upload.holds, hopened]
  refine hw.move hu (fun _ => rfl) (fun _ => hholds) ⟨?_, hgood.digest, ?_, hgood.stale⟩
  · simp [InPhase, hplaced]
  · exact fun _ => hgood.placed hholds

/-- The rows of a commit: the new one and those it keeps. -/
theorem mem_rows_applied {r : Row}
    (h : r ∈ (⟨u.version, u.sha256⟩ :: deleteWhere u.isStale w.rows : List Row)) :
    r = ⟨u.version, u.sha256⟩ ∨ (r ∈ w.rows ∧ u.isStale r = false) := by
  rcases List.mem_cons.mp h with rfl | hin
  · exact .inl rfl
  · exact .inr (mem_deleteWhere.mp hin)

/-- A commit records the file its upload placed, and drops rows below it. -/
theorem recorded_applied (hw : Inv sha256 w) (hgood : Good sha256 w u) (hh : u.holds = true)
    {w' : World} (hcurrent : w'.current = u.version) (hfiles : w'.files = w.files)
    (hrows : w'.rows = ⟨u.version, u.sha256⟩ :: deleteWhere u.isStale w.rows) :
    Recorded sha256 w' := by
  obtain ⟨hversion, hfile⟩ := hgood.placed hh
  have hdigest : sha256 u.received = u.sha256 := by
    refine hgood.digest fun hstreaming => ?_
    simpa [hstreaming] using handler_of_holds hgood.phase hh
  refine ⟨fun r hr => ?_, fun r hr => ?_, .inr ⟨_, hrows ▸ List.mem_cons_self, hcurrent.symm⟩⟩
  · rw [hfiles]
    rcases mem_rows_applied (hrows ▸ hr) with rfl | ⟨hin, _⟩
    · exact ⟨_, hfile, hdigest⟩
    · exact hw.recorded.bytes r hin
  · rcases mem_rows_applied (hrows ▸ hr) with rfl | ⟨hin, _⟩
    · exact Int.le_of_eq hcurrent.symm
    · have hle := hw.recorded.highest r hin
      omega

/-- What was known of an upload that does not hold the row stays known when another
commits. -/
theorem Good.applied {v : Upload} (hv : Good sha256 w v) (hnot : v.holds = false)
    (hversion : u.version = w.current + 1) {w' : World} (hcurrent : w'.current = u.version)
    (hrows : w'.rows = ⟨u.version, u.sha256⟩ :: deleteWhere u.isStale w.rows) :
    Good sha256 w' v := by
  refine ⟨hv.phase, hv.digest, fun hh => absurd hh (by simp [hnot]), fun n hn => ?_⟩
  obtain ⟨hle, hno⟩ := hv.stale n hn
  refine ⟨by omega, fun r hr => ?_⟩
  rcases mem_rows_applied (hrows ▸ hr) with rfl | ⟨hin, _⟩
  · have hnext : w.current + 1 ≠ n := by omega
    exact hversion ▸ hnext
  · exact hno r hin

/-- The versions a commit drops have no row afterwards. -/
theorem stale_applied (hw : Inv sha256 w) (hversion : u.version = w.current + 1) {n : ℤ}
    (hn : n ∈ (w.rows.filter u.isStale).map Row.version) : n ≤ u.version ∧
      ∀ r ∈ (⟨u.version, u.sha256⟩ :: deleteWhere u.isStale w.rows : List Row), r.version ≠ n := by
  obtain ⟨old, hold, rfl⟩ := List.mem_map.mp hn
  obtain ⟨hin, hstale⟩ := List.mem_filter.mp hold
  have hle := hw.recorded.highest old hin
  refine ⟨by omega, fun r hr heq => ?_⟩
  rcases mem_rows_applied hr with rfl | ⟨_, hkept⟩
  · exact absurd (show u.version = old.version from heq) (by omega)
  · -- A row of the same version would have been dropped too.
    simp only [Upload.isStale, Bool.and_eq_true, decide_eq_true_eq] at hstale
    simp only [Upload.isStale, heq, hstale, decide_true, Bool.and_self, reduceCtorEq] at hkept

theorem inv_applies (hw : Inv sha256 w) (hs : applies w id = some w') : Inv sha256 w' := by
  obtain ⟨u, hu, hs⟩ := Option.bind_eq_some_iff.mp hs
  simp only [Option.ite_none_right_eq_some, Option.some.injEq] at hs
  obtain ⟨hcommitting, rfl⟩ := hs
  obtain ⟨hmem, huid⟩ := lookup_some hu
  have hgood := hw.good u hmem
  have hholds : u.holds = true := by simp [Upload.holds, hcommitting]
  have hversion := (hgood.placed hholds).1
  -- Nobody else holds the row.
  have hother : ∀ v ∈ w.uploads, v.id ≠ id → v.holds = false := by
    intro v hv hne
    by_contra hh
    exact hne ((hw.one v hv u hmem (by simpa using hh) hholds).trans huid)
  by_cases hgone : u.handler = .gone
  · simp only [hgone, if_true]
    have hin : ∀ v ∈ (w.finish id).uploads, v ∈ w.uploads ∧ v.id ≠ id := fun v hv => by
      simpa using mem_deleteWhere.mp hv
    refine ⟨recorded_applied hw hgood hholds rfl rfl rfl, hw.ids.deleteWhere,
      fun v hv => hw.fresh v (hin v hv).1,
      fun a ha b hb => hw.one a (hin a ha).1 b (hin b hb).1, fun v hv => ?_⟩
    obtain ⟨hmemv, hne⟩ := hin v hv
    exact (hw.good v hmemv).applied (hother v hmemv hne) hversion rfl rfl
  · simp only [hgone, if_false]
    refine ⟨recorded_applied hw hgood hholds rfl rfl rfl, hw.ids.updateWhere fun _ _ => rfl, ?_,
      ?_, ?_⟩
    · intro v hv
      rcases mem_move hw hu hv with ⟨hin, _⟩ | rfl
      · exact hw.fresh v hin
      · exact hw.fresh u hmem
    · intro a ha b hb hha hhb
      rcases mem_move hw hu ha with ⟨hin, hne⟩ | rfl
      · exact absurd hha (by simp [hother a hin hne])
      · cases hha
    · intro v hv
      rcases mem_move hw hu hv with ⟨hin, hne⟩ | rfl
      · exact (hw.good v hin).applied (hother v hin hne) hversion rfl rfl
      · refine ⟨?_, hgood.digest, nofun, fun n hn => stale_applied hw hversion hn⟩
        have hplaced := (handler_of_holds hgood.phase hholds).resolve_right hgone
        simp [InPhase, hplaced]

theorem inv_answered (hw : Inv sha256 w) (hs : answered w id = some w') : Inv sha256 w' := by
  obtain ⟨u, hu, hs⟩ := Option.bind_eq_some_iff.mp hs
  simp only [Option.ite_none_right_eq_some, Option.some.injEq, Bool.and_eq_true,
    decide_eq_true_eq] at hs
  obtain ⟨⟨hplaced, happlied⟩, rfl⟩ := hs
  have hgood := hw.good u (lookup_some hu).1
  refine hw.move hu (fun _ => rfl) (fun hh => hh) ⟨happlied, ?_, ?_, hgood.stale⟩
  · exact fun _ => hgood.digest (by simp [hplaced])
  · exact fun hh => absurd hh (by simp [Upload.holds, happlied])

/-- The files of dropped versions are no row's, and below every version in flight. -/
theorem inv_prunes (hw : Inv sha256 w) (hs : prunes w id = some w') : Inv sha256 w' := by
  obtain ⟨u, hu, hs⟩ := Option.bind_eq_some_iff.mp hs
  simp only [Option.ite_none_right_eq_some, Option.some.injEq] at hs
  obtain ⟨_, rfl⟩ := hs
  have hgood := hw.good u (lookup_some hu).1
  refine hw.fewer (fun r hr f heq => ?_) fun v hv _ hh f heq => ?_
  · refine decide_eq_false fun hin => ?_
    exact (hgood.stale _ hin).2 r hr heq.symm
  · refine decide_eq_false fun hin => ?_
    have hle := (hgood.stale _ hin).1
    have hversion := ((hw.good v hv).placed hh).1
    omega

/-- The file an upload may take with it is neither a row's nor another holder's. -/
theorem inv_drops (hw : Inv sha256 w) (hcareful : Careful w (.drops id))
    (hs : drops w id = some w') : Inv sha256 w' := by
  obtain ⟨u, hu, hs⟩ := Option.bind_eq_some_iff.mp hs
  simp only [Option.ite_none_left_eq_some, Option.some.injEq] at hs
  obtain ⟨hhandler, rfl⟩ := hs
  obtain ⟨hmem, huid⟩ := lookup_some hu
  have hgood := hw.good u hmem
  by_cases hplaced : u.handler = .placed
  · simp only [hplaced, if_true]
    rcases hcareful u hu hplaced with hopened | ⟨haborted, hrows, hothers⟩
    · -- It holds the row, so its version is above every row's and nobody else's.
      simp only [hopened, reduceCtorEq, if_false]
      have hholds : u.holds = true := by simp [Upload.holds, hopened]
      have hversion := (hgood.placed hholds).1
      refine hw.fewer (fun r hr f heq => ?_) fun v hv hne hh f heq => ?_
      · have hle := hw.recorded.highest r hr
        exact decide_eq_false (by omega)
      · have hid := hw.one v hv u hmem hh hholds
        exact absurd (hid.trans huid) (by simpa using hne)
    · simp only [haborted, reduceCtorEq, if_false]
      refine hw.fewer (fun r hr f heq => ?_) fun v hv _ hh f heq => ?_
      · exact decide_eq_false fun h => hrows r hr (heq.symm.trans h)
      · exact decide_eq_false fun h => hothers v hv hh (heq.symm.trans h)
  · have hnot : u.tx ≠ .committing := by
      intro hcommitting
      have hholds : u.holds = true := by simp [Upload.holds, hcommitting]
      rcases handler_of_holds hgood.phase hholds with h | h
      · exact hplaced h
      · simp [h] at hhandler
    simp only [hplaced, hnot, if_false]
    exact hw.finish id

theorem inv_connectionLost (hw : Inv sha256 w) (hs : connectionLost w id = some w') :
    Inv sha256 w' := by
  obtain ⟨u, hu, hs⟩ := Option.bind_eq_some_iff.mp hs
  simp only [Option.ite_none_right_eq_some, Option.some.injEq] at hs
  obtain ⟨hholds, rfl⟩ := hs
  have hgood := hw.good u (lookup_some hu).1
  split
  · exact hw.finish id
  · rename_i hgone
    have hplaced := (handler_of_holds hgood.phase hholds).resolve_right hgone
    refine hw.move hu (fun _ => rfl) (fun _ => hholds) ⟨?_, hgood.digest, nofun, hgood.stale⟩
    simp [InPhase, hplaced]

theorem inv_crashes (hw : Inv sha256 w) : Inv sha256 (crashes w) := by
  have hback : ∀ u' ∈ (crashes w).uploads, ∃ u ∈ w.uploads, u.tx = .committing ∧
      u' = { u with handler := .gone } := by
    intro u' hu'
    obtain ⟨u, hu, rfl⟩ := mem_updateWhere.mp hu'
    obtain ⟨hin, htx⟩ := mem_deleteWhere.mp hu
    exact ⟨u, hin, by simpa using htx, rfl⟩
  refine ⟨⟨hw.recorded.bytes, hw.recorded.highest, hw.recorded.present⟩,
    hw.ids.deleteWhere.updateWhere fun _ _ => rfl, ?_, ?_, ?_⟩
  · intro u' hu'
    obtain ⟨u, hu, _, rfl⟩ := hback u' hu'
    exact hw.fresh u hu
  · intro a' ha' b' hb' hha hhb
    obtain ⟨a, ha, _, rfl⟩ := hback a' ha'
    obtain ⟨b, hb, _, rfl⟩ := hback b' hb'
    exact hw.one a ha b hb hha hhb
  · intro u' hu'
    obtain ⟨u, hu, hcommitting, rfl⟩ := hback u' hu'
    have hgood := hw.good u hu
    refine ⟨hcommitting, fun _ => hgood.digest fun hstreaming => ?_, hgood.placed, hgood.stale⟩
    have hidle : u.tx = .idle := by simpa [InPhase, hstreaming] using hgood.phase
    simp [hidle] at hcommitting

theorem inv_step : Preserved (step sha256) Careful (Inv sha256) := by
  intro w a w' hw hcareful hs
  cases a with
  | begins base digest keep =>
    cases hs
    exact inv_begins hw base digest keep
  | receives id chunk => exact inv_receives hw hs
  | checks id => exact inv_checks hw hs
  | places id => exact inv_places hw hs
  | commits id => exact inv_commits hw hs
  | applies id => exact inv_applies hw hs
  | answered id => exact inv_answered hw hs
  | prunes id => exact inv_prunes hw hs
  | drops id => exact inv_drops hw hcareful hs
  | connectionLost id => exact inv_connectionLost hw hs
  | crashes =>
    cases hs
    exact inv_crashes hw

end Steps

/-- Whatever the digest function, rows, files and `current_version` agree in every
state of a careful run. -/
theorem recorded_versions_have_bytes {w : World} (hr : Reached init (step sha256) Careful w) :
    Recorded sha256 w :=
  (hr.invariant (Inv sha256) (fun _ hi => hi ▸ inv_empty) inv_step).recorded

/-- The digest of an empty body. -/
def emptyDigest : String := "e3b0c44298fc1c149afbf4c8996fb92427ae41e4649b934ca495991b7852b855"

/-- An empty body is uploaded, up to its `COMMIT`. -/
def emptyUpload (id : ℕ) (base keep : ℤ) : List Label :=
  [.begins base emptyDigest keep, .checks id, .places id, .commits id, .applies id]

/-- The profile after these steps. -/
def after (labels : List Label) : World := (run (step fun _ => emptyDigest) empty labels).getD empty

/-- Two uploads of which only the last is kept, and a third that fails. -/
def kept : List Label :=
  emptyUpload 0 0 1 ++ [.answered 0, .prunes 0] ++ emptyUpload 1 1 1 ++
    [.answered 1, .prunes 1, .begins 2 emptyDigest 1, .checks 2, .places 2, .connectionLost 2,
      .drops 2]

theorem recorded_versions_have_bytes_kept :
    (after kept).rows = [⟨2, emptyDigest⟩] ∧ Recorded (fun _ => emptyDigest) (after kept) := by
  have hempty : Reached init (step fun _ => emptyDigest) Careful empty := .start rfl
  exact ⟨by decide, recorded_versions_have_bytes
    (hempty.run kept (by decide) (by decide))⟩

/-- The client goes away when its commit is applied and not answered: the guard
removes the file of the recorded version. -/
theorem recorded_version_without_bytes :
    ¬ ∀ sha256 w, Reached init (step sha256) anyStep w → Recorded sha256 w := by
  intro h
  have hempty : Reached init (step fun _ => emptyDigest) anyStep empty := .start rfl
  have hreached : Reached init (step fun _ => emptyDigest) anyStep
      (after (emptyUpload 0 0 10 ++ [.drops 0])) :=
    hempty.run_any (emptyUpload 0 0 10 ++ [.drops 0]) (by decide)
  obtain ⟨f, hf, _⟩ := (h _ _ hreached).bytes ⟨1, emptyDigest⟩ (by decide)
  have hnone : lookup File.version (after (emptyUpload 0 0 10 ++ [.drops 0])).files 1 = none := by
    decide
  cases hnone.symm.trans hf

end FuryBrowser.RecordedBytes
