import FuryBrowser.SignInPolicy

/-!
# How many codes a challenge admits

Five wrong codes end a challenge, and the first right one uses it up. Both hold as long
as a request reads the challenge only while the wrong codes counted, together with the
requests that have read it and are yet to count theirs, are fewer than five; a request
that compared wrong is not lost before it counts; and one that compared right finds
the challenge still there when it deletes it.

Requests that race each other break both: each of them reads the counter before the
others have written it, and none looks at what its deletion found.
-/

namespace FuryBrowser.SignIn

open GuardedRuns RowTable AgentDisk

variable {crypto : Crypto} {w w' : World} {a : Label} {f : Flight} {k : ℕ}

/-- It has read the challenge, and compares next. -/
def Stage.reads (k : ℕ) : Stage → Bool
  | .read c _ => c.id = k
  | _ => false

/-- It compared wrong, and counts next. -/
def Stage.counts (k : ℕ) : Stage → Bool
  | .counting c => c.id = k
  | _ => false

/-- It has deleted the challenge, and opens a session next. -/
def Stage.issues (k : ℕ) : Stage → Bool
  | .issuing c _ _ _ => c.id = k
  | _ => false

namespace World

/-- Requests in flight at some kind of stage. -/
def atStage (w : World) (p : Stage → Bool) : ℕ := w.flights.countP fun f => p f.stage

/-- Wrong codes that were compared for a challenge. -/
def wrong (w : World) (k : ℕ) : ℕ := w.compared.count (k, false)

/-- Sessions that were opened from it. -/
def sessionsFrom (w : World) (k : ℕ) : ℕ := w.issued.count k

/-- Rows of it. -/
def rows (w : World) (k : ℕ) : ℕ := w.db.challenges.countP fun c => c.id = k

end World

/-- A challenge is read while it has codes left, counting the ones that are being
compared; a wrong code is always counted; a right one finds the challenge. -/
def Careful (w : World) : Label → Prop
  | .runs id _ =>
    match (lookup Flight.id w.flights id).map Flight.stage with
    | some (.asked k _) => ∀ c ∈ w.db.challenges, c.id = k → c.attempts < 5 →
        c.attempts + w.atStage (Stage.reads k) + w.atStage (Stage.counts k) < 5
    | some (.matched c _ _ _) => ∃ d ∈ w.db.challenges, d.id = c.id
    | _ => True
  | .lost id =>
    match (lookup Flight.id w.flights id).map Flight.stage with
    | some (.counting _) => False
    | _ => True
  | _ => True

instance : DecidableRel Careful := fun w a => by
  rcases a with _ | _ | _ | _ | id | id | _ | _ <;> dsimp only [Careful]
  all_goals try infer_instance
  all_goals cases (lookup Flight.id w.flights id).map Flight.stage with
    | none => dsimp only; infer_instance
    | some stage => cases stage <;> dsimp only <;> infer_instance

/-- What every careful run keeps. -/
structure Counted (w : World) : Prop where
  /-- Requests in flight have their own ids. -/
  ids : KeyUnique Flight.id w.flights
  drawn : ∀ f ∈ w.flights, f.id < w.nextId
  /-- So were the ids of challenges. -/
  known : ∀ c ∈ w.db.challenges, c.id < w.db.fresh
  /-- Those that requests have read. -/
  held : ∀ f ∈ w.flights, ∀ c, f.stage.challenge = some c → c.id < w.db.fresh
  /-- Those that codes were compared for. -/
  met : ∀ x ∈ w.compared, x.1 < w.db.fresh
  /-- Those that sessions were opened from. -/
  used : ∀ k ∈ w.issued, k < w.db.fresh
  /-- The counter, and the requests about to count, are the wrong codes. -/
  tally : ∀ c ∈ w.db.challenges, w.wrong c.id = c.attempts + w.atStage (Stage.counts c.id)
  /-- Five codes at most can turn out wrong. -/
  few : ∀ k, w.wrong k + w.atStage (Stage.reads k) ≤ 5
  /-- There is one row to open one session from. -/
  once : ∀ k, w.sessionsFrom k + w.atStage (Stage.issues k) + w.rows k ≤ 1

theorem counted_empty : Counted empty :=
  ⟨keyUnique_nil, List.forall_mem_nil _, List.forall_mem_nil _, List.forall_mem_nil _,
    List.forall_mem_nil _, List.forall_mem_nil _, List.forall_mem_nil _, fun _ => Nat.zero_le 5,
    fun _ => Nat.zero_le 1⟩

/-- No request has come to a challenge that is yet to be opened. -/
theorem Counted.atStage_fresh (h : Counted w) {p : Stage → Bool}
    (hp : ∀ stage, p stage = true → ∃ c, stage.challenge = some c ∧ w.db.fresh ≤ c.id) :
    w.atStage p = 0 := by
  refine List.countP_eq_zero.mpr fun f hf hstage => ?_
  obtain ⟨c, hc, hle⟩ := hp f.stage hstage
  have := h.held f hf c hc
  omega

/-- When a request goes on, one stage is left for another. -/
theorem Counted.atStage_goOn (h : Counted w) (hf : f ∈ w.flights) (stage : Option Stage)
    (p : Stage → Bool) (hw : w'.flights = w.goOn f.id stage) :
    w'.atStage p + (if p f.stage then 1 else 0) = w.atStage p + if stage.any p then 1 else 0 := by
  unfold World.atStage
  rw [hw]
  cases stage with
  | none => simpa [World.goOn] using countP_deleteWhere h.ids hf fun g => p g.stage
  | some stage => exact countP_updateWhere h.ids hf _ fun g => p g.stage

/-- Requests in flight keep their ids. -/
theorem Counted.ids_goOn (h : Counted w) (id : ℕ) (stage : Option Stage) :
    KeyUnique Flight.id (w.goOn id stage) := by
  cases stage with
  | none => exact h.ids.deleteWhere
  | some stage => exact h.ids.updateWhere fun _ _ => rfl

/-- Deleting a challenge leaves no row of it, and the rows of others. -/
theorem rows_deleteWhere (challenges : List Challenge) (id k : ℕ) :
    (deleteWhere (fun c => c.id = id) challenges).countP (fun c => c.id = k) =
      if k = id then 0 else challenges.countP fun c => c.id = k := by
  unfold deleteWhere
  rw [List.countP_filter]
  split
  · rename_i heq
    subst heq
    simp
  · rename_i hne
    refine List.countP_congr fun c _ => ?_
    have : c.id = k → c.id ≠ id := fun heq => heq ▸ hne
    simpa using this

/-- Counting a wrong code leaves the rows. -/
theorem rows_updateWhere (challenges : List Challenge) (id k : ℕ) :
    (updateWhere (fun c => c.id = id) (fun c => { c with attempts := c.attempts + 1 })
      challenges).countP (fun c => c.id = k) = challenges.countP fun c => c.id = k := by
  unfold updateWhere
  rw [List.countP_map]
  refine List.countP_congr fun c _ => ?_
  simp only [Function.comp_apply]
  split <;> rfl

/-- What a request that goes on has to keep. -/
theorem counted_goOn (h : Counted w) (hf : f ∈ w.flights) (stage : Option Stage)
    (hflights : w'.flights = w.goOn f.id stage) (hnext : w'.nextId = w.nextId)
    (hfresh : w.db.fresh ≤ w'.db.fresh)
    (hknown : ∀ c ∈ w'.db.challenges, ∃ d ∈ w.db.challenges, c.id = d.id)
    (hheld : ∀ st ∈ stage, ∀ c, st.challenge = some c → c.id < w.db.fresh)
    (hmet : ∀ x ∈ w'.compared, x ∈ w.compared ∨ x.1 < w.db.fresh)
    (hused : ∀ k ∈ w'.issued, k ∈ w.issued ∨ k < w.db.fresh)
    (htally : ∀ c ∈ w'.db.challenges, ∀ n, n + (if f.stage.counts c.id then 1 else 0) =
      w.atStage (Stage.counts c.id) + (if stage.any (Stage.counts c.id) then 1 else 0) →
      w'.wrong c.id = c.attempts + n)
    (hfew : ∀ k n, n + (if f.stage.reads k then 1 else 0) =
      w.atStage (Stage.reads k) + (if stage.any (Stage.reads k) then 1 else 0) →
      w'.wrong k + n ≤ 5)
    (honce : ∀ k n, n + (if f.stage.issues k then 1 else 0) =
      w.atStage (Stage.issues k) + (if stage.any (Stage.issues k) then 1 else 0) →
      w'.sessionsFrom k + n + w'.rows k ≤ 1) : Counted w' := by
  refine ⟨hflights ▸ h.ids_goOn f.id stage, ?_, ?_, ?_, ?_, ?_,
    fun c hc => htally c hc _ (h.atStage_goOn hf stage _ hflights),
    fun k => hfew k _ (h.atStage_goOn hf stage _ hflights),
    fun k => honce k _ (h.atStage_goOn hf stage _ hflights)⟩
  · intro g hg
    rw [hnext]
    rcases mem_goOn (hflights ▸ hg) with ⟨hin, _⟩ | ⟨hid, _⟩
    · exact h.drawn g hin
    · exact hid ▸ h.drawn f hf
  · intro c hc
    obtain ⟨d, hd, heq⟩ := hknown c hc
    have := h.known d hd
    omega
  · intro g hg c hc
    rcases mem_goOn (hflights ▸ hg) with ⟨hin, _⟩ | ⟨_, hst⟩
    · exact Nat.lt_of_lt_of_le (h.held g hin c hc) hfresh
    · exact Nat.lt_of_lt_of_le (hheld _ hst c hc) hfresh
  · intro x hx
    rcases hmet x hx with hx | hx
    · exact Nat.lt_of_lt_of_le (h.met x hx) hfresh
    · exact Nat.lt_of_lt_of_le hx hfresh
  · intro k hk
    rcases hused k hk with hk | hk
    · exact Nat.lt_of_lt_of_le (h.used k hk) hfresh
    · exact Nat.lt_of_lt_of_le hk hfresh

/-- A statement that neither compares, counts nor opens a session keeps the counts if it
deletes no challenge that another is about to open a session from. -/
theorem counted_quiet (h : Counted w) (hf : f ∈ w.flights) (stage : Option Stage)
    (hflights : w'.flights = w.goOn f.id stage) (hnext : w'.nextId = w.nextId)
    (hfresh : w.db.fresh ≤ w'.db.fresh)
    (hchallenges : ∀ c ∈ w'.db.challenges, c ∈ w.db.challenges)
    (hrows : ∀ k, w'.rows k ≤ w.rows k)
    (hcompared : w'.compared = w.compared) (hissued : w'.issued = w.issued)
    (hheld : ∀ st ∈ stage, st.challenge = none)
    (hcounting : ∀ k, f.stage.counts k = false) : Counted w' := by
  have hnone : ∀ k, stage.any (Stage.reads k) = false ∧ stage.any (Stage.counts k) = false ∧
      stage.any (Stage.issues k) = false := by
    intro k
    cases stage with
    | none => exact ⟨rfl, rfl, rfl⟩
    | some st => cases st <;> first | exact ⟨rfl, rfl, rfl⟩ | cases hheld _ rfl
  refine counted_goOn h hf stage hflights hnext hfresh
    (fun c hc => ⟨c, hchallenges c hc, rfl⟩) ?_ (fun x hx => .inl (hcompared ▸ hx))
    (fun k hk => .inl (hissued ▸ hk)) ?_ ?_ ?_
  · intro st hst c hc
    rw [hheld st hst] at hc
    cases hc
  · intro c hc n hn
    have htally := h.tally c (hchallenges c hc)
    rw [hcounting, (hnone c.id).2.1] at hn
    rw [World.wrong, hcompared, ← World.wrong]
    simp only [Bool.false_eq_true, if_false] at hn
    omega
  · intro k n hn
    have hfew := h.few k
    rw [(hnone k).1] at hn
    rw [World.wrong, hcompared, ← World.wrong]
    simp only [Bool.false_eq_true, if_false] at hn
    omega
  · intro k n hn
    have honce := h.once k
    have hrows := hrows k
    rw [(hnone k).2.2] at hn
    rw [World.sessionsFrom, hissued, ← World.sessionsFrom]
    simp only [Bool.false_eq_true, if_false] at hn
    omega

/-- Reading a challenge that has codes left keeps the counts. -/
theorem counted_reads {c : Challenge} {code : String} (h : Counted w) (hf : f ∈ w.flights)
    (hstage : f.stage = .asked c.id code) (hc : c ∈ w.db.challenges)
    (hfew : c.attempts + w.atStage (Stage.reads c.id) + w.atStage (Stage.counts c.id) < 5) :
    Counted (w.put f.id w.db (some (.read c code))) := by
  refine counted_goOn h hf (some (.read c code)) rfl rfl le_rfl (fun d hd => ⟨d, hd, rfl⟩) ?_
    (fun _ => .inl) (fun _ => .inl) ?_ ?_ ?_
  · rintro _ ⟨⟩ d ⟨⟩
    exact h.known c hc
  · intro d hd n hn
    have htally := h.tally d hd
    simp only [hstage, Stage.counts, Option.any_some, Bool.false_eq_true, if_false] at hn
    show w.wrong d.id = d.attempts + n
    omega
  · intro k n hn
    have hle := h.few k
    have htally := h.tally c hc
    simp only [hstage, Stage.reads, Option.any_some, Bool.false_eq_true, if_false,
      decide_eq_true_eq] at hn
    show w.wrong k + n ≤ 5
    split at hn
    · rename_i hk
      subst hk
      omega
    · omega
  · intro k n hn
    have honce := h.once k
    simp only [hstage, Stage.issues, Option.any_some, Bool.false_eq_true, if_false] at hn
    show w.sessionsFrom k + n + w.rows k ≤ 1
    omega

/-- Comparing keeps the counts: what could turn out wrong has, or has not. -/
theorem counted_compares {c : Challenge} {code : String} {right : Bool} {stage : Stage}
    (h : Counted w) (hf : f ∈ w.flights) (hstage : f.stage = .read c code)
    (hnext : stage.challenge = some c) (hreads : ∀ k, stage.reads k = false)
    (hcounts : ∀ k, stage.counts k = (!right && decide (c.id = k)))
    (hissues : ∀ k, stage.issues k = false) :
    Counted { w.put f.id w.db (some stage) with compared := (c.id, right) :: w.compared } := by
  have hknown : c.id < w.db.fresh := h.held f hf c (by rw [hstage]; rfl)
  have hwrong : ∀ k, ((c.id, right) :: w.compared).count (k, false) =
      w.wrong k + if (!right && decide (c.id = k)) = true then 1 else 0 := by
    intro k
    rw [List.count_cons]
    cases right <;> simp [World.wrong]
  refine counted_goOn h hf (some stage) rfl rfl le_rfl (fun d hd => ⟨d, hd, rfl⟩) ?_ ?_
    (fun _ => .inl) ?_ ?_ ?_
  · rintro _ ⟨⟩ d hd
    obtain rfl := Option.some.inj (hnext.symm.trans hd)
    exact hknown
  · intro x hx
    rcases List.mem_cons.mp hx with rfl | hx
    · exact .inr hknown
    · exact .inl hx
  · intro d hd n hn
    have htally := h.tally d hd
    rw [hstage, Option.any_some, hcounts] at hn
    simp only [Stage.counts, Bool.false_eq_true, if_false] at hn
    refine (hwrong d.id).trans ?_
    omega
  · intro k n hn
    have hle := h.few k
    rw [hstage, Option.any_some, hreads] at hn
    simp only [Stage.reads, Bool.false_eq_true, if_false, decide_eq_true_eq] at hn
    refine Nat.le_trans (Nat.le_of_eq (congrArg (· + n) (hwrong k))) ?_
    by_cases hk : c.id = k
    · simp only [hk, decide_true, if_true] at hn ⊢
      split <;> omega
    · simp only [hk, decide_false, Bool.and_false, Bool.false_eq_true, if_false] at hn ⊢
      omega
  · intro k n hn
    have honce := h.once k
    rw [hstage, Option.any_some, hissues] at hn
    simp only [Stage.issues, Bool.false_eq_true, if_false] at hn
    show w.sessionsFrom k + n + w.rows k ≤ 1
    omega

/-- Counting a wrong code keeps the counts. -/
theorem counted_counts {c : Challenge} (h : Counted w) (hf : f ∈ w.flights)
    (hstage : f.stage = .counting c) :
    Counted (w.put f.id { w.db with
      challenges := updateWhere (fun d => d.id = c.id)
        (fun d => { d with attempts := d.attempts + 1 }) w.db.challenges }
      (some (.journaling c .totpFailed))) := by
  refine counted_goOn h hf (some (.journaling c .totpFailed)) rfl rfl le_rfl ?_ ?_
    (fun _ => .inl) (fun _ => .inl) ?_ ?_ ?_
  · intro d hd
    rcases updateWhere_cases hd with ⟨hin, _⟩ | ⟨old, hin, _, rfl⟩
    · exact ⟨d, hin, rfl⟩
    · exact ⟨old, hin, rfl⟩
  · rintro _ ⟨⟩ d ⟨⟩
  · intro d hd n hn
    simp only [hstage, Stage.counts, Option.any_some, Bool.false_eq_true, if_false,
      decide_eq_true_eq] at hn
    show w.wrong d.id = d.attempts + n
    rcases updateWhere_cases hd with ⟨hin, hne⟩ | ⟨old, hin, heq, rfl⟩
    · have htally := h.tally d hin
      have hne : c.id ≠ d.id := fun heq => by simp [heq] at hne
      rw [if_neg hne] at hn
      omega
    · have htally := h.tally old hin
      rw [if_pos (of_decide_eq_true heq).symm] at hn
      dsimp only at hn ⊢
      omega
  · intro k n hn
    have hle := h.few k
    simp only [hstage, Stage.reads, Option.any_some, Bool.false_eq_true, if_false] at hn
    show w.wrong k + n ≤ 5
    omega
  · intro k n hn
    have honce := h.once k
    simp only [hstage, Stage.issues, Option.any_some, Bool.false_eq_true, if_false] at hn
    refine Nat.le_trans (Nat.le_of_eq (congrArg (w.sessionsFrom k + n + ·)
      (rows_updateWhere w.db.challenges c.id k))) ?_
    show w.sessionsFrom k + n + w.rows k ≤ 1
    omega

/-- Deleting a challenge after the right code keeps the counts, if it is there. -/
theorem counted_deletes {c : Challenge} {secret : List UInt8} {code : String} {compared : ℕ}
    (h : Counted w) (hf : f ∈ w.flights) (hstage : f.stage = .matched c secret code compared)
    (hthere : ∃ d ∈ w.db.challenges, d.id = c.id) :
    Counted (w.put f.id { w.db with
      challenges := deleteWhere (fun d => d.id = c.id) w.db.challenges }
      (some (.issuing c secret code compared))) := by
  refine counted_goOn h hf (some (.issuing c secret code compared)) rfl rfl le_rfl
    (fun d hd => ⟨d, (mem_deleteWhere.mp hd).1, rfl⟩) ?_ (fun _ => .inl) (fun _ => .inl) ?_ ?_ ?_
  · rintro _ ⟨⟩ d ⟨⟩
    exact h.held f hf c (by rw [hstage]; rfl)
  · intro d hd n hn
    have htally := h.tally d (mem_deleteWhere.mp hd).1
    simp only [hstage, Stage.counts, Option.any_some, Bool.false_eq_true, if_false] at hn
    show w.wrong d.id = d.attempts + n
    omega
  · intro k n hn
    have hle := h.few k
    simp only [hstage, Stage.reads, Option.any_some, Bool.false_eq_true, if_false] at hn
    show w.wrong k + n ≤ 5
    omega
  · intro k n hn
    have honce := h.once k
    simp only [hstage, Stage.issues, Option.any_some, Bool.false_eq_true, if_false,
      decide_eq_true_eq] at hn
    refine Nat.le_trans (Nat.le_of_eq (congrArg (w.sessionsFrom k + n + ·)
      (rows_deleteWhere w.db.challenges c.id k))) ?_
    show w.sessionsFrom k + n + (if k = c.id then 0 else w.rows k) ≤ 1
    by_cases hk : k = c.id
    · -- The row counted as the one chance, which the request now holds.
      have hrow : 0 < w.rows k := by
        obtain ⟨d, hd, hid⟩ := hthere
        exact List.countP_pos_iff.mpr ⟨d, hd, by simp [hid, hk]⟩
      rw [if_pos hk.symm] at hn
      rw [if_pos hk]
      omega
    · rw [if_neg fun heq => hk heq.symm] at hn
      rw [if_neg hk]
      omega

/-- Opening the session keeps the counts. -/
theorem counted_opens {c : Challenge} {secret : List UInt8} {code : String} {compared : ℕ}
    (h : Counted w) (hf : f ∈ w.flights) (hstage : f.stage = .issuing c secret code compared) :
    Counted { w.put f.id (w.db.openSession c.user) (some (.journaling c .ok)) with
      issued := c.id :: w.issued } := by
  have hknown : c.id < w.db.fresh := h.held f hf c (by rw [hstage]; rfl)
  refine counted_goOn h hf (some (.journaling c .ok)) rfl rfl (Nat.le_succ _)
    (fun d hd => ⟨d, hd, rfl⟩) ?_ (fun _ => .inl) ?_ ?_ ?_ ?_
  · rintro _ ⟨⟩ d ⟨⟩
  · intro k hk
    rcases List.mem_cons.mp hk with rfl | hk
    · exact .inr hknown
    · exact .inl hk
  · intro d hd n hn
    have htally := h.tally d hd
    simp only [hstage, Stage.counts, Option.any_some, Bool.false_eq_true, if_false] at hn
    show w.wrong d.id = d.attempts + n
    omega
  · intro k n hn
    have hle := h.few k
    simp only [hstage, Stage.reads, Option.any_some, Bool.false_eq_true, if_false] at hn
    show w.wrong k + n ≤ 5
    omega
  · intro k n hn
    have honce := h.once k
    have hissued : (c.id :: w.issued).count k = w.sessionsFrom k + if c.id = k then 1 else 0 := by
      rw [List.count_cons]
      simp [World.sessionsFrom]
    simp only [hstage, Stage.issues, Option.any_some, Bool.false_eq_true, if_false,
      decide_eq_true_eq] at hn
    show (c.id :: w.issued).count k + n + w.rows k ≤ 1
    omega

/-- A statement of `login_totp` keeps the counts. -/
theorem counted_went {id clock : ℕ} (h : Counted w) (hf : lookup Flight.id w.flights id = some f)
    (hg : Careful w (.runs id clock)) (hw : Went crypto w f clock w') : Counted w' := by
  obtain ⟨hin, rfl⟩ := lookup_some hf
  simp only [Careful, hf, Option.map_some] at hg
  cases hw with
  | givesUp hstage =>
    refine counted_quiet h hin none rfl rfl le_rfl (fun _ => id) (fun _ => le_rfl) rfl rfl
      (by simp) ?_
    intro k
    rcases hstage with ⟨_, _, hstage⟩ | ⟨_, _, hstage⟩ <;> rw [hstage] <;> rfl
  | @reads c code hstage hc hfew =>
    simp only [hstage] at hg
    exact counted_reads h hin hstage hc (hg c hc rfl hfew)
  | @finds c code hstage hc hmany =>
    refine counted_quiet h hin (some (.spent c.id)) rfl rfl le_rfl (fun _ => id) (fun _ => le_rfl)
      rfl rfl ?_ ?_
    · rintro _ ⟨⟩
      rfl
    · intro k
      rw [hstage]
      rfl
  | @ends challenge hstage =>
    refine counted_quiet h hin none rfl rfl le_rfl (fun c hc => (mem_deleteWhere.mp hc).1) ?_ rfl
      rfl (by simp) ?_
    · intro k
      unfold World.rows
      rw [World.put, rows_deleteWhere]
      split
      · exact Nat.zero_le _
      · exact le_rfl
    · intro k
      rw [hstage]
      rfl
  | @right c code secret hstage hright =>
    exact counted_compares h hin hstage rfl (fun _ => rfl) (fun _ => rfl) fun _ => rfl
  | @wrong c code hstage =>
    exact counted_compares h hin hstage rfl (fun _ => rfl) (fun _ => rfl) fun _ => rfl
  | @counts c hstage => exact counted_counts h hin hstage
  | @deletes c secret code compared hstage =>
    simp only [hstage] at hg
    exact counted_deletes h hin hstage hg
  | @opens c secret code compared hstage => exact counted_opens h hin hstage
  | @records c outcome hstage =>
    refine counted_quiet h hin none rfl rfl le_rfl (fun _ => id) (fun _ => le_rfl) rfl rfl
      (by simp) ?_
    intro k
    rw [hstage]
    rfl

/-- A new challenge has all its codes and its session. -/
theorem counted_parked {c : Challenge} (h : Counted w) (hid : c.id = w.db.fresh)
    (hattempts : c.attempts = 0) (hchallenges : w'.db.challenges = c :: w.db.challenges)
    (hfresh : w.db.fresh < w'.db.fresh) (hflights : w'.flights = w.flights)
    (hnext : w'.nextId = w.nextId) (hcompared : w'.compared = w.compared)
    (hissued : w'.issued = w.issued) : Counted w' := by
  have hle : w.db.fresh ≤ w'.db.fresh := Nat.le_of_lt hfresh
  have hat : ∀ p, w'.atStage p = w.atStage p := fun p => by
    rw [World.atStage, hflights, World.atStage]
  have hwrong : ∀ k, w'.wrong k = w.wrong k := fun k => by rw [World.wrong, hcompared, World.wrong]
  have hsessions : ∀ k, w'.sessionsFrom k = w.sessionsFrom k := fun k => by
    rw [World.sessionsFrom, hissued, World.sessionsFrom]
  have hunused : w.wrong w.db.fresh = 0 ∧ w.sessionsFrom w.db.fresh = 0 := by
    constructor
    · exact List.count_eq_zero.mpr fun hx => Nat.lt_irrefl _ (h.met _ hx)
    · exact List.count_eq_zero.mpr fun hk => Nat.lt_irrefl _ (h.used _ hk)
  have hcounts : w.atStage (Stage.counts w.db.fresh) = 0 := by
    refine h.atStage_fresh fun stage hstage => ?_
    cases stage with
    | counting d => exact ⟨d, rfl, Nat.le_of_eq (of_decide_eq_true hstage).symm⟩
    | _ => cases hstage
  have hissues : w.atStage (Stage.issues w.db.fresh) = 0 := by
    refine h.atStage_fresh fun stage hstage => ?_
    cases stage with
    | issuing d _ _ _ => exact ⟨d, rfl, Nat.le_of_eq (of_decide_eq_true hstage).symm⟩
    | _ => cases hstage
  have hrow : w.rows w.db.fresh = 0 := by
    refine List.countP_eq_zero.mpr fun d hd heq => ?_
    have := h.known d hd
    simp only [decide_eq_true_eq] at heq
    omega
  refine ⟨hflights ▸ h.ids, ?_, ?_, ?_, ?_, ?_, ?_, ?_, ?_⟩
  · exact fun f hf => hnext ▸ h.drawn f (hflights ▸ hf)
  · intro d hd
    rw [hchallenges] at hd
    rcases List.mem_cons.mp hd with rfl | hd
    · omega
    · exact Nat.lt_of_lt_of_le (h.known d hd) hle
  · exact fun f hf d hd => Nat.lt_of_lt_of_le (h.held f (hflights ▸ hf) d hd) hle
  · exact fun x hx => Nat.lt_of_lt_of_le (h.met x (hcompared ▸ hx)) hle
  · exact fun k hk => Nat.lt_of_lt_of_le (h.used k (hissued ▸ hk)) hle
  · intro d hd
    rw [hwrong, hat]
    rw [hchallenges] at hd
    rcases List.mem_cons.mp hd with rfl | hd
    · rw [hid, hunused.1, hattempts, hcounts]
    · exact h.tally d hd
  · intro k
    rw [hwrong, hat]
    exact h.few k
  · intro k
    have honce := h.once k
    unfold World.rows at honce hrow ⊢
    rw [hsessions, hat, hchallenges, List.countP_cons]
    by_cases hk : k = w.db.fresh
    · subst hk
      rw [hunused.2, hissues, hrow]
      split <;> omega
    · rw [if_neg (by simp [hid, Ne.symm hk])]
      exact honce

/-- A step that leaves challenges and requests in flight keeps the counts. -/
theorem counted_of_same (h : Counted w) (hchallenges : w'.db.challenges = w.db.challenges)
    (hfresh : w.db.fresh ≤ w'.db.fresh) (hflights : w'.flights = w.flights)
    (hnext : w'.nextId = w.nextId) (hcompared : w'.compared = w.compared)
    (hissued : w'.issued = w.issued) : Counted w' := by
  refine ⟨hflights ▸ h.ids, fun f hf => hnext ▸ h.drawn f (hflights ▸ hf),
    fun c hc => Nat.lt_of_lt_of_le (h.known c (hchallenges ▸ hc)) hfresh,
    fun f hf d hd => Nat.lt_of_lt_of_le (h.held f (hflights ▸ hf) d hd) hfresh,
    fun x hx => Nat.lt_of_lt_of_le (h.met x (hcompared ▸ hx)) hfresh,
    fun k hk => Nat.lt_of_lt_of_le (h.used k (hissued ▸ hk)) hfresh, ?_, ?_, ?_⟩
  · intro c hc
    rw [World.wrong, World.atStage, hcompared, hflights]
    exact h.tally c (hchallenges ▸ hc)
  · intro k
    rw [World.wrong, World.atStage, hcompared, hflights]
    exact h.few k
  · intro k
    rw [World.sessionsFrom, World.atStage, World.rows, hissued, hflights, hchallenges]
    exact h.once k

/-- A `login` keeps the counts. -/
theorem counted_login {db' : Db} {req : LoginRequest} {ip : Option IpAddr} {fails : List Query}
    {opened : Option (ℕ × ℕ)} (h : Counted w) (hl : LoggedIn crypto w.db req ip fails db' opened) :
    Counted { w with db := db', passed := opened.toList ++ w.passed } := by
  cases hl with
  | refused events => exact counted_of_same h rfl le_rfl rfl rfl rfl rfl
  | parked u events hu hadmits hright =>
    exact counted_parked h rfl rfl rfl (Nat.lt_succ_self _) rfl rfl rfl rfl
  | session u events hu hadmits hright hfactor =>
    exact counted_of_same h rfl (Nat.le_succ _) rfl rfl rfl rfl

/-- A request that arrives has yet to read the challenge. -/
theorem counted_presents (h : Counted w) (challenge : ℕ) (code : String) :
    Counted { w with
      flights := ⟨w.nextId, .asked challenge code⟩ :: w.flights
      nextId := w.nextId + 1 } := by
  refine ⟨h.ids.cons fun f hf => Nat.ne_of_lt (h.drawn f hf), ?_, h.known, ?_, h.met, h.used,
    ?_, ?_, ?_⟩
  · intro f hf
    rcases List.mem_cons.mp hf with rfl | hf
    · exact Nat.lt_succ_self _
    · exact Nat.lt_succ_of_lt (h.drawn f hf)
  · intro f hf c hc
    rcases List.mem_cons.mp hf with rfl | hf
    · cases hc
    · exact h.held f hf c hc
  · exact fun c hc => (h.tally c hc).trans (by simp [World.atStage, Stage.counts])
  · exact fun k => Nat.le_trans (Nat.le_of_eq (by simp [World.wrong, World.atStage, Stage.reads]))
      (h.few k)
  · exact fun k => Nat.le_trans
      (Nat.le_of_eq (by simp [World.sessionsFrom, World.atStage, World.rows, Stage.issues]))
      (h.once k)

/-- A request that is lost before it has to count a wrong code keeps the counts. -/
theorem counted_lost {id : ℕ} (h : Counted w) (hg : Careful w (.lost id)) :
    Counted { w with flights := deleteWhere (fun f => f.id = id) w.flights } := by
  cases hf : lookup Flight.id w.flights id with
  | none =>
    have hsame : deleteWhere (fun f => f.id = id) w.flights = w.flights :=
      deleteWhere_of_not fun f hin => decide_eq_false (lookup_none hf f hin)
    rw [hsame]
    exact h
  | some f =>
    obtain ⟨hin, rfl⟩ := lookup_some hf
    refine counted_quiet h hin none rfl rfl le_rfl (fun _ => id) (fun _ => le_rfl) rfl rfl nofun ?_
    intro k
    simp only [Careful, hf, Option.map_some] at hg
    cases hstage : f.stage with
    | counting c =>
      rw [hstage] at hg
      exact hg.elim
    | _ => rfl

/-- Every careful step keeps the counts. -/
theorem counted_step : Preserved (step crypto) Careful Counted := by
  intro w a w' h hg hs
  cases a with
  | login req ip fails =>
    cases hs
    exact counted_login h (login_cases crypto w.db req ip fails)
  | enrolls code passwordHash ip =>
    obtain ⟨db', hdb, rfl⟩ := Option.map_eq_some_iff.mp hs
    obtain ⟨i, _, hj, _⟩ := completeEnrollment_some hdb
    exact counted_of_same h hj.challenges (by rw [hj.fresh]; omega) rfl rfl rfl rfl
  | signsUp email passwordHash ip =>
    obtain ⟨db', hdb, rfl⟩ := Option.map_eq_some_iff.mp hs
    obtain ⟨hj, _⟩ := signup_some hdb
    exact counted_of_same h hj.challenges (by rw [hj.fresh]; omega) rfl rfl rfl rfl
  | presents challenge code =>
    cases hs
    exact counted_presents h challenge code
  | runs id clock =>
    obtain ⟨f, hf, rfl⟩ := Option.map_eq_some_iff.mp hs
    exact counted_went h hf hg (next_cases crypto w f clock)
  | lost id =>
    cases hs
    exact counted_lost h hg
  | changes change =>
    obtain ⟨⟨_, _, hfresh⟩, ⟨⟩⟩ := Option.ite_none_right_eq_some.mp hs
    exact counted_of_same h rfl hfresh rfl rfl rfl rfl
  | tick seconds =>
    cases hs
    exact counted_of_same h rfl le_rfl rfl rfl rfl rfl

/-- In every careful run at most five wrong codes are compared for a challenge, and at
most one session is opened from it. -/
theorem challenge_bounds (hr : Reached init (step crypto) Careful w) (k : ℕ) :
    w.wrong k ≤ 5 ∧ w.sessionsFrom k ≤ 1 := by
  have h : Counted w := hr.invariant Counted (fun _ hi => hi ▸ counted_empty) counted_step
  have hfew := h.few k
  have honce := h.once k
  constructor <;> omega

/-- A request comes, and runs to its end. -/
def whole (id challenge : ℕ) (code : String) (statements : ℕ) : List Label :=
  .presents challenge code :: List.replicate statements (.runs id 10)

/-- The member gives the password, five wrong codes and then the right one, too late. -/
def guessing : List Label :=
  [.changes (office false 10), .login fromDesk (some desk) []] ++
    (List.range 5).flatMap (fun id => whole id 10 "123456" 4) ++ whole 5 10 "755224" 2

/-- Five are compared, and no session is opened. -/
theorem challenge_bounds_guessing :
    (after oneSecret guessing).wrong 10 = 5 ∧ (after oneSecret guessing).db.challenges = [] ∧
      (after oneSecret guessing).sessionsFrom 10 ≤ 1 := by
  have hempty : Reached init (step oneSecret) Careful empty := .start rfl
  have hguessing : Reached init (step oneSecret) Careful (after oneSecret guessing) :=
    hempty.run guessing (by decide) (by decide)
  exact ⟨by decide, by decide, (challenge_bounds hguessing 10).2⟩

/-- The parked sign-in, and requests that have all read it before one goes on. -/
def racing (code : String) (requests : ℕ) : List Label :=
  [.changes (office false 10), .login fromDesk (some desk) []] ++
    List.replicate requests (.presents 10 code) ++
    (List.range requests).map (fun id => .runs id 10) ++
    (List.range requests).flatMap fun id => List.replicate 3 (.runs id 10)

/-- Six wrong codes are compared when six requests race, and two sessions are opened when
two of them do. -/
theorem racing_exceeds :
    (∃ w, run (step oneSecret) empty (racing "123456" 6) = some w ∧ 5 < w.wrong 10) ∧
    ∃ w, run (step oneSecret) empty (racing "755224" 2) = some w ∧ 1 < w.sessionsFrom 10 :=
  ⟨⟨after oneSecret (racing "123456" 6), by decide, by decide⟩,
    ⟨after oneSecret (racing "755224" 2), by decide, by decide⟩⟩

end FuryBrowser.SignIn
