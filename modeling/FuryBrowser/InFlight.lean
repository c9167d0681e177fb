import Mathlib.Algebra.GroupWithZero.Nat
import FuryBrowser.GuardedRuns
import FuryBrowser.RowTable

/-!
# Requests in flight

A server answers any number of requests at once. Each is a handler that runs statement
by statement over the same tables; what it has found it carries to its next statement,
and between two of its statements any statement of another can come. A statement can wait,
and a request can be lost at any point.

What is assumed of the tables and of each request is proved for one statement, and then
holds in every state of every guarded run.
-/

namespace FuryBrowser.InFlight

open GuardedRuns RowTable

universe u v w x y

variable {δ : Type u} {γ : Type v} {σ : Type w} {ε : Type x} {ο : Type y}

/-- A request in flight. -/
structure Flight (γ : Type v) (σ : Type w) where
  id : ℕ
  caller : γ
  /-- What it carries to its next statement. -/
  stage : σ
  deriving DecidableEq, Repr

/-- The requests in flight, each with an id of its own. -/
structure Flights (γ : Type v) (σ : Type w) where
  all : List (Flight γ σ)
  nextId : ℕ
  /-- No two have the same id. -/
  ids : KeyUnique Flight.id all
  /-- The next id is a new one. -/
  fresh : ∀ f ∈ all, f.id < nextId

namespace Flights

variable (fs : Flights γ σ) (id : ℕ)

/-- No requests. -/
def none : Flights γ σ := ⟨[], 0, keyUnique_nil, fun _ h => by cases h⟩

/-- A request arrives. -/
def start (caller : γ) (stage : σ) : Flights γ σ where
  all := ⟨fs.nextId, caller, stage⟩ :: fs.all
  nextId := fs.nextId + 1
  ids := fs.ids.cons fun f hf => Nat.ne_of_lt (fs.fresh f hf)
  fresh f hf := by
    rcases List.mem_cons.mp hf with rfl | hin
    · exact Nat.lt_succ_self _
    · exact Nat.lt_succ_of_lt (fs.fresh f hin)

/-- A request is over, or lost. -/
def drop : Flights γ σ where
  all := deleteWhere (fun f => f.id = id) fs.all
  nextId := fs.nextId
  ids := fs.ids.deleteWhere
  fresh f hf := fs.fresh f (mem_deleteWhere.mp hf).1

/-- A request is at a stage. -/
def moveTo (stage : σ) : Flights γ σ where
  all := updateWhere (fun f => f.id = id) (fun f => { f with stage := stage }) fs.all
  nextId := fs.nextId
  ids := fs.ids.updateWhere fun _ _ => rfl
  fresh f hf := by
    rcases updateWhere_cases hf with ⟨hin, _⟩ | ⟨old, hold, _, rfl⟩
    · exact fs.fresh f hin
    · exact fs.fresh old hold

/-- A request goes on to its next stage, or is over. -/
def goOn : Option σ → Flights γ σ
  | .none => fs.drop id
  | some stage => fs.moveTo id stage

/-- The sum of a number that each request stands for. -/
def total (g : Flight γ σ → ℕ) : ℕ := (fs.all.map g).sum

variable {fs id} {f f' : Flight γ σ} {caller : γ} {stage : σ} {st : Option σ}

@[simp] theorem mem_start :
    f ∈ (fs.start caller stage).all ↔ f = ⟨fs.nextId, caller, stage⟩ ∨ f ∈ fs.all :=
  List.mem_cons

/-- Whoever is not the one that goes on is still there. -/
theorem mem_goOn_of_ne (h : f ∈ fs.all) (hne : f.id ≠ id) : f ∈ (fs.goOn id st).all := by
  have hid : decide (f.id = id) = false := decide_eq_false hne
  cases st with
  | none => exact mem_deleteWhere.mpr ⟨h, hid⟩
  | some stage => exact mem_updateWhere_of_not h hid

/-- And the one that does is there, at its next stage. -/
theorem mem_goOn_self (h : f ∈ fs.all) :
    { f with stage := stage } ∈ (fs.goOn f.id (some stage)).all :=
  mem_updateWhere_of h (decide_eq_true rfl)

@[simp] theorem mem_drop : f ∈ (fs.drop id).all ↔ f ∈ fs.all ∧ f.id ≠ id := by
  simp [drop]

/-- After a statement a request is at its next stage, and the others are where they were. -/
theorem mem_goOn (hf : f ∈ fs.all) (h : f' ∈ (fs.goOn f.id st).all) :
    (f' ∈ fs.all ∧ f'.id ≠ f.id) ∨
      ∃ stage, st = some stage ∧ f' = { f with stage := stage } := by
  cases st with
  | none => exact .inl (mem_drop.mp h)
  | some stage =>
    rcases updateWhere_cases h with ⟨hin, hne⟩ | ⟨old, hold, heq, rfl⟩
    · exact .inl ⟨hin, by simpa using hne⟩
    · have hsame : old = f := fs.ids.eq hold hf (of_decide_eq_true heq)
      exact .inr ⟨stage, rfl, by rw [hsame]⟩

theorem total_start (g : Flight γ σ → ℕ) :
    (fs.start caller stage).total g = g ⟨fs.nextId, caller, stage⟩ + fs.total g :=
  List.sum_cons

private theorem sum_deleteWhere {rows : List (Flight γ σ)} (h : KeyUnique Flight.id rows)
    (hf : f ∈ rows) (g : Flight γ σ → ℕ) :
    ((deleteWhere (fun f' => f'.id = f.id) rows).map g).sum + g f = (rows.map g).sum := by
  induction rows with
  | nil => cases hf
  | cons s rows ih =>
    by_cases hk : s.id = f.id
    · obtain rfl := h.eq List.mem_cons_self hf hk
      have hrest := deleteWhere_of_not h.tail_ne
      have hdelete : deleteWhere (fun t => t.id = s.id) (s :: rows) = rows := by
        unfold deleteWhere at hrest ⊢
        simpa using hrest
      rw [hdelete, List.map_cons, List.sum_cons]
      omega
    · have hin : f ∈ rows := (List.mem_cons.mp hf).resolve_left fun heq => hk (heq ▸ rfl)
      have hdelete : deleteWhere (fun t => t.id = f.id) (s :: rows) =
          s :: deleteWhere (fun t => t.id = f.id) rows := by
        simp [deleteWhere, hk]
      have hsum := ih (List.nodup_cons.mp h).2 hin
      rw [hdelete, List.map_cons, List.map_cons, List.sum_cons, List.sum_cons]
      omega

private theorem sum_updateWhere {rows : List (Flight γ σ)} (h : KeyUnique Flight.id rows)
    (hf : f ∈ rows) (change : Flight γ σ → Flight γ σ) (g : Flight γ σ → ℕ) :
    ((updateWhere (fun f' => f'.id = f.id) change rows).map g).sum + g f =
      (rows.map g).sum + g (change f) := by
  induction rows with
  | nil => cases hf
  | cons s rows ih =>
    by_cases hk : s.id = f.id
    · obtain rfl := h.eq List.mem_cons_self hf hk
      have hrest := updateWhere_of_not (f := change) h.tail_ne
      have hupdate : updateWhere (fun t => t.id = s.id) change (s :: rows) = change s :: rows := by
        unfold updateWhere at hrest ⊢
        rw [List.map_cons, hrest]
        simp
      rw [hupdate, List.map_cons, List.map_cons, List.sum_cons, List.sum_cons]
      omega
    · have hin : f ∈ rows := (List.mem_cons.mp hf).resolve_left fun heq => hk (heq ▸ rfl)
      have hupdate : updateWhere (fun t => t.id = f.id) change (s :: rows) =
          s :: updateWhere (fun t => t.id = f.id) change rows := by
        simp [updateWhere, hk]
      have hsum := ih (List.nodup_cons.mp h).2 hin
      rw [hupdate, List.map_cons, List.map_cons, List.sum_cons, List.sum_cons]
      omega

/-- A request counts as what it goes on with. -/
theorem total_goOn (hf : f ∈ fs.all) (g : Flight γ σ → ℕ) :
    (fs.goOn f.id st).total g + g f =
      fs.total g + (st.map fun stage => g { f with stage := stage }).getD 0 := by
  cases st with
  | none => exact sum_deleteWhere fs.ids hf g
  | some stage => exact sum_updateWhere fs.ids hf (fun f => { f with stage := stage }) g

/-- A request that is lost counts no more. -/
theorem total_drop_le (g : Flight γ σ → ℕ) : (fs.drop id).total g ≤ fs.total g := by
  cases hl : lookup Flight.id fs.all id with
  | none =>
    have hsame : deleteWhere (fun f => f.id = id) fs.all = fs.all :=
      deleteWhere_of_not fun f hf => by simpa using lookup_none hl f hf
    simp only [total, drop, hsame, Nat.le_refl]
  | some f =>
    obtain ⟨hf, rfl⟩ := lookup_some hl
    have hdrop : (fs.drop f.id).total g + g f = fs.total g := sum_deleteWhere fs.ids hf g
    omega

end Flights

/-- Tables, and the requests in flight over them. -/
structure World (δ : Type u) (γ : Type v) (σ : Type w) where
  db : δ
  flights : Flights γ σ

/-- What happens next. -/
inductive Label (γ : Type v) (σ : Type w) (ε : Type x) (ο : Type y) where
  | arrives (caller : γ) (stage : σ)
  /-- The next statement of a request runs, and finds this outside of the tables. -/
  | runs (id : ℕ) (env : ε)
  | lost (id : ℕ)
  /-- Something else changes the tables. -/
  | outside (change : ο)
  deriving DecidableEq, Repr

/-- The handlers of a server. -/
structure Handlers (δ : Type u) (γ : Type v) (σ : Type w) (ε : Type x) (ο : Type y) where
  /-- A request arrives at this stage. -/
  arrives : σ → Bool
  /-- A statement: the tables after it and the next stage, if it is not over; none when it
  waits. -/
  next : δ → γ → ε → σ → Option (δ × Option σ)
  /-- What something else does to the tables. -/
  outside : δ → ο → δ
  /-- A statement waits for what another request holds. -/
  waits : World δ γ σ → Flight γ σ → Bool := fun _ _ => false

/-- One step. -/
def step (h : Handlers δ γ σ ε ο) (w : World δ γ σ) : Label γ σ ε ο → Option (World δ γ σ)
  | .arrives caller stage =>
    if h.arrives stage then some { w with flights := w.flights.start caller stage } else none
  | .runs id env => (lookup Flight.id w.flights.all id).bind fun f =>
    if h.waits w f then none
    else (h.next w.db f.caller env f.stage).map fun r => ⟨r.1, w.flights.goOn id r.2⟩
  | .lost id => some { w with flights := w.flights.drop id }
  | .outside change => some { w with db := h.outside w.db change }

section Steps

variable {h : Handlers δ γ σ ε ο} {w w' : World δ γ σ}

/-- A statement is one of a request in flight. -/
theorem runs_some {id : ℕ} {env : ε} (hs : step h w (.runs id env) = some w') :
    ∃ f ∈ w.flights.all, f.id = id ∧ ∃ db' st,
      h.next w.db f.caller env f.stage = some (db', st) ∧ w' = ⟨db', w.flights.goOn f.id st⟩ := by
  obtain ⟨f, hf, hs⟩ := Option.bind_eq_some_iff.mp hs
  obtain ⟨_, hs⟩ := Option.ite_none_left_eq_some.mp hs
  obtain ⟨⟨db', st⟩, hnext, rfl⟩ := Option.map_eq_some_iff.mp hs
  obtain ⟨hmem, rfl⟩ := lookup_some hf
  exact ⟨f, hmem, rfl, db', st, hnext, rfl⟩

theorem arrives_some {caller : γ} {stage : σ} (hs : step h w (.arrives caller stage) = some w') :
    h.arrives stage = true ∧ w' = { w with flights := w.flights.start caller stage } := by
  obtain ⟨harrives, heq⟩ := Option.ite_none_right_eq_some.mp hs
  exact ⟨harrives, (Option.some.inj heq).symm⟩

end Steps

/-- The tables are right, and so is what each request carries. -/
structure Sound (inv : δ → Prop) (own : δ → γ → σ → Prop) (w : World δ γ σ) : Prop where
  db : inv w.db
  own : ∀ f ∈ w.flights.all, own w.db f.caller f.stage

/-- Where no request is in flight, the tables are all there is. -/
theorem Sound.of_idle {inv : δ → Prop} {own : δ → γ → σ → Prop} {w : World δ γ σ} (h : inv w.db)
    (hnone : w.flights.all = []) : Sound inv own w := by
  refine ⟨h, fun f hf => ?_⟩
  rw [hnone] at hf
  cases hf

/-- What a statement has to keep for tables and requests to stay right. -/
structure Keeps (inv : δ → Prop) (own : δ → γ → σ → Prop) (w : World δ γ σ) (f : Flight γ σ)
    (db' : δ) (st : Option σ) : Prop where
  /-- The tables are right after it. -/
  db : inv db'
  /-- So is what the request goes on with. -/
  self : ∀ stage, st = some stage → own db' f.caller stage
  /-- And what the others carry. -/
  others : ∀ g ∈ w.flights.all, g.id ≠ f.id → own db' g.caller g.stage

/-- A statement that only reads has to say no more than what it found. -/
theorem Keeps.of_read {inv : δ → Prop} {own : δ → γ → σ → Prop} {w : World δ γ σ}
    {f : Flight γ σ} {st : Option σ} (hw : Sound inv own w)
    (hself : ∀ stage, st = some stage → own w.db f.caller stage) : Keeps inv own w f w.db st :=
  ⟨hw.db, hself, fun g hg _ => hw.own g hg⟩

/-- The last statement of a request, after which tables and requests are right. -/
theorem Keeps.of_last {inv : δ → Prop} {own : δ → γ → σ → Prop} {w : World δ γ σ}
    {f : Flight γ σ} {db' : δ} (h : Sound inv own ⟨db', w.flights⟩) :
    Keeps inv own w f db' none :=
  ⟨h.db, (fun _ hst => by cases hst), fun g hg _ => h.own g hg⟩

/-- Tables and requests stay right when every statement keeps them so. -/
theorem preserved_sound {h : Handlers δ γ σ ε ο}
    {guard : World δ γ σ → Label γ σ ε ο → Prop} {inv : δ → Prop} {own : δ → γ → σ → Prop}
    (harrives : ∀ db caller stage, inv db → h.arrives stage = true → own db caller stage)
    (hruns : ∀ w f env db' st, Sound inv own w → f ∈ w.flights.all → guard w (.runs f.id env) →
      h.next w.db f.caller env f.stage = some (db', st) → Keeps inv own w f db' st)
    (houtside : ∀ w change, Sound inv own w → guard w (.outside change) →
      Sound inv own { w with db := h.outside w.db change }) :
    Preserved (step h) guard (Sound inv own) := by
  intro w a w' hw hg hs
  cases a with
  | arrives caller stage =>
    obtain ⟨hstage, rfl⟩ := arrives_some hs
    refine ⟨hw.db, fun f hf => ?_⟩
    rcases Flights.mem_start.mp hf with rfl | hin
    · exact harrives w.db caller stage hw.db hstage
    · exact hw.own f hin
  | runs id env =>
    obtain ⟨f, hf, rfl, db', st, hnext, rfl⟩ := runs_some hs
    have hkeeps := hruns w f env db' st hw hf hg hnext
    refine ⟨hkeeps.db, fun f' hf' => ?_⟩
    rcases Flights.mem_goOn hf hf' with ⟨hin, hne⟩ | ⟨stage, rfl, rfl⟩
    · exact hkeeps.others f' hin hne
    · exact hkeeps.self stage rfl
  | lost id =>
    cases hs
    exact ⟨hw.db, fun f hf => hw.own f (Flights.mem_drop.mp hf).1⟩
  | outside change =>
    cases hs
    exact houtside w change hw hg

end FuryBrowser.InFlight
