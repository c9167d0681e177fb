import FuryBrowser.GuardedRuns
import FuryBrowser.IndexedTable
import FuryBrowser.TextBytes
import Mathlib.Logic.Function.Basic

/-!
# Reading the session token from the keychain

The token is read when it is first asked for, on a thread of its own that the caller waits for. Two
flags say whether it was read and whether a read is under way. Each of the calls takes one lock after
another, and whatever other calls do may come between two of them; the keychain answers when it
likes, and a caller that has waited for too long goes on without the answer.

One read is under way at most. In time the flags come back to where the next call is served; after
one wait that was too long the second flag stays as it is, and no call reads anything again.
-/

namespace FuryBrowser.TokenReads

open GuardedRuns IndexedTable
open TextBytes (Text)

section Model

/-- `Session`. -/
structure Session where
  /-- Whose token it is: the server's URL. -/
  account : Text
  token : Option Text
  /-- The keychain has been consulted. -/
  loaded : Bool
  reading : Bool
  deriving DecidableEq, Repr

/-- `Session::new`. -/
def Session.new : Session := ⟨[], none, false, false⟩

/-- The entries of the keychain. -/
abbrev Keychain := Text → Option Text

/-- What the shell asks of the session. -/
inductive Request
  /-- `token`, or `is_signed_in`. -/
  | read
  | bind (account : Text)
  | store (token : Text)
  | clear
  deriving DecidableEq, Repr

/-- Where a call is: what it does next, and what it has taken along. -/
inductive Call
  /-- It looks whether the keychain has been consulted. -/
  | asked
  /-- It looks for whom to ask. -/
  | unloaded
  /-- It looks whether a read is in flight, and starts one if not. -/
  | named (account : Text)
  /-- It waits for the keychain. -/
  | waiting (account : Text)
  /-- It keeps what the keychain has. -/
  | answered (stored : Option Text)
  /-- It says that the keychain has been consulted. -/
  | kept
  /-- It says that no read is in flight. -/
  | marked
  | returning
  | returned (token : Option Text)
  /-- `bind` takes the account. -/
  | binding (account : Text)
  | dropping
  /-- It says that the keychain has not been consulted. -/
  | unmarking
  /-- `store` takes the token. -/
  | storing (token : Text)
  /-- It says that nothing has to be read. -/
  | storedHere (token : Text)
  /-- It looks for whom to write. -/
  | writing (token : Text)
  /-- It writes to the keychain. -/
  | entry (account token : Text)
  /-- `clear` drops the token. -/
  | clearing
  /-- It says that nothing has to be read. -/
  | cleared
  /-- It looks whose entry to delete. -/
  | deleting
  | noEntry (account : Text)
  | done
  deriving DecidableEq, Repr

/-- Where a call begins. -/
def Request.begin : Request → Call
  | .read => .asked
  | .bind account => .binding account
  | .store token => .storing token
  | .clear => .clearing

/-- One lock of a call: the session, the keychain and the call after it. A change to the keychain may
fail. -/
def Call.advance (works : Bool) (s : Session) (k : Keychain) :
    Call → Option (Session × Keychain × Call)
  | .asked => some (s, k, if s.loaded then .returning else .unloaded)
  | .unloaded => some (s, k, if s.account = [] then .returning else .named s.account)
  | .named account =>
    if s.reading then some (s, k, .returning)
    else some ({ s with reading := true }, k, .waiting account)
  | .waiting _ => none
  | .answered stored => some ({ s with token := stored }, k, .kept)
  | .kept => some ({ s with loaded := true }, k, .marked)
  | .marked => some ({ s with reading := false }, k, .returning)
  | .returning => some (s, k, .returned s.token)
  | .returned _ => none
  | .binding account => some ({ s with account := account }, k, .dropping)
  | .dropping => some ({ s with token := none }, k, .unmarking)
  | .unmarking => some ({ s with loaded := false }, k, .done)
  | .storing token => some ({ s with token := some token }, k, .storedHere token)
  | .storedHere token => some ({ s with loaded := true }, k, .writing token)
  | .writing token => some (s, k, .entry s.account token)
  | .entry account token =>
    some (s, if works ∧ account ≠ [] then Function.update k account (some token) else k, .done)
  | .clearing => some ({ s with token := none }, k, .cleared)
  | .cleared => some ({ s with loaded := true }, k, .deleting)
  | .deleting => some (s, k, .noEntry s.account)
  | .noEntry account =>
    some (s, if works ∧ account ≠ [] then Function.update k account none else k, .done)
  | .done => none

/-- It holds the flag of the reads. -/
def Call.holds : Call → Bool
  | .waiting _ | .answered _ | .kept | .marked => true
  | _ => false

/-- Its read waits for the keychain. -/
def Call.waits : Call → Bool
  | .waiting _ => true
  | _ => false

/-- It has an answer and takes it over. -/
def Call.takesOver : Call → Bool
  | .answered _ | .kept | .marked => true
  | _ => false

/-- It is a call that binds, stores or clears. -/
def Call.changes : Call → Bool
  | .binding _ | .dropping | .unmarking | .storing _ | .storedHere _ | .writing _ | .entry _ _
  | .clearing | .cleared | .deleting | .noEntry _ => true
  | _ => false

/-- The application: the session, the keychain, the calls so far, and the reads that their callers no
longer wait for. -/
structure World where
  session : Session
  keychain : Keychain
  calls : List Call
  /-- Whom the reads are for that go on without a caller. -/
  late : List Text
  /-- The last answer, if it was for the bound account and nothing was bound, stored or cleared
  since. -/
  arrived : Option (Option Text)

/-- What may happen. -/
inductive Op
  | call (request : Request)
  /-- A call goes on to its next lock. -/
  | advance (i : ℕ) (works : Bool)
  /-- The keychain answers a read, with what it has or with an error. -/
  | answer (i : ℕ) (works : Bool)
  /-- A caller has waited for too long. -/
  | timeOut (i : ℕ)
  /-- The keychain answers a read whose caller is gone. -/
  | answerLate (j : ℕ) (works : Bool)
  deriving DecidableEq, Repr

/-- What an answer leaves to be known. -/
def World.told (w : World) (account : Text) (stored : Option Text) : Option (Option Text) :=
  if account = w.session.account then some stored else none

/-- One step. -/
def World.step (w : World) : Op → Option World
  | .call request => some { w with calls := w.calls ++ [request.begin] }
  | .advance i works => do
    let c ← w.calls[i]?
    let (session, keychain, after) ← c.advance works w.session w.keychain
    some ⟨session, keychain, w.calls.set i after, w.late, if c.changes then none else w.arrived⟩
  | .answer i works =>
    match w.calls[i]? with
    | some (.waiting account) =>
      let stored := if works then w.keychain account else none
      some { w with calls := w.calls.set i (.answered stored), arrived := w.told account stored }
    | _ => none
  | .timeOut i =>
    match w.calls[i]? with
    | some (.waiting account) =>
      some { w with calls := w.calls.set i .returning, late := w.late ++ [account] }
    | _ => none
  | .answerLate j works => do
    let account ← w.late[j]?
    let stored := if works then w.keychain account else none
    some { w with late := w.late.eraseIdx j, arrived := w.told account stored }

/-- Nothing has been asked yet. -/
def begun (w : World) : Prop :=
  w.session = .new ∧ w.calls = [] ∧ w.late = [] ∧ w.arrived = none

/-- Nobody waits for too long. -/
def inTime : World → Op → Prop
  | _, .timeOut _ => False
  | _, _ => True

instance : DecidableRel inTime := fun _ op => by
  cases op <;> unfold inTime <;> infer_instance

end Model

section Promises

/-- What a token read does that begins now and is not disturbed. -/
inductive Outcome
  /-- It returns what is there. -/
  | returns (token : Option Text)
  /-- It starts a read of the keychain. -/
  | starts (account : Text)
  deriving DecidableEq, Repr

/-- `token`, undisturbed. -/
def Session.tokenRead (s : Session) : Outcome :=
  if s.loaded then .returns s.token
  else if s.account = [] then .returns s.token
  else if s.reading then .returns s.token
  else .starts s.account

/-- The reads that wait for the keychain, with a caller or without one. -/
def World.waiting (w : World) : ℕ := w.calls.countP Call.waits + w.late.length

/-- Nobody signs in. -/
def Op.quiet : Op → Bool
  | .call (.store _) => false
  | _ => true

/-- Without a sign-in and without a restart, a token that the keychain has can still be had. -/
def Recoverable (w : World) : Prop :=
  ∀ account token, account ≠ [] → w.keychain account = some token →
    ∃ ops w' i, (∀ op ∈ ops, op.quiet = true) ∧ run World.step w ops = some w' ∧
      w.calls.length ≤ i ∧ w'.calls[i]? = some (.returned (some token))

/-- What a slow keychain must not take away. -/
structure Served (w : World) : Prop where
  /-- At most one read waits for the keychain. -/
  one : w.waiting ≤ 1
  /-- What the keychain answered is returned by the next token read, or it starts a new one. -/
  next : ∀ stored, w.arrived = some stored → (∀ c ∈ w.calls, c.takesOver = false) →
    w.session.tokenRead = .returns stored ∨ ∃ account, w.session.tokenRead = .starts account
  /-- The stored token can still be had. -/
  recoverable : Recoverable w

end Promises

section Tables

variable {l : List Call} {i : ℕ} {c after x : Call} {p : Call → Bool}

theorem countP_set (h : l[i]? = some c) :
    (l.set i after).countP p + (p c).toNat = l.countP p + (p after).toNat := by
  have htoNat (b : Bool) : (if b = true then 1 else 0) = b.toNat := by cases b <;> rfl
  induction l generalizing i with
  | nil => cases h
  | cons d l ih =>
    cases i with
    | zero =>
      obtain rfl : d = c := by simpa using h
      simp only [List.set_cons_zero, List.countP_cons, htoNat]
      omega
    | succ i =>
      have hrest := ih (i := i) (by simpa using h)
      simp only [List.set_cons_succ, List.countP_cons]
      omega

/-- Two that are different count as two. -/
theorem two_le_countP {y : Call} (hx : x ∈ l) (hy : y ∈ l) (hne : x ≠ y) (hpx : p x = true)
    (hpy : p y = true) : 2 ≤ l.countP p := by
  induction l with
  | nil => cases hx
  | cons d l ih =>
    rw [List.countP_cons]
    have hone {z : Call} (hz : z ∈ l) (hpz : p z = true) : 0 < l.countP p :=
      List.countP_pos_iff.mpr ⟨z, hz, hpz⟩
    rcases List.mem_cons.mp hx with rfl | hx' <;> rcases List.mem_cons.mp hy with rfl | hy'
    · exact absurd rfl hne
    · have := hone hy' hpy
      rw [if_pos hpx]
      omega
    · have := hone hx' hpx
      rw [if_pos hpy]
      omega
    · exact Nat.le_add_right_of_le (ih hx' hy')

/-- What a replacement has nothing to do with is there as it was. -/
theorem mem_set_iff (h : l[i]? = some c) (hc : x ≠ c) (hafter : x ≠ after) :
    x ∈ l.set i after ↔ x ∈ l := by
  rw [List.mem_iff_getElem?, List.mem_iff_getElem?]
  constructor
  · rintro ⟨j, hj⟩
    rcases set_cases hj with ⟨-, hwas⟩ | ⟨-, heq⟩
    · exact ⟨j, hwas⟩
    · exact absurd heq hafter
  · rintro ⟨j, hj⟩
    refine ⟨j, ?_⟩
    rw [List.getElem?_set_ne, hj]
    rintro rfl
    exact hc (Option.some.inj (hj.symm.trans h))

end Tables

section Flags

variable {w w' : World} {s s' : Session} {k k' : Keychain} {c after : Call} {works : Bool}

/-- How many calls hold the flag. -/
def World.holders (w : World) : ℕ := w.calls.countP Call.holds

/-- What one lock of a call does to the flag: nothing, or the call takes it, or it gives it back. -/
theorem advance_flag (h : c.advance works s k = some (s', k', after)) :
    (after.holds = c.holds ∧ s'.reading = s.reading) ∨
      (c.holds = false ∧ s.reading = false ∧ after.holds = true ∧ s'.reading = true) ∨
        (c.holds = true ∧ after.holds = false ∧ s'.reading = false) := by
  cases c with
  | asked =>
    cases h
    cases s.loaded <;> exact .inl ⟨rfl, rfl⟩
  | unloaded =>
    cases h
    by_cases hnil : s.account = [] <;> simp [hnil, Call.holds]
  | named account =>
    cases hreading : s.reading <;> simp only [Call.advance, hreading] at h <;> cases h
    · exact .inr (.inl ⟨rfl, rfl, rfl, rfl⟩)
    · exact .inl ⟨rfl, hreading⟩
  | waiting account => cases h
  | returned token => cases h
  | done => cases h
  | marked =>
    cases h
    exact .inr (.inr ⟨rfl, rfl, rfl⟩)
  | answered _ | kept | returning | binding _ | dropping | unmarking | storing _ | storedHere _
  | writing _ | entry _ _ | clearing | cleared | deleting | noEntry _ =>
    cases h
    exact .inl ⟨rfl, rfl⟩

theorem step_cases {op : Op} (h : w.step op = some w') :
    (∃ request, op = .call request ∧ w' = { w with calls := w.calls ++ [request.begin] }) ∨
      (∃ i works c s' k' after, op = .advance i works ∧ w.calls[i]? = some c ∧
        c.advance works w.session w.keychain = some (s', k', after) ∧
        w' = ⟨s', k', w.calls.set i after, w.late, if c.changes then none else w.arrived⟩) ∨
      (∃ i works account stored, op = .answer i works ∧ w.calls[i]? = some (.waiting account) ∧
        w' = { w with calls := w.calls.set i (.answered stored),
                      arrived := w.told account stored }) ∨
      (∃ i account, op = .timeOut i ∧ w.calls[i]? = some (.waiting account) ∧
        w' = { w with calls := w.calls.set i .returning, late := w.late ++ [account] }) ∨
      ∃ j works account stored, op = .answerLate j works ∧ w.late[j]? = some account ∧
        w' = { w with late := w.late.eraseIdx j, arrived := w.told account stored } := by
  cases op with
  | call request => exact .inl ⟨request, rfl, (Option.some.inj h).symm⟩
  | advance i works =>
    obtain ⟨c, hc, h⟩ := Option.bind_eq_some_iff.mp h
    obtain ⟨⟨s', k', after⟩, hadvance, h⟩ := Option.bind_eq_some_iff.mp h
    exact .inr (.inl ⟨i, works, c, s', k', after, rfl, hc, hadvance, (Option.some.inj h).symm⟩)
  | answer i works =>
    simp only [World.step] at h
    split at h
    · rename_i account hc
      exact .inr (.inr (.inl ⟨i, works, account, _, rfl, hc, (Option.some.inj h).symm⟩))
    · cases h
  | timeOut i =>
    simp only [World.step] at h
    split at h
    · rename_i account hc
      exact .inr (.inr (.inr (.inl ⟨i, account, rfl, hc, (Option.some.inj h).symm⟩)))
    · cases h
  | answerLate j works =>
    obtain ⟨account, hlate, h⟩ := Option.bind_eq_some_iff.mp h
    exact .inr (.inr (.inr (.inr ⟨j, works, account, _, rfl, hlate, (Option.some.inj h).symm⟩)))

/-- The flag is held by one call, or one read, at most, and by none while it is down. -/
structure Orderly (w : World) : Prop where
  few : w.holders + w.late.length ≤ 1
  free : w.session.reading = false → w.holders + w.late.length = 0

theorem begin_holds (request : Request) : request.begin.holds = false := by
  cases request <;> rfl

theorem holders_call (request : Request) :
    { w with calls := w.calls ++ [request.begin] : World }.holders = w.holders := by
  simp [World.holders, List.countP_append, begin_holds]

theorem Orderly.of_le (h : Orderly w)
    (hsum : w'.holders + w'.late.length ≤ w.holders + w.late.length)
    (hflag : w'.session.reading = w.session.reading) : Orderly w' where
  few := Nat.le_trans hsum h.few
  free := fun hreading => by
    have hnone := h.free (hflag.symm.trans hreading)
    omega

theorem orderly_step : Preserved World.step anyStep Orderly := by
  intro w op w' h _ hs
  rcases step_cases hs with ⟨request, rfl, rfl⟩ |
    ⟨i, works, c, s', k', after, rfl, hc, hadvance, rfl⟩ |
    ⟨i, works, account, stored, rfl, hc, rfl⟩ | ⟨i, account, rfl, hc, rfl⟩ |
    ⟨j, works, account, stored, rfl, hlate, rfl⟩
  · exact h.of_le (Nat.le_of_eq (congrArg (· + w.late.length) (holders_call request))) rfl
  · have hcount : (w.calls.set i after).countP Call.holds + _ = _ := countP_set hc
    have hfew := h.few
    rw [World.holders] at hfew
    rcases advance_flag hadvance with ⟨hsame, hreading⟩ | ⟨hnot, hdown, hholds, hup⟩ |
      ⟨hholds, hnot, hdown⟩
    · rw [hsame] at hcount
      exact h.of_le (Nat.add_le_add_right (Nat.le_of_eq (Nat.add_right_cancel hcount)) _) hreading
    · have hnone := h.free hdown
      rw [World.holders] at hnone
      rw [hnot, hholds, Bool.toNat_false, Bool.toNat_true] at hcount
      refine ⟨?_, fun hreading => absurd (hup.symm.trans hreading) (by simp)⟩
      rw [World.holders]
      dsimp only
      omega
    · rw [hholds, hnot, Bool.toNat_false, Bool.toNat_true] at hcount
      refine ⟨?_, fun _ => ?_⟩ <;> rw [World.holders] <;> dsimp only <;> omega
  · have hcount : (w.calls.set i (.answered stored)).countP Call.holds + _ = _ := countP_set hc
    refine h.of_le (Nat.add_le_add_right ?_ _) rfl
    exact Nat.le_of_eq (Nat.add_right_cancel hcount)
  · have hcount : (w.calls.set i .returning).countP Call.holds + _ = _ := countP_set hc
    refine h.of_le ?_ rfl
    rw [World.holders, World.holders, List.length_append, List.length_singleton]
    have hless : (w.calls.set i .returning).countP Call.holds + 1 = w.calls.countP Call.holds :=
      hcount
    dsimp only
    omega
  · refine h.of_le (Nat.add_le_add_left ?_ _) rfl
    exact (List.eraseIdx_sublist w.late j).length_le

end Flags

section Answers

variable {w w' : World} {s s' : Session} {k k' : Keychain} {c after : Call} {works : Bool}

/-- While nobody waits for too long: a flag that is up is held, and an answer is on its way into the
session or there. -/
structure Sound (w : World) : Prop extends Orderly w where
  /-- No read goes on without its caller. -/
  prompt : w.late = []
  busy : w.session.reading = true → 0 < w.holders
  /-- What a call takes over is the answer. -/
  answered : ∀ stored, w.arrived = some stored → ∀ u, .answered u ∈ w.calls → u = stored
  /-- Then the session has it. -/
  kept : ∀ stored, w.arrived = some stored → (∀ u, .answered u ∉ w.calls) →
    w.session.token = stored
  marked : ∀ stored, w.arrived = some stored → (∀ u, .answered u ∉ w.calls) → .kept ∉ w.calls →
    w.session.loaded = true

/-- The calls that leave the session as it is have nothing to do with an answer. -/
theorem advance_plain (h : c.advance works s k = some (s', k', after)) (hchanges : c.changes = false)
    (hover : c.takesOver = false) :
    s'.token = s.token ∧ s'.loaded = s.loaded ∧ after.takesOver = false := by
  cases c with
  | asked =>
    cases h
    cases s.loaded <;> exact ⟨rfl, rfl, rfl⟩
  | unloaded =>
    cases h
    by_cases hnil : s.account = [] <;> simp [hnil, Call.takesOver]
  | named account =>
    cases hreading : s.reading <;> simp only [Call.advance, hreading] at h <;> cases h <;>
      exact ⟨rfl, rfl, rfl⟩
  | returning =>
    cases h
    exact ⟨rfl, rfl, rfl⟩
  | waiting account => cases h
  | returned token => cases h
  | done => cases h
  | answered _ | kept | marked => cases hover
  | binding _ | dropping | unmarking | storing _ | storedHere _ | writing _ | entry _ _ | clearing
  | cleared | deleting | noEntry _ => cases hchanges

theorem busy_step {op : Op} (hbusy : w.session.reading = true → 0 < w.holders)
    (hop : inTime w op) (hs : w.step op = some w') :
    w'.session.reading = true → 0 < w'.holders := by
  rcases step_cases hs with ⟨request, rfl, rfl⟩ |
    ⟨i, works, c, s', k', after, rfl, hc, hadvance, rfl⟩ |
    ⟨i, works, account, stored, rfl, hc, rfl⟩ | ⟨i, account, rfl, hc, rfl⟩ |
    ⟨j, works, account, stored, rfl, hlate, rfl⟩
  · rwa [holders_call]
  · have hcount : (w.calls.set i after).countP Call.holds + _ = _ := countP_set hc
    rcases advance_flag hadvance with ⟨hsame, hreading⟩ | ⟨hnot, hdown, hholds, hup⟩ |
      ⟨hholds, hnot, hdown⟩
    · rw [hsame] at hcount
      have heq := Nat.add_right_cancel hcount
      rw [World.holders, heq, hreading]
      exact hbusy
    · intro _
      rw [hnot, hholds, Bool.toNat_false, Bool.toNat_true] at hcount
      rw [World.holders]
      dsimp only
      omega
    · intro hreading
      rw [hdown] at hreading
      cases hreading
  · have hcount : (w.calls.set i (.answered stored)).countP Call.holds + _ = _ := countP_set hc
    have heq := Nat.add_right_cancel hcount
    rw [World.holders, heq]
    exact hbusy
  · exact hop.elim
  · exact hbusy

theorem begin_not_over (request : Request) (u : Option Text) :
    .answered u ≠ request.begin ∧ .kept ≠ request.begin := by
  cases request <;> simp [Request.begin]

theorem not_over {u : Option Text} (h : c.takesOver = false) : .answered u ≠ c ∧ .kept ≠ c := by
  constructor <;> rintro rfl <;> cases h

theorem sound_step : Preserved World.step inTime Sound := by
  intro w op w' h hop hs
  have horderly := orderly_step h.toOrderly trivial hs
  have hbusy := busy_step h.busy hop hs
  rcases step_cases hs with ⟨request, rfl, rfl⟩ |
    ⟨i, works, c, s', k', after, rfl, hc, hadvance, rfl⟩ |
    ⟨i, works, account, stored, rfl, hc, rfl⟩ | ⟨i, account, rfl, hc, rfl⟩ |
    ⟨j, works, account, stored, rfl, hlate, rfl⟩
  · have hsame (u : Option Text) : (.answered u ∈ w.calls ++ [request.begin] ↔
        .answered u ∈ w.calls) ∧ (.kept ∈ w.calls ++ [request.begin] ↔ .kept ∈ w.calls) := by
      have hnot := begin_not_over request u
      simp [hnot.1, hnot.2]
    refine ⟨horderly, h.prompt, hbusy, ?_, ?_, ?_⟩ <;> simp only [hsame, (hsame none).2]
    · exact h.answered
    · exact h.kept
    · exact h.marked
  · cases hchanges : c.changes with
    | true =>
      rw [hchanges] at horderly hbusy
      refine ⟨horderly, h.prompt, hbusy, ?_, ?_, ?_⟩ <;> intro v hv <;> cases hv
    | false =>
      rw [hchanges] at horderly hbusy
      cases hover : c.takesOver with
      | false =>
        obtain ⟨htoken, hloaded, hafter⟩ := advance_plain hadvance hchanges hover
        have hsame (u : Option Text) : (.answered u ∈ w.calls.set i after ↔
            .answered u ∈ w.calls) ∧ (.kept ∈ w.calls.set i after ↔ .kept ∈ w.calls) :=
          ⟨mem_set_iff hc (not_over hover).1 (not_over hafter).1,
            mem_set_iff hc (not_over (u := none) hover).2 (not_over (u := none) hafter).2⟩
        refine ⟨horderly, h.prompt, hbusy, ?_, ?_, ?_⟩ <;>
          simp only [hsame, (hsame none).2, htoken, hloaded]
        · exact h.answered
        · exact h.kept
        · exact h.marked
      | true =>
        cases c with
        | answered u =>
          cases hadvance
          have hkept : Call.kept ∈ w.calls.set i .kept := List.mem_iff_getElem?.mpr ⟨i, set_self hc⟩
          refine ⟨horderly, h.prompt, hbusy, fun v hv x hx => ?_, fun v hv _ => ?_,
            fun v hv _ hnot => absurd hkept hnot⟩
          · exact h.answered v hv x ((List.mem_or_eq_of_mem_set hx).resolve_right (by simp))
          · exact h.answered v hv u (List.mem_of_getElem? hc)
        | kept =>
          cases hadvance
          have hsame (u : Option Text) :
              .answered u ∈ w.calls.set i .marked ↔ .answered u ∈ w.calls :=
            mem_set_iff hc (by simp) (by simp)
          refine ⟨horderly, h.prompt, hbusy, ?_, ?_, fun _ _ _ _ => rfl⟩ <;> simp only [hsame]
          · exact h.answered
          · exact h.kept
        | marked =>
          cases hadvance
          have hsame (u : Option Text) : (.answered u ∈ w.calls.set i .returning ↔
              .answered u ∈ w.calls) ∧ (.kept ∈ w.calls.set i .returning ↔ .kept ∈ w.calls) :=
            ⟨mem_set_iff hc (by simp) (by simp), mem_set_iff hc (by simp) (by simp)⟩
          refine ⟨horderly, h.prompt, hbusy, ?_, ?_, ?_⟩ <;> simp only [hsame, (hsame none).2]
          · exact h.answered
          · exact h.kept
          · exact h.marked
        | _ => cases hover
  · have hthere : Call.answered stored ∈ w.calls.set i (.answered stored) :=
      List.mem_iff_getElem?.mpr ⟨i, set_self hc⟩
    refine ⟨horderly, h.prompt, hbusy, fun v hv x hx => ?_,
      fun v hv hnot => absurd hthere (hnot stored), fun v hv hnot => absurd hthere (hnot stored)⟩
    have hstored : stored = v := Option.some.inj (Option.ite_none_right_eq_some.mp hv).2
    rcases List.mem_or_eq_of_mem_set hx with hwas | heq
    · -- Two calls would hold the flag.
      have htwo : 2 ≤ w.holders :=
        two_le_countP (List.mem_of_getElem? hc) hwas (by simp) rfl rfl
      have hfew := h.few
      omega
    · exact (Call.answered.inj heq).trans hstored
  · exact hop.elim
  · rw [h.prompt] at hlate
    cases hlate

theorem begun_sound (h : begun w) : Sound w := by
  obtain ⟨hsession, hcalls, hlate, harrived⟩ := h
  refine ⟨⟨?_, fun _ => ?_⟩, hlate, fun hreading => ?_, ?_, ?_, ?_⟩
  · rw [World.holders, hcalls, hlate]
    exact Nat.zero_le 1
  · rw [World.holders, hcalls, hlate]
    rfl
  · rw [hsession] at hreading
    cases hreading
  all_goals
    intro v hv
    rw [harrived] at hv
    cases hv

/-- The next token read has the answer. -/
theorem Sound.next (h : Sound w) {stored : Option Text} (harrived : w.arrived = some stored)
    (hover : ∀ c ∈ w.calls, c.takesOver = false) : w.session.tokenRead = .returns stored := by
  have hanswered (u : Option Text) : .answered u ∉ w.calls := fun hu => by cases hover _ hu
  have hkept : Call.kept ∉ w.calls := fun hk => by cases hover _ hk
  rw [Session.tokenRead, if_pos (h.marked stored harrived hanswered hkept),
    h.kept stored harrived hanswered]

/-- Whoever waits holds the flag, or goes on without its caller. -/
theorem Orderly.one (h : Orderly w) : w.waiting ≤ 1 := by
  refine Nat.le_trans (Nat.add_le_add_right ?_ _) h.few
  refine List.countP_mono_left fun c _ hc => ?_
  cases c <;> first | rfl | cases hc

end Answers

section Recovery

variable {w w₁ : World} {i : ℕ} {c : Call}

/-- The flag comes down without a sign-in. -/
def Frees (w : World) : Prop :=
  ∃ ops w', (∀ op ∈ ops, op.quiet = true) ∧ run World.step w ops = some w' ∧
    w'.session.reading = false ∧ w'.keychain = w.keychain ∧ w.calls.length ≤ w'.calls.length

theorem Frees.here (h : w.session.reading = false) : Frees w :=
  ⟨[], w, by simp, rfl, h, rfl, Nat.le_refl _⟩

theorem Frees.before {op : Op} (h : Frees w₁) (hop : op.quiet = true) (hs : w.step op = some w₁)
    (hkeychain : w₁.keychain = w.keychain) (hlength : w.calls.length ≤ w₁.calls.length) :
    Frees w := by
  obtain ⟨ops, w', hquiet, hrun, hreading, hsame, hmore⟩ := h
  refine ⟨op :: ops, w', ?_, ?_, hreading, hsame.trans hkeychain, Nat.le_trans hlength hmore⟩
  · exact List.forall_mem_cons.mpr ⟨hop, hquiet⟩
  · rw [run, hs]
    exact hrun

theorem step_advance {s' : Session} {k' : Keychain} {after : Call} (hc : w.calls[i]? = some c)
    (h : c.advance true w.session w.keychain = some (s', k', after)) :
    w.step (.advance i true) =
      some ⟨s', k', w.calls.set i after, w.late, if c.changes then none else w.arrived⟩ := by
  rw [World.step, hc]
  exact congrArg (Option.bind · _) h

theorem frees_marked (hc : w.calls[i]? = some .marked) : Frees w :=
  Frees.before (.here rfl) rfl (step_advance hc rfl) rfl (by simp)

theorem frees_kept (hc : w.calls[i]? = some .kept) : Frees w :=
  (frees_marked (set_self hc)).before rfl (step_advance hc rfl) rfl (by simp)

theorem frees_answered {stored : Option Text} (hc : w.calls[i]? = some (.answered stored)) :
    Frees w :=
  (frees_kept (set_self hc)).before rfl (step_advance hc rfl) rfl (by simp)

theorem frees_waiting {account : Text} (hc : w.calls[i]? = some (.waiting account)) : Frees w := by
  have hs : w.step (.answer i true) = some { w with
      calls := w.calls.set i (.answered (w.keychain account)),
      arrived := w.told account (w.keychain account) } := by
    rw [World.step, hc]
    rfl
  exact (frees_answered (set_self hc)).before rfl hs rfl (by simp)

/-- Whoever holds the flag gives it back. -/
theorem Sound.frees (h : Sound w) : Frees w := by
  cases hreading : w.session.reading with
  | false => exact .here hreading
  | true =>
    obtain ⟨c, hmem, hholds⟩ := List.countP_pos_iff.mp (h.busy hreading)
    obtain ⟨i, hc⟩ := List.mem_iff_getElem?.mp hmem
    cases c with
    | waiting account => exact frees_waiting hc
    | answered stored => exact frees_answered hc
    | kept => exact frees_kept hc
    | marked => exact frees_marked hc
    | _ => cases hholds

/-- A bind, and then a token read that the keychain answers. -/
def readAgain (n : ℕ) (account : Text) : List Op :=
  [.call (.bind account), .advance n true, .advance n true, .advance n true, .call .read,
    .advance (n + 1) true, .advance (n + 1) true, .advance (n + 1) true, .answer (n + 1) true,
    .advance (n + 1) true, .advance (n + 1) true, .advance (n + 1) true, .advance (n + 1) true]

theorem readAgain_returns {account token : Text} (hreading : w.session.reading = false)
    (haccount : account ≠ []) (hstored : w.keychain account = some token) :
    ∃ w', run World.step w (readAgain w.calls.length account) = some w' ∧
      w'.calls[w.calls.length + 1]? = some (.returned (some token)) := by
  obtain ⟨⟨bound, had, loaded, reading⟩, keychain, calls, late, arrived⟩ := w
  simp only at hreading hstored ⊢
  subst hreading
  simp [readAgain, run, World.step, Call.advance, Request.begin, haccount, hstored]

theorem Sound.recoverable (h : Sound w) : Recoverable w := by
  intro account token haccount hstored
  obtain ⟨ops, w₁, hquiet, hrun, hreading, hkeychain, hlength⟩ := h.frees
  obtain ⟨w₂, hagain, hreturned⟩ :=
    readAgain_returns hreading haccount (by rw [hkeychain]; exact hstored)
  refine ⟨ops ++ readAgain w₁.calls.length account, w₂, _, ?_, ?_,
    Nat.le_succ_of_le hlength, hreturned⟩
  · refine List.forall_mem_append.mpr ⟨hquiet, ?_⟩
    simp [readAgain, Op.quiet]
  · rw [run_append, hrun]
    exact hagain

/-- A token read that begins and is not disturbed returns what it is said to. -/
theorem tokenRead_returns {token : Option Text} (h : w.session.tokenRead = .returns token) :
    ∃ ops w', run World.step w ops = some w' ∧ w'.session = w.session ∧
      w'.calls = w.calls ++ [.returned token] := by
  obtain ⟨⟨account, had, loaded, reading⟩, keychain, calls, late, arrived⟩ := w
  cases loaded with
  | true =>
    obtain rfl : had = token := Outcome.returns.inj h
    refine ⟨[.call .read, .advance calls.length true, .advance calls.length true], ?_⟩
    simp [run, World.step, Call.advance, Request.begin]
  | false =>
    by_cases hnil : account = []
    · subst hnil
      obtain rfl : had = token := Outcome.returns.inj h
      refine ⟨[.call .read, .advance calls.length true, .advance calls.length true,
        .advance calls.length true], ?_⟩
      simp [run, World.step, Call.advance, Request.begin]
    · cases reading with
      | true =>
        obtain rfl : had = token := by simpa [Session.tokenRead, hnil] using h
        refine ⟨[.call .read, .advance calls.length true, .advance calls.length true,
          .advance calls.length true, .advance calls.length true], ?_⟩
        simp [run, World.step, Call.advance, Request.begin, hnil]
      | false => simp [Session.tokenRead, hnil] at h

theorem tokenRead_starts {account : Text} (h : w.session.tokenRead = .starts account) :
    ∃ ops w', run World.step w ops = some w' ∧ w'.session = { w.session with reading := true } ∧
      w'.calls = w.calls ++ [.waiting account] := by
  obtain ⟨⟨bound, had, loaded, reading⟩, keychain, calls, late, arrived⟩ := w
  cases loaded <;> cases reading <;> by_cases hnil : bound = [] <;>
    simp [Session.tokenRead, hnil] at h
  subst h
  refine ⟨[.call .read, .advance calls.length true, .advance calls.length true,
    .advance calls.length true], ?_⟩
  simp [run, World.step, Call.advance, Request.begin, hnil]

end Recovery

section TimedOut

variable {w w' : World}

/-- Nothing is read any more, and nobody signs in. -/
structure Stuck (w : World) : Prop where
  /-- A read is said to be in flight. -/
  reading : w.session.reading = true
  /-- The session has no token. -/
  none : w.session.token = none
  /-- No call gives the flag back, brings a token or has returned one. -/
  calls : ∀ c ∈ w.calls, c.holds = false ∧ (∀ token, c ≠ .storing token) ∧
    ∀ token, c ≠ .returned (some token)

theorem stuck_step {op : Op} (h : Stuck w) (hop : op.quiet = true) (hs : w.step op = some w') :
    Stuck w' := by
  have hset {i : ℕ} {after : Call} (hafter : after.holds = false ∧
      (∀ token, after ≠ .storing token) ∧ ∀ token, after ≠ .returned (some token)) :
      ∀ c ∈ w.calls.set i after, c.holds = false ∧ (∀ token, c ≠ .storing token) ∧
        ∀ token, c ≠ .returned (some token) := fun c hc =>
    (List.mem_or_eq_of_mem_set hc).elim (h.calls c) fun heq => heq ▸ hafter
  rcases step_cases hs with ⟨request, rfl, rfl⟩ |
    ⟨i, works, c, s', k', after, rfl, hc, hadvance, rfl⟩ |
    ⟨i, works, account, stored, rfl, hc, rfl⟩ | ⟨i, account, rfl, hc, rfl⟩ |
    ⟨j, works, account, stored, rfl, hlate, rfl⟩
  · refine ⟨h.reading, h.none, List.forall_mem_append.mpr ⟨h.calls, ?_⟩⟩
    cases request with
    | store token => cases hop
    | _ => simp [Request.begin, Call.holds]
  · obtain ⟨hholds, hstoring, hreturned⟩ := h.calls c (List.mem_of_getElem? hc)
    have hreading := h.reading
    have hnone := h.none
    cases c with
    | waiting _ | answered _ | kept | marked => cases hholds
    | storing token => exact absurd rfl (hstoring token)
    | returned _ | done => cases hadvance
    | asked =>
      cases hadvance
      exact ⟨hreading, hnone, hset (by cases w.session.loaded <;> simp [Call.holds])⟩
    | unloaded =>
      cases hadvance
      refine ⟨hreading, hnone, hset ?_⟩
      by_cases hnil : w.session.account = [] <;> simp [hnil, Call.holds]
    | named account =>
      simp only [Call.advance, hreading] at hadvance
      cases hadvance
      exact ⟨hreading, hnone, hset (by simp [Call.holds])⟩
    | _ =>
      cases hadvance
      exact ⟨hreading, by first | exact hnone | rfl, hset (by simp [Call.holds, hnone])⟩
  · cases (h.calls _ (List.mem_of_getElem? hc)).1
  · cases (h.calls _ (List.mem_of_getElem? hc)).1
  · exact ⟨h.reading, h.none, h.calls⟩

theorem stuck_run {ops : List Op} (h : Stuck w) (hquiet : ∀ op ∈ ops, op.quiet = true)
    (hrun : run World.step w ops = some w') : Stuck w' := by
  induction ops generalizing w with
  | nil =>
    cases hrun
    exact h
  | cons op ops ih =>
    obtain ⟨w₁, hs, hrest⟩ := Option.bind_eq_some_iff.mp hrun
    obtain ⟨hop, hmore⟩ := List.forall_mem_cons.mp hquiet
    exact ih (stuck_step h hop hs) hmore hrest

/-- A server. -/
def server : Text := ['s']

/-- A token of it, which the keychain has. -/
def stored : Keychain := fun account => if account = server then some ['t'] else none

/-- The application when it starts. -/
def fresh : World := ⟨.new, stored, [], [], none⟩

/-- A server is bound and the token asked for. -/
def asking : List Op :=
  [.call (.bind server), .advance 0 true, .advance 0 true, .advance 0 true, .call .read,
    .advance 1 true, .advance 1 true, .advance 1 true]

/-- The world after some steps. -/
def after (ops : List Op) : World := (run World.step fresh ops).getD fresh

end TimedOut

/-- As long as nobody waits for too long, one read at most waits for the keychain, what it answers
is returned by the next token read, and the stored token can always be had. -/
theorem slow_keychain {w : World} (h : Reached begun World.step inTime w) : Served w := by
  have hsound : Sound w := h.invariant Sound (fun _ => begun_sound) sound_step
  exact ⟨hsound.one, fun _ harrived hover => .inl (hsound.next harrived hover),
    hsound.recoverable⟩

theorem slow_keychain_answered :
    (after (asking ++ [.answer 1 true])).arrived = some (some ['t']) ∧
      Served (after (asking ++ [.answer 1 true])) := by
  have hfresh : Reached begun World.step inTime fresh := .start ⟨rfl, rfl, rfl, rfl⟩
  exact ⟨rfl, slow_keychain (hfresh.run (asking ++ [.answer 1 true]) (by decide) rfl)⟩

/-- Once a caller has waited for too long, the token cannot be had any more. -/
theorem late_answer_lost : ¬∀ w, Reached begun World.step anyStep w → Served w := by
  intro hall
  have hfresh : Reached begun World.step anyStep fresh := .start ⟨rfl, rfl, rfl, rfl⟩
  have hserved := hall (after (asking ++ [.timeOut 1]))
    (hfresh.run_any (asking ++ [.timeOut 1]) rfl)
  have hstuck : Stuck (after (asking ++ [.timeOut 1])) := by
    refine ⟨rfl, rfl, ?_⟩
    change ∀ c ∈ [Call.done, .returning], _
    simp [Call.holds]
  obtain ⟨ops, w', i, hquiet, hrun, -, hreturned⟩ :=
    hserved.recoverable server ['t'] (by decide) rfl
  exact ((stuck_run hstuck hquiet hrun).calls _ (List.mem_of_getElem? hreturned)).2.2 _ rfl

end FuryBrowser.TokenReads
