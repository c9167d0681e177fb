import FuryBrowser.InvitedEmail

/-!
# What confirming an address bounds

The row agrees with the letters that have left, up to what the request that has it
locked is bound to commit: the row that is due. From that, twenty-five wrong answers are
compared at most, and an account is made once, with a proof for the latest letter.

Two things escape the row. A letter leaves some time after its transaction began, and
the minute counts from the beginning; and a request lost between a letter or a wrong
answer and its commit takes back what it has written. A run is prompt when a letter
takes no less time than the one before it, unless it began a full minute after that one
left, and no request is lost there.
-/

namespace FuryBrowser.InvitedEmail

open GuardedRuns RowTable
open OrgKeys (Role)

variable {hash : String → List UInt8} {w w' : World} {a : Label}

/-- No request is lost with something that cannot be taken back. -/
def Stage.mayBeLost : Stage → Bool
  | .sent _ | .refusing _ => false
  | _ => true

/-- A letter takes no less than the one before, or began a minute after it; and nothing
that cannot be taken back is lost. -/
def Prompt (w : World) : Label → Prop
  | .mails true => ∀ h ∈ w.holder, ∀ l ∈ w.letters.head?,
      l.left - l.began ≤ w.now - h.began ∨ l.left + emailLetterGapSecs * second ≤ h.began
  | .lost id => ∀ h ∈ w.holder, h.id = id → h.stage.mayBeLost = true
  | _ => True

instance : DecidableRel Prompt := fun w a => by
  rcases a with _ | _ | leaves | _ | _ | _
  case mails => cases leaves <;> dsimp only [Prompt] <;> infer_instance
  all_goals dsimp only [Prompt]; infer_instance

/-- What confirming an address is for. -/
structure Confirmed (hash : String → List UInt8) (w : World) : Prop where
  /-- The wrong answers that were compared. -/
  guesses : w.wrong ≤ emailLettersMax * emailAttemptsMax
  /-- A minute lies between any two letters. -/
  apart : w.letters.Pairwise fun later earlier =>
    earlier.left + emailLetterGapSecs * second ≤ later.left
  /-- A letter that cannot be sent uses up nothing. -/
  unsent : ∀ w', step hash w (.mails false) = some w' → w'.row = w.row ∧ w'.letters = w.letters
  once : w.redeemed.length ≤ 1
  /-- It is made with a proof that was handed out for the right answer to the letter that
  is the latest still. -/
  proven : ∀ r ∈ w.redeemed, ∃ m ∈ w.minted, ∃ l proof, m.letter = some l ∧ r.letter = some l ∧
    hash m.answer = hash l.digits ∧ r.emailProof = some proof ∧ hash proof = hash m.proof
  /-- That very proof, and that very answer, if no two secrets hash alike. -/
  exactly : Function.Injective hash → ∀ r ∈ w.redeemed, ∃ m ∈ w.minted, ∃ l,
    m.letter = some l ∧ r.letter = some l ∧ m.answer = l.digits ∧ r.emailProof = some m.proof

/-- A row that agrees with what has happened. -/
structure Agrees (hash : String → List UInt8) (row : Invitation) (w : World) : Prop where
  /-- The time of the latest letter is the one its transaction began. -/
  sentAt : row.emailCodeSentAt = w.letters.head?.map Letter.began
  /-- All letters are counted. -/
  sent : row.emailCodesSent = w.letters.length
  /-- There were five at most. -/
  few : row.emailCodesSent ≤ emailLettersMax
  /-- The digits are of the latest one. -/
  code : ∀ stored ∈ row.emailCodeHash, ∃ l ∈ w.letters.head?, stored = hash l.digits
  proof : ∀ stored ∈ row.emailProofHash, ∃ m ∈ w.minted, ∃ l, m.letter = some l ∧
    w.letters.head? = some l ∧ hash m.answer = hash l.digits ∧ stored = hash m.proof
  tries : row.emailCodeAttempts ≤ emailAttemptsMax
  /-- With no letter there was no answer. -/
  untried : w.letters = [] → row.emailCodeAttempts = 0
  /-- The earlier ones had five each. -/
  budget : w.wrong ≤ emailAttemptsMax * (row.emailCodesSent - 1) + row.emailCodeAttempts
  used : w.redeemed.length = if row.used then 1 else 0

/-- The row that a stage is bound to leave: what it has done cannot be taken back. -/
def Stage.due (row : Invitation) : Stage → Invitation
  | .sent row' | .refusing row' => row'
  | _ => row

/-- The row that is due. -/
def World.due (w : World) : Invitation :=
  (w.holder.map fun h => h.stage.due w.row).getD w.row

/-- What a request is about to commit is what its handler made of the row. -/
def Stage.right (hash : String → List UInt8) (w : World) (began : ℕ) : Stage → Prop
  | .sending digits row => ∃ draw,
      enrollEmailSend hash w.mailer w.row began draw = .ok (digits, row)
  | .proving answer proof row => ∃ emailCode, answer = answerOf emailCode ∧
      enrollEmailVerify hash w.row began emailCode proof = .ok (true, row)
  | .enrolling emailProof row => completeEnrollment hash w.mailer w.row began emailProof = .ok row
  | _ => True

/-- What every prompt run keeps. -/
structure Inv (hash : String → List UInt8) (w : World) : Prop where
  /-- The server confirms addresses. -/
  mailer : w.mailer = true
  /-- The invitation is not an owner's. -/
  role : w.due.role ≠ .owner
  /-- The row that is due agrees with what has happened. -/
  due : Agrees hash w.due w
  /-- Requests began before now. -/
  waited : ∀ f ∈ w.waiting, f.began ≤ w.now
  /-- So did the one that has the row, which is about to do what it should. -/
  held : ∀ h ∈ w.holder, h.began ≤ w.now ∧ h.stage.right hash w h.began
  /-- Letters left after they were begun. -/
  left : ∀ l ∈ w.letters, l.began ≤ l.left ∧ l.left ≤ w.now
  /-- A minute lies between any two of them. -/
  apart : w.letters.Pairwise fun later earlier =>
    earlier.left + emailLetterGapSecs * second ≤ later.left
  /-- An account was made with a proof for the latest letter. -/
  proven : ∀ r ∈ w.redeemed, ∃ m ∈ w.minted, ∃ l proof, m.letter = some l ∧ r.letter = some l ∧
    hash m.answer = hash l.digits ∧ r.emailProof = some proof ∧ hash proof = hash m.proof

theorem forall_mem_none {α : Type} {p : α → Prop} : ∀ a ∈ (none : Option α), p a :=
  fun a h => absurd h (Option.not_mem_none a)

/-- An invitation that has just been issued agrees. -/
theorem inv_init (hw : init w) : Inv hash w := by
  obtain ⟨now, role, expires, hrole, rfl⟩ := hw
  refine ⟨rfl, hrole, ?_, List.forall_mem_nil _, forall_mem_none, List.forall_mem_nil _, .nil,
    List.forall_mem_nil _⟩
  exact ⟨rfl, rfl, Nat.zero_le _, forall_mem_none, forall_mem_none, Nat.zero_le _, fun _ => rfl,
    Nat.zero_le _, rfl⟩

/-- What agrees stays so when only times and requests in flight change. -/
theorem Agrees.congr {row : Invitation} (h : Agrees hash row w) (hletters : w'.letters = w.letters)
    (hminted : w'.minted = w.minted) (hwrong : w'.wrong = w.wrong)
    (hredeemed : w'.redeemed = w.redeemed) : Agrees hash row w' := by
  obtain ⟨_, _, _, _, _, _, _, _, _, _⟩ := w
  obtain ⟨_, _, _, _, _, _, _, _, _, _⟩ := w'
  cases hletters
  cases hminted
  cases hwrong
  cases hredeemed
  exact ⟨h.1, h.2, h.3, h.4, h.5, h.6, h.7, h.8, h.9⟩

/-- A letter is sent when the minute is over by the row's clock and letters are left. -/
theorem enrollEmailSend_ok {mailer : Bool} {i row : Invitation} {now : ℕ} {draw : Fin 1000000}
    {digits : String} (h : enrollEmailSend hash mailer i now draw = .ok (digits, row)) :
    (∀ sentAt ∈ i.emailCodeSentAt, sentAt + emailLetterGapSecs * second ≤ now) ∧
      i.emailCodesSent < emailLettersMax ∧ row = { i with
        emailCodeHash := some (hash digits)
        emailCodeExpires := some (now + emailCodeMinutes * 60 * second)
        emailCodeAttempts := 0
        emailCodeSentAt := some now
        emailCodesSent := i.emailCodesSent + 1
        emailProofHash := none } := by
  unfold enrollEmailSend at h
  split at h
  · cases h
  · split at h
    · cases h
    · split at h
      · cases h
      · split at h
        · cases h
        · split at h
          · cases h
          · rename_i hwait hfew
            obtain ⟨rfl, rfl⟩ := Prod.mk.inj (Except.ok.inj h)
            refine ⟨?_, Nat.lt_of_not_le hfew, rfl⟩
            intro sentAt hsent
            rw [wait, Option.mem_def.mp hsent] at hwait
            dsimp only [second, emailLetterGapSecs] at hwait ⊢
            omega

/-- An answer that turns out wrong is counted. -/
theorem enrollEmailVerify_wrong {i row : Invitation} {now : ℕ} {emailCode proof : String}
    (h : enrollEmailVerify hash i now emailCode proof = .ok (false, row)) :
    i.emailCodeAttempts < emailAttemptsMax ∧ i.emailCodeHash ≠ none ∧
      row = { i with emailCodeAttempts := i.emailCodeAttempts + 1 } := by
  unfold enrollEmailVerify at h
  split at h
  · cases h
  · split at h
    · cases h
    · rename_i stored hstored
      obtain ⟨hcode, _⟩ := Option.filter_eq_some_iff.mp hstored
      split at h
      · cases h
      · rename_i hfew
        split at h
        · cases h
          exact ⟨Nat.lt_of_not_le hfew, by rw [hcode]; exact Option.some_ne_none _, rfl⟩
        · cases h

/-- One that turns out right uses the digits up for a proof. -/
theorem enrollEmailVerify_right {i row : Invitation} {now : ℕ} {emailCode proof : String}
    (h : enrollEmailVerify hash i now emailCode proof = .ok (true, row)) :
    i.emailCodeHash = some (hash (answerOf emailCode)) ∧
      row = { i with emailProofHash := some (hash proof), emailCodeHash := none } := by
  unfold enrollEmailVerify at h
  split at h
  · cases h
  · split at h
    · cases h
    · rename_i stored hstored
      obtain ⟨hcode, _⟩ := Option.filter_eq_some_iff.mp hstored
      split at h
      · cases h
      · split at h
        · cases h
        · rename_i hright
          cases h
          exact ⟨by rw [hcode, Decidable.not_not.mp hright], rfl⟩

/-- An account is made once, with the proof. -/
theorem completeEnrollment_ok {i row : Invitation} {now : ℕ} {emailProof : Option String}
    (hrole : i.role ≠ .owner) (h : completeEnrollment hash true i now emailProof = .ok row) :
    i.used = false ∧ (∃ proof, emailProof = some proof ∧ i.emailProofHash = some (hash proof)) ∧
      row = { i with used := true } := by
  unfold completeEnrollment at h
  split at h
  · cases h
  · rename_i hlive
    split at h
    · cases h
    · rename_i hproven
      cases h
      refine ⟨?_, ?_, rfl⟩
      · simp only [Invitation.live, Bool.not_eq_true', Bool.not_eq_false, Bool.and_eq_true] at hlive
        exact hlive.1
      · have happlies : emailCheckApplies true i.role = true := by
          simp [emailCheckApplies, hrole]
        simp only [happlies, Bool.true_and, Bool.not_eq_true', Bool.not_eq_false] at hproven
        obtain ⟨proof, hproof, heq⟩ := (Option.any_eq_true _ _).mp hproven
        exact ⟨proof, hproof, of_decide_eq_true heq⟩

/-- A row that nobody has locked is the one that is due. -/
theorem due_of_free (hfree : w.holder = none) : w.due = w.row := by
  rw [World.due, hfree]
  rfl

/-- So is one whose holder can be lost. -/
theorem due_of_mayBeLost {h : Holder} (hw : w.holder = some h) (hmay : h.stage.mayBeLost = true) :
    w.due = w.row := by
  rw [World.due, hw]
  cases hstage : h.stage with
  | sent row => rw [hstage] at hmay; cases hmay
  | refusing row => rw [hstage] at hmay; cases hmay
  | _ => simp [hstage, Stage.due]

/-- A request that gets the row and goes on, without anything that has to be committed. -/
theorem Inv.hold (hi : Inv hash w) (hfree : w.holder = none) {h : Holder}
    (hmay : h.stage.mayBeLost = true) (hbegan : h.began ≤ w.now)
    (hright : h.stage.right hash w h.began) : Inv hash { w with holder := some h } := by
  have hdue : World.due { w with holder := some h } = w.due :=
    (due_of_mayBeLost rfl hmay).trans (due_of_free hfree).symm
  refine ⟨hi.mailer, hdue ▸ hi.role, ?_, hi.waited, ?_, hi.left, hi.apart, hi.proven⟩
  · rw [hdue]
    exact hi.due.congr rfl rfl rfl rfl
  · rintro _ ⟨⟩
    exact ⟨hbegan, hright⟩

/-- A wrong answer that has been compared is one of the five. -/
theorem inv_refusing {id began : ℕ} {row : Invitation} (hi : Inv hash w) (hfree : w.holder = none)
    (hbegan : began ≤ w.now) (htries : w.row.emailCodeAttempts < emailAttemptsMax)
    (hcode : w.row.emailCodeHash ≠ none)
    (hrow : row = { w.row with emailCodeAttempts := w.row.emailCodeAttempts + 1 }) :
    Inv hash { w with holder := some ⟨id, began, .refusing row⟩, wrong := w.wrong + 1 } := by
  have hagrees : Agrees hash w.row w := due_of_free hfree ▸ hi.due
  have hrole : w.row.role ≠ .owner := due_of_free hfree ▸ hi.role
  subst hrow
  refine ⟨hi.mailer, hrole, ?_, hi.waited, ?_, hi.left, hi.apart, hi.proven⟩
  · refine ⟨hagrees.sentAt, hagrees.sent, hagrees.few, hagrees.code, hagrees.proof, htries, ?_, ?_,
      hagrees.used⟩
    · -- With no letter there would be no digits to compare with.
      intro hnone
      obtain ⟨stored, hstored⟩ := Option.ne_none_iff_exists'.mp hcode
      obtain ⟨l, hl, _⟩ := hagrees.code stored hstored
      rw [hnone] at hl
      cases hl
    · have hbudget := hagrees.budget
      show w.wrong + 1 ≤ emailAttemptsMax * (w.row.emailCodesSent - 1) +
        (w.row.emailCodeAttempts + 1)
      omega
  · rintro _ ⟨⟩
    exact ⟨hbegan, trivial⟩

theorem inv_decides {f : Flight} (hi : Inv hash w) (hfree : w.holder = none)
    (hbegan : f.began ≤ w.now) : Inv hash (decides hash w f) := by
  unfold decides
  cases f.request with
  | send draw =>
    dsimp only
    split
    · exact hi
    · rename_i digits row hok
      exact hi.hold hfree rfl hbegan ⟨draw, hok⟩
  | verify emailCode proof =>
    dsimp only
    split
    · exact hi
    · rename_i row hok
      obtain ⟨htries, hcode, hrow⟩ := enrollEmailVerify_wrong hok
      exact inv_refusing hi hfree hbegan htries hcode hrow
    · rename_i row hok
      exact hi.hold hfree rfl hbegan ⟨emailCode, rfl, hok⟩
  | enroll emailProof =>
    dsimp only
    split
    · exact hi
    · rename_i row hok
      exact hi.hold hfree rfl hbegan hok

theorem Inv.waiting (hi : Inv hash w) {waiting : List Flight}
    (hsub : ∀ f ∈ waiting, f ∈ w.waiting) :
    Inv hash { w with waiting := waiting } := by
  refine ⟨hi.mailer, hi.role, hi.due.congr rfl rfl rfl rfl, fun f hf => hi.waited f (hsub f hf), ?_,
    hi.left, hi.apart, hi.proven⟩
  intro h hh
  obtain ⟨hbegan, hright⟩ := hi.held h hh
  refine ⟨hbegan, ?_⟩
  cases hstage : h.stage with
  | _ => rw [hstage] at hright; exact hright

/-- A letter that leaves is a minute after all others. -/
theorem letter_apart (began : ℕ) (hi : Inv hash w)
    (hrow : ∀ l ∈ w.letters.head?, l.began + emailLetterGapSecs * second ≤ began)
    (hbegan : began ≤ w.now)
    (hprompt : ∀ l ∈ w.letters.head?,
      l.left - l.began ≤ w.now - began ∨ l.left + emailLetterGapSecs * second ≤ began) :
    ∀ l ∈ w.letters, l.left + emailLetterGapSecs * second ≤ w.now := by
  cases hletters : w.letters with
  | nil => exact nofun
  | cons latest earlier =>
    rw [hletters] at hrow hprompt
    have hapart := hi.apart
    have hlatest : latest.left + emailLetterGapSecs * second ≤ w.now := by
      obtain ⟨hleft, _⟩ := hi.left latest (by simp [hletters])
      have hgap := hrow latest rfl
      rcases hprompt latest rfl with hle | hle <;> omega
    rw [hletters, List.pairwise_cons] at hapart
    intro l hl
    rcases List.mem_cons.mp hl with rfl | hl
    · exact hlatest
    · have hless := hapart.1 l hl
      omega

/-- A letter leaves, or cannot be sent. -/
theorem inv_mail {h : Holder} {leaves : Bool} (hi : Inv hash w) (hh : w.holder = some h)
    (hg : Prompt w (.mails leaves)) (hs : mail w h leaves = some w') : Inv hash w' := by
  obtain ⟨hbegan, hright⟩ := hi.held h hh
  unfold mail at hs
  split at hs
  · rename_i digits row hstage
    have hdue : w.due = w.row := due_of_mayBeLost hh (by rw [hstage]; rfl)
    have hagrees : Agrees hash w.row w := hdue ▸ hi.due
    have hrole : w.row.role ≠ .owner := hdue ▸ hi.role
    split at hs
    · rename_i hleaves
      subst hleaves
      cases hs
      rw [hstage] at hright
      obtain ⟨draw, hok⟩ := hright
      obtain ⟨hgap, hfew, rfl⟩ := enrollEmailSend_ok hok
      have happart := letter_apart h.began hi (fun l hl => hgap l.began (by
        rw [hagrees.sentAt, Option.mem_def.mp hl]; rfl)) hbegan (hg h hh)
      refine ⟨hi.mailer, hrole, ?_, hi.waited, ?_, ?_, List.pairwise_cons.mpr ⟨happart, hi.apart⟩,
        hi.proven⟩
      · refine ⟨rfl, ?_, hfew, ?_, forall_mem_none, Nat.zero_le _, (fun hnone => nomatch hnone),
          ?_, hagrees.used⟩
        · exact congrArg (· + 1) hagrees.sent
        · rintro stored ⟨⟩
          exact ⟨_, rfl, rfl⟩
        · -- The letter before this one has had its five answers at most.
          have hbudget := hagrees.budget
          have htries := hagrees.tries
          show w.wrong ≤ emailAttemptsMax * (w.row.emailCodesSent + 1 - 1) + 0
          cases hletters : w.letters with
          | nil =>
            have hnone := hagrees.untried hletters
            have hsent := hagrees.sent
            rw [hletters] at hsent
            rw [hnone, hsent] at hbudget
            rw [hsent]
            exact hbudget
          | cons l rest =>
            have hsent := hagrees.sent
            rw [hletters, List.length_cons] at hsent
            rw [hsent] at hbudget ⊢
            dsimp only [emailAttemptsMax] at *
            omega
      · rintro _ ⟨⟩
        exact ⟨hbegan, trivial⟩
      · intro l hl
        rcases List.mem_cons.mp hl with rfl | hl
        · exact ⟨hbegan, Nat.le_refl _⟩
        · exact hi.left l hl
    · cases hs
      exact ⟨hi.mailer, hrole, hagrees.congr rfl rfl rfl rfl, hi.waited, forall_mem_none,
        hi.left, hi.apart, hi.proven⟩
  · cases hs

theorem inv_committed {row : Invitation} (hi : Inv hash w) (hdue : w.due = row) :
    Inv hash { w with row := row, holder := none } := by
  have hagrees : Agrees hash row w := hdue ▸ hi.due
  have hrole : row.role ≠ .owner := hdue ▸ hi.role
  exact ⟨hi.mailer, hrole, hagrees.congr rfl rfl rfl rfl, hi.waited, forall_mem_none,
    hi.left, hi.apart, hi.proven⟩

theorem inv_minted {answer proof : String} {row : Invitation} {began : ℕ} (hi : Inv hash w)
    (hdue : w.due = w.row) (hright : Stage.right hash w began (.proving answer proof row)) :
    Inv hash { w with
      row := row
      holder := none
      minted := ⟨proof, answer, w.letters.head?⟩ :: w.minted } := by
  have hagrees : Agrees hash w.row w := hdue ▸ hi.due
  have hrole : w.row.role ≠ .owner := hdue ▸ hi.role
  obtain ⟨emailCode, rfl, hok⟩ := hright
  obtain ⟨hcode, rfl⟩ := enrollEmailVerify_right hok
  refine ⟨hi.mailer, hrole, ?_, hi.waited, forall_mem_none, hi.left, hi.apart, ?_⟩
  · refine ⟨hagrees.sentAt, hagrees.sent, hagrees.few, forall_mem_none, ?_, hagrees.tries,
      hagrees.untried, hagrees.budget, hagrees.used⟩
    rintro stored ⟨⟩
    obtain ⟨l, hl, heq⟩ := hagrees.code _ hcode
    exact ⟨_, List.mem_cons_self, l, hl, hl, heq, rfl⟩
  · intro r hr
    obtain ⟨m, hm, hproven⟩ := hi.proven r hr
    exact ⟨m, List.mem_cons_of_mem _ hm, hproven⟩

theorem inv_redeemed {emailProof : Option String} {row : Invitation} {began : ℕ} (hi : Inv hash w)
    (hdue : w.due = w.row) (hright : Stage.right hash w began (.enrolling emailProof row)) :
    Inv hash { w with
      row := row
      holder := none
      redeemed := ⟨emailProof, w.letters.head?⟩ :: w.redeemed } := by
  have hagrees : Agrees hash w.row w := hdue ▸ hi.due
  have hrole : w.row.role ≠ .owner := hdue ▸ hi.role
  have hok : completeEnrollment hash true w.row began emailProof = .ok row := hi.mailer ▸ hright
  obtain ⟨hunused, ⟨proof, hproof, hstored⟩, rfl⟩ := completeEnrollment_ok hrole hok
  refine ⟨hi.mailer, hrole, ?_, hi.waited, forall_mem_none, hi.left, hi.apart, ?_⟩
  · refine ⟨hagrees.sentAt, hagrees.sent, hagrees.few, hagrees.code, hagrees.proof, hagrees.tries,
      hagrees.untried, hagrees.budget, ?_⟩
    have hnone := hagrees.used
    rw [hunused] at hnone
    exact congrArg (· + 1) hnone
  · intro r hr
    rcases List.mem_cons.mp hr with rfl | hr
    · obtain ⟨m, hm, l, hletter, hlatest, hanswer, heq⟩ := hagrees.proof _ hstored
      exact ⟨m, hm, l, proof, hletter, hlatest, hanswer, hproof, heq⟩
    · exact hi.proven r hr

/-- The request that has the row commits. -/
theorem inv_commit {h : Holder} (hi : Inv hash w) (hh : w.holder = some h)
    (hs : commit w h = some w') : Inv hash w' := by
  obtain ⟨_, hright⟩ := hi.held h hh
  have hdue : w.due = h.stage.due w.row := by rw [World.due, hh]; rfl
  unfold commit at hs
  cases hstage : h.stage with
  | sending digits row =>
    rw [hstage] at hs
    cases hs
  | sent row =>
    rw [hstage] at hs hdue
    cases hs
    exact inv_committed hi hdue
  | refusing row =>
    rw [hstage] at hs hdue
    cases hs
    exact inv_committed hi hdue
  | proving answer proof row =>
    rw [hstage] at hs hdue hright
    cases hs
    exact inv_minted hi hdue hright
  | enrolling emailProof row =>
    rw [hstage] at hs hdue hright
    cases hs
    exact inv_redeemed hi hdue hright

/-- A request that can be lost leaves the row as it is. -/
theorem inv_lost {id : ℕ} (hi : Inv hash w) (hg : Prompt w (.lost id)) :
    Inv hash { w with
      waiting := deleteWhere (fun g => g.id = id) w.waiting
      holder := w.holder.filter fun h => h.id ≠ id } := by
  have hwaiting : Inv hash { w with waiting := deleteWhere (fun g => g.id = id) w.waiting } :=
    hi.waiting fun f hf => (mem_deleteWhere.mp hf).1
  cases hh : w.holder with
  | none =>
    rw [hh] at hwaiting
    exact hwaiting
  | some h =>
    by_cases hid : h.id = id
    · have hdue : w.due = w.row := due_of_mayBeLost hh (hg h hh hid)
      have hnone : (some h).filter (fun h => decide (h.id ≠ id)) = none := by simp [hid]
      rw [hnone]
      have hagrees : Agrees hash w.row w := hdue ▸ hi.due
      exact ⟨hi.mailer, hdue ▸ hi.role, hagrees.congr rfl rfl rfl rfl, hwaiting.waited,
        forall_mem_none, hi.left, hi.apart, hi.proven⟩
    · have hsame : (some h).filter (fun h => decide (h.id ≠ id)) = some h := by simp [hid]
      rw [hsame]
      rw [hh] at hwaiting
      exact hwaiting

/-- Every prompt step keeps the invariant. -/
theorem inv_step : Preserved (step hash) Prompt (Inv hash) := by
  intro w a w' hi hg hs
  cases a with
  | begins request =>
    cases hs
    refine ⟨hi.mailer, hi.role, hi.due.congr rfl rfl rfl rfl, ?_, hi.held, hi.left, hi.apart,
      hi.proven⟩
    intro f hf
    rcases List.mem_cons.mp hf with rfl | hf
    · exact Nat.le_refl _
    · exact hi.waited f hf
  | locks id =>
    dsimp only [step] at hs
    split at hs
    · cases hs
    · rename_i hfree
      obtain ⟨f, hf, rfl⟩ := Option.map_eq_some_iff.mp hs
      have hwaiting := hi.waiting fun f hf => (mem_deleteWhere (p := fun g => g.id = id).mp hf).1
      exact inv_decides hwaiting (by simpa using hfree) (hi.waited f (lookup_some hf).1)
  | mails leaves =>
    obtain ⟨h, hh, hs⟩ := Option.bind_eq_some_iff.mp hs
    exact inv_mail hi hh hg hs
  | commits =>
    obtain ⟨h, hh, hs⟩ := Option.bind_eq_some_iff.mp hs
    exact inv_commit hi hh hs
  | lost id =>
    cases hs
    exact inv_lost hi hg
  | tick microseconds =>
    cases hs
    refine ⟨hi.mailer, hi.role, hi.due.congr rfl rfl rfl rfl, ?_, ?_, ?_, hi.apart, hi.proven⟩
    · exact fun f hf => Nat.le_trans (hi.waited f hf) (Nat.le_add_right _ _)
    · intro h hh
      obtain ⟨hbegan, hright⟩ := hi.held h hh
      refine ⟨Nat.le_trans hbegan (Nat.le_add_right _ _), ?_⟩
      cases hstage : h.stage with
      | _ => rw [hstage] at hright; exact hright
    · exact fun l hl => ⟨(hi.left l hl).1, Nat.le_trans (hi.left l hl).2 (Nat.le_add_right _ _)⟩

/-- In every prompt run, confirming the address does what it is for. -/
theorem address_is_confirmed (hr : Reached init (step hash) Prompt w) : Confirmed hash w := by
  have hi : Inv hash w := hr.invariant (Inv hash) (fun _ => inv_init) inv_step
  refine ⟨?_, hi.apart, ?_, ?_, hi.proven, ?_⟩
  · have hbudget := hi.due.budget
    have htries := hi.due.tries
    have hfew := hi.due.few
    dsimp only [emailAttemptsMax, emailLettersMax] at *
    omega
  · intro w' hs
    obtain ⟨h, _, hs⟩ := Option.bind_eq_some_iff.mp hs
    unfold mail at hs
    split at hs
    · cases hs
      exact ⟨rfl, rfl⟩
    · cases hs
  · have hused := hi.due.used
    split at hused <;> omega
  · intro hinjective r hr
    obtain ⟨m, hm, l, proof, hletter, hlatest, hanswer, hproof, heq⟩ := hi.proven r hr
    exact ⟨m, hm, l, hletter, hlatest, hinjective hanswer, hinjective heq ▸ hproof⟩

/-- A hash that keeps the letters of a secret. -/
def spelled (secret : String) : List UInt8 := secret.toList.map fun c => c.toNat.toUInt8

/-- A member's invitation, on a server that confirms addresses. -/
def invited : World := .issued true 0 .member (3600 * second)

/-- The server after these steps. -/
def after (labels : List Label) : World := (run (step spelled) invited labels).getD invited

/-- A letter is sent, and leaves after some time. -/
def letter (id seconds : ℕ) : List Label :=
  [.begins (.send 7), .locks id, .tick (seconds * second), .mails true, .commits]

/-- A request comes, and runs to its end. -/
def whole (id : ℕ) (request : Request) : List Label := [.begins request, .locks id, .commits]

/-- A letter that took two seconds is answered wrong, and then right. -/
def answered : List Label :=
  letter 0 2 ++ whole 1 (.verify "111111" "a proof") ++ whole 2 (.verify "000 007" "a proof") ++
    whole 3 (.enroll (some "a proof"))

theorem address_is_confirmed_answered :
    (after answered).row.used = true ∧ Confirmed spelled (after answered) := by
  have hinvited : Reached init (step spelled) Prompt invited :=
    .start ⟨0, .member, 3600 * second, nofun, rfl⟩
  have hanswered : Reached init (step spelled) Prompt (after answered) :=
    hinvited.run answered (by decide) (by decide)
  exact ⟨by decide, address_is_confirmed hanswered⟩

/-- One letter takes half a minute to leave, and the next one none. -/
def slowMail : List Label := letter 0 30 ++ [.tick (30 * second)] ++ letter 1 0

/-- The request that sends a letter is lost before it commits, and so is the next. -/
def lostMail : List Label :=
  [.begins (.send 7), .locks 0, .mails true, .lost 0, .begins (.send 8), .locks 1, .mails true]

/-- Wrong answers, each lost before it is counted. -/
def lostAnswers : List Label :=
  letter 0 0 ++ (List.range 26).flatMap fun id =>
    [.begins (.verify "111111" "a proof"), .locks (id + 1), .lost (id + 1)]

/-- Letters that are less than a minute apart, twice, and twenty-six wrong answers. -/
theorem letters_and_answers_escape :
    (∃ w, run (step spelled) invited slowMail = some w ∧ ¬ Confirmed spelled w) ∧
    (∃ w, run (step spelled) invited lostMail = some w ∧ ¬ Confirmed spelled w) ∧
    ∃ w, run (step spelled) invited lostAnswers = some w ∧ ¬ Confirmed spelled w := by
  refine ⟨⟨after slowMail, by decide, fun h => ?_⟩,
    ⟨after lostMail, by decide, fun h => ?_⟩,
    ⟨after lostAnswers, by decide, fun h => ?_⟩⟩
  · exact absurd h.apart (by decide)
  · exact absurd h.apart (by decide)
  · exact absurd h.guesses (by decide)

end FuryBrowser.InvitedEmail
