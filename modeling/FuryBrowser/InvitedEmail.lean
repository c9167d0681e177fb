import FuryBrowser.GuardedRuns
import FuryBrowser.OrgKeys

/-!
# The letter to an invited address

A server with mail set up lets nobody redeem an invitation before they have answered
the six digits of a letter. Three handlers share the row of the invitation: one sends a
letter, one takes the answer and hands out a proof, and `complete_enrollment` takes the
proof.

Each is a transaction that locks the row first and reads the clock of its own beginning.
What it writes counts from its commit; when it is lost, or the letter cannot be sent,
nothing of it does. A letter leaves the server while its transaction is open. Times are
in microseconds. How a secret is hashed is a parameter.
-/

namespace FuryBrowser.InvitedEmail

open GuardedRuns RowTable
open OrgKeys (Role)

/-- `EMAIL_CODE_MINUTES`. -/
def emailCodeMinutes : ℕ := 15

/-- `EMAIL_LETTERS_MAX`. -/
def emailLettersMax : ℕ := 5

/-- `EMAIL_LETTER_GAP_SECS`. -/
def emailLetterGapSecs : ℕ := 60

/-- `EMAIL_ATTEMPTS_MAX`. -/
def emailAttemptsMax : ℕ := 5

/-- A second. -/
def second : ℕ := 1000000

/-- A row of `enrollments`. -/
structure Invitation where
  role : Role
  /-- `expires_at`. -/
  expires : ℕ
  /-- `used_at` is set. -/
  used : Bool
  emailCodeHash : Option (List UInt8)
  /-- `email_code_expires_at`. -/
  emailCodeExpires : Option ℕ
  emailCodeAttempts : ℕ
  emailCodeSentAt : Option ℕ
  emailCodesSent : ℕ
  emailProofHash : Option (List UInt8)
  deriving DecidableEq, Repr

/-- `used_at IS NULL AND expires_at > now()`. -/
def Invitation.live (i : Invitation) (now : ℕ) : Bool := !i.used && now < i.expires

/-- `email_check_applies`. -/
def emailCheckApplies (mailer : Bool) (role : Role) : Bool := mailer && role ≠ .owner

/-- How many seconds are left before the next letter. -/
def wait (i : Invitation) (now : ℕ) : ℕ :=
  match i.emailCodeSentAt with
  | none => 0
  | some sentAt => (emailLetterGapSecs * second + sentAt - now + (second - 1)) / second

/-- An answer other than the one that was asked for. -/
inductive Refusal where
  /-- The invitation is used up, expired or unknown. -/
  | notFound
  /-- `ApiError::BadRequest`. -/
  | badRequest (message : String)
  | retryAfter (seconds : ℕ)
  deriving DecidableEq, Repr

/-- Six digits. -/
def digitsOf (draw : Fin 1000000) : String :=
  let digits := toString draw.val
  "".pushn '0' (6 - digits.length) ++ digits

section Handlers

variable (hash : String → List UInt8) (mailer : Bool) (i : Invitation) (now : ℕ)

/-- `enroll_email_send`, up to the letter: its digits, and the row it will leave. -/
def enrollEmailSend (draw : Fin 1000000) : Except Refusal (String × Invitation) :=
  if !mailer then .error (.badRequest "this server does not confirm addresses by email")
  else if !i.live now then .error .notFound
  else if !emailCheckApplies mailer i.role then
    .error (.badRequest "this invitation is not confirmed by email")
  else if 0 < wait i now then .error (.retryAfter (wait i now))
  else if emailLettersMax ≤ i.emailCodesSent then
    .error (.badRequest ("five letters have been sent for this invitation already; " ++
      "ask whoever invited you for a new one"))
  else .ok (digitsOf draw, { i with
    emailCodeHash := some (hash (digitsOf draw))
    emailCodeExpires := some (now + emailCodeMinutes * 60 * second)
    emailCodeAttempts := 0
    emailCodeSentAt := some now
    emailCodesSent := i.emailCodesSent + 1
    emailProofHash := none })

/-- What is compared of an answer. -/
def answerOf (emailCode : String) : String :=
  String.ofList (emailCode.toList.filter Char.isDigit)

/-- `enroll_email_verify`: whether the answer is right, and the row it leaves. The proof
is drawn. -/
def enrollEmailVerify (emailCode proof : String) : Except Refusal (Bool × Invitation) :=
  if !i.live now then .error .notFound
  else match i.emailCodeHash.filter fun _ => i.emailCodeExpires.any fun t => now < t with
  | none => .error (.badRequest "the code from the letter has expired; send another letter")
  | some stored =>
    if emailAttemptsMax ≤ i.emailCodeAttempts then
      .error (.badRequest "too many wrong codes; send another letter")
    else if hash (answerOf emailCode) ≠ stored then
      .ok (false, { i with emailCodeAttempts := i.emailCodeAttempts + 1 })
    else .ok (true, { i with emailProofHash := some (hash proof), emailCodeHash := none })

/-- `complete_enrollment`, as far as it concerns the row. -/
def completeEnrollment (emailProof : Option String) : Except Refusal Invitation :=
  if !i.live now then
    .error (.badRequest
      "this invitation is not valid — it may have been used already, or expired")
  else if emailCheckApplies mailer i.role &&
      !(emailProof.any fun proof => i.emailProofHash = some (hash proof)) then
    .error (.badRequest ("this server confirms the invited address by email first. If the app " ++
      "did not ask for a code from a letter, update Fury to 0.3.12 or later"))
  else .ok { i with used := true }

end Handlers

/-- What may be asked for one invitation. -/
inductive Request where
  /-- A letter, with these digits. -/
  | send (draw : Fin 1000000)
  /-- The answer to it, for which there would be this proof. -/
  | verify (emailCode proof : String)
  | enroll (emailProof : Option String)
  deriving DecidableEq, Repr

/-- A request that has begun its transaction and waits for the row. -/
structure Flight where
  id : ℕ
  /-- `now()` of its transaction. -/
  began : ℕ
  request : Request
  deriving DecidableEq, Repr

/-- What the request that has the row locked is about to do. -/
inductive Stage where
  | sending (digits : String) (row : Invitation)
  /-- To commit that it was sent. -/
  | sent (row : Invitation)
  /-- To commit that an answer was wrong. -/
  | refusing (row : Invitation)
  /-- To commit that one was right. -/
  | proving (answer proof : String) (row : Invitation)
  | enrolling (emailProof : Option String) (row : Invitation)
  deriving DecidableEq, Repr

/-- A request that has the row locked. -/
structure Holder where
  id : ℕ
  /-- `now()` of its transaction. -/
  began : ℕ
  stage : Stage
  deriving DecidableEq, Repr

/-- A letter that has left the server. -/
structure Letter where
  left : ℕ
  /-- When the transaction that sent it began. -/
  began : ℕ
  digits : String
  deriving DecidableEq, Repr

/-- A proof that was handed out. -/
structure Mint where
  proof : String
  /-- The answer it was handed out for. -/
  answer : String
  /-- The latest letter at that moment. -/
  letter : Option Letter
  deriving DecidableEq, Repr

/-- An account that was made from the invitation. -/
structure Redemption where
  /-- The proof it was made with. -/
  emailProof : Option String
  /-- The latest letter at that moment. -/
  letter : Option Letter
  deriving DecidableEq, Repr

/-- One invitation, and the requests for it. -/
structure World where
  mailer : Bool
  now : ℕ
  row : Invitation
  /-- Requests that wait for it. -/
  waiting : List Flight
  /-- The one that has it locked. -/
  holder : Option Holder
  nextId : ℕ
  /-- The letters, latest first. Nothing reads them. -/
  letters : List Letter
  /-- Wrong answers that were compared. Nothing reads it. -/
  wrong : ℕ
  /-- Proofs handed out. Nothing reads them. -/
  minted : List Mint
  /-- Accounts made. Nothing reads them. -/
  redeemed : List Redemption
  deriving DecidableEq, Repr

/-- What can happen next. -/
inductive Label where
  /-- A request begins its transaction. -/
  | begins (request : Request)
  /-- One that waits gets the row, and decides. -/
  | locks (id : ℕ)
  /-- The letter leaves, or cannot be sent. -/
  | mails (leaves : Bool)
  /-- The request that has the row commits. -/
  | commits
  /-- A request is lost, or a query of it fails. -/
  | lost (id : ℕ)
  | tick (microseconds : ℕ)
  deriving DecidableEq, Repr

/-- A request decides on the row it has locked, and is refused or goes on. -/
def decides (hash : String → List UInt8) (w : World) (f : Flight) : World :=
  match f.request with
  | .send draw =>
    match enrollEmailSend hash w.mailer w.row f.began draw with
    | .error _ => w
    | .ok (digits, row) => { w with holder := some ⟨f.id, f.began, .sending digits row⟩ }
  | .verify emailCode proof =>
    match enrollEmailVerify hash w.row f.began emailCode proof with
    | .error _ => w
    | .ok (false, row) =>
      { w with holder := some ⟨f.id, f.began, .refusing row⟩, wrong := w.wrong + 1 }
    | .ok (true, row) =>
      { w with holder := some ⟨f.id, f.began, .proving (answerOf emailCode) proof row⟩ }
  | .enroll emailProof =>
    match completeEnrollment hash w.mailer w.row f.began emailProof with
    | .error _ => w
    | .ok row => { w with holder := some ⟨f.id, f.began, .enrolling emailProof row⟩ }

/-- A commit. -/
def commit (w : World) (h : Holder) : Option World :=
  match h.stage with
  | .sending _ _ => none
  | .sent row | .refusing row => some { w with row := row, holder := none }
  | .proving answer proof row => some { w with
      row := row
      holder := none
      minted := ⟨proof, answer, w.letters.head?⟩ :: w.minted }
  | .enrolling emailProof row => some { w with
      row := row
      holder := none
      redeemed := ⟨emailProof, w.letters.head?⟩ :: w.redeemed }

/-- The letter leaves, or cannot be sent. -/
def mail (w : World) (h : Holder) (leaves : Bool) : Option World :=
  match h.stage with
  | .sending digits row =>
    if leaves then some { w with
      holder := some { h with stage := .sent row }
      letters := ⟨w.now, h.began, digits⟩ :: w.letters }
    else some { w with holder := none }
  | _ => none

/-- One step. -/
def step (hash : String → List UInt8) (w : World) : Label → Option World
  | .begins request => some { w with
      waiting := ⟨w.nextId, w.now, request⟩ :: w.waiting
      nextId := w.nextId + 1 }
  | .locks id =>
    if w.holder.isSome then none
    else (lookup Flight.id w.waiting id).map fun f =>
      decides hash { w with waiting := deleteWhere (fun g => g.id = id) w.waiting } f
  | .mails leaves => w.holder.bind fun h => mail w h leaves
  | .commits => w.holder.bind fun h => commit w h
  | .lost id => some { w with
      waiting := deleteWhere (fun g => g.id = id) w.waiting
      holder := w.holder.filter fun h => h.id ≠ id }
  | .tick microseconds => some { w with now := w.now + microseconds }

/-- An invitation as it is issued. -/
def Invitation.issued (role : Role) (expires : ℕ) : Invitation :=
  ⟨role, expires, false, none, none, 0, none, 0, none⟩

/-- A server at the moment it has issued an invitation. -/
def World.issued (mailer : Bool) (now : ℕ) (role : Role) (expires : ℕ) : World :=
  ⟨mailer, now, .issued role expires, [], none, 0, [], 0, [], []⟩

/-- An invitation to a team, other than as its owner, on a server that confirms
addresses. -/
def init (w : World) : Prop :=
  ∃ now role expires, role ≠ .owner ∧ w = .issued true now role expires

end FuryBrowser.InvitedEmail
