import Mathlib.Logic.Function.Basic
import FuryBrowser.GuardedRuns

/-!
# The session, one lock at a time

Where the shell's requests go is a setting; what they carry is in the session, which has an
account, a token and a mark of its own for each. Every one of these is behind its own lock, and
a command takes one lock after the other. Commands run at the same time, and what the keychain
is asked for it answers when somebody has clicked.

A command is a list of accesses, each of which happens at once; between two of them anything can
happen. What a command calls runs in a frame of its own, which a failure leaves.
-/

namespace FuryBrowser.SessionSteps

universe u v

/-- One access to what the commands share, or one wait. -/
inductive Instr (σ : Type u)
  /-- `server_url`, without which there is no request. -/
  | serverUrl
  /-- The same where its absence is looked at with the token's. -/
  | tryServerUrl
  /-- `ensure_loaded` looks whether the keychain was consulted. -/
  | ensureLoaded
  /-- It reads the account to ask for. -/
  | readAccount
  /-- It asks, unless somebody does. -/
  | startReading
  /-- It waits for the answer, five seconds at most. -/
  | awaitKeychain
  /-- The answer is the token. -/
  | putToken
  /-- Whether the keychain was consulted. -/
  | setLoaded (loaded : Bool)
  /-- The next one may ask again. -/
  | endReading
  /-- The token, without which there is no request. -/
  | takeToken
  /-- `is_signed_in`, where the rest is for those who are. -/
  | needSignedIn
  /-- A request with a token leaves. -/
  | send
  | receive
  /-- A sign-in, at the address just read. -/
  | ask
  /-- An enrolment or a sign-up, at an address that comes with it. -/
  | askAt (s : σ)
  /-- Is there a server at all? -/
  | probe
  /-- `store` puts the token in memory. -/
  | storeToken
  /-- The account whose entry is to be written or deleted. -/
  | entryAccount
  /-- `store` writes the entry. -/
  | writeEntry
  /-- `clear` deletes it. -/
  | deleteEntry
  | clearToken
  /-- The address changes, in memory and on disk. -/
  | setAddress (address : Option σ)
  /-- `bind` points the session at a server. -/
  | bindAccount (s : σ)
  /-- A sign-in refuses a key that goes backwards. -/
  | checkGeneration
  /-- `shell_state` asks the server only when it has no key. -/
  | awaitingKey
  /-- `logout` revokes first. -/
  | revoke
  /-- `disconnect_server` signs out who is signed in. -/
  | logoutIfSignedIn
  deriving DecidableEq, Repr

/-- How a wait ends, and which way a branch goes. -/
inductive Outcome (τ : Type v)
  | done
  /-- Refused, lost, too late. -/
  | failed
  | unauthorized
  /-- Answered with a session. -/
  | granted (token : τ)
  deriving DecidableEq, Repr

/-- What is still to do, the innermost frame first. -/
abbrev Code (σ : Type u) := List (List (Instr σ))

section Commands

variable {σ : Type u}

/-- `ensure_loaded`, once it has to. -/
def loading : List (Instr σ) :=
  [.readAccount, .startReading, .awaitKeychain, .putToken, .setLoaded true, .endReading]

/-- `bind`. -/
def bind (s : σ) : List (Instr σ) := [.bindAccount s, .clearToken, .setLoaded false]

/-- `store`. -/
def store : List (Instr σ) := [.storeToken, .setLoaded true, .entryAccount, .writeEntry]

/-- `clear`. -/
def clear : List (Instr σ) := [.clearToken, .setLoaded true, .entryAccount, .deleteEntry]

/-- An authenticated `call`. -/
def call : List (Instr σ) := [.serverUrl, .ensureLoaded, .takeToken, .send, .receive]

/-- `key_withheld`, for whoever is signed in. -/
def keyWithheld : List (Instr σ) :=
  [.ensureLoaded, .needSignedIn, .tryServerUrl, .ensureLoaded, .takeToken, .send, .receive]

/-- `shell_state`. -/
def shellState : List (Instr σ) := [.awaitingKey, .ensureLoaded]

/-- `logout`. -/
def logout : List (Instr σ) := .revoke :: clear

/-- The commands that have to do with the session. -/
inductive Command (σ : Type u)
  /-- Any command with an authenticated request. -/
  | call
  /-- An address and a token for the agent, with a launch or an upload. -/
  | hand
  /-- What the window asks every five seconds. -/
  | shellState
  /-- `login` or `login_totp`. -/
  | login
  /-- `enrol` or `signup`. -/
  | enrol (s : σ)
  | logout
  | setServer (s : σ)
  /-- `disconnect_server`. -/
  | disconnect
  deriving DecidableEq, Repr

/-- What a command does. -/
def Command.code : Command σ → List (Instr σ)
  | .call => SessionSteps.call
  | .hand => [.serverUrl, .ensureLoaded, .takeToken, .send]
  | .shellState => SessionSteps.shellState
  | .login => [.serverUrl, .ask] ++ store ++ .checkGeneration :: SessionSteps.call
  | .enrol s => [.askAt s, .setAddress (some s)] ++ bind s ++ store ++ SessionSteps.call
  | .logout => SessionSteps.logout
  | .setServer s => [.probe, .setAddress (some s)] ++ bind s ++ SessionSteps.shellState
  | .disconnect =>
    [.ensureLoaded, .logoutIfSignedIn, .setAddress none] ++ SessionSteps.shellState

end Commands

/-- What the commands share, and what became of the tokens so far. -/
structure Session (σ : Type u) (τ : Type v) where
  serverUrl : Option σ
  /-- The server that the session is bound to. -/
  account : Option σ
  token : Option τ
  /-- Whether the keychain was consulted for the account. -/
  loaded : Bool
  /-- Whether somebody is asking it. -/
  reading : Bool
  /-- The keychain's entries. -/
  keychain : σ → Option τ
  /-- The account at the time the token was put in memory. -/
  boundTo : Option σ
  /-- Every request's address and token. -/
  sent : List (σ × τ)
  /-- What was ever stored, and for which server. -/
  stored : List (σ × τ)

/-- What a command knows. -/
structure Registers (σ : Type u) (τ : Type v) where
  base : Option σ
  held : Option τ
  acct : Option σ
  /-- What the keychain answered. -/
  found : Option (Option τ)
  deriving DecidableEq, Repr

/-- A command under way. -/
structure Thread (σ : Type u) (τ : Type v) where
  regs : Registers σ τ
  /-- What it has still to do. -/
  code : Code σ
  deriving DecidableEq, Repr

/-- The session and the commands under way. -/
structure World (σ : Type u) (τ : Type v) where
  now : Session σ τ
  threads : List (Thread σ τ)

/-- What can happen. -/
inductive Label (σ : Type u) (τ : Type v)
  | start (c : Command σ)
  /-- A command goes on by one access. -/
  | goOn (i : ℕ) (o : Outcome τ)
  /-- The keychain is read for a command, or does not let itself be read. -/
  | keychain (i : ℕ) (works : Bool)
  deriving DecidableEq, Repr

section Steps

variable {σ : Type u} {τ : Type v} [DecidableEq σ] (issuer : τ → σ)

/-- One access, with what follows it in its frame and what follows the frame. A server grants
the tokens that it issues. -/
def exec (n : Session σ τ) (r : Registers σ τ) (on off : Code σ) :
    Instr σ → Outcome τ → Option (Session σ τ × Registers σ τ × Code σ)
  | .serverUrl, .done =>
    match n.serverUrl with
    | some s => some (n, { r with base := some s, held := none }, on)
    | none => some (n, r, off)
  | .tryServerUrl, .done => some (n, { r with base := n.serverUrl, held := none }, on)
  | .ensureLoaded, .done => some (n, r, if n.loaded then on else loading :: on)
  | .readAccount, .done =>
    match n.account with
    | some s => some (n, { r with acct := some s, found := none }, on)
    | none => some (n, r, off)
  | .startReading, .done =>
    if n.reading then some (n, r, off) else some ({ n with reading := true }, r, on)
  | .awaitKeychain, .done => if r.found.isSome then some (n, r, on) else none
  -- Nobody takes the mark back.
  | .awaitKeychain, .failed => some (n, r, off)
  | .putToken, .done =>
    match r.found with
    | some stored => some ({ n with token := stored, boundTo := n.account }, r, on)
    | none => none
  | .setLoaded loaded, .done => some ({ n with loaded := loaded }, r, on)
  | .endReading, .done => some ({ n with reading := false }, r, on)
  | .takeToken, .done =>
    match r.base, n.token with
    | some _, some t => some (n, { r with held := some t }, on)
    | _, _ => some (n, r, off)
  | .needSignedIn, .done => some (n, r, if n.token.isSome then on else off)
  | .send, .done =>
    match r.base, r.held with
    | some s, some t => some ({ n with sent := (s, t) :: n.sent }, r, on)
    | _, _ => none
  | .receive, .done => some (n, r, on)
  | .receive, .failed => some (n, r, off)
  | .receive, .unauthorized => some (n, r, clear :: off)
  | .ask, .granted t =>
    if r.base = some (issuer t) then some (n, { r with held := some t }, on) else none
  -- A second factor is wanted, which is another command.
  | .ask, .done => some (n, r, off)
  | .ask, .failed => some (n, r, off)
  | .ask, .unauthorized => some (n, r, clear :: off)
  | .askAt s, .granted t =>
    if s = issuer t then some (n, { r with base := some s, held := some t }, on) else none
  | .askAt _, .failed => some (n, r, off)
  | .probe, .done => some (n, r, on)
  | .probe, .failed => some (n, r, off)
  | .storeToken, .done =>
    match r.held with
    | some t => some ({ n with token := some t, boundTo := n.account }, r, on)
    | none => none
  | .entryAccount, .done => some (n, { r with acct := n.account, found := none }, on)
  | .writeEntry, .done =>
    match r.acct, r.held with
    | some s, some t =>
      some ({ n with keychain := Function.update n.keychain s (some t),
                     stored := (s, t) :: n.stored }, r, on)
    | none, some _ => some (n, r, on)
    | _, none => none
  | .writeEntry, .failed => some (n, r, on)
  | .deleteEntry, .done =>
    match r.acct with
    | some s => some ({ n with keychain := Function.update n.keychain s none }, r, on)
    | none => some (n, r, on)
  | .deleteEntry, .failed => some (n, r, on)
  | .clearToken, .done => some ({ n with token := none }, r, on)
  | .setAddress address, .done => some ({ n with serverUrl := address }, r, on)
  -- It could not be saved, and is in use all the same.
  | .setAddress address, .failed => some ({ n with serverUrl := address }, r, off)
  | .bindAccount s, .done => some ({ n with account := some s }, r, on)
  | .checkGeneration, .done => some (n, r, on)
  | .checkGeneration, .failed => some (n, r, off)
  | .awaitingKey, .done => some (n, r, on)
  | .awaitingKey, .failed => some (n, r, keyWithheld :: on)
  | .revoke, .done => some (n, r, call :: on)
  | .logoutIfSignedIn, .done => some (n, r, if n.token.isSome then logout :: on else on)
  | _, _ => none

/-- A command goes on; a frame that is done is left. -/
def Thread.goOn (n : Session σ τ) (th : Thread σ τ) (o : Outcome τ) :
    Option (Session σ τ × Thread σ τ) :=
  match th.code with
  | [] => none
  | [] :: off => some (n, { th with code := off })
  | (ins :: block) :: off =>
    (exec issuer n th.regs (block :: off) off ins o).map fun (n, r, code) => (n, ⟨r, code⟩)

/-- The keychain is read for a command that waits for it. -/
def Thread.answered (n : Session σ τ) (th : Thread σ τ) (works : Bool) : Option (Thread σ τ) :=
  match th.code, th.regs.acct, th.regs.found with
  | (.awaitKeychain :: _) :: _, some s, none =>
    some { th with regs := { th.regs with found := some (if works then n.keychain s else none) } }
  | _, _, _ => none

/-- One step of the world. -/
def step (w : World σ τ) : Label σ τ → Option (World σ τ)
  | .start c => some { w with threads := w.threads ++ [⟨⟨none, none, none, none⟩, [c.code]⟩] }
  | .goOn i o =>
    w.threads[i]?.bind fun th =>
      (th.goOn issuer w.now o).map fun (n, th) => ⟨n, w.threads.set i th⟩
  | .keychain i works =>
    w.threads[i]?.bind fun th =>
      (th.answered w.now works).map fun th => { w with threads := w.threads.set i th }

/-- A shell that was just started: it is bound to the server in use, if any, and the keychain
has what was stored. -/
structure Start (w : World σ τ) : Prop where
  /-- Bound to the server in use. -/
  account : w.now.account = w.now.serverUrl
  token : w.now.token = none
  /-- The keychain was not consulted. -/
  loaded : w.now.loaded = false
  reading : w.now.reading = false
  /-- What it has was stored. -/
  keychain : ∀ s t, w.now.keychain s = some t → (s, t) ∈ w.now.stored
  /-- What was stored was stored for its server. -/
  stored : ∀ p ∈ w.now.stored, issuer p.2 = p.1
  sent : w.now.sent = []
  /-- No command is under way. -/
  threads : w.threads = []

end Steps

end FuryBrowser.SessionSteps
