import Mathlib.Logic.Function.Basic
import Mathlib.Order.WithBot
import FuryBrowser.Watermarks

/-!
# The organisation key that the shell holds

The shell keeps the organisation key in memory and, unless it is told not to, in the keychain,
where there is one entry for each server. The generation it has seen is one number, for all
servers and accounts, in memory and in the settings file. Sign-ins, launches and rotations
change them, each by rules of its own; pointing the shell at another server changes neither the
key in memory nor the number.

Beside what the shell has, the state says what was accepted for which organisation, and which
sign-ins were refused as stale.
-/

namespace FuryBrowser.ShellKeys

open Watermarks

universe u v w

/-- `Settings`, as far as keys depend on it. -/
structure Settings (σ : Type u) where
  serverUrl : Option σ
  orkGeneration : ℤ
  rememberOrgKey : Bool
  deriving DecidableEq, Repr

/-- `Settings::load`, of a file that may be gone or unreadable. -/
def Settings.load {σ : Type u} (file : Option (Settings σ)) : Settings σ :=
  file.getD ⟨none, 0, true⟩

/-- Where an answer without a generation ranks: below any generation. -/
def rank : Option ℤ → WithBot ℤ
  | some g => g
  | none => ⊥

/-- What was accepted for which organisation. -/
abbrev History (ο : Type v) (κ : Type w) := List (Accepted ο (WithBot ℤ) κ)

/-- A sign-in that was refused as stale. -/
structure Refusal (ο : Type v) (κ : Type w) where
  org : ο
  /-- The generation that the server named. -/
  generation : Option ℤ
  /-- What had been accepted by then. -/
  accepted : History ο κ
  deriving DecidableEq, Repr

/-- `wrapped_ork` of a sign-in, with what `unlock_org_key` makes of it. -/
inductive Wrapped (κ : Type w) where
  | absent
  | unopenable
  | opens (k : κ)
  deriving DecidableEq, Repr

/-- `LoginOk`. -/
structure LoginOk (ο : Type v) (κ : Type w) where
  /-- The organisation that the token is for. -/
  org : ο
  /-- `ork_generation`. -/
  generation : Option ℤ
  wrappedOrk : Wrapped κ
  deriving DecidableEq, Repr

/-- `AppState` with its session, the keychain and the settings file. -/
structure Shell (σ : Type u) (ο : Type v) (κ : Type w) where
  settings : Settings σ
  file : Option (Settings σ)
  /-- `org_key`, in memory. -/
  memory : Option κ
  /-- `ork_generation`, in memory. -/
  orkGeneration : ℤ
  /-- `account` of the session: the server that it is bound to. -/
  account : Option σ
  /-- The token for each server, by the organisation it is for. -/
  tokens : σ → Option ο
  /-- The organisation key that the keychain has for each server. -/
  keychain : σ → Option κ
  /-- What was accepted so far. -/
  accepted : History ο κ
  /-- The sign-ins that were refused. -/
  refused : List (Refusal ο κ)

variable {σ : Type u} {ο : Type v} {κ : Type w}

namespace Shell

section Reads

variable (st : Shell σ ο κ)

/-- `load_org_key`. -/
def loadOrgKey : Option κ := st.account.bind st.keychain

/-- What `org_key` finds where there is nothing in memory. -/
def remembered : Option κ := if st.settings.rememberOrgKey then st.loadOrgKey else none

/-- `org_key`. -/
def orgKey : Option κ := st.memory <|> st.remembered

/-- Whom requests to the server are made for. -/
def session : Option ο := st.settings.serverUrl.bind fun _ => st.account.bind st.tokens

/-- A generation is below what this machine has seen. -/
def stale (ok : LoginOk ο κ) : Bool := ok.generation.any (· < st.orkGeneration)

end Reads

section Writes

variable (st : Shell σ ο κ)

/-- `save`. -/
def save : Shell σ ο κ := { st with file := some st.settings }

/-- What `org_key` finds stays in memory. -/
def fetch : Shell σ ο κ := { st with memory := st.orgKey }

/-- The generation goes up, in memory and in the file. -/
def raise (g : ℤ) : Shell σ ο κ :=
  { st with
    orkGeneration := max st.orkGeneration g
    settings := { st.settings with orkGeneration := max st.orkGeneration g } }.save

/-- Something is accepted. -/
def accept (org : ο) (generation : Option ℤ) (key : Option κ) : Shell σ ο κ :=
  let raised := match generation with
    | some g => st.raise g
    | none => st
  { raised with accepted := ⟨org, rank generation, key⟩ :: st.accepted }

/-- A sign-in is refused as stale. -/
def refuse (ok : LoginOk ο κ) : Shell σ ο κ :=
  { st with refused := ⟨ok.org, ok.generation, st.accepted⟩ :: st.refused }

variable [DecidableEq σ]

/-- An entry of the keychain, under the server that the session is bound to. -/
def setEntry {α : Type*} (entries : σ → Option α) (v : Option α) : σ → Option α :=
  match st.account with
  | some s => Function.update entries s v
  | none => entries

/-- `store`. -/
def store (org : ο) : Shell σ ο κ := { st with tokens := st.setEntry st.tokens (some org) }

/-- `store_org_key`. -/
def storeOrgKey (k : κ) : Shell σ ο κ := { st with keychain := st.setEntry st.keychain (some k) }

/-- `forget_org_key`. -/
def forgetOrgKey : Shell σ ο κ := { st with keychain := st.setEntry st.keychain none }

/-- `clear`. -/
def clear : Shell σ ο κ :=
  { st.forgetOrgKey with tokens := st.setEntry st.tokens none }

/-- A key is taken into memory, and into the keychain where that is wanted. -/
def take (k : κ) : Shell σ ο κ :=
  let taken := { st with memory := some k }
  if st.settings.rememberOrgKey then taken.storeOrgKey k else taken

end Writes

section Commands

variable [DecidableEq σ] (st : Shell σ ο κ)

/-- `finish_login`. -/
def finishLogin (ok : LoginOk ο κ) : Shell σ ο κ :=
  let signedIn := (st.store ok.org).save
  if st.stale ok then signedIn.refuse ok
  else match ok.wrappedOrk with
    | .absent => { signedIn with memory := none }.accept ok.org ok.generation none
    | .unopenable => { signedIn with memory := none }
    | .opens k => (signedIn.take k).accept ok.org ok.generation (some k)

/-- `login`. -/
def login (ok : LoginOk ο κ) : Option (Shell σ ο κ) :=
  st.settings.serverUrl.map fun _ => st.finishLogin ok

/-- The process starts again. -/
def restart : Shell σ ο κ :=
  let settings := Settings.load st.file
  { st with
    settings := settings
    memory := none
    orkGeneration := settings.orkGeneration
    account := settings.serverUrl }

/-- `set_server`, with `shell_state` at its end. -/
def setServer (s : σ) : Shell σ ο κ :=
  { { st with settings := { st.settings with serverUrl := some s } }.save with
    account := some s }.fetch

/-- `launch_from_spec`: whether a key opens the proxy, and `key_generation`. -/
def launch (opens : κ → Bool) (keyGeneration : Option ℤ) : Option (Shell σ ο κ) :=
  st.session.map fun org =>
    match st.orgKey with
    | none => st
    | some k =>
      if opens k then
        match keyGeneration.filter (st.orkGeneration < ·) with
        | some g => st.fetch.accept org (some g) (some k)
        | none => st.fetch
      else if keyGeneration.any (st.orkGeneration < ·) then
        { st with memory := none }.forgetOrgKey
      else st.fetch

/-- The end of `remove_member`, which made a new key. -/
def rotate (new : κ) (generation : Option ℤ) : Option (Shell σ ο κ) :=
  st.session.bind fun org => st.orgKey.map fun _ =>
    (st.take new).accept org generation (some new)

/-- `logout`. -/
def logout : Shell σ ο κ := { st.clear with memory := none }

/-- A request is answered with 401. -/
def unauthorized : Option (Shell σ ο κ) := st.settings.serverUrl.map fun _ => st.clear

/-- `disconnect_server`. -/
def disconnect : Shell σ ο κ :=
  let left := if (st.account.bind st.tokens).isSome then st.logout else st
  { left with settings := { left.settings with serverUrl := none } }.save.fetch

/-- `set_remember_org_key`. -/
def setRememberOrgKey (remember : Bool) : Shell σ ο κ :=
  let set := { st with settings := { st.settings with rememberOrgKey := remember } }.save
  let kept := match remember, set.memory with
    | false, _ => set.forgetOrgKey
    | true, some k => set.storeOrgKey k
    | true, none => set
  kept.fetch

/-- `enrol` and `signup`: a new account, with the key of the organisation if that is new too. -/
def enrol (s : σ) (org : ο) (key : Option κ) : Shell σ ο κ :=
  let bound := { { st with settings := { st.settings with serverUrl := some s } }.save with
    account := some s }.store org
  match key with
  | some k => (bound.take k).accept org none (some k)
  | none => { bound with memory := none }

end Commands

section Fields

variable (st : Shell σ ο κ) {org : ο} {g : Option ℤ} {key : Option κ}

@[simp] theorem fetch_orgKey : st.fetch.orgKey = st.orgKey := by
  unfold Shell.fetch Shell.orgKey
  cases st.memory with
  | some k => rfl
  | none =>
    change (st.remembered <|> st.remembered) = st.remembered
    cases st.remembered <;> rfl

@[simp] theorem accept_session : (st.accept org g key).session = st.session := by
  cases g <;> rfl

@[simp] theorem accept_remembered : (st.accept org g key).remembered = st.remembered := by
  cases g <;> rfl

@[simp] theorem accept_orgKey : (st.accept org g key).orgKey = st.orgKey := by
  cases g <;> rfl

@[simp] theorem accept_refused : (st.accept org g key).refused = st.refused := by
  cases g <;> rfl

@[simp] theorem accept_account : (st.accept org g key).account = st.account := by
  cases g <;> rfl

@[simp] theorem accept_serverUrl :
    (st.accept org g key).settings.serverUrl = st.settings.serverUrl := by
  cases g <;> rfl

@[simp] theorem accept_accepted :
    (st.accept org g key).accepted = ⟨org, rank g, key⟩ :: st.accepted := rfl

section Entries

variable [DecidableEq σ] {α : Type*} {entries : σ → Option α} {v : Option α}

/-- What is read back is what was written. -/
theorem bind_setEntry : st.account.bind (st.setEntry entries v) = st.account.bind fun _ => v := by
  unfold setEntry
  cases st.account with
  | none => rfl
  | some s => exact Function.update_self s v entries

theorem store_session {s : σ} (hs : st.settings.serverUrl = some s) (ha : st.account = some s) :
    (st.store org).session = some org := by
  have hbind : (st.store org).session = st.settings.serverUrl.bind fun _ =>
      st.account.bind (st.setEntry st.tokens (some org)) := rfl
  rw [hbind, bind_setEntry, hs, ha]
  rfl

theorem clear_session : st.clear.session = none := by
  have hbind : st.clear.session = st.settings.serverUrl.bind fun _ =>
      st.account.bind (st.setEntry st.tokens none) := rfl
  rw [hbind, bind_setEntry]
  cases st.settings.serverUrl <;> cases st.account <;> rfl

theorem forgetOrgKey_remembered : st.forgetOrgKey.remembered = none := by
  have hbind : st.forgetOrgKey.remembered = if st.settings.rememberOrgKey then
      st.account.bind (st.setEntry st.keychain none) else none := rfl
  rw [hbind, bind_setEntry]
  cases st.account <;> exact ite_self _

@[simp] theorem take_orgKey (k : κ) : (st.take k).orgKey = some k := by
  unfold take
  split <;> rfl

@[simp] theorem take_session (k : κ) : (st.take k).session = st.session := by
  unfold take
  split <;> rfl

@[simp] theorem take_accepted (k : κ) : (st.take k).accepted = st.accepted := by
  unfold take
  split <;> rfl

@[simp] theorem take_refused (k : κ) : (st.take k).refused = st.refused := by
  unfold take
  split <;> rfl

@[simp] theorem take_account (k : κ) : (st.take k).account = st.account := by
  unfold take
  split <;> rfl

@[simp] theorem take_settings (k : κ) : (st.take k).settings = st.settings := by
  unfold take
  split <;> rfl

/-- What is in memory stays, and the keychain is asked if it is to be. -/
theorem setRememberOrgKey_orgKey (remember : Bool) : (st.setRememberOrgKey remember).orgKey =
    (st.memory <|> if remember then st.loadOrgKey else none) := by
  obtain ⟨settings, file, memory, orkGeneration, account, tokens, keychain, accepted, refused⟩ := st
  unfold setRememberOrgKey
  rw [fetch_orgKey]
  cases remember with
  | false => cases memory <;> rfl
  | true => cases memory <;> rfl

theorem setRememberOrgKey_refused (remember : Bool) :
    (st.setRememberOrgKey remember).refused = st.refused := by
  unfold setRememberOrgKey
  dsimp only
  split <;> rfl

theorem setRememberOrgKey_accepted (remember : Bool) :
    (st.setRememberOrgKey remember).accepted = st.accepted := by
  unfold setRememberOrgKey
  dsimp only
  split <;> rfl

theorem setRememberOrgKey_session (remember : Bool) :
    (st.setRememberOrgKey remember).session = st.session := by
  unfold setRememberOrgKey
  dsimp only
  split <;> rfl

end Entries

end Fields

end Shell

/-- What can happen. -/
inductive Label (σ : Type u) (ο : Type v) (κ : Type w) where
  | signIn (ok : LoginOk ο κ)
  /-- The process starts again. -/
  | restart
  /-- The shell is pointed at a server. -/
  | setServer (s : σ)
  /-- A team profile is launched. -/
  | launch (opens : κ → Bool) (keyGeneration : Option ℤ)
  /-- The organisation key is replaced from here. -/
  | rotate (new : κ) (generation : Option ℤ)
  /-- The settings file is lost. -/
  | loseSettings
  /-- The window asks for the state. -/
  | poll
  | logout
  /-- The session has ended on the server. -/
  | unauthorized
  /-- The server is forgotten. -/
  | disconnect
  /-- The key is to be remembered, or not. -/
  | setRememberOrgKey (remember : Bool)
  | enrol (s : σ) (org : ο) (key : Option κ)

/-- What follows. -/
def step [DecidableEq σ] (st : Shell σ ο κ) : Label σ ο κ → Option (Shell σ ο κ)
  | .signIn ok => st.login ok
  | .restart => some st.restart
  | .setServer s => some (st.setServer s)
  | .launch opens keyGeneration => st.launch opens keyGeneration
  | .rotate new generation => st.rotate new generation
  | .loseSettings => some { st with file := none }
  | .poll => some st.fetch
  | .logout => some st.logout
  | .unauthorized => st.unauthorized
  | .disconnect => some st.disconnect
  | .setRememberOrgKey remember => some (st.setRememberOrgKey remember)
  | .enrol s org key => some (st.enrol s org key)

/-- A machine that Fury was just installed on. -/
def fresh : Shell σ ο κ where
  settings := Settings.load none
  file := none
  memory := none
  orkGeneration := 0
  account := none
  tokens := fun _ => none
  keychain := fun _ => none
  accepted := []
  refused := []

end FuryBrowser.ShellKeys
