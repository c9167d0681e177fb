import FuryBrowser.HostMask
import FuryBrowser.RowTable
import FuryBrowser.TextCuts
import FuryBrowser.Totp

/-!
# Editing a team proxy

The login and the password of a team proxy are sealed together on the machine that saves them, and
the form never receives them: what is left blank stays. A half that is left blank beside one that
was typed comes from what is stored. A WireGuard proxy has its whole configuration where another
has a password, and no login.
-/

namespace FuryBrowser.TeamSecrets

open AgentDisk TextBytes TextTrims RowTable
open HostMask (maskHost)

/-- A value sealed under a key, which opens under no other. -/
structure Sealed (κ : Type) (α : Type) where
  key : κ
  content : α

/-- It opens, or this is another key. -/
def Sealed.openWith {κ α : Type} [DecidableEq κ] (s : Sealed κ α) (k : κ) : Option α :=
  if s.key = k then some s.content else none

/-- `ProxyCredentials`. -/
structure Credentials where
  username : Option Text
  password : Option Text
  deriving DecidableEq, Repr

/-- What a proxy speaks. -/
inductive Kind
  | http
  | https
  | socks5
  | wireguard
  deriving DecidableEq, Repr

/-- A tunnel has its configuration where another proxy has a password. -/
def Kind.isTunnel (k : Kind) : Bool := k = .wireguard

/-- What `proxies` has in the clear. -/
structure Details where
  name : Text
  kind : Kind
  host : Text
  port : ℕ
  name_trimmed : trimText name = name
  host_trimmed : trimText host = host
  port_range : 1 ≤ port ∧ port ≤ 65535

/-- A row of `proxies`. -/
structure ProxyRow (κ : Type) where
  id : ℕ
  details : Details
  /-- `credentials_enc` and `wrapped_dek`. -/
  secret : Option (Sealed κ Credentials)

/-- What is sealed in a row. -/
def ProxyRow.credentials {κ : Type} (r : ProxyRow κ) : Credentials :=
  (r.secret.map Sealed.content).getD ⟨none, none⟩

/-- What `may_change_proxy` found. -/
inductive ProxyChange
  | allowed
  /-- Somebody else added it. -/
  | notTheirs
  /-- Theirs, but no project gives them the permission any more. -/
  | noLongerPermitted
  deriving DecidableEq, Repr

/-- What the server allows the caller. -/
structure Caller where
  /-- `may_change_proxy`. -/
  change : ℕ → ProxyChange
  /-- `may_add_proxies`. -/
  add : Bool
  /-- The permission to see secrets. -/
  reveal : Bool

/-- How the server refuses. -/
inductive Refusal
  | denied
  | notTheirs
  | notFound
  /-- The request makes no sense. -/
  | badRequest
  deriving DecidableEq, Repr

/-- How a request goes. -/
inductive Delivery
  | done
  /-- It arrives, and the answer is lost. -/
  | lost
  | failed
  deriving DecidableEq, Repr

/-- How a command fails. -/
inductive Failure
  /-- This machine does not hold the organisation key. -/
  | noKey
  /-- Both halves have to be typed. -/
  | bothHalves
  | refused (why : Refusal)
  /-- What is stored does not open. -/
  | unopened
  | badSeed (why : Totp.Error)
  | unanswered
  deriving DecidableEq, Repr

section Server

variable {κ : Type} (sha256 : List UInt8 → Vector UInt8 32)

/-- `EditProxyRequest`. -/
structure EditProxyRequest (κ : Type) where
  name : Text
  kind : Kind
  host : Text
  port : ℕ
  /-- The credentials, if they are to be replaced. -/
  secret : Option (Sealed κ Credentials)

/-- The host that `edit_proxy` writes: the mask of the stored one means that it stays. -/
def chosenHost (stored asked : Text) : Text :=
  if trimText asked = maskHost sha256 stored then stored else trimText asked

theorem chosenHost_trimmed {stored asked : Text} (h : trimText stored = stored) :
    trimText (chosenHost sha256 stored asked) = chosenHost sha256 stored asked := by
  rw [chosenHost]
  split
  · exact h
  · exact trimText_trimText asked

/-- What `edit_proxy` makes of a row's columns in the clear, if it accepts the request. -/
def Details.edited (d : Details) (req : EditProxyRequest κ) : Option Details :=
  if h : (1 ≤ req.port ∧ req.port ≤ 65535) ∧ trimText req.host ≠ [] then
    some ⟨trimText req.name, req.kind, chosenHost sha256 d.host req.host, req.port,
      trimText_trimText req.name, chosenHost_trimmed sha256 d.host_trimmed, h.1⟩
  else none

/-- A row as `edit_proxy` writes it: without new credentials the old ones stay. -/
def ProxyRow.saved (d : Details) (secret : Option (Sealed κ Credentials)) (r : ProxyRow κ) :
    ProxyRow κ :=
  { r with details := d, secret := secret.or r.secret }

/-- `edit_proxy`. -/
def editProxy (c : Caller) (id : ℕ) (req : EditProxyRequest κ) (rows : List (ProxyRow κ)) :
    Except Refusal (List (ProxyRow κ)) :=
  match lookup ProxyRow.id rows id with
  | none => .error .notFound
  | some r =>
    match c.change id with
    | .notTheirs => .error .notTheirs
    | .noLongerPermitted => .error .denied
    | .allowed =>
      match r.details.edited sha256 req with
      | none => .error .badRequest
      | some d => .ok (updateWhere (fun r => r.id = id) (ProxyRow.saved d req.secret) rows)

/-- `create_proxy`. -/
def createProxy (c : Caller) (id : ℕ) (req : EditProxyRequest κ) (rows : List (ProxyRow κ)) :
    Except Refusal (List (ProxyRow κ)) :=
  if !c.add then .error .denied
  else if h : 1 ≤ req.port ∧ req.port ≤ 65535 then
    if trimText req.host = [] ∨ req.secret.isNone then .error .badRequest
    else
      .ok (⟨id, ⟨trimText req.name, req.kind, trimText req.host, req.port,
        trimText_trimText req.name, trimText_trimText req.host, h⟩, req.secret⟩ :: rows)
  else .error .badRequest

/-- `reveal_proxy`. -/
def revealProxy (c : Caller) (id : ℕ) (rows : List (ProxyRow κ)) :
    Except Refusal (Sealed κ Credentials) :=
  if !c.reveal then .error .denied
  else
    match lookup ProxyRow.id rows id with
    | none => .error .notFound
    | some r =>
      match r.secret with
      | none => .error .badRequest
      | some s => .ok s

/-- Host and port, as `list_proxies` gives them. -/
def display (c : Caller) (d : Details) : Text :=
  HostMask.address (if c.reveal then d.host else maskHost sha256 d.host) d.port

end Server

section Shell

variable {κ : Type} [DecidableEq κ] (sha256 : List UInt8 → Vector UInt8 32)

/-- A proxy in the shell's list: never with its login and its password. -/
structure ShownProxy where
  id : ℕ
  name : Text
  kind : Kind
  host : Text
  port : ℕ

/-- `proxies`, of one row. -/
def showProxy (c : Caller) (r : ProxyRow κ) : ShownProxy :=
  let display := display sha256 c r.details
  let (host, port) := match HostMask.rsplitOnce ':' display with
    | some (host, port) => (host, (parseUnsigned 65535 port).getD 0)
    | none => (display, 0)
  ⟨r.id, r.details.name, r.details.kind, host, port⟩

/-- What the form sends. -/
structure ProxyForm where
  /-- Which, unless it is new. -/
  id : Option ℕ
  name : Text
  kind : Kind
  host : Text
  port : ℕ
  username : Option Text
  /-- The password, or the configuration. -/
  password : Option Text

/-- A field that was filled in. -/
def filled (field : Option Text) : Option Text := field.filter (· ≠ [])

/-- How the two requests of a save go. -/
structure Calls where
  /-- The one for what is stored. -/
  fetch : Delivery
  send : Delivery

/-- The credentials of a form. -/
def ProxyForm.credentials (f : ProxyForm) : Credentials := ⟨filled f.username, filled f.password⟩

/-- Just one of the two was typed. -/
def Credentials.oneHalf (given : Credentials) : Bool :=
  given.username.isSome != given.password.isSome

/-- The half that was left blank has to come from what is stored. -/
def ProxyForm.needsStored (f : ProxyForm) : Bool :=
  f.credentials.oneHalf && f.kind ≠ .wireguard

/-- `stored_proxy_credentials`. -/
def storedProxyCredentials (k : κ) (c : Caller) (calls : Calls) (id : ℕ)
    (rows : List (ProxyRow κ)) : Except Failure Credentials :=
  if calls.fetch = .done then
    match revealProxy c id rows with
    | .error why => .error (.refused why)
    | .ok s =>
      match s.openWith k with
      | none => .error .unopened
      | some stored => .ok stored
  else .error .unanswered

/-- The half that was left blank, from what is stored. -/
def completed (k : κ) (c : Caller) (calls : Calls) (f : ProxyForm) (rows : List (ProxyRow κ)) :
    Except Failure Credentials :=
  let given := f.credentials
  match f.id with
  | none => .ok given
  | some id =>
    if f.needsStored then
      match storedProxyCredentials k c calls id rows with
      | .error (.refused .denied) => .error .bothHalves
      | .error e => .error e
      | .ok stored =>
        .ok ⟨given.username.or stored.username, given.password.or stored.password⟩
    else .ok given

/-- The request that writes. -/
def ProxyForm.request (f : ProxyForm) (k : κ) (credentials : Credentials) : EditProxyRequest κ :=
  let touching := f.id.isNone || f.credentials.username.isSome || f.credentials.password.isSome
  ⟨f.name, f.kind, f.host, f.port, if touching then some ⟨k, credentials⟩ else none⟩

/-- What the server made of a request, and whether the shell hears of it. -/
def written {ρ : Type} (d : Delivery) (reply : Except Refusal (List ρ)) (rows : List ρ) :
    Except Failure Unit × List ρ :=
  match d, reply with
  | .failed, _ => (.error .unanswered, rows)
  | .done, .error why => (.error (.refused why), rows)
  | .lost, .error _ => (.error .unanswered, rows)
  | .done, .ok rows => (.ok (), rows)
  | .lost, .ok rows => (.error .unanswered, rows)

/-- `save_proxy` for the team. -/
def saveProxy (key : Option κ) (c : Caller) (calls : Calls) (new : ℕ) (f : ProxyForm)
    (rows : List (ProxyRow κ)) : Except Failure Unit × List (ProxyRow κ) :=
  match key with
  | none => (.error .noKey, rows)
  | some k =>
    match completed k c calls f rows with
    | .error e => (.error e, rows)
    | .ok credentials =>
      let req := f.request k credentials
      written calls.send
        (match f.id with
          | none => createProxy c new req rows
          | some id => editProxy sha256 c id req rows) rows

end Shell

section Purpose

variable {κ : Type} [DecidableEq κ] (sha256 : List UInt8 → Vector UInt8 32)

/-- What a person types into the form of a proxy. -/
structure ProxyEdits where
  name : Option Text
  kind : Option Kind
  host : Option Text
  port : Option ℕ
  username : Option Text
  /-- A password, or a configuration. -/
  password : Option Text

/-- The form sent back, with what was typed into it. -/
def ShownProxy.form (p : ShownProxy) (e : ProxyEdits) : ProxyForm :=
  ⟨some p.id, e.name.getD p.name, e.kind.getD p.kind, e.host.getD p.host, e.port.getD p.port,
    e.username, e.password⟩

/-- What an edit changes nothing of: the fields that were not typed. A login and a password of one
kind of proxy are not the configuration of the other. -/
structure ProxyKept (r r' : ProxyRow κ) (e : ProxyEdits) : Prop where
  name : e.name = none → r'.details.name = r.details.name
  kind : e.kind = none → r'.details.kind = r.details.kind
  host : e.host = none → r'.details.host = r.details.host
  port : e.port = none → r'.details.port = r.details.port
  /-- The login, of a proxy that has one. -/
  username : filled e.username = none → r'.details.kind.isTunnel = false →
    r'.credentials.username =
      if r.details.kind.isTunnel then none else r.credentials.username
  /-- The password, or the configuration. -/
  password : filled e.password = none →
    r'.credentials.password =
      if r'.details.kind.isTunnel = r.details.kind.isTunnel then r.credentials.password else none

/-- The save seals a login and a password of which one is the stored one. -/
def ProxyEdits.resealsStored (e : ProxyEdits) (r : ProxyRow κ) : Prop :=
  (filled e.username).isSome ≠ (filled e.password).isSome ∧
    (e.kind.getD r.details.kind).isTunnel = false

instance (e : ProxyEdits) (r : ProxyRow κ) : Decidable (e.resealsStored r) :=
  inferInstanceAs (Decidable (_ ∧ _))

/-- What saving an edited proxy is to do. -/
structure ProxySaved (key : Option κ) (r : ProxyRow κ) (e : ProxyEdits)
    (rows : List (ProxyRow κ)) (after : Except Failure Unit × List (ProxyRow κ)) : Prop where
  /-- Only what was typed is changed. -/
  kept : ∀ r', lookup ProxyRow.id after.2 r.id = some r' → ProxyKept r r' e
  /-- Nothing is written where something stored had to be read and does not open. -/
  unread : ∀ s ∈ r.secret, (∀ k ∈ key, s.openWith k = none) → e.resealsStored r →
    (∃ why, after.1 = .error why) ∧ after.2 = rows

/-- What is stored can be had. -/
def Available (k : κ) (c : Caller) (calls : Calls) (r : ProxyRow κ) : Prop :=
  calls.fetch = .done ∧ c.reveal = true ∧ ∃ s ∈ r.secret, s.key = k

/-- The save gets as far as writing. -/
def ProxyWrites (key : Option κ) (c : Caller) (calls : Calls) (r : ProxyRow κ) (e : ProxyEdits) :
    Prop :=
  ∃ k ∈ key, calls.send ≠ .failed ∧ c.change r.id = .allowed ∧
    (1 ≤ e.port.getD r.details.port ∧ e.port.getD r.details.port ≤ 65535) ∧
    trimText (e.host.getD (showProxy sha256 c r).host) ≠ [] ∧
    (e.resealsStored r → Available k c calls r)

/-- Where a proxy becomes a tunnel or a tunnel another proxy, nothing is stored of a half that is
left blank; and no login is typed for a tunnel whose configuration stays. -/
structure ProxyHarmless (r : ProxyRow κ) (e : ProxyEdits) : Prop where
  /-- The login of a tunnel would become that of a proxy. -/
  username : filled e.username = none → (e.kind.getD r.details.kind).isTunnel = false →
    r.details.kind.isTunnel = true → r.credentials.username = none
  /-- A password would become a configuration, or a configuration a password. -/
  mixed : filled e.password = none →
    (e.kind.getD r.details.kind).isTunnel ≠ r.details.kind.isTunnel →
    ((e.kind.getD r.details.kind).isTunnel = true → filled e.username = none) →
    r.credentials.password = none
  /-- A configuration would be replaced by nothing. -/
  erased : filled e.password = none → filled e.username ≠ none →
    (e.kind.getD r.details.kind).isTunnel = true → r.details.kind.isTunnel = true →
    r.credentials.password = none

end Purpose

end FuryBrowser.TeamSecrets
