import FuryBrowser.ProxySaves

/-!
# Editing a saved login

A login's name, password, seed and notes are sealed together, and the list shows them to a machine
that holds the organisation key. What does not open is shown as one that has nothing, and the form
sends back what it was shown: here a blank field clears.
-/

namespace FuryBrowser.TeamSecrets

open AgentDisk TextBytes TextTrims RowTable Totp

/-- What is sealed of a login. -/
structure Payload where
  username : Option Text
  password : Option Text
  totp : Option Text
  notes : Text
  deriving DecidableEq, Repr

/-- A row of `credentials`. -/
structure LoginRow (κ : Type) where
  id : ℕ
  profile : ℕ
  label : Text
  site : Text
  /-- `payload_enc` and `wrapped_dek`. -/
  secret : Sealed κ Payload

/-- What the caller may do in the profile. -/
structure Access where
  any : Bool
  reveal : Bool

section Server

variable {κ : Type}

/-- `CredentialBody`. -/
structure CredentialBody (κ : Type) where
  label : Text
  site : Text
  secret : Sealed κ Payload

/-- What the requests of a profile's logins check first. -/
def Access.check (a : Access) : Except Refusal Unit :=
  if !a.any then .error .notFound else if !a.reveal then .error .denied else .ok ()

/-- A row as `edit_credential` writes it. -/
def LoginRow.saved (req : CredentialBody κ) (r : LoginRow κ) : LoginRow κ :=
  { r with label := req.label, site := req.site, secret := req.secret }

/-- `edit_credential`. -/
def editCredential (a : Access) (profile id : ℕ) (req : CredentialBody κ)
    (rows : List (LoginRow κ)) : Except Refusal (List (LoginRow κ)) :=
  match a.check with
  | .error why => .error why
  | .ok () =>
    if rows.any fun r => r.id = id && r.profile = profile then
      .ok (updateWhere (fun r => r.id = id && r.profile = profile) (LoginRow.saved req) rows)
    else .error .notFound

/-- `create_credential`. -/
def createCredential (a : Access) (profile id : ℕ) (req : CredentialBody κ)
    (rows : List (LoginRow κ)) : Except Refusal (List (LoginRow κ)) :=
  match a.check with
  | .error why => .error why
  | .ok () => .ok (⟨id, profile, req.label, req.site, req.secret⟩ :: rows)

end Server

section Shell

variable {κ : Type} [DecidableEq κ]

/-- A login in the shell's list, and what its form sends. -/
structure ShownLogin where
  /-- Which, unless it is new. -/
  id : Option ℕ
  profile : ℕ
  label : Text
  site : Text
  /-- What is sealed, as far as it is shown. -/
  payload : Payload
  /-- It could not be opened. -/
  unreadable : Bool

/-- `credentials`, of one row. -/
def showLogin (k : κ) (r : LoginRow κ) : ShownLogin :=
  match r.secret.openWith k with
  | some payload => ⟨some r.id, r.profile, r.label, r.site, payload, false⟩
  | none => ⟨some r.id, r.profile, r.label, r.site, ⟨none, none, none, []⟩, true⟩

/-- The seed that is sealed: as a link, whatever was pasted. -/
def normalSeed (field : Option Text) : Except Totp.Error (Option Text) :=
  match (field.map trimText).filter (· ≠ []) with
  | none => .ok none
  | some raw => (parse raw).map fun totp => some totp.toUri

/-- The request that writes. -/
def ShownLogin.request (f : ShownLogin) (k : κ) (seed : Option Text) : CredentialBody κ :=
  ⟨f.label, f.site, k, filled f.payload.username, filled f.payload.password, seed,
    f.payload.notes⟩

/-- `save_credential` for the team. -/
def saveCredential (key : Option κ) (a : Access) (send : Delivery) (new : ℕ) (f : ShownLogin)
    (rows : List (LoginRow κ)) : Except Failure Unit × List (LoginRow κ) :=
  match key with
  | none => (.error .noKey, rows)
  | some k =>
    match normalSeed f.payload.totp with
    | .error why => (.error (.badSeed why), rows)
    | .ok seed =>
      let req := f.request k seed
      written send
        (match f.id with
          | none => createCredential a f.profile new req rows
          | some id => editCredential a f.profile id req rows) rows

end Shell

section Purpose

variable {κ : Type} [DecidableEq κ]

/-- What a person types into the form of a login; a field that shows something can be cleared. -/
structure LoginEdits where
  label : Option Text
  site : Option Text
  /-- A name, or that it is cleared. -/
  username : Option (Option Text)
  /-- A password, or that it is cleared. -/
  password : Option (Option Text)
  /-- A seed, or that it is cleared. -/
  totp : Option (Option Text)
  notes : Option Text

/-- The form sent back, with what was typed into it. -/
def ShownLogin.form (f : ShownLogin) (e : LoginEdits) : ShownLogin :=
  { f with
    label := e.label.getD f.label
    site := e.site.getD f.site
    payload := ⟨e.username.getD f.payload.username, e.password.getD f.payload.password,
      e.totp.getD f.payload.totp, e.notes.getD f.payload.notes⟩ }

/-- What an edit changes nothing of: the fields that were not typed. -/
structure LoginKept (r r' : LoginRow κ) (e : LoginEdits) : Prop where
  label : e.label = none → r'.label = r.label
  site : e.site = none → r'.site = r.site
  username : e.username = none → r'.secret.content.username = r.secret.content.username
  password : e.password = none → r'.secret.content.password = r.secret.content.password
  totp : e.totp = none → r'.secret.content.totp = r.secret.content.totp
  notes : e.notes = none → r'.secret.content.notes = r.secret.content.notes

/-- All that is sealed was typed anew. -/
def LoginEdits.whole (e : LoginEdits) : Prop :=
  e.username ≠ none ∧ e.password ≠ none ∧ e.totp ≠ none ∧ e.notes ≠ none

/-- What saving an edited login is to do. -/
structure LoginSaved (k : κ) (r : LoginRow κ) (e : LoginEdits) (rows : List (LoginRow κ))
    (after : Except Failure Unit × List (LoginRow κ)) : Prop where
  /-- Only what was typed is changed. -/
  kept : ∀ r', lookup LoginRow.id after.2 r.id = some r' → LoginKept r r' e
  /-- Nothing is written where what is stored does not open and some of it is to stay. -/
  unread : r.secret.openWith k = none → ¬ e.whole →
    (∃ why, after.1 = .error why) ∧ after.2 = rows

/-- The save gets as far as writing. -/
def LoginWrites (k : κ) (a : Access) (send : Delivery) (r : LoginRow κ) (e : LoginEdits) : Prop :=
  send ≠ .failed ∧ a.any = true ∧ a.reveal = true ∧
    ∃ seed, normalSeed (e.totp.getD (showLogin k r).payload.totp) = .ok seed

/-- What is stored opens, unless all of it was typed anew; and what stays is stored as this shell
stores it: no name and no password that is empty, and the seed as the link it is written as. -/
structure LoginHarmless (k : κ) (r : LoginRow κ) (e : LoginEdits) : Prop where
  opens : r.secret.key = k ∨ e.whole
  username : e.username = none → r.secret.content.username ≠ some []
  password : e.password = none → r.secret.content.password ≠ some []
  totp : e.totp = none → normalSeed r.secret.content.totp = .ok r.secret.content.totp

end Purpose

section Saving

variable {κ : Type} [DecidableEq κ] {k : κ} {a : Access} {send : Delivery} {new : ℕ}
  {r : LoginRow κ} {e : LoginEdits} {rows : List (LoginRow κ)} {seed : Option Text}

theorem showLogin_opens (h : r.secret.key = k) :
    showLogin k r = ⟨some r.id, r.profile, r.label, r.site, r.secret.content, false⟩ := by
  rw [showLogin, Sealed.openWith, if_pos h]

theorem showLogin_shut (h : r.secret.key ≠ k) :
    showLogin k r = ⟨some r.id, r.profile, r.label, r.site, ⟨none, none, none, []⟩, true⟩ := by
  rw [showLogin, Sealed.openWith, if_neg h]

/-- Whether it opens or not, a row is shown with what is in the clear. -/
theorem showLogin_clear : (showLogin k r).id = some r.id ∧ (showLogin k r).profile = r.profile ∧
    (showLogin k r).label = r.label ∧ (showLogin k r).site = r.site := by
  by_cases h : r.secret.key = k
  · rw [showLogin_opens h]
    exact ⟨rfl, rfl, rfl, rfl⟩
  · rw [showLogin_shut h]
    exact ⟨rfl, rfl, rfl, rfl⟩

theorem filled_eq (field : Option Text) : filled field = field ↔ field ≠ some [] := by
  cases field with
  | none => simp [filled]
  | some text =>
    cases text with
    | nil => simp [filled]
    | cons c rest => simp [filled]

theorem check_ok : a.check = .ok () ↔ a.any = true ∧ a.reveal = true := by
  rw [Access.check]
  cases a.any <;> cases a.reveal <;> simp

omit [DecidableEq κ] in
theorem editCredential_ok (req : CredentialBody κ) {after : List (LoginRow κ)}
    (hr : lookup LoginRow.id rows r.id = some r) :
    editCredential a r.profile r.id req rows = .ok after ↔ (a.any = true ∧ a.reveal = true) ∧
      after = updateWhere (fun x => x.id = r.id && x.profile = r.profile) (LoginRow.saved req)
        rows := by
  have hthere : rows.any (fun x => x.id = r.id && x.profile = r.profile) = true :=
    List.any_eq_true.mpr ⟨r, (lookup_some hr).1, by simp⟩
  rw [editCredential, ← check_ok]
  cases hcheck : a.check with
  | error why => simp
  | ok u =>
    dsimp only
    rw [if_pos hthere]
    simp [eq_comm]

/-- What a save comes to, when its seed is one. -/
theorem saveCredential_eq
    (hseed : normalSeed (e.totp.getD (showLogin k r).payload.totp) = .ok seed) :
    saveCredential (some k) a send new ((showLogin k r).form e) rows =
      written send (editCredential a r.profile r.id
        (((showLogin k r).form e).request k seed) rows) rows := by
  have hid : ((showLogin k r).form e).id = some r.id := showLogin_clear.1
  have hprofile : ((showLogin k r).form e).profile = r.profile := showLogin_clear.2.1
  have hseed' : normalSeed ((showLogin k r).form e).payload.totp = .ok seed := hseed
  unfold saveCredential
  dsimp only
  rw [hseed']
  dsimp only
  rw [hid, hprofile]

/-- A save that does not get as far as writing fails and changes nothing. -/
theorem saveCredential_unwritten (new : ℕ) (hr : lookup LoginRow.id rows r.id = some r)
    (h : ¬ LoginWrites k a send r e) :
    (∃ why, (saveCredential (some k) a send new ((showLogin k r).form e) rows).1 = .error why) ∧
    (saveCredential (some k) a send new ((showLogin k r).form e) rows).2 = rows := by
  cases hseed : normalSeed (e.totp.getD (showLogin k r).payload.totp) with
  | error why =>
    have hseed' : normalSeed ((showLogin k r).form e).payload.totp = .error why := hseed
    unfold saveCredential
    dsimp only
    rw [hseed']
    exact ⟨⟨_, rfl⟩, rfl⟩
  | ok seed =>
    rw [saveCredential_eq hseed]
    cases hedit : editCredential a r.profile r.id (((showLogin k r).form e).request k seed)
        rows with
    | error why => cases send <;> exact ⟨⟨_, rfl⟩, rfl⟩
    | ok after =>
      obtain ⟨⟨hany, hreveal⟩, -⟩ := (editCredential_ok _ hr).mp hedit
      cases hsend : send with
      | failed => exact ⟨⟨_, rfl⟩, rfl⟩
      | _ => exact absurd ⟨by simp [hsend], hany, hreveal, seed, hseed⟩ h

/-- A save that gets as far as writing leaves the row with what the form sends. -/
theorem saveCredential_written (new : ℕ) (hr : lookup LoginRow.id rows r.id = some r)
    (h : LoginWrites k a send r e) :
    ∃ seed, normalSeed (e.totp.getD (showLogin k r).payload.totp) = .ok seed ∧
      lookup LoginRow.id
          (saveCredential (some k) a send new ((showLogin k r).form e) rows).2 r.id =
        some (LoginRow.saved (((showLogin k r).form e).request k seed) r) := by
  obtain ⟨hsend, hany, hreveal, seed, hseed⟩ := h
  refine ⟨seed, hseed, ?_⟩
  have hedit := (editCredential_ok (((showLogin k r).form e).request k seed) hr).mpr
    ⟨⟨hany, hreveal⟩, rfl⟩
  rw [saveCredential_eq hseed, hedit]
  have hfound : lookup LoginRow.id (updateWhere (fun x => x.id = r.id && x.profile = r.profile)
      (LoginRow.saved (((showLogin k r).form e).request k seed)) rows) r.id =
        some (LoginRow.saved (((showLogin k r).form e).request k seed) r) := by
    rw [lookup_updateWhere (f := LoginRow.saved (((showLogin k r).form e).request k seed))
      (fun _ _ => rfl), hr]
    simp
  cases send with
  | failed => exact absurd rfl hsend
  | _ => exact hfound

/-- What is left of a row that opens is what was stored where nothing was typed, just where the
shell would store it so. -/
theorem kept_iff_opens (hkey : r.secret.key = k)
    (hseed : normalSeed (e.totp.getD (showLogin k r).payload.totp) = .ok seed) :
    LoginKept r (LoginRow.saved (((showLogin k r).form e).request k seed) r) e ↔
      LoginHarmless k r e := by
  rw [showLogin_opens hkey] at hseed ⊢
  constructor
  · intro hk
    refine ⟨.inl hkey, ?_, ?_, ?_⟩
    · intro hu
      have heq : filled (e.username.getD r.secret.content.username) = _ := hk.username hu
      rw [hu] at heq
      exact (filled_eq _).mp heq
    · intro hp
      have heq : filled (e.password.getD r.secret.content.password) = _ := hk.password hp
      rw [hp] at heq
      exact (filled_eq _).mp heq
    · intro ht
      have heq : seed = _ := hk.totp ht
      rw [ht, heq] at hseed
      exact hseed
  · intro hh
    refine ⟨?_, ?_, ?_, ?_, ?_, ?_⟩
    · intro hl
      change e.label.getD r.label = r.label
      rw [hl, Option.getD_none]
    · intro hs
      change e.site.getD r.site = r.site
      rw [hs, Option.getD_none]
    · intro hu
      change filled (e.username.getD r.secret.content.username) = _
      rw [hu]
      exact (filled_eq _).mpr (hh.username hu)
    · intro hp
      change filled (e.password.getD r.secret.content.password) = _
      rw [hp]
      exact (filled_eq _).mpr (hh.password hp)
    · intro ht
      rw [ht, Option.getD_none, hh.totp ht] at hseed
      exact (Except.ok.inj hseed).symm
    · intro hn
      change e.notes.getD r.secret.content.notes = _
      rw [hn, Option.getD_none]

/-- A row whose content was all typed anew has nothing to keep but what is in the clear. -/
theorem kept_of_whole (h : e.whole) :
    LoginKept r (LoginRow.saved (((showLogin k r).form e).request k seed) r) e := by
  obtain ⟨hu, hp, ht, hn⟩ := h
  obtain ⟨-, -, hlabel, hsite⟩ := showLogin_clear (k := k) (r := r)
  refine ⟨?_, ?_, fun h => absurd h hu, fun h => absurd h hp, fun h => absurd h ht,
    fun h => absurd h hn⟩
  · intro hl
    change e.label.getD (showLogin k r).label = r.label
    rw [hl, Option.getD_none, hlabel]
  · intro hs
    change e.site.getD (showLogin k r).site = r.site
    rw [hs, Option.getD_none, hsite]

omit [DecidableEq κ] in
theorem LoginKept.refl : LoginKept r r e :=
  ⟨fun _ => rfl, fun _ => rfl, fun _ => rfl, fun _ => rfl, fun _ => rfl, fun _ => rfl⟩

omit [DecidableEq κ] in
/-- A row whose content was all typed anew is harmless to save. -/
theorem harmless_of_whole (h : e.whole) : LoginHarmless k r e :=
  ⟨.inr h, fun hu => absurd hu h.1, fun hp => absurd hp h.2.1, fun ht => absurd ht h.2.2.1⟩

/-- A save that fails without writing does what it is to do. -/
theorem loginSaved_unwritten {why : Failure} {after : Except Failure Unit × List (LoginRow κ)}
    (hr : lookup LoginRow.id rows r.id = some r) (herror : after.1 = .error why)
    (hsame : after.2 = rows) : LoginSaved k r e rows after := by
  constructor
  · intro r' hfound
    rw [hsame] at hfound
    obtain rfl := Option.some.inj (hr.symm.trans hfound)
    exact LoginKept.refl
  · exact fun _ _ => ⟨⟨why, herror⟩, hsame⟩

/-- An edited login is saved as it was typed exactly where nothing is written or it is harmless. -/
theorem loginSaved_iff (hr : lookup LoginRow.id rows r.id = some r) :
    LoginSaved k r e rows
        (saveCredential (some k) a send new ((showLogin k r).form e) rows) ↔
      (LoginWrites k a send r e → LoginHarmless k r e) := by
  by_cases hwrites : LoginWrites k a send r e
  · obtain ⟨seed, hseed, hfound⟩ := saveCredential_written new hr hwrites
    rw [forall_prop_of_true hwrites]
    by_cases hwhole : e.whole
    · refine iff_of_true ?_ (harmless_of_whole hwhole)
      constructor
      · intro r' hfound'
        obtain rfl := Option.some.inj (hfound.symm.trans hfound')
        exact kept_of_whole hwhole
      · exact fun _ hnot => absurd hwhole hnot
    by_cases hkey : r.secret.key = k
    · rw [← kept_iff_opens hkey hseed]
      constructor
      · intro h
        exact h.kept _ hfound
      · intro h
        constructor
        · intro r' hfound'
          obtain rfl := Option.some.inj (hfound.symm.trans hfound')
          exact h
        · intro hshut
          rw [Sealed.openWith, if_pos hkey] at hshut
          cases hshut
    · refine iff_of_false ?_ fun h => h.opens.elim hkey hwhole
      intro h
      -- What does not open had to be left alone, and was written.
      obtain ⟨-, hsame⟩ := h.unread (by rw [Sealed.openWith, if_neg hkey]) hwhole
      rw [hsame, hr] at hfound
      have hsealed : r.secret.key = k := congrArg (fun x => x.secret.key) (Option.some.inj hfound)
      exact hkey hsealed
  · obtain ⟨⟨why, herror⟩, hsame⟩ := saveCredential_unwritten new hr hwrites
    exact iff_of_true (loginSaved_unwritten hr herror hsame) fun h => absurd h hwrites

/-- Of a team's proxies and logins only what was typed is changed, nothing is written that does not
open and would have to be sealed anew, and no configuration becomes a password, exactly where
nothing is written or the edit is harmless. -/
theorem team_edits_iff (κ : Type) [DecidableEq κ] (sha256 : List UInt8 → Vector UInt8 32) :
    (∀ (key : Option κ) (c : Caller) (calls : Calls) (new : ℕ) (r : ProxyRow κ) (e : ProxyEdits)
      (rows : List (ProxyRow κ)), lookup ProxyRow.id rows r.id = some r →
      (ProxySaved key r e rows
          (saveProxy sha256 key c calls new ((showProxy sha256 c r).form e) rows) ↔
        (ProxyWrites sha256 key c calls r e → ProxyHarmless r e))) ∧
    ∀ (k : κ) (a : Access) (send : Delivery) (new : ℕ) (r : LoginRow κ) (e : LoginEdits)
      (rows : List (LoginRow κ)), lookup LoginRow.id rows r.id = some r →
      (LoginSaved k r e rows (saveCredential (some k) a send new ((showLogin k r).form e) rows) ↔
        (LoginWrites k a send r e → LoginHarmless k r e)) :=
  ⟨fun _ _ _ _ _ _ _ hr => proxySaved_iff hr, fun _ _ _ _ _ _ _ hr => loginSaved_iff hr⟩

end Saving

section Cases

/-- A digest of zeros. -/
def zeros : List UInt8 → Vector UInt8 32 := fun _ => Vector.replicate 32 0

/-- A tunnel, sealed under the key 0. -/
def tunnel : ProxyRow ℕ :=
  ⟨1, ⟨['x'], .wireguard, ['h'], 80, rfl, rfl, by decide⟩, some ⟨0, none, some ['c']⟩⟩

/-- A login, sealed under a key. -/
def login (key : ℕ) : LoginRow ℕ :=
  ⟨1, 2, ['l'], [], key, some ['u'], some ['p'], none, []⟩

/-- Whoever may do anything. -/
def owner : Caller := ⟨fun _ => .allowed, true, true⟩

/-- A tunnel that becomes a SOCKS5 proxy with a login. -/
def asSocks : ProxyEdits := ⟨none, some .socks5, none, none, some ['u'], none⟩

/-- A new label. -/
def renamed : LoginEdits := ⟨some ['m'], none, none, none, none, none⟩

/-- Both halves of the equivalence have something to say. -/
theorem team_edits_iff_saved :
    ProxySaved (some 0) tunnel ⟨none, none, none, none, none, none⟩ [tunnel]
      (saveProxy zeros (some 0) owner ⟨.done, .done⟩ 9
        ((showProxy zeros owner tunnel).form ⟨none, none, none, none, none, none⟩) [tunnel]) ∧
    LoginSaved 0 (login 0) renamed [login 0]
      (saveCredential (some 0) ⟨true, true⟩ .done 9 ((showLogin 0 (login 0)).form renamed)
        [login 0]) := by
  constructor
  · refine ((team_edits_iff ℕ zeros).1 (some 0) owner ⟨.done, .done⟩ 9 tunnel _ [tunnel] rfl).mpr ?_
    intro _
    exact ⟨fun _ ht => absurd ht (by decide), fun _ hne => absurd rfl hne,
      fun _ hu => absurd rfl hu⟩
  · refine ((team_edits_iff ℕ zeros).2 0 ⟨true, true⟩ .done 9 (login 0) renamed [login 0]
      rfl).mpr ?_
    intro _
    exact ⟨.inl rfl, fun _ => by simp [login], fun _ => by simp [login], fun _ => rfl⟩

/-- A login that this machine cannot open loses all it has with a new label, and the configuration
of a tunnel becomes the password of another proxy. -/
theorem rename_erases :
    ¬ LoginSaved 0 (login 1) renamed [login 1]
      (saveCredential (some 0) ⟨true, true⟩ .done 9 ((showLogin 0 (login 1)).form renamed)
        [login 1]) ∧
    ¬ ProxySaved (some 0) tunnel asSocks [tunnel]
      (saveProxy zeros (some 0) owner ⟨.done, .done⟩ 9 ((showProxy zeros owner tunnel).form asSocks)
        [tunnel]) := by
  constructor
  · intro h
    have hlost : none = some ['p'] := (h.kept _ rfl).password rfl
    cases hlost
  · intro h
    have hmixed : some ['c'] = none := (h.kept _ rfl).password rfl
    cases hmixed

end Cases

end FuryBrowser.TeamSecrets
