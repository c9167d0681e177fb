import FuryBrowser.GuardedRuns
import FuryBrowser.ShellKeys

/-!
# An organisation key that only goes forward

The key in memory and the number of the generation belong to no organisation in particular. A
key of the organisation that was used before comes back when the shell is pointed at another
server, from memory, and after a sign-in that brought none, from the keychain; a generation
that one organisation has reached makes the sign-in to another one stale; and a settings file
that is lost takes the number along. A step keeps to the highest accepted key exactly when none
of this happens in it.
-/

namespace FuryBrowser.KeyForward

open GuardedRuns Watermarks ShellKeys

universe u v w

variable {σ : Type u} {ο : Type v} {κ : Type w}

/-- A key, if there is one, is the highest that was accepted for the organisation, if there is
one. -/
def Fits (accepted : History ο κ) (org : Option ο) (key : Option κ) : Prop :=
  ∀ o ∈ org, ∀ k ∈ key, Top accepted o k

/-- The key in use is the highest that was accepted for the organisation it is used for, and
sign-ins were refused only below what had been accepted for the same organisation. -/
structure Forward (st : Shell σ ο κ) : Prop where
  key : Fits st.accepted st.session st.orgKey
  refusals : ∀ r ∈ st.refused, Above r.accepted r.org (rank r.generation)

/-- What would be remembered for a server. -/
def entryOf (settings : Settings σ) (st : Shell σ ο κ) (s : σ) : Option κ :=
  if settings.rememberOrgKey then st.keychain s else none

/-- A sign-in that is refused is one to an organisation that was accepted at a higher
generation, and what is in hand is its key; else a key that it brings is not below one that was
accepted, and one that it leaves in the keychain is the one of the generation that it brings. -/
def LoginGuard (st : Shell σ ο κ) (ok : LoginOk ο κ) : Prop :=
  if st.stale ok then
    Above st.accepted ok.org (rank ok.generation) ∧ Fits st.accepted (some ok.org) st.orgKey
  else match ok.wrappedOrk with
    | .absent => ∀ k ∈ st.remembered,
        Top st.accepted ok.org k ∧ AtLeast st.accepted ok.org (rank ok.generation)
    | .unopenable => Fits st.accepted (some ok.org) st.remembered
    | .opens k => ¬ Above st.accepted ok.org (rank ok.generation) ∨ Top st.accepted ok.org k

/-- What a step finds left of a key is the highest of the organisation that it finds it for,
and what it accepts is not below what was accepted. -/
def Guard (st : Shell σ ο κ) : Label σ ο κ → Prop
  | .signIn ok => LoginGuard st ok
  | .restart => ∀ s ∈ (Settings.load st.file).serverUrl,
      Fits st.accepted (st.tokens s) (entryOf (Settings.load st.file) st s)
  | .setServer s => Fits st.accepted (st.tokens s) (st.memory <|> entryOf st.settings st s)
  | .rotate new generation => ∀ org ∈ st.session,
      ¬ Above st.accepted org (rank generation) ∨ Top st.accepted org new
  | .setRememberOrgKey remember => remember = true → st.memory = none →
      Fits st.accepted st.session st.loadOrgKey
  | .enrol s org key => match key with
    | some k => ¬ Above st.accepted org ⊥ ∨ Top st.accepted org k
    | none => Fits st.accepted (some org) (entryOf st.settings st s)
  | _ => True

instance [DecidableEq ο] [DecidableEq κ] {accepted : History ο κ} {org : Option ο}
    {key : Option κ} : Decidable (Fits accepted org key) :=
  inferInstanceAs (Decidable (∀ o ∈ org, ∀ k ∈ key, Top accepted o k))

instance [DecidableEq ο] [DecidableEq κ] (st : Shell σ ο κ) (ok : LoginOk ο κ) :
    Decidable (LoginGuard st ok) := by
  rcases ok with ⟨org, generation, _ | _ | k⟩ <;> dsimp only [LoginGuard] <;> infer_instance

instance [DecidableEq ο] [DecidableEq κ] :
    ∀ (st : Shell σ ο κ) (l : Label σ ο κ), Decidable (Guard st l) := fun st l => by
  rcases l with _ | _ | _ | _ | _ | _ | _ | _ | _ | _ | _ | ⟨s, org, _ | k⟩ <;>
    dsimp only [Guard] <;> infer_instance

/-- The server that requests go to is the one that the session is bound to. -/
def Bound (st : Shell σ ο κ) : Prop := ∀ s ∈ st.settings.serverUrl, st.account = some s

theorem fits_some {accepted : History ο κ} {org : ο} {key : Option κ} :
    Fits accepted (some org) key ↔ ∀ k ∈ key, Top accepted org k := by
  simp [Fits]

theorem fits_none {accepted : History ο κ} {key : Option κ} : Fits accepted none key := by
  simp [Fits]

section Commands

variable {st st' : Shell σ ο κ}

/-- Where nothing is refused, the key alone decides. -/
theorem forward_iff (st' : Shell σ ο κ) (h : Forward st) (hrefused : st'.refused = st.refused) :
    Forward st' ↔ Fits st'.accepted st'.session st'.orgKey :=
  ⟨Forward.key, fun hkey => ⟨hkey, hrefused ▸ h.refusals⟩⟩

/-- What is accepted with its key, for the organisation of the session. -/
theorem fits_accept {org : ο} {g : Option ℤ} {k : κ} (hsession : st.session = some org)
    (hkey : st.orgKey = some k) :
    Fits (st.accept org g (some k)).accepted (st.accept org g (some k)).session
        (st.accept org g (some k)).orgKey ↔
      ¬ Above st.accepted org (rank g) ∨ Top st.accepted org k := by
  rw [Shell.accept_session, Shell.accept_orgKey, hsession, hkey, fits_some]
  refine Iff.trans ?_ (top_cons_iff (a := ⟨org, rank g, some k⟩) rfl rfl)
  simp

theorem fits_accept_none {org : ο} {g : Option ℤ} (hsession : st.session = some org) :
    Fits (st.accept org g none).accepted (st.accept org g none).session
        (st.accept org g none).orgKey ↔
      ∀ k ∈ st.orgKey, Top st.accepted org k ∧ AtLeast st.accepted org (rank g) := by
  rw [Shell.accept_session, Shell.accept_orgKey, hsession, fits_some]
  exact forall₂_congr fun k _ => top_cons_without (a := ⟨org, rank g, none⟩) rfl (by simp)

/-- The shell is pointed at a server, and then looks for its key. -/
theorem setServer_iff {s : σ} (hf : Forward st) : Forward (st.setServer s) ↔
    Fits st.accepted (st.tokens s) (st.memory <|> entryOf st.settings st s) := by
  refine (forward_iff (st.setServer s) hf rfl).trans ?_
  unfold Shell.setServer
  rw [Shell.fetch_orgKey]
  rfl

/-- The process starts again, with what the file has. -/
theorem restart_iff (hf : Forward st) : Forward st.restart ↔
    ∀ s ∈ (Settings.load st.file).serverUrl,
      Fits st.accepted (st.tokens s) (entryOf (Settings.load st.file) st s) := by
  refine (forward_iff st.restart hf rfl).trans ?_
  have hsession : st.restart.session = (Settings.load st.file).serverUrl.bind fun _ =>
      (Settings.load st.file).serverUrl.bind st.tokens := rfl
  have hkey : st.restart.orgKey = if (Settings.load st.file).rememberOrgKey then
      (Settings.load st.file).serverUrl.bind st.keychain else none := rfl
  rw [hsession, hkey]
  change Fits st.accepted _ _ ↔ _
  cases (Settings.load st.file).serverUrl with
  | none => simp [Fits]
  | some s => simp [entryOf]

variable [DecidableEq σ]

theorem login_iff {ok : LoginOk ο κ} (hf : Forward st) (hb : Bound st)
    (h : st.login ok = some st') : Forward st' ↔ LoginGuard st ok := by
  obtain ⟨s, hs, rfl⟩ := Option.map_eq_some_iff.mp h
  have hsession : (st.store ok.org).save.session = some ok.org := st.store_session hs (hb s hs)
  unfold Shell.finishLogin LoginGuard
  split
  · constructor
    · intro h
      refine ⟨h.refusals _ List.mem_cons_self, ?_⟩
      have hkey := h.key
      change Fits st.accepted (st.store ok.org).save.session st.orgKey at hkey
      rwa [hsession] at hkey
    · rintro ⟨habove, hkey⟩
      refine ⟨?_, fun r hr => ?_⟩
      · change Fits st.accepted (st.store ok.org).save.session st.orgKey
        rwa [hsession]
      · rcases List.mem_cons.mp hr with rfl | hin
        · exact habove
        · exact hf.refusals r hin
  · cases ok.wrappedOrk with
    | absent =>
      have hto : Forward (({ (st.store ok.org).save with memory := none } : Shell σ ο κ).accept
          ok.org ok.generation none) ↔ _ := forward_iff _ hf (Shell.accept_refused _)
      exact hto.trans (fits_accept_none hsession)
    | unopenable =>
      have hto : Forward ({ (st.store ok.org).save with memory := none } : Shell σ ο κ) ↔ _ :=
        forward_iff _ hf rfl
      refine hto.trans ?_
      change Fits st.accepted (st.store ok.org).save.session st.remembered ↔ _
      rw [hsession]
    | opens k =>
      refine (forward_iff _ hf ?_).trans ?_
      · rw [Shell.accept_refused, Shell.take_refused]
        rfl
      · refine (fits_accept ((Shell.take_session _ k).trans hsession)
          (Shell.take_orgKey _ k)).trans ?_
        rw [Shell.take_accepted]
        rfl

/-- A launch takes nothing from elsewhere, and what it accepts it accepts of the key in use. -/
theorem launch_forward {opens : κ → Bool} {g : Option ℤ} (hf : Forward st)
    (h : st.launch opens g = some st') : Forward st' := by
  obtain ⟨org, hsession, rfl⟩ := Option.map_eq_some_iff.mp h
  cases hkey : st.orgKey with
  | none => exact hf
  | some k =>
    have hfetch : Forward st.fetch := by
      refine (forward_iff st.fetch hf rfl).mpr ?_
      rw [Shell.fetch_orgKey]
      exact hf.key
    dsimp only
    split
    · cases hg : g.filter (st.orkGeneration < ·) with
      | none => exact hfetch
      | some g' =>
        refine (forward_iff (st.fetch.accept org (some g') (some k)) hf
          (Shell.accept_refused _)).mpr ?_
        have hfetched : st.fetch.session = some org := hsession
        refine (fits_accept hfetched ((Shell.fetch_orgKey st).trans hkey)).mpr (.inr ?_)
        exact hf.key org hsession k hkey
    · split
      · have hnone : ({ st with memory := none } : Shell σ ο κ).forgetOrgKey.orgKey = none :=
          Shell.forgetOrgKey_remembered _
        refine (forward_iff ({ st with memory := none } : Shell σ ο κ).forgetOrgKey hf rfl).mpr ?_
        rw [hnone]
        intro o _ k hk
        cases hk
      · exact hfetch

theorem rotate_iff {new : κ} {g : Option ℤ} (hf : Forward st) (h : st.rotate new g = some st') :
    Forward st' ↔ ∀ org ∈ st.session, ¬ Above st.accepted org (rank g) ∨
      Top st.accepted org new := by
  obtain ⟨org, hsession, h⟩ := Option.bind_eq_some_iff.mp h
  obtain ⟨_, _, rfl⟩ := Option.map_eq_some_iff.mp h
  refine (forward_iff _ hf ((Shell.accept_refused _).trans (Shell.take_refused _ _))).trans ?_
  refine (fits_accept ((Shell.take_session _ _).trans hsession) (Shell.take_orgKey _ _)).trans ?_
  rw [Shell.take_accepted, hsession]
  simp

theorem enrol_iff {s : σ} {org : ο} {key : Option κ} (hf : Forward st) :
    Forward (st.enrol s org key) ↔ match key with
      | some k => ¬ Above st.accepted org ⊥ ∨ Top st.accepted org k
      | none => Fits st.accepted (some org) (entryOf st.settings st s) := by
  let bound : Shell σ ο κ := { { st with
    settings := { st.settings with serverUrl := some s } }.save with account := some s }.store org
  have hsession : bound.session = some org := Shell.store_session (s := s) _ rfl rfl
  cases key with
  | none =>
    refine (forward_iff { bound with memory := none } hf rfl).trans ?_
    change Fits st.accepted bound.session (entryOf st.settings st s) ↔ _
    rw [hsession]
  | some k =>
    refine (forward_iff ((bound.take k).accept org none (some k)) hf
      ((Shell.accept_refused _).trans (Shell.take_refused _ _))).trans ?_
    refine (fits_accept ((Shell.take_session _ _).trans hsession) (Shell.take_orgKey _ _)).trans ?_
    rw [Shell.take_accepted]
    rfl

/-- The key is to be remembered, or not. -/
theorem setRememberOrgKey_iff {remember : Bool} (hf : Forward st) :
    Forward (st.setRememberOrgKey remember) ↔
      (remember = true → st.memory = none → Fits st.accepted st.session st.loadOrgKey) := by
  refine (forward_iff _ hf (st.setRememberOrgKey_refused remember)).trans ?_
  rw [st.setRememberOrgKey_accepted, st.setRememberOrgKey_session, st.setRememberOrgKey_orgKey]
  have hkey := hf.key
  unfold Shell.orgKey at hkey
  cases hmemory : st.memory with
  | some k =>
    rw [hmemory] at hkey
    exact iff_of_true hkey (by simp)
  | none =>
    cases remember with
    | false => simp [Fits]
    | true => simp

/-- Signing out leaves nobody to use a key for. -/
theorem clear_forward (hf : Forward st) : Forward st.clear := by
  refine (forward_iff st.clear hf rfl).mpr ?_
  rw [Shell.clear_session]
  exact fits_none

theorem logout_forward (hf : Forward st) : Forward st.logout := by
  refine (forward_iff st.logout hf rfl).mpr ?_
  change Fits st.accepted st.clear.session _
  rw [Shell.clear_session]
  exact fits_none

theorem disconnect_forward (hf : Forward st) : Forward st.disconnect := by
  have hrefused : st.disconnect.refused = st.refused := by
    unfold Shell.disconnect
    split <;> rfl
  refine (forward_iff st.disconnect hf hrefused).mpr ?_
  have hsession : st.disconnect.session = none := rfl
  rw [hsession]
  exact fits_none

end Commands

section Runs

variable {st st' : Shell σ ο κ} {l : Label σ ο κ}

/-- A new installation. -/
def Start (st : Shell σ ο κ) : Prop := st = fresh

theorem start_forward (h : Start st) : Forward st ∧ Bound st := by
  rw [h]
  refine ⟨⟨fits_none, fun r hr => ?_⟩, fun s hs => ?_⟩
  · cases hr
  · cases hs

theorem Bound.of_same (hb : Bound st) (hurl : st'.settings.serverUrl = st.settings.serverUrl)
    (haccount : st'.account = st.account) : Bound st' := by
  intro s hs
  rw [haccount]
  exact hb s (hurl ▸ hs)

variable [DecidableEq σ]

theorem finishLogin_bound {ok : LoginOk ο κ} (hb : Bound st) : Bound (st.finishLogin ok) := by
  unfold Shell.finishLogin
  dsimp only
  split
  · exact hb.of_same rfl rfl
  · split
    · exact hb.of_same (Shell.accept_serverUrl _) (Shell.accept_account _)
    · exact hb.of_same rfl rfl
    · refine hb.of_same ?_ ?_
      · rw [Shell.accept_serverUrl, Shell.take_settings]
        rfl
      · rw [Shell.accept_account, Shell.take_account]
        rfl

theorem launch_bound {opens : κ → Bool} {g : Option ℤ} (hb : Bound st)
    (h : st.launch opens g = some st') : Bound st' := by
  obtain ⟨org, _, rfl⟩ := Option.map_eq_some_iff.mp h
  split
  · exact hb
  · split
    · split
      · exact hb.of_same (Shell.accept_serverUrl _) (Shell.accept_account _)
      · exact hb.of_same rfl rfl
    · split <;> exact hb.of_same rfl rfl

theorem rotate_bound {new : κ} {g : Option ℤ} (hb : Bound st) (h : st.rotate new g = some st') :
    Bound st' := by
  obtain ⟨org, _, h⟩ := Option.bind_eq_some_iff.mp h
  obtain ⟨_, _, rfl⟩ := Option.map_eq_some_iff.mp h
  refine hb.of_same ?_ ?_
  · rw [Shell.accept_serverUrl, Shell.take_settings]
  · rw [Shell.accept_account, Shell.take_account]

theorem enrol_bound {s : σ} {org : ο} {key : Option κ} : Bound (st.enrol s org key) := by
  intro s' hs'
  cases key with
  | none => exact hs'
  | some k =>
    unfold Shell.enrol at hs' ⊢
    dsimp only at hs' ⊢
    rw [Shell.accept_serverUrl, Shell.take_settings] at hs'
    rw [Shell.accept_account, Shell.take_account]
    exact hs'

/-- Pointing the shell at a server binds the session to it. -/
theorem bound_step (hb : Bound st) (hs : step st l = some st') : Bound st' := by
  cases l with
  | signIn ok =>
    obtain ⟨_, _, rfl⟩ := Option.map_eq_some_iff.mp hs
    exact finishLogin_bound hb
  | restart =>
    cases hs
    exact fun s hs => hs
  | setServer s =>
    cases hs
    exact fun s hs => hs
  | launch opens g => exact launch_bound hb hs
  | rotate new g => exact rotate_bound hb hs
  | loseSettings =>
    cases hs
    exact hb.of_same rfl rfl
  | poll =>
    cases hs
    exact hb.of_same rfl rfl
  | logout =>
    cases hs
    exact hb.of_same rfl rfl
  | unauthorized =>
    obtain ⟨_, _, rfl⟩ := Option.map_eq_some_iff.mp hs
    exact hb.of_same rfl rfl
  | disconnect =>
    cases hs
    exact fun s hs => by cases hs
  | setRememberOrgKey remember =>
    cases hs
    unfold Shell.setRememberOrgKey
    dsimp only
    split <;> exact hb.of_same rfl rfl
  | enrol s org key =>
    cases hs
    exact enrol_bound

/-- A step goes forward exactly as the guard says. -/
theorem step_iff (hf : Forward st) (hb : Bound st) (hs : step st l = some st') :
    Forward st' ↔ Guard st l := by
  cases l with
  | signIn ok => exact login_iff hf hb hs
  | restart =>
    cases hs
    exact restart_iff hf
  | setServer s =>
    cases hs
    exact setServer_iff hf
  | launch opens g => exact iff_of_true (launch_forward hf hs) trivial
  | rotate new g => exact rotate_iff hf hs
  | loseSettings =>
    cases hs
    exact iff_of_true ⟨hf.key, hf.refusals⟩ trivial
  | poll =>
    cases hs
    refine iff_of_true ((forward_iff st.fetch hf rfl).mpr ?_) trivial
    rw [Shell.fetch_orgKey]
    exact hf.key
  | logout =>
    cases hs
    exact iff_of_true (logout_forward hf) trivial
  | unauthorized =>
    obtain ⟨_, _, rfl⟩ := Option.map_eq_some_iff.mp hs
    exact iff_of_true (clear_forward hf) trivial
  | disconnect =>
    cases hs
    exact iff_of_true (disconnect_forward hf) trivial
  | setRememberOrgKey remember =>
    cases hs
    exact setRememberOrgKey_iff hf
  | enrol s org key =>
    cases hs
    exact enrol_iff hf

/-- As long as no key is found for another organisation than its own or below a generation
that was accepted, and no organisation is held to the generations of another, the key in use
is the highest that was accepted; and each further step keeps it so exactly when it is such. -/
theorem keys_go_forward (hr : Reached Start step Guard st) :
    Forward st ∧ ∀ l st', step st l = some st' → (Forward st' ↔ Guard st l) := by
  have hinv : Forward st ∧ Bound st := hr.invariant (fun st => Forward st ∧ Bound st)
    (fun _ => start_forward) fun _ _ _ hi hg hs =>
      ⟨(step_iff hi.1 hi.2 hs).mpr hg, bound_step hi.2 hs⟩
  exact ⟨hinv.1, fun _ _ hs => step_iff hinv.1 hinv.2 hs⟩

end Runs

section Examples

/-- A key of an organisation that is used, replaced from here, and replaced from elsewhere. -/
def replaced : List (Label ℕ ℕ ℕ) :=
  [.setServer 1, .signIn ⟨10, some 1, .opens 101⟩, .launch (· = 101) (some 1), .restart, .poll,
    .rotate 102 (some 2), .loseSettings, .launch (· = 103) (some 3),
    .signIn ⟨10, some 3, .opens 103⟩, .restart, .poll]

/-- In the end the last one is in use. -/
theorem keys_go_forward_replaced : ∃ st, run step fresh replaced = some st ∧
    st.orgKey = some 103 ∧
    (Forward st ∧ ∀ l st', step st l = some st' → (Forward st' ↔ Guard st l)) := by
  have hrun : (run step fresh replaced).map Shell.orgKey = some (some 103) := by decide
  obtain ⟨st, h, hkey⟩ := Option.map_eq_some_iff.mp hrun
  have hstart : Start (fresh : Shell ℕ ℕ ℕ) := rfl
  exact ⟨st, h, hkey, keys_go_forward ((Reached.start hstart).run replaced (by decide) h)⟩

/-- Somebody signs in to an organisation at its fifth generation, and then on another server to
one at its second: that is refused as stale, and the key of the first is used for it. -/
theorem other_org_refused : ¬ ∀ st : Shell ℕ ℕ ℕ, Reached Start step anyStep st → Forward st := by
  intro hall
  have hrun : (run step (fresh : Shell ℕ ℕ ℕ) [.setServer 1, .signIn ⟨10, some 5, .opens 105⟩,
      .setServer 2, .signIn ⟨20, some 2, .opens 202⟩]).map (fun st =>
        (st.refused, st.session, st.orgKey)) =
      some ([⟨20, some 2, [⟨10, rank (some 5), some 105⟩]⟩], some 20, some 105) := by decide
  obtain ⟨st, h, hst⟩ := Option.map_eq_some_iff.mp hrun
  obtain ⟨hrefused, _⟩ := Prod.mk.inj hst
  have hstart : Start (fresh : Shell ℕ ℕ ℕ) := rfl
  have hforward := hall st ((Reached.start hstart).run_any _ h)
  have habove := hforward.refusals _ (hrefused ▸ List.mem_singleton_self _)
  exact absurd habove (by decide)

end Examples

end FuryBrowser.KeyForward
