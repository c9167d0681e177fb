import FuryBrowser.GuardedRuns
import FuryBrowser.ShellKeys

/-!
# A key that lives and dies with its session

Signing out takes the organisation key along from memory and from the keychain. The other ways
in which a session ends or is replaced do not: a request that is answered with 401 and a switch
to another server leave the key in memory, and a sign-in that brings no key leaves the one that
the keychain has for the server, whoever that was for.

Beside the shell, the state says for which server, and for whom there, which key was unlocked.
-/

namespace FuryBrowser.KeyWithSession

open GuardedRuns ShellKeys

universe u v w

variable {σ : Type u} {ο : Type v} {κ : Type w}

/-- The keys that were unlocked, by the server and by whom the session there was for. -/
abbrev Unlocked (σ : Type u) (ο : Type v) (κ : Type w) := List (σ × ο × κ)

/-- The shell and what was unlocked in it so far. -/
structure Traced (σ : Type u) (ο : Type v) (κ : Type w) where
  shell : Shell σ ο κ
  unlocked : Unlocked σ ο κ

/-- What a step unlocks: a sign-in what its answer opens to, a rotation the new key, and an
enrolment the key that comes with it. -/
def unlocks (st : Shell σ ο κ) : Label σ ο κ → Unlocked σ ο κ
  | .signIn ok =>
    match st.settings.serverUrl, st.stale ok, ok.wrappedOrk with
    | some s, false, .opens k => [(s, ok.org, k)]
    | _, _, _ => []
  | .rotate new _ =>
    match st.settings.serverUrl, st.session with
    | some s, some org => [(s, org, new)]
    | _, _ => []
  | .enrol s org (some k) => [(s, org, k)]
  | _ => []

/-- One step of the shell, with what it unlocks. -/
def step [DecidableEq σ] (t : Traced σ ο κ) (l : Label σ ο κ) : Option (Traced σ ο κ) :=
  (ShellKeys.step t.shell l).map fun st => ⟨st, unlocks t.shell l ++ t.unlocked⟩

/-- A machine that Fury was just installed on. -/
def Start (t : Traced σ ο κ) : Prop := t = ⟨fresh, []⟩

/-- Where there is no session there is no key, in memory or in the keychain; and where there is
one, the key was unlocked for it. -/
structure WithSession (t : Traced σ ο κ) : Prop where
  /-- The key dies with the session. -/
  gone : t.shell.session = none → t.shell.memory = none ∧ t.shell.loadOrgKey = none
  /-- It is used for nobody else. -/
  own : ∀ s org k, t.shell.settings.serverUrl = some s → t.shell.session = some org →
    (t.shell.memory = some k ∨ t.shell.loadOrgKey = some k) → (s, org, k) ∈ t.unlocked

/-- A sign-in's answer brings a key that opens. -/
def brings (ok : LoginOk ο κ) : Bool :=
  match ok.wrappedOrk with
  | .opens _ => true
  | _ => false

/-- A key, if there is one, was unlocked for a session. -/
def OwnKey (unlocked : Unlocked σ ο κ) (s : σ) (org : ο) (key : Option κ) : Prop :=
  ∀ k ∈ key, (s, org, k) ∈ unlocked

section Guards

variable (st : Shell σ ο κ)

/-- What a sign-in leaves of the key in memory: a stale one leaves it. -/
def memoryLeft (ok : LoginOk ο κ) : Option κ := if st.stale ok then st.memory else none

/-- What it leaves in the keychain: one that brings a key to be remembered writes
over it. -/
def keychainLeft (ok : LoginOk ο κ) : Option κ :=
  if st.stale ok = false ∧ st.settings.rememberOrgKey = true ∧ brings ok = true then none
  else st.loadOrgKey

/-- With a key in memory no request is answered with 401; and the key that a switch, a sign-in
or an enrolment leaves was unlocked for the session that is then in use. -/
def Guard (t : Traced σ ο κ) : Label σ ο κ → Prop
  | .unauthorized => t.shell.memory = none
  | .setServer s => ∀ k ∈ t.shell.memory, ∃ org ∈ t.shell.tokens s, (s, org, k) ∈ t.unlocked
  | .signIn ok => ∀ s ∈ t.shell.settings.serverUrl,
      OwnKey t.unlocked s ok.org (memoryLeft t.shell ok) ∧
        OwnKey (unlocks t.shell (.signIn ok) ++ t.unlocked) s ok.org (keychainLeft t.shell ok)
  | .enrol s org key => t.shell.settings.rememberOrgKey = true ∧ key.isSome ∨
      OwnKey (unlocks t.shell (.enrol s org key) ++ t.unlocked) s org (t.shell.keychain s)
  | _ => True

instance [DecidableEq σ] [DecidableEq ο] [DecidableEq κ] (unlocked : Unlocked σ ο κ) (s : σ)
    (org : ο) (key : Option κ) : Decidable (OwnKey unlocked s org key) :=
  inferInstanceAs (Decidable (∀ k ∈ key, _))

instance [DecidableEq σ] [DecidableEq ο] [DecidableEq κ] (t : Traced σ ο κ) (l : Label σ ο κ) :
    Decidable (Guard t l) := by
  cases l <;> dsimp only [Guard] <;> infer_instance

end Guards

/-- The session and the keys fit together, at the server in use and at every other. -/
structure Fit (st : Shell σ ο κ) (unlocked : Unlocked σ ο κ) : Prop where
  /-- The session is bound to the server in use. -/
  bound : ∀ s, st.settings.serverUrl = some s → st.account = some s
  /-- With no server in use, it has no token. -/
  unbound : st.settings.serverUrl = none → ∀ s, st.account = some s → st.tokens s = none
  /-- A key in the keychain is for the token beside it. -/
  keychain : ∀ s k, st.keychain s = some k →
    ∃ org, st.tokens s = some org ∧ (s, org, k) ∈ unlocked
  /-- The key in memory is for the token of the server in use. -/
  memory : ∀ k, st.memory = some k →
    ∃ s org, st.settings.serverUrl = some s ∧ st.tokens s = some org ∧ (s, org, k) ∈ unlocked

section Fitting

variable {st : Shell σ ο κ} {unlocked : Unlocked σ ο κ} {s : σ} {org : ο} {k : κ}

theorem Fit.session (h : Fit st unlocked) (hs : st.settings.serverUrl = some s) :
    st.session = st.tokens s := by
  unfold Shell.session
  rw [hs, h.bound s hs]
  rfl

/-- What the keychain has for the session is for the token of the server in use. -/
theorem Fit.loaded (h : Fit st unlocked) (hk : st.loadOrgKey = some k) :
    ∃ s org, st.settings.serverUrl = some s ∧ st.tokens s = some org ∧
      (s, org, k) ∈ unlocked := by
  obtain ⟨s, hs, hentry⟩ := Option.bind_eq_some_iff.mp hk
  obtain ⟨org, horg, hmem⟩ := h.keychain s k hentry
  cases hurl : st.settings.serverUrl with
  | none =>
    rw [h.unbound hurl s hs] at horg
    cases horg
  | some s' =>
    have heq := h.bound s' hurl
    rw [hs] at heq
    cases heq
    exact ⟨s, org, rfl, horg, hmem⟩

/-- What fits is what lives and dies with the session. -/
theorem Fit.withSession (h : Fit st unlocked) : WithSession ⟨st, unlocked⟩ := by
  have held (k : κ) (hk : st.memory = some k ∨ st.loadOrgKey = some k) :
      ∃ s org, st.settings.serverUrl = some s ∧ st.tokens s = some org ∧
        (s, org, k) ∈ unlocked := hk.elim (h.memory k) h.loaded
  refine ⟨fun hnone => ?_, fun s org k hs horg hk => ?_⟩
  · have hno (k : κ) : ¬(st.memory = some k ∨ st.loadOrgKey = some k) := by
      intro hk
      obtain ⟨s, org, hs, horg, -⟩ := held k hk
      rw [← h.session hs, hnone] at horg
      cases horg
    exact ⟨Option.eq_none_iff_forall_ne_some.mpr fun k hk => hno k (.inl hk),
      Option.eq_none_iff_forall_ne_some.mpr fun k hk => hno k (.inr hk)⟩
  · obtain ⟨s', org', hs', horg', hmem⟩ := held k hk
    change st.settings.serverUrl = some s at hs
    change st.session = some org at horg
    rw [hs'] at hs
    cases hs
    rw [h.session hs', horg'] at horg
    cases horg
    exact hmem

theorem Fit.more (h : Fit st unlocked) (new : Unlocked σ ο κ) : Fit st (new ++ unlocked) := by
  refine ⟨h.bound, h.unbound, fun s k hk => ?_, fun k hk => ?_⟩
  · obtain ⟨org, horg, hmem⟩ := h.keychain s k hk
    exact ⟨org, horg, List.mem_append_right _ hmem⟩
  · obtain ⟨s, org, hs, horg, hmem⟩ := h.memory k hk
    exact ⟨s, org, hs, horg, List.mem_append_right _ hmem⟩

/-- Only the fields that matter matter. -/
theorem Fit.congr {st' : Shell σ ο κ} (h : Fit st unlocked)
    (hs : st'.settings.serverUrl = st.settings.serverUrl) (ha : st'.account = st.account)
    (ht : st'.tokens = st.tokens) (hk : st'.keychain = st.keychain)
    (hm : st'.memory = st.memory) : Fit st' unlocked := by
  refine ⟨?_, ?_, ?_, ?_⟩
  · rw [hs, ha]
    exact h.bound
  · rw [hs, ha, ht]
    exact h.unbound
  · rw [ht, hk]
    exact h.keychain
  · rw [hs, ht, hm]
    exact h.memory

/-- What `org_key` finds may be kept. -/
theorem Fit.fetch (h : Fit st unlocked) : Fit st.fetch unlocked := by
  refine ⟨h.bound, h.unbound, h.keychain, fun k hk => ?_⟩
  change (st.memory <|> st.remembered) = some k at hk
  cases hm : st.memory with
  | some k' =>
    rw [hm] at hk
    cases hk
    exact h.memory k hm
  | none =>
    rw [hm] at hk
    change (if st.settings.rememberOrgKey then st.loadOrgKey else none) = some k at hk
    split at hk
    · exact h.loaded hk
    · cases hk

theorem Fit.forget (h : Fit st unlocked) : Fit { st with memory := none } unlocked :=
  ⟨h.bound, h.unbound, h.keychain, fun _ hk => (by cases hk)⟩

theorem Fit.accept (h : Fit st unlocked) (org : ο) (g : Option ℤ) (key : Option κ) :
    Fit (st.accept org g key) unlocked := by
  cases g <;> exact h.congr rfl rfl rfl rfl rfl

/-- The token at the server in use is renewed, and what there is of a key for it
was unlocked for it. -/
theorem Fit.renew {st' : Shell σ ο κ} [DecidableEq σ] (h : Fit st unlocked) (s : σ) (org : ο)
    (hs : st'.settings.serverUrl = some s) (ha : st'.account = some s)
    (ht : st'.tokens = Function.update st.tokens s (some org))
    (hother : ∀ s', s' ≠ s → st'.keychain s' = st.keychain s')
    (hkey : ∀ k, st'.memory = some k ∨ st'.keychain s = some k → (s, org, k) ∈ unlocked) :
    Fit st' unlocked := by
  refine ⟨fun s' hs' => ?_, fun hnone => ?_, fun s' k hk => ?_, fun k hk => ?_⟩
  · rw [hs] at hs'
    cases hs'
    exact ha
  · rw [hs] at hnone
    cases hnone
  · by_cases heq : s' = s
    · subst heq
      exact ⟨org, by rw [ht, Function.update_self], hkey k (.inr hk)⟩
    · rw [hother s' heq] at hk
      obtain ⟨org', horg, hmem⟩ := h.keychain s' k hk
      exact ⟨org', by rw [ht, Function.update_of_ne heq, horg], hmem⟩
  · exact ⟨s, org, hs, by rw [ht, Function.update_self], hkey k (.inl hk)⟩

variable [DecidableEq σ]

/-- A session that ends with nothing in memory takes what the keychain has along. -/
theorem Fit.clear (h : Fit st unlocked) (hm : st.memory = none) : Fit st.clear unlocked := by
  cases ha : st.account with
  | none =>
    have htokens : st.clear.tokens = st.tokens := by simp [Shell.clear, Shell.setEntry, ha]
    have hkeychain : st.clear.keychain = st.keychain := by
      simp [Shell.clear, Shell.forgetOrgKey, Shell.setEntry, ha]
    exact h.congr rfl rfl htokens hkeychain rfl
  | some s =>
    have htokens : st.clear.tokens = Function.update st.tokens s none := by
      simp [Shell.clear, Shell.setEntry, ha]
    have hkeychain : st.clear.keychain = Function.update st.keychain s none := by
      simp [Shell.clear, Shell.forgetOrgKey, Shell.setEntry, ha]
    refine ⟨h.bound, fun _ s' hs' => ?_, fun s' k hk => ?_, fun k hk => ?_⟩
    · change st.account = some s' at hs'
      rw [ha] at hs'
      cases hs'
      rw [htokens, Function.update_self]
    · rw [hkeychain] at hk
      by_cases heq : s' = s
      · rw [heq, Function.update_self] at hk
        cases hk
      · rw [Function.update_of_ne heq] at hk
        rw [htokens, Function.update_of_ne heq]
        exact h.keychain s' k hk
    · change st.memory = some k at hk
      rw [hm] at hk
      cases hk

theorem Fit.logout (h : Fit st unlocked) : Fit st.logout unlocked := h.forget.clear rfl

theorem Fit.forgetOrgKey (h : Fit st unlocked) : Fit st.forgetOrgKey unlocked := by
  refine ⟨h.bound, h.unbound, fun s k hk => ?_, h.memory⟩
  change st.setEntry st.keychain none s = some k at hk
  unfold Shell.setEntry at hk
  cases ha : st.account with
  | none =>
    rw [ha] at hk
    exact h.keychain s k hk
  | some s' =>
    rw [ha] at hk
    dsimp only at hk
    by_cases heq : s = s'
    · rw [heq, Function.update_self] at hk
      cases hk
    · rw [Function.update_of_ne heq] at hk
      exact h.keychain s k hk

/-- The keychain may be given the key that is in memory. -/
theorem Fit.storeOrgKey (h : Fit st unlocked) (hm : st.memory = some k) :
    Fit (st.storeOrgKey k) unlocked := by
  obtain ⟨s, org, hs, horg, hmem⟩ := h.memory k hm
  have ha := h.bound s hs
  refine ⟨h.bound, h.unbound, fun s' k' hk' => ?_, h.memory⟩
  have hkeychain : (st.storeOrgKey k).keychain = Function.update st.keychain s (some k) := by
    simp [Shell.storeOrgKey, Shell.setEntry, ha]
  rw [hkeychain] at hk'
  by_cases heq : s' = s
  · rw [heq, Function.update_self] at hk'
    cases hk'
    exact heq ▸ ⟨org, horg, hmem⟩
  · rw [Function.update_of_ne heq] at hk'
    exact h.keychain s' k' hk'

theorem take_memory (st : Shell σ ο κ) (k : κ) : (st.take k).memory = some k := by
  unfold Shell.take
  split <;> rfl

theorem take_tokens (st : Shell σ ο κ) (k : κ) : (st.take k).tokens = st.tokens := by
  unfold Shell.take
  split <;> rfl

/-- A key that is taken is in the keychain where it is to be remembered; what the
keychain has for other servers stays. -/
theorem take_keychain (st : Shell σ ο κ) (k : κ) (ha : st.account = some s) :
    (st.take k).keychain =
      if st.settings.rememberOrgKey then Function.update st.keychain s (some k)
      else st.keychain := by
  unfold Shell.take
  split
  · simp [Shell.storeOrgKey, Shell.setEntry, ha]
  · rfl

theorem Fit.disconnect (h : Fit st unlocked) : Fit st.disconnect unlocked := by
  have left (st' : Shell σ ο κ) (h' : Fit st' unlocked)
      (hnone : st'.account.bind st'.tokens = none) :
      Fit { st' with settings := { st'.settings with serverUrl := none } }.save.fetch unlocked := by
    refine Fit.fetch ⟨fun s hs => (by cases hs), fun _ s hs => ?_, h'.keychain, fun k hk => ?_⟩
    · change st'.account = some s at hs
      rw [hs] at hnone
      exact hnone
    · obtain ⟨s, org, hs, horg, -⟩ := h'.memory k hk
      rw [h'.bound s hs, Option.bind_some, horg] at hnone
      cases hnone
  unfold Shell.disconnect
  split
  · refine left _ h.logout ?_
    exact Shell.bind_setEntry st ▸ (by cases st.account <;> rfl)
  next hsome => exact left st h (by simpa using hsome)

omit [DecidableEq σ] in
theorem Fit.setServer (h : Fit st unlocked) (hg : Guard ⟨st, unlocked⟩ (.setServer s)) :
    Fit (st.setServer s) unlocked := by
  refine Fit.fetch ⟨fun s' hs' => ?_, fun hnone => (by cases hnone), h.keychain, fun k hk => ?_⟩
  · cases hs'
    rfl
  · obtain ⟨org, horg, hmem⟩ := hg k hk
    exact ⟨s, org, rfl, horg, hmem⟩

omit [DecidableEq σ] in
theorem Fit.restart (h : Fit st unlocked) : Fit st.restart unlocked := by
  refine ⟨fun s hs => hs, fun hnone s hs => ?_, h.keychain, fun k hk => (by cases hk)⟩
  change (Settings.load st.file).serverUrl = none at hnone
  change (Settings.load st.file).serverUrl = some s at hs
  rw [hnone] at hs
  cases hs

theorem Fit.setRememberOrgKey (h : Fit st unlocked) (remember : Bool) :
    Fit (st.setRememberOrgKey remember) unlocked := by
  have hset : Fit { st with settings := { st.settings with rememberOrgKey := remember } }.save
      unlocked := h.congr rfl rfl rfl rfl rfl
  unfold Shell.setRememberOrgKey
  refine Fit.fetch ?_
  dsimp only
  split
  · exact hset.forgetOrgKey
  next hm => exact hset.storeOrgKey hm
  · exact hset

theorem Fit.launch (h : Fit st unlocked) {opens : κ → Bool} {g : Option ℤ} {st' : Shell σ ο κ}
    (hs : st.launch opens g = some st') : Fit st' unlocked := by
  obtain ⟨org, -, rfl⟩ := Option.map_eq_some_iff.mp hs
  split
  · exact h
  · split
    · split
      · exact h.fetch.accept _ _ _
      · exact h.fetch
    · split
      · exact h.forget.forgetOrgKey
      · exact h.fetch

omit [DecidableEq σ] in
/-- What there is of a key at the server in use was unlocked for its token. -/
theorem Fit.own (h : Fit st unlocked) (hs : st.settings.serverUrl = some s)
    (horg : st.tokens s = some org) (hk : st.memory = some k ∨ st.keychain s = some k) :
    (s, org, k) ∈ unlocked := by
  rcases hk with hm | hc
  · obtain ⟨s', org', hs', horg', hmem⟩ := h.memory k hm
    rw [hs] at hs'
    cases hs'
    rw [horg] at horg'
    cases horg'
    exact hmem
  · obtain ⟨org', horg', hmem⟩ := h.keychain s k hc
    rw [horg] at horg'
    cases horg'
    exact hmem

theorem Fit.login (h : Fit st unlocked) {ok : LoginOk ο κ} {st' : Shell σ ο κ}
    (hg : Guard ⟨st, unlocked⟩ (.signIn ok)) (hs : st.login ok = some st') :
    Fit st' (unlocks st (.signIn ok) ++ unlocked) := by
  obtain ⟨s, hurl, rfl⟩ := Option.map_eq_some_iff.mp hs
  obtain ⟨hmemory, hkeychain⟩ := hg s hurl
  dsimp only at hmemory hkeychain
  have ha := h.bound s hurl
  have hload : st.loadOrgKey = st.keychain s := by
    unfold Shell.loadOrgKey
    rw [ha]
    rfl
  have htokens : st.setEntry st.tokens (some ok.org) =
      Function.update st.tokens s (some ok.org) := by
    unfold Shell.setEntry
    rw [ha]
  -- unless a key is written over it, what the keychain has was unlocked for this session
  have hkept (hnot : ¬(st.stale ok = false ∧ st.settings.rememberOrgKey = true ∧ brings ok = true))
      {k : κ} (hk : st.keychain s = some k) :
      (s, ok.org, k) ∈ unlocks st (.signIn ok) ++ unlocked := by
    unfold keychainLeft at hkeychain
    rw [if_neg hnot, hload] at hkeychain
    exact hkeychain k hk
  have hfit := h.more (unlocks st (.signIn ok))
  unfold Shell.finishLogin
  split
  next hstale =>
    refine hfit.renew s ok.org hurl ha htokens (fun _ _ => rfl) fun k hk => ?_
    rcases hk with hk | hk
    · unfold memoryLeft at hmemory
      rw [if_pos hstale] at hmemory
      exact List.mem_append_right _ (hmemory k hk)
    · exact hkept (by simp [hstale]) hk
  next hfresh =>
    have hnokey (hbrings : brings ok = false) :
        Fit { (st.store ok.org).save with memory := none }
          (unlocks st (.signIn ok) ++ unlocked) := by
      refine hfit.renew s ok.org hurl ha htokens (fun _ _ => rfl) fun k hk => ?_
      rcases hk with hk | hk
      · cases hk
      · exact hkept (by simp [hbrings]) hk
    dsimp only
    split
    next hw => exact (hnokey (by simp [brings, hw])).accept _ _ _
    next hw => exact hnokey (by simp [brings, hw])
    next k hw =>
      have hnew : (s, ok.org, k) ∈ unlocks st (.signIn ok) ++ unlocked := by
        unfold unlocks
        simp [hurl, hw, hfresh]
      have hchain := take_keychain (st.store ok.org).save k (s := s) ha
      refine Fit.accept (hfit.renew s ok.org ?_ ?_ ?_ ?_ ?_) _ _ _
      · rw [Shell.take_settings]
        exact hurl
      · rw [Shell.take_account]
        exact ha
      · rw [take_tokens]
        exact htokens
      · intro s' hne
        rw [hchain]
        split
        · exact Function.update_of_ne hne _ _
        · rfl
      · intro k' hk'
        rw [take_memory, hchain] at hk'
        rcases hk' with hk' | hk'
        · cases hk'
          exact hnew
        · split at hk'
          · rw [Function.update_self] at hk'
            cases hk'
            exact hnew
          next hremember => exact hkept (fun hall => hremember hall.2.1) hk'

theorem Fit.rotate (h : Fit st unlocked) {new : κ} {g : Option ℤ} {st' : Shell σ ο κ}
    (hs : st.rotate new g = some st') : Fit st' (unlocks st (.rotate new g) ++ unlocked) := by
  obtain ⟨org, horg, hs⟩ := Option.bind_eq_some_iff.mp hs
  obtain ⟨_, -, rfl⟩ := Option.map_eq_some_iff.mp hs
  cases hurl : st.settings.serverUrl with
  | none =>
    unfold Shell.session at horg
    rw [hurl] at horg
    cases horg
  | some s =>
    have ha := h.bound s hurl
    have hnew : (s, org, new) ∈ unlocks st (.rotate new g) ++ unlocked := by
      unfold unlocks
      simp [hurl, horg]
    have htoken : st.tokens s = some org := by
      rw [← h.session hurl]
      exact horg
    refine Fit.accept ((h.more _).renew s org ?_ ?_ ?_ ?_ ?_) _ _ _
    · rw [Shell.take_settings]
      exact hurl
    · rw [Shell.take_account]
      exact ha
    · rw [take_tokens, ← htoken, Function.update_eq_self]
    · intro s' hne
      rw [take_keychain st new ha]
      split
      · exact Function.update_of_ne hne _ _
      · rfl
    · intro k hk
      rw [take_memory, take_keychain st new ha] at hk
      rcases hk with hk | hk
      · cases hk
        exact hnew
      · split at hk
        · rw [Function.update_self] at hk
          cases hk
          exact hnew
        · exact List.mem_append_right _ (h.own hurl htoken (.inr hk))

theorem Fit.enrol (h : Fit st unlocked) {key : Option κ}
    (hg : Guard ⟨st, unlocked⟩ (.enrol s org key)) :
    Fit (st.enrol s org key) (unlocks st (.enrol s org key) ++ unlocked) := by
  have hkept (hnot : ¬(st.settings.rememberOrgKey = true ∧ key.isSome)) {k : κ}
      (hk : st.keychain s = some k) :
      (s, org, k) ∈ unlocks st (.enrol s org key) ++ unlocked :=
    hg.resolve_left hnot k hk
  have hfit := h.more (unlocks st (.enrol s org key))
  cases key with
  | none =>
    refine hfit.renew s org rfl rfl rfl (fun _ _ => rfl) fun k hk => ?_
    rcases hk with hk | hk
    · cases hk
    · exact hkept (by simp) hk
  | some new =>
    have hnew : (s, org, new) ∈ unlocks st (.enrol s org (some new)) ++ unlocked := by
      unfold unlocks
      simp
    unfold Shell.enrol
    refine Fit.accept (hfit.renew s org ?_ ?_ ?_ ?_ ?_) _ _ _
    · rw [Shell.take_settings]
      rfl
    · rw [Shell.take_account]
      rfl
    · rw [take_tokens]
      rfl
    · intro s' hne
      rw [take_keychain (s := s) _ new rfl]
      split
      · exact Function.update_of_ne hne _ _
      · rfl
    · intro k hk
      rw [take_memory, take_keychain (s := s) _ new rfl] at hk
      rcases hk with hk | hk
      · cases hk
        exact hnew
      · split at hk
        · rw [Function.update_self] at hk
          cases hk
          exact hnew
        next hremember => exact hkept (fun hboth => hremember hboth.1) hk

end Fitting

section Exactly

variable [DecidableEq σ] {st st' : Shell σ ο κ} {unlocked : Unlocked σ ο κ} {s : σ} {org : ο}

omit [DecidableEq σ] in
@[simp] theorem accept_loadOrgKey (g : Option ℤ) (key : Option κ) :
    (st.accept org g key).loadOrgKey = st.loadOrgKey := by
  cases g <;> rfl

/-- With nothing to remember, a key that is taken leaves the keychain. -/
theorem take_loadOrgKey (st : Shell σ ο κ) (k : κ) (h : st.settings.rememberOrgKey = false) :
    (st.take k).loadOrgKey = st.loadOrgKey := by
  unfold Shell.take
  rw [h]
  rfl

/-- What a sign-in leaves is still there. -/
theorem login_left {ok : LoginOk ο κ} (hs : st.login ok = some st') :
    (st.stale ok = true → st'.memory = st.memory) ∧
      (¬(st.stale ok = false ∧ st.settings.rememberOrgKey = true ∧ brings ok = true) →
        st'.loadOrgKey = st.loadOrgKey) ∧
      st'.settings.serverUrl = st.settings.serverUrl ∧
      st'.session = (st.store ok.org).session := by
  obtain ⟨s, hurl, rfl⟩ := Option.map_eq_some_iff.mp hs
  unfold Shell.finishLogin
  split
  next hstale => exact ⟨fun _ => rfl, fun _ => rfl, rfl, rfl⟩
  next hfresh =>
    refine ⟨fun hstale => absurd hstale hfresh, ?_⟩
    dsimp only
    split
    · rw [accept_loadOrgKey, Shell.accept_serverUrl, Shell.accept_session]
      exact ⟨fun _ => rfl, rfl, rfl⟩
    · exact ⟨fun _ => rfl, rfl, rfl⟩
    next k hw =>
      rw [accept_loadOrgKey, Shell.accept_serverUrl, Shell.accept_session, Shell.take_settings,
        Shell.take_session]
      refine ⟨fun hnot => ?_, rfl, rfl⟩
      have hremember : st.settings.rememberOrgKey = false := by
        cases hr : st.settings.rememberOrgKey with
        | false => rfl
        | true => exact absurd ⟨by simpa using hfresh, hr, by simp [brings, hw]⟩ hnot
      exact take_loadOrgKey (st.store ok.org).save k hremember

/-- A sign-in after which the key is for the session left only what was unlocked for it. -/
theorem guard_of_login (h : Fit st unlocked) {ok : LoginOk ο κ} (hs : st.login ok = some st')
    (hw : WithSession ⟨st', unlocks st (.signIn ok) ++ unlocked⟩) :
    Guard ⟨st, unlocked⟩ (.signIn ok) := by
  obtain ⟨hmemory, hkeychain, hurl', hsession⟩ := login_left hs
  intro s hs
  have hown (k : κ) := hw.own s ok.org k (hurl'.trans hs)
    (hsession.trans (Shell.store_session st hs (h.bound s hs)))
  refine ⟨fun k hk => ?_, fun k hk => ?_⟩
  · obtain ⟨hstale, hk⟩ := Option.ite_none_right_eq_some.mp hk
    have hmem := hown k (.inl ((hmemory hstale).trans hk))
    have hnone : unlocks st (.signIn ok) = [] := by simp [unlocks, hstale]
    rwa [hnone] at hmem
  · obtain ⟨hnot, hk⟩ := Option.ite_none_left_eq_some.mp hk
    exact hown k (.inr ((hkeychain hnot).trans hk))

theorem guard_of_enrol {key : Option κ}
    (hw : WithSession ⟨st.enrol s org key, unlocks st (.enrol s org key) ++ unlocked⟩) :
    Guard ⟨st, unlocked⟩ (.enrol s org key) := by
  by_cases hboth : st.settings.rememberOrgKey = true ∧ key.isSome
  · exact .inl hboth
  · right
    intro k hk
    refine hw.own s org k ?_ ?_ (.inr ?_)
    · cases key with
      | none => rfl
      | some new =>
        change ((Shell.take _ new).accept org none _).settings.serverUrl = _
        rw [Shell.accept_serverUrl, Shell.take_settings]
        rfl
    · have hstored : ({ { st with settings := { st.settings with serverUrl := some s } }.save with
          account := some s }.store org).session = some org :=
        Shell.store_session _ rfl rfl
      cases key with
      | none => exact hstored
      | some new =>
        change ((Shell.take _ new).accept org none _).session = _
        rw [Shell.accept_session, Shell.take_session]
        exact hstored
    · cases key with
      | none => exact hk
      | some new =>
        change ((Shell.take _ new).accept org none _).loadOrgKey = _
        rw [accept_loadOrgKey, take_loadOrgKey]
        · exact hk
        · change st.settings.rememberOrgKey = false
          cases hr : st.settings.rememberOrgKey with
          | false => rfl
          | true => exact absurd ⟨hr, rfl⟩ hboth

omit [DecidableEq σ] in
theorem guard_of_setServer (hw : WithSession ⟨st.setServer s, unlocked⟩) :
    Guard ⟨st, unlocked⟩ (.setServer s) := by
  intro k hk
  have hmemory : (st.setServer s).memory = some k := by
    change (st.memory <|> _) = some k
    rw [hk]
    rfl
  have hsession : (st.setServer s).session = st.tokens s := rfl
  cases horg : st.tokens s with
  | none =>
    have hnone := (hw.gone (hsession.trans horg)).1
    exact absurd (hmemory.symm.trans hnone) (by simp)
  | some org => exact ⟨org, rfl, hw.own s org k rfl (hsession.trans horg) (.inl hmemory)⟩

end Exactly

section Runs

variable [DecidableEq σ] {t t' : Traced σ ο κ} {l : Label σ ο κ}

theorem step_fit : Preserved (step : Traced σ ο κ → Label σ ο κ → _) Guard
    (fun t => Fit t.shell t.unlocked) := by
  intro t l t' h hg hs
  obtain ⟨st, hst, rfl⟩ := Option.map_eq_some_iff.mp hs
  cases l with
  | signIn ok => exact h.login hg hst
  | restart =>
    cases hst
    exact h.restart
  | setServer s =>
    cases hst
    exact h.setServer hg
  | launch opens g => exact h.launch hst
  | rotate new g => exact h.rotate hst
  | loseSettings =>
    cases hst
    exact h.congr rfl rfl rfl rfl rfl
  | poll =>
    cases hst
    exact h.fetch
  | logout =>
    cases hst
    exact h.logout
  | unauthorized =>
    obtain ⟨_, -, rfl⟩ := Option.map_eq_some_iff.mp hst
    exact h.clear hg
  | disconnect =>
    cases hst
    exact h.disconnect
  | setRememberOrgKey remember =>
    cases hst
    exact h.setRememberOrgKey remember
  | enrol s org key =>
    cases hst
    exact h.enrol hg

/-- A step after which the key is with its session met the guard. -/
theorem guard_of_step (h : Fit t.shell t.unlocked) (hs : step t l = some t')
    (hw : WithSession t') : Guard t l := by
  obtain ⟨st, hst, rfl⟩ := Option.map_eq_some_iff.mp hs
  cases l with
  | signIn ok => exact guard_of_login h hst hw
  | setServer s =>
    cases hst
    exact guard_of_setServer hw
  | unauthorized =>
    obtain ⟨_, -, rfl⟩ := Option.map_eq_some_iff.mp hst
    exact (hw.gone (Shell.clear_session t.shell)).1
  | enrol s org key =>
    cases hst
    exact guard_of_enrol hw
  | _ => trivial

/-- In every run in which no request is answered with 401 while there is a key in memory, and in
which the key that a switch, a sign-in or an enrolment leaves was unlocked for the session that
follows, the key lives and dies with its session; and each further step keeps it so exactly when
it is such. -/
theorem key_with_session (hr : Reached Start step Guard t) :
    WithSession t ∧ ∀ l t', step t l = some t' → (WithSession t' ↔ Guard t l) := by
  have hfit : Fit t.shell t.unlocked := by
    refine hr.invariant _ (fun t ht => ?_) step_fit
    cases ht
    exact ⟨fun _ hs => (by cases hs), fun _ _ hs => (by cases hs), fun _ _ hk => (by cases hk),
      fun _ hk => (by cases hk)⟩
  refine ⟨hfit.withSession, fun l t' hs => ⟨guard_of_step hfit hs, fun hg => ?_⟩⟩
  exact (step_fit hfit hg hs).withSession

end Runs

section Examples

/-- Two servers in turn, the sign-out first. -/
def outAndIn : List (Label ℕ ℕ ℕ) :=
  [.setServer 1, .signIn ⟨10, some 1, .opens 101⟩, .poll, .restart, .poll, .logout, .setServer 2,
    .signIn ⟨20, some 2, .opens 202⟩, .poll]

/-- In the end the second server's key is in use. -/
theorem key_with_session_outAndIn : ∃ t, run step ⟨fresh, []⟩ outAndIn = some t ∧
    t.shell.memory = some 202 ∧
    (WithSession t ∧ ∀ l t', step t l = some t' → (WithSession t' ↔ Guard t l)) := by
  have hrun : (run step (⟨fresh, []⟩ : Traced ℕ ℕ ℕ) outAndIn).map (fun t => t.shell.memory) =
      some (some 202) := by decide
  obtain ⟨t, h, hkey⟩ := Option.map_eq_some_iff.mp hrun
  have hstart : Start (⟨fresh, []⟩ : Traced ℕ ℕ ℕ) := rfl
  exact ⟨t, h, hkey, key_with_session ((Reached.start hstart).run outAndIn (by decide) h)⟩

/-- A request is answered with 401, and the key stays in memory. -/
theorem key_outlives_session :
    ¬∀ t : Traced ℕ ℕ ℕ, Reached Start step anyStep t → WithSession t := by
  intro hall
  have hrun : (run step (⟨fresh, []⟩ : Traced ℕ ℕ ℕ)
      [.setServer 1, .signIn ⟨10, some 1, .opens 101⟩, .unauthorized]).map (fun t =>
        (t.shell.session, t.shell.memory)) = some (none, some 101) := by decide
  obtain ⟨t, h, ht⟩ := Option.map_eq_some_iff.mp hrun
  obtain ⟨hsession, hmemory⟩ := Prod.mk.inj ht
  have hstart : Start (⟨fresh, []⟩ : Traced ℕ ℕ ℕ) := rfl
  have hgone := ((hall t ((Reached.start hstart).run_any _ h)).gone hsession).1
  exact absurd (hmemory.symm.trans hgone) (by simp)

end Examples

end FuryBrowser.KeyWithSession
