import FuryBrowser.SessionSteps

/-!
# A token goes to the server that issued it

Every place where a token comes to rest knows a server: the memory the account it was bound to,
an entry of the keychain the account it is for, a command the address it read. A token that
moves from one place to another stays with its server when the two servers are the same, which
no access looks at.
-/

namespace FuryBrowser.SessionTokens

open GuardedRuns SessionSteps

universe u v

variable {σ : Type u} {τ : Type v}

section Conditions

/-- No request carried a token to a server that did not issue it, or for which it was not
stored. -/
def OnlyToIssuer (issuer : τ → σ) (w : World σ τ) : Prop :=
  ∀ p ∈ w.now.sent, issuer p.2 = p.1 ∧ ∀ q ∈ w.now.stored, q.2 = p.2 → q.1 = p.1

/-- A token that is taken, put or stored is moved between places of one server. -/
def Meets (n : Session σ τ) (r : Registers σ τ) : Instr σ → Outcome τ → Prop
  | .takeToken, _ => n.token.isSome → r.base.isSome → n.boundTo = r.base
  | .putToken, _ => r.found.join.isSome → n.account = r.acct
  | .storeToken, _ => n.account = r.base
  | .writeEntry, .done => r.acct.isSome → r.acct = r.base
  | _, _ => True

/-- A command's next access is such. -/
def ThreadMeets (n : Session σ τ) (th : Thread σ τ) (o : Outcome τ) : Prop :=
  match th.code with
  | (ins :: _) :: _ => Meets n th.regs ins o
  | _ => True

/-- So is that of the command that goes on. -/
def Guard (w : World σ τ) : Label σ τ → Prop
  | .goOn i o => ∀ th ∈ w.threads[i]?, ThreadMeets w.now th o
  | _ => True

variable [DecidableEq σ]

instance (n : Session σ τ) (r : Registers σ τ) (ins : Instr σ) (o : Outcome τ) :
    Decidable (Meets n r ins o) := by
  cases ins <;> cases o <;> dsimp only [Meets] <;> infer_instance

instance (n : Session σ τ) (th : Thread σ τ) (o : Outcome τ) : Decidable (ThreadMeets n th o) := by
  unfold ThreadMeets
  split <;> infer_instance

instance (w : World σ τ) (l : Label σ τ) : Decidable (Guard w l) := by
  cases l <;> dsimp only [Guard] <;> infer_instance

end Conditions

section Places

variable (issuer : τ → σ)

/-- What a command has is of the servers it knows. -/
structure Own (r : Registers σ τ) : Prop where
  /-- Its token is of the address it read. -/
  held : ∀ t, r.held = some t → r.base = some (issuer t)
  /-- What the keychain answered is of the account it read. -/
  found : ∀ t, r.found = some (some t) → r.acct = some (issuer t)

/-- What is in memory, in the keychain and on the way is of its server. -/
structure Fit (n : Session σ τ) : Prop where
  /-- The token in memory is of the server that the session was bound to. -/
  token : ∀ t, n.token = some t → n.boundTo = some (issuer t)
  /-- Each entry is of the server it is for. -/
  keychain : ∀ s t, n.keychain s = some t → issuer t = s
  /-- So was what was ever stored. -/
  stored : ∀ p ∈ n.stored, issuer p.2 = p.1
  sent : ∀ p ∈ n.sent, issuer p.2 = p.1

/-- Every token is with its server. -/
structure InPlace (w : World σ τ) : Prop where
  now : Fit issuer w.now
  threads : ∀ th ∈ w.threads, Own issuer th.regs

variable {issuer} {n n' : Session σ τ} {r r' : Registers σ τ}

theorem InPlace.only {w : World σ τ} (h : InPlace issuer w) : OnlyToIssuer issuer w := by
  intro p hp
  have hissuer := h.now.sent p hp
  refine ⟨hissuer, fun q hq heq => ?_⟩
  rw [← h.now.stored q hq, heq, hissuer]

/-- An access that moves no token: it may forget some. -/
structure Quiet (n n' : Session σ τ) (r r' : Registers σ τ) : Prop where
  /-- The token in memory stays, or is forgotten. -/
  token : ∀ t, n'.token = some t → n.token = some t ∧ n'.boundTo = n.boundTo
  keychain : ∀ s t, n'.keychain s = some t → n.keychain s = some t
  stored : n'.stored = n.stored
  sent : n'.sent = n.sent
  /-- The command keeps what it has with the address, or drops it. -/
  held : ∀ t, r'.held = some t → r.held = some t ∧ r'.base = r.base
  /-- And the answer with the account. -/
  found : ∀ t, r'.found = some (some t) → r.found = some (some t) ∧ r'.acct = r.acct

/-- What is not about tokens may change. -/
theorem Quiet.congr (ht : n'.token = n.token) (hb : n'.boundTo = n.boundTo)
    (hk : n'.keychain = n.keychain) (hst : n'.stored = n.stored) (hs : n'.sent = n.sent) :
    Quiet n n' r r := by
  refine ⟨fun t h => ⟨ht ▸ h, hb⟩, fun s t h => hk ▸ h, hst, hs, fun t h => ⟨h, rfl⟩,
    fun t h => ⟨h, rfl⟩⟩

theorem Quiet.same : Quiet n n r r := .congr rfl rfl rfl rfl rfl

/-- A command that reads an address anew has no token for it yet. -/
theorem Quiet.rebase (base : Option σ) : Quiet n n r { r with base := base, held := none } :=
  ⟨fun _ h => ⟨h, rfl⟩, fun _ _ h => h, rfl, rfl, fun _ h => (by cases h), fun _ h => ⟨h, rfl⟩⟩

/-- Nor has it an answer for an account that it reads. -/
theorem Quiet.reread (acct : Option σ) : Quiet n n r { r with acct := acct, found := none } :=
  ⟨fun _ h => ⟨h, rfl⟩, fun _ _ h => h, rfl, rfl, fun _ h => ⟨h, rfl⟩, fun _ h => (by cases h)⟩

theorem Quiet.forget : Quiet n { n with token := none } r r :=
  ⟨fun _ h => (by cases h), fun _ _ h => h, rfl, rfl, fun _ h => ⟨h, rfl⟩, fun _ h => ⟨h, rfl⟩⟩

theorem Quiet.delete [DecidableEq σ] (s : σ) :
    Quiet n { n with keychain := Function.update n.keychain s none } r r := by
  refine ⟨fun _ h => ⟨h, rfl⟩, fun s' t h => ?_, rfl, rfl, fun _ h => ⟨h, rfl⟩,
    fun _ h => ⟨h, rfl⟩⟩
  change Function.update n.keychain s none s' = some t at h
  by_cases heq : s' = s
  · rw [heq, Function.update_self] at h
    cases h
  · rwa [Function.update_of_ne heq] at h

theorem Quiet.fit (h : Quiet n n' r r') (hn : Fit issuer n) (hr : Own issuer r) :
    Fit issuer n' ∧ Own issuer r' := by
  refine ⟨⟨fun t ht => ?_, fun s t hs => hn.keychain s t (h.keychain s t hs), ?_, ?_⟩,
    fun t ht => ?_, fun t ht => ?_⟩
  · obtain ⟨hold, hbound⟩ := h.token t ht
    exact hbound.trans (hn.token t hold)
  · rw [h.stored]
    exact hn.stored
  · rw [h.sent]
    exact hn.sent
  · obtain ⟨hold, hbase⟩ := h.held t ht
    exact hbase.trans (hr.held t hold)
  · obtain ⟨hold, hacct⟩ := h.found t ht
    exact hacct.trans (hr.found t hold)

/-- The accesses that move a token from one place to another. -/
def moves : Instr σ → Bool
  | .putToken | .takeToken | .send | .ask | .askAt _ | .storeToken | .writeEntry => true
  | _ => false

variable {ins : Instr σ} {o : Outcome τ}

theorem meets_of_quiet (hins : moves ins = false) : Meets n r ins o := by
  cases ins with
  | putToken | takeToken | send | ask | askAt | storeToken | writeEntry => cases hins
  | _ => trivial

/-- A token that comes with its server. -/
theorem Own.hold {t : τ} (hr : Own issuer r) (hbase : r.base = some (issuer t)) :
    Own issuer { r with held := some t } := by
  refine ⟨fun t' ht => ?_, hr.found⟩
  cases ht
  exact hbase

theorem Fit.put (hn : Fit issuer n) (token : Option τ)
    (htoken : ∀ t, token = some t → n.account = some (issuer t)) :
    Fit issuer { n with token := token, boundTo := n.account } :=
  ⟨htoken, hn.keychain, hn.stored, hn.sent⟩

variable [DecidableEq σ] {on off code : Code σ}

theorem exec_quiet (hins : moves ins = false)
    (h : exec issuer n r on off ins o = some (n', r', code)) : Quiet n n' r r' := by
  cases ins with
  | putToken | takeToken | send | ask | askAt | storeToken | writeEntry => cases hins
  | ensureLoaded | needSignedIn | receive | probe | checkGeneration | awaitingKey | revoke
  | logoutIfSignedIn =>
    cases o <;> cases h <;> exact .same
  | setLoaded | endReading | setAddress | bindAccount =>
    cases o <;> cases h <;> exact .congr rfl rfl rfl rfl rfl
  | serverUrl =>
    cases o with
    | done =>
      dsimp only [exec] at h
      split at h <;> cases h
      · exact .rebase _
      · exact .same
    | _ => cases h
  | tryServerUrl =>
    cases o <;> cases h
    exact .rebase _
  | readAccount =>
    cases o with
    | done =>
      dsimp only [exec] at h
      split at h <;> cases h
      · exact .reread _
      · exact .same
    | _ => cases h
  | startReading =>
    cases o with
    | done =>
      dsimp only [exec] at h
      split at h <;> cases h
      · exact .same
      · exact .congr rfl rfl rfl rfl rfl
    | _ => cases h
  | awaitKeychain =>
    cases o with
    | done =>
      dsimp only [exec] at h
      split at h <;> cases h
      exact .same
    | failed =>
      cases h
      exact .same
    | _ => cases h
  | entryAccount =>
    cases o <;> cases h
    exact .reread _
  | deleteEntry =>
    cases o with
    | done =>
      dsimp only [exec] at h
      split at h <;> cases h
      · exact .delete _
      · exact .same
    | failed =>
      cases h
      exact .same
    | _ => cases h
  | clearToken =>
    cases o <;> cases h
    exact .forget

theorem Fit.write {s : σ} {t : τ} (hn : Fit issuer n) (hs : issuer t = s) :
    Fit issuer { n with keychain := Function.update n.keychain s (some t),
                        stored := (s, t) :: n.stored } := by
  refine ⟨hn.token, fun s' t' ht => ?_, fun p hp => ?_, hn.sent⟩
  · change Function.update n.keychain s (some t) s' = some t' at ht
    by_cases heq : s' = s
    · rw [heq, Function.update_self] at ht
      cases ht
      exact hs.trans heq.symm
    · rw [Function.update_of_ne heq] at ht
      exact hn.keychain s' t' ht
  · rcases List.mem_cons.mp hp with rfl | hp
    · exact hs
    · exact hn.stored p hp

/-- An access that meets the condition leaves every token with its server; and one that does so
met it. -/
theorem exec_fit (hn : Fit issuer n) (hr : Own issuer r)
    (h : exec issuer n r on off ins o = some (n', r', code)) :
    Meets n r ins o ↔ Fit issuer n' ∧ Own issuer r' := by
  by_cases hins : moves ins = false
  · exact iff_of_true (meets_of_quiet hins) ((exec_quiet hins h).fit hn hr)
  cases ins with
  | takeToken =>
    cases o with
    | done =>
      dsimp only [exec] at h
      split at h <;> cases h
      next s t hbase htoken =>
        have hbound := hn.token t htoken
        constructor
        · intro hmeets
          have heq := hmeets (by rw [htoken]; rfl) (by rw [hbase]; rfl)
          exact ⟨hn, hr.hold (heq.symm.trans hbound)⟩
        · intro ⟨_, hown⟩ _ _
          exact hbound.trans (hown.held t rfl).symm
      next hnot =>
        refine iff_of_true (fun htoken hbase => ?_) ⟨hn, hr⟩
        obtain ⟨t, htoken⟩ := Option.isSome_iff_exists.mp htoken
        obtain ⟨s, hbase⟩ := Option.isSome_iff_exists.mp hbase
        exact absurd htoken (hnot s t hbase)
    | _ => cases h
  | putToken =>
    cases o with
    | done =>
      dsimp only [exec] at h
      split at h <;> cases h
      next stored hfound =>
        constructor
        · intro hmeets
          refine ⟨hn.put stored fun t ht => ?_, hr⟩
          rw [ht] at hfound
          exact (hmeets (by rw [hfound]; rfl)).trans (hr.found t hfound)
        · intro ⟨hfit, _⟩ hsome
          cases stored with
          | none =>
            rw [hfound] at hsome
            cases hsome
          | some t => exact (hfit.token t rfl).trans (hr.found t hfound).symm
    | _ => cases h
  | storeToken =>
    cases o with
    | done =>
      dsimp only [exec] at h
      split at h <;> cases h
      next t hheld =>
        have hbase := hr.held t hheld
        constructor
        · intro hmeets
          refine ⟨hn.put (some t) fun t' ht => ?_, hr⟩
          cases ht
          exact Eq.trans hmeets hbase
        · intro ⟨hfit, _⟩
          exact (hfit.token t rfl).trans hbase.symm
    | _ => cases h
  | writeEntry =>
    cases o with
    | done =>
      dsimp only [exec] at h
      split at h <;> cases h
      next s t hacct hheld =>
        have hbase := hr.held t hheld
        constructor
        · intro hmeets
          have heq := hmeets (by rw [hacct]; rfl)
          rw [hacct, hbase] at heq
          exact ⟨hn.write (Option.some.inj heq).symm, hr⟩
        · intro ⟨hfit, _⟩ _
          have hissuer : issuer t = s := hfit.stored (s, t) List.mem_cons_self
          rw [hacct, hbase, hissuer]
      next hacct _ =>
        refine iff_of_true (fun hsome => ?_) ⟨hn, hr⟩
        rw [hacct] at hsome
        cases hsome
    | failed =>
      cases h
      exact iff_of_true trivial ⟨hn, hr⟩
    | _ => cases h
  | send =>
    cases o with
    | done =>
      dsimp only [exec] at h
      split at h <;> cases h
      next s t hbase hheld =>
        refine iff_of_true trivial ⟨⟨hn.token, hn.keychain, hn.stored, fun p hp => ?_⟩, hr⟩
        rcases List.mem_cons.mp hp with rfl | hp
        · exact Option.some.inj ((hr.held t hheld).symm.trans hbase)
        · exact hn.sent p hp
    | _ => cases h
  | ask =>
    refine iff_of_true trivial ?_
    cases o with
    | granted t =>
      dsimp only [exec] at h
      split at h <;> cases h
      next hbase => exact ⟨hn, hr.hold hbase⟩
    | _ =>
      cases h
      exact ⟨hn, hr⟩
  | askAt s =>
    refine iff_of_true trivial ?_
    cases o with
    | granted t =>
      dsimp only [exec] at h
      split at h <;> cases h
      next hs =>
        refine ⟨hn, fun t' ht => ?_, hr.found⟩
        cases ht
        exact congrArg some hs
    | failed =>
      cases h
      exact ⟨hn, hr⟩
    | _ => cases h
  | _ => exact absurd rfl hins

end Places

section Runs

variable [DecidableEq σ] {issuer : τ → σ} {w w' : World σ τ} {l : Label σ τ}

theorem goOn_fit {n n' : Session σ τ} {th th' : Thread σ τ} {o : Outcome τ} (hn : Fit issuer n)
    (hr : Own issuer th.regs) (h : th.goOn issuer n o = some (n', th')) :
    ThreadMeets n th o ↔ Fit issuer n' ∧ Own issuer th'.regs := by
  unfold Thread.goOn at h
  unfold ThreadMeets
  split at h
  · cases h
  next hcode =>
    cases h
    rw [hcode]
    exact iff_of_true trivial ⟨hn, hr⟩
  next ins block off hcode =>
    obtain ⟨⟨m, r, code⟩, hexec, heq⟩ := Option.map_eq_some_iff.mp h
    cases heq
    rw [hcode]
    exact exec_fit hn hr hexec

omit [DecidableEq σ] in
/-- The keychain answers with an entry of the account that it was asked for. -/
theorem answered_own {n : Session σ τ} {th th' : Thread σ τ} {works : Bool} (hn : Fit issuer n)
    (hr : Own issuer th.regs) (h : th.answered n works = some th') : Own issuer th'.regs := by
  unfold Thread.answered at h
  split at h <;> cases h
  next s _ hacct _ =>
    refine ⟨hr.held, fun t ht => ?_⟩
    change some (if works then n.keychain s else none) = some (some t) at ht
    have hentry := (Option.ite_none_right_eq_some.mp (Option.some.inj ht)).2
    exact hacct.trans (congrArg some (hn.keychain s t hentry).symm)

/-- A step leaves every token with its server exactly when it is such as the guard says. -/
theorem step_inPlace (h : InPlace issuer w) (hs : step issuer w l = some w') :
    InPlace issuer w' ↔ Guard w l := by
  have others (i : ℕ) (th : Thread σ τ) (hth : Own issuer th.regs) :
      ∀ th' ∈ w.threads.set i th, Own issuer th'.regs := by
    intro th' hmem
    rcases List.mem_or_eq_of_mem_set hmem with hmem | rfl
    · exact h.threads th' hmem
    · exact hth
  cases l with
  | start c =>
    cases hs
    refine iff_of_true ⟨h.now, fun th hth => ?_⟩ trivial
    rcases List.mem_append.mp hth with hth | hth
    · exact h.threads th hth
    · cases List.mem_singleton.mp hth
      exact ⟨fun _ ht => (by cases ht), fun _ ht => (by cases ht)⟩
  | goOn i o =>
    obtain ⟨th, hi, hmap⟩ := Option.bind_eq_some_iff.mp hs
    obtain ⟨⟨n, th'⟩, hgo, rfl⟩ := Option.map_eq_some_iff.mp hmap
    have hiff := goOn_fit h.now (h.threads th (List.mem_of_getElem? hi)) hgo
    have hguard : Guard w (.goOn i o) ↔ ThreadMeets w.now th o := by
      simp [Guard, hi]
    rw [hguard, hiff]
    constructor
    · intro hplace
      obtain ⟨hlt, -⟩ := List.getElem?_eq_some_iff.mp hi
      exact ⟨hplace.now, hplace.threads th' (List.mem_set hlt th')⟩
    · intro ⟨hfit, hown⟩
      exact ⟨hfit, others i th' hown⟩
  | keychain i works =>
    obtain ⟨th, hi, hmap⟩ := Option.bind_eq_some_iff.mp hs
    obtain ⟨th', hth, rfl⟩ := Option.map_eq_some_iff.mp hmap
    have hown := answered_own h.now (h.threads th (List.mem_of_getElem? hi)) hth
    exact iff_of_true ⟨h.now, others i th' hown⟩ trivial

/-- In every run in which a token is only taken, put in memory or stored while the session is,
and was, bound to the server that the command has in mind, every request's token goes to the
server that issued it; and each further step leaves every token with its server exactly when it
is such. -/
theorem tokens_only_to_issuer (hr : Reached (Start issuer) (step issuer) Guard w) :
    OnlyToIssuer issuer w ∧
      ∀ l w', step issuer w l = some w' → (InPlace issuer w' ↔ Guard w l) := by
  have hplace : InPlace issuer w := by
    refine hr.invariant _ (fun w hw => ⟨⟨fun t ht => ?_, fun s t hs => ?_, hw.stored, ?_⟩, ?_⟩)
      fun w l w' h hg hs => (step_inPlace h hs).mpr hg
    · rw [hw.token] at ht
      cases ht
    · exact hw.stored (s, t) (hw.keychain s t hs)
    · rw [hw.sent]
      exact List.forall_mem_nil _
    · rw [hw.threads]
      exact List.forall_mem_nil _
  exact ⟨hplace.only, fun l w' hs => step_inPlace hplace hs⟩

end Runs

section Examples

/-- Server `s` issues the tokens from `10 * s` on; the session is bound to the first, and the
keychain has a token for each of two. -/
def twoServers : World ℕ ℕ where
  now :=
    { serverUrl := some 1, account := some 1, token := none, loaded := false, reading := false,
      keychain := fun s => if s = 1 then some 11 else if s = 2 then some 21 else none,
      boundTo := none, sent := [], stored := [(1, 11), (2, 21)] }
  threads := []

theorem twoServers_start : Start (fun t => t / 10) twoServers := by
  refine ⟨rfl, rfl, rfl, rfl, fun s t hs => ?_, by decide, rfl, rfl⟩
  change (if s = 1 then some 11 else if s = 2 then some 21 else none) = some t at hs
  change (s, t) ∈ [(1, 11), (2, 21)]
  split at hs
  next heq =>
    cases hs
    simp [heq]
  next =>
    obtain ⟨heq, ht⟩ := Option.ite_none_right_eq_some.mp hs
    cases ht
    simp [heq]

/-- A command goes on, where nothing fails. -/
def goesOn (i k : ℕ) : List (Label ℕ ℕ) := List.replicate k (.goOn i .done)

/-- A call, then a switch, then a sign-in at the new server. -/
def inTurn : List (Label ℕ ℕ) :=
  .start .call :: goesOn 0 4 ++ .keychain 0 true :: goesOn 0 8 ++ .start (.setServer 2) ::
    goesOn 1 6 ++ .start .login :: goesOn 2 1 ++ .goOn 2 (.granted 22) :: goesOn 2 9

theorem tokens_only_to_issuer_inTurn : ∃ w, run (step fun t => t / 10) twoServers inTurn = some w ∧
    w.now.sent = [(2, 22), (1, 11)] ∧ OnlyToIssuer (fun t => t / 10) w ∧
      ∀ l w', step (fun t => t / 10) w l = some w' →
        (InPlace (fun t => t / 10) w' ↔ Guard w l) := by
  have hrun : (run (step fun t => t / 10) twoServers inTurn).map (fun w => w.now.sent) =
      some [(2, 22), (1, 11)] := by decide
  obtain ⟨w, h, hsent⟩ := Option.map_eq_some_iff.mp hrun
  exact ⟨w, h, hsent, tokens_only_to_issuer
    ((Reached.start twoServers_start).run inTurn (by decide) h)⟩

/-- A call has read the first server's address when the shell is pointed at the second, and
takes the second's token there. -/
theorem token_to_other_server :
    ¬∀ w : World ℕ ℕ, Reached (Start fun t => t / 10) (step fun t => t / 10) anyStep w →
      OnlyToIssuer (fun t => t / 10) w := by
  intro hall
  have hrun : (run (step fun t => t / 10) twoServers (.start .call :: goesOn 0 1 ++
      .start (.setServer 2) :: goesOn 1 5 ++ goesOn 0 3 ++ .keychain 0 true ::
        goesOn 0 7)).map (fun w => w.now.sent) = some [(1, 21)] := by decide
  obtain ⟨w, h, hsent⟩ := Option.map_eq_some_iff.mp hrun
  have hmem : (1, 21) ∈ w.now.sent := by
    rw [hsent]
    exact List.mem_cons_self
  have hissuer := (hall w ((Reached.start twoServers_start).run_any _ h) (1, 21) hmem).1
  exact absurd hissuer (by decide)

end Examples

end FuryBrowser.SessionTokens
