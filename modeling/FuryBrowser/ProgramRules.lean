import Mathlib.Data.List.Basic

/-!
# Rules for programs with a state and errors

A program of `EStateM` keeps the state it reached when it fails. Two judgements about such programs
compose along `bind`: when exactly a program goes through, with what holds then and what holds of
the state it leaves otherwise; and what it adds to a log in its state, whatever its outcome. So does
a third: that it only changes the state as a relation allows.
-/

namespace FuryBrowser.ProgramRules

universe u

variable {ε σ α β : Type u}

/-- The state a program leaves, whatever its outcome. -/
def leaves (x : EStateM ε σ α) (s : σ) : σ :=
  match x s with
  | .ok _ t => t
  | .error _ t => t

section Fallible

variable {x : Except ε α} {f : α → Except ε β} {a : α} {b : β}

/-- A sequence without a state goes through exactly when its parts do. -/
theorem bind_eq_ok : x >>= f = .ok b ↔ ∃ a, x = .ok a ∧ f a = .ok b := by
  cases x with
  | ok a => exact ⟨fun h => ⟨a, rfl, h⟩, fun ⟨_, hx, hf⟩ => by cases hx; exact hf⟩
  | error e => exact ⟨(nomatch ·), fun ⟨_, hx, _⟩ => nomatch hx⟩

theorem toOption_eq_some : x.toOption = some a ↔ x = .ok a := by
  cases x <;> simp [Except.toOption]

end Fallible

section Runs

variable {s t : σ}

/-- A sequence goes through exactly when its first part does and then its second. -/
theorem run_bind_ok {x : EStateM ε σ α} {f : α → EStateM ε σ β} {b : β} :
    (x >>= f) s = .ok b t ↔ ∃ a mid, x s = .ok a mid ∧ f a mid = .ok b t := by
  change EStateM.bind x f s = _ ↔ _
  unfold EStateM.bind
  cases hx : x s with
  | ok a mid => simp
  | error e mid => simp

theorem run_pure_ok {a b : α} :
    (Pure.pure a : EStateM ε σ α) s = .ok b t ↔ a = b ∧ s = t := by
  change EStateM.Result.ok a s = _ ↔ _
  simp

theorem run_throw_ok {e : ε} {b : α} :
    ¬(MonadExcept.throw e : EStateM ε σ α) s = .ok b t := by
  change ¬EStateM.Result.error e s = _
  simp

end Runs

section Ends

/-- From `s` the program goes through exactly when `good` holds. It ends with a value and a state
that satisfy `post` then, and in a state that satisfies `left` otherwise. -/
def Ends (x : EStateM ε σ α) (s : σ) (good : Prop) (post : α → σ → Prop) (left : σ → Prop) : Prop :=
  match x s with
  | .ok a t => good ∧ post a t
  | .error _ t => ¬good ∧ left t

variable {x : EStateM ε σ α} {s : σ} {good good' : Prop} {post : α → σ → Prop} {left : σ → Prop}

theorem Ends.pure {a : α} (h : post a s) :
    Ends (Pure.pure a : EStateM ε σ α) s True post left :=
  ⟨trivial, h⟩

/-- The two conditions of a sequence are its condition. -/
theorem Ends.bind {f : α → EStateM ε σ β} {after : β → σ → Prop} (hx : Ends x s good post left)
    (good' : Prop) (hf : ∀ a t, good → post a t → Ends (f a) t good' after left) :
    Ends (x >>= f) s (good ∧ good') after left := by
  unfold Ends at hx ⊢
  change match EStateM.bind x f s with
    | .ok a t => (good ∧ good') ∧ after a t
    | .error _ t => ¬(good ∧ good') ∧ left t
  unfold EStateM.bind
  cases hr : x s with
  | ok a t =>
    rw [hr] at hx
    have hrest := hf a t hx.1 hx.2
    unfold Ends at hrest
    dsimp only
    cases hr' : f a t with
    | ok b t' =>
      rw [hr'] at hrest
      exact ⟨⟨hx.1, hrest.1⟩, hrest.2⟩
    | error e t' =>
      rw [hr'] at hrest
      exact ⟨fun h => hrest.1 h.2, hrest.2⟩
  | error e t =>
    rw [hr] at hx
    exact ⟨fun h => hx.1 h.1, hx.2⟩

/-- The same condition in other words, and less said of the outcome. -/
theorem Ends.mono {post' : α → σ → Prop} {left' : σ → Prop} (h : Ends x s good post left)
    (hg : good ↔ good') (hp : ∀ a t, good → post a t → post' a t) (hl : ∀ t, left t → left' t) :
    Ends x s good' post' left' := by
  unfold Ends at h ⊢
  cases hr : x s with
  | ok a t =>
    rw [hr] at h
    exact ⟨hg.mp h.1, hp a t h.1 h.2⟩
  | error e t =>
    rw [hr] at h
    exact ⟨fun hgood => h.1 (hg.mpr hgood), hl t h.2⟩

theorem Ends.congr (h : Ends x s good post left) (hg : good ↔ good') :
    Ends x s good' post left :=
  h.mono hg (fun _ _ _ hpost => hpost) fun _ hleft => hleft

theorem Ends.imp {post' : α → σ → Prop} (h : Ends x s good post left)
    (hp : ∀ a t, good → post a t → post' a t) : Ends x s good post' left :=
  h.mono Iff.rfl hp fun _ hleft => hleft

theorem Ends.imp_left {left' : σ → Prop} (h : Ends x s good post left)
    (hl : ∀ t, left t → left' t) : Ends x s good post left' :=
  h.mono Iff.rfl (fun _ _ _ hpost => hpost) hl

/-- A program goes through exactly under its condition. -/
theorem Ends.ok_iff (h : Ends x s good post left) : (∃ a t, x s = .ok a t) ↔ good := by
  unfold Ends at h
  cases hr : x s with
  | ok a t =>
    rw [hr] at h
    exact ⟨fun _ => h.1, fun _ => ⟨a, t, rfl⟩⟩
  | error e t =>
    rw [hr] at h
    exact ⟨fun ⟨_, _, heq⟩ => (by cases heq), fun hgood => absurd hgood h.1⟩

theorem Ends.of_ok (h : Ends x s good post left) {a : α} {t : σ} (hr : x s = .ok a t) :
    post a t := by
  unfold Ends at h
  rw [hr] at h
  exact h.2

theorem Ends.of_error (h : Ends x s good post left) {e : ε} {t : σ} (hr : x s = .error e t) :
    ¬good ∧ left t := by
  unfold Ends at h
  rwa [hr] at h

end Ends

section Adds

variable {τ : Type u} (log : σ → List τ)

/-- From every state the program adds to the log what `ok` says of it and of its value, or what
`bad` says where it fails. -/
def Adds (x : EStateM ε σ α) (ok : α → List τ → Prop) (bad : List τ → Prop) : Prop :=
  ∀ s, match x s with
    | .ok a t => ∃ more, log t = log s ++ more ∧ ok a more
    | .error _ t => ∃ more, log t = log s ++ more ∧ bad more

variable {log} {x : EStateM ε σ α} {ok ok' : α → List τ → Prop} {bad bad' : List τ → Prop}

theorem Adds.pure {a : α} (h : ok a []) : Adds log (Pure.pure a : EStateM ε σ α) ok bad :=
  fun _ => ⟨[], (List.append_nil _).symm, h⟩

theorem Adds.throw {e : ε} (h : bad []) :
    Adds log (MonadExcept.throw e : EStateM ε σ α) ok bad :=
  fun _ => ⟨[], (List.append_nil _).symm, h⟩

/-- What a sequence adds is what its two parts add. -/
theorem Adds.bind {f : α → EStateM ε σ β} {ok' : β → List τ → Prop} (hx : Adds log x ok bad)
    (hf : ∀ a more, ok a more →
      Adds log (f a) (fun b rest => ok' b (more ++ rest)) (fun rest => bad' (more ++ rest)))
    (hbad : ∀ more, bad more → bad' more) : Adds log (x >>= f) ok' bad' := by
  intro s
  change match EStateM.bind x f s with
    | .ok b t => ∃ more, log t = log s ++ more ∧ ok' b more
    | .error _ t => ∃ more, log t = log s ++ more ∧ bad' more
  unfold EStateM.bind
  have hfirst := hx s
  cases hr : x s with
  | ok a t =>
    rw [hr] at hfirst
    obtain ⟨more, hlog, hok⟩ := hfirst
    have hrest := hf a more hok t
    dsimp only
    cases hr' : f a t with
    | ok b t' =>
      rw [hr'] at hrest
      obtain ⟨rest, hlog', hok'⟩ := hrest
      exact ⟨more ++ rest, by rw [hlog', hlog, List.append_assoc], hok'⟩
    | error e t' =>
      rw [hr'] at hrest
      obtain ⟨rest, hlog', hbad'⟩ := hrest
      exact ⟨more ++ rest, by rw [hlog', hlog, List.append_assoc], hbad'⟩
  | error e t =>
    rw [hr] at hfirst
    obtain ⟨more, hlog, hfail⟩ := hfirst
    exact ⟨more, hlog, hbad more hfail⟩

/-- What follows an error does not happen. -/
theorem Adds.throw_bind {e : ε} {f : β → EStateM ε σ α} (h : bad []) :
    Adds log (MonadExcept.throw e >>= f) ok bad :=
  fun _ => ⟨[], (List.append_nil _).symm, h⟩

theorem Adds.mono (h : Adds log x ok bad) (hok : ∀ a more, ok a more → ok' a more)
    (hbad : ∀ more, bad more → bad' more) : Adds log x ok' bad' := by
  intro s
  have hs := h s
  cases hr : x s with
  | ok a t =>
    rw [hr] at hs
    obtain ⟨more, hlog, hmore⟩ := hs
    exact ⟨more, hlog, hok a more hmore⟩
  | error e t =>
    rw [hr] at hs
    obtain ⟨more, hlog, hmore⟩ := hs
    exact ⟨more, hlog, hbad more hmore⟩

theorem Adds.quiet_bind {f : β → EStateM ε σ α} {x : EStateM ε σ β}
    (hx : Adds log x (fun _ more => more = []) (fun more => more = []))
    (hf : ∀ b, Adds log (f b) ok bad) (hbad : bad []) : Adds log (x >>= f) ok bad := by
  refine hx.bind (fun b more hmore => ?_) (fun more hmore => hmore ▸ hbad)
  subst hmore
  exact hf b

/-- A program that leaves the log alone. -/
theorem Adds.of_same (h : ∀ s, log (leaves x s) = log s) (hok : ∀ a, ok a []) (hbad : bad []) :
    Adds log x ok bad := by
  intro s
  have hs := h s
  unfold leaves at hs
  cases hr : x s with
  | ok a t =>
    rw [hr] at hs
    exact ⟨[], by rw [List.append_nil]; exact hs, hok a⟩
  | error e t =>
    rw [hr] at hs
    exact ⟨[], by rw [List.append_nil]; exact hs, hbad⟩

/-- What is added whatever the outcome. -/
theorem Adds.leaves {always : List τ → Prop} (h : Adds log x (fun _ => always) always) (s : σ) :
    ∃ more, log (leaves x s) = log s ++ more ∧ always more := by
  have hs := h s
  unfold ProgramRules.leaves
  cases hr : x s with
  | ok a t =>
    rw [hr] at hs
    exact hs
  | error e t =>
    rw [hr] at hs
    exact hs

end Adds

end FuryBrowser.ProgramRules
