import FuryBrowser.TouchEmulator

/-!
# One gesture at a time is a screen's

As long as no gesture begins beside another, and each goes on in the view it began in, what
the emulator makes of the mouse, the wheel and the touchpad is what a screen produces. The
fingers that are down belong to the button, to the wheel or to a pinch, and each of these
still has its end to come.
-/

namespace FuryBrowser.TouchEmulator

open GuardedRuns TouchScreen

variable {V : Type} [DecidableEq V]

/-- The fingers of a gesture. -/
inductive Hand (V : Type)
  | none
  /-- The button's, or the wheel's. -/
  | one (view : V)
  | two (view : V)

/-- The fingers, the last one first. -/
def Hand.fingers : Hand V → List (ℕ × V)
  | .none => []
  | .one v => [(0, v)]
  | .two v => [(1, v), (0, v)]

/-- The fingers that are down, and what each of the devices still owes. -/
structure Holds (w : World V) (hand : Hand V) (lost : Bool) : Prop where
  /-- The stream is a screen's. -/
  screen : w.screen = some ⟨hand.fingers, lost⟩
  /-- After a view is lost nothing is down. -/
  gone : lost = true → hand = .none
  /-- One finger is the button's or the wheel's. -/
  one : ∀ v, hand = .one v → w.pinching = false ∧ w.held = !w.wheelDown
  /-- Two are of a pinch that ends. -/
  two : ∀ v, hand = .two v → w.pinching = true ∧ (w.pad = true ∨ w.pinchTimer = true)
  /-- The wheel's finger is lifted by its timer. -/
  wheel : w.wheelDown = true → w.wheelTimer = true ∧ w.held = false ∧ w.pinching = false ∧
    w.mousePressed = true ∧ w.wheelView ≠ Option.none
  /-- While the button is held, there is no pinch. -/
  button : w.held = true → w.pinching = false ∧ w.mousePressed = true
  /-- A gesture has its fingers down, unless they were lost with their view. -/
  kept : w.held = true ∨ w.wheelDown = true ∨ w.pinching = true → hand ≠ .none ∨ lost = true

variable {w : World V} {hand : Hand V} {lost : Bool} {v : V}

section Screens

theorem screen_emit (w : World V) (e : Entry V) :
    (w.emit e).screen = w.screen.bind fun s => s.step e :=
  after_append w.log e

theorem screen_down (h : w.screen = some ⟨[], lost⟩) :
    (w.handleMouseEvent .down v).screen = some ⟨[(0, v)], false⟩ := by
  have hemit : (w.handleMouseEvent .down v).screen = (w.emit (.start 0 v)).screen := rfl
  rw [hemit, screen_emit, h]
  exact start_first lost

/-- The finger is in the view, or was lost. -/
def Lies (hand : Hand V) (lost : Bool) (v : V) : Prop :=
  hand = .one v ∧ lost = false ∨ hand = .none ∧ lost = true

theorem screen_move (h : w.screen = some ⟨hand.fingers, lost⟩) (hl : Lies hand lost v) :
    (w.handleMouseEvent .move v).screen = some ⟨hand.fingers, lost⟩ := by
  have hemit : (w.handleMouseEvent .move v).screen = (w.emit (.move [0] v)).screen := rfl
  rw [hemit, screen_emit, h]
  rcases hl with ⟨rfl, rfl⟩ | ⟨rfl, rfl⟩
  · exact move_first
  · exact move_lost [0] v

theorem screen_up (h : w.screen = some ⟨hand.fingers, lost⟩) (hl : Lies hand lost v) :
    (w.handleMouseEvent .up v).screen = some ⟨[], lost⟩ := by
  have hemit : (w.handleMouseEvent .up v).screen = (w.emit (.finish 0 v)).screen := rfl
  rw [hemit, screen_emit, h]
  rcases hl with ⟨rfl, rfl⟩ | ⟨rfl, rfl⟩
  · exact finish_first
  · exact finish_lost 0 v

theorem screen_pinch (s : Bool) (hp : w.pinching = false) (h : w.screen = some ⟨[], lost⟩) :
    (w.furyPinchBy s v).screen = some ⟨(Hand.two v).fingers, false⟩ := by
  have hthree : (((w.emit (.start 0 v)).emit (.start 1 v)).emit (.move [0, 1] v)).screen =
      some ⟨[(1, v), (0, v)], false⟩ := by
    rw [screen_emit, screen_emit, screen_emit, h, Option.bind_some, start_first,
      Option.bind_some, start_second, Option.bind_some, move_both]
  have hscreen : (w.furyPinchBy s v).screen =
      if s then ((((w.emit (.start 0 v)).emit (.start 1 v)).emit (.move [0, 1] v)).emit
        (.move [0, 1] v)).screen
      else (((w.emit (.start 0 v)).emit (.start 1 v)).emit (.move [0, 1] v)).screen := by
    cases s <;> simp [World.furyPinchBy, hp] <;> rfl
  rw [hscreen, screen_emit, hthree, Option.bind_some, move_both]
  cases s <;> rfl

/-- Both fingers are in the view, or were lost. -/
def LieBoth (hand : Hand V) (lost : Bool) (v : V) : Prop :=
  hand = .two v ∧ lost = false ∨ hand = .none ∧ lost = true

theorem screen_pinchMove (s : Bool) (hp : w.pinching = true)
    (h : w.screen = some ⟨hand.fingers, lost⟩) (hl : LieBoth hand lost v) :
    (w.furyPinchBy s v).screen = some ⟨hand.fingers, lost⟩ := by
  have hemit : (w.furyPinchBy s v).screen = (w.emit (.move [0, 1] v)).screen := by
    simp [World.furyPinchBy, hp]
  rw [hemit, screen_emit, h]
  rcases hl with ⟨rfl, rfl⟩ | ⟨rfl, rfl⟩
  · exact move_both
  · exact move_lost [0, 1] v

theorem screen_pinchEnd (hp : w.pinching = true) (h : w.screen = some ⟨hand.fingers, lost⟩)
    (hl : LieBoth hand lost v) : (w.furyPinchEnd (some v)).screen = some ⟨[], lost⟩ := by
  have hemit : (w.furyPinchEnd (some v)).screen =
      ((w.emit (.finish 1 v)).emit (.finish 0 v)).screen := by
    simp [World.furyPinchEnd, hp]
    rfl
  rw [hemit, screen_emit, screen_emit, h, Option.bind_some]
  rcases hl with ⟨rfl, rfl⟩ | ⟨rfl, rfl⟩
  · rw [Hand.fingers, finish_second, Option.bind_some, finish_first]
  · rw [Hand.fingers, finish_lost, Option.bind_some, finish_lost]

end Screens

section Steps

/-- The fingers that are down in a view are all there are. -/
theorem lies_of_on (h : Holds w hand lost) (hon : w.On v) (hp : w.pinching = false)
    (hkept : w.held = true ∨ w.wheelDown = true) : Lies hand lost v := by
  have hfingers : w.fingers = hand.fingers := by simp [World.fingers, h.screen]
  cases hand with
  | none => exact .inr ⟨rfl, (h.kept (hkept.imp_right .inl)).resolve_left (absurd rfl)⟩
  | one u =>
    have hu : u = v := hon (0, u) (by rw [hfingers]; exact List.mem_singleton_self _)
    have hlost : lost = false := Bool.eq_false_iff.mpr fun hl => nomatch h.gone hl
    exact .inl ⟨by rw [hu], hlost⟩
  | two u => exact absurd (h.two u rfl).1 (by simp [hp])

theorem lieBoth_of_on (h : Holds w hand lost) (hon : w.On v) (hp : w.pinching = true) :
    LieBoth hand lost v := by
  have hfingers : w.fingers = hand.fingers := by simp [World.fingers, h.screen]
  cases hand with
  | none => exact .inr ⟨rfl, (h.kept (.inr (.inr hp))).resolve_left (absurd rfl)⟩
  | one u => exact absurd (h.one u rfl).1 (by simp [hp])
  | two u =>
    have hu : u = v := hon (0, u) (by rw [hfingers]; simp [Hand.fingers])
    have hlost : lost = false := Bool.eq_false_iff.mpr fun hl => nomatch h.gone hl
    exact .inl ⟨by rw [hu], hlost⟩

/-- With no gesture under way, no finger is down. -/
theorem hand_none (h : Holds w hand lost) (hheld : w.held = false) (hwheel : w.wheelDown = false)
    (hp : w.pinching = false) : hand = .none := by
  cases hand with
  | none => rfl
  | one u => simpa [hheld, hwheel] using (h.one u rfl).2
  | two u => simpa [hp] using (h.two u rfl).1

/-- The fingers that a step leaves: no more than there were, where there were some. -/
def Fewer (hand hand' : Hand V) : Prop :=
  hand.fingers ≠ [] → hand'.fingers.length ≤ hand.fingers.length

theorem holds_press (h : Holds w hand lost) (hheld : w.held = false)
    (hg : Guard w (.press v)) :
    Holds { w.handleMouseEvent .down v with held := true } (.one v) false ∧
      Fewer hand (.one v) := by
  obtain ⟨hwheel, hp⟩ := hg
  obtain rfl := hand_none h hheld hwheel hp
  refine ⟨⟨screen_down h.screen, nofun, ?_, nofun, ?_, ?_, ?_⟩, fun hne => absurd rfl hne⟩
  · rintro u -
    exact ⟨hp, by simp [World.handleMouseEvent, World.emit, hwheel]⟩
  · intro hw
    simp [World.handleMouseEvent, World.emit, hwheel] at hw
  · rintro -
    exact ⟨hp, rfl⟩
  · exact fun _ => .inl nofun

omit [DecidableEq V] in
theorem Fewer.refl (hand : Hand V) : Fewer hand hand := fun _ => Nat.le_refl _

omit [DecidableEq V] in
theorem Fewer.none (hand : Hand V) : Fewer hand .none := fun _ => Nat.zero_le _

theorem holds_drag (h : Holds w hand lost) (hheld : w.held = true) (hon : w.On v) :
    Holds (w.handleMouseEvent .move v) hand lost := by
  obtain ⟨hp, -⟩ := h.button hheld
  have hscreen := screen_move h.screen (lies_of_on h hon hp (.inl hheld))
  exact ⟨hscreen, h.gone, h.one, h.two, fun hw => absurd hheld (by simp [(h.wheel hw).2.1]),
    h.button, h.kept⟩

theorem holds_release (h : Holds w hand lost) (hheld : w.held = true) (hon : w.On v) :
    Holds { w.handleMouseEvent .up v with held := false } .none lost := by
  obtain ⟨hp, -⟩ := h.button hheld
  have hwheel : w.wheelDown = false :=
    Bool.eq_false_iff.mpr fun hw => by simp [(h.wheel hw).2.1] at hheld
  refine ⟨screen_up h.screen (lies_of_on h hon hp (.inl hheld)), fun _ => rfl, nofun, nofun, ?_,
    nofun, ?_⟩
  · intro hw
    simp [World.handleMouseEvent, World.emit, hwheel] at hw
  · rintro (hx | hx | hx)
    · cases hx
    · simp [World.handleMouseEvent, World.emit, hwheel] at hx
    · simp [World.handleMouseEvent, World.emit, hp] at hx

theorem holds_hover (h : Holds w hand lost) :
    Holds { w with wheelView := some v } hand lost :=
  ⟨h.screen, h.gone, h.one, h.two,
    fun hw => ⟨(h.wheel hw).1, (h.wheel hw).2.1, (h.wheel hw).2.2.1, (h.wheel hw).2.2.2.1, nofun⟩,
    h.button, h.kept⟩

section Pinches

omit [DecidableEq V] in
/-- A pinch changes its own flag, and the stream. -/
theorem furyPinchBy_eq (w : World V) (s : Bool) (v : V) :
    w.furyPinchBy s v = { w with pinching := true, log := (w.furyPinchBy s v).log } := by
  unfold World.furyPinchBy
  split
  next hp => simp [World.emit, ← hp]
  next => cases s <;> rfl

omit [DecidableEq V] in
/-- The timer may as well be started first. -/
theorem furyPinchBy_timer (w : World V) (s : Bool) (v : V) :
    { w.furyPinchBy s v with pinchTimer := true } =
      { w with pinchTimer := true }.furyPinchBy s v := by
  obtain ⟨pressed, view, wheelDown, timer, pinching, pinchTimer, held, pad, log⟩ := w
  cases pinching <;> cases s <;> rfl

/-- A pinch that is due to end goes on, or begins where no gesture is under way. -/
theorem holds_pinchBy (h : Holds w hand lost) (s : Bool)
    (hg : if w.pinching then w.On v else w.held = false ∧ w.wheelDown = false)
    (hdue : w.pad = true ∨ w.pinchTimer = true) :
    ∃ hand' lost', Holds (w.furyPinchBy s v) hand' lost' ∧ Fewer hand hand' := by
  have heq := furyPinchBy_eq w s v
  cases hp : w.pinching with
  | true =>
    have hscreen := screen_pinchMove s hp h.screen
      (lieBoth_of_on h (by simpa [hp] using hg) hp)
    rw [heq] at hscreen ⊢
    refine ⟨hand, lost, ⟨hscreen, h.gone, ?_, ?_, ?_, ?_, ?_⟩, Fewer.refl hand⟩
    · exact fun u hu => absurd (h.one u hu).1 (by simp [hp])
    · exact fun u hu => ⟨rfl, hdue⟩
    · exact fun hw => absurd (h.wheel hw).2.2.1 (by simp [hp])
    · exact fun hheld => absurd (h.button hheld).1 (by simp [hp])
    · exact fun _ => h.kept (.inr (.inr hp))
  | false =>
    obtain ⟨hheld, hwheel⟩ : w.held = false ∧ w.wheelDown = false := by simpa [hp] using hg
    obtain rfl := hand_none h hheld hwheel hp
    have hscreen := screen_pinch (v := v) s hp h.screen
    rw [heq] at hscreen ⊢
    refine ⟨.two v, false, ⟨hscreen, nofun, nofun, ?_, ?_, ?_, ?_⟩, fun hne => absurd rfl hne⟩
    · exact fun _ _ => ⟨rfl, hdue⟩
    · exact fun hw => absurd hw (by simp [hwheel])
    · exact fun hx => absurd hx (by simp [hheld])
    · exact fun _ => .inl nofun

theorem holds_pad (h : Holds w hand lost) : Holds { w with pad := true } hand lost :=
  ⟨h.screen, h.gone, h.one, fun u hu => ⟨(h.two u hu).1, .inl rfl⟩, h.wheel, h.button, h.kept⟩

theorem holds_pinchTimer (h : Holds w hand lost) : Holds { w with pinchTimer := true } hand lost :=
  ⟨h.screen, h.gone, h.one, fun u hu => ⟨(h.two u hu).1, .inr rfl⟩, h.wheel, h.button, h.kept⟩

omit [DecidableEq V] in
/-- The end of a pinch changes its flag, its timer and the stream. -/
theorem furyPinchEnd_eq (w : World V) (view : Option V) :
    w.furyPinchEnd view =
      { w with pinching := false, pinchTimer := false, log := (w.furyPinchEnd view).log } := by
  unfold World.furyPinchEnd
  cases view with
  | none => rfl
  | some v =>
    dsimp only
    split
    next => rfl
    next hp =>
      have hp : w.pinching = false := by simpa using hp
      simp [← hp]

omit [DecidableEq V] in
theorem furyPinchEnd_pad (w : World V) (view : Option V) (pad : Bool) :
    { w with pad := pad }.furyPinchEnd view = { w.furyPinchEnd view with pad := pad } := by
  obtain ⟨pressed, wheelView, wheelDown, timer, pinching, pinchTimer, held, _, log⟩ := w
  cases pinching <;> cases view <;> rfl

/-- A pinch ends, by the touchpad or by its timer. -/
theorem holds_pinchEnd (h : Holds w hand lost) (view : Option V) (pad : Bool)
    (hg : w.pinching = true → match view with
      | some v => w.On v
      | none => w.fingers = []) :
    ∃ hand', Holds ({ w with pad := pad }.furyPinchEnd view) hand' lost ∧ Fewer hand hand' := by
  rw [furyPinchEnd_pad]
  cases hp : w.pinching with
  | true =>
    have hwheel : w.wheelDown = false :=
      Bool.eq_false_iff.mpr fun hw => by simp [(h.wheel hw).2.2.1] at hp
    have hheld : w.held = false :=
      Bool.eq_false_iff.mpr fun hx => by simp [(h.button hx).1] at hp
    have hscreen : (w.furyPinchEnd view).screen = some ⟨[], lost⟩ := by
      cases view with
      | some v => exact screen_pinchEnd hp h.screen (lieBoth_of_on h (hg hp) hp)
      | none =>
        have hnone : w.fingers = [] := hg hp
        have hfingers : hand.fingers = [] := by rw [← hnone]; simp [World.fingers, h.screen]
        rw [← hfingers]
        exact h.screen
    rw [furyPinchEnd_eq] at hscreen ⊢
    refine ⟨.none, ⟨hscreen, fun _ => rfl, nofun, nofun, ?_, ?_, ?_⟩, Fewer.none hand⟩
    · exact fun hw => absurd hw (by simp [hwheel])
    · exact fun hx => absurd hx (by simp [hheld])
    · simp [hheld, hwheel]
  | false =>
    have hlog : (w.furyPinchEnd view).log = w.log := by
      cases view <;> simp [World.furyPinchEnd, hp]
    rw [furyPinchEnd_eq, hlog]
    refine ⟨hand, ⟨h.screen, h.gone, ?_, ?_, ?_, ?_, ?_⟩, Fewer.refl hand⟩
    · exact fun u hu => ⟨rfl, (h.one u hu).2⟩
    · exact fun u hu => absurd (h.two u hu).1 (by simp [hp])
    · exact fun hw => ⟨(h.wheel hw).1, (h.wheel hw).2.1, rfl, (h.wheel hw).2.2.2⟩
    · exact fun hx => ⟨rfl, (h.button hx).2⟩
    · exact fun hx => h.kept (by simpa [hp] using hx)

end Pinches

section Wheel

theorem holds_wheelTimer (h : Holds w hand lost) : Holds { w with wheelTimer := true } hand lost :=
  ⟨h.screen, h.gone, h.one, h.two, fun hw => ⟨rfl, (h.wheel hw).2⟩, h.button, h.kept⟩

theorem holds_wheelStart (h : Holds w .none lost) (hp : w.pinching = false)
    (hheld : w.held = false) (htimer : w.wheelTimer = true) :
    Holds { w.handleMouseEvent .down v with wheelDown := true } (.one v) false := by
  refine ⟨screen_down h.screen, nofun, ?_, nofun, ?_, ?_, fun _ => .inl nofun⟩
  · exact fun _ _ => ⟨hp, hheld⟩
  · exact fun _ => ⟨htimer, hheld, hp, rfl, nofun⟩
  · exact fun hx => absurd hheld (by simpa [World.handleMouseEvent, World.emit] using hx)

theorem holds_wheelAgain (h : Holds w hand lost) (hw : w.wheelDown = true)
    (hl : Lies hand lost v) :
    Holds ((w.handleMouseEvent .up v).handleMouseEvent .down v) (.one v) false := by
  obtain ⟨htimer, hheld, hp, -, -⟩ := h.wheel hw
  refine ⟨screen_down (screen_up h.screen hl), nofun, ?_, nofun, ?_, ?_, fun _ => .inl nofun⟩
  · exact fun _ _ => ⟨hp, by simp [World.handleMouseEvent, World.emit, hheld, hw]⟩
  · exact fun _ => ⟨htimer, hheld, hp, rfl, nofun⟩
  · exact fun hx => absurd hheld (by simpa [World.handleMouseEvent, World.emit] using hx)

theorem holds_wheelMove (h : Holds w hand lost) (hw : w.wheelDown = true)
    (hl : Lies hand lost v) : Holds (w.handleMouseEvent .move v) hand lost := by
  obtain ⟨htimer, hheld, hp, hpressed, -⟩ := h.wheel hw
  exact ⟨screen_move h.screen hl, h.gone, h.one, h.two,
    fun _ => ⟨htimer, hheld, hp, hpressed, nofun⟩, h.button, h.kept⟩

omit [DecidableEq V] in
/-- The timer may as well be started first. -/
theorem furyWheelFinger_timer (w : World V) (far : Bool) (v : V) :
    w.furyWheelFinger far v = { w with wheelTimer := true }.furyWheelFinger far v := by
  obtain ⟨pressed, view, wheelDown, timer, pinching, pinchTimer, held, pad, log⟩ := w
  cases wheelDown <;> cases far <;> rfl

theorem holds_wheelFinger (h : Holds w hand lost) (far : Bool) (hp : w.pinching = false)
    (hheld : w.held = false) (hg : w.wheelDown = true → w.On v) :
    ∃ hand' lost', Holds (w.furyWheelFinger far v) hand' lost' ∧ Fewer hand hand' := by
  have htimed := holds_wheelTimer h
  have heq : w.furyWheelFinger far v = { w with wheelTimer := true }.furyWheelFinger far v :=
    furyWheelFinger_timer w far v
  -- The finger goes down, or it is down: in both cases it lies in the view.
  have hdown : ∃ w₁ hand₁ lost₁, Holds w₁ hand₁ lost₁ ∧ w₁.wheelDown = true ∧
      Lies hand₁ lost₁ v ∧ Fewer hand hand₁ ∧ (hand = .none ∨ hand = .one v) ∧
      w.furyWheelFinger far v =
        (if far then (w₁.handleMouseEvent .up v).handleMouseEvent .down v
          else w₁).handleMouseEvent .move v := by
    cases hw : w.wheelDown with
    | true =>
      have hlies := lies_of_on h (hg hw) hp (.inr hw)
      refine ⟨{ w with wheelTimer := true }, hand, lost, htimed, hw, hlies, Fewer.refl hand, ?_, ?_⟩
      · rcases hlies with ⟨hone, -⟩ | ⟨hnone, -⟩
        · exact .inr hone
        · exact .inl hnone
      · rw [heq, World.furyWheelFinger, if_pos hw]
        cases far <;> rfl
    | false =>
      obtain rfl := hand_none h hheld hw hp
      have hup : ¬w.wheelDown = true := by simp [hw]
      refine ⟨_, _, _, holds_wheelStart htimed hp hheld rfl, rfl, .inl ⟨rfl, rfl⟩,
        fun hne => absurd rfl hne, .inl rfl, ?_⟩
      rw [heq, World.furyWheelFinger, if_neg hup]
      cases far <;> rfl
  obtain ⟨w₁, hand₁, lost₁, h₁, hw₁, hl₁, hfewer, hshape, hfinger⟩ := hdown
  rw [hfinger]
  cases far with
  | true =>
    refine ⟨_, _, holds_wheelMove (holds_wheelAgain h₁ hw₁ hl₁) hw₁ (.inl ⟨rfl, rfl⟩), ?_⟩
    intro hne
    rcases hshape with rfl | rfl
    · exact absurd rfl hne
    · exact Nat.le_refl _
  | false => exact ⟨_, _, holds_wheelMove h₁ hw₁ hl₁, hfewer⟩

theorem holds_wheel (h : Holds w hand lost) (event : WheelEvent)
    (hg : Guard w (.wheel event)) :
    ∃ hand' lost', Holds (w.handleMouseWheelEvent event) hand' lost' ∧ Fewer hand hand' := by
  unfold World.handleMouseWheelEvent
  split
  next => exact ⟨hand, lost, h, Fewer.refl hand⟩
  next hpressed =>
    have hpressed : (w.mousePressed && !w.wheelDown) = false := by simpa using hpressed
    split
    next => exact ⟨hand, lost, h, Fewer.refl hand⟩
    next hmomentum =>
      have hmomentum : event.momentum = false := by simpa using hmomentum
      cases hview : w.wheelView with
      | none => exact ⟨hand, lost, h, Fewer.refl hand⟩
      | some view =>
        have hguard := hg view hview hpressed hmomentum
        have hheld : w.held = false := by
          refine Bool.eq_false_iff.mpr fun hx => ?_
          have hdown : w.wheelDown = false :=
            Bool.eq_false_iff.mpr fun hw => by simp [(h.wheel hw).2.1] at hx
          simp [(h.button hx).2, hdown] at hpressed
        cases hcontrol : event.control with
        | true =>
          simp only [hcontrol, if_true] at hguard
          cases hw : w.wheelDown with
          | true => exact ⟨hand, lost, h, Fewer.refl hand⟩
          | false =>
            simp only [if_true, Bool.false_eq_true, if_false, furyPinchBy_timer]
            refine holds_pinchBy (holds_pinchTimer h) event.scaled ?_ (.inr rfl)
            cases hp : w.pinching with
            | true => exact hguard hw hp
            | false => exact ⟨hheld, hw⟩
        | false =>
          simp only [hcontrol, Bool.false_eq_true, if_false] at hguard ⊢
          exact holds_wheelFinger h event.far hguard.1 hheld hguard.2

theorem holds_wheelLift (h : Holds w hand lost) (hg : Guard w (.wheelLift : Label V)) :
    ∃ hand', Holds w.wheelLifts hand' lost ∧ Fewer hand hand' := by
  unfold World.wheelLifts
  cases hview : w.wheelView with
  | none =>
    have hw : w.wheelDown = false :=
      Bool.eq_false_iff.mpr fun hw => (h.wheel hw).2.2.2.2 hview
    refine ⟨hand, ⟨h.screen, h.gone, ?_, h.two, nofun, h.button, ?_⟩, Fewer.refl hand⟩
    · exact fun u hu => ⟨(h.one u hu).1, by simpa [hw] using (h.one u hu).2⟩
    · exact fun hx => h.kept (by simpa [hw] using hx)
  | some view =>
    cases hw : w.wheelDown with
    | false =>
      simp only [Bool.false_eq_true, if_false]
      refine ⟨hand, ⟨h.screen, h.gone, ?_, h.two, nofun, h.button, ?_⟩, Fewer.refl hand⟩
      · exact fun u hu => ⟨(h.one u hu).1, by simpa [hw] using (h.one u hu).2⟩
      · exact fun hx => h.kept (by simpa [hw] using hx)
    | true =>
      obtain ⟨-, hheld, hp, -, -⟩ := h.wheel hw
      have hlies := lies_of_on h (hg view hview hw) hp (.inr hw)
      simp only [if_true]
      refine ⟨.none, ⟨screen_up h.screen hlies, fun _ => rfl, nofun, nofun, nofun, ?_, ?_⟩,
        Fewer.none hand⟩
      · exact fun hx => absurd hheld (by simpa [World.handleMouseEvent, World.emit] using hx)
      · simp [World.handleMouseEvent, World.emit, hheld, hp]

end Wheel

section Views

/-- The fingers that are left when a view is destroyed. -/
theorem screen_destroyed (h : w.screen = some ⟨hand.fingers, lost⟩) (v : V) :
    ∃ hand' lost', (w.emit (.destroyed v)).screen = some ⟨hand'.fingers, lost'⟩ ∧
      (hand' = hand ∧ lost' = lost ∧ hand ≠ .one v ∨ hand' = .none ∧ lost' = true) := by
  rw [screen_emit, h, Option.bind_some]
  by_cases hv : v ∈ hand.fingers.map Prod.snd
  · refine ⟨.none, true, ?_, .inr ⟨rfl, rfl⟩⟩
    have hnone : hand.fingers.filter (·.2 ≠ v) = [] := by
      cases hand with
      | none => rfl
      | one u =>
        obtain rfl : v = u := by simpa [Hand.fingers] using hv
        simp [Hand.fingers]
      | two u =>
        obtain rfl : v = u := by simpa [Hand.fingers] using hv
        simp [Hand.fingers]
    rw [Screen.step, if_pos hv, hnone]
    rfl
  · refine ⟨hand, lost, by rw [Screen.step, if_neg hv], .inl ⟨rfl, rfl, ?_⟩⟩
    rintro rfl
    exact hv (List.mem_singleton_self v)

theorem holds_destroyed (h : Holds w hand lost) (hg : Guard w (.destroyed v)) :
    ∃ hand' lost', Holds (w.onViewDestroyed v) hand' lost' ∧ Fewer hand hand' := by
  obtain ⟨hand', lost', hscreen, hshape⟩ := screen_destroyed h.screen v
  have hgone : lost' = true → hand' = .none := by
    rcases hshape with ⟨rfl, rfl, -⟩ | ⟨rfl, -⟩
    · exact h.gone
    · exact fun _ => rfl
  have hfewer : Fewer hand hand' := by
    rcases hshape with ⟨rfl, -, -⟩ | ⟨rfl, -⟩
    · exact Fewer.refl hand'
    · exact Fewer.none hand
  have htwo : ∀ u, hand' = .two u → w.pinching = true ∧ (w.pad = true ∨ w.pinchTimer = true) := by
    rcases hshape with ⟨rfl, -, -⟩ | ⟨rfl, -⟩
    · exact h.two
    · exact nofun
  have hone : ∀ u, hand' = .one u → hand = .one u ∧ hand ≠ .one v := by
    rcases hshape with ⟨rfl, -, hne⟩ | ⟨rfl, -⟩
    · exact fun u hu => ⟨hu, hne⟩
    · exact nofun
  have hkept : hand ≠ .none ∨ lost = true → hand' ≠ .none ∨ lost' = true := by
    rcases hshape with ⟨rfl, rfl, -⟩ | ⟨-, rfl⟩
    · exact id
    · exact fun _ => .inr rfl
  unfold World.onViewDestroyed
  by_cases hview : w.wheelView = some v
  · -- The wheel's view: its finger, if it has one, is in it and goes with it.
    have hwheel : ∀ u, hand = .one u → hand ≠ .one v → w.wheelDown = false := by
      intro u hu hne
      refine Bool.eq_false_iff.mpr fun hw => ?_
      rcases lies_of_on h (hg hview hw) (h.wheel hw).2.2.1 (.inr hw) with ⟨hv, -⟩ | ⟨hv, -⟩
      · exact hne hv
      · rw [hu] at hv
        cases hv
    rw [if_pos hview]
    refine ⟨hand', lost', ⟨hscreen, hgone, ?_, htwo, nofun, h.button, ?_⟩, hfewer⟩
    · intro u hu
      obtain ⟨hsame, hne⟩ := hone u hu
      have hpair := h.one u hsame
      rw [hwheel u hsame hne] at hpair
      exact hpair
    · rintro (hx | hx | hx)
      · exact hkept (h.kept (.inl hx))
      · cases hx
      · exact hkept (h.kept (.inr (.inr hx)))
  · rw [if_neg hview]
    exact ⟨hand', lost', ⟨hscreen, hgone, fun u hu => h.one u (hone u hu).1, htwo, h.wheel,
      h.button, fun hx => hkept (h.kept hx)⟩, hfewer⟩

end Views

/-- One step: its fingers, and what is still owed. -/
theorem holds_step {w' : World V} {label : Label V} (h : Holds w hand lost)
    (hg : Guard w label) (hs : w.step label = some w') :
    ∃ hand' lost', Holds w' hand' lost' ∧ Fewer hand hand' := by
  cases label with
  | press v =>
    simp only [World.step, Option.ite_none_left_eq_some, Bool.not_eq_true, Option.some.injEq] at hs
    obtain ⟨hheld, rfl⟩ := hs
    exact ⟨_, _, holds_press h hheld hg⟩
  | drag v =>
    simp only [World.step, Option.ite_none_right_eq_some, Option.some.injEq] at hs
    obtain ⟨hheld, rfl⟩ := hs
    exact ⟨_, _, holds_drag h hheld hg, Fewer.refl hand⟩
  | release v =>
    simp only [World.step, Option.ite_none_right_eq_some, Option.some.injEq] at hs
    obtain ⟨hheld, rfl⟩ := hs
    exact ⟨_, _, holds_release h hheld hg, Fewer.none hand⟩
  | hover v =>
    obtain rfl : _ = w' := Option.some.inj hs
    exact ⟨_, _, holds_hover h, Fewer.refl hand⟩
  | wheel event =>
    obtain rfl : _ = w' := Option.some.inj hs
    exact holds_wheel h event hg
  | wheelLift =>
    simp only [World.step, Option.ite_none_right_eq_some, Option.some.injEq] at hs
    obtain ⟨-, rfl⟩ := hs
    obtain ⟨hand', h', hfewer⟩ := holds_wheelLift h hg
    exact ⟨hand', lost, h', hfewer⟩
  | pinchBegin v =>
    simp only [World.step, Option.ite_none_left_eq_some] at hs
    obtain ⟨-, hs⟩ := hs
    split at hs
    next =>
      obtain rfl : _ = w' := Option.some.inj hs
      exact ⟨_, _, holds_pad h, Fewer.refl hand⟩
    next hfree =>
      obtain rfl : _ = w' := Option.some.inj hs
      obtain ⟨hpressed, hwheel⟩ : w.mousePressed = false ∧ w.wheelDown = false := by
        simpa using hfree
      refine holds_pinchBy (holds_pad h) false ?_ (.inl rfl)
      cases hp : w.pinching with
      | true => exact hg hp
      | false =>
        have hheld : w.held = false :=
          Bool.eq_false_iff.mpr fun hx => by simp [(h.button hx).2] at hpressed
        exact ⟨hheld, hwheel⟩
  | pinchUpdate scaled v =>
    simp only [World.step, Option.ite_none_right_eq_some, Option.some.injEq] at hs
    obtain ⟨hpad, rfl⟩ := hs
    exact holds_pinchBy h scaled hg (.inl hpad)
  | pinchEnd v =>
    simp only [World.step, Option.ite_none_right_eq_some, Option.some.injEq] at hs
    obtain ⟨-, rfl⟩ := hs
    obtain ⟨hand', h', hfewer⟩ := holds_pinchEnd h (some v) false hg
    exact ⟨hand', lost, h', hfewer⟩
  | pinchLift =>
    simp only [World.step, Option.ite_none_right_eq_some, Option.some.injEq] at hs
    obtain ⟨-, rfl⟩ := hs
    obtain ⟨hand', h', hfewer⟩ := holds_pinchEnd h w.wheelView w.pad hg
    exact ⟨hand', lost, h', hfewer⟩
  | destroyed v =>
    obtain rfl : _ = w' := Option.some.inj hs
    exact holds_destroyed h hg

end Steps

/-- Of an enabled emulator nothing is owed. -/
theorem holds_enabled : Holds (enabled : World V) .none false :=
  ⟨rfl, fun _ => rfl, nofun, nofun, nofun, nofun, by simp [enabled]⟩

theorem holds_run {w : World V} (hr : Reached Start World.step Guard w) :
    ∃ hand lost, Holds w hand lost := by
  refine hr.invariant (fun w => ∃ hand lost, Holds w hand lost) ?_ ?_
  · rintro w rfl
    exact ⟨_, _, holds_enabled⟩
  · rintro w label w' ⟨hand, lost, h⟩ hg hs
    obtain ⟨hand', lost', h', -⟩ := holds_step h hg hs
    exact ⟨hand', lost', h'⟩

theorem fingers_atRest (h : Holds w hand lost) (hrest : w.AtRest) : hand = .none := by
  obtain ⟨hheld, htimer, hpinchTimer, hpad⟩ := hrest
  cases hand with
  | none => rfl
  | one v =>
    have hwheel : w.wheelDown = true := by simpa [hheld] using (h.one v rfl).2
    simpa [htimer] using (h.wheel hwheel).1
  | two v => simpa [hpad, hpinchTimer] using (h.two v rfl).2

/-- In every run of one gesture at a time, each in the view it began in: what the page sees is
a screen's, no finger is down when all is at rest, and no step adds a finger to one that is. -/
theorem touches_are_a_screens {w : World V} (hr : Reached Start World.step Guard w) :
    ∃ s, w.screen = some s ∧ (w.AtRest → s.down = []) ∧
      ∀ label w', Guard w label → w.step label = some w' → s.down ≠ [] →
        ∃ s', w'.screen = some s' ∧ s'.down.length ≤ s.down.length := by
  obtain ⟨hand, lost, h⟩ := holds_run hr
  refine ⟨_, h.screen, ?_, ?_⟩
  · intro hrest
    rw [fingers_atRest h hrest]
    rfl
  · intro label w' hg hs hdown
    obtain ⟨hand', lost', h', hfewer⟩ := holds_step h hg hs
    exact ⟨_, h'.screen, hfewer hdown⟩

/-- A turn of the wheel. -/
def turn (control far : Bool) : WheelEvent := ⟨control, false, far, true⟩

/-- A tap, a page scrolled by the wheel, a pinch on the touchpad and one by the control key. -/
def oneByOne : List (Label ℕ) :=
  [.press 1, .drag 1, .release 1, .wheel (turn false false), .wheel (turn false true), .wheelLift,
    .pinchBegin 2, .pinchUpdate true 2, .pinchEnd 2, .hover 1, .wheel (turn true false), .pinchLift]

theorem touches_are_a_screens_oneByOne :
    ∃ w : World ℕ, run World.step enabled oneByOne = some w ∧
      ∃ s, w.screen = some s ∧ (w.AtRest → s.down = []) ∧
        ∀ label w', Guard w label → w.step label = some w' → s.down ≠ [] →
          ∃ s', w'.screen = some s' ∧ s'.down.length ≤ s.down.length := by
  obtain ⟨w, hw⟩ := Option.isSome_iff_exists.mp
    (show (run World.step (enabled : World ℕ) oneByOne).isSome = true by decide)
  have hstart : Reached Start World.step Guard (enabled : World ℕ) := .start rfl
  exact ⟨w, hw, touches_are_a_screens (hstart.run oneByOne (by decide) hw)⟩

/-- The button is held, a pinch begins and waits, and its update puts two more fingers down. -/
theorem pinch_beside_button :
    ¬ ∀ w : World ℕ, Reached Start World.step anyStep w → ∃ s, w.screen = some s := by
  intro hall
  have hrun : (run World.step (enabled : World ℕ)
      [.press 1, .pinchBegin 1, .pinchUpdate true 1]).map World.screen = some none := by
    decide
  obtain ⟨w, hw, hnone⟩ := Option.map_eq_some_iff.mp hrun
  have hstart : Reached Start World.step anyStep (enabled : World ℕ) := .start rfl
  obtain ⟨s, hs⟩ := hall w (hstart.run_any _ hw)
  rw [hnone] at hs
  cases hs

end FuryBrowser.TouchEmulator
