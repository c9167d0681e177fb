import FuryBrowser.GuardedRuns

/-!
# The mouse, the wheel and the touchpad as fingers

A phone's page gets no mouse. A press of the left button puts a finger down; the wheel puts
one down where the pointer is and lifts it when it has been still; a pinch on the touchpad,
or the wheel with the control key, puts down two. Each has flags of its own, and what
upstream makes of the mouse is a start, a move and an end of the first touch.

Before that stands what a touchscreen produces. A finger goes down with an identifier in a view,
moves and comes off in that view, and its identifier is free again. When a view is destroyed the
touches in it are gone, and what is still said of them reaches no page until a finger goes down
again.
-/

namespace FuryBrowser.TouchScreen

open GuardedRuns

variable {V : Type} [DecidableEq V]

/-- What happens on a screen. -/
inductive Entry (V : Type)
  | start (id : ℕ) (view : V)
  | move (ids : List ℕ) (view : V)
  | finish (id : ℕ) (view : V)
  | destroyed (view : V)
  deriving DecidableEq, Repr

/-- A screen. -/
structure Screen (V : Type) where
  /-- The fingers that are down, each in the view it went down in. -/
  down : List (ℕ × V)
  /-- Touches were lost with their view, and no finger went down since. -/
  lost : Bool
  deriving DecidableEq, Repr

/-- A screen that nobody touches. -/
def untouched : Screen V := ⟨[], false⟩

/-- What a screen can do; nothing else can happen. -/
def Screen.step (s : Screen V) : Entry V → Option (Screen V)
  | .start id v => if id ∈ s.down.map Prod.fst then none else some ⟨(id, v) :: s.down, false⟩
  | .move ids v => if s.lost ∨ ∀ id ∈ ids, (id, v) ∈ s.down then some s else none
  | .finish id v =>
    if s.lost then some s
    else if (id, v) ∈ s.down then some { s with down := s.down.erase (id, v) } else none
  | .destroyed v =>
    if v ∈ s.down.map Prod.snd then some ⟨s.down.filter (·.2 ≠ v), true⟩ else some s

/-- The screen after what happened, if a screen can produce it. -/
def after (log : List (Entry V)) : Option (Screen V) := run Screen.step untouched log

theorem after_append (log : List (Entry V)) (e : Entry V) :
    after (log ++ [e]) = (after log).bind fun s => s.step e := by
  have happend : ∀ (log : List (Entry V)) (s : Screen V),
      run Screen.step s (log ++ [e]) = (run Screen.step s log).bind fun s => s.step e := by
    intro log
    induction log with
    | nil => intro s; simp [run]
    | cons a log ih =>
      intro s
      cases ha : s.step a <;> simp [run, ha, ih]
  exact happend log untouched

section Shapes

variable {v : V}

theorem start_first (lost : Bool) :
    (⟨[], lost⟩ : Screen V).step (.start 0 v) = some ⟨[(0, v)], false⟩ := by
  simp [Screen.step]

theorem start_second :
    (⟨[(0, v)], false⟩ : Screen V).step (.start 1 v) = some ⟨[(1, v), (0, v)], false⟩ := by
  simp [Screen.step]

theorem move_first : (⟨[(0, v)], false⟩ : Screen V).step (.move [0] v) =
    some ⟨[(0, v)], false⟩ := by
  simp [Screen.step]

theorem move_both : (⟨[(1, v), (0, v)], false⟩ : Screen V).step (.move [0, 1] v) =
    some ⟨[(1, v), (0, v)], false⟩ := by
  simp [Screen.step]

theorem finish_first :
    (⟨[(0, v)], false⟩ : Screen V).step (.finish 0 v) = some ⟨[], false⟩ := by
  simp [Screen.step]

theorem finish_second :
    (⟨[(1, v), (0, v)], false⟩ : Screen V).step (.finish 1 v) = some ⟨[(0, v)], false⟩ := by
  simp [Screen.step]

theorem move_lost (ids : List ℕ) (v : V) :
    (⟨[], true⟩ : Screen V).step (.move ids v) = some ⟨[], true⟩ := by
  simp [Screen.step]

theorem finish_lost (id : ℕ) (v : V) :
    (⟨[], true⟩ : Screen V).step (.finish id v) = some ⟨[], true⟩ := by
  simp [Screen.step]

end Shapes

end FuryBrowser.TouchScreen

namespace FuryBrowser.TouchEmulator

open GuardedRuns TouchScreen

variable {V : Type} [DecidableEq V]

/-- The emulator, the devices it listens to, and what it made of them. -/
structure World (V : Type) where
  mousePressed : Bool
  /-- `fury_wheel_view_`. -/
  wheelView : Option V
  /-- `fury_wheel_down_`. -/
  wheelDown : Bool
  /-- `fury_wheel_lift_timer_` runs. -/
  wheelTimer : Bool
  /-- `fury_pinching_`. -/
  pinching : Bool
  /-- `fury_pinch_lift_timer_` runs. -/
  pinchTimer : Bool
  /-- The left button is held. -/
  held : Bool
  /-- A pinch on the touchpad has begun and not ended. -/
  pad : Bool
  /-- The emulated stream, and the views that were destroyed. -/
  log : List (Entry V)
  deriving DecidableEq, Repr

/-- A wheel event. -/
structure WheelEvent where
  control : Bool
  /-- The trackpad's own momentum. -/
  momentum : Bool
  /-- With it the finger has travelled far enough to be lifted and put down again. -/
  far : Bool
  /-- With the control key, it scales. -/
  scaled : Bool
  deriving DecidableEq, Repr

/-- An event of the left button, as upstream sees it. -/
inductive MouseType
  | down
  | move
  | up
  deriving DecidableEq, Repr

/-- What happens next. -/
inductive Label (V : Type)
  /-- The left button is pressed. -/
  | press (view : V)
  /-- The mouse moves with the left button held. -/
  | drag (view : V)
  /-- The left button is released. -/
  | release (view : V)
  /-- The mouse moves without, or another button. -/
  | hover (view : V)
  | wheel (event : WheelEvent)
  /-- The wheel's timer fires. -/
  | wheelLift
  /-- `kGesturePinchBegin`. -/
  | pinchBegin (view : V)
  /-- `kGesturePinchUpdate`; it may scale. -/
  | pinchUpdate (scaled : Bool) (view : V)
  /-- `kGesturePinchEnd`. -/
  | pinchEnd (view : V)
  /-- The pinch's timer fires. -/
  | pinchLift
  /-- `OnViewDestroyed`. -/
  | destroyed (view : V)
  deriving DecidableEq, Repr

section Handlers

variable (w : World V)

/-- One more event of the stream. -/
def World.emit (e : Entry V) : World V := { w with log := w.log ++ [e] }

/-- `HandleMouseEvent`: the wheel's view, and the event as a touch. -/
def World.handleMouseEvent (type : MouseType) (view : V) : World V :=
  let w := { w with wheelView := some view }
  match type with
  | .down => { w with mousePressed := true }.emit (.start 0 view)
  | .move => w.emit (.move [0] view)
  | .up => { w with mousePressed := false }.emit (.finish 0 view)

/-- `FuryPinchBy`: two fingers go down unless they are, and move by the scale. -/
def World.furyPinchBy (scaled : Bool) (view : V) : World V :=
  if w.pinching then w.emit (.move [0, 1] view)
  else
    let w := (({ w with pinching := true }.emit (.start 0 view)).emit (.start 1 view)).emit
      (.move [0, 1] view)
    if scaled then w.emit (.move [0, 1] view) else w

/-- `FuryPinchEnd`. -/
def World.furyPinchEnd (view : Option V) : World V :=
  let w := { w with pinchTimer := false }
  match view with
  | some v =>
    if w.pinching then
      { (w.emit (.finish 1 v)).emit (.finish 0 v) with pinching := false }
    else w
  | none => { w with pinching := false }

/-- `FuryWheelFinger`. -/
def World.furyWheelFinger (far : Bool) (view : V) : World V :=
  let w := if w.wheelDown then w else { w.handleMouseEvent .down view with wheelDown := true }
  let w := if far then (w.handleMouseEvent .up view).handleMouseEvent .down view else w
  { w.handleMouseEvent .move view with wheelTimer := true }

/-- `HandleMouseWheelEvent`, on a phone persona. -/
def World.handleMouseWheelEvent (event : WheelEvent) : World V :=
  -- A real finger is down: the wheel does nothing then.
  if w.mousePressed && !w.wheelDown then w
  else if event.momentum then w
  else
    match w.wheelView with
    | none => w
    | some view =>
      if event.control then
        if w.wheelDown then w
        else { w.furyPinchBy event.scaled view with pinchTimer := true }
      else w.furyWheelFinger event.far view

/-- The wheel has been still: its finger is lifted. -/
def World.wheelLifts : World V :=
  let w := { w with wheelTimer := false }
  match w.wheelView with
  | some view =>
    if w.wheelDown then { w with wheelDown := false }.handleMouseEvent .up view else w
  | none => { w with wheelDown := false }

/-- `OnViewDestroyed`. -/
def World.onViewDestroyed (view : V) : World V :=
  let w :=
    if w.wheelView = some view then
      { w with wheelTimer := false, wheelDown := false, wheelView := none }
    else w
  w.emit (.destroyed view)

/-- One step. A button is pressed that is not held, a timer fires that runs, and a pinch on
the touchpad begins before it goes on. -/
def World.step : Label V → Option (World V)
  | .press view =>
    if w.held then none else some { w.handleMouseEvent .down view with held := true }
  | .drag view => if w.held then some (w.handleMouseEvent .move view) else none
  | .release view =>
    if w.held then some { w.handleMouseEvent .up view with held := false } else none
  | .hover view => some { w with wheelView := some view }
  | .wheel event => some (w.handleMouseWheelEvent event)
  | .wheelLift => if w.wheelTimer then some w.wheelLifts else none
  | .pinchBegin view =>
    if w.pad then none
    else
      let w := { w with pad := true }
      -- A finger is already down: a second gesture waits.
      if w.mousePressed || w.wheelDown then some w else some (w.furyPinchBy false view)
  | .pinchUpdate scaled view => if w.pad then some (w.furyPinchBy scaled view) else none
  | .pinchEnd view =>
    if w.pad then some ({ w with pad := false }.furyPinchEnd (some view)) else none
  | .pinchLift => if w.pinchTimer then some (w.furyPinchEnd w.wheelView) else none
  | .destroyed view => some (w.onViewDestroyed view)

end Handlers

/-- An emulator that was just enabled. -/
def enabled : World V := ⟨false, none, false, false, false, false, false, false, []⟩

/-- Where runs start. -/
def Start (w : World V) : Prop := w = enabled

/-- The screen that the stream is one of. -/
def World.screen (w : World V) : Option (Screen V) := after w.log

/-- The fingers that are down. -/
def World.fingers (w : World V) : List (ℕ × V) := (w.screen.map Screen.down).getD []

/-- Every finger that is down is in this view. -/
def World.On (w : World V) (view : V) : Prop := ∀ finger ∈ w.fingers, finger.2 = view

/-- No button is held, no timer runs, and no pinch is under way. -/
def World.AtRest (w : World V) : Prop :=
  w.held = false ∧ w.wheelTimer = false ∧ w.pinchTimer = false ∧ w.pad = false

/-- One gesture at a time, each in the view it began in. -/
def Guard (w : World V) : Label V → Prop
  -- The button is not pressed during a gesture of the wheel or of two fingers.
  | .press _ => w.wheelDown = false ∧ w.pinching = false
  | .drag view => w.On view
  | .release view => w.On view
  | .hover _ => True
  -- The wheel turns in the view of its finger, and not while there are two.
  | .wheel event => ∀ view, w.wheelView = some view →
    (w.mousePressed && !w.wheelDown) = false → event.momentum = false →
      if event.control then w.wheelDown = false → w.pinching = true → w.On view
      else w.pinching = false ∧ (w.wheelDown = true → w.On view)
  | .wheelLift => ∀ view, w.wheelView = some view → w.wheelDown = true → w.On view
  | .pinchBegin view => w.pinching = true → w.On view
  -- A pinch goes on that has begun, or that nothing else is under way beside.
  | .pinchUpdate _ view =>
    if w.pinching then w.On view else w.held = false ∧ w.wheelDown = false
  | .pinchEnd view => w.pinching = true → w.On view
  -- The pointer has not left the view of the fingers, and neither has the view left.
  | .pinchLift => w.pinching = true →
    match w.wheelView with
    | some view => w.On view
    | none => w.fingers = []
  | .destroyed view => w.wheelView = some view → w.wheelDown = true → w.On view

instance (w : World V) (view : V) : Decidable (w.On view) :=
  inferInstanceAs (Decidable (∀ finger ∈ w.fingers, finger.2 = view))

instance : ∀ (w : World V) (label : Label V), Decidable (Guard w label)
  | _, .press _ => inferInstanceAs (Decidable (_ ∧ _))
  | w, .drag v => inferInstanceAs (Decidable (w.On v))
  | w, .release v => inferInstanceAs (Decidable (w.On v))
  | _, .hover _ => .isTrue trivial
  | w, .wheel event => decidable_of_iff (∀ view ∈ w.wheelView,
      (w.mousePressed && !w.wheelDown) = false → event.momentum = false →
        if event.control then w.wheelDown = false → w.pinching = true → w.On view
        else w.pinching = false ∧ (w.wheelDown = true → w.On view)) Iff.rfl
  | w, .wheelLift => decidable_of_iff
      (∀ view ∈ w.wheelView, w.wheelDown = true → w.On view) Iff.rfl
  | w, .pinchBegin v => inferInstanceAs (Decidable (_ → w.On v))
  | w, .pinchUpdate _ v => inferInstanceAs
      (Decidable (if w.pinching then w.On v else w.held = false ∧ w.wheelDown = false))
  | w, .pinchEnd v => inferInstanceAs (Decidable (_ → w.On v))
  | w, .pinchLift =>
    match hw : w.wheelView with
    | some view => decidable_of_iff (w.pinching = true → w.On view) (by simp [Guard, hw])
    | none => decidable_of_iff (w.pinching = true → w.fingers = []) (by simp [Guard, hw])
  | w, .destroyed v => inferInstanceAs (Decidable (_ → _ → w.On v))

end FuryBrowser.TouchEmulator
