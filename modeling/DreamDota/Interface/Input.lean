import DreamDota.Lib.Session
import Mathlib.Data.Finset.Insert
import Mathlib.Data.Finset.Erase
import Mathlib.Logic.Function.Basic
import Mathlib.Tactic.SplitIfs

/-!
# Keys held down

`Input_Update` of `Input.cpp` keeps a table of the keys that are down and sends key events on to
`KeyRepeat.cpp` and `DirectionMove.cpp`, but not while the chat box is on. `KeyRepeat` keeps two
timers a key, `DirectionMove` a set of directions.

`released` and `presses` are history: they are written and never read.

1. `DownFrame`: what a key-down can change, also one that the program makes itself.
2. `Inv`: a key that was released is up in the table and has no repeat timer.
3. `noStuckKeys_of_guard`: no key is stuck in a session whose key-ups all get through.
4. `stuck_of_not_guard`: after one that does not, a key is.
-/

namespace DreamDota.Input

/-! ## Key codes -/

def keyShift : ℤ := 0x0
def keyControl : ℤ := 0x1
def keyAlt : ℤ := 0x2
def keyOemSlash : ℤ := 0x119
def keyEnter : ℤ := 0x201
def keyLeft : ℤ := 0x204
def keyUp : ℤ := 0x205
def keyRight : ℤ := 0x206
def keyDown : ℤ := 0x207

/-- `KeyAllowedToRepeat`. -/
def keyAllowedToRepeat (keyCode : ℤ) : Bool :=
  keyCode ≠ keyControl && keyCode ≠ keyAlt && keyCode ≠ keyShift && keyCode ≠ keyEnter &&
    0 ≤ keyCode && keyCode < 0x30C

/-- `keyCodeAllowed` of `DirectionMove.cpp`. -/
def keyCodeAllowed (keyCode : ℤ) : Bool :=
  keyCode = keyUp || keyCode = keyDown || keyCode = keyLeft || keyCode = keyRight

def oppositeDirection (keyCode : ℤ) : ℤ :=
  if keyCode = keyUp then keyDown
  else if keyCode = keyDown then keyUp
  else if keyCode = keyLeft then keyRight
  else if keyCode = keyRight then keyLeft
  else -1

/-! ## State -/

/-- What the code reads and the game, the window system and the options write: the chat box, the
modifiers of `GetAsyncKeyState`, and the entries of the profile. -/
structure Outside where
  chatBoxOn : Bool
  shift : Bool
  control : Bool
  alt : Bool
  keyAutoRepeatEnable : ℤ
  directionMoveEnabled : Bool
  lastHitEnabled : Bool
  lastHitHotkey : ℤ
  hotkeyLockMouse : ℤ
  allowSwitchWindowed : ℤ
  deriving DecidableEq, Repr

/-- The static variables. A timer array has an entry exactly while its timer has not been destroyed,
and the data of a timer is its key. -/
structure State where
  outside : Outside
  inputKeyState : ℤ → Bool
  repeatTimer : ℤ → Bool
  repeatDelayTimer : ℤ → Bool
  keys : Finset ℤ
  released : ℤ → Bool
  presses : List (ℤ × Bool)

/-- The listeners that discard an event hide it from those after them. -/
inductive Taken
  | nobody
  | beforeKeyRepeat
  | beforeDirectionMove
  deriving DecidableEq, Repr

/-- `opened` says whether the chat box is on once the game has handled the key that the slash is
turned into. -/
inductive Event
  | outside (o : Outside)
  | keyDown (keyCode : ℤ) (taken : Taken) (opened : Bool)
  | keyUp (keyCode : ℤ)
  | focus
  | repeatDelayExpired (keyCode : ℤ)
  | repeatExpired (keyCode : ℤ) (taken : Taken) (opened : Bool)
  deriving DecidableEq, Repr

namespace State

/-- A game begins: `memset` and `Keys.clear`. -/
def start (outside : Outside) (inputKeyState : ℤ → Bool) : State :=
  ⟨outside, inputKeyState, fun _ => false, fun _ => false, ∅, fun _ => false, []⟩

/-- `KeyIsDown`. -/
def keyIsDown (s : State) (keyCode : ℤ) : Bool :=
  if keyCode = keyShift then s.outside.shift
  else if keyCode = keyControl then s.outside.control
  else if keyCode = keyAlt then s.outside.alt
  else s.inputKeyState keyCode

/-- `KeySetDown`. -/
def keySetDown (s : State) (keyCode : ℤ) (down : Bool) : State :=
  { s with inputKeyState := Function.update s.inputKeyState keyCode down }

/-! ## `KeyRepeat` -/

def keyRepeatKeyDown (s : State) (keyCode : ℤ) : State :=
  if s.outside.keyAutoRepeatEnable ≤ 0 then s
  else if keyAllowedToRepeat keyCode then
    if s.repeatTimer keyCode then s
    else { s with repeatDelayTimer := Function.update s.repeatDelayTimer keyCode true }
  else s

def keyRepeatKeyUp (s : State) (keyCode : ℤ) : State :=
  if keyAllowedToRepeat keyCode then
    { s with
      repeatDelayTimer := Function.update s.repeatDelayTimer keyCode false
      repeatTimer := Function.update s.repeatTimer keyCode false }
  else s

def keyRepeatFocus (s : State) : State :=
  { s with repeatDelayTimer := fun _ => false, repeatTimer := fun _ => false }

def onRepeatDelayExpired (s : State) (keyCode : ℤ) : State :=
  let s := { s with repeatDelayTimer := Function.update s.repeatDelayTimer keyCode false }
  if s.keyIsDown keyCode then
    if s.repeatTimer keyCode then s
    else { s with repeatTimer := Function.update s.repeatTimer keyCode true }
  else { s with repeatTimer := Function.update s.repeatTimer keyCode false }

/-! ## `DirectionMove` -/

def directionMoveKeyDown (s : State) (keyCode : ℤ) : State :=
  if s.outside.directionMoveEnabled && keyCodeAllowed keyCode then
    if keyCode ∈ s.keys then s
    else { s with keys := (insert keyCode s.keys).erase (oppositeDirection keyCode) }
  else s

def directionMoveKeyUp (s : State) (keyCode : ℤ) : State :=
  if s.outside.directionMoveEnabled && keyCodeAllowed keyCode then
    { s with keys := s.keys.erase keyCode }
  else s

def directionMoveFocus (s : State) : State := { s with keys := ∅ }

/-! ## `Input_Update` -/

/-- The listeners of `EVENT_KEY_DOWN`, in the order of their `Init` functions. -/
def dispatchKeyDown (s : State) (keyCode : ℤ) (taken : Taken) : State :=
  match taken with
  | .beforeKeyRepeat => s
  | .beforeDirectionMove => s.keyRepeatKeyDown keyCode
  | .nobody => (s.keyRepeatKeyDown keyCode).directionMoveKeyDown keyCode

/-- Those of `EVENT_KEY_UP`. The one of `LastHit.cpp` is between the two and discards the event if
the key is its hotkey. -/
def dispatchKeyUp (s : State) (keyCode : ℤ) : State :=
  let s := s.keyRepeatKeyUp keyCode
  if s.outside.lastHitEnabled && keyCode = s.outside.lastHitHotkey then s
  else s.directionMoveKeyUp keyCode

/-- `EVENT_KEYDOWN`. The keys that lock the mouse and switch the window are not sent on. -/
def inputKeyDown (s : State) (keyCode : ℤ) (taken : Taken) (openChat : State → State) : State :=
  let s := s.keySetDown keyCode true
  if keyCode = s.outside.hotkeyLockMouse then s
  else if keyCode = keyEnter && s.keyIsDown keyAlt && !s.keyIsDown keyShift &&
      !s.keyIsDown keyControl && decide (0 < s.outside.allowSwitchWindowed) then s
  else if s.outside.chatBoxOn then s
  else
    let s := if keyCode = keyOemSlash && !s.keyIsDown keyAlt && !s.keyIsDown keyShift &&
      !s.keyIsDown keyControl then openChat s else s
    s.dispatchKeyDown keyCode taken

/-- `EVENT_KEYUP`. -/
def inputKeyUp (s : State) (keyCode : ℤ) : State :=
  let s := s.keySetDown keyCode false
  if s.outside.chatBoxOn then s else s.dispatchKeyUp keyCode

/-- `GameUIKeyPress` of `KEY_ENTER`, down and up. The game sends the key through `Input_Update`; it is
not the slash, so no chat is opened inside. -/
def pressEnter (opened : Bool) (s : State) : State :=
  let s := s.inputKeyDown keyEnter .nobody id
  let s := { s with outside := { s.outside with chatBoxOn := opened } }
  s.inputKeyUp keyEnter

/-- `EVENT_FOCUS`. -/
def inputFocus (s : State) : State :=
  ({ s with inputKeyState := fun _ => false } : State).keyRepeatFocus.directionMoveFocus

/-- `onRepeatExpired`: `GameUIKeyPress` makes the game send a key-down through `Input_Update`. -/
def onRepeatExpired (s : State) (keyCode : ℤ) (taken : Taken) (opened : Bool) : State :=
  ({ s with presses := s.presses ++ [(keyCode, s.released keyCode)] } : State).inputKeyDown keyCode
    taken (pressEnter opened)

/-- A timer that was destroyed does not expire. -/
def event (s : State) : Event → State
  | .outside o => { s with outside := o }
  | .keyDown keyCode taken opened =>
    let s := s.inputKeyDown keyCode taken (pressEnter opened)
    { s with released := Function.update s.released keyCode false }
  | .keyUp keyCode =>
    let s := s.inputKeyUp keyCode
    { s with released := Function.update s.released keyCode true }
  | .focus => s.inputFocus
  | .repeatDelayExpired keyCode =>
    if s.repeatDelayTimer keyCode then s.onRepeatDelayExpired keyCode else s
  | .repeatExpired keyCode taken opened =>
    if s.repeatTimer keyCode then s.onRepeatExpired keyCode taken opened else s

/-! ## The claim on a state -/

/-- No press was made of a key that had been released, no direction that was released is in `Keys`,
and no two opposite directions are. -/
structure NoStuckKeys (s : State) : Prop where
  presses : ∀ p ∈ s.presses, p.2 = false
  keys : ∀ k, s.released k = true → k ∉ s.keys
  opposite : ∀ k ∈ s.keys, oppositeDirection k ∉ s.keys

/-- A key-up of a key that repeats comes with the chat box off, and one of a key in `Keys` comes
besides with `DirectionMove` enabled and with another hotkey for last hits. -/
def Guard (s : State) : Event → Prop
  | .keyUp k =>
    (s.repeatTimer k = true → s.outside.chatBoxOn = false) ∧
    (k ∈ s.keys → s.outside.chatBoxOn = false ∧ s.outside.directionMoveEnabled = true ∧
      ¬ (s.outside.lastHitEnabled = true ∧ k = s.outside.lastHitHotkey))
  | _ => True

instance (s : State) : (e : Event) → Decidable (s.Guard e)
  | .keyUp _ => inferInstanceAs (Decidable (_ ∧ _))
  | .outside _ => isTrue trivial
  | .keyDown .. => isTrue trivial
  | .focus => isTrue trivial
  | .repeatDelayExpired _ => isTrue trivial
  | .repeatExpired .. => isTrue trivial

variable {s s' s'' : State} {k j : ℤ} {taken : Taken} {opened : Bool} {es : List Event}

/-! ## What a key-down can change -/

theorem keyAllowedToRepeat_enter : keyAllowedToRepeat keyEnter = false := by decide

theorem keyCodeAllowed_enter : keyCodeAllowed keyEnter = false := by decide

theorem keyIsDown_of_allowed (hk : keyAllowedToRepeat k = true) :
    s.keyIsDown k = s.inputKeyState k := by
  unfold keyAllowedToRepeat at hk
  simp only [Bool.and_eq_true, decide_eq_true_eq] at hk
  obtain ⟨⟨⟨⟨⟨hcontrol, halt⟩, hshift⟩, -⟩, -⟩, -⟩ := hk
  rw [keyIsDown, if_neg hshift, if_neg hcontrol, if_neg halt]

theorem eq_opposite (hk : keyCodeAllowed k = true) (h : oppositeDirection j = k) :
    j = oppositeDirection k := by
  subst h
  by_cases hj : j = keyUp ∨ j = keyDown ∨ j = keyLeft ∨ j = keyRight
  · rcases hj with rfl | rfl | rfl | rfl <;> decide
  · rw [not_or, not_or, not_or] at hj
    obtain ⟨hup, hdown, hleft, hright⟩ := hj
    rw [oppositeDirection, if_neg hup, if_neg hdown, if_neg hleft, if_neg hright] at hk
    exact absurd hk (by decide)

theorem of_update_false {f : ℤ → Bool} (h : Function.update f k false j = true) :
    j ≠ k ∧ f j = true := by
  rcases eq_or_ne j k with rfl | hne
  · exact absurd ((Function.update_self j false f).symm.trans h) Bool.false_ne_true
  · exact ⟨hne, (Function.update_of_ne hne false f).symm.trans h⟩

/-- What stays when `k` goes down: repeat timers, the history, and what is about other keys. -/
structure DownFrame (k : ℤ) (s s' : State) : Prop where
  repeatTimer : s'.repeatTimer = s.repeatTimer
  released : s'.released = s.released
  presses : s'.presses = s.presses
  keyState : ∀ j, j ≠ k → s'.inputKeyState j = true → s.inputKeyState j = true
  delay : ∀ j, s'.repeatDelayTimer j = true →
    s.repeatDelayTimer j = true ∨ keyAllowedToRepeat j = true
  keys : ∀ j ∈ s'.keys, j ∈ s.keys ∨ j = k ∧ keyCodeAllowed j = true
  opposite : (∀ j ∈ s.keys, oppositeDirection j ∉ s.keys) →
    ∀ j ∈ s'.keys, oppositeDirection j ∉ s'.keys

theorem DownFrame.refl (k : ℤ) (s : State) : DownFrame k s s :=
  ⟨rfl, rfl, rfl, fun _ _ h => h, fun _ h => .inl h, fun _ h => .inl h, fun h => h⟩

theorem DownFrame.trans (h : DownFrame k s s') (h' : DownFrame k s' s'') : DownFrame k s s'' where
  repeatTimer := h'.repeatTimer.trans h.repeatTimer
  released := h'.released.trans h.released
  presses := h'.presses.trans h.presses
  keyState j hj hstate := h.keyState j hj (h'.keyState j hj hstate)
  delay j hdelay := (h'.delay j hdelay).elim (h.delay j) .inr
  keys j hj := (h'.keys j hj).elim (h.keys j) .inr
  opposite hopp := h'.opposite (h.opposite hopp)

theorem downFrame_keySetDown : DownFrame k s (s.keySetDown k true) := by
  unfold keySetDown
  exact { DownFrame.refl k s with
    keyState := fun _ hj hstate =>
      (Function.update_of_ne hj true s.inputKeyState).symm.trans hstate }

theorem downFrame_keyRepeatKeyDown : DownFrame k s (s.keyRepeatKeyDown k) := by
  unfold keyRepeatKeyDown
  split_ifs with henable hallowed hrepeat
  · exact .refl k s
  · exact .refl k s
  · refine { DownFrame.refl k s with delay := fun j hj => ?_ }
    rcases eq_or_ne j k with rfl | hne
    · exact .inr hallowed
    · exact .inl ((Function.update_of_ne hne true s.repeatDelayTimer).symm.trans hj)
  · exact .refl k s

/-- The direction that comes in drives its opposite out. -/
theorem downFrame_directionMoveKeyDown : DownFrame k s (s.directionMoveKeyDown k) := by
  unfold directionMoveKeyDown
  split_ifs with henabled hmem
  · exact .refl k s
  · have hallowed : keyCodeAllowed k = true := (Bool.and_eq_true _ _ ▸ henabled).2
    refine { DownFrame.refl k s with keys := fun j hj => ?_, opposite := fun hopp j hj hj' => ?_ }
    · rcases Finset.mem_insert.mp (Finset.mem_of_mem_erase hj) with rfl | hj
      · exact .inr ⟨rfl, hallowed⟩
      · exact .inl hj
    · obtain ⟨hne, hj⟩ := Finset.mem_erase.mp hj
      obtain ⟨hne', hj'⟩ := Finset.mem_erase.mp hj'
      rcases Finset.mem_insert.mp hj with rfl | hj
      · exact hne' rfl
      rcases Finset.mem_insert.mp hj' with heq | hj'
      · exact hne (eq_opposite hallowed heq)
      · exact hopp j hj hj'
  · exact .refl k s

theorem downFrame_dispatchKeyDown : DownFrame k s (s.dispatchKeyDown k taken) := by
  cases taken with
  | nobody => exact downFrame_keyRepeatKeyDown.trans downFrame_directionMoveKeyDown
  | beforeKeyRepeat => exact .refl k s
  | beforeDirectionMove => exact downFrame_keyRepeatKeyDown

theorem dispatchKeyDown_enter : s.dispatchKeyDown keyEnter .nobody = s := by
  have hrepeat : s.keyRepeatKeyDown keyEnter = s := by
    unfold keyRepeatKeyDown
    rw [keyAllowedToRepeat_enter]
    exact ite_self s
  have hmove : s.directionMoveKeyDown keyEnter = s := by
    unfold directionMoveKeyDown
    rw [keyCodeAllowed_enter, Bool.and_false]
    rfl
  rw [dispatchKeyDown, hrepeat, hmove]

theorem dispatchKeyUp_enter : s.dispatchKeyUp keyEnter = s := by
  have hmove : s.directionMoveKeyUp keyEnter = s := by
    unfold directionMoveKeyUp
    rw [keyCodeAllowed_enter, Bool.and_false]
    rfl
  have hrepeat : s.keyRepeatKeyUp keyEnter = s := rfl
  rw [dispatchKeyUp, hrepeat, hmove]
  exact ite_self s

/-- Enter does nothing but go down and up. -/
theorem pressEnter_eq : s.pressEnter opened =
    { s with
      outside := { s.outside with chatBoxOn := opened }
      inputKeyState := Function.update s.inputKeyState keyEnter false } := by
  have hdown : s.inputKeyDown keyEnter .nobody id = s.keySetDown keyEnter true := by
    unfold inputKeyDown
    simp only [dispatchKeyDown_enter, id, ite_self]
  have hup : ∀ s : State, s.inputKeyUp keyEnter = s.keySetDown keyEnter false := fun s => by
    unfold inputKeyUp
    simp only [dispatchKeyUp_enter, ite_self]
  rw [pressEnter, hdown, hup]
  unfold keySetDown
  rw [Function.update_idem]

theorem downFrame_pressEnter : DownFrame k s (s.pressEnter opened) := by
  rw [pressEnter_eq]
  exact { DownFrame.refl k s with keyState := fun _ _ hstate => (of_update_false hstate).2 }

theorem downFrame_inputKeyDown : DownFrame k s (s.inputKeyDown k taken (pressEnter opened)) := by
  unfold inputKeyDown
  refine downFrame_keySetDown.trans ?_
  generalize s.keySetDown k true = s
  simp only
  split_ifs
  · exact .refl k s
  · exact .refl k s
  · exact .refl k s
  · exact downFrame_pressEnter.trans downFrame_dispatchKeyDown
  · exact downFrame_dispatchKeyDown

/-! ## The invariant -/

/-- A key that was released is up, has no repeat timer and is not in `Keys`. -/
structure Inv (s : State) : Prop where
  keyState : ∀ k, s.released k = true → s.inputKeyState k = false
  repeatTimer : ∀ k, s.released k = true → s.repeatTimer k = false
  repeatAllowed : ∀ k, s.repeatTimer k = true → keyAllowedToRepeat k = true
  delayAllowed : ∀ k, s.repeatDelayTimer k = true → keyAllowedToRepeat k = true
  keysAllowed : ∀ k ∈ s.keys, keyCodeAllowed k = true
  noStuck : NoStuckKeys s

theorem inv_start (outside : Outside) (inputKeyState : ℤ → Bool) :
    Inv (start outside inputKeyState) where
  keyState := nofun
  repeatTimer _ _ := rfl
  repeatAllowed := nofun
  delayAllowed := nofun
  keysAllowed := fun k hk => absurd hk (Finset.notMem_empty k)
  noStuck := ⟨nofun, nofun, fun k hk => absurd hk (Finset.notMem_empty k)⟩

/-- A key-down of a key that counts as down from then on. -/
theorem Inv.of_downFrame (h : Inv s) (hframe : DownFrame k s s') :
    Inv { s' with released := Function.update s'.released k false } := by
  have hreleased : ∀ j, Function.update s'.released k false j = true →
      j ≠ k ∧ s.released j = true := by
    rw [hframe.released]
    exact fun j hj => of_update_false hj
  refine ⟨fun j hj => ?_, fun j hj => ?_, fun j hj => ?_, fun j hj => ?_, fun j hj => ?_, ?_⟩
  · obtain ⟨hne, hj⟩ := hreleased j hj
    refine eq_false_of_ne_true fun hstate => ?_
    exact absurd ((h.keyState j hj).symm.trans (hframe.keyState j hne hstate)) Bool.false_ne_true
  · show s'.repeatTimer j = false
    rw [hframe.repeatTimer]
    exact h.repeatTimer j (hreleased j hj).2
  · exact h.repeatAllowed j (hframe.repeatTimer ▸ hj)
  · exact (hframe.delay j hj).elim (h.delayAllowed j) id
  · exact (hframe.keys j hj).elim (h.keysAllowed j) And.right
  · refine ⟨fun p hp => ?_, fun j hj hmem => ?_, hframe.opposite h.noStuck.opposite⟩
    · exact h.noStuck.presses p (hframe.presses ▸ hp)
    · obtain ⟨hne, hj⟩ := hreleased j hj
      rcases hframe.keys j hmem with hmem | ⟨rfl, -⟩
      · exact h.noStuck.keys j hj hmem
      · exact hne rfl

/-- A press that the program makes of a key that is not released. -/
theorem Inv.of_downFrame' (h : Inv s) (hframe : DownFrame k s s') (hk : s.released k = false) :
    Inv s' := by
  have hsame : Function.update s'.released k false = s'.released := by
    rw [hframe.released]
    exact Function.update_eq_self_iff.mpr hk.symm
  have hdown := h.of_downFrame hframe
  rw [hsame] at hdown
  exact hdown

/-- Other timer arrays in which nothing is left of `k` and nothing new is. -/
structure Timers (k : ℤ) (s : State) (timers delays : ℤ → Bool) : Prop where
  self : timers k = false
  repeatTimer : ∀ j, timers j = true → s.repeatTimer j = true
  delay : ∀ j, delays j = true → s.repeatDelayTimer j = true

theorem keyRepeatKeyUp_eq (h : s.repeatTimer k = true → keyAllowedToRepeat k = true) :
    ∃ timers delays, Timers k s timers delays ∧
      s.keyRepeatKeyUp k = { s with repeatTimer := timers, repeatDelayTimer := delays } := by
  unfold keyRepeatKeyUp
  split_ifs with hallowed
  · exact ⟨_, _, ⟨Function.update_self .., fun _ hj => (of_update_false hj).2,
      fun _ hj => (of_update_false hj).2⟩, rfl⟩
  · refine ⟨s.repeatTimer, s.repeatDelayTimer, ⟨?_, fun _ hj => hj, fun _ hj => hj⟩, rfl⟩
    exact eq_false_of_ne_true fun htimer => hallowed (h htimer)

/-- `DirectionMove` lets go of a key whose key-up meets the guard. -/
theorem directionMoveKeyUp_eq (hkeys : ∀ j ∈ s.keys, keyCodeAllowed j = true)
    (hguard : k ∈ s.keys → s.outside.directionMoveEnabled = true) :
    s.directionMoveKeyUp k = { s with keys := s.keys.erase k } := by
  unfold directionMoveKeyUp
  split_ifs with henabled
  · rfl
  · have hmem : k ∉ s.keys := fun hmem => henabled (by rw [hguard hmem, hkeys k hmem]; rfl)
    rw [Finset.erase_eq_of_notMem hmem]

/-- What is left of a key whose key-up meets the guard. -/
theorem inputKeyUp_of_guard (h : Inv s) (hguard : s.Guard (.keyUp k)) :
    ∃ timers delays, Timers k s timers delays ∧ s.inputKeyUp k =
      { s with
        inputKeyState := Function.update s.inputKeyState k false
        repeatTimer := timers
        repeatDelayTimer := delays
        keys := s.keys.erase k } := by
  obtain ⟨htimer, hkeys⟩ := hguard
  cases hchat : s.outside.chatBoxOn with
  | true =>
    have hoff : s.repeatTimer k = false :=
      eq_false_of_ne_true fun hon => absurd (hchat.symm.trans (htimer hon)) (by decide)
    have hmem : k ∉ s.keys := fun hmem => absurd (hchat.symm.trans (hkeys hmem).1) (by decide)
    refine ⟨s.repeatTimer, s.repeatDelayTimer, ⟨hoff, fun _ hj => hj, fun _ hj => hj⟩, ?_⟩
    rw [Finset.erase_eq_of_notMem hmem]
    exact if_pos hchat
  | false =>
    obtain ⟨timers, delays, htimers, heq⟩ :=
      keyRepeatKeyUp_eq (s := s.keySetDown k false) (h.repeatAllowed k)
    refine ⟨timers, delays, ⟨htimers.self, htimers.repeatTimer, htimers.delay⟩, ?_⟩
    have hup : s.inputKeyUp k = (s.keySetDown k false).dispatchKeyUp k :=
      if_neg (by rw [show (s.keySetDown k false).outside = s.outside from rfl, hchat]; decide)
    rw [hup, dispatchKeyUp, heq]
    simp only
    split_ifs with hlastHit
    · have hmem : k ∉ s.keys := fun hmem => by
        rw [Bool.and_eq_true, decide_eq_true_iff] at hlastHit
        exact (hkeys hmem).2.2 hlastHit
      rw [Finset.erase_eq_of_notMem hmem]
      rfl
    · exact directionMoveKeyUp_eq h.keysAllowed fun hmem => (hkeys hmem).2.1

theorem Inv.keyUp (h : Inv s) (hguard : s.Guard (.keyUp k)) : Inv (s.event (.keyUp k)) := by
  obtain ⟨timers, delays, htimers, heq⟩ := inputKeyUp_of_guard h hguard
  have hevent : s.event (.keyUp k) = { s.inputKeyUp k with
    released := Function.update (s.inputKeyUp k).released k true } := rfl
  rw [hevent, heq]
  have hreleased : ∀ {j}, Function.update s.released k true j = true → j ≠ k →
      s.released j = true := fun hj hne =>
    (Function.update_of_ne hne true s.released).symm.trans hj
  refine ⟨fun j hj => ?_, fun j hj => ?_, fun j hj => h.repeatAllowed j (htimers.repeatTimer j hj),
    fun j hj => h.delayAllowed j (htimers.delay j hj),
    fun j hj => h.keysAllowed j (Finset.mem_of_mem_erase hj),
    ⟨h.noStuck.presses, fun j hj => ?_, fun j hj hj' => ?_⟩⟩
  · show Function.update s.inputKeyState k false j = false
    rcases eq_or_ne j k with rfl | hne
    · exact Function.update_self ..
    · rw [Function.update_of_ne hne]
      exact h.keyState j (hreleased hj hne)
  · rcases eq_or_ne j k with rfl | hne
    · exact htimers.self
    · refine eq_false_of_ne_true fun hon => ?_
      have hoff := h.repeatTimer j (hreleased hj hne)
      exact absurd (hoff.symm.trans (htimers.repeatTimer j hon)) Bool.false_ne_true
  · rcases eq_or_ne j k with rfl | hne
    · exact Finset.notMem_erase j s.keys
    · exact fun hmem => h.noStuck.keys j (hreleased hj hne) (Finset.mem_of_mem_erase hmem)
  · exact h.noStuck.opposite j (Finset.mem_of_mem_erase hj) (Finset.mem_of_mem_erase hj')

/-- The delay is over: a repeat timer starts only for a key that is down in the table. -/
theorem Inv.onRepeatDelayExpired (h : Inv s) (hdelay : s.repeatDelayTimer k = true) :
    Inv (s.onRepeatDelayExpired k) := by
  have hallowed := h.delayAllowed k hdelay
  have hdelays : ∀ j, Function.update s.repeatDelayTimer k false j = true →
      keyAllowedToRepeat j = true := fun j hj => h.delayAllowed j (of_update_false hj).2
  have hnoStuck : NoStuckKeys s := h.noStuck
  unfold State.onRepeatDelayExpired
  simp only
  rw [keyIsDown_of_allowed hallowed]
  split_ifs with hdown htimer
  · exact { h with delayAllowed := hdelays, noStuck := ⟨hnoStuck.1, hnoStuck.2, hnoStuck.3⟩ }
  · have hreleased : s.released k = false := eq_false_of_ne_true fun hreleased =>
      absurd ((h.keyState k hreleased).symm.trans hdown) Bool.false_ne_true
    refine { h with
      repeatTimer := fun j hj => ?_
      repeatAllowed := fun j hj => ?_
      delayAllowed := hdelays
      noStuck := ⟨hnoStuck.1, hnoStuck.2, hnoStuck.3⟩ }
    · have hne : j ≠ k := fun heq => absurd ((heq ▸ hreleased).symm.trans hj) Bool.false_ne_true
      exact (Function.update_of_ne hne true s.repeatTimer).trans (h.repeatTimer j hj)
    · rcases eq_or_ne j k with rfl | hne
      · exact hallowed
      · exact h.repeatAllowed j ((Function.update_of_ne hne true s.repeatTimer).symm.trans hj)
  · refine { h with
      repeatTimer := fun j hj => ?_
      repeatAllowed := fun j hj => ?_
      delayAllowed := hdelays
      noStuck := ⟨hnoStuck.1, hnoStuck.2, hnoStuck.3⟩ }
    · rcases eq_or_ne j k with rfl | hne
      · exact Function.update_self ..
      · exact (Function.update_of_ne hne false s.repeatTimer).trans (h.repeatTimer j hj)
    · exact h.repeatAllowed j (of_update_false hj).2

theorem Inv.event (h : Inv s) (e : Event) (hguard : s.Guard e) : Inv (s.event e) := by
  cases e with
  | outside o => exact ⟨h.keyState, h.repeatTimer, h.repeatAllowed, h.delayAllowed, h.keysAllowed,
      ⟨h.noStuck.presses, h.noStuck.keys, h.noStuck.opposite⟩⟩
  | keyDown k taken opened => exact h.of_downFrame downFrame_inputKeyDown
  | keyUp k => exact h.keyUp hguard
  | focus =>
    refine ⟨fun _ _ => rfl, fun _ _ => rfl, nofun, nofun, fun k hk => ?_,
      ⟨h.noStuck.presses, fun k _ => Finset.notMem_empty k, fun k hk => ?_⟩⟩
    · exact absurd hk (Finset.notMem_empty k)
    · exact absurd hk (Finset.notMem_empty k)
  | repeatDelayExpired k =>
    rw [State.event]
    split_ifs with hdelay
    · exact h.onRepeatDelayExpired hdelay
    · exact h
  | repeatExpired k taken opened =>
    rw [State.event]
    split_ifs with htimer
    · have hreleased : s.released k = false := eq_false_of_ne_true fun hreleased =>
        absurd ((h.repeatTimer k hreleased).symm.trans htimer) Bool.false_ne_true
      refine Inv.of_downFrame' (k := k) (s := { s with presses := s.presses ++ [(k, s.released k)] })
        ?_ downFrame_inputKeyDown hreleased
      refine { h with noStuck := { h.noStuck with presses := fun p hp => ?_ } }
      rcases List.mem_append.mp hp with hp | hp
      · exact h.noStuck.presses p hp
      · rw [List.mem_singleton.mp hp]
        exact hreleased
    · exact h

/-- No key is stuck in a session whose key-ups all get through. -/
theorem noStuckKeys_of_guard (outside : Outside) (inputKeyState : ℤ → Bool)
    (h : Session.Steps event (start outside inputKeyState) es Guard) :
    Session.Always event (start outside inputKeyState) es NoStuckKeys :=
  (Session.Always.of_steps (fun _ e _ hs hguard => hs.event e hguard)
    (inv_start outside inputKeyState) h).mono fun _ hs => hs.noStuck

/-- The chat box is off, the features are on, and the options have their defaults. -/
def defaults : Outside := ⟨false, false, false, false, 1, true, true, 0x100, 0x210, 1⟩

/-- Q is pressed, the chat box opens, Q is released: it is pressed again and again. -/
def stuckSession : List Event :=
  [.keyDown 0x51 .nobody false, .repeatDelayExpired 0x51,
    .outside { defaults with chatBoxOn := true }, .keyUp 0x51, .repeatExpired 0x51 .nobody false]

theorem not_noStuckKeys_chat : ¬ ∀ (outside : Outside) (inputKeyState : ℤ → Bool) (es : List Event),
    Session.Always event (start outside inputKeyState) es NoStuckKeys := by
  intro h
  have hlast := (h defaults (fun _ => false) stuckSession).last
  exact absurd (hlast.presses (0x51, true) (by decide)) (by decide)

theorem noStuckKeys_of_guard_right_key :
    Session.Always event (start defaults fun _ => false)
      [.keyDown 0x206 .nobody false, .repeatDelayExpired 0x206, .repeatExpired 0x206 .nobody false,
        .keyUp 0x206, .keyDown 0x204 .nobody false] NoStuckKeys :=
  noStuckKeys_of_guard defaults (fun _ => false) (by decide)

/-! ## The guard is exact -/

/-- What is left of a key whose key-up does not meet the guard. -/
theorem keyUp_of_not_guard (h : ¬ s.Guard (.keyUp k)) :
    (s.inputKeyUp k).repeatTimer k = true ∨ k ∈ (s.inputKeyUp k).keys := by
  cases hchat : s.outside.chatBoxOn with
  | true =>
    have hup : s.inputKeyUp k = s.keySetDown k false := if_pos hchat
    rw [hup]
    by_contra hnone
    rw [not_or] at hnone
    exact h ⟨fun htimer => absurd htimer hnone.1, fun hmem => absurd hmem hnone.2⟩
  | false =>
    have hmem : k ∈ s.keys := by
      by_contra hmem
      exact h ⟨fun _ => hchat, fun hmem' => absurd hmem' hmem⟩
    have hup : s.inputKeyUp k = (s.keySetDown k false).dispatchKeyUp k :=
      if_neg (by rw [show (s.keySetDown k false).outside = s.outside from rfl, hchat]; decide)
    have hframe : ((s.keySetDown k false).keyRepeatKeyUp k).keys = s.keys ∧
        ((s.keySetDown k false).keyRepeatKeyUp k).outside = s.outside := by
      unfold keyRepeatKeyUp
      split_ifs <;> exact ⟨rfl, rfl⟩
    refine .inr ?_
    rw [hup, dispatchKeyUp]
    split_ifs with hlastHit
    · rw [hframe.1]
      exact hmem
    · rw [hframe.2, Bool.and_eq_true, decide_eq_true_iff] at hlastHit
      have hoff : s.outside.directionMoveEnabled = false := eq_false_of_ne_true fun hon =>
        h ⟨fun _ => hchat, fun _ => ⟨hchat, hon, hlastHit⟩⟩
      unfold directionMoveKeyUp
      rw [if_neg (by rw [hframe.2, hoff]; exact Bool.false_ne_true), hframe.1]
      exact hmem

/-- After a key-up that does not get through the key is stuck, at the latest when its repeat timer
expires. -/
theorem stuck_of_not_guard (h : ¬ s.Guard (.keyUp k)) :
    ¬ NoStuckKeys (([.keyUp k, .repeatExpired k .nobody false] : List Event).foldl event s) := by
  have hreleased : (s.event (.keyUp k)).released k = true := Function.update_self ..
  rw [List.foldl_cons, List.foldl_cons, List.foldl_nil]
  have hleft : (s.event (.keyUp k)).repeatTimer k = true ∨ k ∈ (s.event (.keyUp k)).keys :=
    keyUp_of_not_guard h
  generalize s.event (.keyUp k) = s' at hreleased hleft ⊢
  intro hno
  rw [State.event] at hno
  split_ifs at hno with htimer
  · have hframe : DownFrame k { s' with presses := s'.presses ++ [(k, s'.released k)] }
        (s'.onRepeatExpired k .nobody false) := downFrame_inputKeyDown
    have hpress := hno.presses (k, true) (by
      rw [hframe.presses, ← hreleased]
      exact List.mem_append_right _ (List.mem_singleton_self _))
    cases hpress
  · exact hno.keys k hreleased (hleft.resolve_left htimer)

end State

end DreamDota.Input
