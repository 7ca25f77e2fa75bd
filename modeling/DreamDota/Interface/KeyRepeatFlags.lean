import DreamDota.Interface.KeyRepeatSlots

/-!
# The key repeat arrays as flags

`Input.State` has a flag for every entry of the two arrays. The handlers act on these flags as they
do on the entries.
-/

namespace DreamDota

namespace KeyRepeat

open Input (keyAllowedToRepeat)

namespace State

variable {s s' : State} {i : Input.State} {r : Option TimerId} {k : ℤ}

/-- The two tables of flags that the key states are modelled with. -/
def flag (i : Input.State) : Slot → Bool
  | (.repeatTimer, k) => i.repeatTimer k
  | (.repeatDelayTimer, k) => i.repeatDelayTimer k

def setFlag (i : Input.State) (p : Slot) (b : Bool) : Input.State :=
  match p with
  | (.repeatTimer, k) => { i with repeatTimer := Function.update i.repeatTimer k b }
  | (.repeatDelayTimer, k) => { i with repeatDelayTimer := Function.update i.repeatDelayTimer k b }

/-- A flag is set exactly while the entry points to a timer. -/
structure Flags (s : State) (i : Input.State) : Prop where
  flag : ∀ p, State.flag i p = (s.slot p).isSome
  enable : i.outside.keyAutoRepeatEnable = s.enable
  keyIsDown : ∀ k, i.keyIsDown k = s.keyIsDown k

theorem flag_setFlag (i : Input.State) (p q : Slot) (b : Bool) :
    flag (setFlag i p b) q = if q = p then b else flag i q := by
  obtain ⟨kind, k⟩ := p
  obtain ⟨kind', j⟩ := q
  cases kind <;> cases kind' <;> simp [flag, setFlag, Function.update_apply]

/-- The entry of the flag is written, whatever the rest of the timers. -/
theorem Flags.set (h : Flags s i) {p : Slot} {o : Option TimerId}
    (hslot : ∀ q, s'.slot q = if q = p then o else s.slot q) (henable : s'.enable = s.enable)
    (hdown : s'.keyIsDown = s.keyIsDown) : Flags s' (setFlag i p o.isSome) := by
  refine ⟨fun q => ?_, ?_, ?_⟩
  · rw [flag_setFlag, hslot, h.flag]
    split_ifs <;> rfl
  · rw [henable, ← h.enable]
    obtain ⟨kind, k⟩ := p
    cases kind <;> rfl
  · rw [hdown]
    obtain ⟨kind, k⟩ := p
    cases kind <;> exact h.keyIsDown

theorem clear_options (s : State) (p : Slot) :
    (s.clear p).enable = s.enable ∧ (s.clear p).keyIsDown = s.keyIsDown := by
  unfold State.clear
  cases s.slot p <;> exact ⟨rfl, rfl⟩

theorem Flags.clear (h : Flags s i) (p : Slot) : Flags (s.clear p) (setFlag i p false) :=
  h.set (o := none) (slot_clear s p) (clear_options s p).1 (clear_options s p).2

theorem Flags.startTimer (h : Flags s i) (p : Slot) : Flags (s.startTimer p) (setFlag i p true) :=
  h.set (o := some s.timers.heap.length) (fun _ => Function.update_apply ..) rfl rfl

/-- A second flag in the same place. -/
theorem setFlag_setFlag (i : Input.State) (p : Slot) (b b' : Bool) :
    setFlag (setFlag i p b) p b' = setFlag i p b' := by
  obtain ⟨kind, k⟩ := p
  cases kind <;> simp [setFlag]

/-- The handlers do to the flags what the handlers of the flags do. -/
theorem Flags.onKeyDown (h : Flags s i) (k : ℤ) : Flags (s.onKeyDown k) (i.keyRepeatKeyDown k) := by
  have htimer : i.repeatTimer k = (s.slot (.repeatTimer, k)).isSome := h.flag (.repeatTimer, k)
  have hstart := (h.clear (.repeatDelayTimer, k)).startTimer (.repeatDelayTimer, k)
  rw [setFlag_setFlag] at hstart
  unfold State.onKeyDown Input.State.keyRepeatKeyDown
  rw [h.enable, htimer]
  by_cases henable : s.enable ≤ 0
  · rw [if_pos henable, if_pos henable]
    exact h
  · rw [if_neg henable, if_neg henable]
    by_cases hk : keyAllowedToRepeat k = true
    · rw [if_pos hk, if_pos hk]
      cases s.slot (.repeatTimer, k) with
      | none => exact hstart
      | some tm => exact h
    · rw [if_neg hk, if_neg hk]
      exact h

theorem Flags.onKeyUp (h : Flags s i) (k : ℤ) : Flags (s.onKeyUp k) (i.keyRepeatKeyUp k) := by
  unfold State.onKeyUp Input.State.keyRepeatKeyUp
  by_cases hk : keyAllowedToRepeat k = true
  · rw [if_pos hk, if_pos hk]
    exact (h.clear (.repeatDelayTimer, k)).clear (.repeatTimer, k)
  · rw [if_neg hk, if_neg hk]
    exact h

theorem Flags.onRepeatDelayExpired (h : Flags s i) {tm : TimerId} (hdata : s.data tm = some k) :
    Flags (s.onRepeatDelayExpired tm) (i.onRepeatDelayExpired k) := by
  have hclear := h.clear (.repeatDelayTimer, k)
  have htimer : (setFlag i (.repeatDelayTimer, k) false).repeatTimer k =
    ((s.clear (.repeatDelayTimer, k)).slot (.repeatTimer, k)).isSome := hclear.flag (.repeatTimer, k)
  unfold State.onRepeatDelayExpired Input.State.onRepeatDelayExpired
  rw [hdata]
  simp only
  rw [← hclear.keyIsDown]
  show Flags _ (if (setFlag i (.repeatDelayTimer, k) false).keyIsDown k = true then
    if (setFlag i (.repeatDelayTimer, k) false).repeatTimer k = true then
      setFlag i (.repeatDelayTimer, k) false
    else setFlag (setFlag i (.repeatDelayTimer, k) false) (.repeatTimer, k) true
    else setFlag (setFlag i (.repeatDelayTimer, k) false) (.repeatTimer, k) false)
  rw [htimer]
  cases (setFlag i (.repeatDelayTimer, k) false).keyIsDown k with
  | false => exact hclear.clear (.repeatTimer, k)
  | true =>
    have hstart := hclear.startTimer (.repeatTimer, k)
    rw [if_pos rfl, if_pos rfl]
    cases (s.clear (.repeatDelayTimer, k)).slot (.repeatTimer, k) with
    | none => exact hstart
    | some tm' => exact hclear

/-- A focus event clears every flag, those of the keys that do not repeat included. -/
theorem Flags.onFocus (h : Flags s i) (hs : Inv r s) : Flags s.onFocus i.keyRepeatFocus := by
  have hsame : ∀ (keys : List ℕ) (s : State),
      (keys.foldl (fun s (k : ℕ) => s.clearKey k) s).enable = s.enable ∧
        (keys.foldl (fun s (k : ℕ) => s.clearKey k) s).keyIsDown = s.keyIsDown := by
    intro keys
    induction keys with
    | nil => exact fun s => ⟨rfl, rfl⟩
    | cons k keys ih =>
      intro s
      obtain ⟨henable, hdown⟩ := clear_options s (.repeatDelayTimer, k)
      obtain ⟨henable', hdown'⟩ := clear_options (s.clear (.repeatDelayTimer, k)) (.repeatTimer, k)
      obtain ⟨hrest, hrest'⟩ := ih (s.clearKey k)
      exact ⟨hrest.trans (henable'.trans henable), hrest'.trans (hdown'.trans hdown)⟩
  refine ⟨fun p => ?_, ?_, ?_⟩
  · rw [slot_onFocus hs]
    obtain ⟨kind, k⟩ := p
    cases kind <;> rfl
  · exact h.enable.trans (hsame _ s).1.symm
  · rw [show s.onFocus.keyIsDown = s.keyIsDown from (hsame _ s).2]
    exact h.keyIsDown

end State

end KeyRepeat

end DreamDota
