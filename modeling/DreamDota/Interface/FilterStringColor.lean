import DreamDota.Lib.Cancel

/-!
# Colour codes

`FilterStringColor` of `Label.cpp` erases ten characters at every colour code `|c` or `|C`, and then
two at every `|r` or `|R`. The second loop can bring a bar and a letter of a colour together again.

`removeCodes_eq` is what a loop leaves, as passes over the text, and `filterStringColor_iff` the texts without
codes at the end.
-/

namespace DreamDota

namespace Label

open Cancel

/-! ## The code -/

/-- The characters of a `std::string`. -/
abbrev Text := List Char

/-- `std::string::find`, where `none` is `npos`. -/
def find (pattern : Text) : Text → Option ℕ
  | [] => if pattern.isEmpty then some 0 else none
  | a :: s => if pattern.isPrefixOf (a :: s) then some 0 else (find pattern s).map (· + 1)

/-- `replace` of `count` characters by the empty string, fewer at the end. -/
def erase (pos count : ℕ) (s : Text) : Text := s.take pos ++ s.drop (pos + count)

/-- The condition of a loop: where the first letter of the pair stands behind a bar, or else the
second one. -/
def codeAt (lower upper : Char) (s : Text) : Option ℕ :=
  (find ['|', lower] s).or (find ['|', upper] s)

/-- A loop. Without fuel the result is `none`. -/
def removeCodes (lower upper : Char) (count : ℕ) : ℕ → Text → Option Text
  | 0, _ => none
  | fuel + 1, s =>
    match codeAt lower upper s with
    | some pos => removeCodes lower upper count fuel (erase pos count s)
    | none => some s

def FilterStringColor (fuel : ℕ) (inString : Text) : Option Text :=
  (removeCodes 'c' 'C' 10 fuel inString).bind (removeCodes 'r' 'R' 2 fuel)

/-! ## The law -/

def isColor (a : Char) : Bool := a == 'c' || a == 'C'

def isReturn (a : Char) : Bool := a == 'r' || a == 'R'

/-- No codes. -/
def Plain (s : Text) : Prop := ¬ HasCode '|' isColor s ∧ ¬ HasCode '|' isReturn s

/-- The loops end with a text without codes that another call leaves as it is, and a text without
codes does not change. -/
def FilterOk (s : Text) : Prop :=
  ∃ t, (∀ fuel, s.length < fuel → FilterStringColor fuel s = some t) ∧ Plain t ∧
    (∀ fuel, t.length < fuel → FilterStringColor fuel t = some t) ∧ (Plain s → t = s)

/-- The text without its colour codes: a pass for the small letter, and one for both. -/
def colorless (s : Text) : Text := scan '|' isColor 8 (scan '|' (· == 'c') 8 s)

/-- A bar with balanced return codes and then the letter of a colour behind it. -/
def Hidden (s : Text) : Prop :=
  ∃ w x, Balanced '|' isReturn w ∧ isColor x = true ∧ '|' :: (w ++ [x]) <:+: s

/-! ## One code -/

/-- What is found is the first place. -/
theorem find_some {x : Char} {s : Text} {pos : ℕ} (h : find ['|', x] s = some pos) :
    ∃ p q, s = p ++ '|' :: x :: q ∧ p.length = pos ∧ ¬ HasCode '|' (· == x) (p ++ ['|']) := by
  induction s generalizing pos with
  | nil => cases h
  | cons a s ih =>
    unfold find at h
    split_ifs at h with hprefix
    · obtain ⟨q, hq⟩ := List.isPrefixOf_iff_prefix.mp hprefix
      cases h
      refine ⟨[], q, hq.symm, rfl, ?_⟩
      rintro ⟨y, -, hin⟩
      exact absurd hin.length_le (by simp)
    · obtain ⟨pos', hpos', rfl⟩ := Option.map_eq_some_iff.mp h
      obtain ⟨p, q, rfl, rfl, hfirst⟩ := ih hpos'
      refine ⟨a :: p, q, rfl, rfl, fun hcode => ?_⟩
      rw [List.cons_append, hasCode_cons] at hcode
      rcases hcode with ⟨rfl, y, hy, hyx⟩ | hcode
      · obtain rfl : y = x := by simpa using hyx
        refine hprefix (List.isPrefixOf_iff_prefix.mpr ?_)
        cases p with
        | nil =>
          obtain rfl : '|' = y := Option.some.inj hy
          exact ⟨'|' :: q, rfl⟩
        | cons b p =>
          obtain rfl : b = y := Option.some.inj hy
          exact ⟨p ++ '|' :: b :: q, rfl⟩
      · exact hfirst hcode

theorem find_none {x : Char} {s : Text} : find ['|', x] s = none ↔ ¬ HasCode '|' (· == x) s := by
  induction s with
  | nil => exact ⟨fun _ ⟨_, _, hin⟩ => absurd hin.length_le (by simp), fun _ => rfl⟩
  | cons a s ih =>
    unfold find
    split_ifs with hprefix
    · obtain ⟨q, hq⟩ := List.isPrefixOf_iff_prefix.mp hprefix
      refine ⟨fun h => (by cases h), fun h => absurd ?_ h⟩
      exact hq ▸ hasCode_append (p := []) (by simp)
    · rw [Option.map_eq_none_iff, ih, hasCode_cons, not_or]
      refine ⟨fun h => ⟨fun ⟨ha, y, hy, hyx⟩ => hprefix ?_, h⟩, fun h => h.2⟩
      obtain ⟨q, rfl⟩ := List.head?_eq_some_iff.mp hy
      obtain rfl : y = x := by simpa using hyx
      exact List.isPrefixOf_iff_prefix.mpr ⟨q, by rw [ha]; rfl⟩

theorem erase_code (p q : Text) (x : Char) (count : ℕ) :
    erase p.length (count + 2) (p ++ '|' :: x :: q) = p ++ q.drop count := by
  have hdrop : p.length + (count + 2) = p.length + 2 + count := by omega
  rw [erase, List.take_left, hdrop, ← List.drop_drop, ← List.drop_drop, List.drop_left]
  rfl

/-! ## A loop -/

section Loop

variable {lower upper : Char} {s : Text} {pos : ℕ}

theorem hasCode_or : HasCode '|' (fun a => a == lower || a == upper) s ↔
    HasCode '|' (· == lower) s ∨ HasCode '|' (· == upper) s := by
  constructor
  · rintro ⟨x, hx, hin⟩
    rcases (Bool.or_eq_true _ _).mp hx with hx | hx
    · exact .inl ⟨x, hx, hin⟩
    · exact .inr ⟨x, hx, hin⟩
  · rintro (⟨x, hx, hin⟩ | ⟨x, hx, hin⟩)
    · exact ⟨x, (Bool.or_eq_true _ _).mpr (.inl hx), hin⟩
    · exact ⟨x, (Bool.or_eq_true _ _).mpr (.inr hx), hin⟩

/-- Where a loop erases: at the first code with the first letter, or at the first one at all. -/
theorem codeAt_some (h : codeAt lower upper s = some pos) :
    ∃ p x q, s = p ++ '|' :: x :: q ∧ p.length = pos ∧
      ((x = lower ∧ ¬ HasCode '|' (· == lower) (p ++ ['|'])) ∨
        (x = upper ∧ ¬ HasCode '|' (· == lower) s ∧
          ¬ HasCode '|' (fun a => a == lower || a == upper) (p ++ ['|']))) := by
  unfold codeAt at h
  cases hlower : find ['|', lower] s with
  | some pos' =>
    rw [hlower] at h
    cases h
    obtain ⟨p, q, hs, hpos, hfirst⟩ := find_some hlower
    exact ⟨p, lower, q, hs, hpos, .inl ⟨rfl, hfirst⟩⟩
  | none =>
    rw [hlower] at h
    obtain ⟨p, q, hs, hpos, hfirst⟩ := find_some h
    have hnone := find_none.mp hlower
    refine ⟨p, upper, q, hs, hpos, .inr ⟨rfl, hnone, fun hcode => ?_⟩⟩
    rcases hasCode_or.mp hcode with hcode | hcode
    · exact hnone (hcode.mono ⟨[], upper :: q, by simp [hs]⟩)
    · exact hfirst hcode

theorem codeAt_none :
    codeAt lower upper s = none ↔ ¬ HasCode '|' (fun a => a == lower || a == upper) s := by
  rw [codeAt, Option.or_eq_none_iff, find_none, find_none, hasCode_or, not_or]

theorem length_erase (h : codeAt lower upper s = some pos) (count : ℕ) :
    (erase pos (count + 2) s).length < s.length := by
  obtain ⟨p, x, q, rfl, rfl, -⟩ := codeAt_some h
  rw [erase_code, List.length_append, List.length_append, List.length_drop]
  simp only [List.length_cons]
  omega

/-- **A loop.** It ends with what it never changes. -/
theorem removeCodes_eq (lower upper : Char) (count : ℕ) (rest : Text → Text)
    (hstep : ∀ s pos, codeAt lower upper s = some pos → rest (erase pos (count + 2) s) = rest s)
    (hend : ∀ s, codeAt lower upper s = none → rest s = s) {fuel : ℕ} (s : Text)
    (hfuel : s.length < fuel) :
    removeCodes lower upper (count + 2) fuel s = some (rest s) ∧
      codeAt lower upper (rest s) = none ∧ (rest s).length ≤ s.length := by
  induction fuel generalizing s with
  | zero => exact absurd hfuel (Nat.not_lt_zero _)
  | succ fuel ih =>
    rw [removeCodes]
    cases hcode : codeAt lower upper s with
    | some pos =>
      have hlength := length_erase hcode count
      obtain ⟨hrun, hnone, hle⟩ := ih (erase pos (count + 2) s) (by omega)
      rw [hstep s pos hcode] at hrun hnone hle
      exact ⟨hrun, hnone, hle.trans hlength.le⟩
    | none =>
      rw [hend s hcode]
      exact ⟨rfl, hcode, le_rfl⟩

/-- Two passes are not changed by the loop. -/
theorem scan_scan_erase (count : ℕ) (h : codeAt lower upper s = some pos) :
    scan '|' (fun a => a == lower || a == upper) count
        (scan '|' (· == lower) count (erase pos (count + 2) s)) =
      scan '|' (fun a => a == lower || a == upper) count (scan '|' (· == lower) count s) := by
  obtain ⟨p, x, q, hs, rfl, ⟨rfl, hfirst⟩ | ⟨rfl, hnone, hfirst⟩⟩ := codeAt_some h
  · rw [hs, erase_code, scan_delete (x := x) (q := q) (by simp) hfirst]
  · have hp : ¬ HasCode '|' (fun a => a == lower || a == x) p :=
      fun hcode => hfirst (hcode.mono (List.prefix_append _ _).isInfix)
    have hq : ¬ HasCode '|' (· == lower) (q.drop count) := fun hcode => by
      refine hnone (hcode.mono ((List.drop_suffix count q).isInfix.trans ⟨p ++ ['|', x], [], ?_⟩))
      simp [hs]
    rw [scan_of_not_hasCode hnone, hs, erase_code, scan_delete (q := q) (by simp) hfirst]
    exact scan_scan_append (fun a ha => by simp [ha]) hp hq

/-- One pass for codes alone is not changed by the loop. -/
theorem scan_erase (hbar : '|' ≠ lower ∧ '|' ≠ upper) (h : codeAt lower upper s = some pos) :
    scan '|' (fun a => a == lower || a == upper) 0 (erase pos 2 s) =
      scan '|' (fun a => a == lower || a == upper) 0 s := by
  obtain ⟨p, x, q, rfl, rfl, hx⟩ := codeAt_some h
  have hcode : (x == lower || x == upper) = true := by
    rcases hx with ⟨rfl, -⟩ | ⟨rfl, -⟩ <;> simp
  rw [scan_delete_zero (by simp [hbar]) p q hcode]
  exact congrArg _ (erase_code p q x 0)

end Loop

/-! ## Both loops -/

theorem filterStringColor_eq {s : Text} {fuel : ℕ} (hfuel : s.length < fuel) :
    FilterStringColor fuel s = some (scan '|' isReturn 0 (colorless s)) ∧
      ¬ HasCode '|' isReturn (scan '|' isReturn 0 (colorless s)) := by
  obtain ⟨hcolor, -, hle⟩ := removeCodes_eq 'c' 'C' 8 colorless
    (fun s pos h => scan_scan_erase 8 h)
    (fun s h => by
      have hnone := codeAt_none.mp h
      rw [colorless, scan_of_not_hasCode fun hc => hnone (hasCode_or.mpr (.inl hc))]
      exact scan_of_not_hasCode hnone) s hfuel
  obtain ⟨hreturn, hnone, -⟩ := removeCodes_eq 'r' 'R' 0 (scan '|' isReturn 0)
    (fun s pos h => scan_erase (by decide) h)
    (fun s h => scan_of_not_hasCode (codeAt_none.mp h)) (colorless s) (hle.trans_lt hfuel)
  rw [FilterStringColor, hcolor]
  exact ⟨hreturn, codeAt_none.mp hnone⟩

/-- A text without codes does not change. -/
theorem scan_of_plain {s : Text} (h : Plain s) : scan '|' isReturn 0 (colorless s) = s := by
  have hlower : ¬ HasCode '|' (· == 'c') s := fun hc => h.1 (hasCode_or.mpr (.inl hc))
  rw [colorless, scan_of_not_hasCode hlower, scan_of_not_hasCode h.1, scan_of_not_hasCode h.2]

/-- **Colour codes.** The text that is left has no codes, and the filter is done with it, if and only
if no return codes stand between a bar and the letter of a colour once the colour codes are out. -/
theorem filterStringColor_iff (s : Text) : FilterOk s ↔ ¬ Hidden (colorless s) := by
  have hdisjoint : ∀ a, isColor a = true → isReturn a = false := by
    intro a ha
    rcases (Bool.or_eq_true _ _).mp ha with ha | ha
    · rw [eq_of_beq ha]
      rfl
    · rw [eq_of_beq ha]
      rfl
  have hbar : isReturn '|' = false := rfl
  have hother : isColor '|' = false := rfl
  have hhidden := hasCode_scan_iff hbar hother hdisjoint (colorless s)
  obtain ⟨hrun, hreturn⟩ := filterStringColor_eq (Nat.lt_succ_self s.length)
  constructor
  · rintro ⟨t, ht, hplain, -⟩ hhid
    obtain rfl := Option.some.inj (hrun.symm.trans (ht _ (Nat.lt_succ_self _)))
    exact hplain.1 (hhidden.mpr hhid)
  · intro hnot
    have hplain : Plain (scan '|' isReturn 0 (colorless s)) := ⟨hhidden.not.mpr hnot, hreturn⟩
    refine ⟨_, fun fuel hfuel => (filterStringColor_eq hfuel).1, hplain, fun fuel hfuel => ?_,
      scan_of_plain⟩
    exact (filterStringColor_eq hfuel).1.trans (congrArg some (scan_of_plain hplain))

/-- A return code between a bar and a small `c`. -/
def barReturnColor : Text := ['|', '|', 'r', 'c']

/-- The code `|c` is left. -/
theorem not_filterOk_barReturnColor : ¬ FilterOk barReturnColor := by
  rintro ⟨t, ht, hplain, -⟩
  have hrun : FilterStringColor 5 barReturnColor = some ['|', 'c'] := by decide
  obtain rfl := Option.some.inj (hrun.symm.trans (ht 5 (by decide)))
  exact hplain.1 (hasCode_append (p := []) (q := []) rfl)

end Label

end DreamDota
