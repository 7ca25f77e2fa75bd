import DreamDota.Json.TokenerCalls
import Mathlib.Tactic.IntervalCases

/-!
# Texts that are read again

How the tokener reads the pieces of a text that `json_object_to_json_string` wrote: words, numbers
and strings. `Leads x y` are turns that lead from `x` to `y`.

1. `leads_string`: a string gets its characters back one by one, with their escapes.
2. `reads_null`, `reads_boolean`, `reads_int`, `reads_double`, `reads_string`: the values that are
   neither objects nor arrays.
-/

open Bytes

namespace DreamDota

namespace JsonTokener

open Json

variable {D : Type} {len : Bool} {io : DoubleIo D} {tok tok' : Tokener D} {obj : Json D} {c : Byte}
  {str rest s : Text} {x y z : Config D} {v : Json D}

/-! ## Turns in a row -/

variable (len io) in
/-- There is at least one turn between `x` and `y`. -/
def Leads (x y : Config D) : Prop := ∃ k, ∀ n, run len io (n + (k + 1)) x = run len io n y

theorem Leads.trans (hx : Leads len io x y) (hy : Leads len io y z) : Leads len io x z := by
  obtain ⟨k, hk⟩ := hx
  obtain ⟨l, hl⟩ := hy
  refine ⟨k + l + 1, fun n => ?_⟩
  rw [← hl, ← hk]
  congr 1
  omega

theorem leads_turn (h : step len io x = some (.turn y)) : Leads len io x y := by
  refine ⟨0, fun n => ?_⟩
  rw [Nat.zero_add, run, h]

/-- Configurations with the same next turn. -/
theorem Leads.of_step (h : step len io x = step len io y) (hy : Leads len io y z) :
    Leads len io x z := by
  obtain ⟨k, hk⟩ := hy
  refine ⟨k, fun n => ?_⟩
  rw [← hk, ← Nat.add_assoc, run, run, h]

theorem run_mono {fuel fuel' : ℕ} (h : run len io fuel x = some tok) (hle : fuel ≤ fuel') :
    run len io fuel' x = some tok := by
  induction fuel generalizing x fuel' with
  | zero => cases h
  | succ fuel ih =>
    obtain ⟨fuel', rfl⟩ := Nat.exists_eq_add_of_le' (Nat.one_le_of_lt hle)
    unfold run at h ⊢
    cases hstep : step len io x with
    | none =>
      rw [hstep] at h
      cases h
    | some next =>
      rw [hstep] at h
      cases next with
      | turn x' => exact ih h (Nat.le_of_succ_le_succ hle)
      | out tok eof => exact h

/-! ## Values -/

/-- A level that a value is to be read in. -/
structure Ready (tok : Tokener D) : Prop where
  state : tok.top.state = .eatws
  savedState : tok.top.savedState = .start

/-- A value was read, over the levels `below`. -/
structure Complete (v : Json D) (below : List (Srec D)) (err : Error) (tok : Tokener D) : Prop where
  state : tok.top.state = .eatws
  savedState : tok.top.savedState = .finish
  current : tok.top.current = v
  below : tok.below = below
  err : tok.err = err

/-- The values whose last character ends them. -/
def Closed : Json D → Prop
  | .object _ | .array _ | .string _ => True
  | _ => False

/-- What may follow a value. -/
def Follows (v : Json D) : Text → Prop
  | [] => Closed v
  | c :: _ => c ∉ numberChars

variable (len io) in
/-- A value is read from its text. -/
def Reads (tok : Tokener D) (obj : Json D) (s : Text) (v : Json D) (rest : Text) : Prop :=
  ∃ tok' obj', Leads len io ⟨tok, obj, s ++ rest⟩ ⟨tok', obj', rest⟩ ∧
    Complete v tok.below tok.err tok'

theorem Tokener.append_append (tok : Tokener D) (s t : Text) :
    (tok.append s).append t = tok.append (s ++ t) := by
  unfold Tokener.append
  rw [List.append_assoc]

/-- White space before a character that is none, and does not start a comment. -/
theorem leads_space (hstate : tok.top.state = .eatws) (hs : ∀ b ∈ s, isSpace b = true ∧ b ≠ 0)
    (hc : isSpace c = false) (hslash : c ≠ ch '/') :
    Leads len io ⟨tok, obj, s ++ c :: str⟩ ⟨tok.goto tok.top.savedState, obj, c :: str⟩ := by
  have hloop : (advanceWhile isSpace (s ++ c :: str)).2 = .here c str := by
    induction s with
    | nil => simp [advanceWhile, hc]
    | cons b s ih =>
      obtain ⟨⟨hb, hne⟩, hrest⟩ := List.forall_mem_cons.mp hs
      rw [List.cons_append, advanceWhile, if_pos hb, if_neg hne]
      exact ih hrest
  refine leads_turn ?_
  have hturn : ∀ b t, s ++ c :: str = b :: t →
      turn len io tok obj b t = some (.turn ⟨tok.goto tok.top.savedState, obj, c :: str⟩) := by
    intro b t hbt
    unfold turn
    simp only [hstate]
    rw [← hbt, hloop, afterLoop, if_neg hslash]
  unfold step
  cases hbt : s ++ c :: str with
  | nil => exact absurd hbt (List.append_ne_nil_of_right_ne_nil s (List.cons_ne_nil c str))
  | cons b t => exact hturn b t hbt

/-! ## Words -/

theorem reads_null (h : Ready tok) (c : Byte) (str : Text) :
    Reads len io tok obj (text io .null) .null (c :: str) := by
  obtain ⟨pb, isDouble, stPos, err, ucsChar, quoteChar, ⟨state, savedState, current, name⟩, below⟩ :=
    tok
  obtain ⟨rfl, rfl⟩ : state = .eatws ∧ savedState = .start := ⟨h.state, h.savedState⟩
  refine ⟨⟨ascii "null" ++ [c], isDouble, 4, err, ucsChar, quoteChar,
    ⟨.eatws, .finish, .null, name⟩, below⟩, obj, ?_, ⟨rfl, rfl, rfl, rfl, rfl⟩⟩
  iterate 6 refine (leads_turn rfl).trans ?_
  exact leads_turn rfl

theorem reads_boolean (h : Ready tok) (b : Bool) (c : Byte) (str : Text) :
    Reads len io tok obj (text io (.boolean b)) (.boolean b) (c :: str) := by
  obtain ⟨pb, isDouble, stPos, err, ucsChar, quoteChar, ⟨state, savedState, current, name⟩, below⟩ :=
    tok
  obtain ⟨rfl, rfl⟩ : state = .eatws ∧ savedState = .start := ⟨h.state, h.savedState⟩
  cases b with
  | false =>
    refine ⟨⟨ascii "false" ++ [c], isDouble, 5, err, ucsChar, quoteChar,
      ⟨.eatws, .finish, .boolean false, name⟩, below⟩, obj, ?_, ⟨rfl, rfl, rfl, rfl, rfl⟩⟩
    iterate 7 refine (leads_turn rfl).trans ?_
    exact leads_turn rfl
  | true =>
    refine ⟨⟨ascii "true" ++ [c], isDouble, 4, err, ucsChar, quoteChar,
      ⟨.eatws, .finish, .boolean true, name⟩, below⟩, obj, ?_, ⟨rfl, rfl, rfl, rfl, rfl⟩⟩
    iterate 6 refine (leads_turn rfl).trans ?_
    exact leads_turn rfl

/-! ## Numbers -/

theorem advanceWhile_append {p : Byte → Bool} (hs : ∀ b ∈ s, p b = true ∧ b ≠ 0) (hc : p c = false) :
    advanceWhile p (s ++ c :: str) = (s, .here c str) := by
  induction s with
  | nil => simp [advanceWhile, hc]
  | cons b s ih =>
    obtain ⟨⟨hb, hne⟩, hrest⟩ := List.forall_mem_cons.mp hs
    rw [List.cons_append, advanceWhile, if_pos hb, if_neg hne, ih hrest]

theorem mem_ascii_ne_zero {b : Byte} (h : b ∈ numberChars) : b ≠ 0 := by
  rintro rfl
  revert h
  decide

/-- A minus sign or a digit. -/
theorem digit_cases {b : Byte} (h : b = ch '-' ∨ b ∈ numberChars.take 10) :
    b = ch '-' ∨ b = ch '0' ∨ b = ch '1' ∨ b = ch '2' ∨ b = ch '3' ∨ b = ch '4' ∨ b = ch '5' ∨
      b = ch '6' ∨ b = ch '7' ∨ b = ch '8' ∨ b = ch '9' := by
  rcases h with h | h
  · exact .inl h
  · refine .inr ?_
    simpa [numberChars, ascii] using h

theorem startTurn_number {b : Byte} (h : b = ch '-' ∨ b ∈ numberChars.take 10)
    (tok : Tokener D) (obj : Json D) (str : Text) :
    isSpace b = false ∧ b ≠ ch '/' ∧ startTurn tok obj b str =
      .turn ⟨{ tok.goto .number with pb := [], isDouble := false }, obj, b :: str⟩ := by
  rcases digit_cases h with rfl | rfl | rfl | rfl | rfl | rfl | rfl | rfl | rfl | rfl | rfl <;>
    exact ⟨rfl, by decide, rfl⟩

/-- A number that starts like one, in front of a character that does not belong to it. -/
theorem reads_number (h : Ready tok) {b : Byte} (hfirst : b = ch '-' ∨ b ∈ numberChars.take 10)
    (hs : ∀ b' ∈ b :: s, b' ∈ numberChars) (hv : (if (b :: s).any fun c => c = ch '.' ∨ c = ch 'e'
      then (io.scan (b :: s)).map Json.double else (scanInt (b :: s)).map Json.int) = some v)
    (hc : c ∉ numberChars) : Reads len io tok obj (b :: s) v (c :: str) := by
  obtain ⟨pb, isDouble, stPos, err, ucsChar, quoteChar, ⟨state, savedState, current, name⟩, below⟩ :=
    tok
  obtain ⟨rfl, rfl⟩ : state = .eatws ∧ savedState = .start := ⟨h.state, h.savedState⟩
  refine ⟨⟨b :: s, (b :: s).any fun c => c = ch '.' ∨ c = ch 'e', stPos, err, ucsChar, quoteChar,
    ⟨.eatws, .finish, v, name⟩, below⟩, obj, ?_, ⟨rfl, rfl, rfl, rfl, rfl⟩⟩
  have hspaces : ∀ b' ∈ ([] : Text), isSpace b' = true ∧ b' ≠ 0 := List.forall_mem_nil _
  have hchars : ∀ b' ∈ b :: s, (decide (b' ≠ 0) && strchr numberChars b') = true ∧ b' ≠ 0 := by
    intro b' hb'
    have hne := mem_ascii_ne_zero (hs b' hb')
    have hmem : strchr numberChars b' = true := strchr_iff.mpr (.inl (hs b' hb'))
    rw [hmem, Bool.and_true]
    exact ⟨decide_eq_true hne, hne⟩
  have hstop : (decide (c ≠ 0) && strchr numberChars c) = false := by
    rw [← Bool.not_eq_true, Bool.and_eq_true, decide_eq_true_eq, strchr_iff]
    exact fun h => h.2.elim hc h.1
  have hstring : cString (b :: s) = b :: s := by
    unfold cString
    rw [List.takeWhile_eq_self_iff]
    exact fun b' hb' => decide_eq_true (hchars b' hb').2
  obtain ⟨hspace, hslash, hstart⟩ := startTurn_number hfirst ⟨pb, isDouble, stPos, err, ucsChar,
    quoteChar, ⟨.start, .start, current, name⟩, below⟩ obj (s ++ c :: str)
  have hnumber : step len io ⟨⟨pb, isDouble, stPos, err, ucsChar, quoteChar,
      ⟨.start, .start, current, name⟩, below⟩, obj, b :: (s ++ c :: str)⟩ = some (.turn
        ⟨⟨[], false, stPos, err, ucsChar, quoteChar, ⟨.number, .start, current, name⟩, below⟩, obj,
          b :: (s ++ c :: str)⟩) := congrArg some hstart
  refine (leads_space rfl hspaces hspace hslash).trans ((leads_turn hnumber).trans (leads_turn ?_))
  unfold step turn
  dsimp only [Tokener.append]
  rw [← List.cons_append, advanceWhile_append hchars hstop, afterLoop, numberTurn]
  dsimp only [List.nil_append]
  rw [hstring, Bool.false_or, hv]
  rfl

/-- The byte of a digit. -/
theorem ch_digit {d : Char} (h : d.isDigit = true) :
    ch d ∈ numberChars.take 10 ∧ (ch '0' ≤ ch d ∧ ch d ≤ ch '9') ∧ isSpace (ch d) = false ∧
      (ch d - ch '0').toNat = d.toNat - '0'.toNat := by
  have hd : 48 ≤ d.toNat ∧ d.toNat ≤ 57 := by
    simpa [Char.isDigit, UInt32.le_iff_toNat_le] using h
  have hall : ∀ n, 48 ≤ n → n ≤ 57 → BitVec.ofNat 8 n ∈ numberChars.take 10 ∧
      (ch '0' ≤ BitVec.ofNat 8 n ∧ BitVec.ofNat 8 n ≤ ch '9') ∧ isSpace (BitVec.ofNat 8 n) = false ∧
        (BitVec.ofNat 8 n - ch '0').toNat = n - '0'.toNat := by
    intro n h48 h57
    interval_cases n <;> decide
  exact hall _ hd.1 hd.2

theorem scanInt_digits {l : List Char} (hl : ∀ d ∈ l, d.isDigit = true) (n : ℕ) :
    (l.map ch).takeWhile (fun c => ch '0' ≤ c ∧ c ≤ ch '9') = l.map ch ∧
      (l.map ch).foldl (fun n c => 10 * n + (c - ch '0').toNat) n = Nat.ofDigitChars 10 l n := by
  constructor
  · rw [List.takeWhile_eq_self_iff]
    intro c hc
    obtain ⟨d, hd, rfl⟩ := List.mem_map.mp hc
    exact decide_eq_true (ch_digit (hl d hd)).2.1
  · induction l generalizing n with
    | nil => rfl
    | cons d l ih =>
      obtain ⟨hd, hrest⟩ := List.forall_mem_cons.mp hl
      rw [List.map_cons, List.foldl_cons, (ch_digit hd).2.2.2, ih hrest, Nat.ofDigitChars_cons]

theorem scanInt_printInt (i : BitVec 32) : scanInt (printInt i) = some i := by
  obtain ⟨d, l, hdl⟩ := List.exists_cons_of_ne_nil (Nat.toDigits_ne_nil (b := 10) (n := i.toInt.natAbs))
  have hdigits : ∀ d' ∈ d :: l, d'.isDigit = true :=
    hdl ▸ Decimal.all_isDigit_toDigits i.toInt.natAbs
  have hd := ch_digit (hdigits d List.mem_cons_self)
  obtain ⟨htake, hfold⟩ := scanInt_digits hdigits 0
  have hvalue : Nat.ofDigitChars 10 (d :: l) 0 = i.toInt.natAbs := by
    rw [← hdl, Nat.ofDigitChars_ten_toDigits]
  rw [hvalue] at hfold
  have hminus : ch d ≠ ch '-' := fun heq => by
    have hle := hd.2.1.1
    rw [heq] at hle
    exact absurd hle (by decide)
  have hplus : ch d ≠ ch '+' := fun heq => by
    have hle := hd.2.1.1
    rw [heq] at hle
    exact absurd hle (by decide)
  have hne : (d :: l).map ch ≠ [] := List.cons_ne_nil _ _
  unfold printInt Decimal.ofInt scanInt
  rw [hdl]
  by_cases hneg : i.toInt < 0
  · have hdrop : (List.map ch ('-' :: d :: l)).dropWhile isSpace = ch '-' :: (d :: l).map ch := rfl
    have hint : i.toInt = -(i.toInt.natAbs : ℤ) := by omega
    have hi : -BitVec.ofNat 32 i.toInt.natAbs = i := by
      rw [← BitVec.ofInt_natCast, ← BitVec.ofInt_neg, ← hint, BitVec.ofInt_toInt]
    simp only [Decimal.sign, hneg, decide_true, ↓reduceIte, List.singleton_append, hdrop,
      List.head?_cons, true_or, List.tail_cons, htake, hfold, hne, hi]
  · have hdrop : ((d :: l).map ch).dropWhile isSpace = (d :: l).map ch := by
      rw [List.map_cons, List.dropWhile_cons_of_neg (by rw [hd.2.2.1]; exact Bool.false_ne_true)]
    have hint : i.toInt = (i.toInt.natAbs : ℤ) := by omega
    have hi : BitVec.ofNat 32 i.toInt.natAbs = i := by
      rw [← BitVec.ofInt_natCast, ← hint, BitVec.ofInt_toInt]
    have hhead : ((d :: l).map ch).head? = some (ch d) := rfl
    simp only [Decimal.sign, hneg, decide_false, Bool.false_eq_true, ↓reduceIte, List.nil_append,
      hdrop, hhead, Option.some.injEq, hminus, hplus, or_self, htake, hfold, hne, hi]

theorem text_int (i : BitVec 32) : text io (.int i) = printInt i := by
  rw [text, toJsonString, List.nil_append]

theorem mem_printInt {i : BitVec 32} {b : Byte} (hb : b ∈ printInt i) :
    b = ch '-' ∨ b ∈ numberChars.take 10 := by
  obtain ⟨d, hd, rfl⟩ := List.mem_map.mp hb
  rcases List.mem_append.mp hd with hsign | hdigit
  · unfold Decimal.sign at hsign
    split_ifs at hsign
    · exact .inl (congrArg ch (List.mem_singleton.mp hsign))
    · exact absurd hsign List.not_mem_nil
  · exact .inr (ch_digit (Decimal.all_isDigit_toDigits _ d hdigit)).1

theorem printInt_ne_nil (i : BitVec 32) : printInt i ≠ [] := by
  unfold printInt Decimal.ofInt
  simp [Nat.toDigits_ne_nil]

theorem reads_int (h : Ready tok) (i : BitVec 32) (hc : c ∉ numberChars) :
    Reads len io tok obj (text io (.int i)) (.int i) (c :: str) := by
  have hmem := fun b => mem_printInt (i := i) (b := b)
  have hread := scanInt_printInt i
  rw [text_int]
  obtain ⟨b, s, hbs⟩ := List.exists_cons_of_ne_nil (printInt_ne_nil i)
  rw [hbs] at hmem hread ⊢
  refine reads_number h (hmem b List.mem_cons_self) (fun b' hb' => ?_) ?_ hc
  · rcases digit_cases (hmem b' hb') with
      rfl | rfl | rfl | rfl | rfl | rfl | rfl | rfl | rfl | rfl | rfl <;> decide
  · have hpoint : ((b :: s).any fun c => c = ch '.' ∨ c = ch 'e') = false := by
      rw [List.any_eq_false]
      intro b' hb'
      rcases digit_cases (hmem b' hb') with
        rfl | rfl | rfl | rfl | rfl | rfl | rfl | rfl | rfl | rfl | rfl <;> decide
    rw [hpoint, if_neg Bool.false_ne_true, hread]
    rfl

theorem reads_double (h : Ready tok) {d : D} (hd : Printable io d) (hc : c ∉ numberChars) :
    Reads len io tok obj (text io (.double d)) (.double d) (c :: str) := by
  have htext : text io (.double d) = io.print d := by rw [text, toJsonString, List.nil_append]
  obtain ⟨hchars, ⟨b, s, hbs, hfirst⟩, hpoint, hscan⟩ := hd
  rw [htext]
  rw [hbs] at hchars hpoint hscan ⊢
  refine reads_number h hfirst hchars ?_ hc
  rw [if_pos (List.any_eq_true.mpr ⟨_, hpoint, decide_eq_true (.inl rfl)⟩), hscan]
  rfl

/-! ## Strings -/

/-- What is done behind the last quote. -/
def Tokener.unquote (tok : Tokener D) : Tokener D :=
  if tok.top.state = .string then tok.complete (.string (cString tok.pb))
  else (tok.eatBefore .objectFieldEnd).setName (some (cString tok.pb))

theorem turn_quoted (h : tok.top.state.Quoted) (obj : Json D) (c : Byte) (str : Text) :
    turn len io tok obj c str = stringTurn len tok obj c str Tokener.unquote := by
  unfold turn stringTurn Tokener.unquote Tokener.append
  rcases h with hs | hs <;> simp only [hs, ↓reduceIte, reduceCtorEq]

/-- The tokener within the same string, with more characters. -/
structure Within (tok : Tokener D) (s : Text) (tok' : Tokener D) : Prop where
  pb : tok'.pb = tok.pb ++ s
  quoteChar : tok'.quoteChar = tok.quoteChar
  state : tok'.top.state = tok.top.state
  current : tok'.top.current = tok.top.current
  below : tok'.below = tok.below
  err : tok'.err = tok.err

theorem Within.trans {tok₁ tok₂ tok₃ : Tokener D} {s t : Text} (h : Within tok₁ s tok₂)
    (h' : Within tok₂ t tok₃) : Within tok₁ (s ++ t) tok₃ :=
  ⟨by rw [h'.pb, h.pb, List.append_assoc], h'.quoteChar.trans h.quoteChar, h'.state.trans h.state,
    h'.current.trans h.current, h'.below.trans h.below, h'.err.trans h.err⟩

/-- A character without an escape is passed together with those behind it. -/
theorem step_plain (h : tok.top.state.Quoted) {b : Byte} (hquote : b ≠ tok.quoteChar)
    (hslash : b ≠ ch '\\') (hne : b ≠ 0) (obj : Json D) (c : Byte) (str : Text) :
    step len io ⟨tok, obj, b :: c :: str⟩ = step len io ⟨tok.append [b], obj, c :: str⟩ := by
  have hb : decide (b ≠ tok.quoteChar ∧ b ≠ ch '\\') = true := decide_eq_true ⟨hquote, hslash⟩
  change turn len io tok obj b (c :: str) = turn len io (tok.append [b]) obj c str
  rw [turn_quoted h, turn_quoted (show (tok.append [b]).top.state.Quoted from h)]
  unfold stringTurn
  rw [advanceWhile.eq_def _ (b :: c :: str)]
  dsimp only
  rw [if_pos hb, if_neg hne, Tokener.append_append]
  rfl

/-- A backslash. -/
theorem leads_escape (h : tok.top.state.Quoted) (hquote : tok.quoteChar = ch '"') (obj : Json D)
    (str : Text) : Leads len io ⟨tok, obj, ch '\\' :: str⟩
      ⟨(tok.append []).escape tok.top.state, obj, str⟩ := by
  refine leads_turn ?_
  change turn len io tok obj (ch '\\') str = _
  have hstop : decide (ch '\\' ≠ tok.quoteChar ∧ ch '\\' ≠ ch '\\') = false :=
    decide_eq_false fun h => h.2 rfl
  have hne : ch '\\' ≠ tok.quoteChar := by
    rw [hquote]
    decide
  rw [turn_quoted h, stringTurn, advanceWhile, if_neg (by rw [hstop]; exact Bool.false_ne_true), afterLoop, if_neg hne]
  rfl

theorem unicodeLoop_digit {d : Byte} (hd : d ∈ hexChars) (str : Text) :
    unicodeLoop len tok obj (d :: str) =
      if tok.stPos + 1 = 4 then some (.turn ⟨((tok.addHex d).append
        (utf8 (tok.addHex d).ucsChar)).goto tok.top.savedState, obj, str⟩)
      else unicodeLoop len (tok.addHex d) obj str := by
  have hne : d ≠ 0 := by
    rintro rfl
    revert hd
    decide
  rw [unicodeLoop, if_pos (strchr_iff.mpr (.inl hd))]
  dsimp only
  rw [advance, if_neg hne, if_neg hne]
  rfl

/-- A control character with a long escape. -/
theorem longEscape_spec {b : Byte} (h : b < ch ' ') :
    ∃ d₂ ∈ hexChars, ∃ d₃ ∈ hexChars, longEscape b = ascii "\\u00" ++ [d₂, d₃] ∧
      utf8 (0 + hexdigit (ch '0') <<< (3 * 4) + hexdigit (ch '0') <<< (2 * 4) +
        hexdigit d₂ <<< (1 * 4) + hexdigit d₃ <<< (0 * 4)) = [b] := by
  have hall : ∀ n < 32, ∃ d₂ ∈ hexChars, ∃ d₃ ∈ hexChars,
      longEscape (BitVec.ofNat 8 n) = ascii "\\u00" ++ [d₂, d₃] ∧
        utf8 (0 + hexdigit (ch '0') <<< (3 * 4) + hexdigit (ch '0') <<< (2 * 4) +
          hexdigit d₂ <<< (1 * 4) + hexdigit d₃ <<< (0 * 4)) = [BitVec.ofNat 8 n] := by
    intro n hn
    refine ⟨hexChars.getD (n / 16) 0, ?_, hexChars.getD (n % 16) 0, ?_, ?_, ?_⟩ <;>
      interval_cases n <;> decide
  have hb := hall b.toNat h
  rwa [BitVec.ofNat_toNat, BitVec.setWidth_eq] at hb

/-- The level in front of the four digits. -/
def Tokener.unicode (tok : Tokener D) : Tokener D :=
  { tok.goto .escapeUnicode with ucsChar := 0, stPos := 0 }

/-- The character of the four digits is appended. -/
def Tokener.addUnicode (tok : Tokener D) (d₀ d₁ d₂ d₃ : Byte) : Tokener D :=
  let tok' := (((tok.addHex d₀).addHex d₁).addHex d₂).addHex d₃
  (tok'.append (utf8 tok'.ucsChar)).goto tok.top.savedState

theorem step_u (h : tok.top.state = .stringEscape) (obj : Json D) (str : Text) :
    step len io ⟨tok, obj, ch 'u' :: str⟩ = some (.turn ⟨tok.unicode, obj, str⟩) := by
  change turn len io tok obj (ch 'u') str = _
  unfold turn
  rw [h]
  rfl

theorem step_unicode (h : tok.top.state = .escapeUnicode) (hpos : tok.stPos = 0)
    {d₀ d₁ d₂ d₃ : Byte} (h₀ : d₀ ∈ hexChars) (h₁ : d₁ ∈ hexChars) (h₂ : d₂ ∈ hexChars)
    (h₃ : d₃ ∈ hexChars) (obj : Json D) (str : Text) :
    step len io ⟨tok, obj, d₀ :: d₁ :: d₂ :: d₃ :: str⟩ =
      some (.turn ⟨tok.addUnicode d₀ d₁ d₂ d₃, obj, str⟩) := by
  change turn len io tok obj d₀ (d₁ :: d₂ :: d₃ :: str) = _
  unfold turn
  simp only [h]
  rw [unicodeLoop_digit h₀, if_neg (by rw [hpos]; decide), unicodeLoop_digit h₁,
    if_neg (by simp [Tokener.addHex, hpos]), unicodeLoop_digit h₂,
    if_neg (by simp [Tokener.addHex, hpos]), unicodeLoop_digit h₃,
    if_pos (by simp [Tokener.addHex, hpos])]
  rfl

theorem shortEscape_spec {b : Byte} {e : Text} (h : shortEscape b = some e) :
    ∃ x, e = [ch '\\', x] ∧ ∀ (tok : Tokener D) (obj : Json D) (str : Text),
      escapeTurn tok obj x str = .turn ⟨(tok.append [b]).goto tok.top.savedState, obj, str⟩ := by
  unfold shortEscape at h
  split_ifs at h with h₁ h₂ h₃ h₄ h₅ h₆ h₇ <;> obtain rfl := Option.some.inj h
  · exact ⟨ch 'b', rfl, fun _ _ _ => by rw [h₁]; rfl⟩
  · exact ⟨ch 'n', rfl, fun _ _ _ => by rw [h₂]; rfl⟩
  · exact ⟨ch 'r', rfl, fun _ _ _ => by rw [h₃]; rfl⟩
  · exact ⟨ch 't', rfl, fun _ _ _ => by rw [h₄]; rfl⟩
  · exact ⟨ch '"', rfl, fun _ _ _ => by rw [h₅]; rfl⟩
  · exact ⟨ch '\\', rfl, fun _ _ _ => by rw [h₆]; rfl⟩
  · exact ⟨ch '/', rfl, fun _ _ _ => by rw [h₇]; rfl⟩

theorem ne_of_shortEscape {b : Byte} (h : shortEscape b = none) : b ≠ ch '"' ∧ b ≠ ch '\\' := by
  constructor <;> rintro rfl <;> cases h

variable (len io) in
/-- A character of a string. -/
theorem leads_char (h : tok.top.state.Quoted) (hquote : tok.quoteChar = ch '"') {b : Byte}
    (hb : b ≠ 0) (obj : Json D) (c : Byte) (str : Text) :
    ∃ tok', Within tok [b] tok' ∧ ∀ z, Leads len io ⟨tok', obj, c :: str⟩ z →
      Leads len io ⟨tok, obj, escapeChar b ++ c :: str⟩ z := by
  unfold escapeChar
  cases hshort : shortEscape b with
  | some e =>
    obtain ⟨x, rfl, hx⟩ := shortEscape_spec (D := D) hshort
    refine ⟨(((tok.append []).escape tok.top.state).append [b]).goto tok.top.state, ?_,
      fun z hz => (leads_escape h hquote obj _).trans ((leads_turn ?_).trans hz)⟩
    · exact ⟨by simp [Tokener.goto, Tokener.append, Tokener.escape], rfl, rfl, rfl, rfl, rfl⟩
    · exact congrArg some (hx ((tok.append []).escape tok.top.state) obj (c :: str))
  | none =>
    obtain ⟨hquote', hslash⟩ := ne_of_shortEscape hshort
    dsimp only
    by_cases hlow : b < ch ' '
    · obtain ⟨d₂, h₂, d₃, h₃, htext, hutf⟩ := longEscape_spec hlow
      rw [if_pos hlow, htext]
      refine ⟨_, ?_, fun z hz => (leads_escape h hquote obj _).trans
        ((leads_turn (step_u rfl obj _)).trans ((leads_turn
          (step_unicode rfl rfl (by decide) (by decide) h₂ h₃ obj _)).trans hz))⟩
      refine ⟨?_, rfl, rfl, rfl, rfl, rfl⟩
      change tok.pb ++ [] ++ utf8 _ = _
      rw [List.append_nil]
      exact congrArg (tok.pb ++ ·) hutf
    · rw [if_neg hlow]
      exact ⟨tok.append [b], ⟨rfl, rfl, rfl, rfl, rfl, rfl⟩, fun z =>
        .of_step (step_plain h (hquote ▸ hquote') hslash hb obj c str)⟩

variable (len io tok) in
/-- The characters of a string, and its last quote. -/
theorem leads_string (h : tok.top.state.Quoted) (hquote : tok.quoteChar = ch '"') (hs : 0 ∉ s)
    (obj : Json D) (rest : Text) :
    ∃ tok', Within tok s tok' ∧ Leads len io
      ⟨tok, obj, s.flatMap escapeChar ++ ch '"' :: rest⟩ ⟨tok'.unquote, obj, rest⟩ := by
  induction s generalizing tok with
  | nil =>
    refine ⟨tok.append [], ⟨rfl, rfl, rfl, rfl, rfl, rfl⟩, leads_turn ?_⟩
    change turn len io tok obj (ch '"') rest = _
    have hstop : ¬ decide (ch '"' ≠ tok.quoteChar ∧ ch '"' ≠ ch '\\') = true := by
      rw [hquote]
      decide
    rw [turn_quoted h, stringTurn, advanceWhile, if_neg hstop, afterLoop, if_pos hquote.symm]
    rfl
  | cons b s ih =>
    rw [List.mem_cons, not_or] at hs
    obtain ⟨c, str, hcstr⟩ := List.exists_cons_of_ne_nil (List.append_ne_nil_of_right_ne_nil
      (s.flatMap escapeChar) (List.cons_ne_nil (ch '"') rest))
    obtain ⟨tok₁, h₁, hleads₁⟩ := leads_char len io h hquote
      (fun hb => hs.1 hb.symm) obj c str
    obtain ⟨tok₂, h₂, hleads₂⟩ := ih tok₁ (by rw [h₁.state]; exact h) (h₁.quoteChar.trans hquote) hs.2
    refine ⟨tok₂, h₁.trans h₂, ?_⟩
    rw [List.flatMap_cons, List.append_assoc, hcstr]
    exact hleads₁ _ (hcstr ▸ hleads₂)

theorem cString_of_notMem (hs : 0 ∉ s) : cString s = s := by
  unfold cString
  rw [List.takeWhile_eq_self_iff]
  exact fun b hb => decide_eq_true fun heq => hs (heq ▸ hb)

theorem reads_string (h : Ready tok) (hs : 0 ∉ s) (rest : Text) :
    Reads len io tok obj (text io (.string s : Json D)) (.string s) rest := by
  obtain ⟨pb, isDouble, stPos, err, ucsChar, quoteChar, ⟨state, savedState, current, name⟩, below⟩ :=
    tok
  obtain ⟨rfl, rfl⟩ : state = .eatws ∧ savedState = .start := ⟨h.state, h.savedState⟩
  obtain ⟨tok', hwithin, hleads⟩ := leads_string len io ⟨[], isDouble, stPos, err, ucsChar,
    ch '"', ⟨.string, .start, current, name⟩, below⟩ (.inl rfl) rfl hs obj rest
  have hstring : tok'.unquote = tok'.complete (.string s) := by
    rw [Tokener.unquote, if_pos hwithin.state, hwithin.pb, List.nil_append, cString_of_notMem hs]
  rw [hstring] at hleads
  refine ⟨tok'.complete (.string s), obj, ?_, ⟨rfl, rfl, rfl, hwithin.below, hwithin.err⟩⟩
  rw [text_string]
  have hspaces : ∀ b' ∈ ([] : Text), isSpace b' = true ∧ b' ≠ 0 := List.forall_mem_nil _
  have happend : ascii "\"" ++ (s.flatMap escapeChar ++ ascii "\"") ++ rest =
      ch '"' :: (s.flatMap escapeChar ++ ch '"' :: rest) := by
    rw [List.append_assoc, List.append_assoc]
    rfl
  rw [happend]
  refine (leads_space rfl hspaces rfl (by decide)).trans ((leads_turn ?_).trans hleads)
  rfl

end JsonTokener

end DreamDota
