import DreamDota.Lib.Str
import Mathlib.Data.List.TakeDrop

/-!
# The parser of the native list

`parse_line` of `jass_lua_native.py`. A line of the list is `name|(s)r`, where each item of `s` and
the result `r` is a letter, and `H` is followed by the name of a type and a semicolon.

1. `scanArgs`, `parseLine`: the code. `Outcome` is what a line leads to.
2. `Scans`: what the scan of the arguments does, without its index. It ends with such a scan or not
   at all, `scanArgs_iff`.
3. `Line`: the lines of the list, and `parseLine_line`.
-/

namespace DreamDota

namespace JassNative

abbrev Text := List Char

/-! ## The code -/

/-- `{"rv", "fun", "args"}` -/
structure Signature where
  jrv : Char
  jfun : Text
  jargs : Text
  deriving DecidableEq

/-- `want_skip` -/
def wantSkip (_ : Text) : Bool := false

/-- The loop of `parse_line`, which is stopped after `fuel` turns. A search that fails takes the
index back to zero. -/
def scanArgs (jargsStr : Text) : ℕ → ℕ → Text → Option Text
  | 0, i, jargs => if i < jargsStr.length then none else some jargs
  | fuel + 1, i, jargs =>
    match jargsStr[i]? with
    | none => some jargs
    | some c =>
      if c = 'H' then scanArgs jargsStr fuel (Str.find jargsStr ';' i + 1).toNat (jargs ++ ['H'])
      else scanArgs jargsStr fuel (i + 1) (jargs ++ [c])

inductive Parsed
  | skipped
  | signature (f : Signature)
  | indexError
  deriving DecidableEq

/-- `jargs_str` -/
def jargsStr (line : Text) : Text :=
  Str.slice line (Str.find line '(' 0 + 1).toNat (Str.find line ')' 0)

/-- `line[line.find(')') + 1]` -/
def rvOf (text : Text) : Option Char := text[(Str.find text ')' 0 + 1).toNat]?

/-- `parse_line` -/
def parseLine (fuel : ℕ) (line : Text) : Option Parsed :=
  let jfun := Str.slice line 0 (Str.find line '(' 0 - 1)
  if wantSkip jfun then some .skipped
  else
    (scanArgs (jargsStr line) fuel 0 []).map fun jargs =>
      match rvOf line with
      | some jrv => .signature ⟨jrv, jfun, jargs⟩
      | none => .indexError

/-- The line is parsed, with this result. -/
def Outcome (line : Text) (parsed : Parsed) : Prop := ∃ fuel, parseLine fuel line = some parsed

/-! ## The scan -/

/-- A scan that copies the letters and leaves out the names of the types. -/
inductive Scans : Text → Text → Prop
  | nil : Scans [] []
  | letter {c : Char} {s out : Text} (hc : c ≠ 'H') (h : Scans s out) : Scans (c :: s) (c :: out)
  | handle {type s out : Text} (htype : ';' ∉ type) (h : Scans s out) :
    Scans ('H' :: (type ++ ';' :: s)) ('H' :: out)

/-- Every handle that the scan meets has its semicolon. -/
def Closed (s : Text) : Prop := ∃ out, Scans s out

variable {s s' out jargs : Text} {fuel i : ℕ}

theorem semicolon_of_closed (h : Closed ('H' :: s)) : ';' ∈ s := by
  obtain ⟨out, h⟩ := h
  generalize hline : 'H' :: s = line at h
  cases h with
  | nil => cases hline
  | letter hc _ => exact absurd (List.cons.inj hline).1.symm hc
  | handle _ _ =>
    rw [(List.cons.inj hline).2]
    exact List.mem_append_right _ List.mem_cons_self

theorem getElem?_of_drop {c : Char} (h : s.drop i = c :: s') : s[i]? = some c := by
  rw [← Nat.add_zero i, ← List.getElem?_drop, h]
  rfl

theorem drop_letter {c : Char} (h : s.drop i = c :: s') : s.drop (i + 1) = s' := by
  rw [← List.drop_drop, h]
  rfl

theorem drop_handle {type : Text} (h : s.drop i = 'H' :: (type ++ ';' :: s')) :
    s.drop (i + (type.length + 2)) = s' := by
  rw [← List.drop_drop, h, List.drop_succ_cons, List.drop_length_add_append]
  rfl

theorem scanArgs_letter {c : Char} (hc : c ≠ 'H') (h : s.drop i = c :: s') :
    scanArgs s (fuel + 1) i jargs = scanArgs s fuel (i + 1) (jargs ++ [c]) := by
  rw [scanArgs, getElem?_of_drop h]
  exact if_neg hc

theorem scanArgs_handle {type : Text} (htype : ';' ∉ type)
    (h : s.drop i = 'H' :: (type ++ ';' :: s')) :
    scanArgs s (fuel + 1) i jargs =
      scanArgs s fuel (i + (type.length + 2)) (jargs ++ ['H']) := by
  have hnot : ';' ∉ 'H' :: type := by
    rw [List.mem_cons, not_or]
    exact ⟨by decide, htype⟩
  have hfind : Str.find s ';' i = (i + ('H' :: type).length : ℕ) :=
    Str.find_eq (p := 'H' :: type) h hnot
  have hnext : (Str.find s ';' i + 1).toNat = i + (type.length + 2) := by
    rw [hfind, List.length_cons]
    omega
  rw [scanArgs, getElem?_of_drop h]
  show scanArgs s fuel (Str.find s ';' i + 1).toNat _ = _
  rw [hnext]

theorem scanArgs_nil (h : s.drop i = []) : scanArgs s fuel i jargs = some jargs := by
  have hlen : s.length ≤ i := List.drop_eq_nil_iff.mp h
  cases fuel with
  | zero => rw [scanArgs, if_neg (Nat.not_lt.mpr hlen)]
  | succ fuel => rw [scanArgs, List.getElem?_eq_none hlen]

/-- The scan ends, if it has a turn for each character. -/
theorem scanArgs_of_scans (h : Scans s' out) (hdrop : s.drop i = s') (hfuel : s'.length ≤ fuel) :
    scanArgs s fuel i jargs = some (jargs ++ out) := by
  induction h generalizing i jargs fuel with
  | nil => rw [scanArgs_nil hdrop, List.append_nil]
  | @letter c s' out hc _ ih =>
    obtain ⟨fuel, rfl⟩ := Nat.exists_eq_add_of_le' (Nat.one_le_of_lt hfuel)
    rw [scanArgs_letter hc hdrop, ih (drop_letter hdrop) (Nat.le_of_succ_le_succ hfuel),
      List.append_assoc]
    rfl
  | @handle type s' out htype _ ih =>
    obtain ⟨fuel, rfl⟩ := Nat.exists_eq_add_of_le' (Nat.one_le_of_lt hfuel)
    rw [List.length_cons, List.length_append, List.length_cons] at hfuel
    rw [scanArgs_handle htype hdrop, ih (drop_handle hdrop) (by omega), List.append_assoc]
    rfl

/-- A handle without its semicolon takes the scan back to the start, where it meets it again. -/
theorem scanArgs_endless (hs : ¬Closed s) (hi : ¬Closed (s.drop i)) :
    scanArgs s fuel i jargs = none := by
  induction fuel generalizing i jargs with
  | zero =>
    have hlt : i < s.length := by
      by_contra hge
      rw [List.drop_eq_nil_iff.mpr (Nat.le_of_not_lt hge)] at hi
      exact hi ⟨[], .nil⟩
    rw [scanArgs, if_pos hlt]
  | succ fuel ih =>
    cases hdrop : s.drop i with
    | nil =>
      rw [hdrop] at hi
      exact absurd ⟨[], .nil⟩ hi
    | cons c s' =>
      rw [hdrop] at hi
      by_cases hc : c = 'H'
      · subst hc
        by_cases hmem : ';' ∈ s'
        · obtain ⟨type, rest, rfl, htype⟩ := List.eq_append_cons_of_mem hmem
          rw [scanArgs_handle htype hdrop]
          refine ih fun ⟨out, hout⟩ => hi ⟨'H' :: out, .handle htype ?_⟩
          rwa [drop_handle hdrop] at hout
        · have hfind : Str.find s ';' i = -1 := by
            refine Str.find_eq_neg_one ?_
            rw [hdrop, List.mem_cons, not_or]
            exact ⟨by decide, hmem⟩
          rw [scanArgs, getElem?_of_drop hdrop]
          show scanArgs s fuel (Str.find s ';' i + 1).toNat _ = _
          rw [hfind]
          exact ih hs
      · rw [scanArgs_letter hc hdrop]
        refine ih fun ⟨out, hout⟩ => hi ⟨c :: out, .letter hc ?_⟩
        rwa [drop_letter hdrop] at hout

theorem scanArgs_mono {fuel' : ℕ} (h : scanArgs s fuel i jargs = some out) (hle : fuel ≤ fuel') :
    scanArgs s fuel' i jargs = some out := by
  induction fuel generalizing fuel' i jargs with
  | zero =>
    have hend : s.length ≤ i := by
      by_contra hlt
      rw [scanArgs, if_pos (Nat.lt_of_not_le hlt)] at h
      cases h
    have hdrop : s.drop i = [] := List.drop_eq_nil_iff.mpr hend
    rw [scanArgs_nil hdrop] at h ⊢
    exact h
  | succ fuel ih =>
    obtain ⟨fuel', rfl⟩ := Nat.exists_eq_add_of_le' (Nat.one_le_of_lt hle)
    rw [scanArgs] at h ⊢
    cases hc : s[i]? with
    | none =>
      rw [hc] at h
      exact h
    | some c =>
      rw [hc] at h
      dsimp only at h ⊢
      split_ifs at h ⊢ with hH
      · exact ih h (Nat.le_of_succ_le_succ hle)
      · exact ih h (Nat.le_of_succ_le_succ hle)

/-- It ends with the letters of a scan, or not at all. -/
theorem scanArgs_iff (s out : Text) : (∃ fuel, scanArgs s fuel 0 [] = some out) ↔ Scans s out := by
  constructor
  · rintro ⟨fuel, h⟩
    by_cases hs : Closed s
    · obtain ⟨out', hout'⟩ := hs
      have hend : scanArgs s (max s.length fuel) 0 [] = some out' :=
        scanArgs_of_scans hout' List.drop_zero (Nat.le_max_left _ _)
      rw [scanArgs_mono h (Nat.le_max_right _ _)] at hend
      rwa [Option.some.inj hend]
    · rw [scanArgs_endless hs (by rwa [List.drop_zero])] at h
      cases h
  · exact fun h => ⟨s.length, scanArgs_of_scans h List.drop_zero (Nat.le_refl _)⟩

theorem outcome_unique {line : Text} {parsed parsed' : Parsed} (h : Outcome line parsed)
    (h' : Outcome line parsed') : parsed = parsed' := by
  obtain ⟨fuel, h⟩ := h
  obtain ⟨fuel', h'⟩ := h'
  obtain ⟨out, hout, rfl⟩ := Option.map_eq_some_iff.mp h
  obtain ⟨out', hout', rfl⟩ := Option.map_eq_some_iff.mp h'
  have hmax := scanArgs_mono hout (Nat.le_max_left fuel fuel')
  rw [scanArgs_mono hout' (Nat.le_max_right fuel fuel')] at hmax
  rw [Option.some.inj hmax]

/-- The result of a line, once its scan has ended. -/
theorem outcome_of_scans {line out : Text} (h : Scans (jargsStr line) out) :
    Outcome line (match rvOf line with
      | some jrv => .signature ⟨jrv, Str.slice line 0 (Str.find line '(' 0 - 1), out⟩
      | none => .indexError) := by
  obtain ⟨fuel, hfuel⟩ := (scanArgs_iff _ _).mpr h
  refine ⟨fuel, ?_⟩
  show (scanArgs (jargsStr line) fuel 0 []).map _ = _
  rw [hfuel]
  rfl

/-- Nothing follows the first closing parenthesis, or there is no character at all. -/
def Ends (line : Text) : Prop := line = [] ∨ ∃ p, ')' ∉ p ∧ line = p ++ [')']

theorem ends_append_iff {p : Text} (hp : ')' ∉ p) (q : Text) : Ends (p ++ ')' :: q) ↔ q = [] := by
  constructor
  · rintro (hnil | ⟨p', hp', heq⟩)
    · exact absurd hnil (List.append_ne_nil_of_right_ne_nil p (List.cons_ne_nil _ _))
    · have hfirst := Str.idxOf?_append_cons hp q
      rw [heq, Str.idxOf?_append_cons hp' []] at hfirst
      have hlength := congrArg List.length heq
      rw [List.length_append, List.length_append, List.length_cons, Option.some.inj hfirst] at hlength
      exact List.length_eq_zero_iff.mp (Nat.succ.inj (Nat.add_left_cancel hlength))
  · rintro rfl
    exact .inr ⟨p, hp, rfl⟩

theorem rvOf_eq_none_iff (line : Text) : rvOf line = none ↔ Ends line := by
  unfold rvOf
  by_cases hmem : ')' ∈ line
  · obtain ⟨p, q, rfl, hp⟩ := List.eq_append_cons_of_mem hmem
    have hnext : ((p.length : ℤ) + 1).toNat = p.length + 1 := by omega
    rw [Str.find_append hp, hnext, List.getElem?_append_right (Nat.le_add_right _ 1),
      Nat.add_sub_cancel_left, List.getElem?_cons_succ, ends_append_iff hp]
    cases q <;> simp
  · have hends : Ends line ↔ line = [] := by
      refine or_iff_left ?_
      rintro ⟨p, -, rfl⟩
      exact hmem (List.mem_append_right p (List.mem_singleton_self _))
    have hfind : Str.find line ')' 0 = -1 := Str.find_eq_neg_one hmem
    rw [hfind, hends]
    cases line <;> simp

/-- Whatever else the line is, it is not checked. -/
theorem outcome_of_closed {line : Text} (h : Closed (jargsStr line)) :
    (Ends line → Outcome line .indexError) ∧ (¬Ends line → ∃ f, Outcome line (.signature f)) := by
  obtain ⟨out, hout⟩ := h
  have houtcome := outcome_of_scans hout
  rw [← rvOf_eq_none_iff]
  cases hrv : rvOf line with
  | none =>
    rw [hrv] at houtcome
    exact ⟨fun _ => houtcome, fun h => absurd rfl h⟩
  | some jrv =>
    rw [hrv] at houtcome
    exact ⟨nofun, fun _ => ⟨_, houtcome⟩⟩

/-! ## The lines of the list -/

/-- The letters of the arguments. -/
inductive Letter
  | I | R | B | S | C | H
  deriving DecidableEq

def Letter.char : Letter → Char
  | .I => 'I'
  | .R => 'R'
  | .B => 'B'
  | .S => 'S'
  | .C => 'C'
  | .H => 'H'

/-- The name of a type, between `H` and the semicolon. -/
structure HandleType where
  name : Text
  semicolon : ';' ∉ name
  parenthesis : ')' ∉ name

/-- An item of the arguments. -/
inductive Item
  | I | R | B | S | C
  | handle (type : HandleType)

def Item.letter : Item → Letter
  | .I => .I
  | .R => .R
  | .B => .B
  | .S => .S
  | .C => .C
  | .handle _ => .H

def Item.text : Item → Text
  | .handle type => 'H' :: (type.name ++ [';'])
  | item => [item.letter.char]

/-- The result: `V`, a letter alone or the name of a type. -/
inductive Result
  | void
  | letter (t : Letter)
  | handle (type : HandleType)

def Result.rv : Result → Option Letter
  | .void => none
  | .letter t => some t
  | .handle _ => some .H

/-- The letter of a result. -/
def rvChar : Option Letter → Char
  | none => 'V'
  | some t => t.char

def Result.text : Result → Text
  | .handle type => 'H' :: (type.name ++ [';'])
  | result => [rvChar result.rv]

/-- `name|(s)r`, as `readlines` returns it. -/
structure Line where
  name : Text
  items : List Item
  result : Result
  newline : Bool
  parenthesis : '(' ∉ name ∧ ')' ∉ name

def Line.args (l : Line) : Text := l.items.flatMap Item.text

def Line.rest (l : Line) : Text := l.result.text ++ if l.newline then ['\n'] else []

def Line.text (l : Line) : Text := l.name ++ '|' :: '(' :: (l.args ++ ')' :: l.rest)

/-- The signature of these letters. -/
def signatureOf (name : Text) (args : List Letter) (rv : Option Letter) : Signature :=
  ⟨rvChar rv, name, args.map Letter.char⟩

def Line.signature (l : Line) : Signature :=
  signatureOf l.name (l.items.map Item.letter) l.result.rv

theorem Item.scans (item : Item) (h : Scans s out) :
    Scans (item.text ++ s) (item.letter.char :: out) := by
  cases item with
  | handle type =>
    show Scans ('H' :: (type.name ++ [';'] ++ s)) _
    rw [List.append_assoc]
    exact .handle type.semicolon h
  | I => exact .letter (by decide) h
  | R => exact .letter (by decide) h
  | B => exact .letter (by decide) h
  | S => exact .letter (by decide) h
  | C => exact .letter (by decide) h

theorem scans_items (items : List Item) :
    Scans (items.flatMap Item.text) (items.map fun item => item.letter.char) := by
  induction items with
  | nil => exact .nil
  | cons item items ih => exact item.scans ih

theorem Item.parenthesis (item : Item) : ')' ∉ item.text := by
  cases item with
  | handle type =>
    show ')' ∉ 'H' :: (type.name ++ [';'])
    rw [List.mem_cons, List.mem_append, not_or, not_or]
    exact ⟨by decide, type.parenthesis, by decide⟩
  | I => decide
  | R => decide
  | B => decide
  | S => decide
  | C => decide

theorem Line.parenthesis_args (l : Line) : ')' ∉ l.args := fun h =>
  let ⟨item, _, hmem⟩ := List.mem_flatMap.mp h
  item.parenthesis hmem

theorem find_open {name : Text} (h : '(' ∉ name) (rest : Text) :
    Str.find (name ++ '|' :: '(' :: rest) '(' 0 = (name.length + 1 : ℕ) := by
  have hnot : '(' ∉ name ++ ['|'] := by
    rw [List.mem_append, not_or]
    exact ⟨h, by decide⟩
  have hfind := Str.find_append hnot rest
  rwa [List.append_assoc, List.length_append] at hfind

theorem find_close {name args : Text} (hname : ')' ∉ name) (hargs : ')' ∉ args) (rest : Text) :
    Str.find (name ++ '|' :: '(' :: (args ++ ')' :: rest)) ')' 0 =
      (name.length + 2 + args.length : ℕ) := by
  have hnot : ')' ∉ name ++ '|' :: '(' :: args := by
    rw [List.mem_append, List.mem_cons, List.mem_cons, not_or, not_or, not_or]
    exact ⟨hname, by decide, by decide, hargs⟩
  have hfind := Str.find_append hnot rest
  rw [List.append_assoc, List.length_append, List.length_cons, List.length_cons] at hfind
  rw [List.cons_append, List.cons_append] at hfind
  rw [hfind]
  omega

theorem Line.jargsStr_text (l : Line) : jargsStr l.text = l.args := by
  have hslice := Str.slice_append (l.name ++ ['|', '(']) l.args (')' :: l.rest)
  have hlength : (l.name ++ ['|', '(']).length = l.name.length + 2 := List.length_append
  rw [hlength, List.append_assoc] at hslice
  have hstart : (((l.name.length + 1 : ℕ) : ℤ) + 1).toNat = l.name.length + 2 := by omega
  unfold jargsStr Line.text
  rw [find_open l.parenthesis.1, find_close l.parenthesis.2 l.parenthesis_args, hstart]
  exact hslice

/-- What follows the arguments. -/
theorem Line.drop_text (l : Line) : l.text.drop (Str.find l.text ')' 0 + 1).toNat = l.rest := by
  have hnext : (((l.name.length + 2 + l.args.length : ℕ) : ℤ) + 1).toNat =
      (l.name ++ '|' :: '(' :: (l.args ++ [')'])).length := by
    simp only [List.length_append, List.length_cons, List.length_nil]
    omega
  have hsplit : l.text = (l.name ++ '|' :: '(' :: (l.args ++ [')'])) ++ l.rest := by
    simp [Line.text]
  rw [show Str.find l.text ')' 0 = _ from
    find_close l.parenthesis.2 l.parenthesis_args l.rest, hnext, hsplit, List.drop_left]

theorem Line.rvOf_text (l : Line) : rvOf l.text = some (rvChar l.result.rv) := by
  unfold rvOf
  rw [← Nat.add_zero (Int.toNat _), ← List.getElem?_drop, l.drop_text, Line.rest]
  cases l.result <;> rfl

theorem Line.jfun_text (l : Line) :
    Str.slice l.text 0 (Str.find l.text '(' 0 - 1) = l.name := by
  have hslice := Str.slice_append [] l.name ('|' :: '(' :: (l.args ++ ')' :: l.rest))
  have hstop : ((l.name.length + 1 : ℕ) : ℤ) - 1 = ((0 + l.name.length : ℕ) : ℤ) := by omega
  rw [show Str.find l.text '(' 0 = _ from find_open l.parenthesis.1 _, hstop]
  exact hslice

/-- The letters of a line of the list. -/
theorem parseLine_line (l : Line) : Outcome l.text (.signature l.signature) := by
  have hscan : Scans (jargsStr l.text) (l.items.map fun item => item.letter.char) := by
    rw [l.jargsStr_text]
    exact scans_items l.items
  have houtcome := outcome_of_scans hscan
  rw [l.rvOf_text, l.jfun_text] at houtcome
  have hargs : l.signature = ⟨rvChar l.result.rv, l.name,
      l.items.map fun item => item.letter.char⟩ := by
    unfold Line.signature signatureOf
    rw [List.map_map]
    rfl
  rw [hargs]
  exact houtcome

end JassNative

end DreamDota
