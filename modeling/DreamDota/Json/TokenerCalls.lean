import DreamDota.Json.Tokener

/-!
# Calls of the tokener

A tokener can be called with any text, and again after any result. `Inv` is what the levels of its
stack keep: a level waits with an array, or with an object and the name of a field, for the value of
the level above it. `Config.measure` bounds the turns: those that leave the text as it is go down in
the rank of the state.

1. `turn_fine`: what a turn keeps.
2. `calls_return`: every call of a run of calls returns.
-/

open Bytes

namespace DreamDota

namespace JsonTokener

open Json

variable {D : Type} {len : Bool} {io : DoubleIo D} {tok : Tokener D} {obj : Json D} {c : Byte}
  {str s : Text} {p : Byte → Bool} {m : ℕ} {next : Option (Next D)}

/-! ## The levels -/

/-- What a state takes for granted. -/
def Needs (r : Srec D) : State → Prop
  | .array | .arrayAdd | .arraySep => ∃ elems, r.current = .array elems
  | .objectFieldStart | .objectField | .objectSep => ∃ fields, r.current = .object fields
  | .objectFieldEnd | .objectValue | .objectValueAdd =>
    (∃ fields, r.current = .object fields) ∧ ∃ name, r.objFieldName = some name
  | _ => True

/-- The states that white space is skipped before. -/
def State.Spaced : State → Prop
  | .start | .finish | .array | .arraySep | .objectFieldStart | .objectFieldEnd | .objectValue
  | .objectSep => True
  | _ => False

/-- The states that an escape goes back to. -/
def State.Quoted (state : State) : Prop := state = .string ∨ state = .objectField

/-- The level of the current value. -/
def Level (stPos : ℕ) (r : Srec D) : Prop :=
  match r.state with
  | .eatws | .commentStart | .comment | .commentEol | .commentEnd =>
    r.savedState.Spaced ∧ Needs r r.savedState
  | .stringEscape => r.savedState.Quoted ∧ Needs r r.savedState
  | .escapeUnicode => r.savedState.Quoted ∧ Needs r r.savedState ∧ stPos < 4
  | state => Needs r state

/-- A level with another one above it. -/
def Waits (r : Srec D) : Prop :=
  (r.state = .arrayAdd ∨ r.state = .objectValueAdd) ∧ Needs r r.state

structure Inv (tok : Tokener D) : Prop where
  level : Level tok.stPos tok.top
  waits : ∀ r ∈ tok.below, Waits r
  depth : tok.depth < maxDepth

theorem inv_new : Inv (Tokener.new : Tokener D) :=
  ⟨⟨trivial, trivial⟩, List.forall_mem_nil _, Nat.zero_lt_succ 31⟩

/-! ## The measure -/

def State.rank : State → ℕ
  | .arrayAdd | .objectValueAdd => 2
  | .finish => 3
  | .null | .boolean | .number => 5
  | .start => 6
  | .array | .objectValue => 8
  | _ => 0

def Srec.rank (r : Srec D) : ℕ :=
  if r.state = .eatws then r.savedState.rank + 1 else r.state.rank

theorem State.rank_le (state : State) : state.rank ≤ 8 := by cases state <;> decide

theorem Srec.rank_eq {r : Srec D} {state : State} (h : r.state = state) (hne : state ≠ .eatws) :
    r.rank = state.rank := by
  subst h
  exact if_neg hne

theorem Srec.rank_le (r : Srec D) : r.rank ≤ 9 := by
  have hsaved := r.savedState.rank_le
  have hstate := r.state.rank_le
  unfold rank
  split_ifs <;> omega

def Config.measure (x : Config D) : ℕ := 10 * x.str.length + x.tok.top.rank

/-! ## Turns -/

/-- There is a null character, if no length is given. -/
def Ends (len : Bool) (str : Text) : Prop := len = false → 0 ∈ str

/-- What is asked of a turn. -/
def Fine (len : Bool) (m : ℕ) (next : Option (Next D)) : Prop :=
  (∃ x, next = some (.turn x) ∧ Inv x.tok ∧ Ends len x.str ∧ x.measure < m) ∨
    ∃ tok eof, next = some (.out tok eof) ∧ Inv tok

theorem Inv.out (h : Inv tok) (eof : Bool) : Fine len m (some (.out tok eof)) :=
  .inr ⟨tok, eof, rfl, h⟩

theorem Inv.fail (h : Inv tok) (err : Error) : Inv (tok.fail err) := ⟨h.level, h.waits, h.depth⟩

theorem Inv.append (h : Inv tok) (s : Text) : Inv (tok.append s) := ⟨h.level, h.waits, h.depth⟩

theorem Inv.setTop (h : Inv tok) {top : Srec D} (hlevel : Level tok.stPos top) :
    Inv { tok with top } := ⟨hlevel, h.waits, h.depth⟩

/-- White space is skipped before a state that the level is ready for. -/
theorem Inv.eatBefore (h : Inv tok) {state : State} (hspaced : state.Spaced)
    (hneeds : Needs tok.top state) : Inv (tok.eatBefore state) :=
  h.setTop ⟨hspaced, by cases state <;> exact hneeds⟩

theorem Inv.finished (h : Inv tok) : Inv (tok.eatBefore .finish) := h.setTop ⟨trivial, trivial⟩

theorem Inv.complete (h : Inv tok) (v : Json D) : Inv (tok.complete v) :=
  h.setTop ⟨trivial, trivial⟩

theorem Ends.tail (h : Ends len (c :: str)) (hc : c ≠ 0) : Ends len str := fun hlen =>
  (List.mem_cons.mp (h hlen)).resolve_left hc.symm

theorem Inv.advance (h : Inv tok) (hends : Ends len (c :: str)) (hm : 10 * str.length + 9 < m) :
    Fine len m (some (advance tok obj c str)) := by
  unfold JsonTokener.advance
  split_ifs with hc
  · exact h.out true
  · have hrank := tok.top.rank_le
    exact .inl ⟨⟨tok, obj, str⟩, rfl, h, hends.tail hc,
      (Nat.add_le_add_left hrank _).trans_lt hm⟩

theorem Inv.turn (h : Inv tok) (hends : Ends len (c :: str))
    (hm : 10 * (c :: str).length + tok.top.rank < m) :
    Fine len m (some (.turn ⟨tok, obj, c :: str⟩)) := .inl ⟨_, rfl, h, hends, hm⟩

theorem Inv.popEnd (h : Inv tok) (hends : Ends len []) : Fine len m (popEnd len tok) := by
  cases len with
  | true => exact (h.fail _).out _
  | false => exact absurd (hends rfl) List.not_mem_nil

theorem advanceWhile_here {run : Text} (h : advanceWhile p s = (run, .here c str)) :
    s = run ++ c :: str ∧ p c = false ∧ 0 ∉ run := by
  induction s generalizing run with
  | nil => cases h
  | cons d s ih =>
    unfold advanceWhile at h
    split_ifs at h with hp hd
    · cases h
    · obtain ⟨hrun, hstop⟩ := Prod.mk.inj h
      obtain ⟨hs, hc, hnull⟩ := ih (Prod.ext rfl hstop)
      subst hrun
      refine ⟨congrArg (d :: ·) hs, hc, ?_⟩
      rw [List.mem_cons, not_or]
      exact ⟨fun heq => hd heq.symm, hnull⟩
    · obtain ⟨rfl, hstop⟩ := Prod.mk.inj h
      obtain ⟨rfl, rfl⟩ := Stop.here.inj hstop
      exact ⟨rfl, by simpa using hp, List.not_mem_nil⟩

theorem advanceWhile_exhausted {run : Text} (h : advanceWhile p s = (run, .exhausted)) :
    0 ∉ s := by
  induction s generalizing run with
  | nil => exact List.not_mem_nil
  | cons d s ih =>
    unfold advanceWhile at h
    split_ifs at h with hp hd
    · cases h
    · obtain ⟨-, hstop⟩ := Prod.mk.inj h
      rw [List.mem_cons, not_or]
      exact ⟨fun heq => hd heq.symm, ih (Prod.ext rfl hstop)⟩
    · cases h

/-- A tight loop. -/
theorem Inv.afterLoop (h : Inv tok) {found : Byte → Text → Option (Next D)}
    (hends : Ends len s) (hfound : ∀ c str, (advanceWhile p s).2 = .here c str →
      Ends len (c :: str) → (c :: str).length ≤ s.length → p c = false →
      Fine len m (found c str)) : Fine len m (afterLoop len tok found (advanceWhile p s).2) := by
  cases hstop : (advanceWhile p s).2 with
  | here c str =>
    obtain ⟨hs, hp, hnull⟩ := advanceWhile_here (Prod.ext rfl hstop)
    refine hfound c str hstop (fun hlen => ?_) ?_ hp
    · have hmem := hends hlen
      rw [hs] at hmem
      exact (List.mem_append.mp hmem).resolve_left hnull
    · have hlength := congrArg List.length hs
      rw [List.length_append] at hlength
      omega
  | null => exact h.out true
  | exhausted =>
    exact h.popEnd fun hlen => absurd (hends hlen) (advanceWhile_exhausted (Prod.ext rfl hstop))

theorem Inv.goto (h : Inv tok) {state : State}
    (hlevel : Level tok.stPos { tok.top with state }) : Inv (tok.goto state) := h.setTop hlevel

/-- A string of a level that takes `done`. -/
theorem Inv.stringTurn (h : Inv tok) (hquoted : tok.top.state.Quoted)
    (hneeds : Needs tok.top tok.top.state) (hends : Ends len (c :: str))
    (hm : 10 * (c :: str).length ≤ m) {done : Tokener D → Tokener D}
    (hdone : ∀ s, Inv (done (tok.append s))) :
    Fine len m (stringTurn len tok obj c str done) := by
  unfold JsonTokener.stringTurn
  refine (h.append _).afterLoop hends fun c' str' _ hends' hle _ => ?_
  simp only [List.length_cons] at hle hm
  split_ifs with hquote
  · exact (hdone _).advance hends' (by omega)
  · refine Inv.advance ?_ hends' (by omega)
    refine (h.append _).setTop ⟨hquoted, ?_⟩
    change Needs _ tok.top.state
    cases hs : tok.top.state <;> rw [hs] at hneeds <;> exact hneeds

theorem Inv.unicodeLoop (h : Inv tok) (hquoted : tok.top.savedState.Quoted)
    (hneeds : Needs tok.top tok.top.savedState) (hpos : tok.stPos < 4)
    (hstate : tok.top.state = .escapeUnicode) (hends : Ends len s) (hm : 10 * s.length ≤ m) :
    Fine len m (unicodeLoop len tok obj s) := by
  induction s generalizing tok m with
  | nil => exact h.popEnd hends
  | cons c s ih =>
    unfold JsonTokener.unicodeLoop
    rw [List.length_cons] at hm
    have hadd : tok.stPos + 1 < 4 → Inv (tok.addHex c) := fun hlt =>
      ⟨by rw [Level]; simp only [Tokener.addHex, hstate]; exact ⟨hquoted, hneeds, hlt⟩, h.waits,
        h.depth⟩
    by_cases hc : strchr hexChars c = true
    · rw [if_pos hc]
      dsimp only
      by_cases hfour : (tok.addHex c).stPos = 4
      · rw [if_pos hfour]
        refine Inv.advance ?_ hends (by omega)
        refine ⟨?_, h.waits, h.depth⟩
        change Level (tok.addHex c).stPos { tok.top with state := tok.top.savedState }
        rcases hquoted with hsaved | hsaved <;> rw [hsaved] at hneeds ⊢ <;> exact hneeds
      · have hne : tok.stPos + 1 ≠ 4 := hfour
        have hlt : tok.stPos + 1 < 4 := by omega
        rw [if_neg hfour]
        split_ifs with hnull
        · exact (hadd hlt).out true
        · exact ih (hadd hlt) hquoted hneeds hlt hstate (hends.tail hnull) (by omega)
    · rw [if_neg hc]
      exact (h.fail _).out _

theorem Inv.pushTurn (h : Inv tok) {state : State}
    (hstate : state = .arrayAdd ∨ state = .objectValueAdd) (hneeds : Needs tok.top state)
    (hends : Ends len (c :: str)) (hm : 10 * (c :: str).length + 7 < m) :
    Fine len m (some (pushTurn tok obj c str state)) := by
  unfold JsonTokener.pushTurn
  split_ifs with hdepth
  · exact (h.fail _).out _
  · refine Inv.turn ⟨⟨trivial, trivial⟩, List.forall_mem_cons.mpr ⟨⟨hstate, ?_⟩, h.waits⟩, ?_⟩
      hends hm
    · rcases hstate with rfl | rfl <;> exact hneeds
    · have hlt := h.depth
      unfold Tokener.depth maxDepth at *
      change tok.below.length + 1 < 32
      omega

theorem Inv.sepTurn (h : Inv tok) {close : Byte} {state : State} {err : Error}
    (hspaced : state.Spaced) (hneeds : Needs tok.top state) (hends : Ends len (c :: str))
    (hm : 10 * (c :: str).length ≤ m) :
    Fine len m (some (sepTurn tok obj c str close state err)) := by
  rw [List.length_cons] at hm
  unfold JsonTokener.sepTurn
  split_ifs
  · exact h.finished.advance hends (by omega)
  · exact (h.eatBefore hspaced hneeds).advance hends (by omega)
  · exact (h.fail _).out _

theorem Inv.wordTurn (h : Inv tok) (hword : tok.top.state = .null ∨ tok.top.state = .boolean)
    {words : List (Text × Json D)} {err : Error} (hends : Ends len (c :: str))
    (hm : 10 * (c :: str).length + 5 ≤ m) :
    Fine len m (some (wordTurn tok obj c str words err)) := by
  unfold JsonTokener.wordTurn
  dsimp only
  split
  · next w _ =>
    split_ifs
    · exact ((h.append [c]).complete w.2).turn hends hm
    · rw [List.length_cons] at hm
      refine Inv.advance ⟨?_, h.waits, h.depth⟩ hends (by omega)
      change Level _ tok.top
      rcases hword with hs | hs <;> unfold Level <;> rw [hs] <;> trivial
  · exact ((h.append [c]).fail err).out _

theorem Inv.numberTurn (h : Inv tok) (hends : Ends len (c :: str))
    (hm : 10 * (c :: str).length + 5 ≤ m) :
    Fine len m (some (numberTurn io tok obj c str)) := by
  unfold JsonTokener.numberTurn
  dsimp only
  split
  · exact (h.complete _).turn hends hm
  · exact (h.fail _).out _

theorem Inv.escapeTurn (h : Inv tok) (hquoted : tok.top.savedState.Quoted)
    (hneeds : Needs tok.top tok.top.savedState) (hends : Ends len (c :: str))
    (hm : 10 * (c :: str).length ≤ m) : Fine len m (some (escapeTurn tok obj c str)) := by
  rw [List.length_cons] at hm
  have hback : ∀ s, Inv ((tok.append s).goto tok.top.savedState) := by
    refine fun s => (h.append s).goto ?_
    change Level tok.stPos { tok.top with state := tok.top.savedState }
    rcases hquoted with hsaved | hsaved <;> rw [hsaved] at hneeds ⊢ <;> exact hneeds
  unfold JsonTokener.escapeTurn
  dsimp only
  split_ifs
  all_goals first
    | exact (hback _).advance hends (by omega)
    | exact (h.fail _).out _
    | refine Inv.advance ⟨⟨hquoted, ?_, Nat.zero_lt_succ 3⟩, h.waits, h.depth⟩ hends (by omega)
  change Needs _ tok.top.savedState
  rcases hquoted with hsaved | hsaved <;> rw [hsaved] at hneeds ⊢ <;> exact hneeds

theorem Inv.startTurn (h : Inv tok) (hends : Ends len (c :: str))
    (hm : 10 * (c :: str).length + 6 ≤ m) : Fine len m (some (startTurn tok obj c str)) := by
  have hlength : (c :: str).length = str.length + 1 := List.length_cons
  unfold JsonTokener.startTurn
  split_ifs
  · exact Inv.advance (h.setTop ⟨trivial, _, rfl⟩) hends (by omega)
  · exact Inv.advance (h.setTop ⟨trivial, _, rfl⟩) hends (by omega)
  · exact Inv.turn ⟨trivial, h.waits, h.depth⟩ hends hm
  · exact Inv.advance ⟨trivial, h.waits, h.depth⟩ hends (by omega)
  · exact Inv.turn ⟨trivial, h.waits, h.depth⟩ hends hm
  · exact Inv.turn ⟨trivial, h.waits, h.depth⟩ hends hm
  · exact (h.fail _).out _

/-- Behind white space. -/
theorem Inv.spaceTurn (h : Inv tok) (hspaced : tok.top.savedState.Spaced)
    (hneeds : Needs tok.top tok.top.savedState) (hends : Ends len s)
    (hm : 10 * s.length + (tok.top.savedState.rank + 1) ≤ m) :
    Fine len m (JsonTokener.afterLoop len tok (fun c str =>
      if c = ch '/' then
        some (JsonTokener.advance ({ tok with pb := [c] }.goto .commentStart) obj c str)
      else some (Next.turn ⟨tok.goto tok.top.savedState, obj, c :: str⟩))
      (advanceWhile isSpace s).2) := by
  refine h.afterLoop hends fun c str _ hends' hle _ => ?_
  have hlength : (c :: str).length = str.length + 1 := List.length_cons
  have hsaved : Needs ({ tok.top with state := .commentStart } : Srec D) tok.top.savedState := by
    cases hstate : tok.top.savedState <;> rw [hstate] at hneeds <;> exact hneeds
  split_ifs with hc
  · exact Inv.advance ⟨⟨hspaced, hsaved⟩, h.waits, h.depth⟩ hends' (by omega)
  · refine Inv.turn (h.goto ?_) hends' ?_
    · cases hstate : tok.top.savedState <;> rw [hstate] at hspaced hneeds
      all_goals first | exact hneeds | exact hspaced.elim
    · have hrank : ({ tok.top with state := tok.top.savedState } : Srec D).rank =
          tok.top.savedState.rank := by
        refine if_neg fun heq => ?_
        have heq : tok.top.savedState = .eatws := heq
        rw [heq] at hspaced
        exact hspaced
      have hlt : 10 * (c :: str).length +
          ({ tok.top with state := tok.top.savedState } : Srec D).rank < m := by omega
      exact hlt

/-- Below a comment. -/
theorem Inv.comment (h : Inv tok) (hspaced : tok.top.savedState.Spaced)
    (hneeds : Needs tok.top tok.top.savedState) {state : State}
    (hstate : state = .eatws ∨ state = .comment ∨ state = .commentEol ∨ state = .commentEnd)
    (s : Text) : Inv ((tok.append s).goto state) := by
  have hsaved : Needs ({ tok.top with state } : Srec D) tok.top.savedState := by
    cases hsaved : tok.top.savedState <;> rw [hsaved] at hneeds <;> exact hneeds
  refine (h.append s).goto ?_
  change Level tok.stPos { tok.top with state }
  rcases hstate with rfl | rfl | rfl | rfl <;> exact ⟨hspaced, hsaved⟩

/-- A turn has a result, and what follows it is less. -/
theorem turn_fine (h : Inv tok) (hends : Ends len (c :: str)) :
    Fine len (10 * (c :: str).length + tok.top.rank) (turn len io tok obj c str) := by
  have hlevel := h.level
  have hlength : (c :: str).length = str.length + 1 := List.length_cons
  unfold turn
  unfold Level at hlevel
  cases hs : tok.top.state with
  | eatws =>
    rw [hs] at hlevel
    exact h.spaceTurn hlevel.1 hlevel.2 hends (by rw [Srec.rank, if_pos hs])
  | start => exact h.startTurn hends (by rw [Srec.rank_eq hs (by decide)]; exact Nat.le_refl _)
  | finish =>
    dsimp only
    cases hbelow : tok.below with
    | nil => exact h.out _
    | cons top below =>
      have hwaits := h.waits
      rw [hbelow] at hwaits
      obtain ⟨⟨hstate, hneeds⟩, hrest⟩ := List.forall_mem_cons.mp hwaits
      have hrank : top.rank = 2 := by
        rcases hstate with hst | hst <;> rw [Srec.rank_eq hst (by decide)] <;> rfl
      refine Inv.turn ⟨?_, hrest, ?_⟩ hends ?_
      · unfold Level
        rcases hstate with hst | hst <;> rw [hst] at hneeds ⊢ <;> exact hneeds
      · have hdepth := h.depth
        unfold Tokener.depth at hdepth ⊢
        rw [hbelow, List.length_cons] at hdepth
        exact Nat.lt_of_succ_lt hdepth
      · rw [Srec.rank_eq hs (by decide)]
        change 10 * (c :: str).length + top.rank < 10 * (c :: str).length + 3
        omega
  | null => exact h.wordTurn (.inl hs) hends (by rw [Srec.rank_eq hs (by decide)]; exact Nat.le_refl _)
  | commentStart =>
    rw [hs] at hlevel
    dsimp only
    split_ifs
    · exact (h.comment hlevel.1 hlevel.2 (.inr (.inl rfl)) _).advance hends (by omega)
    · exact (h.comment hlevel.1 hlevel.2 (.inr (.inr (.inl rfl))) _).advance hends (by omega)
    · exact (h.fail _).out _
  | comment =>
    rw [hs] at hlevel
    refine (h.append _).afterLoop hends fun c' str' _ hends' hle _ => ?_
    have hlength' : (c' :: str').length = str'.length + 1 := List.length_cons
    exact ((h.append _).comment hlevel.1 hlevel.2 (.inr (.inr (.inr rfl))) _).advance hends'
      (by omega)
  | commentEol =>
    rw [hs] at hlevel
    refine (h.append _).afterLoop hends fun c' str' _ hends' hle _ => ?_
    have hlength' : (c' :: str').length = str'.length + 1 := List.length_cons
    exact (h.comment hlevel.1 hlevel.2 (.inl rfl) _).advance hends' (by omega)
  | commentEnd =>
    rw [hs] at hlevel
    refine (h.comment hlevel.1 hlevel.2 ?_ _).advance hends (by omega)
    split_ifs
    · exact .inl rfl
    · exact .inr (.inl rfl)
  | string =>
    rw [hs] at hlevel
    refine h.stringTurn (.inl hs) (by rw [hs]; exact hlevel) hends (Nat.le_add_right _ _)
      fun s => (h.append s).complete _
  | stringEscape =>
    rw [hs] at hlevel
    exact h.escapeTurn hlevel.1 hlevel.2 hends (Nat.le_add_right _ _)
  | escapeUnicode =>
    rw [hs] at hlevel
    exact h.unicodeLoop hlevel.1 hlevel.2.1 hlevel.2.2 hs hends (Nat.le_add_right _ _)
  | boolean => exact h.wordTurn (.inr hs) hends (by rw [Srec.rank_eq hs (by decide)]; exact Nat.le_refl _)
  | number =>
    have htok : ∀ run isDouble, Inv { tok.append run with isDouble } := fun run isDouble =>
      ⟨h.level, h.waits, h.depth⟩
    refine (htok _ _).afterLoop hends fun c' str' _ hends' hle _ => ?_
    refine (htok _ _).numberTurn hends' ?_
    rw [Srec.rank_eq hs (by decide)]
    exact Nat.add_le_add_right (Nat.mul_le_mul_left 10 hle) 5
  | array =>
    rw [hs] at hlevel
    dsimp only
    split_ifs
    · exact h.finished.advance hends (by omega)
    · exact h.pushTurn (.inl rfl) hlevel hends (by rw [Srec.rank_eq hs (by decide)]; exact Nat.lt_succ_self _)
  | arrayAdd =>
    rw [hs] at hlevel
    obtain ⟨elems, hcurrent⟩ := hlevel
    simp only [hcurrent]
    exact Inv.turn (h.setTop ⟨trivial, _, rfl⟩) hends (by rw [Srec.rank_eq hs (by decide)]; exact Nat.lt_succ_self _)
  | arraySep =>
    rw [hs] at hlevel
    exact h.sepTurn trivial hlevel hends (Nat.le_add_right _ _)
  | objectFieldStart =>
    rw [hs] at hlevel
    dsimp only
    split_ifs
    · exact h.finished.advance hends (by omega)
    · exact Inv.advance ⟨hlevel, h.waits, h.depth⟩ hends (by omega)
    · exact (h.fail _).out _
  | objectField =>
    rw [hs] at hlevel
    obtain ⟨fields, hcurrent⟩ := hlevel
    exact h.stringTurn (.inr hs) (by rw [hs]; exact ⟨fields, hcurrent⟩) hends
      (Nat.le_add_right _ _) fun s => (h.append s).setTop ⟨trivial, ⟨fields, hcurrent⟩, _, rfl⟩
  | objectFieldEnd =>
    rw [hs] at hlevel
    dsimp only
    split_ifs
    · refine Inv.advance ?_ hends (by omega)
      exact h.setTop ⟨trivial, hlevel⟩
    · exact (h.fail _).out _
  | objectValue =>
    rw [hs] at hlevel
    exact h.pushTurn (.inr rfl) hlevel hends (by rw [Srec.rank_eq hs (by decide)]; exact Nat.lt_succ_self _)
  | objectValueAdd =>
    rw [hs] at hlevel
    obtain ⟨⟨fields, hcurrent⟩, name, hname⟩ := hlevel
    simp only [hcurrent, hname]
    exact Inv.turn (h.setTop ⟨trivial, _, rfl⟩) hends (by rw [Srec.rank_eq hs (by decide)]; exact Nat.lt_succ_self _)
  | objectSep =>
    rw [hs] at hlevel
    exact h.sepTurn trivial hlevel hends (Nat.le_add_right _ _)

theorem step_fine (h : Inv tok) (hends : Ends len s) :
    Fine len (Config.measure ⟨tok, obj, s⟩) (step len io ⟨tok, obj, s⟩) := by
  cases s with
  | nil => exact h.popEnd hends
  | cons c str => exact turn_fine h hends

/-! ## Calls -/

theorem Inv.runOut (h : Inv tok) (eof : Bool) : Inv (tok.out eof) := by
  unfold Tokener.out
  split_ifs
  · exact h.fail _
  · exact h

/-- The turns of a call. -/
theorem run_fine {x : Config D} (h : Inv x.tok) (hends : Ends len x.str) {fuel : ℕ}
    (hfuel : x.measure < fuel) : ∃ tok, run len io fuel x = some tok ∧ Inv tok := by
  induction fuel generalizing x with
  | zero => exact absurd hfuel (Nat.not_lt_zero _)
  | succ fuel ih =>
    unfold run
    rcases (step_fine h hends : Fine len x.measure (step len io x)) with
      ⟨x', hstep, hinv, hends', hm⟩ | ⟨tok, eof, hstep, hinv⟩
    · have hm : x'.measure < x.measure := hm
      rw [hstep]
      exact ih hinv hends' (by omega)
    · rw [hstep]
      exact ⟨_, rfl, hinv.runOut eof⟩

variable (io) in
/-- A call with a text and its length, or with a C string. -/
def call (fuel : Text → ℕ) (tok : Tokener D) (c : Text × Bool) : Option (Tokener D) :=
  (parseEx c.2 io (fuel c.1) tok (if c.2 then c.1 else c.1 ++ [0])).map Prod.fst

/-- Every call of a run of calls returns, whatever the texts are and whatever the calls before it
left behind, and the tokener never has more levels than its stack. -/
theorem calls_return {fuel : Text → ℕ} (hfuel : ∀ s, 10 * s.length + 20 ≤ fuel s)
    (calls : List (Text × Bool)) :
    ∃ tok, calls.foldlM (call io fuel) Tokener.new = some tok ∧ tok.depth < maxDepth := by
  suffices ∀ tok : Tokener D, Inv tok → ∃ tok', calls.foldlM (call io fuel) tok = some tok' ∧
      Inv tok' by
    obtain ⟨tok, htok, hinv⟩ := this _ inv_new
    exact ⟨tok, htok, hinv.depth⟩
  induction calls with
  | nil => exact fun tok h => ⟨tok, rfl, h⟩
  | cons c calls ih =>
    intro tok h
    obtain ⟨tok', hrun, hinv⟩ : ∃ tok', run c.2 io (fuel c.1) ⟨tok.fail .success, .null,
        if c.2 then c.1 else c.1 ++ [0]⟩ = some tok' ∧ Inv tok' := by
      refine run_fine (h.fail _) (fun hlen => ?_) ?_
      · simp [hlen]
      · have hrank := tok.top.rank_le
        have hlength : (if c.2 then c.1 else c.1 ++ [0]).length ≤ c.1.length + 1 := by
          split_ifs <;> simp
        have hle := hfuel c.1
        change 10 * (if c.2 then c.1 else c.1 ++ [0]).length + tok.top.rank < fuel c.1
        omega
    obtain ⟨tok'', hcalls, hinv'⟩ := ih tok' hinv
    refine ⟨tok'', ?_, hinv'⟩
    rw [List.foldlM_cons, call, parseEx, hrun]
    exact hcalls

/-- Numbers with a point that are not kept. -/
def noDoubles : DoubleIo Unit := ⟨fun _ => ascii "0.5", fun _ => some ()⟩

/-- An array that breaks off, a text that is none, and the null character alone. -/
theorem calls_return_three : ∃ tok : Tokener Unit,
    [(ascii "[1, \x7b\"a\": ", true), (ascii "\x7d", true), ([], false)].foldlM
      (call noDoubles fun s => 10 * s.length + 20) Tokener.new = some tok ∧ tok.depth < maxDepth :=
  calls_return (fun _ => Nat.le_refl _) _

end JsonTokener

end DreamDota
