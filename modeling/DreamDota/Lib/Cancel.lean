import Mathlib.Data.List.Basic
import Mathlib.Data.List.Infix
import Mathlib.Tactic.Common

/-!
# Codes that are taken out of a text

A code is the mark `bar` with a letter behind it, and it is taken out together with `k` elements that
follow. `scan` does so in one pass: what it has kept is a stack, and a letter of a code with the mark
on top takes the mark off.

1. `scan_delete`: the first code of a text can be taken out before.
2. `scan_scan_append`: a pass for fewer codes in advance changes nothing behind a part without codes.
3. `hasCode_scan_iff`: where nothing is taken out behind the codes, two elements come to stand side by
   side if what is between them is `Balanced`.
-/

namespace Cancel

variable {α : Type*}

/-! ## Codes -/

/-- There is a code in the text. -/
def HasCode (bar : α) (code : α → Bool) (l : List α) : Prop := ∃ x, code x = true ∧ [bar, x] <:+: l

section Codes

variable {bar : α} {code : α → Bool}

theorem HasCode.mono {l l' : List α} (h : HasCode bar code l) (hl : l <:+: l') :
    HasCode bar code l' :=
  let ⟨x, hx, hin⟩ := h
  ⟨x, hx, hin.trans hl⟩

theorem hasCode_append {p q : List α} {x : α} (hx : code x = true) :
    HasCode bar code (p ++ bar :: x :: q) := ⟨x, hx, p, q, by simp⟩

theorem hasCode_cons {a : α} {l : List α} : HasCode bar code (a :: l) ↔
    (a = bar ∧ ∃ x, l.head? = some x ∧ code x = true) ∨ HasCode bar code l := by
  constructor
  · rintro ⟨x, hx, hin⟩
    rcases List.infix_cons_iff.mp hin with ⟨q, hq⟩ | hin
    · obtain ⟨rfl, rfl⟩ := List.cons.inj hq
      exact .inl ⟨rfl, x, rfl, hx⟩
    · exact .inr ⟨x, hx, hin⟩
  · rintro (⟨rfl, x, hhead, hx⟩ | h)
    · obtain ⟨q, rfl⟩ := List.head?_eq_some_iff.mp hhead
      exact hasCode_append (p := []) hx
    · exact h.mono (List.suffix_cons a l).isInfix

/-- A code of two texts is in one of them or lies across. -/
theorem hasCode_append_iff {p q : List α} : HasCode bar code (p ++ q) ↔
    HasCode bar code p ∨ HasCode bar code q ∨
      (p.getLast? = some bar ∧ ∃ x, q.head? = some x ∧ code x = true) := by
  induction p with
  | nil => simp [HasCode]
  | cons a p ih =>
    rw [List.cons_append, hasCode_cons, hasCode_cons, ih]
    cases p with
    | nil => simpa [HasCode] using or_comm
    | cons b p =>
      rw [List.cons_append, List.head?_cons, List.head?_cons, List.getLast?_cons_cons]
      exact or_assoc.symm

/-! ## Balanced parts -/

/-- Marks and letters of codes that take each other off. -/
inductive Balanced (bar : α) (code : α → Bool) : List α → Prop where
  | nil : Balanced bar code []
  | wrap {w v : List α} {x : α} : code x = true → Balanced bar code w → Balanced bar code v →
    Balanced bar code (bar :: (w ++ x :: v))

theorem Balanced.append {w v : List α} (hw : Balanced bar code w) (hv : Balanced bar code v) :
    Balanced bar code (w ++ v) := by
  induction hw with
  | nil => exact hv
  | wrap hx hw _ _ ih =>
    rw [List.cons_append, List.append_assoc, List.cons_append]
    exact .wrap hx hw ih

/-- The text of a stack: what is kept, with balanced parts between. -/
inductive Parsed (bar : α) (code : α → Bool) : List α → List α → Prop where
  | nil {w : List α} : Balanced bar code w → Parsed bar code w []
  | cons {l out w : List α} {a : α} : Parsed bar code l out → Balanced bar code w →
    Parsed bar code (l ++ a :: w) (a :: out)

theorem Parsed.append {l out w : List α} (h : Parsed bar code l out) (hw : Balanced bar code w) :
    Parsed bar code (l ++ w) out := by
  cases h with
  | nil hv => exact .nil (hv.append hw)
  | cons hl hv =>
    rw [List.append_assoc, List.cons_append]
    exact .cons hl (hv.append hw)

/-- Two elements that are next to each other on the stack have a balanced part between them. -/
theorem Parsed.exists_balanced {l out out' : List α} {a x : α}
    (h : Parsed bar code l (out' ++ x :: a :: out)) :
    ∃ w, Balanced bar code w ∧ a :: (w ++ [x]) <:+: l := by
  induction out' generalizing l with
  | nil =>
    cases h with
    | @cons l _ w _ hl hw =>
      cases hl with
      | @cons l _ v _ hl hv =>
        exact ⟨v, hv, l, w, by simp⟩
  | cons b out' ih =>
    cases h with
    | cons hl hw =>
      obtain ⟨v, hv, hin⟩ := ih hl
      exact ⟨v, hv, hin.trans (List.prefix_append _ _).isInfix⟩

end Codes

/-! ## The pass -/

variable [DecidableEq α] (bar : α) (code : α → Bool) (k : ℕ)

/-- The pass reads an element: how many elements are still to be left out, and what is kept, the last
one first. -/
def step (s : ℕ × List α) (a : α) : ℕ × List α :=
  if s.1 > 0 then (s.1 - 1, s.2)
  else if code a = true ∧ s.2.head? = some bar then (k, s.2.tail)
  else (0, a :: s.2)

/-- The text without its codes. -/
def scan (l : List α) : List α := (l.foldl (step bar code k) (0, [])).2.reverse

variable {bar code k}

theorem step_of_pos {n : ℕ} {out : List α} (a : α) :
    step bar code k (n + 1, out) a = (n, out) := rfl

theorem step_code {out : List α} {a : α} (ha : code a = true) :
    step bar code k (0, bar :: out) a = (k, out) := by simp [step, ha]

theorem step_push {out : List α} {a : α} (h : ¬ (code a = true ∧ out.head? = some bar)) :
    step bar code k (0, out) a = (0, a :: out) := by
  rw [step, if_neg (Nat.lt_irrefl 0), if_neg h]

/-- What is still to be left out could be left out before. -/
theorem foldl_skip (l : List α) (n : ℕ) (out : List α) :
    (l.foldl (step bar code k) (n, out)).2 = ((l.drop n).foldl (step bar code k) (0, out)).2 := by
  induction l generalizing n out with
  | nil => simp
  | cons a l ih =>
    cases n with
    | zero => rfl
    | succ n =>
      rw [List.foldl_cons, step_of_pos, ih]
      rfl

/-- Without codes everything is kept. -/
theorem foldl_of_not_hasCode {l : List α} (out : List α)
    (h : ¬ HasCode bar code (out.reverse ++ l)) :
    l.foldl (step bar code k) (0, out) = (0, l.reverse ++ out) := by
  induction l generalizing out with
  | nil => rfl
  | cons a l ih =>
    have hpush : ¬ (code a = true ∧ out.head? = some bar) := by
      rintro ⟨ha, hout⟩
      obtain ⟨out', rfl⟩ := List.head?_eq_some_iff.mp hout
      refine h ⟨a, ha, out'.reverse, l, ?_⟩
      simp
    rw [List.foldl_cons, step_push hpush, ih]
    · simp
    · simpa using h

theorem scan_of_not_hasCode {l : List α} (h : ¬ HasCode bar code l) : scan bar code k l = l := by
  rw [scan, foldl_of_not_hasCode [] h]
  simp

/-- **The first code.** It can be taken out before. -/
theorem scan_delete {p q : List α} {x : α} (hx : code x = true)
    (hp : ¬ HasCode bar code (p ++ [bar])) :
    scan bar code k (p ++ bar :: x :: q) = scan bar code k (p ++ q.drop k) := by
  have hpre : p.foldl (step bar code k) (0, []) = (0, p.reverse) := by
    have := foldl_of_not_hasCode (k := k) (l := p) []
      fun h => hp (h.mono (List.prefix_append _ _).isInfix)
    simpa using this
  have hbar : step bar code k (0, p.reverse) bar = (0, bar :: p.reverse) := by
    refine step_push fun ⟨hcode, hhead⟩ => ?_
    obtain ⟨out, hout⟩ := List.head?_eq_some_iff.mp hhead
    have hrev : p = out.reverse ++ [bar] := by
      rw [← List.reverse_reverse p, hout, List.reverse_cons]
    exact hp (by rw [hrev, List.append_assoc]; exact hasCode_append (q := []) hcode)
  rw [scan, scan, List.foldl_append, List.foldl_append, hpre, List.foldl_cons, List.foldl_cons, hbar,
    step_code hx, foldl_skip]

/-- **Fewer codes in advance.** Where there are no codes in front and none of the fewer codes behind, a
pass for the fewer codes takes out what the pass for all of them takes out first. -/
theorem scan_scan_append {code' : α → Bool} (hsub : ∀ a, code' a = true → code a = true)
    {p q : List α} (hp : ¬ HasCode bar code p) (hq : ¬ HasCode bar code' q) :
    scan bar code k (scan bar code' k (p ++ q)) = scan bar code k (p ++ q) := by
  have hfew : ∀ l, HasCode bar code' l → HasCode bar code l :=
    fun l ⟨x, hx, hin⟩ => ⟨x, hsub x hx, hin⟩
  induction p using List.reverseRecOn generalizing q with
  | nil => rw [List.nil_append, scan_of_not_hasCode hq]
  | append_singleton p a ih =>
    by_cases hnone : HasCode bar code' (p ++ [a] ++ q)
    · have hacross := (hasCode_append_iff.mp hnone).resolve_left fun h => hp (hfew _ h)
      obtain ⟨hlast, x, hhead, hx⟩ := hacross.resolve_left hq
      obtain rfl : a = bar := by simpa using hlast
      obtain ⟨q, rfl⟩ := List.head?_eq_some_iff.mp hhead
      have hassoc : p ++ [a] ++ x :: q = p ++ a :: x :: q := by simp
      rw [hassoc, scan_delete hx fun h => hp (hfew _ h), scan_delete (hsub x hx) hp]
      refine ih (fun h => hp (h.mono (List.prefix_append _ _).isInfix)) fun h => hq (h.mono ?_)
      exact ((List.drop_suffix k q).trans (List.suffix_cons x q)).isInfix
    · rw [scan_of_not_hasCode hnone]

/-! ## Codes alone -/

section Alone

theorem step_fst (out : List α) (a : α) : (step bar code 0 (0, out) a).1 = 0 := by
  unfold step
  split_ifs <;> rfl

variable (bar code) in
theorem foldl_fst (l out : List α) : (l.foldl (step bar code 0) (0, out)).1 = 0 := by
  induction l generalizing out with
  | nil => rfl
  | cons a l ih =>
    rw [List.foldl_cons, ← Prod.eta (step bar code 0 (0, out) a), step_fst]
    exact ih _

variable (hbar : code bar = false)

include hbar in
theorem step_bar (out : List α) : step bar code k (0, out) bar = (0, bar :: out) :=
  step_push fun h => by simp [hbar] at h

include hbar in
/-- A code can be taken out anywhere. -/
theorem scan_delete_zero (p q : List α) {x : α} (hx : code x = true) :
    scan bar code 0 (p ++ bar :: x :: q) = scan bar code 0 (p ++ q) := by
  have hpre := foldl_fst bar code p []
  rw [scan, scan, List.foldl_append, List.foldl_append]
  generalize p.foldl (step bar code 0) (0, []) = s at hpre ⊢
  obtain ⟨n, out⟩ := s
  obtain rfl : n = 0 := hpre
  rw [List.foldl_cons, List.foldl_cons, step_bar hbar, step_code hx]

include hbar in
theorem Balanced.foldl {w : List α} (hw : Balanced bar code w) (out : List α) :
    w.foldl (step bar code 0) (0, out) = (0, out) := by
  induction hw generalizing out with
  | nil => rfl
  | wrap hx _ _ ihw ihv =>
    rw [List.foldl_cons, step_bar hbar, List.foldl_append, ihw, List.foldl_cons, step_code hx, ihv]

variable (bar code) in
theorem parsed_foldl (l : List α) : Parsed bar code l (l.foldl (step bar code 0) (0, [])).2 := by
  induction l using List.reverseRecOn with
  | nil => exact .nil .nil
  | append_singleton l a ih =>
    have hfst := foldl_fst bar code l []
    rw [List.foldl_append, List.foldl_cons, List.foldl_nil]
    generalize l.foldl (step bar code 0) (0, []) = s at hfst ih ⊢
    obtain ⟨n, out⟩ := s
    obtain rfl : n = 0 := hfst
    by_cases hcode : code a = true ∧ out.head? = some bar
    · obtain ⟨out, rfl⟩ := List.head?_eq_some_iff.mp hcode.2
      rw [step_code hcode.1]
      cases ih with
      | cons hl hw =>
        rw [List.append_assoc]
        exact hl.append (.wrap hcode.1 hw .nil)
    · rw [step_push hcode]
      exact .cons ih .nil

/-- What stands on an element that is no mark stays below what comes. -/
theorem foldl_keep (code : α → Bool) {x : α} (hx : x ≠ bar) (q out out' : List α) :
    ∃ out'', (q.foldl (step bar code 0) (0, out' ++ x :: out)).2 = out'' ++ x :: out := by
  induction q generalizing out' with
  | nil => exact ⟨out', rfl⟩
  | cons a q ih =>
    rw [List.foldl_cons]
    by_cases hcode : code a = true ∧ (out' ++ x :: out).head? = some bar
    · cases out' with
      | nil => exact absurd (Option.some.inj hcode.2) hx
      | cons b out' =>
        obtain rfl : b = bar := Option.some.inj hcode.2
        rw [List.cons_append, step_code hcode.1]
        exact ih out'
    · rw [step_push hcode]
      exact ih (a :: out')

/-- **What comes to stand side by side.** A text without its codes has a mark with a letter of another
kind behind it if there is a balanced part between the two. -/
theorem hasCode_scan_iff (hbar : code bar = false) {other : α → Bool} (hother : other bar = false)
    (hdisjoint : ∀ a, other a = true → code a = false) (l : List α) :
    HasCode bar other (scan bar code 0 l) ↔
      ∃ w x, Balanced bar code w ∧ other x = true ∧ bar :: (w ++ [x]) <:+: l := by
  constructor
  · rintro ⟨x, hx, p, q, hpq⟩
    have hout : (l.foldl (step bar code 0) (0, [])).2 = q.reverse ++ x :: bar :: p.reverse := by
      rw [← List.reverse_reverse (l.foldl (step bar code 0) (0, [])).2]
      show (scan bar code 0 l).reverse = _
      rw [← hpq]
      simp
    obtain ⟨w, hw, hin⟩ := (hout ▸ parsed_foldl bar code l).exists_balanced
    exact ⟨w, x, hw, hx, hin⟩
  · rintro ⟨w, x, hw, hx, p, q, rfl⟩
    refine ⟨x, hx, ?_⟩
    have hne : x ≠ bar := fun heq => by rw [heq, hother] at hx; exact Bool.noConfusion hx
    have hpre := foldl_fst bar code p []
    have hpush : ∀ out, step bar code 0 (0, bar :: out) x = (0, x :: bar :: out) := fun out =>
      step_push fun h => by rw [hdisjoint x hx] at h; exact Bool.noConfusion h.1
    rw [scan, List.foldl_append, List.foldl_append]
    generalize p.foldl (step bar code 0) (0, []) = s at hpre ⊢
    obtain ⟨n, out⟩ := s
    obtain rfl : n = 0 := hpre
    rw [List.foldl_cons, step_bar hbar, List.foldl_append, hw.foldl hbar, List.foldl_cons,
      List.foldl_nil, hpush]
    obtain ⟨out', hout⟩ := foldl_keep code hne q (bar :: out) []
    rw [List.nil_append] at hout
    rw [hout]
    exact ⟨out.reverse, out'.reverse, by simp⟩

end Alone

end Cancel
