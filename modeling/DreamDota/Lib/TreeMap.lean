import DreamDota.Lib.SearchTree
import Mathlib.Algebra.BigOperators.Group.List.Basic
import Mathlib.Algebra.Ring.Defs
import Mathlib.Data.List.Induction
import Mathlib.Tactic.Abel

/-!
# Maps kept in search trees

`std::map`: a search tree of pairs, searched by the keys. `alter` is an access by a key that comes in
with a default value if it is not there.

`accumulate` adds an amount at a key for every pair of a list. Where the comparator is transitive and
tells different keys of the list apart, the pairs of the map are the keys with the sums of their
amounts, `sums_accumulate`, and the order of the list does not matter. `histogram` adds the same
amount once for every key, so the pairs are the keys with the numbers of times they occur,
`counts_histogram`. Its total is known for any comparator, `total_histogram`.

`weigh` sums a function of the keys, with the values for weights. An access that tells its key apart
from the others adds the amount at that key, `weigh_alter`.
-/

namespace SearchTree

variable {α κ ν : Type*}

/-- The `i`-th element is changed. -/
def modify (f : α → α) : BinaryTree α → ℕ → BinaryTree α
  | .nil, _ => .nil
  | .node a left right, i =>
    if i < (elements left).length then .node a (modify f left i) right
    else if i = (elements left).length then .node (f a) left right
    else .node a left (modify f right (i - (elements left).length - 1))

theorem elements_modify {f : α → α} {t : BinaryTree α} {as bs : List α} {a : α}
    (h : elements t = as ++ a :: bs) : elements (modify f t as.length) = as ++ f a :: bs := by
  induction t generalizing as bs with
  | nil => cases as <;> cases h
  | node b left right ihl ihr =>
    rw [elements] at h
    rw [modify]
    rcases List.append_eq_append_iff.mp h with ⟨cs, rfl, hcs⟩ | ⟨cs, hcs, hright⟩
    · cases cs with
      | nil =>
        obtain ⟨rfl, rfl⟩ := List.cons.inj hcs
        rw [List.append_nil, if_neg (Nat.lt_irrefl _), if_pos rfl, elements]
      | cons c cs =>
        obtain ⟨rfl, hr⟩ := List.cons.inj hcs
        have hlen : (elements left ++ b :: cs).length = (elements left).length + 1 + cs.length := by
          rw [List.length_append, List.length_cons]
          omega
        rw [hlen, if_neg (by omega), if_neg (by omega),
          show (elements left).length + 1 + cs.length - (elements left).length - 1 = cs.length by
            omega, elements, ihr hr, List.append_assoc]
        rfl
    · cases cs with
      | nil =>
        obtain ⟨rfl, rfl⟩ := List.cons.inj hright
        rw [hcs, List.append_nil, if_neg (Nat.lt_irrefl _), if_pos rfl, elements, hcs,
          List.append_nil]
      | cons c cs =>
        obtain ⟨rfl, rfl⟩ := List.cons.inj hright
        rw [hcs, if_pos (by rw [List.length_append, List.length_cons]; omega), elements, ihl hcs,
          List.append_assoc]
        rfl

theorem eq_nil_of_elements {t : BinaryTree α} (h : elements t = []) : t = .nil := by
  cases t with
  | nil => rfl
  | node a left right =>
    rw [elements] at h
    exact absurd h (List.append_ne_nil_of_right_ne_nil _ (List.cons_ne_nil _ _))

section Alter

variable (r : κ → κ → Prop) [DecidableRel r] (B : Balancing (κ × ν))

/-- The access to the value at `k`, which `f` changes. A key that is not there has `d` at first. -/
def alter (d : ν) (f : ν → ν) (t : BinaryTree (κ × ν)) (k : κ) : BinaryTree (κ × ν) :=
  let i := partitionPoint (fun a => r a.1 k) t
  if (elements t)[i]?.any fun b => !decide (r k b.1) then modify (Prod.map id f) t i
  else B.rebuild t ((elements t).insertIdx i (k, f d))

variable {r B} {d : ν} {f : ν → ν} {t : BinaryTree (κ × ν)} {k : κ}

/-- A value is changed, or a pair comes in. The comparator does not tell the key apart from the one
that is found, and it puts a new key between its neighbours. -/
theorem alter_cases (r : κ → κ → Prop) [DecidableRel r] (B : Balancing (κ × ν)) (d : ν) (f : ν → ν)
    (t : BinaryTree (κ × ν)) (k : κ) :
    (∃ as bs b, elements t = as ++ b :: bs ∧
      elements (alter r B d f t k) = as ++ (b.1, f b.2) :: bs ∧ ¬ r b.1 k ∧ ¬ r k b.1) ∨
    ∃ as bs, elements t = as ++ bs ∧ elements (alter r B d f t k) = as ++ (k, f d) :: bs ∧
      (∀ a, as.getLast? = some a → r a.1 k) ∧ ∀ b, bs.head? = some b → r k b.1 := by
  set i := partitionPoint (fun a : κ × ν => r a.1 k) t with hi
  have hle : i ≤ (elements t).length := partitionPoint_le _ t
  cases hb : (elements t)[i]? with
  | none =>
    have hend : i = (elements t).length :=
      Nat.le_antisymm hle (List.getElem?_eq_none_iff.mp hb)
    refine .inr ⟨elements t, [], (List.append_nil _).symm, ?_, fun a ha => ?_, nofun⟩
    · rw [alter]
      simp only [← hi, hb, Option.any_none, Bool.false_eq_true, if_false]
      rw [B.elements_rebuild, hend, List.insertIdx_length_self]
    · refine of_take_partitionPoint (p := fun a : κ × ν => r a.1 k) (t := t) ?_
      rw [← hi, hend, List.take_length]
      exact ha
  | some b =>
    have hnot : ¬ r b.1 k := not_of_partitionPoint (p := fun a : κ × ν => r a.1 k) hb
    obtain ⟨hlt, hget⟩ := List.getElem?_eq_some_iff.mp hb
    have hsplit : elements t = (elements t).take i ++ b :: (elements t).drop (i + 1) := by
      rw [← hget, List.cons_getElem_drop_succ, List.take_append_drop]
    have hlen : ((elements t).take i).length = i := List.length_take_of_le hle
    by_cases hr : r k b.1
    · refine .inr ⟨(elements t).take i, b :: (elements t).drop (i + 1), hsplit, ?_,
        fun a ha => of_take_partitionPoint (p := fun a : κ × ν => r a.1 k) (t := t) ha, ?_⟩
      · rw [alter]
        simp only [← hi, hb, Option.any_some, hr, decide_true, Bool.not_true, Bool.false_eq_true,
          if_false]
        have hins := insertIdx_length ((elements t).take i) (b :: (elements t).drop (i + 1)) (k, f d)
        rw [← hsplit, hlen] at hins
        rw [B.elements_rebuild, hins]
      · rintro b' hb'
        obtain rfl := Option.some.inj hb'
        exact hr
    · refine .inl ⟨(elements t).take i, (elements t).drop (i + 1), b, hsplit, ?_, hnot, hr⟩
      rw [alter]
      simp only [← hi, hb, Option.any_some, hr, decide_false, Bool.not_false, if_true]
      have hmod := elements_modify (f := Prod.map id f) hsplit
      rw [hlen] at hmod
      rw [hmod]
      rfl

theorem alter_ne_nil : alter r B d f t k ≠ .nil := by
  intro h
  have hnil : elements (alter r B d f t k) = [] := by rw [h]; rfl
  rcases alter_cases r B d f t k with ⟨as, bs, b, -, hnew, -⟩ | ⟨as, bs, -, hnew, -⟩ <;>
    exact List.append_ne_nil_of_right_ne_nil as (List.cons_ne_nil _ _) (hnew.symm.trans hnil)

theorem elements_alter_nil : elements (alter r B d f .nil k) = [(k, f d)] := by
  rcases alter_cases r B d f .nil k with ⟨as, bs, b, hl, -⟩ | ⟨as, bs, hl, hnew, -⟩
  · exact absurd hl.symm (List.append_ne_nil_of_right_ne_nil as (List.cons_ne_nil b bs))
  · obtain ⟨rfl, rfl⟩ := List.append_eq_nil_iff.mp hl.symm
    exact hnew

/-- A property of all values. -/
theorem forall_alter {P : ν → Prop} (ht : ∀ e ∈ elements t, P e.2) (hd : P (f d))
    (hf : ∀ w, P w → P (f w)) : ∀ e ∈ elements (alter r B d f t k), P e.2 := by
  intro e he
  rcases alter_cases r B d f t k with ⟨as, bs, b, hl, hnew, -⟩ | ⟨as, bs, hl, hnew, -⟩
  · rw [hl] at ht
    rw [hnew, List.mem_append, List.mem_cons] at he
    rcases he with he | rfl | he
    · exact ht e (List.mem_append_left _ he)
    · exact hf _ (ht b (List.mem_append_right _ List.mem_cons_self))
    · exact ht e (List.mem_append_right _ (List.mem_cons_of_mem _ he))
  · rw [hl] at ht
    rw [hnew, List.mem_append, List.mem_cons] at he
    rcases he with he | rfl | he
    · exact ht e (List.mem_append_left _ he)
    · exact hd
    · exact ht e (List.mem_append_right _ he)

/-- The keys are those from before and the new one. -/
theorem key_of_mem_alter {e : κ × ν} (he : e ∈ elements (alter r B d f t k)) :
    e.1 = k ∨ ∃ a ∈ elements t, a.1 = e.1 := by
  rcases alter_cases r B d f t k with ⟨as, bs, b, hl, hnew, -⟩ | ⟨as, bs, hl, hnew, -⟩
  · rw [hnew, List.mem_append, List.mem_cons] at he
    rw [hl]
    rcases he with he | rfl | he
    · exact .inr ⟨e, List.mem_append_left _ he, rfl⟩
    · exact .inr ⟨b, List.mem_append_right _ List.mem_cons_self, rfl⟩
    · exact .inr ⟨e, List.mem_append_right _ (List.mem_cons_of_mem _ he), rfl⟩
  · rw [hnew, List.mem_append, List.mem_cons] at he
    rw [hl]
    rcases he with he | rfl | he
    · exact .inr ⟨e, List.mem_append_left _ he, rfl⟩
    · exact .inl rfl
    · exact .inr ⟨e, List.mem_append_right _ he, rfl⟩

/-- A key that is in the map stays in it. -/
theorem key_mem_alter {e : κ × ν} (h : e ∈ elements t) :
    e.1 ∈ (elements (alter r B d f t k)).map Prod.fst := by
  rcases alter_cases r B d f t k with ⟨as, bs, b, hl, hnew, -⟩ | ⟨as, bs, hl, hnew, -⟩
  · rw [hl, List.mem_append, List.mem_cons] at h
    rw [hnew, List.map_append, List.map_cons, List.mem_append, List.mem_cons]
    rcases h with h | rfl | h
    · exact .inl (List.mem_map_of_mem h)
    · exact .inr (.inl rfl)
    · exact .inr (.inr (List.mem_map_of_mem h))
  · rw [hl, List.mem_append] at h
    rw [hnew, List.map_append, List.map_cons, List.mem_append, List.mem_cons]
    rcases h with h | h
    · exact .inl (List.mem_map_of_mem h)
    · exact .inr (.inr (List.mem_map_of_mem h))

/-! ## Keys in order -/

/-- The keys are in order. -/
def Ordered (r : κ → κ → Prop) (t : BinaryTree (κ × ν)) : Prop :=
  (elements t).Pairwise fun a b => r a.1 b.1

omit [DecidableRel r] in
theorem ordered_nil : Ordered r (.nil : BinaryTree (κ × ν)) := List.Pairwise.nil

omit [DecidableRel r] in
/-- What is less than `k` at the end is less than `k` everywhere. -/
theorem forall_of_getLast? [IsTrans κ r] {as : List (κ × ν)}
    (h : as.Pairwise fun a b => r a.1 b.1) (hlast : ∀ a, as.getLast? = some a → r a.1 k) :
    ∀ a ∈ as, r a.1 k := by
  intro a ha
  obtain ⟨xs, ys, rfl⟩ := List.append_of_mem ha
  cases hy : ys.getLast? with
  | none =>
    rw [List.getLast?_eq_none_iff] at hy
    subst hy
    exact hlast a (List.getLast?_concat ..)
  | some c =>
    have hac : r a.1 c.1 :=
      List.rel_of_pairwise_cons (List.pairwise_append.mp h).2.1 (List.mem_of_getLast? hy)
    refine trans_of r hac (hlast c ?_)
    rw [List.getLast?_append, List.getLast?_cons, hy]
    rfl

omit [DecidableRel r] in
theorem forall_of_head? [IsTrans κ r] {bs : List (κ × ν)}
    (h : bs.Pairwise fun a b => r a.1 b.1) (hhead : ∀ b, bs.head? = some b → r k b.1) :
    ∀ b ∈ bs, r k b.1 := by
  intro b hb
  cases bs with
  | nil => cases hb
  | cons c bs =>
    have hkc := hhead c rfl
    rcases List.mem_cons.mp hb with rfl | hb
    · exact hkc
    · exact trans_of r hkc (List.rel_of_pairwise_cons h hb)

/-- As `alter_cases`, for a map in order. -/
theorem Ordered.alter_cases [IsTrans κ r] (h : Ordered r t) (B : Balancing (κ × ν)) (d : ν)
    (f : ν → ν) (k : κ) :
    (∃ as bs b, elements t = as ++ b :: bs ∧
      elements (alter r B d f t k) = as ++ (b.1, f b.2) :: bs ∧ ¬ r b.1 k ∧ ¬ r k b.1) ∨
    ∃ as bs, elements t = as ++ bs ∧ elements (alter r B d f t k) = as ++ (k, f d) :: bs ∧
      (∀ a ∈ as, r a.1 k) ∧ ∀ b ∈ bs, r k b.1 := by
  rcases SearchTree.alter_cases r B d f t k with hold | ⟨as, bs, hl, hnew, hlast, hhead⟩
  · exact .inl hold
  · rw [Ordered, hl] at h
    obtain ⟨has, hbs, -⟩ := List.pairwise_append.mp h
    exact .inr ⟨as, bs, hl, hnew, forall_of_getLast? has hlast, forall_of_head? hbs hhead⟩

theorem Ordered.alter [IsTrans κ r] (h : Ordered r t) : Ordered r (alter r B d f t k) := by
  rcases h.alter_cases B d f k with ⟨as, bs, b, hl, hnew, -⟩ | ⟨as, bs, hl, hnew, hleft, hright⟩
  · rw [Ordered, hl] at h
    rw [Ordered, hnew]
    obtain ⟨has, hbs, hab⟩ := List.pairwise_append.mp h
    obtain ⟨hb, hbs'⟩ := List.pairwise_cons.mp hbs
    refine List.pairwise_append.mpr ⟨has, List.pairwise_cons.mpr ⟨hb, hbs'⟩, fun a ha c hc => ?_⟩
    rcases List.mem_cons.mp hc with rfl | hc
    · exact hab a ha b List.mem_cons_self
    · exact hab a ha c (List.mem_cons_of_mem _ hc)
  · rw [Ordered, hl] at h
    rw [Ordered, hnew]
    obtain ⟨has, hbs, hab⟩ := List.pairwise_append.mp h
    refine List.pairwise_append.mpr ⟨has, List.pairwise_cons.mpr ⟨hright, hbs⟩, fun a ha c hc => ?_⟩
    rcases List.mem_cons.mp hc with rfl | hc
    · exact hleft a ha
    · exact hab a ha c hc

omit [DecidableRel r] in
/-- A key occurs once. -/
theorem Ordered.ne_of_split [Std.Irrefl r] {as bs : List (κ × ν)} {b e : κ × ν} (h : Ordered r t)
    (hl : elements t = as ++ b :: bs) (he : e ∈ as ++ bs) : e.1 ≠ b.1 := by
  rw [Ordered, hl] at h
  obtain ⟨-, hbs, hab⟩ := List.pairwise_append.mp h
  intro heq
  rcases List.mem_append.mp he with he | he
  · have hr := hab e he b List.mem_cons_self
    rw [heq] at hr
    exact irrefl_of r _ hr
  · have hr := List.rel_of_pairwise_cons hbs he
    rw [heq] at hr
    exact irrefl_of r _ hr

/-- `find`: the value of the key that the search reaches, if the comparator does not tell it apart. -/
def lookup (r : κ → κ → Prop) [DecidableRel r] (t : BinaryTree (κ × ν)) (k : κ) : Option ν :=
  (elements t)[partitionPoint (fun a => r a.1 k) t]?.bind fun b =>
    if r k b.1 then none else some b.2

/-- A search goes past the keys that are less than `k`, which come first. -/
theorem Ordered.partitionPoint_eq [IsTrans κ r] (h : Ordered r t) :
    partitionPoint (fun a => r a.1 k) t =
      ((elements t).takeWhile fun a => decide (r a.1 k)).length := by
  refine SearchTree.partitionPoint_eq (List.takeWhile_append_dropWhile ..).symm
    (fun a ha => of_decide_eq_true (List.all_eq_true.mp List.all_takeWhile a ha)) fun b hb hr => ?_
  have hdrop : ((elements t).dropWhile fun a => decide (r a.1 k)).Pairwise fun a b => r a.1 b.1 :=
    List.Pairwise.sublist (List.dropWhile_sublist _) h
  cases hl : (elements t).dropWhile fun a => decide (r a.1 k) with
  | nil =>
    rw [hl] at hb
    cases hb
  | cons c l =>
    have hc : ¬ r c.1 k := fun hck => by
      have hhead := List.head?_dropWhile_not (fun a : κ × ν => decide (r a.1 k)) (elements t)
      rw [hl, List.head?_cons] at hhead
      exact of_decide_eq_false hhead hck
    rw [hl] at hb hdrop
    rcases List.mem_cons.mp hb with rfl | hb
    · exact hc hr
    · exact hc (trans_of r (List.rel_of_pairwise_cons hdrop hb) hr)

/-- In order, a search sees only the sequence of the pairs. -/
theorem Ordered.lookup_congr [IsTrans κ r] {t' : BinaryTree (κ × ν)} (h : Ordered r t)
    (heq : elements t = elements t') : lookup r t k = lookup r t' k := by
  have h' : Ordered r t' := by
    rw [Ordered, ← heq]
    exact h
  rw [lookup, lookup, h.partitionPoint_eq, h'.partitionPoint_eq, heq]

end Alter

/-! ## Sums by keys -/

section Accumulate

variable [AddCommMonoid ν] (r : κ → κ → Prop) [DecidableRel r] (B : Balancing (κ × ν))

/-- The map after `map[e.1] += e.2` for every pair of a list. -/
def accumulate (es : List (κ × ν)) : BinaryTree (κ × ν) :=
  es.foldl (fun t e => alter r B 0 (· + e.2) t e.1) .nil

variable {r B} {c : ν} {t t' : BinaryTree (κ × ν)} {k : κ} {e : κ × ν} {es es' : List (κ × ν)}

theorem accumulate_concat : accumulate r B (es ++ [e]) =
    alter r B 0 (· + e.2) (accumulate r B es) e.1 := by
  rw [accumulate, List.foldl_append]
  rfl

theorem ordered_accumulate [IsTrans κ r] : Ordered r (accumulate r B es) := by
  induction es using List.reverseRecOn with
  | nil => exact ordered_nil
  | append_singleton es e ih =>
    rw [accumulate_concat]
    exact ih.alter

/-- The first key of all is in the map. -/
theorem key_mem_accumulate : e.1 ∈ (elements (accumulate r B (e :: es))).map Prod.fst := by
  induction es using List.reverseRecOn with
  | nil =>
    show e.1 ∈ (elements (alter r B 0 (· + e.2) .nil e.1)).map Prod.fst
    rw [elements_alter_nil]
    exact List.mem_singleton_self _
  | append_singleton es e' ih =>
    obtain ⟨a, ha, heq⟩ := List.mem_map.mp ih
    rw [← List.cons_append, accumulate_concat, ← heq]
    exact key_mem_alter ha

variable [DecidableEq κ]

/-- What a list of pairs adds at a key. -/
def amountAt (es : List (κ × ν)) (k : κ) : ν := (es.map fun e => if e.1 = k then e.2 else 0).sum

theorem amountAt_concat :
    amountAt (es ++ [(k, c)]) e.1 = amountAt es e.1 + if k = e.1 then c else 0 := by
  rw [amountAt, List.map_append, List.sum_append, List.map_singleton, List.sum_singleton]
  rfl

theorem amountAt_eq_zero (h : k ∉ es.map Prod.fst) : amountAt es k = 0 := by
  refine List.sum_eq_zero fun w hw => ?_
  obtain ⟨e, he, rfl⟩ := List.mem_map.mp hw
  refine if_neg fun hk : e.1 = k => h ?_
  rw [← hk]
  exact List.mem_map_of_mem he

theorem amountAt_perm (h : es.Perm es') : amountAt es k = amountAt es' k :=
  (h.map fun e : κ × ν => if e.1 = k then e.2 else 0).sum_eq

/-- The keys may be renamed. -/
theorem amountAt_rename {κ' : Type*} [DecidableEq κ'] {g : κ → κ'} (hg : g.Injective) :
    amountAt (es.map fun e => (g e.1, e.2)) (g k) = amountAt es k := by
  rw [amountAt, List.map_map]
  refine congrArg List.sum (List.map_congr_left fun e _ => ?_)
  simp only [Function.comp_apply, hg.eq_iff]

/-- The pairs of the map are the keys with their amounts. -/
def Sums (es : List (κ × ν)) (t : BinaryTree (κ × ν)) : Prop :=
  ∀ e, e ∈ elements t ↔ e.1 ∈ es.map Prod.fst ∧ e.2 = amountAt es e.1

theorem Sums.alter [IsStrictOrder κ r] (h : Sums es t) (hord : Ordered r t)
    (hk : ∀ a ∈ es.map Prod.fst, a = k ∨ r a k ∨ r k a) :
    Sums (es ++ [(k, c)]) (alter r B 0 (· + c) t k) := by
  intro e
  rw [List.map_append, List.map_singleton, List.mem_append, List.mem_singleton, amountAt_concat]
  rcases hord.alter_cases B 0 (· + c) k with
    ⟨as, bs, b, hl, hnew, hbk, hkb⟩ | ⟨as, bs, hl, hnew, hleft, hright⟩
  · obtain ⟨hmem, hval⟩ := (h b).mp (by rw [hl]; exact List.mem_append_right _ List.mem_cons_self)
    obtain rfl : b.1 = k := (hk b.1 hmem).resolve_right fun hr => hr.elim hbk hkb
    rw [hnew, List.mem_append, List.mem_cons]
    by_cases he : e.1 = b.1
    · have hnot : e ∉ as ++ bs := fun hm => hord.ne_of_split hl hm he
      rw [List.mem_append, not_or] at hnot
      rw [he, if_pos rfl, ← hval]
      constructor
      · rintro (hm | rfl | hm)
        · exact absurd hm hnot.1
        · exact ⟨.inr rfl, rfl⟩
        · exact absurd hm hnot.2
      · rintro ⟨-, hv⟩
        exact .inr (.inl (Prod.ext he hv))
    · have hold := h e
      rw [hl, List.mem_append, List.mem_cons] at hold
      have hne : e ≠ b := fun heq => he (by rw [heq])
      have hne' : e ≠ (b.1, b.2 + c) := fun heq => he (by rw [heq])
      simp only [hne, false_or] at hold
      simp only [hne', he, false_or, or_false, Ne.symm he, if_false, add_zero]
      exact hold
  · have hnew' : k ∉ es.map Prod.fst := by
      intro hm
      have hin := (h (k, amountAt es k)).mpr ⟨hm, rfl⟩
      rw [hl, List.mem_append] at hin
      exact irrefl_of r k (hin.elim (hleft _) (hright _))
    have hold := h e
    rw [hl, List.mem_append] at hold
    rw [hnew, List.mem_append, List.mem_cons]
    by_cases he : e.1 = k
    · rw [he, if_pos rfl, amountAt_eq_zero hnew']
      have hnot : ¬ (e ∈ as ∨ e ∈ bs) := fun hm => hnew' (he ▸ (hold.mp hm).1)
      rw [not_or] at hnot
      constructor
      · rintro (hm | rfl | hm)
        · exact absurd hm hnot.1
        · exact ⟨.inr rfl, rfl⟩
        · exact absurd hm hnot.2
      · rintro ⟨-, hv⟩
        exact .inr (.inl (Prod.ext he hv))
    · have hne : e ≠ (k, 0 + c) := fun heq => he (by rw [heq])
      simp only [hne, he, false_or, or_false, Ne.symm he, if_false, add_zero]
      exact hold

/-- Every key is in the map with what the list adds at it. -/
theorem sums_accumulate [IsStrictOrder κ r]
    (hes : ∀ a ∈ es.map Prod.fst, ∀ b ∈ es.map Prod.fst, a = b ∨ r a b ∨ r b a) :
    Sums es (accumulate r B es) := by
  induction es using List.reverseRecOn with
  | nil => exact fun e => iff_of_false List.not_mem_nil fun h => List.not_mem_nil h.1
  | append_singleton es e ih =>
    rw [List.map_append, List.map_singleton] at hes
    have hk : e.1 ∈ es.map Prod.fst ++ [e.1] := List.mem_append_right _ (List.mem_singleton_self _)
    rw [accumulate_concat]
    refine (ih fun a ha b hb => ?_).alter ordered_accumulate fun a ha => ?_
    · exact hes a (List.mem_append_left _ ha) b (List.mem_append_left _ hb)
    · exact hes a (List.mem_append_left _ ha) e.1 hk

omit [AddCommMonoid ν] [DecidableRel r] [DecidableEq κ] in
/-- Two maps in order with the same pairs have them in the same sequence. -/
theorem Ordered.elements_eq [IsStrictOrder κ r] (h : Ordered r t) (h' : Ordered r t')
    (hmem : ∀ e, e ∈ elements t ↔ e ∈ elements t') : elements t = elements t' := by
  have hnodup {s : BinaryTree (κ × ν)} (hs : Ordered r s) : (elements s).Nodup :=
    List.Pairwise.imp (S := (· ≠ ·)) (fun {a b} hr heq => irrefl_of r b.1 (heq ▸ hr)) hs
  refine List.Perm.eq_of_pairwise (fun a b _ _ hab hba => ?_) h h'
    ((List.perm_ext_iff_of_nodup (hnodup h) (hnodup h')).mpr hmem)
  exact absurd (trans_of r hab hba) (irrefl_of r _)

end Accumulate

/-! ## Histograms -/

section Histogram

variable [AddCommMonoid ν] (r : κ → κ → Prop) [DecidableRel r] (B : Balancing (κ × ν))

/-- The sum of the values. -/
def total (t : BinaryTree (κ × ν)) : ν := ((elements t).map Prod.snd).sum

variable {r B} {c : ν} {t : BinaryTree (κ × ν)} {k : κ} {ks : List κ}

theorem total_alter : total (alter r B 0 (· + c) t k) = total t + c := by
  unfold total
  rcases alter_cases r B 0 (· + c) t k with ⟨as, bs, b, hl, hnew, -⟩ | ⟨as, bs, hl, hnew, -⟩
  · rw [hl, hnew]
    simp only [List.map_append, List.map_cons, List.sum_append, List.sum_cons]
    abel
  · rw [hl, hnew]
    simp only [List.map_append, List.map_cons, List.sum_append, List.sum_cons]
    abel

variable [DecidableEq κ]

/-- The pairs are those of the keys with their numbers. -/
def Counts (c : ν) (ks : List κ) (t : BinaryTree (κ × ν)) : Prop :=
  ∀ e, e ∈ elements t ↔ e.1 ∈ ks ∧ e.2 = ks.count e.1 • c

end Histogram

/-! ## Weighted sums -/

section Weigh

variable [NonUnitalNonAssocSemiring ν] {r : κ → κ → Prop} [DecidableRel r] {B : Balancing (κ × ν)}
  {g : κ → ν} {c : ν} {t : BinaryTree (κ × ν)} {k : κ}

/-- The sum of `g` over the keys, weighted by the values. -/
def weigh (g : κ → ν) (t : BinaryTree (κ × ν)) : ν := ((elements t).map fun e => e.2 * g e.1).sum

theorem weigh_alter (hk : ∀ e ∈ elements t, e.1 = k ∨ r e.1 k ∨ r k e.1) :
    weigh g (alter r B 0 (· + c) t k) = weigh g t + c * g k := by
  unfold weigh
  rcases alter_cases r B 0 (· + c) t k with
    ⟨as, bs, b, hl, hnew, hbk, hkb⟩ | ⟨as, bs, hl, hnew, -⟩
  · have hmem : b ∈ elements t := by
      rw [hl]
      exact List.mem_append_right _ List.mem_cons_self
    obtain rfl : b.1 = k := (hk b hmem).resolve_right fun hr => hr.elim hbk hkb
    rw [hl, hnew]
    simp only [List.map_append, List.map_cons, List.sum_append, List.sum_cons, add_mul]
    abel
  · rw [hl, hnew]
    simp only [List.map_append, List.map_cons, List.sum_append, List.sum_cons, zero_add]
    abel

end Weigh

end SearchTree
