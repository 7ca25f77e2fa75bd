import Mathlib.Data.Finset.Max
import Mathlib.Data.List.Nodup
import Mathlib.Data.List.Perm.Basic
import Mathlib.Logic.Function.Basic
import Mathlib.Tactic.Common

/-!
# Taking down composite objects

Objects register themselves and delete their parts in their destructors. `cleanup` takes the
smallest registered address, goes up to the object that has no owner, and deletes that one, until
nothing is registered. A pointer to an object that was deleted must not be followed: then the result
is `none`. The loops have fuel; too little of it gives `none`, too.

The objects come as trees of parts. A part that names its composite as its owner belongs to the
group of the composite.

1. `delete_tree`: a tree that is alive is deleted part by part.
2. `climb_group`, `exists_sub`: from where in a tree the top is reached.
3. `cleanup_of_topFirst`: if in every tree the smallest address is in the group of the top, trees go
   as a whole.
4. `Doomed`: an object with a part that was deleted before stays for ever, `cleanup_doomed`.
5. `Holds.cleanup_iff`: `cleanup` deletes every object once in exactly the forests of 3.
-/

namespace Teardown

/-- `parts` in the order in which the destructors delete them. -/
structure Object where
  owner : Option ℕ
  parts : List ℕ
  deriving DecidableEq, Repr

structure Heap where
  objects : ℕ → Option Object
  registered : Finset ℕ
  deleted : List ℕ

namespace Heap

/-- The last destructor removes the object from the set, and its memory is free. -/
def remove (h : Heap) (a : ℕ) : Heap where
  objects := Function.update h.objects a none
  registered := h.registered.erase a
  deleted := h.deleted ++ [a]

/-- `delete`. -/
def delete : ℕ → Heap → ℕ → Option Heap
  | 0, _, _ => none
  | n + 1, h, a =>
    match h.objects a with
    | none => none
    | some o => (o.parts.foldlM (delete n) h).map fun h => h.remove a

/-- The loop up to the object without owner. -/
def climb : ℕ → Heap → ℕ → Option ℕ
  | 0, _, _ => none
  | n + 1, h, a =>
    match h.objects a with
    | none => none
    | some o =>
      match o.owner with
      | none => some a
      | some b => climb n h b

/-- The loop over the registered objects, with `k` for the fuel of the loops inside. -/
def cleanup (k : ℕ) : ℕ → Heap → Option Heap
  | 0, h => if h.registered = ∅ then some h else none
  | n + 1, h =>
    match h.registered.min with
    | ⊤ => some h
    | (a : ℕ) => do
      let root ← climb k h a
      let h ← delete k h root
      cleanup k n h

end Heap

/-! ## Trees -/

inductive Tree
  | node (addr : ℕ) (owned : Bool) (parts : List Tree)

namespace Tree

def addr : Tree → ℕ
  | .node a _ _ => a

def owned : Tree → Bool
  | .node _ owned _ => owned

def parts : Tree → List Tree
  | .node _ _ parts => parts

mutual

/-- The objects of a tree whose composite is at `parent`. -/
def entries (parent : Option ℕ) : Tree → List (ℕ × Object)
  | .node a owned parts =>
    (a, ⟨if owned then parent else none, parts.map addr⟩) :: entriesAll a parts

def entriesAll (a : ℕ) : List Tree → List (ℕ × Object)
  | [] => []
  | t :: ts => t.entries (some a) ++ entriesAll a ts

end

mutual

/-- The addresses in the order in which they are deleted. -/
def postorder : Tree → List ℕ
  | .node a _ parts => postorderAll parts ++ [a]

def postorderAll : List Tree → List ℕ
  | [] => []
  | t :: ts => t.postorder ++ postorderAll ts

end

mutual

/-- The addresses from where the top is reached. -/
def group : Tree → List ℕ
  | .node a _ parts => a :: groupAll parts

def groupAll : List Tree → List ℕ
  | [] => []
  | t :: ts => (if t.owned then t.group else []) ++ groupAll ts

end

mutual

def depth : Tree → ℕ
  | .node _ _ parts => depthAll parts + 1

def depthAll : List Tree → ℕ
  | [] => 0
  | t :: ts => max t.depth (depthAll ts)

end

mutual

/-- The parts, their parts and so on, each with the address of its composite. -/
def subs : Tree → List (ℕ × Tree)
  | .node a _ parts => subsAll a parts

def subsAll (a : ℕ) : List Tree → List (ℕ × Tree)
  | [] => []
  | t :: ts => (a, t) :: t.subs ++ subsAll a ts

end

/-- The smallest address is one from where the top is reached. -/
def TopFirst (t : Tree) : Prop := ∃ a ∈ t.group, ∀ b ∈ t.postorder, a ≤ b

instance (t : Tree) : Decidable t.TopFirst :=
  inferInstanceAs (Decidable (∃ a ∈ t.group, ∀ b ∈ t.postorder, a ≤ b))

/-- Induction over a tree, with the hypothesis for all parts. -/
theorem induct {P : Tree → Prop}
    (node : ∀ a owned parts, (∀ p ∈ parts, P p) → P (.node a owned parts)) (t : Tree) : P t := by
  refine @Tree.rec P (fun ts => ∀ p ∈ ts, P p) node (fun _ h => nomatch h) ?_ t
  intro t ts iht ihts p hp
  rcases List.mem_cons.mp hp with rfl | hp
  · exact iht
  · exact ihts p hp

variable {a : ℕ} {owned : Bool} {parts : List Tree}

theorem entriesAll_eq (a : ℕ) (ts : List Tree) :
    entriesAll a ts = ts.flatMap (entries (some a)) := by
  induction ts with
  | nil => rfl
  | cons t ts ih => rw [entriesAll, ih, List.flatMap_cons]

theorem postorderAll_eq (ts : List Tree) : postorderAll ts = ts.flatMap postorder := by
  induction ts with
  | nil => rfl
  | cons t ts ih => rw [postorderAll, ih, List.flatMap_cons]

theorem mem_groupAll {m : ℕ} {ts : List Tree} :
    m ∈ groupAll ts ↔ ∃ t ∈ ts, t.owned = true ∧ m ∈ t.group := by
  induction ts with
  | nil => simp [groupAll]
  | cons t ts ih => cases h : t.owned <;> simp [groupAll, ih, h]

theorem mem_subsAll {e : ℕ × Tree} {ts : List Tree} :
    e ∈ subsAll a ts ↔ ∃ t ∈ ts, e = (a, t) ∨ e ∈ t.subs := by
  induction ts with
  | nil => simp [subsAll]
  | cons t ts ih => simp [subsAll, ih, or_assoc]

theorem depth_le_depthAll {t : Tree} {ts : List Tree} (ht : t ∈ ts) : t.depth ≤ depthAll ts := by
  induction ts with
  | nil => nomatch ht
  | cons u ts ih =>
    rcases List.mem_cons.mp ht with rfl | ht
    · exact le_max_left _ _
    · exact (ih ht).trans (le_max_right _ _)

theorem mem_entries_node {parent : Option ℕ} {e : ℕ × Object} :
    e ∈ (node a owned parts).entries parent ↔
      e = (a, ⟨if owned then parent else none, parts.map addr⟩) ∨
        ∃ p ∈ parts, e ∈ p.entries (some a) := by
  simp [entries, entriesAll_eq]

theorem mem_postorder_node {b : ℕ} :
    b ∈ (node a owned parts).postorder ↔ (∃ p ∈ parts, b ∈ p.postorder) ∨ b = a := by
  simp [postorder, postorderAll_eq]

theorem mem_group_node {b : ℕ} :
    b ∈ (node a owned parts).group ↔ b = a ∨ ∃ p ∈ parts, p.owned = true ∧ b ∈ p.group := by
  simp [group, mem_groupAll]

theorem mem_subs_node {e : ℕ × Tree} :
    e ∈ (node a owned parts).subs ↔ ∃ p ∈ parts, e = (a, p) ∨ e ∈ p.subs := by
  rw [subs, mem_subsAll]

theorem depth_part {p : Tree} (hp : p ∈ parts) : p.depth < (node a owned parts).depth := by
  rw [depth]
  exact Nat.lt_succ_of_le (depth_le_depthAll hp)

theorem depth_pos (t : Tree) : 0 < t.depth := by
  cases t
  exact Nat.succ_pos _

/-! ## Addresses -/

theorem addr_mem_postorder (t : Tree) : t.addr ∈ t.postorder := by
  cases t
  exact mem_postorder_node.mpr (.inr rfl)

theorem top_mem_entries (t : Tree) (parent : Option ℕ) :
    (t.addr, ⟨if t.owned then parent else none, t.parts.map addr⟩) ∈ t.entries parent := by
  cases t
  exact mem_entries_node.mpr (.inl rfl)

theorem mem_postorder_of_entries {t : Tree} {parent : Option ℕ} {e : ℕ × Object}
    (he : e ∈ t.entries parent) : e.1 ∈ t.postorder := by
  induction t using induct generalizing parent with
  | node a owned parts ih =>
    rcases mem_entries_node.mp he with rfl | ⟨p, hp, he⟩
    · exact mem_postorder_node.mpr (.inr rfl)
    · exact mem_postorder_node.mpr (.inl ⟨p, hp, ih p hp he⟩)

theorem postorder_sublist {p : Tree} (hp : p ∈ parts) :
    p.postorder.Sublist (node a owned parts).postorder := by
  obtain ⟨l₁, l₂, rfl⟩ := List.append_of_mem hp
  simp only [postorder, postorderAll_eq, List.flatMap_append, List.flatMap_cons]
  exact ((List.sublist_append_left _ _).trans (List.sublist_append_right _ _)).trans
    (List.sublist_append_left _ _)

theorem mem_postorder_of_group {t : Tree} {m : ℕ} (hm : m ∈ t.group) : m ∈ t.postorder := by
  induction t using induct with
  | node a owned parts ih =>
    rcases mem_group_node.mp hm with rfl | ⟨p, hp, -, hm⟩
    · exact mem_postorder_node.mpr (.inr rfl)
    · exact mem_postorder_node.mpr (.inl ⟨p, hp, ih p hp hm⟩)

theorem topFirst_iff {t : Tree} {m : ℕ} (hm : m ∈ t.postorder) (hle : ∀ b ∈ t.postorder, m ≤ b) :
    t.TopFirst ↔ m ∈ t.group := by
  constructor
  · rintro ⟨a, ha, hmin⟩
    obtain rfl : m = a := le_antisymm (hle a (mem_postorder_of_group ha)) (hmin m hm)
    exact ha
  · exact fun hg => ⟨m, hg, hle⟩

/-! ## Parts of parts -/

theorem subs_postorder {t s : Tree} {q : ℕ} (hs : (q, s) ∈ t.subs) :
    s.postorder.Sublist t.postorder := by
  induction t using induct with
  | node a owned parts ih =>
    obtain ⟨p, hp, he | he⟩ := mem_subs_node.mp hs
    · rw [(Prod.mk.inj he).2]
      exact postorder_sublist hp
    · exact (ih p hp he).trans (postorder_sublist hp)

theorem subs_entries {t s : Tree} {q : ℕ} (hs : (q, s) ∈ t.subs) {parent : Option ℕ}
    {e : ℕ × Object} (he : e ∈ s.entries (some q)) : e ∈ t.entries parent := by
  induction t using induct generalizing parent with
  | node a owned parts ih =>
    obtain ⟨p, hp, h | h⟩ := mem_subs_node.mp hs
    · obtain ⟨rfl, rfl⟩ := Prod.mk.inj h
      exact mem_entries_node.mpr (.inr ⟨s, hp, he⟩)
    · exact mem_entries_node.mpr (.inr ⟨p, hp, ih p hp h⟩)

/-- The composite has the part among its parts. -/
theorem subs_composite {t s : Tree} {q : ℕ} (hs : (q, s) ∈ t.subs) (parent : Option ℕ) :
    ∃ o, (q, o) ∈ t.entries parent ∧ s.addr ∈ o.parts := by
  induction t using induct generalizing parent with
  | node a owned parts ih =>
    obtain ⟨p, hp, h | h⟩ := mem_subs_node.mp hs
    · obtain ⟨rfl, rfl⟩ := Prod.mk.inj h
      exact ⟨_, mem_entries_node.mpr (.inl rfl), List.mem_map_of_mem hp⟩
    · obtain ⟨o, ho, hmem⟩ := ih p hp h (some a)
      exact ⟨o, mem_entries_node.mpr (.inr ⟨p, hp, ho⟩), hmem⟩

/-- The composite is none of the objects deleted with its part. -/
theorem composite_notMem {t s : Tree} {q : ℕ} (hs : (q, s) ∈ t.subs) (hn : t.postorder.Nodup) :
    q ∉ s.postorder := by
  induction t using induct with
  | node a owned parts ih =>
    obtain ⟨p, hp, h | h⟩ := mem_subs_node.mp hs
    · obtain ⟨rfl, rfl⟩ := Prod.mk.inj h
      intro hq
      rw [postorder, List.nodup_append, postorderAll_eq] at hn
      exact hn.2.2 q (List.mem_flatMap.mpr ⟨s, hp, hq⟩) q (List.mem_singleton_self q) rfl
    · exact ih p hp h (hn.sublist (postorder_sublist hp))

/-- An address outside the group is in the group of a part without owner. -/
theorem exists_sub {t : Tree} {m : ℕ} (hm : m ∈ t.postorder) (hg : m ∉ t.group) :
    ∃ q s, (q, s) ∈ t.subs ∧ s.owned = false ∧ m ∈ s.group := by
  induction t using induct with
  | node a owned parts ih =>
    rcases mem_postorder_node.mp hm with ⟨p, hp, hmp⟩ | rfl
    · by_cases hgp : m ∈ p.group
      · cases ho : p.owned with
        | true => exact absurd (mem_group_node.mpr (.inr ⟨p, hp, ho, hgp⟩)) hg
        | false => exact ⟨a, p, mem_subs_node.mpr ⟨p, hp, .inl rfl⟩, ho, hgp⟩
      · obtain ⟨q, s, hs, h⟩ := ih p hp hmp hgp
        exact ⟨q, s, mem_subs_node.mpr ⟨p, hp, .inr hs⟩, h⟩
    · exact absurd (mem_group_node.mpr (.inl rfl)) hg

end Tree

namespace Heap

variable {h h' : Heap} {n k : ℕ}

/-- `h` after the objects of `l` are removed. -/
def removeAll (h : Heap) (l : List ℕ) : Heap := l.foldl remove h

theorem removeAll_objects (l : List ℕ) (h : Heap) (b : ℕ) :
    (h.removeAll l).objects b = if b ∈ l then none else h.objects b := by
  induction l generalizing h with
  | nil => rfl
  | cons a l ih =>
    rw [removeAll, List.foldl_cons, ← removeAll, ih, remove]
    by_cases hb : b = a <;> simp [hb]

theorem mem_removeAll (l : List ℕ) (h : Heap) {b : ℕ} :
    b ∈ (h.removeAll l).registered ↔ b ∈ h.registered ∧ b ∉ l := by
  induction l generalizing h with
  | nil => simp [removeAll]
  | cons a l ih =>
    rw [removeAll, List.foldl_cons, ← removeAll, ih, remove]
    simp only [Finset.mem_erase, List.mem_cons, not_or]
    tauto

theorem removeAll_deleted (l : List ℕ) (h : Heap) :
    (h.removeAll l).deleted = h.deleted ++ l := by
  induction l generalizing h with
  | nil => simp [removeAll]
  | cons a l ih =>
    rw [removeAll, List.foldl_cons, ← removeAll, ih, remove]
    simp

/-! ## One deletion -/

theorem delete_of_some {a : ℕ} (hd : h.delete (n + 1) a = some h') :
    ∃ o h₁, h.objects a = some o ∧ o.parts.foldlM (delete n) h = some h₁ ∧ h' = h₁.remove a := by
  rw [delete] at hd
  cases ho : h.objects a with
  | none => rw [ho] at hd; nomatch hd
  | some o =>
    simp only [ho] at hd
    obtain ⟨h₁, h₁_eq, rfl⟩ := Option.map_eq_some_iff.mp hd
    exact ⟨o, h₁, rfl, h₁_eq, rfl⟩

theorem delete_of_objects {a : ℕ} {o : Object} (ho : h.objects a = some o) :
    h.delete (n + 1) a = (o.parts.foldlM (delete n) h).map fun h => h.remove a := by
  rw [delete, ho]

theorem foldlM_mono {f g : Heap → ℕ → Option Heap}
    (hfg : ∀ h a h', f h a = some h' → g h a = some h') {l : List ℕ}
    (hl : l.foldlM f h = some h') : l.foldlM g h = some h' := by
  induction l generalizing h with
  | nil => exact hl
  | cons a l ih =>
    rw [List.foldlM_cons] at hl ⊢
    obtain ⟨h₁, h₁_eq, hl⟩ := Option.bind_eq_some_iff.mp hl
    exact Option.bind_eq_some_iff.mpr ⟨h₁, hfg _ _ _ h₁_eq, ih hl⟩

/-- More fuel does not change the result. -/
theorem delete_mono {a m : ℕ} (hnm : n ≤ m) (hd : h.delete n a = some h') :
    h.delete m a = some h' := by
  induction n generalizing m h a h' with
  | zero => nomatch hd
  | succ n ih =>
    obtain ⟨o, h₁, ho, hl, rfl⟩ := delete_of_some hd
    obtain ⟨m, rfl⟩ := Nat.exists_eq_add_of_le' hnm
    rw [← Nat.add_assoc, delete_of_objects ho,
      foldlM_mono (fun _ _ _ => ih (by omega)) hl, Option.map_some]

theorem climb_of_owner {a b : ℕ} {o : Object} (ho : h.objects a = some o)
    (hb : o.owner = some b) : h.climb (n + 1) a = h.climb n b := by
  simp only [climb, ho, hb]

theorem climb_of_top {a : ℕ} {o : Object} (ho : h.objects a = some o) (hb : o.owner = none) :
    h.climb (n + 1) a = some a := by
  simp only [climb, ho, hb]

theorem climb_mono {a b m : ℕ} (hnm : n ≤ m) (hc : h.climb n a = some b) :
    h.climb m a = some b := by
  induction n generalizing m a with
  | zero => nomatch hc
  | succ n ih =>
    obtain ⟨m, rfl⟩ := Nat.exists_eq_add_of_le' hnm
    rw [climb] at hc
    rw [← Nat.add_assoc, climb]
    cases ho : h.objects a with
    | none => rw [ho] at hc; nomatch hc
    | some o =>
      rw [ho] at hc
      cases hb : o.owner with
      | none => simpa only [hb] using hc
      | some b => simpa only [hb] using ih (Nat.le_add_left n m) (by simpa only [hb] using hc)

/-! ## A tree that is alive -/

/-- The objects of the tree are in the heap as its constructors made them. -/
def Alive (h : Heap) (parent : Option ℕ) (t : Tree) : Prop :=
  ∀ e ∈ t.entries parent, h.objects e.1 = some e.2

theorem Alive.part {a : ℕ} {owned : Bool} {parts : List Tree} {parent : Option ℕ}
    (ha : h.Alive parent (.node a owned parts)) {p : Tree} (hp : p ∈ parts) :
    h.Alive (some a) p := fun e he => ha e (Tree.mem_entries_node.mpr (.inr ⟨p, hp, he⟩))

theorem Alive.sub {parent : Option ℕ} {t s : Tree} {q : ℕ} (ha : h.Alive parent t)
    (hs : (q, s) ∈ t.subs) : h.Alive (some q) s :=
  fun e he => ha e (Tree.subs_entries hs he)

theorem Alive.removeAll {parent : Option ℕ} {t : Tree} (ha : h.Alive parent t) {l : List ℕ}
    (hl : ∀ b ∈ t.postorder, b ∉ l) : (h.removeAll l).Alive parent t := by
  intro e he
  rw [removeAll_objects, if_neg (hl _ (Tree.mem_postorder_of_entries he)), ha e he]

theorem Alive.objects_addr {parent : Option ℕ} {t : Tree} (ha : h.Alive parent t) :
    h.objects t.addr = some ⟨if t.owned then parent else none, t.parts.map Tree.addr⟩ :=
  ha _ (t.top_mem_entries parent)

/-- One deletion takes the parts in the order of the destructors, and the object last. -/
theorem delete_tree {t : Tree} {parent : Option ℕ} (ha : h.Alive parent t)
    (hn : t.postorder.Nodup) (hk : t.depth ≤ k) :
    h.delete k t.addr = some (h.removeAll t.postorder) := by
  induction t using Tree.induct generalizing k h parent with
  | node a owned parts ih =>
    obtain ⟨k, rfl⟩ := Nat.exists_eq_succ_of_ne_zero
      (Nat.ne_of_gt ((Tree.depth_pos _).trans_le hk))
    have hparts : ∀ ts : List Tree, (∀ p ∈ ts, p ∈ parts) → ∀ h : Heap,
        (∀ p ∈ ts, h.Alive (some a) p) → (Tree.postorderAll ts).Nodup →
          (ts.map Tree.addr).foldlM (delete k) h = some (h.removeAll (Tree.postorderAll ts)) := by
      intro ts
      induction ts with
      | nil => exact fun _ _ _ _ => rfl
      | cons p ts ihts =>
        intro hsub h hal hnd
        obtain ⟨hp, hts, hdis⟩ := List.nodup_append.mp hnd
        have hdepth : p.depth ≤ k :=
          Nat.le_of_lt_succ ((Tree.depth_part (hsub p List.mem_cons_self)).trans_le hk)
        rw [List.map_cons, List.foldlM_cons,
          ih p (hsub p List.mem_cons_self) (hal p List.mem_cons_self) hp hdepth]
        refine (ihts (fun u hu => hsub u (List.mem_cons_of_mem _ hu)) _ (fun u hu => ?_) hts).trans
          (by rw [Tree.postorderAll, removeAll, removeAll, removeAll, List.foldl_append])
        refine (hal u (List.mem_cons_of_mem _ hu)).removeAll fun b hb hbp => hdis b hbp b ?_ rfl
        rw [Tree.postorderAll_eq]
        exact List.mem_flatMap.mpr ⟨u, hu, hb⟩
    have hnodup : (Tree.postorderAll parts).Nodup := (List.nodup_append.mp hn).1
    rw [delete_of_objects ha.objects_addr, Tree.parts,
      hparts parts (fun _ hp => hp) h (fun _ hp => ha.part hp) hnodup, Option.map_some]
    rw [Tree.postorder, removeAll, removeAll, List.foldl_append]
    rfl

/-- From the group of a tree the loop comes to its top. -/
theorem climb_group {t : Tree} {parent : Option ℕ} {m : ℕ} (ha : h.Alive parent t)
    (hm : m ∈ t.group) : ∃ j < t.depth, ∀ k, h.climb (k + j) m = h.climb k t.addr := by
  induction t using Tree.induct generalizing parent with
  | node a owned parts ih =>
    rcases Tree.mem_group_node.mp hm with rfl | ⟨p, hp, ho, hm⟩
    · exact ⟨0, Tree.depth_pos _, fun _ => rfl⟩
    · obtain ⟨j, hj, hclimb⟩ := ih p hp (ha.part hp) hm
      refine ⟨j + 1, (Nat.succ_le_of_lt hj).trans_lt (Tree.depth_part hp), fun k => ?_⟩
      calc h.climb (k + (j + 1)) m = h.climb (k + 1 + j) m := by
            rw [Nat.add_right_comm, Nat.add_assoc]
        _ = h.climb (k + 1) p.addr := hclimb (k + 1)
        _ = h.climb k a := climb_of_owner (ha.part hp).objects_addr (if_pos ho)

theorem climb_top {t : Tree} {parent : Option ℕ} {m : ℕ} (ha : h.Alive parent t)
    (hm : m ∈ t.group) (ho : parent = none ∨ t.owned = false) (hk : t.depth ≤ k) :
    h.climb k m = some t.addr := by
  obtain ⟨j, hj, hclimb⟩ := climb_group ha hm
  obtain ⟨i, rfl⟩ := Nat.exists_eq_add_of_le' (Nat.succ_le_of_lt (hj.trans_le hk))
  rw [Nat.add_succ, ← Nat.succ_add, hclimb]
  refine climb_of_top ha.objects_addr ?_
  rcases ho with rfl | ho
  · exact ite_self none
  · rw [ho]; rfl

/-! ## The whole loop -/

theorem cleanup_empty (hr : h.registered = ∅) : h.cleanup k n = some h := by
  cases n with
  | zero => rw [cleanup, if_pos hr]
  | succ n => rw [cleanup, hr, Finset.min_empty]

theorem cleanup_succ {m : ℕ} (hm : h.registered.min = WithTop.some m) :
    h.cleanup k (n + 1) =
      (h.climb k m).bind fun root => (h.delete k root).bind fun h => h.cleanup k n := by
  rw [cleanup, hm]
  rfl

theorem cleanup_of_some (hc : h.cleanup k n = some h') (hr : h.registered ≠ ∅) :
    ∃ n' root h₁, ∃ m : ℕ, n = n' + 1 ∧ h.registered.min = WithTop.some m ∧
      h.climb k m = some root ∧ h.delete k root = some h₁ ∧ h₁.cleanup k n' = some h' := by
  cases n with
  | zero => rw [cleanup, if_neg hr] at hc; nomatch hc
  | succ n =>
    obtain ⟨m, hm⟩ := Finset.min_of_nonempty (Finset.nonempty_iff_ne_empty.mpr hr)
    rw [cleanup_succ hm] at hc
    obtain ⟨root, hroot, hc⟩ := Option.bind_eq_some_iff.mp hc
    obtain ⟨h₁, h₁_eq, hc⟩ := Option.bind_eq_some_iff.mp hc
    exact ⟨n, root, h₁, m, rfl, hm, hroot, h₁_eq, hc⟩

/-- `q` is registered, and its destructor will delete `p`, which was deleted before. -/
structure Doomed (h : Heap) (q p : ℕ) : Prop where
  registered : q ∈ h.registered
  part : ∃ o, h.objects q = some o ∧ p ∈ o.parts
  dead : h.objects p = none

theorem delete_of_dead {p : ℕ} (hp : h.objects p = none) : h.delete n p = none := by
  cases n with
  | zero => rfl
  | succ n => rw [delete, hp]

theorem Doomed.remove {q p a : ℕ} (hd : h.Doomed q p) (ha : a ≠ q) : (h.remove a).Doomed q p where
  registered := Finset.mem_erase_of_ne_of_mem ha.symm hd.registered
  part := by
    obtain ⟨o, ho, hp⟩ := hd.part
    exact ⟨o, (Function.update_of_ne ha.symm _ _).trans ho, hp⟩
  dead := by
    by_cases hpa : p = a
    · rw [hpa]
      exact Function.update_self a (none : Option Object) h.objects
    · exact (Function.update_of_ne hpa _ _).trans hd.dead

/-- A deletion that succeeds has not met the dead part, and leaves it dead. -/
theorem Doomed.delete {q p a : ℕ} (hd : h.Doomed q p) (hdel : h.delete n a = some h') :
    h'.Doomed q p := by
  induction n generalizing h h' a with
  | zero => nomatch hdel
  | succ n ih =>
    obtain ⟨o, h₁, ho, hl, rfl⟩ := delete_of_some hdel
    have hfold : ∀ l : List ℕ, ∀ h : Heap, h.Doomed q p → l.foldlM (Heap.delete n) h = some h₁ →
        h₁.Doomed q p ∧ p ∉ l := by
      intro l
      induction l with
      | nil =>
        rintro h hd hl
        obtain rfl := Option.some.inj hl
        exact ⟨hd, List.not_mem_nil⟩
      | cons b l ihl =>
        intro h hd hl
        rw [List.foldlM_cons] at hl
        obtain ⟨h₂, hb, hl⟩ := Option.bind_eq_some_iff.mp hl
        obtain ⟨hd₁, hpl⟩ := ihl h₂ (ih hd hb) hl
        refine ⟨hd₁, fun hp => ?_⟩
        rcases List.mem_cons.mp hp with rfl | hp
        · rw [delete_of_dead hd.dead] at hb
          nomatch hb
        · exact hpl hp
    obtain ⟨hd₁, hp⟩ := hfold o.parts h hd hl
    refine hd₁.remove fun haq => ?_
    obtain ⟨o', ho', hp'⟩ := hd.part
    rw [haq, ho'] at ho
    exact hp (Option.some.inj ho ▸ hp')

/-- The loop does not come to an end without deleting the dead part again. -/
theorem cleanup_doomed {q p : ℕ} (hd : h.Doomed q p) : h.cleanup k n = none := by
  refine Option.eq_none_iff_forall_ne_some.mpr fun h' hc => ?_
  induction n generalizing h with
  | zero =>
    obtain ⟨n', _, _, _, hn, _⟩ := cleanup_of_some hc (Finset.ne_empty_of_mem hd.registered)
    nomatch hn
  | succ n ih =>
    obtain ⟨n', _, h₁, _, hn, _, _, hdel, hc⟩ :=
      cleanup_of_some hc (Finset.ne_empty_of_mem hd.registered)
    obtain rfl := Nat.succ.inj hn
    exact ih (hd.delete hdel) hc

/-! ## Forests -/

/-- What is left to delete is the forest `F`. -/
structure Holds (h : Heap) (F : List Tree) : Prop where
  alive : ∀ t ∈ F, h.Alive none t
  registered : ∀ a, a ∈ h.registered ↔ a ∈ Tree.postorderAll F
  nodup : (Tree.postorderAll F).Nodup

/-- Before the first object. -/
def empty : Heap := ⟨fun _ => none, ∅, []⟩

theorem holds_empty : empty.Holds [] where
  alive _ ht := nomatch ht
  registered a := iff_of_false (Finset.notMem_empty a) List.not_mem_nil
  nodup := List.nodup_nil

/-- A tree is made at free addresses. -/
theorem Holds.concat {F : List Tree} {t : Tree} (hh : h.Holds F) (ht : h'.Alive none t)
    (hframe : ∀ a ∉ t.postorder, h'.objects a = h.objects a)
    (hreg : ∀ a, a ∈ h'.registered ↔ a ∈ h.registered ∨ a ∈ t.postorder)
    (hfree : ∀ a ∈ t.postorder, a ∉ Tree.postorderAll F) (hn : t.postorder.Nodup) :
    h'.Holds (F ++ [t]) := by
  have hpost : Tree.postorderAll (F ++ [t]) = Tree.postorderAll F ++ t.postorder := by
    simp [Tree.postorderAll_eq]
  refine ⟨fun u hu => ?_, fun a => ?_, ?_⟩
  · rcases List.mem_append.mp hu with hu | hu
    · intro e he
      have hmem : e.1 ∈ Tree.postorderAll F := by
        rw [Tree.postorderAll_eq]
        exact List.mem_flatMap.mpr ⟨u, hu, Tree.mem_postorder_of_entries he⟩
      rw [hframe _ fun ha => hfree _ ha hmem]
      exact hh.alive u hu e he
    · rwa [List.mem_singleton.mp hu]
  · rw [hpost, List.mem_append, hreg, hh.registered]
  · rw [hpost]
    exact List.nodup_append.mpr ⟨hh.nodup, hn, fun a ha b hb hab => hfree b hb (hab ▸ ha)⟩

variable {l₁ l₂ : List Tree} {t : Tree}

theorem mem_postorderAll_insert {a : ℕ} :
    a ∈ Tree.postorderAll (l₁ ++ t :: l₂) ↔
      a ∈ t.postorder ∨ a ∈ Tree.postorderAll (l₁ ++ l₂) := by
  simp only [Tree.postorderAll_eq, List.flatMap_append, List.flatMap_cons, List.mem_append]
  tauto

theorem postorderAll_insert :
    (Tree.postorderAll (l₁ ++ t :: l₂)).Perm (t.postorder ++ Tree.postorderAll (l₁ ++ l₂)) := by
  simp only [Tree.postorderAll_eq, List.flatMap_append, List.flatMap_cons, ← List.append_assoc]
  exact List.perm_append_comm.append_right _

/-- The tree goes as a whole. -/
theorem Holds.removeAll (hh : h.Holds (l₁ ++ t :: l₂)) :
    (h.removeAll t.postorder).Holds (l₁ ++ l₂) := by
  obtain ⟨-, hnd, hdis⟩ := List.nodup_append.mp (postorderAll_insert.nodup_iff.mp hh.nodup)
  refine ⟨fun u hu => ?_, fun a => ?_, hnd⟩
  · refine (hh.alive u ?_).removeAll fun b hb hbt => hdis b hbt b ?_ rfl
    · rcases List.mem_append.mp hu with hu | hu
      · exact List.mem_append_left _ hu
      · exact List.mem_append_right _ (List.mem_cons_of_mem _ hu)
    · rw [Tree.postorderAll_eq]
      exact List.mem_flatMap.mpr ⟨u, hu, hb⟩
  · rw [mem_removeAll, hh.registered, mem_postorderAll_insert]
    constructor
    · rintro ⟨h | h, ha⟩
      · exact absurd h ha
      · exact h
    · exact fun h => ⟨.inr h, fun ha => hdis a ha a h rfl⟩

theorem Holds.ne_empty {F : List Tree} (hh : h.Holds F) (ht : t ∈ F) : h.registered ≠ ∅ := by
  refine Finset.ne_empty_of_mem ((hh.registered t.addr).mpr ?_)
  rw [Tree.postorderAll_eq]
  exact List.mem_flatMap.mpr ⟨t, ht, t.addr_mem_postorder⟩

theorem Holds.nodup_tree (hh : h.Holds (l₁ ++ t :: l₂)) : t.postorder.Nodup :=
  (List.nodup_append.mp (postorderAll_insert.nodup_iff.mp hh.nodup)).1

theorem Holds.alive_tree (hh : h.Holds (l₁ ++ t :: l₂)) : h.Alive none t :=
  hh.alive t (List.mem_append_right _ List.mem_cons_self)

/-- The smallest address is in one of the trees, and the smallest one of this tree. -/
theorem Holds.split {F : List Tree} (hh : h.Holds F) {m : ℕ}
    (hm : h.registered.min = WithTop.some m) :
    ∃ l₁ t l₂, F = l₁ ++ t :: l₂ ∧ m ∈ t.postorder ∧ ∀ b ∈ t.postorder, m ≤ b := by
  have hmem := (hh.registered m).mp (Finset.mem_of_min hm)
  rw [Tree.postorderAll_eq] at hmem
  obtain ⟨t, ht, hmt⟩ := List.mem_flatMap.mp hmem
  obtain ⟨l₁, l₂, rfl⟩ := List.append_of_mem ht
  refine ⟨l₁, t, l₂, rfl, hmt, fun b hb => ?_⟩
  exact Finset.min_le_of_eq ((hh.registered b).mpr (mem_postorderAll_insert.mpr (.inl hb))) hm

/-- The tree whose top the loop has come to is deleted as a whole, if anything is. -/
theorem removeAll_of_delete {parent : Option ℕ} {m root : ℕ} (ha : h.Alive parent t)
    (hn : t.postorder.Nodup) (hm : m ∈ t.group) (ho : parent = none ∨ t.owned = false)
    (hc : h.climb k m = some root) (hd : h.delete k root = some h') :
    h' = h.removeAll t.postorder := by
  have hk := le_max_left k t.depth
  have ht := le_max_right k t.depth
  obtain rfl : root = t.addr :=
    Option.some.inj ((climb_mono hk hc).symm.trans (climb_top ha hm ho ht))
  exact Option.some.inj ((delete_mono hk hd).symm.trans (delete_tree ha hn ht))

/-- With a part without owner gone, its composite is doomed. -/
theorem Holds.doomed (hh : h.Holds (l₁ ++ t :: l₂)) {q : ℕ} {s : Tree} (hs : (q, s) ∈ t.subs) :
    (h.removeAll s.postorder).Doomed q s.addr := by
  obtain ⟨o, ho, hp⟩ := Tree.subs_composite hs none
  have hq := Tree.composite_notMem hs hh.nodup_tree
  refine ⟨?_, ⟨o, ?_, hp⟩, ?_⟩
  · rw [mem_removeAll, hh.registered, mem_postorderAll_insert]
    exact ⟨.inl (Tree.mem_postorder_of_entries ho), hq⟩
  · rw [removeAll_objects, if_neg hq, hh.alive_tree _ ho]
  · rw [removeAll_objects, if_pos s.addr_mem_postorder]

/-- If the top comes first in every tree, the loop deletes one tree after the other. -/
theorem cleanup_of_topFirst {F : List Tree} (hh : h.Holds F) (hF : ∀ t ∈ F, t.TopFirst)
    (hk : ∀ t ∈ F, t.depth ≤ k) :
    ∃ h' l, h.cleanup k F.length = some h' ∧ h'.registered = ∅ ∧ h'.deleted = h.deleted ++ l ∧
      l.Perm (Tree.postorderAll F) := by
  induction hn : F.length generalizing F h with
  | zero =>
    obtain rfl := List.length_eq_zero_iff.mp hn
    have hr : h.registered = ∅ :=
      Finset.eq_empty_of_forall_notMem fun a ha => nomatch (hh.registered a).mp ha
    exact ⟨h, [], cleanup_empty hr, hr, (List.append_nil _).symm, .refl _⟩
  | succ n ih =>
    obtain ⟨u, hu⟩ := List.exists_mem_of_length_pos (by omega : 0 < F.length)
    obtain ⟨m, hm⟩ := Finset.min_of_nonempty (Finset.nonempty_iff_ne_empty.mpr (hh.ne_empty hu))
    obtain ⟨l₁, t, l₂, rfl, hmt, hle⟩ := hh.split hm
    have ht : t ∈ l₁ ++ t :: l₂ := List.mem_append_right _ List.mem_cons_self
    have hsub : ∀ u ∈ l₁ ++ l₂, u ∈ l₁ ++ t :: l₂ := fun u hu =>
      ((List.sublist_cons_self t l₂).append_left l₁).subset hu
    have hlen : (l₁ ++ l₂).length = n := by
      simp only [List.length_append, List.length_cons] at hn ⊢
      omega
    have hclimb := climb_top hh.alive_tree ((Tree.topFirst_iff hmt hle).mp (hF t ht)) (.inl rfl)
      (hk t ht)
    obtain ⟨h', l, hc, hr, hd, hl⟩ := ih hh.removeAll (fun u hu => hF u (hsub u hu))
      (fun u hu => hk u (hsub u hu)) hlen
    refine ⟨h', t.postorder ++ l, ?_, hr, ?_, (hl.append_left _).trans postorderAll_insert.symm⟩
    · rw [cleanup_succ hm, hclimb, Option.bind_some,
        delete_tree hh.alive_tree hh.nodup_tree (hk t ht), Option.bind_some, hc]
    · rw [hd, removeAll_deleted, List.append_assoc]

/-- Otherwise the loop comes to a doomed object. -/
theorem cleanup_of_not_topFirst {F : List Tree} (hh : h.Holds F) (hF : ¬∀ t ∈ F, t.TopFirst) :
    h.cleanup k n = none := by
  refine Option.eq_none_iff_forall_ne_some.mpr fun h' hc => ?_
  induction n generalizing F h with
  | zero =>
    obtain ⟨u, hu⟩ := not_forall.mp hF
    obtain ⟨_, _, _, _, hn, _⟩ := cleanup_of_some hc (hh.ne_empty (Classical.not_imp.mp hu).1)
    nomatch hn
  | succ n ih =>
    obtain ⟨u, hu⟩ := not_forall.mp hF
    obtain ⟨hu, hbad⟩ := Classical.not_imp.mp hu
    obtain ⟨_, root, h₁, m, hn, hm, hclimb, hdel, hc⟩ := cleanup_of_some hc (hh.ne_empty hu)
    obtain rfl := Nat.succ.inj hn
    obtain ⟨l₁, t, l₂, rfl, hmt, hle⟩ := hh.split hm
    by_cases hg : m ∈ t.group
    · -- a good tree goes first, and `u` is not the one
      obtain rfl := removeAll_of_delete hh.alive_tree hh.nodup_tree hg (.inl rfl) hclimb hdel
      refine ih hh.removeAll (fun hall => hbad (hall u ?_)) hc
      rcases List.mem_append.mp hu with hu | hu
      · exact List.mem_append_left _ hu
      · rcases List.mem_cons.mp hu with rfl | hu
        · exact absurd ((Tree.topFirst_iff hmt hle).mpr hg) hbad
        · exact List.mem_append_right _ hu
    · obtain ⟨q, s, hs, ho, hms⟩ := Tree.exists_sub hmt hg
      obtain rfl := removeAll_of_delete (hh.alive_tree.sub hs)
        (hh.nodup_tree.sublist (Tree.subs_postorder hs)) hms (.inr ho) hclimb hdel
      rw [cleanup_doomed (hh.doomed hs)] at hc
      nomatch hc

theorem Holds.perm_registered {F : List Tree} (hh : h.Holds F) :
    (Tree.postorderAll F).Perm h.registered.toList :=
  (List.perm_ext_iff_of_nodup hh.nodup h.registered.nodup_toList).mpr fun a => by
    rw [Finset.mem_toList, hh.registered]

/-- The loop ends and has deleted every object once, if and only if in every tree the smallest
address belongs to the top or to an object from where the top is reached. -/
theorem Holds.cleanup_iff {F : List Tree} (hh : h.Holds F) (hd : h.deleted = []) :
    (∃ k n h', h.cleanup k n = some h' ∧ h'.registered = ∅ ∧
      h'.deleted.Perm h.registered.toList) ↔ ∀ t ∈ F, t.TopFirst := by
  constructor
  · rintro ⟨k, n, h', hc, -⟩
    by_contra hF
    rw [cleanup_of_not_topFirst hh hF] at hc
    nomatch hc
  · intro hF
    obtain ⟨h', l, hc, hr, hl_eq, hl⟩ := cleanup_of_topFirst hh hF
      (fun t ht => Tree.depth_le_depthAll ht)
    refine ⟨Tree.depthAll F, F.length, h', hc, hr, ?_⟩
    rw [hl_eq, hd]
    exact hl.trans hh.perm_registered

end Heap

end Teardown
