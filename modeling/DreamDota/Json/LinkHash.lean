import DreamDota.Lib.Links
import DreamDota.Lib.Probe
import Mathlib.Data.Fintype.Card

/-!
# The hash table of the JSON library

`linkhash.c`: an open table with linear probing whose entries are also chained in the order in which
they were inserted. A freed slot is not an empty one: a lookup goes on behind it.

The slots of a table of size `m` are the numbers below `m`, and a pointer to an entry is such a
number. `none` is a call that does not return: a loop without end, or a null pointer that is
followed.

1. `LhCells`: what the operations do to the slots and the chain of a table that keeps its size.
2. `LhTable`: the table with its size, the probing loops and the resizing.
3. The chain is a doubly linked list, `Links`: taking an entry out of it and putting one in at its
   end are the operations of such lists. `deleteEntry_eq` and `insertEntry_eq` say what a deletion
   and an insertion change.
-/

namespace DreamDota

/-- The key of a slot: `LH_EMPTY`, `LH_FREED` or a key. -/
inductive LhKey (K : Type) where
  | empty
  | freed
  | key (k : K)
  deriving DecidableEq, Repr

/-- `struct lh_entry` -/
structure LhEntry (K V : Type) (m : ℕ) where
  k : LhKey K
  v : Option V
  next : Option (Fin m)
  prev : Option (Fin m)

/-- `struct lh_table` without its size. `freed` is the history of `free_fn`. -/
structure LhCells (K V : Type) (m : ℕ) where
  count : ℕ
  head : Option (Fin m)
  tail : Option (Fin m)
  table : Fin m → LhEntry K V m
  freed : List (K × Option V)

/-- `struct lh_table` -/
structure LhTable (K V : Type) where
  size : ℕ
  pos : 0 < size
  cells : LhCells K V size

/-! ## The slots and the chain -/

namespace LhCells

variable {K V : Type} {m : ℕ}

def modify (t : LhCells K V m) (n : Fin m) (f : LhEntry K V m → LhEntry K V m) : LhCells K V m :=
  { t with table := Function.update t.table n (f (t.table n)) }

def setNext (t : LhCells K V m) (n : Fin m) (next : Option (Fin m)) : LhCells K V m :=
  t.modify n fun e => { e with next }

def setPrev (t : LhCells K V m) (n : Fin m) (prev : Option (Fin m)) : LhCells K V m :=
  t.modify n fun e => { e with prev }

def setHead (t : LhCells K V m) (head : Option (Fin m)) : LhCells K V m := { t with head }

def setTail (t : LhCells K V m) (tail : Option (Fin m)) : LhCells K V m := { t with tail }

/-- A key and a value are written into a slot, and the entry is counted. -/
def write (t : LhCells K V m) (n : Fin m) (k : K) (v : Option V) : LhCells K V m :=
  { t.modify n fun e => { e with k := .key k, v } with count := t.count + 1 }

/-- The end of `lh_table_insert`: the entry is chained behind the tail. -/
def append (t : LhCells K V m) (n : Fin m) : Option (LhCells K V m) :=
  match t.head with
  | none => some ((((t.setTail (some n)).setHead (some n)).setPrev n none).setNext n none)
  | some _ => do
    let tail ← t.tail
    return (((t.setNext tail (some n)).setPrev n (some tail)).setNext n none).setTail (some n)

/-- The end of `lh_table_delete_entry`: the entry is taken out of the chain. -/
def unchain (t : LhCells K V m) (n : Fin m) : Option (LhCells K V m) := do
  let t ←
    if t.tail = some n ∧ t.head = some n then
      some ((t.setTail none).setHead none)
    else if t.head = some n then do
      let next ← (t.table n).next
      pure ((t.setPrev next none).setHead (some next))
    else if t.tail = some n then do
      let prev ← (t.table n).prev
      pure ((t.setNext prev none).setTail (some prev))
    else do
      let prev ← (t.table n).prev
      let next ← (t.table n).next
      pure ((t.setNext prev (some next)).setPrev next (some prev))
  return (t.setPrev n none).setNext n none

/-- The key and the value of a slot that is in use. -/
def entry (t : LhCells K V m) (n : Fin m) : Option (K × Option V) :=
  match (t.table n).k with
  | .key k => some (k, (t.table n).v)
  | _ => none

/-- `lh_table_delete_entry` -/
def deleteEntry (t : LhCells K V m) (n : Fin m) : Option (LhCells K V m) :=
  match t.entry n with
  | none => some t
  | some e =>
    let t := { t with count := t.count - 1, freed := t.freed ++ [e] }
    (t.modify n fun e => { e with v := none, k := .freed }).unchain n

/-- The pointers of the chain. The null pointer closes it to a ring. -/
def links (t : LhCells K V m) : Links (Option (Fin m)) where
  next c := c.elim t.head fun n => (t.table n).next
  prev c := c.elim t.tail fun n => (t.table n).prev

/-- `lh_foreach` -/
def foreach (t : LhCells K V m) : Option (List (K × Option V)) :=
  (t.links.walk none (m + 1) t.head).map fun l => l.filterMap fun c => c.bind t.entry

end LhCells

/-! ## The table -/

namespace LhTable

variable {K V : Type} [DecidableEq K] (hash : K → ℕ)

/-- `lh_table_new` -/
def new (K V : Type) (size : ℕ) (pos : 0 < size) : LhTable K V where
  size
  pos
  cells := ⟨0, none, none, fun _ => ⟨.empty, none, none, none⟩, []⟩

/-- `h % t->size` -/
def slot (t : LhTable K V) (k : K) : Fin t.size := ⟨hash k % t.size, Nat.mod_lt _ t.pos⟩

/-- The slots that stop the loop of `lh_table_insert`. -/
def isFree (t : LhTable K V) (n : Fin t.size) : Bool :=
  match (t.cells.table n).k with
  | .key _ => false
  | _ => true

/-- The slots that stop the loop of `lh_table_lookup_entry`. -/
def isAnswer (t : LhTable K V) (k : K) (n : Fin t.size) : Bool :=
  match (t.cells.table n).k with
  | .empty => true
  | .freed => false
  | .key k' => k' = k

/-- `lh_table_insert` behind the test of the load. -/
def place (t : LhTable K V) (k : K) (v : Option V) : Option (LhTable K V) := do
  let n ← Probe.search t.isFree t.size (t.slot hash k)
  let c ← (t.cells.write n k v).append n
  return { t with cells := c }

/-- `lh_table_resize`. The caller keeps its count, and takes the size it asked for. -/
def resize (insert : LhTable K V → K → Option V → Option (LhTable K V)) (t : LhTable K V)
    (newSize : ℕ) : Option (LhTable K V) := do
  if pos : 0 < newSize then
    let entries ← t.cells.foreach
    let newT ← entries.foldlM (fun s e => insert s e.1 e.2) (new K V newSize pos)
    -- Had the new table been resized as well, its slots would not fit the size.
    if newT.size = newSize then
      return { newT with cells := { newT.cells with count := t.cells.count, freed := t.cells.freed } }
    else none
  else none

/-- `lh_table_insert` and `lh_table_resize` call each other, here to a depth of `d`. -/
def insertDepth : ℕ → LhTable K V → K → Option V → Option (LhTable K V)
  | 0, _, _, _ => none
  | d + 1, t, k, v => do
    -- `t->count > t->size * 0.66`
    let t ← if 66 * t.size < 100 * t.cells.count then resize (insertDepth d) t (t.size * 2)
      else some t
    t.place hash k v

/-- `lh_table_insert` -/
def insert : LhTable K V → K → Option V → Option (LhTable K V) := insertDepth hash 2

/-- `lh_table_lookup_entry`. The inner `none` is the null pointer. -/
def lookupEntry (t : LhTable K V) (k : K) : Option (Option (Fin t.size)) :=
  (Probe.search (t.isAnswer k) t.size (t.slot hash k)).map fun n =>
    match (t.cells.table n).k with
    | .empty => none
    | _ => some n

/-- `lh_table_lookup` -/
def lookup (t : LhTable K V) (k : K) : Option (Option V) :=
  (t.lookupEntry hash k).map fun e => e.bind fun n => (t.cells.table n).v

/-- `lh_table_delete` -/
def delete (t : LhTable K V) (k : K) : Option (LhTable K V) := do
  match ← t.lookupEntry hash k with
  | none => return t
  | some n =>
    let c ← t.cells.deleteEntry n
    return { t with cells := c }

/-- `lh_table_free`: the history of `free_fn` at its end. -/
def free (t : LhTable K V) : Option (List (K × Option V)) :=
  t.cells.foreach.map (t.cells.freed ++ ·)

end LhTable

/-! ## The chain is a doubly linked list -/

namespace LhCells

variable {K V : Type} {m : ℕ} {t t' : LhCells K V m} {n n' : Fin m} {l l₁ l₂ : List (Fin m)}

@[simp] theorem table_modify (t : LhCells K V m) (n : Fin m)
    (f : LhEntry K V m → LhEntry K V m) :
    (t.modify n f).table = Function.update t.table n (f (t.table n)) := rfl

/-! ### Writing a pointer -/

theorem next_links (t : LhCells K V m) (c : Option (Fin m)) :
    t.links.next c = c.elim t.head fun n => (t.table n).next := rfl

theorem prev_links (t : LhCells K V m) (c : Option (Fin m)) :
    t.links.prev c = c.elim t.tail fun n => (t.table n).prev := rfl

theorem links_setNext (t : LhCells K V m) (n : Fin m) (c : Option (Fin m)) :
    (t.setNext n c).links = ⟨Function.update t.links.next (some n) c, t.links.prev⟩ := by
  ext i j
  all_goals
    cases i with
    | none => rfl
    | some i =>
      by_cases hi : i = n
      · subst hi
        simp [links, setNext]
      · simp [links, setNext, hi]

theorem links_setPrev (t : LhCells K V m) (n : Fin m) (c : Option (Fin m)) :
    (t.setPrev n c).links = ⟨t.links.next, Function.update t.links.prev (some n) c⟩ := by
  ext i j
  all_goals
    cases i with
    | none => rfl
    | some i =>
      by_cases hi : i = n
      · subst hi
        simp [links, setPrev]
      · simp [links, setPrev, hi]

theorem links_setHead (t : LhCells K V m) (c : Option (Fin m)) :
    (t.setHead c).links = ⟨Function.update t.links.next none c, t.links.prev⟩ := by
  ext i j
  all_goals cases i <;> simp [links, setHead]

theorem links_setTail (t : LhCells K V m) (c : Option (Fin m)) :
    (t.setTail c).links = ⟨t.links.next, Function.update t.links.prev none c⟩ := by
  ext i j
  all_goals cases i <;> simp [links, setTail]

/-- The key and the value of a slot are not pointers of the chain. -/
theorem links_modify_key (t : LhCells K V m) (n : Fin m) (k : LhKey K) (v : Option V) :
    (t.modify n fun e => { e with k, v }).links = t.links := by
  ext i j
  all_goals
    cases i with
    | none => rfl
    | some i =>
      by_cases hi : i = n
      · subst hi
        simp [links]
      · simp [links, hi]

/-- Only the pointers of `t'` differ from those of `t`. -/
structure SameEntries (t t' : LhCells K V m) : Prop where
  k : ∀ n, (t'.table n).k = (t.table n).k
  v : ∀ n, (t'.table n).v = (t.table n).v
  count : t'.count = t.count
  freed : t'.freed = t.freed

theorem SameEntries.refl (t : LhCells K V m) : SameEntries t t :=
  ⟨fun _ => rfl, fun _ => rfl, rfl, rfl⟩

theorem SameEntries.trans {u : LhCells K V m} (h : SameEntries t t') (h' : SameEntries t' u) :
    SameEntries t u where
  k n := (h'.k n).trans (h.k n)
  v n := (h'.v n).trans (h.v n)
  count := h'.count.trans h.count
  freed := h'.freed.trans h.freed

theorem SameEntries.entry (h : SameEntries t t') (n : Fin m) : t'.entry n = t.entry n := by
  unfold LhCells.entry
  rw [h.k n, h.v n]

theorem sameEntries_modify (t : LhCells K V m) (n : Fin m) {f : LhEntry K V m → LhEntry K V m}
    (hk : ∀ e, (f e).k = e.k) (hv : ∀ e, (f e).v = e.v) : SameEntries t (t.modify n f) := by
  refine ⟨fun i => ?_, fun i => ?_, rfl, rfl⟩
  all_goals
    rw [table_modify]
    by_cases hi : i = n
    · subst hi
      rw [Function.update_self]
      first | exact hk _ | exact hv _
    · rw [Function.update_of_ne hi]

theorem sameEntries_setNext (t : LhCells K V m) (n : Fin m) (c : Option (Fin m)) :
    SameEntries t (t.setNext n c) := sameEntries_modify t n (fun _ => rfl) fun _ => rfl

theorem sameEntries_setPrev (t : LhCells K V m) (n : Fin m) (c : Option (Fin m)) :
    SameEntries t (t.setPrev n c) := sameEntries_modify t n (fun _ => rfl) fun _ => rfl

theorem sameEntries_setHead (t : LhCells K V m) (c : Option (Fin m)) :
    SameEntries t (t.setHead c) := ⟨fun _ => rfl, fun _ => rfl, rfl, rfl⟩

theorem sameEntries_setTail (t : LhCells K V m) (c : Option (Fin m)) :
    SameEntries t (t.setTail c) := ⟨fun _ => rfl, fun _ => rfl, rfl, rfl⟩

/-! ### The chain -/

/-- The entries `l` are chained in this order. -/
def Chained (t : LhCells K V m) (l : List (Fin m)) : Prop := t.links.Through none (l.map some)

theorem Chained.nodup (h : t.Chained l) : l.Nodup :=
  (List.nodup_cons.mp (Links.Through.nodup h)).2.of_map some

theorem foreach_of_chained (h : t.Chained l) : t.foreach = some (l.filterMap t.entry) := by
  have hlen : (l.map some).length < m + 1 := by
    rw [List.length_map, Nat.lt_succ_iff]
    simpa using List.Nodup.length_le_card h.nodup
  unfold foreach
  rw [show t.head = t.links.next none from rfl, Links.Through.walk h hlen, Option.map_some,
    List.filterMap_map]
  rfl

theorem append_eq (h : t.Chained l) (hn : n ∉ l) :
    ∃ t', t.append n = some t' ∧ t'.Chained (l ++ [n]) ∧ SameEntries t t' := by
  have hpush := Links.Through.push h (x := some n) (by simpa using hn)
  have hjoin : ∀ t' : LhCells K V m,
      t'.links = (t.links.join (t.links.prev none) (some n)).join (some n) none →
      t'.Chained (l ++ [n]) := by
    intro t' ht'
    unfold Chained
    rw [ht', List.map_append]
    exact hpush
  unfold append
  cases hhead : t.head with
  | none =>
    have hnil : l = [] := by
      have := (Links.Through.nil_iff h).mp hhead
      simpa using this
    have htail : t.links.prev none = none :=
      Links.Through.prev_sentinel h (u := []) (by rw [hnil]; rfl)
    refine ⟨_, rfl, hjoin _ ?_, ?_⟩
    · rw [links_setNext, links_setPrev, links_setHead, links_setTail, htail]
      ext i j
      all_goals cases i <;> simp [Links.join, Function.update_apply]
    · exact ((sameEntries_setTail t _).trans (sameEntries_setHead _ _)).trans
        ((sameEntries_setPrev _ n none).trans (sameEntries_setNext _ n none))
  | some c =>
    cases htail : t.tail with
    | none =>
      have := Links.Through.next_prev_sentinel h
      rw [prev_links, Option.elim_none, htail, next_links, Option.elim_none, hhead] at this
      exact absurd this (by simp)
    | some a =>
      refine ⟨_, rfl, hjoin _ ?_, ?_⟩
      · rw [links_setTail, links_setNext, links_setPrev, links_setNext, prev_links,
          Option.elim_none, htail]
        ext i j
        all_goals cases i <;> simp [Links.join, Function.update_apply]
      · exact ((sameEntries_setNext t a _).trans (sameEntries_setPrev _ n _)).trans
          ((sameEntries_setNext _ n none).trans (sameEntries_setTail _ _))

/-- Whether an entry is the head or the tail can be read off its own pointers. -/
theorem Chained.ends (h : t.Chained (l₁ ++ n :: l₂)) :
    (t.head = some n ↔ (t.table n).prev = none) ∧
      (t.tail = some n ↔ (t.table n).next = none) := by
  obtain ⟨u, a, hu⟩ := Links.exists_concat none (l₁.map some)
  obtain ⟨b, v, hv⟩ := Links.exists_cons (l₂.map some) none
  have hthrough : t.links.Through none (l₁.map some ++ some n :: l₂.map some) := by
    have := h
    unfold Chained at this
    rwa [List.map_append, List.map_cons] at this
  obtain ⟨⟨hnext, hprev⟩, hnext', hprev'⟩ := hthrough.around hu hv
  have hs := hthrough.next_prev_sentinel
  have hs' := hthrough.prev_next_sentinel
  rw [next_links, Option.elim_some] at hnext'
  rw [prev_links, Option.elim_some] at hprev
  rw [hnext', hprev]
  constructor
  · constructor
    · intro hhead
      rw [show t.links.next none = some n from hhead, prev_links, Option.elim_some, hprev] at hs'
      exact hs'
    · rintro rfl
      exact hnext
  · constructor
    · intro htail
      rw [show t.links.prev none = some n from htail, next_links, Option.elim_some, hnext'] at hs
      exact hs
    · rintro rfl
      exact hprev'

theorem unchain_eq (h : t.Chained (l₁ ++ n :: l₂)) :
    ∃ t', t.unchain n = some t' ∧ t'.Chained (l₁ ++ l₂) ∧ SameEntries t t' := by
  have hun : (t.links.join (t.links.prev (some n)) (t.links.next (some n))).Through none
      ((l₁ ++ l₂).map some) := by
    have := h
    unfold Chained at this
    rw [List.map_append, List.map_cons] at this
    rw [List.map_append]
    exact this.unlink
  have hn : some n ∉ none :: (l₁ ++ l₂).map some := by
    have := (List.nodup_middle.mp h.nodup)
    simpa using (List.nodup_cons.mp this).1
  have hjoin : ∀ u : LhCells K V m,
      u.links = t.links.join (t.links.prev (some n)) (t.links.next (some n)) →
      ((u.setPrev n none).setNext n none).Chained (l₁ ++ l₂) := by
    intro u hu
    refine hun.congr (fun c hc => ?_) fun c hc => ?_
    all_goals
      have hcn : c ≠ some n := fun hcn => hn (hcn ▸ hc)
      rw [links_setNext, links_setPrev, ← hu]
      exact Function.update_of_ne hcn _ _
  have hclear : ∀ u : LhCells K V m, SameEntries u ((u.setPrev n none).setNext n none) :=
    fun u => (sameEntries_setPrev u n none).trans (sameEntries_setNext _ n none)
  obtain ⟨hhead, htail⟩ := h.ends
  unfold unchain
  cases hprev : (t.table n).prev with
  | none =>
    cases hnext : (t.table n).next with
    | none =>
      rw [if_pos ⟨htail.mpr hnext, hhead.mpr hprev⟩]
      refine ⟨_, rfl, hjoin _ ?_, ((sameEntries_setTail t _).trans
        (sameEntries_setHead _ _)).trans (hclear _)⟩
      rw [links_setHead, links_setTail, prev_links, next_links, Option.elim_some,
        Option.elim_some, hprev, hnext]
      rfl
    | some b =>
      have hne : t.tail ≠ some n := by rw [Ne, htail, hnext]; simp
      rw [if_neg fun h => hne h.1, if_pos (hhead.mpr hprev)]
      refine ⟨_, rfl, hjoin _ ?_, ((sameEntries_setPrev t b _).trans
        (sameEntries_setHead _ _)).trans (hclear _)⟩
      rw [links_setHead, links_setPrev, prev_links, next_links, Option.elim_some,
        Option.elim_some, hprev, hnext]
      rfl
  | some a =>
    have hne : t.head ≠ some n := by rw [Ne, hhead, hprev]; simp
    cases hnext : (t.table n).next with
    | none =>
      rw [if_neg fun h => hne h.2, if_neg hne, if_pos (htail.mpr hnext)]
      refine ⟨_, rfl, hjoin _ ?_, ((sameEntries_setNext t a _).trans
        (sameEntries_setTail _ _)).trans (hclear _)⟩
      rw [links_setTail, links_setNext, prev_links, next_links, Option.elim_some,
        Option.elim_some, hprev, hnext]
      rfl
    | some b =>
      have hne' : t.tail ≠ some n := by rw [Ne, htail, hnext]; simp
      rw [if_neg fun h => hne h.2, if_neg hne, if_neg hne']
      refine ⟨_, rfl, hjoin _ ?_, ((sameEntries_setNext t a _).trans
        (sameEntries_setPrev _ b _)).trans (hclear _)⟩
      rw [links_setPrev, links_setNext, prev_links, next_links, Option.elim_some,
        Option.elim_some, hprev, hnext]
      rfl

/-! ### What the operations change -/

/-- The slots other than `n` keep their keys and values. -/
def SameBut (n : Fin m) (t t' : LhCells K V m) : Prop :=
  ∀ i, i ≠ n → (t'.table i).k = (t.table i).k ∧ (t'.table i).v = (t.table i).v

theorem SameBut.entry (h : SameBut n t t') (hn : n' ≠ n) : t'.entry n' = t.entry n' := by
  unfold LhCells.entry
  rw [(h n' hn).1, (h n' hn).2]

theorem SameBut.filterMap (h : SameBut n t t') (hn : n ∉ l) :
    l.filterMap t'.entry = l.filterMap t.entry :=
  List.filterMap_congr fun _ hi => h.entry fun hin => hn (hin ▸ hi)

theorem sameBut_modify (t : LhCells K V m) (n : Fin m) (f : LhEntry K V m → LhEntry K V m) :
    SameBut n t (t.modify n f) := by
  intro i hi
  rw [table_modify, Function.update_of_ne hi]
  exact ⟨rfl, rfl⟩

theorem SameBut.trans {u : LhCells K V m} (h : SameBut n t t') (h' : SameEntries t' u) :
    SameBut n t u := fun i hi => ⟨(h'.k i).trans (h i hi).1, (h'.v i).trans (h i hi).2⟩

theorem deleteEntry_eq {e : K × Option V} (h : t.Chained (l₁ ++ n :: l₂))
    (he : t.entry n = some e) :
    ∃ t', t.deleteEntry n = some t' ∧ t'.Chained (l₁ ++ l₂) ∧ SameBut n t t' ∧
      (t'.table n).k = .freed ∧ t'.count = t.count - 1 ∧ t'.freed = t.freed ++ [e] := by
  unfold deleteEntry
  rw [he]
  let u : LhCells K V m := { t with count := t.count - 1, freed := t.freed ++ [e] }
  have hu : (u.modify n fun e => { e with v := none, k := .freed }).Chained (l₁ ++ n :: l₂) := by
    unfold Chained
    rw [links_modify_key]
    exact h
  obtain ⟨t', ht', hc, hs⟩ := unchain_eq hu
  refine ⟨t', ht', hc, (sameBut_modify u n _).trans hs, ?_, hs.count, hs.freed⟩
  rw [hs.k, table_modify, Function.update_self]

/-- An entry is written into a slot and chained. -/
theorem insertEntry_eq (h : t.Chained l) (hn : n ∉ l) (k : K) (v : Option V) :
    ∃ t', (t.write n k v).append n = some t' ∧ t'.Chained (l ++ [n]) ∧ SameBut n t t' ∧
      t'.entry n = some (k, v) ∧ t'.count = t.count + 1 ∧ t'.freed = t.freed := by
  have hu : (t.write n k v).Chained l := by
    unfold Chained
    rw [show (t.write n k v).links = (t.modify n fun e => { e with k := .key k, v }).links from rfl,
      links_modify_key]
    exact h
  obtain ⟨t', ht', hc, hs⟩ := append_eq hu hn
  have hbut : SameBut n t (t.write n k v) :=
    fun i hi => sameBut_modify t n (fun e => { e with k := .key k, v }) i hi
  refine ⟨t', ht', hc, hbut.trans hs, ?_, hs.count, hs.freed⟩
  rw [hs.entry]
  simp [LhCells.entry, write]

theorem entry_eq_some_iff {k : K} {v : Option V} :
    t.entry n = some (k, v) ↔ (t.table n).k = .key k ∧ (t.table n).v = v := by
  unfold LhCells.entry
  split
  · next k' hk' =>
    rw [hk', Option.some_inj, Prod.mk.injEq, LhKey.key.injEq]
  · next hne =>
    refine iff_of_false (by simp) fun hk => hne k hk.1

end LhCells

end DreamDota
