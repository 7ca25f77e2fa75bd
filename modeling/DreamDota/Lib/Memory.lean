import DreamDota.Lib.Bytes
import Mathlib.Data.Nat.Basic
import Mathlib.Logic.Function.Iterate

/-!
# Memory and counted loops

The address space of a 32-bit process. Addresses are added to modulo `2 ^ 32`, so a block is given by
its first address and its size, and `Within` compares the distance to the first address. A `Ram`
keeps a log of what was read and written.

`forLoop` is a `for` statement. A loop whose test fails at the `n`-th value of the counter and at
none before makes `n` turns, `forLoop_rule`, and one whose test never fails has no end,
`forLoop_eq_none`.
-/

abbrev Address := BitVec 32

/-! ## Addresses -/

/-- `x` is one of the `n` addresses from `a` on. -/
def Within (a : Address) (n : ℕ) (x : Address) : Prop := (x - a).toNat < n

instance (a : Address) (n : ℕ) (x : Address) : Decidable (Within a n x) :=
  inferInstanceAs (Decidable ((x - a).toNat < n))

/-- The address `k` bytes behind `a`. -/
def Address.at (a : Address) (k : ℕ) : Address := a + BitVec.ofNat 32 k

/-- The `n` addresses from `a` on and the `k` addresses from `b` on have none in common. -/
def Apart (a : Address) (n : ℕ) (b : Address) (k : ℕ) : Prop := ∀ x, Within a n x → ¬Within b k x

variable {a b x : Address} {k n i : ℕ}

theorem toNat_at_sub (hk : k < 2 ^ 32) : (a.at k - a).toNat = k := by
  unfold Address.at
  rw [BitVec.add_comm, BitVec.add_sub_cancel, BitVec.toNat_ofNat, Nat.mod_eq_of_lt hk]

theorem at_toNat_sub : a.at (x - a).toNat = x := by
  unfold Address.at
  rw [BitVec.ofNat_toNat, BitVec.setWidth_eq, BitVec.add_comm, BitVec.sub_add_cancel]

theorem at_at (a : Address) (i k : ℕ) : (a.at i).at k = a.at (i + k) := by
  unfold Address.at
  rw [BitVec.add_assoc, BitVec.ofNat_add]

theorem within_at (hk : k < 2 ^ 32) : Within a n (a.at k) ↔ k < n := by
  unfold Within
  rw [toNat_at_sub hk]

theorem Apart.mono {n' : ℕ} (h : Apart a n b k) (hn : n' ≤ n) : Apart a n' b k :=
  fun x hx => h x (Nat.lt_of_lt_of_le hx hn)

/-- Blocks that follow one another. -/
theorem apart_of_le (h : a.toNat + n ≤ b.toNat)
    (hb : b.toNat + k ≤ 2 ^ 32) : Apart a n b k := by
  intro x hx hin
  unfold Within at hx hin
  bv_omega

/-- A part of a block, by the distance to the start of the block. -/
theorem within_part (h : i + n ≤ 2 ^ 32) :
    Within (a.at i) n x ↔ i ≤ (x - a).toNat ∧ (x - a).toNat < i + n := by
  unfold Within Address.at
  have hlt : (x - a).toNat < 2 ^ 32 := (x - a).isLt
  have hsub : x - (a + BitVec.ofNat 32 i) = (x - a) - BitVec.ofNat 32 i := by bv_omega
  rw [hsub, BitVec.toNat_sub, BitVec.toNat_ofNat]
  omega

/-! ## Memory -/

structure Ram where
  bytes : Address → Byte
  reads : List Address
  writes : List Address

namespace Ram

/-- The addresses of a block. -/
def cells (a : Address) (n : ℕ) : List Address := (List.range n).map a.at

/-- The bytes of a block. -/
def peek (m : Ram) (a : Address) (n : ℕ) : List Byte := (cells a n).map m.bytes

/-- Reads a block. -/
def load (m : Ram) (a : Address) (n : ℕ) : List Byte × Ram :=
  (m.peek a n, { m with reads := m.reads ++ cells a n })

/-- Writes a block. -/
def store (m : Ram) (a : Address) (bs : List Byte) : Ram :=
  { m with
    bytes := fun x => bs.getD (x - a).toNat (m.bytes x)
    writes := m.writes ++ cells a bs.length }

variable {m m' : Ram} {bs : List Byte}

theorem mem_cells (hn : n ≤ 2 ^ 32) : x ∈ cells a n ↔ Within a n x := by
  unfold cells
  rw [List.mem_map]
  constructor
  · rintro ⟨k, hk, rfl⟩
    rw [List.mem_range] at hk
    exact (within_at (by omega)).mpr hk
  · exact fun h => ⟨(x - a).toNat, List.mem_range.mpr h, at_toNat_sub⟩

@[simp] theorem length_peek (m : Ram) (a : Address) (n : ℕ) : (m.peek a n).length = n := by
  unfold peek cells
  rw [List.length_map, List.length_map, List.length_range]

theorem getElem?_peek (hk : k < n) : (m.peek a n)[k]? = some (m.bytes (a.at k)) := by
  unfold peek cells
  rw [List.getElem?_map, List.getElem?_map, List.getElem?_range hk]
  rfl

theorem peek_congr (h : ∀ k < n, m.bytes (a.at k) = m'.bytes (x.at k)) :
    m.peek a n = m'.peek x n := by
  apply List.ext_getElem?
  intro k
  by_cases hk : k < n
  · rw [getElem?_peek hk, getElem?_peek hk, h k hk]
  · rw [List.getElem?_eq_none (by rw [length_peek]; omega),
      List.getElem?_eq_none (by rw [length_peek]; omega)]

theorem bytes_of_peek (h : m.peek a n = m'.peek x n) (hk : k < n) :
    m.bytes (a.at k) = m'.bytes (x.at k) := by
  have hget := congrArg (·[k]?) h
  simp only [getElem?_peek hk] at hget
  exact Option.some.inj hget

/-- What is not in the block stays as it is. -/
theorem store_bytes_of_not (h : ¬Within a bs.length x) : (m.store a bs).bytes x = m.bytes x := by
  show bs.getD (x - a).toNat (m.bytes x) = m.bytes x
  rw [List.getD_eq_getElem?_getD, List.getElem?_eq_none (Nat.le_of_not_lt h)]
  rfl

/-- Another block stays as it is. -/
theorem peek_store_apart (h : Apart a bs.length b n) (hn : n ≤ 2 ^ 32) :
    (m.store a bs).peek b n = m.peek b n :=
  peek_congr fun k hk => store_bytes_of_not fun ha => h _ ha ((within_at (by omega)).mpr hk)

/-- The first bytes of a block are overwritten. -/
theorem peek_store_short (h : bs.length ≤ n) (hn : n ≤ 2 ^ 32) :
    (m.store a bs).peek a n = bs ++ (m.peek a n).drop bs.length := by
  apply List.ext_getElem?
  intro k
  by_cases hk : k < n
  · rw [getElem?_peek hk]
    rcases Nat.lt_or_ge k bs.length with hlt | hge
    · show some (bs.getD (a.at k - a).toNat _) = _
      rw [toNat_at_sub (by omega), List.getD_eq_getElem?_getD, List.getElem?_append_left hlt,
        List.getElem?_eq_getElem hlt]
      rfl
    · rw [store_bytes_of_not (by rw [within_at (by omega)]; omega),
        List.getElem?_append_right hge, List.getElem?_drop, Nat.add_sub_of_le hge,
        getElem?_peek hk]
  · rw [List.getElem?_eq_none (by rw [length_peek]; omega), List.getElem?_eq_none]
    rw [List.length_append, List.length_drop, length_peek]
    omega

/-- What was stored is read again. -/
theorem peek_store (hlen : bs.length = n) (hn : n ≤ 2 ^ 32) : (m.store a bs).peek a n = bs := by
  rw [peek_store_short hlen.le hn, List.drop_of_length_le (by rw [length_peek, hlen]),
    List.append_nil]

theorem mem_store_writes (h : bs.length ≤ 2 ^ 32) :
    x ∈ (m.store a bs).writes ↔ x ∈ m.writes ∨ Within a bs.length x := by
  show x ∈ m.writes ++ cells a bs.length ↔ _
  rw [List.mem_append, mem_cells h]

/-! ## Words -/

def word (m : Ram) (a : Address) : BitVec 32 := Bytes.dword (m.peek a 4)

/-- Reads a word. -/
def loadWord (m : Ram) (a : Address) : BitVec 32 × Ram :=
  let (bs, m) := m.load a 4
  (Bytes.dword bs, m)

/-- Writes a word. -/
def storeWord (m : Ram) (a : Address) (v : BitVec 32) : Ram := m.store a (Bytes.ofDword v)

theorem ofDword_word (m : Ram) (a : Address) : Bytes.ofDword (m.word a) = m.peek a 4 :=
  Bytes.ofDword_dword (length_peek m a 4)

end Ram

/-! ## Loops -/

section Loops

variable {ι σ : Type*} (cond : ι → Bool) (next : ι → ι) (body : ι → σ → σ)

/-- `for (; cond i; i = next i) body;`, which is stopped after `fuel` turns. -/
def forLoop : ℕ → ι → σ → Option σ
  | 0, i, s => if cond i then none else some s
  | fuel + 1, i, s => if cond i then forLoop fuel (next i) (body i s) else some s

variable {cond next body} {fuel fuel' : ℕ} {i : ι} {s s' t : σ}

theorem forLoop_mono (h : forLoop cond next body fuel i s = some t) (hle : fuel ≤ fuel') :
    forLoop cond next body fuel' i s = some t := by
  induction fuel generalizing fuel' i s with
  | zero =>
    have hstop : ¬cond i = true := by
      intro hcond
      rw [forLoop, if_pos hcond] at h
      cases h
    rw [forLoop, if_neg hstop] at h
    cases fuel' with
    | zero => rw [forLoop, if_neg hstop, h]
    | succ fuel' => rw [forLoop, if_neg hstop, h]
  | succ fuel ih =>
    obtain ⟨fuel', rfl⟩ := Nat.exists_eq_add_of_le' (Nat.one_le_of_lt hle)
    rw [forLoop] at h ⊢
    split_ifs at h ⊢ with hcond
    · exact ih h (Nat.le_of_succ_le_succ hle)
    · exact h

/-- The result does not depend on the fuel. -/
theorem forLoop_unique (h : forLoop cond next body fuel i s = some t)
    (h' : forLoop cond next body fuel' i s = some s') : t = s' := by
  have hmax := forLoop_mono h (Nat.le_max_left fuel fuel')
  rw [forLoop_mono h' (Nat.le_max_right fuel fuel')] at hmax
  exact (Option.some.inj hmax).symm

variable (cond next body) in
/-- `n` turns, each of which takes the invariant one further. -/
theorem forLoop_rule (n : ℕ) (i : ι) (s : σ) (P : ℕ → σ → Prop) (hstop : cond (next^[n] i) = false)
    (hcond : ∀ k < n, cond (next^[k] i) = true) (h0 : P 0 s)
    (hstep : ∀ k < n, ∀ s, P k s → P (k + 1) (body (next^[k] i) s)) :
    ∃ t, forLoop cond next body n i s = some t ∧ P n t := by
  induction n generalizing i s P with
  | zero =>
    refine ⟨s, ?_, h0⟩
    rw [forLoop, if_neg (by rw [show cond i = false from hstop]; exact Bool.false_ne_true)]
  | succ n ih =>
    have hfirst : cond i = true := hcond 0 (Nat.succ_pos n)
    have hP1 : P 1 (body i s) := hstep 0 (Nat.succ_pos n) s h0
    obtain ⟨t, ht, hP⟩ := ih (next i) (body i s) (fun k => P (k + 1)) hstop
      (fun k hk => hcond (k + 1) (Nat.succ_lt_succ hk)) hP1
      (fun k hk => hstep (k + 1) (Nat.succ_lt_succ hk))
    exact ⟨t, by rw [forLoop, if_pos hfirst, ht], hP⟩

/-- A test that never fails. -/
theorem forLoop_eq_none (h : ∀ i, cond i = true) (fuel : ℕ) (i : ι) (s : σ) :
    forLoop cond next body fuel i s = none := by
  induction fuel generalizing i s with
  | zero => rw [forLoop, if_pos (h i)]
  | succ fuel ih => rw [forLoop, if_pos (h i), ih]

/-- A counter that grows by `c`. -/
theorem iterate_add (c : BitVec 32) (k : ℕ) : (· + c)^[k] 0 = BitVec.ofNat 32 (k * c.toNat) := by
  induction k with
  | zero => rw [Nat.zero_mul]; rfl
  | succ k ih =>
    rw [Function.iterate_succ_apply', ih, Nat.succ_mul, ← BitVec.ofNat_add_ofNat,
      BitVec.ofNat_toNat, BitVec.setWidth_eq]

end Loops
