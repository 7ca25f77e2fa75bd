import DreamDota.Lib.Bytes

/-!
# `DWORDReplace`

The loop over the offsets stops before the last window of four bytes, and its bound is a signed
number.

1. `dwordReplace`: the code.
2. `dwordReplace_none`, `dwordReplace_first`: the two ways through the loop.
3. `replaces_iff`: the buffers for which it does what it is for.
-/

namespace DreamDota

open Bytes

/-! ## The code -/

/-- The loop of `DWORDReplace`, with `n` turns to come. An access outside of the buffer is `none`. -/
def replaceLoop (mem : List Byte) (search toWord : BitVec 32) :
    ℕ → ℕ → Option (Bool × List Byte)
  | 0, _ => some (false, mem)
  | n + 1, i => do
    if (← readDword mem i) = search then return (true, ← writeDword mem i toWord)
    else replaceLoop mem search toWord n (i + 1)

/-- `(int)(mem_size - 4)` -/
def replaceBound (mem : List Byte) : ℤ := (BitVec.ofNat 32 mem.length - 4).toInt

/-- `DWORDReplace`: its result and the buffer. -/
def dwordReplace (mem : List Byte) (search toWord : BitVec 32) : Option (Bool × List Byte) :=
  if mem.length < 4 then some (false, mem)
  else replaceLoop mem search toWord (replaceBound mem).toNat 0

/-! ## The loop -/

/-- The four bytes from `off` on are those of `search`. -/
def OccursAt (mem : List Byte) (search : BitVec 32) (off : ℕ) : Prop :=
  readDword mem off = some search

instance (mem : List Byte) (search : BitVec 32) (off : ℕ) : Decidable (OccursAt mem search off) :=
  inferInstanceAs (Decidable (_ = _))

/-- The first occurrence. -/
structure FirstAt (mem : List Byte) (search : BitVec 32) (off : ℕ) : Prop where
  occurs : OccursAt mem search off
  first : ∀ o < off, ¬OccursAt mem search o

/-- The buffer with the word at `off` replaced. -/
def replaced (mem : List Byte) (off : ℕ) (toWord : BitVec 32) : List Byte :=
  mem.take off ++ ofDword toWord ++ mem.drop (off + 4)

variable {mem : List Byte} {search toWord : BitVec 32} {n i off : ℕ}

theorem OccursAt.add_four_le (h : OccursAt mem search off) : off + 4 ≤ mem.length := by
  by_contra hout
  unfold OccursAt readDword at h
  rw [read_eq_none.mpr (Nat.lt_of_not_le hout)] at h
  cases h

theorem writeDword_eq (h : off + 4 ≤ mem.length) :
    writeDword mem off toWord = some (replaced mem off toWord) := by
  rw [writeDword, write, length_ofDword, if_pos h]
  rfl

theorem replaceLoop_none (hin : i + n + 3 ≤ mem.length)
    (h : ∀ o, i ≤ o → o < i + n → ¬OccursAt mem search o) :
    replaceLoop mem search toWord n i = some (false, mem) := by
  induction n generalizing i with
  | zero => rfl
  | succ n ih =>
    have hread : readDword mem i = some (dword ((mem.drop i).take 4)) := readDword_eq (by omega)
    have hne : ¬dword ((mem.drop i).take 4) = search := fun heq =>
      h i le_rfl (by omega) (hread.trans (congrArg some heq))
    rw [replaceLoop, hread, Option.bind_eq_bind, Option.bind_some, if_neg hne]
    exact ih (by omega) fun o ho hlt => h o (by omega) (by omega)

theorem replaceLoop_first (hin : i + n + 3 ≤ mem.length) (hfirst : FirstAt mem search off)
    (hi : i ≤ off) (hoff : off < i + n) :
    replaceLoop mem search toWord n i = some (true, replaced mem off toWord) := by
  induction n generalizing i with
  | zero => omega
  | succ n ih =>
    have hread : readDword mem i = some (dword ((mem.drop i).take 4)) := readDword_eq (by omega)
    rcases Nat.eq_or_lt_of_le hi with rfl | hlt
    · have heq : dword ((mem.drop i).take 4) = search :=
        Option.some.inj (hread.symm.trans hfirst.occurs)
      rw [replaceLoop, hread, Option.bind_eq_bind, Option.bind_some, if_pos heq,
        writeDword_eq (by omega)]
      rfl
    · have hne : ¬dword ((mem.drop i).take 4) = search := fun heq =>
        hfirst.first i hlt (hread.trans (congrArg some heq))
      rw [replaceLoop, hread, Option.bind_eq_bind, Option.bind_some, if_neg hne]
      exact ih (by omega) hlt (by omega)

/-- The size of the buffer stays. -/
theorem length_replaceLoop {mem' : List Byte} {found : Bool}
    (h : replaceLoop mem search toWord n i = some (found, mem')) : mem'.length = mem.length := by
  induction n generalizing i with
  | zero => rw [(Prod.mk.inj (Option.some.inj h)).2]
  | succ n ih =>
    obtain ⟨v, -, h⟩ := Option.bind_eq_some_iff.mp h
    split_ifs at h with hv
    · obtain ⟨mem'', hwrite, h⟩ := Option.bind_eq_some_iff.mp h
      rw [← (Prod.mk.inj (Option.some.inj h)).2, length_write hwrite]
    · exact ih h

/-! ## The whole function -/

theorem length_dwordReplace {mem' : List Byte} {found : Bool}
    (h : dwordReplace mem search toWord = some (found, mem')) : mem'.length = mem.length := by
  unfold dwordReplace at h
  split_ifs at h
  · rw [(Prod.mk.inj (Option.some.inj h)).2]
  · exact length_replaceLoop h

/-- The bound is negative for a buffer of more than two gigabytes. -/
theorem toNat_replaceBound (h4 : 4 ≤ mem.length) (hlen : mem.length < 2 ^ 32) :
    (replaceBound mem).toNat = if mem.length - 4 < 2 ^ 31 then mem.length - 4 else 0 := by
  have hsub : (BitVec.ofNat 32 mem.length - 4).toNat = mem.length - 4 := by
    rw [BitVec.toNat_sub, BitVec.toNat_ofNat]
    show (2 ^ 32 - 4 + mem.length % 2 ^ 32) % 2 ^ 32 = mem.length - 4
    omega
  unfold replaceBound
  rw [BitVec.toInt_eq_toNat_cond, hsub]
  split_ifs <;> omega

/-- What comes before the bound. -/
def Before (mem : List Byte) (off : ℕ) : Prop := off + 4 < mem.length ∧ mem.length - 4 < 2 ^ 31

theorem lt_replaceBound_iff (hlen : mem.length < 2 ^ 32) (hoff : off + 4 ≤ mem.length) :
    off < (replaceBound mem).toNat ↔ Before mem off := by
  rw [toNat_replaceBound (by omega) hlen, Before]
  split_ifs <;> omega

theorem replaceBound_add_three_le (h4 : 4 ≤ mem.length) (hlen : mem.length < 2 ^ 32) :
    0 + (replaceBound mem).toNat + 3 ≤ mem.length := by
  rw [toNat_replaceBound h4 hlen]
  split_ifs <;> omega

theorem dwordReplace_none (hlen : mem.length < 2 ^ 32)
    (h : ∀ off, OccursAt mem search off → ¬Before mem off) :
    dwordReplace mem search toWord = some (false, mem) := by
  unfold dwordReplace
  split_ifs with h4
  · rfl
  · have hfour : 4 ≤ mem.length := Nat.le_of_not_lt h4
    refine replaceLoop_none (replaceBound_add_three_le hfour hlen) fun o _ hlt hocc => ?_
    rw [Nat.zero_add, lt_replaceBound_iff hlen hocc.add_four_le] at hlt
    exact h o hocc hlt

theorem dwordReplace_first (hlen : mem.length < 2 ^ 32) (hfirst : FirstAt mem search off)
    (hbefore : Before mem off) :
    dwordReplace mem search toWord = some (true, replaced mem off toWord) := by
  have hin := hfirst.occurs.add_four_le
  unfold dwordReplace
  rw [if_neg (by omega)]
  refine replaceLoop_first (replaceBound_add_three_le (by omega) hlen) hfirst (Nat.zero_le off) ?_
  rw [Nat.zero_add]
  exact (lt_replaceBound_iff hlen hin).mpr hbefore

theorem exists_firstAt (h : OccursAt mem search off) : ∃ o, FirstAt mem search o := by
  classical
  have hex : ∃ o, OccursAt mem search o := ⟨off, h⟩
  exact ⟨Nat.find hex, Nat.find_spec hex, fun o ho => Nat.find_min hex ho⟩

/-- No access is outside of the buffer. -/
theorem dwordReplace_isSome (hlen : mem.length < 2 ^ 32) (search toWord : BitVec 32) :
    (dwordReplace mem search toWord).isSome := by
  by_cases hocc : ∃ off, OccursAt mem search off ∧ Before mem off
  · obtain ⟨off, hoff, hbefore⟩ := hocc
    obtain ⟨first, hfirst⟩ := exists_firstAt hoff
    have hle : first ≤ off := Nat.le_of_not_lt fun hlt => hfirst.first off hlt hoff
    rw [dwordReplace_first hlen hfirst ⟨by have := hbefore.1; omega, hbefore.2⟩]
    rfl
  · rw [dwordReplace_none hlen fun off hoff hbefore => hocc ⟨off, hoff, hbefore⟩]
    rfl

/-- The first occurrence is replaced, if there is one, and the buffer is left as it is otherwise. No
byte outside of it is accessed. -/
structure Replaces (mem : List Byte) (search toWord : BitVec 32) : Prop where
  found : ∀ off, FirstAt mem search off →
    dwordReplace mem search toWord = some (true, replaced mem off toWord)
  notFound : (∀ off, ¬OccursAt mem search off) → dwordReplace mem search toWord = some (false, mem)

theorem Replaces.before (h : Replaces mem search toWord) (hlen : mem.length < 2 ^ 32)
    (hfirst : FirstAt mem search off) : Before mem off := by
  by_contra hafter
  have hnone : dwordReplace mem search toWord = some (false, mem) := by
    refine dwordReplace_none hlen fun o hocc hbefore => hafter ?_
    have hle : off ≤ o := Nat.le_of_not_lt fun hlt => hfirst.first o hlt hocc
    exact ⟨by have := hbefore.1; omega, hbefore.2⟩
  rw [h.found off hfirst] at hnone
  exact Bool.noConfusion (Prod.mk.inj (Option.some.inj hnone)).1

/-- The first occurrence must not be at the end, and the buffer not too large. -/
theorem replaces_iff (mem : List Byte) (hlen : mem.length < 2 ^ 32) (search toWord : BitVec 32) :
    Replaces mem search toWord ↔ (∀ off, ¬OccursAt mem search off) ∨
      ∃ off, FirstAt mem search off ∧ off < mem.length - 4 ∧ mem.length - 4 < 2 ^ 31 := by
  constructor
  · intro h
    by_cases hocc : ∃ off, OccursAt mem search off
    · obtain ⟨o, ho⟩ := hocc
      obtain ⟨off, hfirst⟩ := exists_firstAt ho
      obtain ⟨hend, hsize⟩ := h.before hlen hfirst
      exact .inr ⟨off, hfirst, by omega, hsize⟩
    · exact .inl (not_exists.mp hocc)
  · rintro (hnone | ⟨off, hfirst, hend, hsize⟩)
    · exact ⟨fun off hfirst => absurd hfirst.occurs (hnone off),
        fun _ => dwordReplace_none hlen fun off hocc => absurd hocc (hnone off)⟩
    · refine ⟨fun off' hfirst' => ?_, fun hnone => absurd hfirst.occurs (hnone off)⟩
      obtain rfl : off' = off := by
        rcases Nat.lt_trichotomy off' off with hlt | heq | hgt
        · exact absurd hfirst'.occurs (hfirst.first off' hlt)
        · exact heq
        · exact absurd hfirst.occurs (hfirst'.first off hgt)
      exact dwordReplace_first hlen hfirst' ⟨by omega, hsize⟩

theorem replaces_five : Replaces [1, 0, 0, 0, 9] 1 2 :=
  (replaces_iff [1, 0, 0, 0, 9] (by decide) 1 2).mpr
    (.inr ⟨0, ⟨by decide, nofun⟩, by decide, by decide⟩)

/-- A buffer that is the word. -/
theorem not_replaces_four : ¬Replaces [1, 0, 0, 0] 1 2 := by
  intro h
  have hfirst : FirstAt [1, 0, 0, 0] 1 0 := ⟨by decide, nofun⟩
  exact absurd (h.before (by decide) hfirst).1 (by decide)

end DreamDota
