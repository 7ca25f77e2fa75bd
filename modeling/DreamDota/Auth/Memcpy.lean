import DreamDota.Lib.Memory

/-!
# `InlineUtils::memcpy`

The loop over the words counts its index in bytes and its bound in words, so it ends when about a
quarter of the words are copied.

1. `memcpy`: the code.
2. `CopiedPart.copyPiece`: a turn of either loop, `copied_memcpy`: the whole call.
3. `copies_iff`: the blocks that are copied.
-/

namespace DreamDota

/-! ## The code -/

/-- `*(uint32_t*)((uint32_t)dst + i) = *(uint32_t*)((uint32_t)src + i)` -/
def copyWord (src dst i : BitVec 32) (m : Ram) : Ram :=
  let (v, m) := m.loadWord (src + i)
  m.storeWord (dst + i) v

/-- `*(uint8_t*)((uint32_t)dst + i + size) = *(uint8_t*)((uint32_t)src + i + size)` -/
def copyByte (src dst size i : BitVec 32) (m : Ram) : Ram :=
  let (bs, m) := m.load (src + i + size) 1
  m.store (dst + i + size) bs

/-- `InlineUtils::memcpy`. Each of its loops is stopped after `fuel` turns. -/
def memcpy (fuel : ℕ) (m : Ram) (src dst size : BitVec 32) : Option Ram := do
  let bytes_len := size % 4
  let size := size - bytes_len
  let m ← forLoop (fun i => decide (i < size / 4)) (· + 4) (copyWord src dst) fuel 0 m
  forLoop (fun i => decide (i < bytes_len)) (· + 1) (copyByte src dst size) fuel 0 m

/-! ## Pieces -/

/-- Two blocks of `size` bytes have no byte in common. -/
def NonOverlapping (src dst : Address) (size : ℕ) : Prop :=
  ∀ x, ¬(Within src size x ∧ Within dst size x)

/-- A block is copied: its bytes arrive, and nothing else is written. -/
structure CopiedBlock (m m' : Ram) (src dst : Address) (size : ℕ) : Prop where
  bytes : ∀ j < size, m'.bytes (dst.at j) = m.bytes (src.at j)
  frame : ∀ x, ¬Within dst size x → m'.bytes x = m.bytes x
  writes : ∀ x ∈ m'.writes, x ∈ m.writes ∨ Within dst size x

/-- The bytes at the distances in `S` are copied, and nothing else has changed. -/
structure CopiedPart (m m' : Ram) (src dst : Address) (size : ℕ) (S : ℕ → Prop) : Prop where
  bytes : ∀ j < size, S j → m'.bytes (dst.at j) = m.bytes (src.at j)
  rest : ∀ j < size, ¬S j → m'.bytes (dst.at j) = m.bytes (dst.at j)
  frame : ∀ x, ¬Within dst size x → m'.bytes x = m.bytes x
  writes : ∀ x ∈ m'.writes, x ∈ m.writes ∨ Within dst size x

/-- What both loops do in one turn. -/
def copyPiece (src dst : Address) (i n : ℕ) (m : Ram) : Ram :=
  let (bs, m) := m.load (src.at i) n
  m.store (dst.at i) bs

variable {m m' : Ram} {src dst : Address} {size : ℕ} {S T : ℕ → Prop}

theorem CopiedPart.congr (h : CopiedPart m m' src dst size S) (hST : ∀ j < size, S j ↔ T j) :
    CopiedPart m m' src dst size T where
  bytes := fun j hj hT => h.bytes j hj ((hST j hj).mpr hT)
  rest := fun j hj hT => h.rest j hj fun hS => hT ((hST j hj).mp hS)
  frame := h.frame
  writes := h.writes

theorem CopiedPart.refl (m : Ram) (src dst : Address) (size : ℕ) :
    CopiedPart m m src dst size fun _ => False where
  bytes := nofun
  rest := fun _ _ _ => rfl
  frame := fun _ _ => rfl
  writes := fun _ hx => .inl hx

theorem not_within_dst (hsize : size ≤ 2 ^ 32) (hdisj : NonOverlapping src dst size) {j : ℕ}
    (hj : j < size) : ¬Within dst size (src.at j) :=
  fun hdst => hdisj _ ⟨(within_at (by omega)).mpr hj, hdst⟩

theorem CopiedPart.copyPiece (h : CopiedPart m m' src dst size S) (hsize : size < 2 ^ 32)
    (hdisj : NonOverlapping src dst size) {i n : ℕ} (hpiece : i + n ≤ size) :
    CopiedPart m (copyPiece src dst i n m') src dst size fun j => S j ∨ (i ≤ j ∧ j < i + n) := by
  have hlen : (m'.peek (src.at i) n).length = n := Ram.length_peek _ _ _
  have hwithin : ∀ x, Within (dst.at i) (m'.peek (src.at i) n).length x ↔
      i ≤ (x - dst).toNat ∧ (x - dst).toNat < i + n := fun x => by
    rw [hlen, within_part (by omega)]
  -- A byte outside of the piece stays.
  have hout : ∀ x, ¬(i ≤ (x - dst).toNat ∧ (x - dst).toNat < i + n) →
      (DreamDota.copyPiece src dst i n m').bytes x = m'.bytes x := fun x hx =>
    Ram.store_bytes_of_not (m := (m'.load (src.at i) n).2) (mt (hwithin x).mp hx)
  -- A byte of the piece comes from the source, which no turn changes.
  have hin : ∀ j, i ≤ j → j < i + n →
      (DreamDota.copyPiece src dst i n m').bytes (dst.at j) = m.bytes (src.at j) := by
    intro j hij hjn
    have hpeek : (DreamDota.copyPiece src dst i n m').peek (dst.at i) n = m'.peek (src.at i) n :=
      Ram.peek_store hlen (by omega)
    have hbyte := Ram.bytes_of_peek hpeek (show j - i < n by omega)
    rw [at_at, at_at, Nat.add_sub_of_le hij] at hbyte
    exact hbyte.trans (h.frame _ (not_within_dst hsize.le hdisj (by omega)))
  constructor
  · intro j hj hS
    by_cases hpart : i ≤ j ∧ j < i + n
    · exact hin j hpart.1 hpart.2
    · rw [hout _ (by rwa [toNat_at_sub (by omega)])]
      exact h.bytes j hj (hS.resolve_right hpart)
  · intro j hj hS
    rw [not_or] at hS
    rw [hout _ (by rw [toNat_at_sub (by omega)]; exact hS.2)]
    exact h.rest j hj hS.1
  · intro x hx
    have hfar : ¬(x - dst).toNat < size := hx
    rw [hout x (by omega)]
    exact h.frame x hx
  · intro x hx
    rcases (Ram.mem_store_writes (by omega)).mp hx with hold | hnew
    · exact h.writes x hold
    · obtain ⟨-, hlt⟩ := (hwithin x).mp hnew
      exact .inr (show (x - dst).toNat < size by omega)

/-! ## The loops -/

theorem copyWord_eq (src dst i : BitVec 32) (m : Ram) :
    copyWord src dst i m = copyPiece src dst i.toNat 4 m := by
  have haddr : ∀ a : Address, a + i = a.at i.toNat := fun a => by
    rw [Address.at, BitVec.ofNat_toNat, BitVec.setWidth_eq]
  show Ram.store _ (dst + i) (Bytes.ofDword (Bytes.dword _)) = _
  rw [Bytes.ofDword_dword (Ram.length_peek _ _ _), haddr, haddr]
  rfl

theorem copyByte_eq (src dst size i : BitVec 32) (m : Ram) :
    copyByte src dst size i m = copyPiece src dst (i.toNat + size.toNat) 1 m := by
  have haddr : ∀ a : Address, a + i + size = a.at (i.toNat + size.toNat) := fun a => by
    rw [Address.at, ← BitVec.ofNat_add_ofNat, BitVec.ofNat_toNat, BitVec.ofNat_toNat,
      BitVec.setWidth_eq, BitVec.setWidth_eq, BitVec.add_assoc]
  unfold copyByte
  rw [haddr, haddr]
  rfl

/-- The words that the first loop copies: a quarter of the words, rounded up. -/
def wordTurns (size : ℕ) : ℕ := (size / 4 + 3) / 4

theorem copied_memcpy (m : Ram) {size : BitVec 32} (hdisj : NonOverlapping src dst size.toNat) :
    ∃ fuel m', memcpy fuel m src dst size = some m' ∧
      CopiedPart m m' src dst size.toNat fun j =>
        j < 4 * wordTurns size.toNat ∨ 4 * (size.toNat / 4) ≤ j := by
  have hsize : size.toNat < 2 ^ 32 := size.isLt
  have hlen : (size % 4).toNat = size.toNat % 4 := BitVec.toNat_umod
  have hwords : (size - size % 4).toNat = 4 * (size.toNat / 4) := by
    rw [BitVec.toNat_sub, hlen]
    omega
  have hbound : ((size - size % 4) / 4).toNat = size.toNat / 4 := by
    rw [BitVec.toNat_udiv, hwords]
    exact Nat.mul_div_cancel_left _ (by decide)
  -- The counter of the first loop is below `2 ^ 32`.
  have hword : ∀ k ≤ wordTurns size.toNat, ((· + 4)^[k] (0 : BitVec 32)).toNat = 4 * k := by
    intro k hk
    unfold wordTurns at hk
    rw [iterate_add, BitVec.toNat_ofNat]
    show k * 4 % 2 ^ 32 = 4 * k
    omega
  have hbyte : ∀ k ≤ size.toNat % 4, ((· + 1)^[k] (0 : BitVec 32)).toNat = k := by
    intro k hk
    rw [iterate_add, BitVec.toNat_ofNat]
    show k * 1 % 2 ^ 32 = k
    omega
  obtain ⟨m₁, hrun₁, hm₁⟩ := forLoop_rule (fun i => decide (i < (size - size % 4) / 4)) (· + 4)
    (copyWord src dst) (wordTurns size.toNat) 0 m
    (fun k m' => CopiedPart m m' src dst size.toNat fun j => j < 4 * k)
    (by
      rw [decide_eq_false_iff_not, BitVec.lt_def, hbound, hword _ le_rfl]
      unfold wordTurns
      omega)
    (fun k hk => by
      rw [decide_eq_true_iff, BitVec.lt_def, hbound, hword k hk.le]
      unfold wordTurns at hk
      omega)
    ((CopiedPart.refl m src dst _).congr fun j _ => by rw [false_iff]; exact Nat.not_lt_zero j)
    (fun k hk m' hm' => by
      rw [copyWord_eq, hword k hk.le]
      unfold wordTurns at hk
      exact (hm'.copyPiece hsize hdisj (by omega)).congr fun j _ => by omega)
  obtain ⟨m₂, hrun₂, hm₂⟩ := forLoop_rule (fun i => decide (i < size % 4)) (· + 1)
    (copyByte src dst (size - size % 4)) (size.toNat % 4) 0 m₁
    (fun k m' => CopiedPart m m' src dst size.toNat fun j =>
      j < 4 * wordTurns size.toNat ∨ (4 * (size.toNat / 4) ≤ j ∧ j < 4 * (size.toNat / 4) + k))
    (by rw [decide_eq_false_iff_not, BitVec.lt_def, hlen, hbyte _ le_rfl]; omega)
    (fun k hk => by rwa [decide_eq_true_iff, BitVec.lt_def, hlen, hbyte k hk.le])
    (hm₁.congr fun j _ => by omega)
    (fun k hk m' hm' => by
      rw [copyByte_eq, hbyte k hk.le, hwords]
      exact (hm'.copyPiece hsize hdisj (by omega)).congr fun j _ => by omega)
  refine ⟨max (wordTurns size.toNat) (size.toNat % 4), m₂, ?_, hm₂.congr fun j _ => by omega⟩
  have hmono₁ := forLoop_mono hrun₁ (Nat.le_max_left _ (size.toNat % 4))
  have hmono₂ := forLoop_mono hrun₂ (Nat.le_max_right (wordTurns size.toNat) _)
  exact Option.bind_eq_some_iff.mpr ⟨m₁, hmono₁, hmono₂⟩

/-! ## The blocks that are copied -/

/-- The call ends and has copied the block. -/
def Copies (m : Ram) (src dst : Address) (size : BitVec 32) : Prop :=
  ∃ fuel m', memcpy fuel m src dst size = some m' ∧ CopiedBlock m m' src dst size.toNat

theorem memcpy_unique {fuel fuel' : ℕ} {m₁ m₂ : Ram} {size : BitVec 32}
    (h₁ : memcpy fuel m src dst size = some m₁) (h₂ : memcpy fuel' m src dst size = some m₂) :
    m₁ = m₂ := by
  unfold memcpy at h₁ h₂
  obtain ⟨n₁, hword₁, hbyte₁⟩ := Option.bind_eq_some_iff.mp h₁
  obtain ⟨n₂, hword₂, hbyte₂⟩ := Option.bind_eq_some_iff.mp h₂
  obtain rfl := forLoop_unique hword₁ hword₂
  exact forLoop_unique hbyte₁ hbyte₂

/-- What lies between the words of the first loop and the bytes of the second one does not arrive. -/
theorem Copies.rest_eq {size : BitVec 32} (h : Copies m src dst size)
    (hdisj : NonOverlapping src dst size.toNat) {j : ℕ} (hfrom : 4 * wordTurns size.toNat ≤ j)
    (hto : j < 4 * (size.toNat / 4)) : m.bytes (dst.at j) = m.bytes (src.at j) := by
  obtain ⟨fuel, m', hrun, hm'⟩ := copied_memcpy m hdisj
  obtain ⟨fuel₂, m₂, hrun₂, hcopied⟩ := h
  obtain rfl := memcpy_unique hrun hrun₂
  have hlt : j < size.toNat := by omega
  rw [← hm'.rest j hlt (by omega)]
  exact hcopied.bytes j hlt

/-- What does not arrive must have been the same before. -/
theorem copies_iff (m : Ram) (src dst : Address) (size : BitVec 32)
    (hdisj : NonOverlapping src dst size.toNat) :
    Copies m src dst size ↔ size.toNat < 8 ∨ ∀ j, 4 * ((size.toNat / 4 + 3) / 4) ≤ j →
      j < 4 * (size.toNat / 4) → m.bytes (dst.at j) = m.bytes (src.at j) := by
  refine ⟨fun h => .inr fun j => h.rest_eq hdisj, fun h => ?_⟩
  obtain ⟨fuel, m', hrun, hm'⟩ := copied_memcpy m hdisj
  refine ⟨fuel, m', hrun, fun j hj => ?_, hm'.frame, hm'.writes⟩
  by_cases hS : j < 4 * wordTurns size.toNat ∨ 4 * (size.toNat / 4) ≤ j
  · exact hm'.bytes j hj hS
  · rw [hm'.rest j hj hS]
    unfold wordTurns at hS
    rcases h with hsmall | hequal
    · omega
    · exact hequal j (by omega) (by omega)

/-- Memory in which the bytes of the address `0x1000` and those behind it are one, and all others
zero. -/
def onesRam : Ram := ⟨fun x => if Within 0x1000 16 x then 1 else 0, [], []⟩

theorem nonOverlapping_pages {size : ℕ} (h : size ≤ 0x1000) :
    NonOverlapping 0x1000 0x2000 size := by
  rintro x ⟨hsrc, hdst⟩
  unfold Within at hsrc hdst
  bv_omega

theorem copies_seven : Copies onesRam 0x1000 0x2000 7 :=
  (copies_iff onesRam 0x1000 0x2000 7 (nonOverlapping_pages (by decide))).mpr (.inl (by decide))

/-- Of eight bytes the last four do not arrive. -/
theorem not_copies_eight : ¬Copies onesRam 0x1000 0x2000 8 := by
  intro h
  have hbyte := h.rest_eq (nonOverlapping_pages (by decide)) (j := 4) (by decide) (by decide)
  exact absurd hbyte (by decide)

end DreamDota
