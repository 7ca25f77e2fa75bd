import DreamDota.Lib.Memory

/-!
# `SimpleEncryptBlock` and `SimpleDecryptBlock`

The loops go on as long as `i * 4 <= size - 4`, in unsigned numbers. The difference wraps for a block
of less than four bytes, and then no index is above it.

1. `simpleEncryptBlock`, `simpleDecryptBlock`: the code.
2. `mapped_cryptBlock`: what the loop does with a block of a word or more, `cryptBlock_eq_none`: that it
   has no end with a smaller one.
3. `works_iff`: the blocks for which both functions work.
-/

namespace DreamDota

/-! ## The code -/

/-- `(src ^ '+w3u') + key` -/
def simpleEncrypt (src key : BitVec 32) : BitVec 32 := (src ^^^ 0x2B773375) + key

/-- `(src - key) ^ '+w3u'` -/
def simpleDecrypt (src key : BitVec 32) : BitVec 32 := (src - key) ^^^ 0x2B773375

/-- `blocks[i] = f(blocks[i])`, the body of both loops. -/
def cryptWord (f : BitVec 32 → BitVec 32) (ptr : Address) (i : BitVec 32) (m : Ram) : Ram :=
  let (v, m) := m.loadWord (ptr + i * 4)
  m.storeWord (ptr + i * 4) (f v)

/-- The loop of both functions, which is stopped after `fuel` turns. -/
def cryptBlock (f : BitVec 32 → BitVec 32) (fuel : ℕ) (m : Ram) (ptr : Address)
    (size : BitVec 32) : Option Ram :=
  forLoop (fun i => decide (i * 4 ≤ size - 4)) (· + 1) (cryptWord f ptr) fuel 0 m

/-- `SimpleEncryptBlock` -/
def simpleEncryptBlock (fuel : ℕ) (m : Ram) (ptr : Address) (size key : BitVec 32) : Option Ram :=
  cryptBlock (simpleEncrypt · key) fuel m ptr size

/-- `SimpleDecryptBlock` -/
def simpleDecryptBlock (fuel : ℕ) (m : Ram) (ptr : Address) (size key : BitVec 32) : Option Ram :=
  cryptBlock (simpleDecrypt · key) fuel m ptr size

/-! ## The words of a block -/

theorem simpleDecrypt_simpleEncrypt (src key : BitVec 32) :
    simpleDecrypt (simpleEncrypt src key) key = src := by
  unfold simpleDecrypt simpleEncrypt
  rw [BitVec.add_sub_cancel, BitVec.xor_assoc, BitVec.xor_self, BitVec.xor_zero]

/-- The first `k` words of a block are replaced, and nothing else is accessed. -/
structure Mapped (f : BitVec 32 → BitVec 32) (m m' : Ram) (ptr : Address) (k : ℕ) : Prop where
  words : ∀ j < k, m'.word (ptr.at (4 * j)) = f (m.word (ptr.at (4 * j)))
  frame : ∀ x, ¬Within ptr (4 * k) x → m'.bytes x = m.bytes x
  reads : ∀ x ∈ m'.reads, x ∈ m.reads ∨ Within ptr (4 * k) x
  writes : ∀ x ∈ m'.writes, x ∈ m.writes ∨ Within ptr (4 * k) x

variable {f g : BitVec 32 → BitVec 32} {m m' m'' : Ram} {ptr : Address} {k : ℕ}

theorem cryptWord_reads (f : BitVec 32 → BitVec 32) (ptr : Address) (i : BitVec 32) (m : Ram) :
    (cryptWord f ptr i m).reads = m.reads ++ Ram.cells (ptr + i * 4) 4 := rfl

theorem cryptWord_eq (f : BitVec 32 → BitVec 32) (ptr : Address) (i : BitVec 32) (m : Ram) :
    ∃ r, cryptWord f ptr i m =
      ({ m with reads := r }).store (ptr + i * 4) (Bytes.ofDword (f (m.word (ptr + i * 4)))) :=
  ⟨_, rfl⟩

theorem Mapped.cryptWord (h : Mapped f m m' ptr k) {i : BitVec 32} (hi : i.toNat = k)
    (hk : 4 * k + 4 ≤ 2 ^ 32) : Mapped f m (cryptWord f ptr i m') ptr (k + 1) := by
  have haddr : ptr + i * 4 = ptr.at (4 * k) := by
    have hmul : i * 4 = BitVec.ofNat 32 (4 * k) := by
      apply BitVec.eq_of_toNat_eq
      rw [BitVec.toNat_mul, BitVec.toNat_ofNat, hi, Nat.mul_comm k]
      rfl
    rw [hmul, Address.at]
  have hreads := cryptWord_reads f ptr i m'
  obtain ⟨r, hr⟩ := cryptWord_eq f ptr i m'
  rw [haddr] at hreads hr
  set bs := Bytes.ofDword (f (m'.word (ptr.at (4 * k)))) with hbs
  have hlen : bs.length = 4 := Bytes.length_ofDword _
  have hwithin : ∀ x, Within (ptr.at (4 * k)) 4 x ↔
      4 * k ≤ (x - ptr).toNat ∧ (x - ptr).toNat < 4 * k + 4 := fun x => within_part hk
  have hsame : ∀ x, ¬(4 * k ≤ (x - ptr).toNat ∧ (x - ptr).toNat < 4 * k + 4) →
      (DreamDota.cryptWord f ptr i m').bytes x = m'.bytes x := by
    intro x hx
    rw [hr]
    exact Ram.store_bytes_of_not (by rw [hlen]; exact mt (hwithin x).mp hx)
  -- The word at the index has not been changed before.
  have hword : m'.word (ptr.at (4 * k)) = m.word (ptr.at (4 * k)) := by
    refine congrArg Bytes.dword (Ram.peek_congr fun j hj => ?_)
    rw [at_at]
    exact h.frame _ (by rw [within_at (by omega)]; omega)
  constructor
  · intro j hj
    rcases Nat.lt_succ_iff_lt_or_eq.mp hj with hlt | rfl
    · rw [← h.words j hlt]
      refine congrArg Bytes.dword (Ram.peek_congr fun l hl => ?_)
      rw [at_at]
      exact hsame _ (by rw [toNat_at_sub (by omega)]; omega)
    · have hpeek : (({ m' with reads := r }).store (ptr.at (4 * j)) bs).peek (ptr.at (4 * j)) 4 =
          bs := Ram.peek_store hlen (by decide)
      rw [← hr] at hpeek
      rw [Ram.word, hpeek, hbs, Bytes.dword_ofDword, hword]
  · intro x hx
    have hfar : ¬(x - ptr).toNat < 4 * (k + 1) := hx
    rw [hsame x (by omega)]
    exact h.frame x (show ¬(x - ptr).toNat < 4 * k by omega)
  · intro x hx
    rw [hreads, List.mem_append, Ram.mem_cells (by decide), hwithin] at hx
    rcases hx with hold | ⟨-, hlt⟩
    · exact (h.reads x hold).imp_right fun hin =>
        show (x - ptr).toNat < 4 * (k + 1) from Nat.lt_of_lt_of_le hin (by omega)
    · exact .inr hlt
  · intro x hx
    rw [hr, Ram.mem_store_writes (by omega), hlen, hwithin] at hx
    rcases hx with hold | ⟨-, hlt⟩
    · exact (h.writes x hold).imp_right fun hin =>
        show (x - ptr).toNat < 4 * (k + 1) from Nat.lt_of_lt_of_le hin (by omega)
    · exact .inr hlt

/-! ## The loop -/

theorem mapped_cryptBlock (f : BitVec 32 → BitVec 32) (m : Ram) (ptr : Address)
    {size : BitVec 32} (hsize : 4 ≤ size.toNat) :
    ∃ fuel m', cryptBlock f fuel m ptr size = some m' ∧ Mapped f m m' ptr (size.toNat / 4) := by
  have hlt : size.toNat < 2 ^ 32 := size.isLt
  have hbound : (size - 4).toNat = size.toNat - 4 := by
    rw [BitVec.toNat_sub]
    show (2 ^ 32 - 4 + size.toNat) % 2 ^ 32 = size.toNat - 4
    omega
  have hcount : ∀ k ≤ size.toNat / 4, ((· + 1)^[k] (0 : BitVec 32)).toNat = k := by
    intro k hk
    rw [iterate_add, BitVec.toNat_ofNat]
    show k * 1 % 2 ^ 32 = k
    omega
  have hindex : ∀ k ≤ size.toNat / 4, ((· + 1)^[k] (0 : BitVec 32) * 4).toNat = 4 * k := by
    intro k hk
    rw [BitVec.toNat_mul, hcount k hk]
    show k * 4 % 2 ^ 32 = 4 * k
    omega
  exact ⟨size.toNat / 4, forLoop_rule (fun i => decide (i * 4 ≤ size - 4)) (· + 1)
    (cryptWord f ptr) (size.toNat / 4) 0 m (fun k m' => Mapped f m m' ptr k)
    (by
      rw [decide_eq_false_iff_not, BitVec.le_def, hbound, hindex _ le_rfl]
      omega)
    (fun k hk => by
      rw [decide_eq_true_iff, BitVec.le_def, hbound, hindex k hk.le]
      omega)
    ⟨nofun, fun _ _ => rfl, fun _ hx => .inl hx, fun _ hx => .inl hx⟩
    (fun k hk m' hm' => hm'.cryptWord (hcount k hk.le) (by omega))⟩

/-- The bound is above every index. -/
theorem cryptBlock_eq_none (f : BitVec 32 → BitVec 32) (m : Ram) (ptr : Address)
    {size : BitVec 32} (hsize : size.toNat < 4) (fuel : ℕ) :
    cryptBlock f fuel m ptr size = none := by
  refine forLoop_eq_none (fun i => ?_) fuel 0 m
  have hbound : (size - 4).toNat = 2 ^ 32 - 4 + size.toNat := by
    rw [BitVec.toNat_sub]
    show (2 ^ 32 - 4 + size.toNat) % 2 ^ 32 = 2 ^ 32 - 4 + size.toNat
    omega
  have hindex : (i * 4).toNat ≤ 2 ^ 32 - 4 := by
    rw [BitVec.toNat_mul]
    show i.toNat * 4 % 2 ^ 32 ≤ 2 ^ 32 - 4
    omega
  rw [decide_eq_true_iff, BitVec.le_def, hbound]
  omega

/-! ## Both functions -/

/-- A call that accesses the block only, and leaves the bytes behind its last word as they are. -/
structure CryptsInPlace (m m' : Ram) (ptr : Address) (size : ℕ) : Prop where
  reads : ∀ x ∈ m'.reads, x ∈ m.reads ∨ Within ptr size x
  writes : ∀ x ∈ m'.writes, x ∈ m.writes ∨ Within ptr size x
  tail : ∀ j < size, size - size % 4 ≤ j → m'.bytes (ptr.at j) = m.bytes (ptr.at j)

/-- Both functions work for a block, and the second one restores what the first one has made. -/
structure Works (m : Ram) (ptr : Address) (size key : BitVec 32) : Prop where
  encrypt : ∃ fuel m', simpleEncryptBlock fuel m ptr size key = some m' ∧
    CryptsInPlace m m' ptr size.toNat
  decrypt : ∃ fuel m', simpleDecryptBlock fuel m ptr size key = some m' ∧
    CryptsInPlace m m' ptr size.toNat
  restore : ∃ fuel m' m'', simpleEncryptBlock fuel m ptr size key = some m' ∧
    simpleDecryptBlock fuel m' ptr size key = some m'' ∧
    ∀ j < size.toNat, m''.bytes (ptr.at j) = m.bytes (ptr.at j)

theorem Mapped.inPlace {size : ℕ} (h : Mapped f m m' ptr (size / 4)) (hsize : size < 2 ^ 32) :
    CryptsInPlace m m' ptr size where
  reads := fun x hx => (h.reads x hx).imp_right fun hin => Nat.lt_of_lt_of_le hin (by omega)
  writes := fun x hx => (h.writes x hx).imp_right fun hin => Nat.lt_of_lt_of_le hin (by omega)
  tail := fun j hj htail => h.frame _ (by rw [within_at (by omega)]; omega)

theorem Mapped.restore {size : ℕ} (h : Mapped f m m' ptr (size / 4))
    (h' : Mapped g m' m'' ptr (size / 4)) (hgf : ∀ v, g (f v) = v) (hsize : size < 2 ^ 32) :
    ∀ j < size, m''.bytes (ptr.at j) = m.bytes (ptr.at j) := by
  intro j hj
  by_cases hword : j / 4 < size / 4
  · have heq : m''.word (ptr.at (4 * (j / 4))) = m.word (ptr.at (4 * (j / 4))) := by
      rw [h'.words _ hword, h.words _ hword, hgf]
    have hpeek := congrArg Bytes.ofDword heq
    rw [Ram.ofDword_word, Ram.ofDword_word] at hpeek
    have hbyte := Ram.bytes_of_peek hpeek (Nat.mod_lt j (by decide))
    rw [at_at, Nat.div_add_mod] at hbyte
    exact hbyte
  · have htail : ¬Within ptr (4 * (size / 4)) (ptr.at j) := by
      rw [within_at (by omega)]
      omega
    rw [h'.frame _ htail, h.frame _ htail]

theorem not_works_of_lt {size key : BitVec 32} (hsize : size.toNat < 4) :
    ¬Works m ptr size key := by
  rintro ⟨⟨fuel, m', hrun, -⟩, -, -⟩
  unfold simpleEncryptBlock at hrun
  rw [cryptBlock_eq_none _ m ptr hsize] at hrun
  cases hrun

/-- A block has to have at least one word. -/
theorem works_iff (m : Ram) (ptr : Address) (size key : BitVec 32) :
    Works m ptr size key ↔ 4 ≤ size.toNat := by
  refine ⟨fun h => Nat.le_of_not_lt fun hlt => not_works_of_lt hlt h, fun hsize => ?_⟩
  have hlt : size.toNat < 2 ^ 32 := size.isLt
  obtain ⟨fuel, m', hrun, hm'⟩ := mapped_cryptBlock (simpleEncrypt · key) m ptr hsize
  obtain ⟨fuel₂, m₂, hrun₂, hm₂⟩ := mapped_cryptBlock (simpleDecrypt · key) m ptr hsize
  obtain ⟨fuel₃, m₃, hrun₃, hm₃⟩ := mapped_cryptBlock (simpleDecrypt · key) m' ptr hsize
  refine ⟨⟨fuel, m', hrun, hm'.inPlace hlt⟩, ⟨fuel₂, m₂, hrun₂, hm₂.inPlace hlt⟩,
    max fuel fuel₃, m', m₃, forLoop_mono hrun (Nat.le_max_left _ _),
    forLoop_mono hrun₃ (Nat.le_max_right _ _),
    hm'.restore hm₃ (simpleDecrypt_simpleEncrypt · key) hlt⟩

/-- An empty block. -/
theorem not_works_zero : ¬Works ⟨fun _ => 0, [], []⟩ 0x1000 0 0 := not_works_of_lt (by decide)

end DreamDota
