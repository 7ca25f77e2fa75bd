import DreamDota.Auth.ThreadPipe
import DreamDota.Lib.Lehmer
import Mathlib.NumberTheory.LucasPrimality
import Mathlib.Tactic.NormNum.Prime
import Mathlib.Tactic.NormNum.PowMod
import Mathlib.Tactic.ReduceModChar

/-!
# The keys of a session

`InlineUtils::Rand` is a multiplicative congruential generator whose product is formed in 32 bits, and
`GenerateKeyData` takes the four words of a key from it.

1. `rand`, `generateKeyData`: the code.
2. `generator_ne_zero`, `generator_ne`: the generator with exact numbers.
3. `exactRun_iff`: the runs of `Rand` in which it is that generator. None of them is long enough for a
   key.
-/

namespace DreamDota

/-! ## The code -/

def RAND_A : BitVec 32 := 28657
def RAND_C : BitVec 32 := 0
def RAND_M : BitVec 32 := 2971215073

/-- `Rand`: the new seed, which is also the result. -/
def rand (seed : BitVec 32) : BitVec 32 := (seed * RAND_A + RAND_C) % RAND_M

/-- The first `n` entries of `key32`. -/
def key32 : ℕ → BitVec 32 → List (BitVec 32)
  | 0, _ => []
  | n + 1, seed => rand seed :: key32 n (rand seed)

/-- What `GenerateKeyData` returns and leaves in its arguments. -/
structure KeyData where
  rsaResult : ℤ
  key : List Byte
  keyData : List Byte

/-- `GenerateKeyData`. `publicEncrypt` is `RSA_PublicEncrypt`: its result and what it writes. -/
def generateKeyData (publicEncrypt : List Byte → List Byte → ℤ × List Byte) (seed : BitVec 32) :
    KeyData :=
  let key := (key32 4 seed).flatMap Bytes.ofDword
  let keyData := List.replicate RSA_SIZE 0
  let (rsaResult, keyData) := publicEncrypt key keyData
  ⟨rsaResult, key, keyData⟩

/-! ## The generator with exact numbers -/

/-- `x -> 28657 * x mod 2971215073` -/
def generator (x : ℕ) : ℕ := Lehmer.step 28657 2971215073 x

theorem eq_of_dvd_pred {q : ℕ} (hq : q.Prime) (h : q ∣ 2971215073 - 1) :
    q = 2 ∨ q = 3 ∨ q = 7 ∨ q = 23 ∨ q = 139 ∨ q = 461 := by
  have hfac : (2971215073 - 1 : ℕ) = 2 ^ 5 * 3 ^ 2 * 7 * 23 * 139 * 461 := by norm_num
  have hprime : ∀ p : ℕ, p.Prime → q ∣ p → q = p := fun p hp hqp =>
    (Nat.prime_dvd_prime_iff_eq hq hp).mp hqp
  rw [hfac, hq.dvd_mul, hq.dvd_mul, hq.dvd_mul, hq.dvd_mul, hq.dvd_mul] at h
  rcases h with ((((h | h) | h) | h) | h) | h
  · exact .inl (hprime 2 Nat.prime_two (hq.dvd_of_dvd_pow h))
  · exact .inr (.inl (hprime 3 Nat.prime_three (hq.dvd_of_dvd_pow h)))
  · exact .inr (.inr (.inl (hprime 7 (by norm_num) h)))
  · exact .inr (.inr (.inr (.inl (hprime 23 (by norm_num) h))))
  · exact .inr (.inr (.inr (.inr (.inl (hprime 139 (by norm_num) h)))))
  · exact .inr (.inr (.inr (.inr (.inr (hprime 461 (by norm_num) h)))))

/-- By Lucas's test with the primitive root `5`. -/
theorem prime_modulus : Nat.Prime 2971215073 := by
  refine lucas_primality 2971215073 5 (by reduce_mod_char) fun q hq hdvd => ?_
  rcases eq_of_dvd_pred hq hdvd with rfl | rfl | rfl | rfl | rfl | rfl
  all_goals
    reduce_mod_char
    decide

variable {x : ℕ}

theorem generator_ne_zero (h0 : x ≠ 0) (hx : x < 2971215073) (k : ℕ) : generator^[k] x ≠ 0 :=
  Lehmer.iterate_step_ne_zero prime_modulus (by decide) h0 hx k

theorem generator_lt (hx : x < 2971215073) (k : ℕ) : generator^[k] x < 2971215073 := by
  cases k with
  | zero => exact hx
  | succ k =>
    rw [Function.iterate_succ_apply']
    exact Nat.mod_lt _ (by decide)

/-- Four consecutive values are different. -/
theorem generator_ne (h0 : x ≠ 0) (hx : x < 2971215073) {i j : ℕ} (hij : i < j) (hj : j < i + 4) :
    generator^[i] x ≠ generator^[j] x := by
  obtain ⟨d, rfl⟩ := Nat.exists_eq_add_of_le' hij.le
  have hpow : 1 ≤ 28657 ^ d ∧ ¬2971215073 ∣ 28657 ^ d - 1 := by
    have hd : d = 1 ∨ d = 2 ∨ d = 3 := by omega
    rcases hd with rfl | rfl | rfl <;> decide
  rw [Function.iterate_add_apply]
  exact (Lehmer.step_ne_of_coprime prime_modulus (generator_ne_zero h0 hx i) (generator_lt hx i)
    hpow.1 hpow.2).symm

/-! ## Runs of the code -/

theorem toNat_rand (seed : BitVec 32) :
    (rand seed).toNat = Lehmer.register 28657 2971215073 (2 ^ 32) seed.toNat := by
  have hzero : seed * RAND_A + RAND_C = seed * RAND_A := BitVec.add_zero _
  rw [rand, hzero, BitVec.toNat_umod, BitVec.toNat_mul, Nat.mul_comm]
  rfl

theorem toNat_iterate_rand (seed : BitVec 32) (k : ℕ) :
    (rand^[k] seed).toNat = (Lehmer.register 28657 2971215073 (2 ^ 32))^[k] seed.toNat := by
  induction k with
  | zero => rfl
  | succ k ih => rw [Function.iterate_succ_apply', toNat_rand, ih, Function.iterate_succ_apply']

/-- `n` calls of `Rand` give the values of the generator. -/
def ExactRun (seed : BitVec 32) (n : ℕ) : Prop :=
  ∀ i ≤ n, (rand^[i] seed).toNat = generator^[i] seed.toNat

/-- The four words of the key are four consecutive elements of the orbit of the seed, pairwise
different and not zero. -/
def KeyFromOrbit (publicEncrypt : List Byte → List Byte → ℤ × List Byte) (seed : BitVec 32) : Prop :=
  ∃ k, (∀ i < 4, ∃ v, Bytes.readDword (generateKeyData publicEncrypt seed).key (4 * i) = some v ∧
      v.toNat = generator^[k + i] seed.toNat ∧ v ≠ 0) ∧
    ∀ i < 4, ∀ j < 4, i ≠ j → generator^[k + i] seed.toNat ≠ generator^[k + j] seed.toNat

theorem exactRun_iff_small (seed : BitVec 32) (n : ℕ) :
    ExactRun seed n ↔ ∀ i < n, generator^[i] seed.toNat ≤ 149874 := by
  have hrun := Lehmer.iterate_register_iff (a := 28657) (m := 2971215073) (w := 2 ^ 32)
    (by decide) (by decide) (by decide) (by decide) seed.isLt n
  unfold ExactRun
  simp only [toNat_iterate_rand]
  refine hrun.trans (forall₂_congr fun i _ => ?_)
  show 28657 * generator^[i] seed.toNat < 2 ^ 32 ↔ _
  omega

/-- The number of steps without an overflow. -/
def exactSteps (seed : ℕ) : ℕ :=
  if seed = 103682 then 3
  else if seed ≤ 5 ∨ (103682 ≤ seed ∧ seed ≤ 103687) then 2
  else if seed ≤ 149874 then 1
  else 0

theorem forall_lt_iff_le {P : ℕ → Prop} {n e : ℕ} (hbelow : ∀ i < e, P i) (he : ¬P e) :
    (∀ i < n, P i) ↔ n ≤ e :=
  ⟨fun h => Nat.le_of_not_lt fun hlt => he (h e hlt), fun h i hi => hbelow i (hi.trans_le h)⟩

/-- The first value that is too large for the register. -/
theorem exactSteps_spec (h0 : x ≠ 0) (hx : x < 2971215073) :
    (∀ i < exactSteps x, generator^[i] x ≤ 149874) ∧ ¬generator^[exactSteps x] x ≤ 149874 := by
  unfold exactSteps
  split_ifs with h3 h2 h1
  · subst h3
    decide
  · have hcases : x = 1 ∨ x = 2 ∨ x = 3 ∨ x = 4 ∨ x = 5 ∨ x = 103683 ∨ x = 103684 ∨ x = 103685 ∨
        x = 103686 ∨ x = 103687 := by omega
    rcases hcases with rfl | rfl | rfl | rfl | rfl | rfl | rfl | rfl | rfl | rfl <;> decide
  · refine ⟨fun i hi => ?_, ?_⟩
    · obtain rfl := Nat.lt_one_iff.mp hi
      exact h1
    · show ¬28657 * x % 2971215073 ≤ 149874
      rcases Nat.lt_or_ge x 103682 with hlow | hhigh
      · rw [Nat.mod_eq_of_lt (by omega)]
        omega
      · rw [Nat.mod_eq_sub_mod (by omega), Nat.mod_eq_of_lt (by omega)]
        omega
  · exact ⟨nofun, h1⟩

theorem exactRun_iff_le (seed : BitVec 32) (h0 : seed.toNat ≠ 0) (hM : seed.toNat < 2971215073)
    (n : ℕ) : ExactRun seed n ↔ n ≤ exactSteps seed.toNat := by
  obtain ⟨hbelow, hover⟩ := exactSteps_spec h0 hM
  rw [exactRun_iff_small, forall_lt_iff_le hbelow hover]

theorem exactSteps_le_two (h : x ≠ 103682) : exactSteps x ≤ 2 := by
  unfold exactSteps
  split_ifs <;> omega

/-- The multiplier is odd, and the product in 32 bits determines the seed: `615686417` is the inverse
of the multiplier. -/
theorem eq_of_product {c : ℕ} (hx : x < 2 ^ 32) (h : 28657 * x % 2 ^ 32 = c) :
    x = 615686417 * c % 2 ^ 32 := by
  have hinverse : 615686417 * 28657 * x = x + 2 ^ 32 * (4108 * x) := by ring
  rw [← h, Nat.mul_mod_mod, ← Nat.mul_assoc, hinverse, Nat.add_mul_mod_self_left,
    Nat.mod_eq_of_lt hx]

/-- The two products that give zero belong to zero and to a number above the modulus. -/
theorem iterate_rand_ne_zero {seed : BitVec 32} (h0 : seed ≠ 0) (hM : seed.toNat < 2971215073)
    (k : ℕ) : rand^[k] seed ≠ 0 := by
  induction k generalizing seed with
  | zero => exact h0
  | succ k ih =>
    have hstep := toNat_rand seed
    refine @ih (rand seed) (fun hzero => ?_) ?_
    · have hprod : 28657 * seed.toNat % 2 ^ 32 % 2971215073 = 0 := by
        rw [hzero] at hstep
        exact hstep.symm
      have hpos : seed.toNat ≠ 0 := fun hseed => h0 (BitVec.eq_of_toNat_eq hseed)
      have hcases : 28657 * seed.toNat % 2 ^ 32 = 0 ∨
          28657 * seed.toNat % 2 ^ 32 = 2971215073 := by
        generalize 28657 * seed.toNat = y at hprod ⊢
        omega
      rcases hcases with hcase | hcase
      · exact hpos (eq_of_product seed.isLt hcase)
      · have hseed := eq_of_product seed.isLt hcase
        omega
    · rw [hstep]
      exact Nat.mod_lt _ (by decide)

/-! ## The key -/

theorem readDword_key (publicEncrypt : List Byte → List Byte → ℤ × List Byte) (seed : BitVec 32)
    {i : ℕ} (hi : i < 4) :
    Bytes.readDword (generateKeyData publicEncrypt seed).key (4 * i) =
      some (rand^[i] (rand seed)) := by
  have hpack : (generateKeyData publicEncrypt seed).key =
      Bytes.pack 4 (fun i => rand^[i] (rand seed)) ++ [] := (List.append_nil _).symm
  rw [hpack, Bytes.readDword_pack hi]

/-- The first word of the key would have to be `103682`, and no seed leads to it. -/
theorem not_keyFromOrbit (publicEncrypt : List Byte → List Byte → ℤ × List Byte)
    (seed : BitVec 32) (hM : seed.toNat < 2971215073) : ¬KeyFromOrbit publicEncrypt seed := by
  rintro ⟨k, hwords, -⟩
  have hvalue : ∀ i < 4, (rand^[i] (rand seed)).toNat = generator^[k + i] seed.toNat ∧
      rand^[i] (rand seed) ≠ 0 := by
    intro i hi
    obtain ⟨v, hv, horbit⟩ := hwords i hi
    rw [readDword_key _ _ hi] at hv
    obtain rfl := Option.some.inj hv
    exact horbit
  obtain ⟨hfirst, hne⟩ := hvalue 0 (by decide)
  have hrun : ExactRun (rand seed) 3 := by
    intro i hi
    rw [(hvalue i (by omega)).1, Nat.add_comm, Function.iterate_add_apply]
    exact congrArg (generator^[i]) hfirst.symm
  have hlt : (rand seed).toNat < 2971215073 := by
    rw [toNat_rand]
    exact Nat.mod_lt _ (by decide)
  have hne' : (rand seed).toNat ≠ 0 := fun hzero => hne (BitVec.eq_of_toNat_eq hzero)
  have hsteps := (exactRun_iff_le (rand seed) hne' hlt 3).mp hrun
  have hword : (rand seed).toNat = 103682 := by
    by_contra hother
    have := exactSteps_le_two hother
    omega
  rw [toNat_rand] at hword
  have hmod : 28657 * seed.toNat % 2 ^ 32 % 2971215073 = 103682 := hword
  have hprod : 28657 * seed.toNat % 2 ^ 32 = 103682 ∨
      28657 * seed.toNat % 2 ^ 32 = 103682 + 2971215073 := by
    generalize 28657 * seed.toNat = y at hmod ⊢
    omega
  have hseed := hprod.imp (eq_of_product seed.isLt) (eq_of_product seed.isLt)
  omega

/-- How many steps are exact, and that they are too few for a key. -/
theorem exactRun_iff (publicEncrypt : List Byte → List Byte → ℤ × List Byte) (seed : BitVec 32)
    (h0 : 1 ≤ seed.toNat) (hM : seed.toNat ≤ 2971215072) :
    (∀ n, ExactRun seed n ↔ n ≤ exactSteps seed.toNat) ∧ ¬KeyFromOrbit publicEncrypt seed :=
  ⟨exactRun_iff_le seed (Nat.ne_of_gt h0) (Nat.lt_succ_of_le hM),
    not_keyFromOrbit publicEncrypt seed (Nat.lt_succ_of_le hM)⟩

theorem exactRun_iff_one : (∀ n, ExactRun 1 n ↔ n ≤ exactSteps 1) ∧
    ¬KeyFromOrbit (fun _ keyData => (128, keyData)) 1 :=
  exactRun_iff _ 1 (by decide) (by decide)

/-- Three steps from the seed `1`. -/
theorem not_exactRun_one : ¬ExactRun 1 3 ∧ ¬KeyFromOrbit (fun _ keyData => (128, keyData)) 1 := by
  refine ⟨fun h => ?_, not_keyFromOrbit _ 1 (by decide)⟩
  exact absurd (h 3 le_rfl) (by decide)

end DreamDota
