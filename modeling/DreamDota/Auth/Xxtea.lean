import DreamDota.Lib.Bytes
import DreamDota.Lib.Mixing
import Mathlib.Data.BitVec

/-!
# XXTEA

`XXTEAEncrypt` and `XXTEADecrypt` of `InlineUtils.h`, which work on the bytes in place; a function
that reads or writes outside of the data or the key has the result `none`.

1. `encryptWord_eq`, `decryptWord_eq`: one word, with the neighbours of its ring.
2. `encryptRound_eq`, `decryptRound_eq`: a round, as a list of mixing steps.
3. `encryptRounds_eq`, `decryptRounds_eq`: the two loops; the second one stops when `sum` is 0.
-/

namespace DreamDota

open Bytes

/-! ## The code -/

/-- A key of `ENCRYPT_KEY_SIZE` bytes. -/
structure EncryptKey where
  bytes : List Byte
  length_eq : bytes.length = 16

def DELTA : BitVec 32 := 0x9e300000

/-- `DELTA + 0x779b9`. -/
def delta : BitVec 32 := DELTA + 0x779b9

/-- `MX`, where `k` is the word of the key. -/
def mx (y z sum k : BitVec 32) : BitVec 32 :=
  (((z >>> 5) ^^^ (y <<< 2)) + ((y >>> 3) ^^^ (z <<< 4))) ^^^ ((sum ^^^ y) + (k ^^^ z))

/-- `(p & 3) ^ e`. -/
def keyIndex (p : ℕ) (e : BitVec 32) : ℕ := ((BitVec.ofNat 32 p &&& 3) ^^^ e).toNat

/-- `k[(p & 3) ^ e]`. -/
def keyWord (key : EncryptKey) (p : ℕ) (e : BitVec 32) : Option (BitVec 32) :=
  readDword key.bytes (4 * keyIndex p e)

/-- `e`. -/
def roundE (sum : BitVec 32) : BitVec 32 := (sum >>> 2) &&& 3

/-- The data, and `z` while it is encrypted or `y` while it is decrypted. -/
abbrev XxteaState := List Byte × BitVec 32

/-- `y = v[yp]; z = v[p] += MX`. -/
def encryptWord (key : EncryptKey) (sum : BitVec 32) (p yp : ℕ) (s : XxteaState) :
    Option XxteaState := do
  let (data, z) := s
  let y ← readDword data (4 * yp)
  let z := (← readDword data (4 * p)) + mx y z sum (← keyWord key p (roundE sum))
  let data ← writeDword data (4 * p) z
  return (data, z)

def encryptRound (key : EncryptKey) (n : ℕ) (sum : BitVec 32) (s : XxteaState) :
    Option XxteaState := do
  let s ← (List.range (n - 1)).foldlM (fun s p => encryptWord key sum p (p + 1) s) s
  encryptWord key sum (n - 1) 0 s

/-- `do { … } while (--rounds)`. -/
def encryptRounds (key : EncryptKey) (n : ℕ) : ℕ → BitVec 32 → XxteaState → Option XxteaState
  | 0, _, s => some s
  | rounds + 1, sum, s => do
    let sum := sum + delta
    let s ← encryptRound key n sum s
    encryptRounds key n rounds sum s

/-- `n`, a `uint32_t`. -/
def wordCount (data : List Byte) : ℕ := data.length / 4 % 2 ^ 32

/-- `XXTEAEncrypt`. -/
def xxteaEncrypt (key : EncryptKey) (data : List Byte) : Option (List Byte) :=
  let n := wordCount data
  if n ≠ 0 then do
    let rounds := 6 + 52 / n
    let z ← readDword data (4 * (n - 1))
    let (data, _) ← encryptRounds key n rounds 0 (data, z)
    return data
  else some data

/-- `z = v[zp]; y = v[p] -= MX`. -/
def decryptWord (key : EncryptKey) (sum : BitVec 32) (p zp : ℕ) (s : XxteaState) :
    Option XxteaState := do
  let (data, y) := s
  let z ← readDword data (4 * zp)
  let y := (← readDword data (4 * p)) - mx y z sum (← keyWord key p (roundE sum))
  let data ← writeDword data (4 * p) y
  return (data, y)

def decryptRound (key : EncryptKey) (n : ℕ) (sum : BitVec 32) (s : XxteaState) :
    Option XxteaState := do
  let s ← (List.range (n - 1)).reverse.foldlM (fun s p => decryptWord key sum (p + 1) p s) s
  decryptWord key sum 0 (n - 1) s

/-- `do { … } while ((sum -= DELTA + 0x779b9) != 0)`, for at most `fuel` rounds. -/
def decryptRounds (key : EncryptKey) (n : ℕ) : ℕ → BitVec 32 → XxteaState → Option XxteaState
  | 0, _, _ => none
  | fuel + 1, sum, s => do
    let s ← decryptRound key n sum s
    let sum := sum - delta
    if sum ≠ 0 then decryptRounds key n fuel sum s else return s

/-- `XXTEADecrypt`, with at most `fuel` rounds. -/
def xxteaDecrypt (fuel : ℕ) (key : EncryptKey) (data : List Byte) : Option (List Byte) :=
  let n := wordCount data
  if n ≠ 0 then do
    let rounds := 6 + 52 / n
    let y ← readDword data 0
    let (data, _) ← decryptRounds key n fuel (BitVec.ofNat 32 rounds * delta) (data, y)
    return data
  else some data

/-! ## One word -/

/-- The place after `p` in the ring of `n` words. -/
def next (n p : ℕ) : ℕ := if p + 1 = n then 0 else p + 1

/-- The place before `p`. -/
def prev (n p : ℕ) : ℕ := if p = 0 then n - 1 else p - 1

variable {key : EncryptKey} {n p i : ℕ} {sum : BitVec 32} {v : ℕ → BitVec 32} {tail : List Byte}

theorem next_ne (hn : 2 ≤ n) (p : ℕ) : next n p ≠ p := by
  unfold next
  split_ifs <;> omega

theorem prev_ne (hn : 2 ≤ n) (p : ℕ) : prev n p ≠ p := by
  unfold prev
  split_ifs <;> omega

theorem next_lt (hp : p < n) : next n p < n := by
  unfold next
  split_ifs <;> omega

theorem prev_lt (hp : p < n) : prev n p < n := by
  unfold prev
  split_ifs <;> omega

theorem next_of_lt (hp : p + 1 < n) : next n p = p + 1 := if_neg hp.ne

theorem next_last (hn : 0 < n) : next n (n - 1) = 0 := if_pos (Nat.sub_add_cancel hn)

/-- The words of the key. -/
def keyAt (key : EncryptKey) (j : ℕ) : BitVec 32 := dword ((key.bytes.drop (4 * j)).take 4)

theorem keyWord_eq : keyWord key p (roundE sum) = some (keyAt key (keyIndex p (roundE sum))) := by
  have hlt : keyIndex p (roundE sum) < 2 ^ 2 := by
    have hthree : (3 : BitVec 32).toNat = 3 := rfl
    unfold keyIndex roundE
    rw [BitVec.toNat_xor, BitVec.toNat_and, BitVec.toNat_and, hthree]
    refine Nat.xor_lt_two_pow ?_ ?_
    · exact Nat.and_lt_two_pow _ (by omega)
    · exact Nat.and_lt_two_pow _ (by omega)
  exact readDword_eq (by rw [key.length_eq]; omega)

/-- The step for the word at `p`. -/
def mixAt (key : EncryptKey) (hn : 2 ≤ n) (sum : BitVec 32) (p : ℕ) : Mix ℕ (BitVec 32) where
  place := p
  term v := mx (v (next n p)) (v (prev n p)) sum (keyAt key (keyIndex p (roundE sum)))
  indep v x := by rw [Function.update_of_ne (next_ne hn p), Function.update_of_ne (prev_ne hn p)]

theorem encryptWord_eq (key : EncryptKey) (sum : BitVec 32) (v : ℕ → BitVec 32)
    (tail : List Byte) (hn : 2 ≤ n) (hp : p < n) :
    encryptWord key sum p (next n p) (pack n v ++ tail, v (prev n p)) =
      some (pack n ((mixAt key hn sum p).add v) ++ tail, (mixAt key hn sum p).add v p) := by
  have hplace : (mixAt key hn sum p).add v p = v p + (mixAt key hn sum p).term v :=
    (mixAt key hn sum p).add_place v
  simp only [encryptWord, readDword_pack (next_lt hp), readDword_pack hp, keyWord_eq,
    Option.bind_eq_bind, Option.bind_some, writeDword_pack hp]
  rw [hplace]
  rfl

theorem decryptWord_eq (key : EncryptKey) (sum : BitVec 32) (v : ℕ → BitVec 32)
    (tail : List Byte) (hn : 2 ≤ n) (hp : p < n) :
    decryptWord key sum p (prev n p) (pack n v ++ tail, v (next n p)) =
      some (pack n ((mixAt key hn sum p).sub v) ++ tail, (mixAt key hn sum p).sub v p) := by
  have hplace : (mixAt key hn sum p).sub v p = v p - (mixAt key hn sum p).term v :=
    (mixAt key hn sum p).sub_place v
  simp only [decryptWord, readDword_pack (prev_lt hp), readDword_pack hp, keyWord_eq,
    Option.bind_eq_bind, Option.bind_some, writeDword_pack hp]
  rw [hplace]
  rfl

/-! ## A round -/

/-- The steps of a round. -/
def roundMixes (key : EncryptKey) (hn : 2 ≤ n) (sum : BitVec 32) : List (Mix ℕ (BitVec 32)) :=
  (List.range n).map (mixAt key hn sum)

/-- The loop of `XXTEAEncrypt` over the words before the last one. -/
theorem encryptLoop_eq (key : EncryptKey) (sum : BitVec 32) (v : ℕ → BitVec 32)
    (tail : List Byte) (hn : 2 ≤ n) {k : ℕ} (hk : k < n) :
    (List.range k).foldlM (fun s p => encryptWord key sum p (p + 1) s)
        (pack n v ++ tail, v (prev n 0)) =
      some (pack n (Mix.addAll ((List.range k).map (mixAt key hn sum)) v) ++ tail,
        Mix.addAll ((List.range k).map (mixAt key hn sum)) v (prev n k)) := by
  induction k with
  | zero => rfl
  | succ k ih =>
    have hword := encryptWord_eq key sum
      (Mix.addAll ((List.range k).map (mixAt key hn sum)) v) tail hn (p := k) (by omega)
    rw [next_of_lt hk] at hword
    rw [List.range_succ, List.foldlM_append, ih (by omega), List.map_append, Mix.addAll_append,
      Option.bind_eq_bind, Option.bind_some, List.foldlM_cons, hword]
    rfl

theorem encryptRound_eq (hn : 2 ≤ n) :
    encryptRound key n sum (pack n v ++ tail, v (n - 1)) =
      some (pack n (Mix.addAll (roundMixes key hn sum) v) ++ tail,
        Mix.addAll (roundMixes key hn sum) v (n - 1)) := by
  have hloop := encryptLoop_eq key sum v tail hn (k := n - 1) (by omega)
  have hword := encryptWord_eq key sum
    (Mix.addAll ((List.range (n - 1)).map (mixAt key hn sum)) v) tail hn (p := n - 1) (by omega)
  rw [next_last (by omega)] at hword
  have hmixes : roundMixes key hn sum =
      (List.range (n - 1)).map (mixAt key hn sum) ++ [mixAt key hn sum (n - 1)] := by
    have hrange : List.range n = List.range (n - 1) ++ [n - 1] := by
      rw [← List.range_succ]
      exact congrArg List.range (by omega)
    rw [roundMixes, hrange, List.map_append, List.map_singleton]
  rw [encryptRound, hmixes, Mix.addAll_append]
  rw [show prev n 0 = n - 1 from rfl] at hloop
  rw [hloop]
  exact hword

/-- The loop of `XXTEADecrypt` over the words after the first one. -/
theorem decryptLoop_eq (key : EncryptKey) (sum : BitVec 32) (v : ℕ → BitVec 32)
    (tail : List Byte) (hn : 2 ≤ n) {k : ℕ} (hk : k < n) :
    (List.range k).reverse.foldlM (fun s p => decryptWord key sum (p + 1) p s)
        (pack n v ++ tail, v (next n k)) =
      some (pack n (Mix.subAll ((List.range' 1 k).map (mixAt key hn sum)) v) ++ tail,
        Mix.subAll ((List.range' 1 k).map (mixAt key hn sum)) v (next n 0)) := by
  induction k generalizing v with
  | zero => rfl
  | succ k ih =>
    have hword := decryptWord_eq key sum v tail hn hk
    have ih := ih ((mixAt key hn sum (k + 1)).sub v) (by omega)
    rw [next_of_lt hk] at ih
    rw [show prev n (k + 1) = k from rfl] at hword
    rw [List.range_succ, List.reverse_append, List.reverse_singleton, List.singleton_append,
      List.foldlM_cons, hword, Option.bind_eq_bind, Option.bind_some, ih, List.range'_1_concat,
      List.map_append, Mix.subAll_append, Nat.add_comm 1 k]
    rfl

theorem decryptRound_eq (hn : 2 ≤ n) :
    decryptRound key n sum (pack n v ++ tail, v 0) =
      some (pack n (Mix.subAll (roundMixes key hn sum) v) ++ tail,
        Mix.subAll (roundMixes key hn sum) v 0) := by
  have hloop := decryptLoop_eq key sum v tail hn (k := n - 1) (by omega)
  have hword := decryptWord_eq key sum
    (Mix.subAll ((List.range' 1 (n - 1)).map (mixAt key hn sum)) v) tail hn (p := 0) (by omega)
  rw [show prev n 0 = n - 1 from rfl] at hword
  rw [next_last (by omega)] at hloop
  have hmixes : roundMixes key hn sum =
      mixAt key hn sum 0 :: (List.range' 1 (n - 1)).map (mixAt key hn sum) := by
    have hrange : List.range n = 0 :: List.range' 1 (n - 1) :=
      calc List.range n = List.range' 0 (n - 1 + 1) := by
            rw [List.range_eq_range', Nat.sub_add_cancel (by omega)]
        _ = 0 :: List.range' 1 (n - 1) := List.range'_succ
    rw [roundMixes, hrange, List.map_cons]
  rw [decryptRound, hmixes, hloop]
  exact hword

/-! ## The rounds -/

/-- The steps of the rounds `i + 1, …, i + r`. -/
def schedule (key : EncryptKey) (hn : 2 ≤ n) (i r : ℕ) : List (Mix ℕ (BitVec 32)) :=
  (List.range' (i + 1) r).flatMap fun j => roundMixes key hn (BitVec.ofNat 32 j * delta)

theorem ofNat_succ_mul (i : ℕ) :
    BitVec.ofNat 32 (i + 1) * delta = BitVec.ofNat 32 i * delta + delta := by
  have hone : BitVec.ofNat 32 1 = 1 := rfl
  rw [BitVec.ofNat_add, hone, add_mul, one_mul]

theorem encryptRounds_eq (key : EncryptKey) (v : ℕ → BitVec 32) (tail : List Byte) (hn : 2 ≤ n)
    (i r : ℕ) :
    encryptRounds key n r (BitVec.ofNat 32 i * delta) (pack n v ++ tail, v (n - 1)) =
      some (pack n (Mix.addAll (schedule key hn i r) v) ++ tail,
        Mix.addAll (schedule key hn i r) v (n - 1)) := by
  induction r generalizing i v with
  | zero => rfl
  | succ r ih =>
    have hmixes : schedule key hn i (r + 1) =
        roundMixes key hn (BitVec.ofNat 32 (i + 1) * delta) ++ schedule key hn (i + 1) r := by
      rw [schedule, List.range'_succ, List.flatMap_cons, schedule]
    rw [encryptRounds]
    simp only [← ofNat_succ_mul, encryptRound_eq hn, Option.bind_eq_bind, Option.bind_some]
    rw [ih, hmixes, Mix.addAll_append]

/-- `delta` is odd, so that `sum` comes back to 0 only after all of the rounds. -/
theorem ofNat_mul_delta_ne_zero : ∀ j < 59, 0 < j → BitVec.ofNat 32 j * delta ≠ 0 := by
  decide

theorem decryptRounds_succ {s s' : XxteaState} (fuel : ℕ)
    (h : decryptRound key n sum s = some s') :
    decryptRounds key n (fuel + 1) sum s =
      if sum - delta ≠ 0 then decryptRounds key n fuel (sum - delta) s' else some s' := by
  rw [decryptRounds, h]
  rfl

/-- The loop stops after exactly `r` rounds. -/
theorem decryptRounds_eq (key : EncryptKey) (v : ℕ → BitVec 32) (tail : List Byte) (hn : 2 ≤ n)
    {r : ℕ} (hpos : 0 < r) (hr : r < 59) (fuel : ℕ) :
    decryptRounds key n fuel (BitVec.ofNat 32 r * delta) (pack n v ++ tail, v 0) =
      if r ≤ fuel then some (pack n (Mix.subAll (schedule key hn 0 r) v) ++ tail,
        Mix.subAll (schedule key hn 0 r) v 0) else none := by
  induction r generalizing fuel v with
  | zero => exact absurd hpos (Nat.lt_irrefl 0)
  | succ r ih =>
    cases fuel with
    | zero => rw [decryptRounds, if_neg (Nat.not_succ_le_zero r)]
    | succ fuel =>
      have hsum : BitVec.ofNat 32 (r + 1) * delta - delta = BitVec.ofNat 32 r * delta := by
        rw [ofNat_succ_mul, BitVec.add_sub_cancel]
      have hmixes : schedule key hn 0 (r + 1) =
          schedule key hn 0 r ++ roundMixes key hn (BitVec.ofNat 32 (r + 1) * delta) := by
        rw [schedule, List.range'_1_concat, List.flatMap_append, List.flatMap_singleton, schedule,
          Nat.zero_add, Nat.add_comm 1 r]
      simp only [decryptRounds_succ fuel (decryptRound_eq hn), hsum, Nat.add_le_add_iff_right]
      rcases Nat.eq_zero_or_pos r with rfl | hr0
      · have hzero : ¬ BitVec.ofNat 32 0 * delta ≠ 0 := by decide
        have hnil : schedule key hn 0 0 = [] := rfl
        rw [if_neg hzero, if_pos (Nat.zero_le fuel), hmixes, Mix.subAll_append, hnil,
          Mix.subAll_nil]
      · rw [if_pos (ofNat_mul_delta_ne_zero r (by omega) hr0), ih _ hr0 (by omega), hmixes,
          Mix.subAll_append]

/-! ## The round trip -/

variable {data : List Byte}

/-- The number of rounds for `n` words. -/
theorem rounds_lt (hn : 2 ≤ n) : 6 + 52 / n < 59 := by
  have hle : 52 / n ≤ 52 / 2 := Nat.div_le_div_left hn (by omega)
  omega

theorem wordCount_pack (hn : n < 2 ^ 32) (htail : tail.length < 4) :
    wordCount (pack n v ++ tail) = n := by
  rw [wordCount, List.length_append, length_pack, show (4 * n + tail.length) / 4 = n by omega]
  exact Nat.mod_eq_of_lt hn

theorem xxteaEncrypt_eq (hn : 2 ≤ n) (hlt : n < 2 ^ 32) (htail : tail.length < 4) :
    xxteaEncrypt key (pack n v ++ tail) =
      some (pack n (Mix.addAll (schedule key hn 0 (6 + 52 / n)) v) ++ tail) := by
  have hrounds := encryptRounds_eq key v tail hn 0 (6 + 52 / n)
  rw [show BitVec.ofNat 32 0 * delta = 0 by decide] at hrounds
  have hne : n ≠ 0 := by omega
  simp only [xxteaEncrypt, wordCount_pack hlt htail, hne, ne_eq, not_false_eq_true, ↓reduceIte,
    readDword_pack (show n - 1 < n by omega), Option.bind_eq_bind, Option.bind_some, hrounds]
  rfl

theorem xxteaDecrypt_eq (hn : 2 ≤ n) (hlt : n < 2 ^ 32) (htail : tail.length < 4) (fuel : ℕ) :
    xxteaDecrypt fuel key (pack n v ++ tail) =
      if 6 + 52 / n ≤ fuel then
        some (pack n (Mix.subAll (schedule key hn 0 (6 + 52 / n)) v) ++ tail)
      else none := by
  have hrounds := decryptRounds_eq key v tail hn (r := 6 + 52 / n)
    (Nat.add_pos_left (by omega) _) (rounds_lt hn) fuel
  have hread : readDword (pack n v ++ tail) (4 * 0) = some (v 0) := readDword_pack (by omega)
  have hne : n ≠ 0 := by omega
  simp only [xxteaDecrypt, wordCount_pack hlt htail, hne, ne_eq, not_false_eq_true, ↓reduceIte,
    hread, Option.bind_eq_bind, Option.bind_some, hrounds]
  split_ifs <;> rfl

/-- Only whole words have been changed. -/
def KeepsTail (data data' : List Byte) : Prop :=
  data'.length = data.length ∧
    data'.drop (4 * (data.length / 4)) = data.drop (4 * (data.length / 4))

/-- The results `enc` and `dec` of the two routines are taken back by the other one, and the second
routine makes exactly `6 + 52 / n` rounds. -/
def XxteaRoundTrip (key : EncryptKey) (data : List Byte) : Prop :=
  ∃ enc dec, KeepsTail data enc ∧ KeepsTail data dec ∧
    xxteaEncrypt key data = some enc ∧ xxteaEncrypt key dec = some data ∧
    (∀ fuel ≥ 6 + 52 / (data.length / 4),
      xxteaDecrypt fuel key enc = some data ∧ xxteaDecrypt fuel key data = some dec) ∧
    (2 ≤ data.length / 4 → ∀ fuel < 6 + 52 / (data.length / 4), xxteaDecrypt fuel key data = none)

theorem keepsTail_pack (w : ℕ → BitVec 32) (htail : tail.length < 4) :
    KeepsTail (pack n v ++ tail) (pack n w ++ tail) := by
  have hcount : (pack n v ++ tail).length / 4 = n := by
    rw [List.length_append, length_pack]
    omega
  unfold KeepsTail
  rw [hcount, List.drop_left' length_pack, List.drop_left' length_pack, List.length_append,
    List.length_append, length_pack, length_pack]
  exact ⟨rfl, rfl⟩

/-- Data of less than a word is left alone. -/
theorem xxteaRoundTrip_short (h : data.length < 4) : XxteaRoundTrip key data := by
  have hcount : data.length / 4 = 0 := Nat.div_eq_of_lt h
  have hzero : wordCount data = 0 := by rw [wordCount, hcount, Nat.zero_mod]
  have henc : xxteaEncrypt key data = some data := by
    simp only [xxteaEncrypt, hzero, ne_eq, not_true_eq_false, ↓reduceIte]
  have hdec (fuel : ℕ) : xxteaDecrypt fuel key data = some data := by
    simp only [xxteaDecrypt, hzero, ne_eq, not_true_eq_false, ↓reduceIte]
  refine ⟨data, data, ⟨rfl, rfl⟩, ⟨rfl, rfl⟩, henc, henc, fun fuel _ => ⟨hdec fuel, hdec fuel⟩, ?_⟩
  intro htwo
  omega

theorem xxteaRoundTrip_pack (hn : 2 ≤ n) (hlt : n < 2 ^ 32) (htail : tail.length < 4) :
    XxteaRoundTrip key (pack n v ++ tail) := by
  have hcount : (pack n v ++ tail).length / 4 = n := by
    rw [List.length_append, length_pack]
    omega
  unfold XxteaRoundTrip
  rw [hcount]
  refine ⟨_, _, keepsTail_pack _ htail, keepsTail_pack _ htail, xxteaEncrypt_eq hn hlt htail, ?_,
    fun fuel hfuel => ⟨?_, (xxteaDecrypt_eq hn hlt htail fuel).trans (if_pos hfuel)⟩,
    fun _ fuel hfuel => ?_⟩
  · rw [xxteaEncrypt_eq hn hlt htail, Mix.addAll_subAll]
  · rw [xxteaDecrypt_eq hn hlt htail, if_pos hfuel, Mix.subAll_addAll]
  · rw [xxteaDecrypt_eq hn hlt htail, if_neg (Nat.not_le.mpr hfuel)]

/-- XXTEA is undone, except on a single word. -/
theorem xxteaRoundTrip (hsize : data.length ≤ 2 ^ 32) (hone : data.length / 4 ≠ 1) :
    XxteaRoundTrip key data := by
  rcases Nat.lt_or_ge data.length 4 with hshort | hlong
  · exact xxteaRoundTrip_short hshort
  · obtain ⟨n, hn⟩ : ∃ n, data.length / 4 = n := ⟨_, rfl⟩
    obtain ⟨words, tail, rfl, hwords, htail⟩ := exists_append (b := data) (k := 4 * n) (by omega)
    obtain ⟨v, rfl⟩ := exists_pack hwords
    exact xxteaRoundTrip_pack (by omega) (by omega) (by omega)

/-- A buffer of two words and two more bytes. -/
theorem xxteaRoundTrip_ten_bytes :
    XxteaRoundTrip ⟨List.replicate 16 5, rfl⟩ (List.replicate 10 7) :=
  xxteaRoundTrip (by decide) (by decide)

end DreamDota
