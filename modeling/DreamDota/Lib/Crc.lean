import Mathlib.Data.List.OfFn
import Mathlib.Logic.Function.Iterate
import Mathlib.Tactic.Common

/-!
# Reflected cyclic redundancy checks

The register of a reflected check takes one bit of the message after the other, and the bytes of a
message begin with their lowest bit. `bitStep` takes one bit, `feed` a list of them.

Two facts serve an implementation that takes more bits at a time: bits can be written into the
register in advance (`iterate_shift_xor`), and `n` bits at once need only the `n` lowest bits of the
register and a shift of the others (`iterate_shift_split`).
-/

namespace Crc

variable {w : ℕ} (poly : BitVec w)

/-- The register takes one bit of the message. -/
def bitStep (crc : BitVec w) (bit : Bool) : BitVec w :=
  if crc.getLsbD 0 ^^ bit then (crc >>> 1) ^^^ poly else crc >>> 1

/-- The register takes a list of bits. -/
def feed (crc : BitVec w) (bits : List Bool) : BitVec w := bits.foldl (bitStep poly) crc

theorem feed_append (crc : BitVec w) (bits bits' : List Bool) :
    feed poly crc (bits ++ bits') = feed poly (feed poly crc bits) bits' := List.foldl_append

/-- The register moves by one place. -/
def shift (crc : BitVec w) : BitVec w := bitStep poly crc false

/-- The `n` lowest bits, the lowest one first. -/
def bits (n : ℕ) (x : BitVec w) : List Bool := (List.range n).map x.getLsbD

theorem bits_succ (n : ℕ) (x : BitVec w) : bits (n + 1) x = x.getLsbD 0 :: bits n (x >>> 1) := by
  simp only [bits, List.range_succ_eq_map, List.map_cons, List.map_map]
  congr 1
  refine List.map_congr_left fun i _ => ?_
  rw [BitVec.getLsbD_ushiftRight, Nat.add_comm 1 i]
  rfl

theorem bits_setWidth {n v : ℕ} (x : BitVec v) (hn : n ≤ w) : bits n (x.setWidth w) = bits n x := by
  refine List.map_congr_left fun i hi => ?_
  have hlt : i < w := (List.mem_range.mp hi).trans_le hn
  simp [hlt]

theorem shift_of_low (crc : BitVec w) (h : crc.getLsbD 0 = true) :
    shift poly crc = (crc >>> 1) ^^^ poly := by simp [shift, bitStep, h]

theorem shift_of_not_low (crc : BitVec w) (h : crc.getLsbD 0 = false) :
    shift poly crc = crc >>> 1 := by simp [shift, bitStep, h]

/-- A word in the register is its lowest bit, which is taken, and a shift of the others. -/
theorem shift_xor (crc x : BitVec w) :
    shift poly (crc ^^^ x) = bitStep poly crc (x.getLsbD 0) ^^^ (x >>> 1) := by
  have hbit : ((crc ^^^ x).getLsbD 0 ^^ false) = (crc.getLsbD 0 ^^ x.getLsbD 0) := by simp
  simp only [shift, bitStep, hbit, BitVec.ushiftRight_xor_distrib]
  split_ifs
  · rw [BitVec.xor_assoc, BitVec.xor_comm (x >>> 1) poly, ← BitVec.xor_assoc]
  · rfl

/-- The bits of a word that is in the register are taken one by one as it moves. -/
theorem iterate_shift_xor (n : ℕ) (crc x : BitVec w) :
    (shift poly)^[n] (crc ^^^ x) = feed poly crc (bits n x) ^^^ (x >>> n) := by
  induction n generalizing crc x with
  | zero => simp [bits, feed]
  | succ n ih =>
    rw [Function.iterate_succ_apply, shift_xor, ih, bits_succ, ← BitVec.shiftRight_add,
      Nat.add_comm 1 n]
    rfl

/-- Clear bits only move the register. -/
theorem feed_clear {n : ℕ} {crc x : BitVec w} (hx : ∀ i < n, x.getLsbD i = false) :
    feed poly crc (bits n x) = (shift poly)^[n] crc := by
  induction n generalizing crc x with
  | zero => rfl
  | succ n ih =>
    have htail : ∀ i < n, (x >>> 1).getLsbD i = false := by
      intro i hi
      rw [BitVec.getLsbD_ushiftRight]
      exact hx _ (by omega)
    rw [bits_succ, hx 0 (Nat.succ_pos n), Function.iterate_succ_apply]
    exact ih htail

/-- A word whose `n` lowest bits are clear is moved by `n` places. -/
theorem iterate_shift_high {n : ℕ} {x : BitVec w} (hx : ∀ i < n, x.getLsbD i = false)
    (crc : BitVec w) : (shift poly)^[n] (crc ^^^ x) = (shift poly)^[n] crc ^^^ (x >>> n) := by
  rw [iterate_shift_xor, feed_clear poly hx]

/-- **Linearity.** Moving the register by `n` places is moving its lowest bits, which a mask
selects, and a shift. -/
theorem iterate_shift_split {n : ℕ} {mask : BitVec w}
    (hmask : ∀ i < w, mask.getLsbD i = decide (i < n)) (crc : BitVec w) :
    (shift poly)^[n] crc = (shift poly)^[n] (crc &&& mask) ^^^ (crc >>> n) := by
  have hsplit : crc = (crc &&& mask) ^^^ (crc &&& ~~~mask) := by
    refine BitVec.eq_of_getLsbD_eq fun i hi => ?_
    simp only [BitVec.getLsbD_xor, BitVec.getLsbD_and, BitVec.getLsbD_not, hi, decide_true,
      Bool.true_and]
    cases crc.getLsbD i <;> cases mask.getLsbD i <;> rfl
  have hclear : ∀ i < n, (crc &&& ~~~mask).getLsbD i = false := by
    intro i hi
    by_cases hw : i < w
    · simp [hmask i hw, hi]
    · exact BitVec.getLsbD_of_ge _ _ (by omega)
  have hhigh : (crc &&& ~~~mask) >>> n = crc >>> n := by
    refine BitVec.eq_of_getLsbD_eq fun i hi => ?_
    rw [BitVec.getLsbD_ushiftRight, BitVec.getLsbD_ushiftRight, BitVec.getLsbD_and,
      BitVec.getLsbD_not]
    by_cases hw : n + i < w
    · have hnone : mask.getLsbD (n + i) = false := by rw [hmask _ hw]; simp
      rw [hnone]
      simp [hw]
    · simp [BitVec.getLsbD_of_ge crc (n + i) (by omega)]
  calc (shift poly)^[n] crc
      = (shift poly)^[n] ((crc &&& mask) ^^^ (crc &&& ~~~mask)) := by rw [← hsplit]
    _ = (shift poly)^[n] (crc &&& mask) ^^^ ((crc &&& ~~~mask) >>> n) :=
        iterate_shift_high poly hclear _
    _ = (shift poly)^[n] (crc &&& mask) ^^^ (crc >>> n) := by rw [hhigh]

theorem ushiftRight_setWidth {v : ℕ} (x : BitVec v) : (x.setWidth w) >>> v = 0#w := by
  refine BitVec.eq_of_getLsbD_eq fun i hi => ?_
  rw [BitVec.getLsbD_ushiftRight, BitVec.getLsbD_setWidth,
    BitVec.getLsbD_of_ge x (v + i) (by omega)]
  simp

/-- A word of `v` bits is written into the register, which moves by `v` places: its bits have been
taken. -/
theorem iterate_shift_word {v : ℕ} (hv : v ≤ w) (crc : BitVec w) (x : BitVec v) :
    (shift poly)^[v] (crc ^^^ x.setWidth w) = feed poly crc (bits v x) := by
  rw [iterate_shift_xor, bits_setWidth x hv, ushiftRight_setWidth, BitVec.xor_zero]

end Crc
