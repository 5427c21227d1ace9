import Mathlib.Data.List.Basic
import Mathlib.Algebra.Group.Nat.Defs

/-! # Octets

Big-endian numbers, the octets of a machine word, and the masking of a text by the octets of a key.
-/

namespace Octets

/-! ## Big-endian numbers -/

def bigEndian : Nat → Nat → List UInt8
  | 0, _ => []
  | width + 1, n => UInt8.ofNat (n / 256 ^ width) :: bigEndian width n

def ofBigEndian : List UInt8 → Nat
  | [] => 0
  | b :: bs => b.toNat * 256 ^ bs.length + ofBigEndian bs

@[simp] theorem length_bigEndian (width n : Nat) : (bigEndian width n).length = width := by
  induction width with
  | zero => rfl
  | succ width ih => rw [bigEndian, List.length_cons, ih]

theorem ofBigEndian_bigEndian_mod (width n : Nat) :
    ofBigEndian (bigEndian width n) = n % 256 ^ width := by
  induction width with
  | zero => exact (Nat.mod_one n).symm
  | succ width ih =>
    have hOctet : (UInt8.ofNat (n / 256 ^ width)).toNat = n / 256 ^ width % 256 :=
      UInt8.toNat_ofNat'
    rw [bigEndian, ofBigEndian, ih, length_bigEndian, hOctet, Nat.pow_succ, Nat.mod_mul,
      Nat.mul_comm, Nat.add_comm]

theorem ofBigEndian_bigEndian {width n : Nat} (h : n < 256 ^ width) :
    ofBigEndian (bigEndian width n) = n := by
  rw [ofBigEndian_bigEndian_mod, Nat.mod_eq_of_lt h]

theorem drop_bigEndian (width n skip : Nat) :
    (bigEndian (width + skip) n).drop skip = bigEndian width n := by
  induction skip with
  | zero => rfl
  | succ skip ih => rw [← Nat.add_assoc, bigEndian, List.drop_succ_cons, ih]

theorem ofBigEndian_lt (bs : List UInt8) : ofBigEndian bs < 256 ^ bs.length := by
  induction bs with
  | nil => decide
  | cons b bs ih =>
    have hByte := b.toNat_lt
    have hMul : b.toNat * 256 ^ bs.length ≤ 255 * 256 ^ bs.length :=
      Nat.mul_le_mul_right _ (by omega)
    rw [ofBigEndian, List.length_cons, Nat.pow_succ]
    omega

/-- The octets above the width are not written. -/
theorem bigEndian_add (width n m : Nat) :
    bigEndian width (n * 256 ^ width + m) = bigEndian width m := by
  induction width generalizing n with
  | zero => rfl
  | succ width ih =>
    have hShift : n * 256 ^ (width + 1) = n * 256 * 256 ^ width := by
      rw [Nat.pow_succ, Nat.mul_comm (256 ^ width), Nat.mul_assoc]
    have hPos : 0 < 256 ^ width := Nat.pow_pos (by decide)
    have hFirst : (n * 256 ^ (width + 1) + m) / 256 ^ width = n * 256 + m / 256 ^ width := by
      rw [hShift, Nat.mul_comm, Nat.mul_add_div hPos]
    have hByte : UInt8.ofNat (n * 256 + m / 256 ^ width) = UInt8.ofNat (m / 256 ^ width) := by
      apply UInt8.toNat.inj
      rw [UInt8.toNat_ofNat', UInt8.toNat_ofNat']
      omega
    rw [bigEndian, bigEndian, hFirst, hByte, hShift, ih]

theorem bigEndian_ofBigEndian (bs : List UInt8) : bigEndian bs.length (ofBigEndian bs) = bs := by
  induction bs with
  | nil => rfl
  | cons b bs ih =>
    have hPos : 0 < 256 ^ bs.length := Nat.pow_pos (by decide)
    have hFirst : (b.toNat * 256 ^ bs.length + ofBigEndian bs) / 256 ^ bs.length = b.toNat := by
      rw [Nat.mul_comm, Nat.mul_add_div hPos, Nat.div_eq_of_lt (ofBigEndian_lt bs), Nat.add_zero]
    rw [ofBigEndian, List.length_cons, bigEndian, hFirst, bigEndian_add, ih, UInt8.ofNat_toNat]

/-! ## Octets of a word -/

/-- Octet `n` of a word in the memory of a little-endian machine. -/
def wordOctet (w : UInt64) (n : Nat) : UInt8 := (w >>> UInt64.ofNat (8 * n)).toUInt8

/-- Octet `n` of half a word. -/
def halfOctet (w : UInt32) (n : Nat) : UInt8 := (w >>> UInt32.ofNat (8 * n)).toUInt8

/-- The word turned by `n` octets. A shift by the whole width, which a turn by no octets takes, is
no shift, as the machine counts it. -/
def turn (w : UInt64) (n : Nat) : UInt64 :=
  (w >>> UInt64.ofNat (n * 8)) ||| (w <<< UInt64.ofNat ((8 - n) * 8))

/-- The word that has half a word in both its halves. -/
def double (w : UInt32) : UInt64 := (w.toUInt64 <<< 32) ||| w.toUInt64

theorem getLsbD_wordOctet (w : UInt64) {n : Nat} (hn : n < 8) (j : Nat) :
    (wordOctet w n).toBitVec.getLsbD j = (decide (j < 8) && w.toBitVec.getLsbD (8 * n + j)) := by
  have hShift : 8 * n % 18446744073709551616 % 64 = 8 * n := by omega
  simp [wordOctet, hShift]

theorem getLsbD_halfOctet (w : UInt32) {n : Nat} (hn : n < 4) (j : Nat) :
    (halfOctet w n).toBitVec.getLsbD j = (decide (j < 8) && w.toBitVec.getLsbD (8 * n + j)) := by
  have hShift : 8 * n % 4294967296 % 32 = 8 * n := by omega
  simp [halfOctet, hShift]

theorem getLsbD_turn (w : UInt64) {n : Nat} (hn : n < 8) {i : Nat} (hi : i < 64) :
    (turn w n).toBitVec.getLsbD i = w.toBitVec.getLsbD ((i + 8 * n) % 64) := by
  have hRight : n * 8 % 18446744073709551616 % 64 = n * 8 := by omega
  by_cases hZero : n = 0
  · subst hZero
    simp [turn, Nat.mod_eq_of_lt hi]
  have hLeft : (8 - n) * 8 % 18446744073709551616 % 64 = 64 - 8 * n := by omega
  by_cases hWrap : i + 8 * n < 64
  · have hIn : i < 64 - 8 * n := by omega
    rw [Nat.mod_eq_of_lt hWrap, Nat.add_comm i, Nat.mul_comm 8]
    simp [turn, hRight, hLeft, hIn]
  · have hIn : ¬ i < 64 - 8 * n := by omega
    have hOut : w.toBitVec.getLsbD (n * 8 + i) = false := BitVec.getLsbD_of_ge _ _ (by omega)
    have hBack : i - (64 - 8 * n) < 64 := by omega
    rw [show (i + 8 * n) % 64 = i - (64 - 8 * n) by omega, BitVec.getLsbD_eq_getElem hBack]
    simp [turn, hRight, hLeft, hIn, hOut, hi]

theorem octet_ext {a b : UInt8}
    (h : ∀ j < 8, a.toBitVec.getLsbD j = b.toBitVec.getLsbD j) : a = b :=
  UInt8.eq_of_toBitVec_eq (BitVec.eq_of_getLsbD_eq h)

theorem wordOctet_turn (w : UInt64) {n m : Nat} (hn : n < 8) (hm : m < 8) :
    wordOctet (turn w n) m = wordOctet w ((m + n) % 8) := by
  apply octet_ext
  intro j hj
  rw [getLsbD_wordOctet _ hm, getLsbD_wordOctet _ (Nat.mod_lt _ (by decide)),
    getLsbD_turn _ hn (by omega)]
  congr 2
  omega

theorem wordOctet_double (w : UInt32) {n : Nat} (hn : n < 8) :
    wordOctet (double w) n = halfOctet w (n % 4) := by
  apply octet_ext
  intro j hj
  rw [getLsbD_wordOctet _ hn, getLsbD_halfOctet _ (Nat.mod_lt _ (by decide))]
  have hIn : 8 * n + j < 64 := by omega
  by_cases hLow : n < 4
  · have hBit : 8 * n + j < 32 := by omega
    simp [double, hIn, hBit, Nat.mod_eq_of_lt hLow]
  · have hBit : ¬ 8 * n + j < 32 := by omega
    have hOut : w.toBitVec.getLsbD (8 * n + j) = false := BitVec.getLsbD_of_ge _ _ (by omega)
    have hSame : 8 * n + j - 32 = 8 * (n % 4) + j := by omega
    simp [double, hIn, hBit, hOut, hSame]

theorem halfOctet_toUInt32 (w : UInt64) {n : Nat} (hn : n < 4) :
    halfOctet w.toUInt32 n = wordOctet w n := by
  apply octet_ext
  intro j hj
  have hIn : 8 * n + j < 32 := by omega
  rw [getLsbD_halfOctet _ hn, getLsbD_wordOctet _ (by omega)]
  simp [hIn]

theorem word_ext {v w : UInt64} (h : ∀ n < 8, wordOctet v n = wordOctet w n) : v = w := by
  apply UInt64.eq_of_toBitVec_eq
  apply BitVec.eq_of_getLsbD_eq
  intro i hi
  have hOctet := congrArg (fun b => b.toBitVec.getLsbD (i % 8)) (h (i / 8) (by omega))
  have hMod : i % 8 < 8 := Nat.mod_lt _ (by decide)
  simpa only [getLsbD_wordOctet _ (show i / 8 < 8 by omega), decide_eq_true hMod, Bool.true_and,
    Nat.div_add_mod] using hOctet

/-! ## Masking -/

/-- The text from position `i` on, masked by a key of unbounded length. -/
def mask (key : Nat → UInt8) : Nat → List UInt8 → List UInt8
  | _, [] => []
  | i, b :: bs => (b ^^^ key i) :: mask key (i + 1) bs

variable (key : Nat → UInt8)

@[simp] theorem length_mask (i : Nat) (bs : List UInt8) : (mask key i bs).length = bs.length := by
  induction bs generalizing i with
  | nil => rfl
  | cons b bs ih => rw [mask, List.length_cons, ih, List.length_cons]

theorem mask_append (i : Nat) (bs cs : List UInt8) :
    mask key i (bs ++ cs) = mask key i bs ++ mask key (i + bs.length) cs := by
  induction bs generalizing i with
  | nil => rfl
  | cons b bs ih =>
    rw [List.cons_append, mask, ih, mask, List.cons_append, List.length_cons, Nat.add_assoc,
      Nat.add_comm 1]

/-- A mask put on twice is taken off. -/
theorem mask_mask (i : Nat) (bs : List UInt8) : mask key i (mask key i bs) = bs := by
  induction bs generalizing i with
  | nil => rfl
  | cons b bs ih => rw [mask, mask, ih, UInt8.xor_assoc, UInt8.xor_self, UInt8.xor_zero]

end Octets
