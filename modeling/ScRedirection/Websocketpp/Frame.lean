import ScRedirection.Basic
import ScRedirection.Library.Octets
import Mathlib.Tactic.SplitIfs

/-! # frame.hpp

The header of a WebSocket frame and the masking of its payload, on a little-endian machine with
words of eight bytes. The word-wise masks are called by nobody and left out.
-/

namespace ScRedirection.Websocketpp

open Octets

namespace Frame

/-- `opcode::value`. -/
inductive Opcode
  | continuation
  | text
  | binary
  | rsv3
  | rsv4
  | rsv5
  | rsv6
  | rsv7
  | close
  | ping
  | pong
  | controlRsvb
  | controlRsvc
  | controlRsvd
  | controlRsve
  | controlRsvf
  deriving DecidableEq, Repr

namespace Opcode

def toByte : Opcode → UInt8
  | continuation => 0x0
  | text => 0x1
  | binary => 0x2
  | rsv3 => 0x3
  | rsv4 => 0x4
  | rsv5 => 0x5
  | rsv6 => 0x6
  | rsv7 => 0x7
  | close => 0x8
  | ping => 0x9
  | pong => 0xA
  | controlRsvb => 0xB
  | controlRsvc => 0xC
  | controlRsvd => 0xD
  | controlRsve => 0xE
  | controlRsvf => 0xF

/-- The value of four bits. -/
def ofByte (b : UInt8) : Opcode :=
  match b.toNat with
  | 0x0 => continuation
  | 0x1 => text
  | 0x2 => binary
  | 0x3 => rsv3
  | 0x4 => rsv4
  | 0x5 => rsv5
  | 0x6 => rsv6
  | 0x7 => rsv7
  | 0x8 => close
  | 0x9 => ping
  | 0xA => pong
  | 0xB => controlRsvb
  | 0xC => controlRsvc
  | 0xD => controlRsvd
  | 0xE => controlRsve
  | _ => controlRsvf

def reserved (v : Opcode) : Bool :=
  (rsv3.toByte ≤ v.toByte && v.toByte ≤ rsv7.toByte) ||
    (controlRsvb.toByte ≤ v.toByte && v.toByte ≤ controlRsvf.toByte)

/-- Never true of what four bits give. -/
def invalid (v : Opcode) : Bool := 0xF < v.toByte

def isControl (v : Opcode) : Bool := 0x8 ≤ v.toByte

end Opcode

def payloadSizeBasic : Nat := 125

def payloadSizeExtended : Nat := 0xFFFF

def payloadSizeCode16bit : UInt8 := 0x7E

def payloadSizeCode64bit : UInt8 := 0x7F

/-! ## Headers -/

structure BasicHeader where
  b0 : UInt8 := 0
  b1 : UInt8 := 0
  deriving DecidableEq, Repr

def flag (value : Bool) (bit : UInt8) : UInt8 := if value then bit else 0

def basicValue (size : Nat) : UInt8 :=
  if size ≤ payloadSizeBasic then UInt8.ofNat size
  else if size ≤ payloadSizeExtended then payloadSizeCode16bit
  else payloadSizeCode64bit

/-- The constructor; bits rsv2 and rsv3 have their default. -/
def BasicHeader.make (op : Opcode) (size : Nat) (fin mask rsv1 : Bool) : BasicHeader where
  b0 := flag fin 0x80 ||| flag rsv1 0x40 ||| (op.toByte &&& 0x0F)
  b1 := flag mask 0x80 ||| basicValue size

/-- Twelve bytes: the payload size, if it takes more than the basic header, and the key. -/
abbrev ExtendedHeader := Bytes

def maxExtendedHeaderLength : Nat := 12

def ExtendedHeader.empty : ExtendedHeader := List.replicate maxExtendedHeaderLength 0

/-- The size in network byte order, from the offset that its width gives. -/
def copyPayload (payloadSize : Nat) : Bytes :=
  let payloadOffset :=
    if payloadSize ≤ payloadSizeBasic then 8
    else if payloadSize ≤ payloadSizeExtended then 6
    else 0
  (bigEndian 8 payloadSize).drop payloadOffset

def keyBytes (key : UInt32) : Bytes := (List.range 4).map (halfOctet key)

def fill (fields : Bytes) : ExtendedHeader :=
  fields ++ List.replicate (maxExtendedHeaderLength - fields.length) 0

/-- The two constructors; `none` is the one without a masking key. -/
def ExtendedHeader.make (payloadSize : Nat) (maskingKey : Option UInt32) : ExtendedHeader :=
  fill (copyPayload payloadSize ++ (maskingKey.map keyBytes).getD [])

def getFin (h : BasicHeader) : Bool := h.b0 &&& 0x80 == 0x80

def getRsv1 (h : BasicHeader) : Bool := h.b0 &&& 0x40 == 0x40

def getRsv2 (h : BasicHeader) : Bool := h.b0 &&& 0x20 == 0x20

def getRsv3 (h : BasicHeader) : Bool := h.b0 &&& 0x10 == 0x10

def getOpcode (h : BasicHeader) : Opcode := Opcode.ofByte (h.b0 &&& 0x0F)

def getMasked (h : BasicHeader) : Bool := h.b1 &&& 0x80 == 0x80

def getBasicSize (h : BasicHeader) : UInt8 := h.b1 &&& 0x7F

def getMaskingKeyOffset (h : BasicHeader) : Nat :=
  if getBasicSize h = payloadSizeCode16bit then 2
  else if getBasicSize h = payloadSizeCode64bit then 8
  else 0

def basicHeaderLength : Nat := 2

def getHeaderLen (h : BasicHeader) : Nat :=
  basicHeaderLength + getMaskingKeyOffset h + if getMasked h then 4 else 0

def prepareHeader (h : BasicHeader) (e : ExtendedHeader) : Bytes :=
  h.b0 :: h.b1 :: e.take (getHeaderLen h - basicHeaderLength)

/-- The integer that holds four bytes of memory. -/
def keyOf (c : Bytes) : UInt32 :=
  match c with
  | [c₀, c₁, c₂, c₃] =>
    c₀.toUInt32 ||| (c₁.toUInt32 <<< 8) ||| (c₂.toUInt32 <<< 16) ||| (c₃.toUInt32 <<< 24)
  | _ => 0

def getMaskingKey (h : BasicHeader) (e : ExtendedHeader) : UInt32 :=
  if getMasked h then keyOf ((e.drop (getMaskingKeyOffset h)).take 4) else 0

def getExtendedSize (e : ExtendedHeader) : Nat := ofBigEndian (e.take 2)

def getJumboSize (e : ExtendedHeader) : Nat := ofBigEndian (e.take 8)

def getPayloadSize (h : BasicHeader) (e : ExtendedHeader) : Nat :=
  let val := getBasicSize h
  if val.toNat ≤ payloadSizeBasic then val.toNat
  else if val = payloadSizeCode16bit then getExtendedSize e
  else getJumboSize e

/-! ## Masks -/

/-- `size_t` has eight bytes. -/
def prepareMaskingKey (key : UInt32) : UInt64 := double key

/-- An offset of 0 shifts by the width of a word, which leaves the word as it is on the machines the
server is built for. -/
def circshiftPreparedKey (preparedKey : UInt64) (offset : Nat) : UInt64 := turn preparedKey offset

/-- The loop of `byte_mask`; `keyIndex` stays below 4. -/
def byteMask (key : UInt32) : Nat → Bytes → Bytes
  | _, [] => []
  | keyIndex, b :: rest =>
    (b ^^^ halfOctet key keyIndex) :: byteMask key ((keyIndex + 1) % 4) rest

/-- The masked bytes and the key shifted to account for them. -/
def byteMaskCirc (input : Bytes) (preparedKey : UInt64) : Bytes × UInt64 :=
  let key := preparedKey.toUInt32
  (input.mapIdx fun i b => b ^^^ halfOctet key (i % 4),
    circshiftPreparedKey preparedKey (input.length % 4))

/-! ## Fields of a header that was made -/

section Fields

variable (op : Opcode) (size : Nat) (fin mask rsv1 : Bool) (maskingKey : Option UInt32)

def firstByte (op : Opcode) (fin rsv1 : Bool) : UInt8 :=
  flag fin 0x80 ||| flag rsv1 0x40 ||| (op.toByte &&& 0x0F)

theorem firstByte_bits : (firstByte op fin rsv1 &&& 0x80 == 0x80) = fin ∧
    (firstByte op fin rsv1 &&& 0x40 == 0x40) = rsv1 ∧
    (firstByte op fin rsv1 &&& 0x20 == 0x20) = false ∧
    (firstByte op fin rsv1 &&& 0x10 == 0x10) = false ∧
    Opcode.ofByte (firstByte op fin rsv1 &&& 0x0F) = op := by
  cases op <;> cases fin <;> cases rsv1 <;> decide +kernel

@[simp] theorem getFin_make : getFin (BasicHeader.make op size fin mask rsv1) = fin :=
  (firstByte_bits op fin rsv1).1

@[simp] theorem getRsv1_make : getRsv1 (BasicHeader.make op size fin mask rsv1) = rsv1 :=
  (firstByte_bits op fin rsv1).2.1

@[simp] theorem getRsv2_make : getRsv2 (BasicHeader.make op size fin mask rsv1) = false :=
  (firstByte_bits op fin rsv1).2.2.1

@[simp] theorem getRsv3_make : getRsv3 (BasicHeader.make op size fin mask rsv1) = false :=
  (firstByte_bits op fin rsv1).2.2.2.1

@[simp] theorem getOpcode_make : getOpcode (BasicHeader.make op size fin mask rsv1) = op :=
  (firstByte_bits op fin rsv1).2.2.2.2

theorem basicValue_lt : (basicValue size).toNat < 128 := by
  unfold basicValue
  split_ifs with hBasic
  · rw [payloadSizeBasic] at hBasic
    rw [UInt8.toNat_ofNat']
    omega
  · decide
  · decide

theorem flag_or {v : UInt8} (hv : v.toNat < 128) (mask : Bool) :
    (flag mask 0x80 ||| v) &&& 0x80 = flag mask 0x80 ∧ (flag mask 0x80 ||| v) &&& 0x7F = v := by
  have hAll : ∀ n < 128, ∀ mask, (flag mask 0x80 ||| UInt8.ofNat n) &&& 0x80 = flag mask 0x80 ∧
      (flag mask 0x80 ||| UInt8.ofNat n) &&& 0x7F = UInt8.ofNat n := by
    decide +kernel
  simpa only [UInt8.ofNat_toNat] using hAll v.toNat hv mask

@[simp] theorem getMasked_make : getMasked (BasicHeader.make op size fin mask rsv1) = mask := by
  rw [getMasked, BasicHeader.make, (flag_or (basicValue_lt size) mask).1]
  cases mask <;> rfl

@[simp] theorem getBasicSize_make :
    getBasicSize (BasicHeader.make op size fin mask rsv1) = basicValue size :=
  (flag_or (basicValue_lt size) mask).2

theorem copyPayload_eq : copyPayload size =
    if size ≤ payloadSizeBasic then []
    else if size ≤ payloadSizeExtended then bigEndian 2 size
    else bigEndian 8 size := by
  rw [copyPayload]
  split_ifs
  · exact drop_bigEndian 0 size 8
  · exact drop_bigEndian 2 size 6
  · rfl

@[simp] theorem getMaskingKeyOffset_make :
    getMaskingKeyOffset (BasicHeader.make op size fin mask rsv1) = (copyPayload size).length := by
  rw [getMaskingKeyOffset, getBasicSize_make, copyPayload_eq, basicValue]
  by_cases hBasic : size ≤ payloadSizeBasic
  · have hCode : ∀ code : UInt8, 126 ≤ code.toNat → UInt8.ofNat size ≠ code := by
      rintro code hLow rfl
      rw [payloadSizeBasic] at hBasic
      rw [UInt8.toNat_ofNat'] at hLow
      omega
    rw [if_pos hBasic, if_pos hBasic, if_neg (hCode _ (by decide)), if_neg (hCode _ (by decide))]
    rfl
  · rw [if_neg hBasic, if_neg hBasic]
    split_ifs <;> first | rfl | contradiction

/-- The variable part of the header as it is sent. -/
def fields : Bytes := copyPayload size ++ (maskingKey.map keyBytes).getD []

theorem length_keyFields :
    ((maskingKey.map keyBytes).getD []).length = if maskingKey.isSome then 4 else 0 := by
  cases maskingKey <;> rfl

theorem length_fields :
    (fields size maskingKey).length =
      (copyPayload size).length + if maskingKey.isSome then 4 else 0 := by
  rw [fields, List.length_append, length_keyFields]

theorem getHeaderLen_make :
    getHeaderLen (BasicHeader.make op size fin maskingKey.isSome rsv1) =
      basicHeaderLength + (fields size maskingKey).length := by
  rw [getHeaderLen, getMaskingKeyOffset_make, getMasked_make, length_fields, Nat.add_assoc]

theorem prepareHeader_make :
    prepareHeader (BasicHeader.make op size fin maskingKey.isSome rsv1)
        (ExtendedHeader.make size maskingKey) =
      (BasicHeader.make op size fin maskingKey.isSome rsv1).b0 ::
        (BasicHeader.make op size fin maskingKey.isSome rsv1).b1 :: fields size maskingKey := by
  rw [prepareHeader, getHeaderLen_make, Nat.add_sub_cancel_left, ExtendedHeader.make, fill,
    ← fields, List.take_left]

/-- The header says the size it was made for. -/
theorem getPayloadSize_make {size : Nat} (hSize : size < 2 ^ 64) (rest : Bytes) :
    getPayloadSize (BasicHeader.make op size fin mask rsv1) (fields size maskingKey ++ rest) =
      size := by
  have hJumbo : size < 256 ^ 8 := hSize
  have hTake : ∀ width, (bigEndian width size ++
      (maskingKey.map keyBytes).getD [] ++ rest).take width = bigEndian width size := by
    intro width
    rw [List.append_assoc]
    exact List.take_left' (length_bigEndian width size)
  rw [getPayloadSize, getBasicSize_make, fields, copyPayload_eq, basicValue]
  by_cases hBasic : size ≤ payloadSizeBasic
  · have hByte : (UInt8.ofNat size).toNat = size := by
      rw [payloadSizeBasic] at hBasic
      rw [UInt8.toNat_ofNat']
      omega
    rw [if_pos hBasic, hByte, if_pos hBasic]
  · rw [if_neg hBasic, if_neg hBasic]
    by_cases hExtended : size ≤ payloadSizeExtended
    · have hWord : size < 256 ^ 2 := Nat.lt_succ_of_le hExtended
      rw [if_pos hExtended, if_pos hExtended, if_neg (by decide), if_pos rfl, getExtendedSize,
        hTake, ofBigEndian_bigEndian hWord]
    · rw [if_neg hExtended, if_neg hExtended, if_neg (by decide), if_neg (by decide), getJumboSize,
        hTake, ofBigEndian_bigEndian hJumbo]

theorem keyOf_keyBytes (key : UInt32) : keyOf (keyBytes key) = key := by
  have hBytes : keyBytes key = [halfOctet key 0, halfOctet key 1, halfOctet key 2,
    halfOctet key 3] := rfl
  apply UInt32.eq_of_toBitVec_eq
  apply BitVec.eq_of_getLsbD_eq
  intro i hi
  rw [hBytes, keyOf]
  simp only [UInt32.toBitVec_or, UInt32.toBitVec_shiftLeft, BitVec.getLsbD_or]
  have hSame : ∀ low, low ≤ i → key.toBitVec.getLsbD (low + (i - low)) = key.toBitVec[i] :=
    fun low hLow => by rw [Nat.add_sub_cancel' hLow, BitVec.getLsbD_eq_getElem hi]
  simp [getLsbD_halfOctet, hi]
  have hRange : i < 8 ∨ 8 ≤ i ∧ i < 16 ∨ 16 ≤ i ∧ i < 24 ∨ 24 ≤ i := by omega
  rcases hRange with h | ⟨hLow, h⟩ | ⟨hLow, h⟩ | hLow
  · simp [h, show i < 16 by omega, show i < 24 by omega]
  · simp [h, hSame 8 hLow, show ¬ i < 8 by omega, show i - 8 < 8 by omega, show i < 24 by omega]
  · simp [h, hSame 16 hLow, show ¬ i < 8 by omega, show ¬ i - 8 < 8 by omega,
      show ¬ i < 16 by omega, show i - 16 < 8 by omega]
  · simp [hSame 24 hLow, show ¬ i < 8 by omega, show ¬ i - 8 < 8 by omega,
      show ¬ i < 24 by omega, show ¬ i - 16 < 8 by omega, show i - 24 < 8 by omega]

end Fields

/-! ## A header that was read, written again -/

section Read

variable {h : BasicHeader} {e : ExtendedHeader}

theorem keyBytes_keyOf (c₀ c₁ c₂ c₃ : UInt8) :
    keyBytes (keyOf [c₀, c₁, c₂, c₃]) = [c₀, c₁, c₂, c₃] := by
  have hAbove : ∀ (c : UInt8) (i : Nat), 8 ≤ i → c.toBitVec.getLsbD i = false :=
    fun c i h => BitVec.getLsbD_of_ge c.toBitVec i h
  have hOctet : ∀ n < 4, ∀ c : UInt8, [c₀, c₁, c₂, c₃][n]? = some c →
      halfOctet (keyOf [c₀, c₁, c₂, c₃]) n = c := by
    intro n hn c hc
    apply octet_ext
    intro j hj
    rw [getLsbD_halfOctet _ hn, keyOf]
    simp only [UInt32.toBitVec_or, UInt32.toBitVec_shiftLeft, BitVec.getLsbD_or]
    obtain rfl | rfl | rfl | rfl : n = 0 ∨ n = 1 ∨ n = 2 ∨ n = 3 := by omega
    all_goals cases hc
    · simp [hj, show j < 32 by omega, show j < 16 by omega, show j < 24 by omega]
    · simp [hj, show 8 + j < 32 by omega, show 8 + j < 16 by omega, show 8 + j < 24 by omega]
    · simp [hj, hAbove c₀ (16 + j) (by omega), show 16 + j < 32 by omega,
        show 8 ≤ 16 + j - 8 by omega, show 16 + j < 24 by omega]
    · simp [hj, hAbove c₀ (24 + j) (by omega), show 24 + j < 32 by omega,
        show 8 ≤ 24 + j - 8 by omega, show 8 ≤ 24 + j - 16 by omega]
  exact congrArg₂ List.cons (hOctet 0 (by decide) _ rfl) (congrArg₂ List.cons
    (hOctet 1 (by decide) _ rfl) (congrArg₂ List.cons (hOctet 2 (by decide) _ rfl)
      (congrArg₂ List.cons (hOctet 3 (by decide) _ rfl) rfl)))

theorem keyBytes_keyOf_of_length {c : Bytes} (h : c.length = 4) : keyBytes (keyOf c) = c := by
  rw [List.eq_getElem_of_length_eq_four c h]
  exact keyBytes_keyOf ..

theorem make_read {size : Nat} (hRsv1 : getRsv1 h = false) (hRsv2 : getRsv2 h = false)
    (hRsv3 : getRsv3 h = false) (hSize : basicValue size = getBasicSize h) :
    BasicHeader.make (getOpcode h) size (getFin h) (getMasked h) false = h := by
  have hFirst : ∀ n < 256, (UInt8.ofNat n &&& 0x40 == 0x40) = false →
      (UInt8.ofNat n &&& 0x20 == 0x20) = false → (UInt8.ofNat n &&& 0x10 == 0x10) = false →
      firstByte (Opcode.ofByte (UInt8.ofNat n &&& 0x0F)) (UInt8.ofNat n &&& 0x80 == 0x80) false =
        UInt8.ofNat n := by
    decide +kernel
  have hSecond : ∀ n < 256, flag (UInt8.ofNat n &&& 0x80 == 0x80) 0x80 |||
      (UInt8.ofNat n &&& 0x7F) = UInt8.ofNat n := by
    decide +kernel
  have hByte := hFirst h.b0.toNat h.b0.toNat_lt
  have hByte' := hSecond h.b1.toNat h.b1.toNat_lt
  rw [UInt8.ofNat_toNat] at hByte hByte'
  rw [BasicHeader.make, hSize]
  exact congrArg₂ BasicHeader.mk (hByte hRsv1 hRsv2 hRsv3) hByte'

theorem getBasicSize_lt (h : BasicHeader) : (getBasicSize h).toNat < 128 := by
  rw [getBasicSize, UInt8.toNat_and]
  exact Nat.lt_succ_of_le Nat.and_le_right

theorem getExtendedSize_le (e : ExtendedHeader) : getExtendedSize e ≤ payloadSizeExtended := by
  have hLength : (e.take 2).length ≤ 2 := List.length_take_le 2 e
  exact Nat.le_of_lt_succ
    (Nat.lt_of_lt_of_le (ofBigEndian_lt _) (Nat.pow_le_pow_right (by decide) hLength))

theorem getJumboSize_lt (e : ExtendedHeader) : getJumboSize e < 2 ^ 64 := by
  have hLength : (e.take 8).length ≤ 8 := List.length_take_le 8 e
  exact Nat.lt_of_lt_of_le (ofBigEndian_lt _) (Nat.pow_le_pow_right (n := 256) (by decide) hLength)

theorem getPayloadSize_lt (h : BasicHeader) (e : ExtendedHeader) : getPayloadSize h e < 2 ^ 64 := by
  have hBasic := getBasicSize_lt h
  have hExtended := getExtendedSize_le e
  have hJumbo := getJumboSize_lt e
  rw [payloadSizeExtended] at hExtended
  unfold getPayloadSize
  dsimp only
  split_ifs <;> omega

/-- The three ways to say a size. -/
theorem size_cases (h : BasicHeader) (e : ExtendedHeader) :
    ((getBasicSize h).toNat ≤ payloadSizeBasic ∧
        getPayloadSize h e = (getBasicSize h).toNat ∧ getMaskingKeyOffset h = 0) ∨
      (getBasicSize h = payloadSizeCode16bit ∧
        getPayloadSize h e = getExtendedSize e ∧ getMaskingKeyOffset h = 2) ∨
      (getBasicSize h = payloadSizeCode64bit ∧
        getPayloadSize h e = getJumboSize e ∧ getMaskingKeyOffset h = 8) := by
  have hAll : ∀ n < 128, n ≤ payloadSizeBasic ∧ UInt8.ofNat n ≠ payloadSizeCode16bit ∧
      UInt8.ofNat n ≠ payloadSizeCode64bit ∨ UInt8.ofNat n = payloadSizeCode16bit ∨
      UInt8.ofNat n = payloadSizeCode64bit := by
    decide +kernel
  have hSize := hAll _ (getBasicSize_lt h)
  rw [UInt8.ofNat_toNat] at hSize
  unfold getPayloadSize getMaskingKeyOffset
  dsimp only
  rcases hSize with ⟨hBasic, hNot16, hNot64⟩ | h16 | h64
  · exact .inl ⟨hBasic, if_pos hBasic, (if_neg hNot16).trans (if_neg hNot64)⟩
  · rw [h16]
    exact .inr (.inl ⟨rfl, rfl, rfl⟩)
  · rw [h64]
    exact .inr (.inr ⟨rfl, rfl, rfl⟩)

section Minimal

variable (hWord : getBasicSize h = payloadSizeCode16bit → payloadSizeBasic < getPayloadSize h e)
  (hJumbo : getBasicSize h = payloadSizeCode64bit → payloadSizeExtended < getPayloadSize h e)
include hWord hJumbo

theorem basicValue_read : basicValue (getPayloadSize h e) = getBasicSize h := by
  have hExtended := getExtendedSize_le e
  unfold basicValue
  rcases size_cases h e with ⟨hBasic, hSize, -⟩ | ⟨hCode, hSize, -⟩ | ⟨hCode, hSize, -⟩
  · rw [hSize, if_pos hBasic, UInt8.ofNat_toNat]
  · have hMore := hWord hCode
    rw [hSize] at hMore ⊢
    rw [if_neg (Nat.not_le.mpr hMore), if_pos hExtended, hCode]
  · have hMore := hJumbo hCode
    rw [payloadSizeExtended] at hMore
    rw [if_neg, if_neg, hCode]
    · rw [payloadSizeExtended]
      omega
    · rw [payloadSizeBasic]
      omega

theorem copyPayload_read (hLength : getMaskingKeyOffset h ≤ e.length) :
    copyPayload (getPayloadSize h e) = e.take (getMaskingKeyOffset h) := by
  have hExtended := getExtendedSize_le e
  have hWhole : ∀ width, width ≤ e.length →
      bigEndian width (ofBigEndian (e.take width)) = e.take width := by
    intro width hWidth
    have hTake := bigEndian_ofBigEndian (e.take width)
    rwa [List.length_take, Nat.min_eq_left hWidth] at hTake
  rw [copyPayload_eq]
  rcases size_cases h e with ⟨hBasic, hSize, hOffset⟩ | ⟨hCode, hSize, hOffset⟩ |
    ⟨hCode, hSize, hOffset⟩
  · rw [hSize, hOffset, if_pos hBasic, List.take_zero]
  · have hMore := hWord hCode
    rw [hOffset] at hLength ⊢
    rw [hSize] at hMore ⊢
    rw [if_neg (Nat.not_le.mpr hMore), if_pos hExtended, getExtendedSize, hWhole 2 hLength]
  · have hMore := hJumbo hCode
    rw [hOffset] at hLength ⊢
    rw [payloadSizeExtended] at hMore
    rw [if_neg, if_neg, hSize, getJumboSize, hWhole 8 hLength]
    · rw [payloadSizeExtended]
      omega
    · rw [payloadSizeBasic]
      omega

/-- The fields of a header that says its size the short way are the bytes that were read. -/
theorem fields_read (hLength : getHeaderLen h - basicHeaderLength ≤ e.length) :
    fields (getPayloadSize h e) (if getMasked h then some (getMaskingKey h e) else none) =
      e.take (getHeaderLen h - basicHeaderLength) := by
  have hLen : getHeaderLen h - basicHeaderLength =
      getMaskingKeyOffset h + if getMasked h then 4 else 0 := by
    rw [getHeaderLen, Nat.add_assoc, Nat.add_sub_cancel_left]
  rw [hLen] at hLength ⊢
  rw [fields, copyPayload_read hWord hJumbo (by omega), getMaskingKey]
  cases hMasked : getMasked h with
  | false => simp
  | true =>
    rw [hMasked, if_pos rfl] at hLength
    have hKey : ((e.drop (getMaskingKeyOffset h)).take 4).length = 4 := by
      rw [List.length_take, List.length_drop]
      omega
    simp only [if_true, Option.map_some, Option.getD_some]
    rw [keyBytes_keyOf_of_length hKey, List.take_add]

end Minimal

end Read

/-! ## The mask of a payload that comes in pieces -/

section Masks

variable {key : UInt32} {preparedKey : UInt64} {i : Nat}

def keyAt (key : UInt32) (n : Nat) : UInt8 := halfOctet key (n % 4)

theorem byteMask_eq (key : UInt32) (i : Nat) (input : Bytes) :
    byteMask key (i % 4) input = mask (keyAt key) i input := by
  induction input generalizing i with
  | nil => rfl
  | cons b rest ih => rw [byteMask, mask, Nat.mod_add_mod, ih, keyAt]

/-- The prepared key after `i` bytes of the payload. -/
def Prepared (key : UInt32) (i : Nat) (preparedKey : UInt64) : Prop :=
  ∀ n < 8, wordOctet preparedKey n = keyAt key (n + i)

theorem prepared_prepareMaskingKey (key : UInt32) : Prepared key 0 (prepareMaskingKey key) :=
  fun _ hn => wordOctet_double key hn

theorem Prepared.unique {preparedKey' : UInt64} (h : Prepared key i preparedKey)
    (h' : Prepared key i preparedKey') : preparedKey = preparedKey' :=
  word_ext fun n hn => (h n hn).trans (h' n hn).symm

theorem Prepared.circshift (h : Prepared key i preparedKey) (length : Nat) :
    Prepared key (i + length) (circshiftPreparedKey preparedKey (length % 4)) := by
  intro n hn
  have hShift : length % 4 < 8 := by omega
  rw [circshiftPreparedKey, wordOctet_turn _ hShift hn, h _ (Nat.mod_lt _ (by decide)), keyAt,
    keyAt]
  congr 1
  omega

/-- The circular mask goes on where the one before it stopped. -/
theorem byteMaskCirc_fst (h : Prepared key i preparedKey) (input : Bytes) :
    (byteMaskCirc input preparedKey).1 = mask (keyAt key) i input := by
  have hKey : ∀ n, halfOctet preparedKey.toUInt32 (n % 4) = keyAt key (i + n) := by
    intro n
    have hLow : n % 4 < 4 := Nat.mod_lt _ (by decide)
    rw [halfOctet_toUInt32 _ hLow, h _ (by omega), keyAt, keyAt]
    congr 1
    omega
  have hFrom : ∀ (input : Bytes) (k : Nat),
      (input.mapIdx fun n b => b ^^^ halfOctet preparedKey.toUInt32 ((k + n) % 4)) =
        mask (keyAt key) (i + k) input := by
    intro input
    induction input with
    | nil => intro k; rfl
    | cons b rest ih =>
      intro k
      have hNext := ih (k + 1)
      simp only [Nat.add_right_comm k 1, Nat.add_assoc] at hNext
      rw [List.mapIdx_cons, mask, Nat.add_zero, hKey, hNext, Nat.add_assoc]
  have hStart := hFrom input 0
  simp only [Nat.zero_add, Nat.add_zero] at hStart
  exact hStart

theorem Prepared.afterMask (h : Prepared key i preparedKey) (input : Bytes) :
    Prepared key (i + input.length) (byteMaskCirc input preparedKey).2 :=
  h.circshift input.length

/-- Two pieces are masked as they are together, and leave the same key. -/
theorem byteMaskCirc_append (h : Prepared key i preparedKey) (xs ys : Bytes) :
    byteMaskCirc (xs ++ ys) preparedKey =
      ((byteMaskCirc xs preparedKey).1 ++
        (byteMaskCirc ys (byteMaskCirc xs preparedKey).2).1,
        (byteMaskCirc ys (byteMaskCirc xs preparedKey).2).2) := by
  have hNext := h.afterMask xs
  apply Prod.ext
  · rw [byteMaskCirc_fst h, mask_append, byteMaskCirc_fst h, byteMaskCirc_fst hNext]
  · have hTogether := h.afterMask (xs ++ ys)
    rw [List.length_append, ← Nat.add_assoc] at hTogether
    exact hTogether.unique (hNext.afterMask ys)

theorem length_byteMaskCirc (input : Bytes) (preparedKey : UInt64) :
    (byteMaskCirc input preparedKey).1.length = input.length := List.length_mapIdx ..

end Masks

end Frame

end ScRedirection.Websocketpp
