import Mathlib.Data.List.Basic
import Mathlib.Algebra.Group.Nat.Defs
import Mathlib.Tactic.SplitIfs

/-! # Bytes as digits of radix 64

The text of a byte string is its bit stream cut into six-bit digits, the last one filled
with zero bits, and padded to a multiple of four characters. Reading drops the padding,
strings the digits together and cuts the stream into octets. Nothing here depends on how
a program groups the characters.
-/

namespace Radix64

universe u

/-- The binary digits of a number, most significant first. -/
def bits (width n : Nat) : List Nat := (List.range width).map fun i => n / 2 ^ (width - 1 - i) % 2

def ofBits (bs : List Nat) : Nat := bs.foldl (fun n b => 2 * n + b) 0

/-- Complete octets only: fewer than eight bits at the end are dropped. -/
def octets : List Nat → List UInt8
  | b₇ :: b₆ :: b₅ :: b₄ :: b₃ :: b₂ :: b₁ :: b₀ :: rest =>
    UInt8.ofNat (ofBits [b₇, b₆, b₅, b₄, b₃, b₂, b₁, b₀]) :: octets rest
  | _ => []

/-- Six bits a digit, the last one filled up with zeros. -/
def sextets : List Nat → List (Fin 64)
  | b₅ :: b₄ :: b₃ :: b₂ :: b₁ :: b₀ :: rest =>
    Fin.ofNat 64 (ofBits [b₅, b₄, b₃, b₂, b₁, b₀]) :: sextets rest
  | [] => []
  | bs => [Fin.ofNat 64 (ofBits (bs ++ List.replicate (6 - bs.length) 0))]

structure Alphabet (α : Type u) where
  char : Fin 64 → α
  value : α → Option (Fin 64)
  pad : α
  isPad : α → Bool
  value_char : ∀ d, value (char d) = some d
  isPad_pad : isPad pad = true
  value_of_isPad : ∀ c, isPad c = true → value c = none

variable {α : Type u} (A : Alphabet α)

def padding (octetCount : Nat) : Nat := (3 - octetCount % 3) % 3

def encode (octetList : List UInt8) : List α :=
  (sextets (octetList.flatMap fun x => bits 8 x.toNat)).map A.char ++
    List.replicate (padding octetList.length) A.pad

def decode (text : List α) : List UInt8 :=
  octets ((text.filterMap A.value).flatMap fun d => bits 6 d.val)

theorem mem_encode {A : Alphabet α} {octetList : List UInt8} {c : α}
    (h : c ∈ encode A octetList) : (∃ d, A.char d = c) ∨ c = A.pad := by
  rw [encode, List.mem_append, List.mem_map] at h
  rcases h with ⟨d, -, hd⟩ | h
  · exact .inl ⟨d, hd⟩
  · exact .inr (List.eq_of_mem_replicate h)

/-- A multiple of four characters: digits, then at most two padding characters. -/
def WellFormed (text : List α) : Prop :=
  text.length % 4 = 0 ∧ ∃ body pad, text = body ++ pad ∧ (∀ c ∈ body, (A.value c).isSome) ∧
    (∀ c ∈ pad, A.isPad c = true) ∧ pad.length ≤ 2

/-! Binary digits, cut and joined. -/

theorem bits_succ (width n : Nat) : bits (width + 1) n = bits width (n / 2) ++ [n % 2] := by
  rw [bits, List.range_succ, List.map_append, bits]
  congr 1
  · apply List.map_congr_left
    intro i hi
    have hWidth : width + 1 - 1 - i = width - 1 - i + 1 := by
      have hi := List.mem_range.mp hi
      omega
    rw [hWidth, Nat.pow_succ', ← Nat.div_div_eq_div_mul]
  · simp

theorem ofBits_bits (width n : Nat) : ofBits (bits width n) = n % 2 ^ width := by
  induction width generalizing n with
  | zero => rw [Nat.pow_zero, Nat.mod_one]; rfl
  | succ width ih =>
    have hHigh := ih (n / 2)
    rw [ofBits] at hHigh
    rw [bits_succ, ofBits, List.foldl_append, hHigh, Nat.pow_succ', Nat.mod_mul]
    exact Nat.add_comm _ _

theorem bits_append {v w m n : Nat} (hn : n < 2 ^ w) :
    bits v m ++ bits w n = bits (v + w) (m * 2 ^ w + n) := by
  induction w generalizing n with
  | zero =>
    obtain rfl : n = 0 := by simpa using hn
    simp [bits]
  | succ w ih =>
    have hPower : m * 2 ^ (w + 1) = 2 * (m * 2 ^ w) := by rw [Nat.pow_succ', Nat.mul_left_comm]
    have hHalf : n / 2 < 2 ^ w := by
      rw [Nat.pow_succ'] at hn
      omega
    rw [bits_succ, ← List.append_assoc, ih hHalf, ← Nat.add_assoc, bits_succ, hPower]
    congr 2 <;> omega

theorem bits_split (v w n : Nat) : bits (v + w) n = bits v (n / 2 ^ w) ++ bits w (n % 2 ^ w) := by
  rw [bits_append (Nat.mod_lt n (Nat.two_pow_pos w)), Nat.div_add_mod']

theorem octets_bits (n : Nat) (rest : List Nat) :
    octets (bits 8 n ++ rest) = UInt8.ofNat n :: octets rest := by
  have hValue := ofBits_bits 8 n
  have hDigits : bits 8 n = [n / 128 % 2, n / 64 % 2, n / 32 % 2, n / 16 % 2, n / 8 % 2, n / 4 % 2,
      n / 2 % 2, n % 2] := by
    simp [bits, List.range, List.range.loop]
  rw [hDigits] at hValue ⊢
  simp only [List.cons_append, List.nil_append, octets]
  rw [hValue]
  congr 1
  exact UInt8.toNat_inj.mp (by simp)

theorem sextets_bits (n : Nat) (rest : List Nat) :
    sextets (bits 6 n ++ rest) = Fin.ofNat 64 n :: sextets rest := by
  have hValue := ofBits_bits 6 n
  have hDigits : bits 6 n = [n / 32 % 2, n / 16 % 2, n / 8 % 2, n / 4 % 2, n / 2 % 2, n % 2] := by
    simp [bits, List.range, List.range.loop]
  rw [hDigits] at hValue ⊢
  simp only [List.cons_append, List.nil_append, sextets]
  rw [hValue]
  congr 1
  exact Fin.ext (Nat.mod_mod n 64)

theorem sextets_rest {width n : Nat} (hPos : 0 < width) (hShort : width < 6) :
    sextets (bits width n) = [Fin.ofNat 64 (n * 2 ^ (6 - width))] := by
  have hLength : (bits width n).length = width := by simp [bits]
  have hZeros : List.replicate (6 - width) 0 = bits (6 - width) 0 := by simp [bits]
  have hJoined : bits width n ++ List.replicate (6 - width) 0 =
      bits 6 (n * 2 ^ (6 - width)) := by
    rw [hZeros, bits_append (Nat.two_pow_pos _), Nat.add_sub_cancel' (Nat.le_of_lt hShort),
      Nat.add_zero]
  have hValue := ofBits_bits 6 (n * 2 ^ (6 - width))
  rw [← hJoined] at hValue
  have hLast : sextets (bits width n) =
      [Fin.ofNat 64 (ofBits (bits width n ++ List.replicate (6 - width) 0))] := by
    generalize hBits : bits width n = bs at hLength
    match bs, hLength with
    | [], hLength => simp at hLength; omega
    | [_], hLength => simp [sextets, ← hLength]
    | [_, _], hLength => simp [sextets, ← hLength]
    | [_, _, _], hLength => simp [sextets, ← hLength]
    | [_, _, _, _], hLength => simp [sextets, ← hLength]
    | [_, _, _, _, _], hLength => simp [sextets, ← hLength]
    | _ :: _ :: _ :: _ :: _ :: _ :: _, hLength => simp at hLength; omega
  rw [hLast, hValue]
  congr 1
  exact Fin.ext (Nat.mod_mod _ 64)

/-! Where a group cuts its digits and its octets. -/

theorem bits_six₂ (n : Nat) : bits 6 n = bits 2 (n / 16) ++ bits 4 (n % 16) := bits_split 2 4 n

theorem bits_six₄ (n : Nat) : bits 6 n = bits 4 (n / 4) ++ bits 2 (n % 4) := bits_split 4 2 n

theorem bits_eight₂ (n : Nat) : bits 8 n = bits 2 (n / 64) ++ bits 6 (n % 64) := bits_split 2 6 n

theorem bits_eight₄ (n : Nat) : bits 8 n = bits 4 (n / 16) ++ bits 4 (n % 16) := bits_split 4 4 n

theorem bits_eight₆ (n : Nat) : bits 8 n = bits 6 (n / 4) ++ bits 2 (n % 4) := bits_split 6 2 n

theorem octets_bits₆ (a : Nat) {b : Nat} (hb : b < 64) (rest : List Nat) :
    octets (bits 6 a ++ (bits 2 (b / 16) ++ rest)) = UInt8.ofNat (a * 4 + b / 16) :: octets rest := by
  have hLow : b / 16 < 2 ^ 2 := by omega
  rw [← List.append_assoc, bits_append hLow]
  exact octets_bits _ _

theorem octets_bits₄ (b : Nat) {c : Nat} (hc : c < 64) (rest : List Nat) :
    octets (bits 4 b ++ (bits 4 (c / 4) ++ rest)) = UInt8.ofNat (b * 16 + c / 4) :: octets rest := by
  have hLow : c / 4 < 2 ^ 4 := by omega
  rw [← List.append_assoc, bits_append hLow]
  exact octets_bits _ _

theorem octets_bits₂ (c : Nat) {d : Nat} (hd : d < 64) (rest : List Nat) :
    octets (bits 2 c ++ (bits 6 d ++ rest)) = UInt8.ofNat (c * 64 + d) :: octets rest := by
  rw [← List.append_assoc, bits_append hd]
  exact octets_bits _ _

theorem sextets_bits₂ (x : Nat) {y : Nat} (hy : y < 256) (rest : List Nat) :
    sextets (bits 2 x ++ (bits 4 (y / 16) ++ rest)) =
      Fin.ofNat 64 (x * 16 + y / 16) :: sextets rest := by
  have hLow : y / 16 < 2 ^ 4 := by omega
  rw [← List.append_assoc, bits_append hLow]
  exact sextets_bits _ _

theorem sextets_bits₄ (y : Nat) {z : Nat} (hz : z < 256) (rest : List Nat) :
    sextets (bits 4 y ++ (bits 2 (z / 64) ++ rest)) =
      Fin.ofNat 64 (y * 4 + z / 64) :: sextets rest := by
  have hLow : z / 64 < 2 ^ 2 := by omega
  rw [← List.append_assoc, bits_append hLow]
  exact sextets_bits _ _

theorem octets_quad (a b c d : Fin 64) (rest : List Nat) :
    octets (bits 6 a.val ++ (bits 6 b.val ++ (bits 6 c.val ++ (bits 6 d.val ++ rest)))) =
      UInt8.ofNat (a.val * 4 + b.val / 16) :: UInt8.ofNat (b.val % 16 * 16 + c.val / 4) ::
        UInt8.ofNat (c.val % 4 * 64 + d.val) :: octets rest := by
  rw [bits_six₂ b.val, bits_six₄ c.val]
  simp only [List.append_assoc]
  rw [octets_bits₆ _ b.isLt, octets_bits₄ _ c.isLt, octets_bits₂ _ d.isLt]

theorem octets_triple (a b c : Fin 64) :
    octets (bits 6 a.val ++ (bits 6 b.val ++ bits 6 c.val)) =
      [UInt8.ofNat (a.val * 4 + b.val / 16), UInt8.ofNat (b.val % 16 * 16 + c.val / 4)] := by
  rw [bits_six₂ b.val, bits_six₄ c.val]
  simp only [List.append_assoc]
  rw [octets_bits₆ _ b.isLt, octets_bits₄ _ c.isLt]
  rfl

theorem octets_pair (a b : Fin 64) :
    octets (bits 6 a.val ++ bits 6 b.val) = [UInt8.ofNat (a.val * 4 + b.val / 16)] := by
  rw [bits_six₂ b.val, octets_bits₆ _ b.isLt]
  rfl

theorem sextets_triple (x y z : UInt8) (rest : List Nat) :
    sextets (bits 8 x.toNat ++ (bits 8 y.toNat ++ (bits 8 z.toNat ++ rest))) =
      Fin.ofNat 64 (x.toNat / 4) :: Fin.ofNat 64 (x.toNat % 4 * 16 + y.toNat / 16) ::
        Fin.ofNat 64 (y.toNat % 16 * 4 + z.toNat / 64) :: Fin.ofNat 64 (z.toNat % 64) ::
          sextets rest := by
  rw [bits_eight₆ x.toNat, bits_eight₄ y.toNat, bits_eight₂ z.toNat]
  simp only [List.append_assoc]
  rw [sextets_bits, sextets_bits₂ _ y.toNat_lt, sextets_bits₄ _ z.toNat_lt, sextets_bits]

theorem sextets_pair (x y : UInt8) :
    sextets (bits 8 x.toNat ++ bits 8 y.toNat) =
      [Fin.ofNat 64 (x.toNat / 4), Fin.ofNat 64 (x.toNat % 4 * 16 + y.toNat / 16),
        Fin.ofNat 64 (y.toNat % 16 * 4)] := by
  rw [bits_eight₆ x.toNat, bits_eight₄ y.toNat, List.append_assoc, sextets_bits,
    sextets_bits₂ _ y.toNat_lt, sextets_rest (by decide) (by decide)]
  rfl

theorem sextets_single (x : UInt8) :
    sextets (bits 8 x.toNat) =
      [Fin.ofNat 64 (x.toNat / 4), Fin.ofNat 64 (x.toNat % 4 * 16)] := by
  rw [bits_eight₆ x.toNat, sextets_bits, sextets_rest (by decide) (by decide)]
  rfl

/-! The two directions unfolded one group at a time. -/

theorem encode_single (x : UInt8) :
    encode A [x] = [A.char (Fin.ofNat 64 (x.toNat / 4)), A.char (Fin.ofNat 64 (x.toNat % 4 * 16)),
      A.pad, A.pad] := by
  simp [encode, padding, sextets_single]

theorem encode_pair (x y : UInt8) :
    encode A [x, y] = [A.char (Fin.ofNat 64 (x.toNat / 4)),
      A.char (Fin.ofNat 64 (x.toNat % 4 * 16 + y.toNat / 16)),
      A.char (Fin.ofNat 64 (y.toNat % 16 * 4)), A.pad] := by
  simp [encode, padding, sextets_pair]

theorem encode_cons₃ (x y z : UInt8) (rest : List UInt8) :
    encode A (x :: y :: z :: rest) = A.char (Fin.ofNat 64 (x.toNat / 4)) ::
      A.char (Fin.ofNat 64 (x.toNat % 4 * 16 + y.toNat / 16)) ::
      A.char (Fin.ofNat 64 (y.toNat % 16 * 4 + z.toNat / 64)) ::
      A.char (Fin.ofNat 64 (z.toNat % 64)) :: encode A rest := by
  have hPadding : padding (rest.length + 3) = padding rest.length := by
    simp only [padding]
    omega
  simp [encode, hPadding, sextets_triple]

@[simp] theorem decode_nil : decode A [] = [] := rfl

variable {A} in
theorem decode_cons₄ {p q r s : α} {a b c d : Fin 64} (rest : List α) (hp : A.value p = some a)
    (hq : A.value q = some b) (hr : A.value r = some c) (hs : A.value s = some d) :
    decode A (p :: q :: r :: s :: rest) = UInt8.ofNat (a.val * 4 + b.val / 16) ::
      UInt8.ofNat (b.val % 16 * 16 + c.val / 4) :: UInt8.ofNat (c.val % 4 * 64 + d.val) ::
      decode A rest := by
  simp only [decode, List.filterMap_cons, hp, hq, hr, hs, List.flatMap_cons]
  exact octets_quad a b c d _

variable {A} in
theorem decode_padded₁ {p q r s : α} {a b c : Fin 64} (hp : A.value p = some a)
    (hq : A.value q = some b) (hr : A.value r = some c) (hs : A.isPad s = true) :
    decode A [p, q, r, s] = [UInt8.ofNat (a.val * 4 + b.val / 16),
      UInt8.ofNat (b.val % 16 * 16 + c.val / 4)] := by
  simp only [decode, List.filterMap_cons, List.filterMap_nil, hp, hq, hr, A.value_of_isPad s hs,
    List.flatMap_cons, List.flatMap_nil, List.append_nil]
  exact octets_triple a b c

variable {A} in
theorem decode_padded₂ {p q r s : α} {a b : Fin 64} (hp : A.value p = some a)
    (hq : A.value q = some b) (hr : A.isPad r = true) (hs : A.isPad s = true) :
    decode A [p, q, r, s] = [UInt8.ofNat (a.val * 4 + b.val / 16)] := by
  simp only [decode, List.filterMap_cons, List.filterMap_nil, hp, hq, A.value_of_isPad r hr,
    A.value_of_isPad s hs, List.flatMap_cons, List.flatMap_nil, List.append_nil]
  exact octets_pair a b

section Groups

variable {A} {motive : List α → Prop}

/-- Digits come in groups of four; what is left over carries the padding. -/
private theorem rec_body (nil : motive [])
    (full : ∀ p q r s rest, (A.value p).isSome → (A.value q).isSome → (A.value r).isSome →
      (A.value s).isSome → motive rest → motive (p :: q :: r :: s :: rest))
    (padded₁ : ∀ p q r s, (A.value p).isSome → (A.value q).isSome → (A.value r).isSome →
      A.isPad s = true → motive [p, q, r, s])
    (padded₂ : ∀ p q r s, (A.value p).isSome → (A.value q).isSome → A.isPad r = true →
      A.isPad s = true → motive [p, q, r, s]) :
    ∀ body pad : List α, (∀ c ∈ body, (A.value c).isSome) → (∀ c ∈ pad, A.isPad c = true) →
      pad.length ≤ 2 → (body ++ pad).length % 4 = 0 → motive (body ++ pad)
  | [], [], _, _, _, _ => nil
  | [p, q], [r, s], hBody, hPad, _, _ =>
    padded₂ p q r s (hBody p (by simp)) (hBody q (by simp)) (hPad r (by simp)) (hPad s (by simp))
  | [p, q, r], [s], hBody, hPad, _, _ =>
    padded₁ p q r s (hBody p (by simp)) (hBody q (by simp)) (hBody r (by simp)) (hPad s (by simp))
  | p :: q :: r :: s :: body, pad, hBody, hPad, hTwo, hLength => by
    refine full p q r s (body ++ pad) (hBody p (by simp)) (hBody q (by simp)) (hBody r (by simp))
      (hBody s (by simp)) ?_
    refine rec_body nil full padded₁ padded₂ body pad (fun c hc => hBody c (by simp [hc])) hPad
      hTwo ?_
    simp only [List.length_append, List.length_cons] at hLength ⊢
    omega
  | [], _ :: _, _, _, hTwo, hLength | [_], _, _, _, hTwo, hLength
  | [_, _], [], _, _, hTwo, hLength | [_, _], [_], _, _, hTwo, hLength
  | [_, _], _ :: _ :: _ :: _, _, _, hTwo, hLength | [_, _, _], [], _, _, hTwo, hLength
  | [_, _, _], _ :: _ :: _, _, _, hTwo, hLength => by
    simp only [List.length_append, List.length_cons, List.length_nil] at hLength hTwo
    omega

theorem WellFormed.rec_groups {text : List α} (h : WellFormed A text) (nil : motive [])
    (full : ∀ p q r s rest, (A.value p).isSome → (A.value q).isSome → (A.value r).isSome →
      (A.value s).isSome → motive rest → motive (p :: q :: r :: s :: rest))
    (padded₁ : ∀ p q r s, (A.value p).isSome → (A.value q).isSome → (A.value r).isSome →
      A.isPad s = true → motive [p, q, r, s])
    (padded₂ : ∀ p q r s, (A.value p).isSome → (A.value q).isSome → A.isPad r = true →
      A.isPad s = true → motive [p, q, r, s]) : motive text := by
  obtain ⟨hLength, body, pad, rfl, hBody, hPad, hTwo⟩ := h
  exact rec_body nil full padded₁ padded₂ body pad hBody hPad hTwo hLength

end Groups

theorem rec_triples {motive : List UInt8 → Prop} (nil : motive []) (single : ∀ x, motive [x])
    (pair : ∀ x y, motive [x, y])
    (triple : ∀ x y z rest, motive rest → motive (x :: y :: z :: rest)) :
    ∀ octetList, motive octetList
  | [] => nil
  | [x] => single x
  | [x, y] => pair x y
  | x :: y :: z :: rest => triple x y z rest (rec_triples nil single pair triple rest)

theorem wellFormed_nil : WellFormed A [] := ⟨rfl, [], [], rfl, by simp, by simp, by simp⟩

theorem WellFormed.cons₄ {A : Alphabet α} {p q r s : α} {rest : List α} (h : WellFormed A rest)
    (hp : (A.value p).isSome) (hq : (A.value q).isSome) (hr : (A.value r).isSome)
    (hs : (A.value s).isSome) : WellFormed A (p :: q :: r :: s :: rest) := by
  obtain ⟨hLength, body, pad, rfl, hBody, hPad, hTwo⟩ := h
  refine ⟨?_, p :: q :: r :: s :: body, pad, rfl, ?_, hPad, hTwo⟩
  · simp only [List.length_cons] at hLength ⊢
    omega
  · intro c hc
    simp only [List.mem_cons] at hc
    rcases hc with rfl | rfl | rfl | rfl | hc
    · exact hp
    · exact hq
    · exact hr
    · exact hs
    · exact hBody c hc

theorem wellFormed_encode (octetList : List UInt8) : WellFormed A (encode A octetList) := by
  have hChar : ∀ d, (A.value (A.char d)).isSome := fun d => by rw [A.value_char]; rfl
  induction octetList using rec_triples with
  | nil => exact wellFormed_nil A
  | single x =>
    rw [encode_single]
    exact ⟨by simp, [_, _], [A.pad, A.pad], rfl, by simp [hChar], by simp [A.isPad_pad], by simp⟩
  | pair x y =>
    rw [encode_pair]
    exact ⟨by simp, [_, _, _], [A.pad], rfl, by simp [hChar], by simp [A.isPad_pad], by simp⟩
  | triple x y z rest ih =>
    rw [encode_cons₃]
    exact ih.cons₄ (hChar _) (hChar _) (hChar _) (hChar _)

theorem decode_encode (octetList : List UInt8) : decode A (encode A octetList) = octetList := by
  induction octetList using rec_triples with
  | nil => rfl
  | single x =>
    have hx := x.toNat_lt
    rw [encode_single, decode_padded₂ (A.value_char _) (A.value_char _) A.isPad_pad A.isPad_pad]
    have h : x.toNat / 4 % 64 * 4 + x.toNat % 4 * 16 % 64 / 16 = x.toNat := by omega
    simp only [Fin.ofNat, h, UInt8.ofNat_toNat]
  | pair x y =>
    have hx := x.toNat_lt
    have hy := y.toNat_lt
    rw [encode_pair, decode_padded₁ (A.value_char _) (A.value_char _) (A.value_char _) A.isPad_pad]
    have h₁ : x.toNat / 4 % 64 * 4 + (x.toNat % 4 * 16 + y.toNat / 16) % 64 / 16 = x.toNat := by
      omega
    have h₂ : (x.toNat % 4 * 16 + y.toNat / 16) % 64 % 16 * 16 + y.toNat % 16 * 4 % 64 / 4 =
        y.toNat := by omega
    simp only [Fin.ofNat, h₁, h₂, UInt8.ofNat_toNat]
  | triple x y z rest ih =>
    have hx := x.toNat_lt
    have hy := y.toNat_lt
    have hz := z.toNat_lt
    rw [encode_cons₃, decode_cons₄ _ (A.value_char _) (A.value_char _) (A.value_char _)
      (A.value_char _), ih]
    have h₁ : x.toNat / 4 % 64 * 4 + (x.toNat % 4 * 16 + y.toNat / 16) % 64 / 16 = x.toNat := by
      omega
    have h₂ : (x.toNat % 4 * 16 + y.toNat / 16) % 64 % 16 * 16 +
        (y.toNat % 16 * 4 + z.toNat / 64) % 64 / 4 = y.toNat := by omega
    have h₃ : (y.toNat % 16 * 4 + z.toNat / 64) % 64 % 4 * 64 + z.toNat % 64 % 64 = z.toNat := by
      omega
    simp only [Fin.ofNat, h₁, h₂, h₃, UInt8.ofNat_toNat]

end Radix64
