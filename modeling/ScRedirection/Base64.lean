import ScRedirection.Basic
import ScRedirection.Library.Radix64

/-! # base64.cpp

The encoder and the decoder as they read and write single characters. The decoder reads by
index, past the end of the last group where the text is cut short: `std::string` guarantees
the NUL at index `length()` and nothing beyond it.
-/

namespace ScRedirection.Base64

def base64Chars (url : Bool) : Bytes :=
  bytes "ABCDEFGHIJKLMNOPQRSTUVWXYZabcdefghijklmnopqrstuvwxyz0123456789" ++
    (if url then bytes "-_" else bytes "+/")

/-- `outOfRange` is a read beyond the terminating NUL, which C++ leaves undefined. -/
inductive Fault
  | badChar
  | outOfRange
  | outOfFuel
  deriving DecidableEq, Repr

/-- The position of a character; both alphabets are accepted. -/
def posOfChar (chr : UInt8) : Except Fault Nat :=
  if 65 ≤ chr ∧ chr ≤ 90 then .ok (chr.toNat - 65)
  else if 97 ≤ chr ∧ chr ≤ 122 then .ok (chr.toNat - 97 + (90 - 65) + 1)
  else if 48 ≤ chr ∧ chr ≤ 57 then .ok (chr.toNat - 48 + (90 - 65) + (122 - 97) + 2)
  else if chr = 43 ∨ chr = 45 then .ok 62
  else if chr = 47 ∨ chr = 95 then .ok 63
  else .error .badChar

/-- `base64_chars_[i]`. -/
def charAtPos (url : Bool) (i : Nat) : UInt8 := (base64Chars url).getD i 0

/-- The list is `bytes_to_encode + pos` up to `in_len`, so each call is one turn of the loop. -/
def base64Encode (url : Bool) : Bytes → Bytes
  | [] => []
  | [x] =>
    [charAtPos url ((x.toNat &&& 0xfc) >>> 2), charAtPos url ((x.toNat &&& 0x03) <<< 4),
      (if url then 46 else 61), (if url then 46 else 61)]
  | [x, y] =>
    [charAtPos url ((x.toNat &&& 0xfc) >>> 2),
      charAtPos url (((x.toNat &&& 0x03) <<< 4) + ((y.toNat &&& 0xf0) >>> 4)),
      charAtPos url ((y.toNat &&& 0x0f) <<< 2), (if url then 46 else 61)]
  | x :: y :: z :: rest =>
    charAtPos url ((x.toNat &&& 0xfc) >>> 2) ::
      charAtPos url (((x.toNat &&& 0x03) <<< 4) + ((y.toNat &&& 0xf0) >>> 4)) ::
      charAtPos url (((y.toNat &&& 0x0f) <<< 2) + ((z.toNat &&& 0xc0) >>> 6)) ::
      charAtPos url (z.toNat &&& 0x3f) :: base64Encode url rest

/-- `encoded_string[i]`. -/
def charAt (encoded : Bytes) (i : Nat) : Except Fault UInt8 :=
  if h : i < encoded.length then .ok encoded[i]
  else if i = encoded.length then .ok 0
  else .error .outOfRange

def isTrailingChar (chr : UInt8) : Bool := chr == 61 || chr == 46

/-- One turn of the loop: the bytes it appends to `ret`. The second character is looked up
before the first, and the padding tests decide which of the others are read at all. -/
def decodeGroup (encoded : Bytes) (pos : Nat) : Except Fault Bytes := do
  let pos₁ ← posOfChar (← charAt encoded (pos + 1))
  let pos₀ ← posOfChar (← charAt encoded (pos + 0))
  let byte₀ := UInt8.ofNat ((pos₀ <<< 2) + ((pos₁ &&& 0x30) >>> 4))
  let chr₂ ← charAt encoded (pos + 2)
  if isTrailingChar chr₂ then
    return [byte₀]
  let pos₂ ← posOfChar chr₂
  let byte₁ := UInt8.ofNat (((pos₁ &&& 0x0f) <<< 4) + ((pos₂ &&& 0x3c) >>> 2))
  let chr₃ ← charAt encoded (pos + 3)
  if isTrailingChar chr₃ then
    return [byte₀, byte₁]
  let pos₃ ← posOfChar chr₃
  return [byte₀, byte₁, UInt8.ofNat (((pos₂ &&& 0x03) <<< 6) + pos₃)]

/-- `while (pos < in_len)`, with a bound on the number of turns. -/
def decodeLoop (encoded : Bytes) : Nat → Nat → Bytes → Except Fault Bytes
  | 0, pos, ret => if pos < encoded.length then .error .outOfFuel else .ok ret
  | fuel + 1, pos, ret =>
    if pos < encoded.length then do
      let group ← decodeGroup encoded pos
      decodeLoop encoded fuel (pos + 4) (ret ++ group)
    else .ok ret

/-- `decode` without `remove_linebreaks`, the only way the server calls it. -/
def base64Decode (encoded : Bytes) : Except Fault Bytes :=
  decodeLoop encoded encoded.length 0 []

/-! The masks and shifts are divisions and remainders of what they are applied to. -/

theorem mask_octet : ∀ n < 256, (n &&& 0xfc) >>> 2 = n / 4 ∧ (n &&& 0x03) <<< 4 = n % 4 * 16 ∧
    (n &&& 0xf0) >>> 4 = n / 16 ∧ (n &&& 0x0f) <<< 2 = n % 16 * 4 ∧
    (n &&& 0xc0) >>> 6 = n / 64 ∧ n &&& 0x3f = n % 64 := by
  decide +kernel

theorem mask_sextet : ∀ n < 64, n <<< 2 = n * 4 ∧ (n &&& 0x30) >>> 4 = n / 16 ∧
    (n &&& 0x0f) <<< 4 = n % 16 * 16 ∧ (n &&& 0x3c) >>> 2 = n / 4 ∧
    (n &&& 0x03) <<< 6 = n % 4 * 64 := by
  decide +kernel

theorem posOfChar_lt {chr : UInt8} {n : Nat} (h : posOfChar chr = .ok n) : n < 64 := by
  have hChr := chr.toNat_lt
  unfold posOfChar at h
  split_ifs at h <;>
    simp only [Except.ok.injEq, UInt8.le_iff_toNat_le, UInt8.toNat_ofNat] at * <;> omega

/-! The code's tables are an alphabet of radix 64: it writes the standard one and reads the
standard and the URL one, with `=` or `.` as padding. -/

def sextet (chr : UInt8) : Option (Fin 64) :=
  match h : posOfChar chr with
  | .ok n => some ⟨n, posOfChar_lt h⟩
  | .error _ => none

theorem sextet_eq_some {chr : UInt8} {d : Fin 64} :
    sextet chr = some d ↔ posOfChar chr = .ok d.val := by
  unfold sextet
  split <;> rename_i h
  · simp [h, Fin.ext_iff]
  · simp [h]

theorem mem_base64Chars (url : Bool) (chr : UInt8) : chr ∈ base64Chars url ↔
    chr.toNat ∈ List.range' 65 26 ++ List.range' 97 26 ++ List.range' 48 10 ++
      if url then [45, 95] else [43, 47] := by
  have hTable : base64Chars url = (List.range' 65 26 ++ List.range' 97 26 ++ List.range' 48 10 ++
      if url then [45, 95] else [43, 47]).map UInt8.ofNat := by
    cases url <;> decide +kernel
  have hSmall : ∀ n ∈ List.range' 65 26 ++ List.range' 97 26 ++ List.range' 48 10 ++
      if url then [45, 95] else [43, 47], n < 256 := by
    cases url <;> decide
  rw [hTable, List.mem_map]
  constructor
  · rintro ⟨n, hn, rfl⟩
    rwa [UInt8.toNat_ofNat', Nat.mod_eq_of_lt (hSmall n hn)]
  · exact fun hMem => ⟨chr.toNat, hMem, UInt8.ofNat_toNat⟩

/-- The characters with a position are those of the two tables. -/
theorem sextet_isSome_iff (chr : UInt8) :
    (sextet chr).isSome = true ↔ chr ∈ base64Chars false ∨ chr ∈ base64Chars true := by
  have hSome : (sextet chr).isSome = true ↔ ∃ n, posOfChar chr = .ok n := by
    unfold sextet
    split <;> simp_all
  rw [hSome, mem_base64Chars, mem_base64Chars]
  simp only [List.mem_append, List.mem_range'_1, List.mem_cons, List.not_mem_nil, or_false,
    Bool.false_eq_true, if_true, if_false]
  unfold posOfChar
  split_ifs <;>
    simp only [UInt8.le_iff_toNat_le, ← UInt8.toNat_inj, UInt8.toNat_ofNat] at * <;> simp <;> omega

theorem isTrailingChar_iff {chr : UInt8} : isTrailingChar chr = true ↔ chr = 61 ∨ chr = 46 := by
  simp [isTrailingChar]

theorem posOfChar_charAtPos (url : Bool) : ∀ n < 64, posOfChar (charAtPos url n) = .ok n := by
  cases url <;> decide +kernel

def alphabet (url : Bool) : Radix64.Alphabet UInt8 where
  char d := charAtPos url d.val
  value := sextet
  pad := if url then 46 else 61
  isPad := isTrailingChar
  value_char d := sextet_eq_some.mpr (posOfChar_charAtPos url d.val d.isLt)
  isPad_pad := by cases url <;> decide
  value_of_isPad chr h := by
    rcases isTrailingChar_iff.mp h with rfl | rfl <;> decide

theorem base64Encode_eq (url : Bool) (octetList : Bytes) :
    base64Encode url octetList = Radix64.encode (alphabet url) octetList := by
  have hDigit : ∀ n, n < 64 → (Fin.ofNat 64 n).val = n := fun n h => Nat.mod_eq_of_lt h
  induction octetList using Radix64.rec_triples with
  | nil => rfl
  | single x =>
    have hx := x.toNat_lt
    obtain ⟨hxHigh, hxLow, -⟩ := mask_octet x.toNat hx
    rw [base64Encode, Radix64.encode_single, hxHigh, hxLow]
    simp only [alphabet, hDigit (x.toNat / 4) (by omega), hDigit (x.toNat % 4 * 16) (by omega)]
  | pair x y =>
    have hx := x.toNat_lt
    have hy := y.toNat_lt
    obtain ⟨hxHigh, hxLow, -⟩ := mask_octet x.toNat hx
    obtain ⟨-, -, hyHigh, hyLow, -⟩ := mask_octet y.toNat hy
    rw [base64Encode, Radix64.encode_pair, hxHigh, hxLow, hyHigh, hyLow]
    simp only [alphabet, hDigit (x.toNat / 4) (by omega),
      hDigit (x.toNat % 4 * 16 + y.toNat / 16) (by omega), hDigit (y.toNat % 16 * 4) (by omega)]
  | triple x y z rest ih =>
    have hx := x.toNat_lt
    have hy := y.toNat_lt
    have hz := z.toNat_lt
    obtain ⟨hxHigh, hxLow, -⟩ := mask_octet x.toNat hx
    obtain ⟨-, -, hyHigh, hyLow, -⟩ := mask_octet y.toNat hy
    obtain ⟨-, -, -, -, hzHigh, hzLow⟩ := mask_octet z.toNat hz
    rw [base64Encode, Radix64.encode_cons₃, hxHigh, hxLow, hyHigh, hyLow, hzHigh, hzLow, ih]
    simp only [alphabet, hDigit (x.toNat / 4) (by omega),
      hDigit (x.toNat % 4 * 16 + y.toNat / 16) (by omega),
      hDigit (y.toNat % 16 * 4 + z.toNat / 64) (by omega), hDigit (z.toNat % 64) (by omega)]

/-! Reading one group, by what stands at its four characters. -/

theorem charAt_of_drop {encoded : Bytes} {pos : Nat} (k : Nat) (chr : UInt8)
    (h : (encoded.drop pos)[k]? = some chr) : charAt encoded (pos + k) = .ok chr := by
  rw [List.getElem?_drop] at h
  obtain ⟨hLength, hChr⟩ := List.getElem?_eq_some_iff.mp h
  rw [charAt, dif_pos hLength, hChr]

theorem ok_bind {α β : Type} (x : α) (f : α → Except Fault β) :
    ((Except.ok x : Except Fault α) >>= f) = f x := rfl

theorem not_trailing_of_sextet {chr : UInt8} {d : Fin 64} (h : sextet chr = some d) :
    isTrailingChar chr = false := by
  cases hPad : isTrailingChar chr with
  | false => rfl
  | true => cases h.symm.trans ((alphabet false).value_of_isPad chr hPad)

section Group

variable {encoded : Bytes} {pos : Nat} {p q r s : UInt8} {rest : Bytes} {a b c d : Fin 64}

theorem decodeGroup_full (h : encoded.drop pos = p :: q :: r :: s :: rest)
    (hp : sextet p = some a) (hq : sextet q = some b) (hr : sextet r = some c)
    (hs : sextet s = some d) :
    decodeGroup encoded pos = .ok [UInt8.ofNat (a.val * 4 + b.val / 16),
      UInt8.ofNat (b.val % 16 * 16 + c.val / 4), UInt8.ofNat (c.val % 4 * 64 + d.val)] := by
  obtain ⟨haHigh, -⟩ := mask_sextet a.val a.isLt
  obtain ⟨-, hbHigh, hbLow, -⟩ := mask_sextet b.val b.isLt
  obtain ⟨-, -, -, hcHigh, hcLow⟩ := mask_sextet c.val c.isLt
  have hrPad : isTrailingChar r = false := not_trailing_of_sextet hr
  have hsPad : isTrailingChar s = false := not_trailing_of_sextet hs
  simp only [decodeGroup, charAt_of_drop 1 q (by rw [h]; rfl),
    charAt_of_drop 0 p (by rw [h]; rfl),
    charAt_of_drop 2 r (by rw [h]; rfl),
    charAt_of_drop 3 s (by rw [h]; rfl), ok_bind, sextet_eq_some.mp hp,
    sextet_eq_some.mp hq, sextet_eq_some.mp hr, sextet_eq_some.mp hs, hrPad, hsPad,
    Bool.false_eq_true, if_false, haHigh, hbHigh, hbLow, hcHigh, hcLow]
  rfl

theorem decodeGroup_padded₁ (h : encoded.drop pos = p :: q :: r :: s :: rest)
    (hp : sextet p = some a) (hq : sextet q = some b) (hr : sextet r = some c)
    (hs : isTrailingChar s = true) :
    decodeGroup encoded pos = .ok [UInt8.ofNat (a.val * 4 + b.val / 16),
      UInt8.ofNat (b.val % 16 * 16 + c.val / 4)] := by
  obtain ⟨haHigh, -⟩ := mask_sextet a.val a.isLt
  obtain ⟨-, hbHigh, hbLow, -⟩ := mask_sextet b.val b.isLt
  obtain ⟨-, -, -, hcHigh, -⟩ := mask_sextet c.val c.isLt
  have hrPad : isTrailingChar r = false := not_trailing_of_sextet hr
  simp only [decodeGroup, charAt_of_drop 1 q (by rw [h]; rfl),
    charAt_of_drop 0 p (by rw [h]; rfl),
    charAt_of_drop 2 r (by rw [h]; rfl),
    charAt_of_drop 3 s (by rw [h]; rfl), ok_bind, sextet_eq_some.mp hp,
    sextet_eq_some.mp hq, sextet_eq_some.mp hr, hrPad, hs, Bool.false_eq_true, if_false, if_true,
    haHigh, hbHigh, hbLow, hcHigh]
  rfl

theorem decodeGroup_padded₂ (h : encoded.drop pos = p :: q :: r :: s :: rest)
    (hp : sextet p = some a) (hq : sextet q = some b) (hr : isTrailingChar r = true) :
    decodeGroup encoded pos = .ok [UInt8.ofNat (a.val * 4 + b.val / 16)] := by
  obtain ⟨haHigh, -⟩ := mask_sextet a.val a.isLt
  obtain ⟨-, hbHigh, -⟩ := mask_sextet b.val b.isLt
  simp only [decodeGroup, charAt_of_drop 1 q (by rw [h]; rfl),
    charAt_of_drop 0 p (by rw [h]; rfl),
    charAt_of_drop 2 r (by rw [h]; rfl), ok_bind, sextet_eq_some.mp hp,
    sextet_eq_some.mp hq, hr, if_true, haHigh, hbHigh]
  rfl

end Group

theorem decodeLoop_cons {encoded : Bytes} {fuel pos : Nat} {ret group : Bytes} {p q r s : UInt8}
    {rest : Bytes} (h : encoded.drop pos = p :: q :: r :: s :: rest)
    (hGroup : decodeGroup encoded pos = .ok group) :
    decodeLoop encoded (fuel + 1) pos ret = decodeLoop encoded fuel (pos + 4) (ret ++ group) := by
  have hPos : pos < encoded.length := by
    have hLength := congrArg List.length h
    simp only [List.length_drop, List.length_cons] at hLength
    omega
  rw [decodeLoop, if_pos hPos, hGroup, ok_bind]

theorem decodeLoop_end {encoded : Bytes} {pos : Nat} (h : encoded.drop pos = []) (fuel : Nat)
    (ret : Bytes) : decodeLoop encoded fuel pos ret = .ok ret := by
  have hPos : ¬ pos < encoded.length := by
    have hLength := List.drop_eq_nil_iff.mp h
    omega
  cases fuel <;> rw [decodeLoop, if_neg hPos]

/-! The loop never stops for want of turns. -/

theorem bind_ne_outOfFuel {α β : Type} {x : Except Fault α} {f : α → Except Fault β}
    (hx : x ≠ .error .outOfFuel) (hf : ∀ a, f a ≠ .error .outOfFuel) :
    (x >>= f) ≠ .error .outOfFuel := by
  cases x with
  | error fault =>
    intro h
    cases h
    exact hx rfl
  | ok a => exact hf a

theorem posOfChar_ne_outOfFuel (chr : UInt8) : posOfChar chr ≠ .error .outOfFuel := by
  unfold posOfChar
  split_ifs <;> simp

theorem charAt_ne_outOfFuel (encoded : Bytes) (i : Nat) :
    charAt encoded i ≠ .error .outOfFuel := by
  unfold charAt
  split_ifs <;> simp

theorem decodeGroup_ne_outOfFuel (encoded : Bytes) (pos : Nat) :
    decodeGroup encoded pos ≠ .error .outOfFuel := by
  unfold decodeGroup
  apply bind_ne_outOfFuel (charAt_ne_outOfFuel _ _)
  intro chr₁
  apply bind_ne_outOfFuel (posOfChar_ne_outOfFuel _)
  intro pos₁
  apply bind_ne_outOfFuel (charAt_ne_outOfFuel _ _)
  intro chr₀
  apply bind_ne_outOfFuel (posOfChar_ne_outOfFuel _)
  intro pos₀
  apply bind_ne_outOfFuel (charAt_ne_outOfFuel _ _)
  intro chr₂
  split
  · simp [pure, Except.pure]
  apply bind_ne_outOfFuel (posOfChar_ne_outOfFuel _)
  intro pos₂
  apply bind_ne_outOfFuel (charAt_ne_outOfFuel _ _)
  intro chr₃
  split
  · simp [pure, Except.pure]
  apply bind_ne_outOfFuel (posOfChar_ne_outOfFuel _)
  intro pos₃
  simp [pure, Except.pure]

theorem decodeLoop_ne_outOfFuel {encoded : Bytes} {fuel : Nat} :
    ∀ {pos : Nat} {ret : Bytes}, encoded.length ≤ pos + fuel →
      decodeLoop encoded fuel pos ret ≠ .error .outOfFuel := by
  induction fuel with
  | zero =>
    intro pos ret hFuel
    rw [decodeLoop, if_neg (by omega)]
    simp
  | succ fuel ih =>
    intro pos ret hFuel
    rw [decodeLoop]
    split_ifs
    · apply bind_ne_outOfFuel (decodeGroup_ne_outOfFuel encoded pos)
      intro group
      exact ih (by omega)
    · simp

theorem base64Decode_ne_outOfFuel (encoded : Bytes) :
    base64Decode encoded ≠ .error .outOfFuel :=
  decodeLoop_ne_outOfFuel (by omega)

/-! Well-formed text is decoded. -/

theorem drop_four {encoded : Bytes} {pos : Nat} {p q r s : UInt8} {rest : Bytes}
    (h : encoded.drop pos = p :: q :: r :: s :: rest) : encoded.drop (pos + 4) = rest := by
  rw [← List.drop_drop, h]
  rfl

theorem decodeLoop_wellFormed {encoded text : Bytes} {url : Bool}
    (h : Radix64.WellFormed (alphabet url) text) : ∀ fuel pos ret, encoded.drop pos = text →
      text.length ≤ fuel →
      decodeLoop encoded fuel pos ret = .ok (ret ++ Radix64.decode (alphabet url) text) := by
  refine h.rec_groups (motive := fun text => ∀ fuel pos ret, encoded.drop pos = text →
    text.length ≤ fuel →
    decodeLoop encoded fuel pos ret = .ok (ret ++ Radix64.decode (alphabet url) text))
    ?nil ?full ?padded₁ ?padded₂
  case nil =>
    intro fuel pos ret hText _
    rw [decodeLoop_end hText, Radix64.decode_nil, List.append_nil]
  case full =>
    intro p q r s rest hp hq hr hs ih fuel pos ret hText hFuel
    obtain ⟨a, ha⟩ := Option.isSome_iff_exists.mp hp
    obtain ⟨b, hb⟩ := Option.isSome_iff_exists.mp hq
    obtain ⟨c, hc⟩ := Option.isSome_iff_exists.mp hr
    obtain ⟨d, hd⟩ := Option.isSome_iff_exists.mp hs
    obtain ⟨fuel, rfl⟩ : ∃ m, fuel = m + 1 := ⟨fuel - 1, by simp at hFuel; omega⟩
    have hRest : rest.length ≤ fuel := by
      simp only [List.length_cons] at hFuel
      omega
    rw [decodeLoop_cons hText (decodeGroup_full hText ha hb hc hd),
      ih fuel (pos + 4) _ (drop_four hText) hRest, Radix64.decode_cons₄ rest ha hb hc hd]
    simp
  case padded₁ =>
    intro p q r s hp hq hr hs fuel pos ret hText hFuel
    obtain ⟨a, ha⟩ := Option.isSome_iff_exists.mp hp
    obtain ⟨b, hb⟩ := Option.isSome_iff_exists.mp hq
    obtain ⟨c, hc⟩ := Option.isSome_iff_exists.mp hr
    obtain ⟨fuel, rfl⟩ : ∃ m, fuel = m + 1 := ⟨fuel - 1, by simp at hFuel; omega⟩
    rw [decodeLoop_cons hText (decodeGroup_padded₁ hText ha hb hc hs),
      decodeLoop_end (drop_four hText), Radix64.decode_padded₁ ha hb hc hs]
  case padded₂ =>
    intro p q r s hp hq hr hs fuel pos ret hText hFuel
    obtain ⟨a, ha⟩ := Option.isSome_iff_exists.mp hp
    obtain ⟨b, hb⟩ := Option.isSome_iff_exists.mp hq
    obtain ⟨fuel, rfl⟩ : ∃ m, fuel = m + 1 := ⟨fuel - 1, by simp at hFuel; omega⟩
    rw [decodeLoop_cons hText (decodeGroup_padded₂ hText ha hb hr),
      decodeLoop_end (drop_four hText), Radix64.decode_padded₂ ha hb hr hs]

theorem base64Decode_wellFormed {text : Bytes} (url : Bool)
    (h : Radix64.WellFormed (alphabet url) text) :
    base64Decode text = .ok (Radix64.decode (alphabet url) text) :=
  decodeLoop_wellFormed h text.length 0 [] rfl (Nat.le_refl _)

/-- The decoder undoes the encoder on every byte string, with either alphabet. -/
theorem base64Decode_base64Encode (url : Bool) (octetList : Bytes) :
    base64Decode (base64Encode url octetList) = .ok octetList := by
  rw [base64Encode_eq, base64Decode_wellFormed url (Radix64.wellFormed_encode _ _),
    Radix64.decode_encode]

example : base64Encode false (bytes "hello") = bytes "aGVsbG8=" := by decide
example : base64Decode (bytes "aGVsbG8=") = .ok (bytes "hello") := by decide

end ScRedirection.Base64
