import ScRedirection.Json.Token
import ScRedirection.Json.Writer

/-! # What the writer prints of a scalar, as the reader scans and decodes it

A number is digits, perhaps behind a sign; a string is its escaped characters between quotes. The
reader scans both to their end and no further.
-/

namespace ScRedirection.Json

variable {D : Type}

/-! ## Digits -/

theorem isDigit_iff {c : UInt8} : isDigit c = true ↔ 48 ≤ c.toNat ∧ c.toNat ≤ 57 := by
  rw [isDigit, Bool.and_eq_true, decide_eq_true_eq, decide_eq_true_eq, UInt8.le_iff_toNat_le,
    UInt8.le_iff_toNat_le]
  rfl

def ofDigits : Bytes → Nat → Nat
  | [], value => value
  | c :: digits, value => ofDigits digits (value * 10 + (c.toNat - 48))

theorem le_ofDigits (digits : Bytes) (value : Nat) : value ≤ ofDigits digits value := by
  induction digits generalizing value with
  | nil => exact Nat.le_refl _
  | cons c digits ih =>
    have hRest := ih (value * 10 + (c.toNat - 48))
    rw [ofDigits]
    omega

theorem ten_le_ofDigits {value : Nat} {digits : Bytes} (h : digits ≠ []) :
    value * 10 ≤ ofDigits digits value := by
  cases digits with
  | nil => exact absurd rfl h
  | cons c digits =>
    have hRest := le_ofDigits digits (value * 10 + (c.toNat - 48))
    rw [ofDigits]
    omega

/-- The overflow test stops no number that is in range. -/
theorem decodeDigits_ofDigits {max value : Nat} {digits : Bytes} (hTen : 10 ≤ max)
    (hDigits : ∀ c ∈ digits, isDigit c = true) (hMax : ofDigits digits value ≤ max) :
    decodeDigits max value digits = some (ofDigits digits value) := by
  induction digits generalizing value with
  | nil => rfl
  | cons c digits ih =>
    obtain ⟨hDigit, hRest⟩ := List.forall_mem_cons.mp hDigits
    rw [ofDigits] at hMax ⊢
    have hNext := le_ofDigits digits (value * 10 + (c.toNat - 48))
    have hGuard : ¬(value ≥ max / 10 ∧ (value > max / 10 ∨ digits ≠ [] ∨
        c.toNat - 48 > max % 10)) := by
      rintro ⟨hValue, hOver | hMore | hLast⟩
      · omega
      · have hTooMuch := @ten_le_ofDigits (value * 10 + (c.toNat - 48)) _ hMore
        omega
      · omega
    rw [decodeDigits, if_pos hDigit]
    dsimp only
    rw [if_neg hGuard]
    exact ih hRest hMax

/-- What is decoded is in range. -/
theorem decodeDigits_le {max value n : Nat} {digits : Bytes} (hValue : value ≤ max)
    (h : decodeDigits max value digits = some n) : n ≤ max := by
  induction digits generalizing value with
  | nil =>
    cases h
    exact hValue
  | cons c digits ih =>
    rw [decodeDigits] at h
    split at h
    case isFalse => cases h
    rename_i hDigit
    rw [isDigit_iff] at hDigit
    dsimp only at h
    split at h
    case isTrue => cases h
    rename_i hGuard
    apply ih _ h
    by_contra hOver
    apply hGuard
    omega

theorem toUInt8_digit {c : Char} (h : c.isDigit = true) :
    isDigit c.toUInt8 = true ∧ c.toUInt8.toNat = c.toNat := by
  simp only [Char.isDigit, Bool.and_eq_true, decide_eq_true_eq] at h
  have hLow : 48 ≤ c.val.toNat := UInt32.le_iff_toNat_le.mp h.1
  have hHigh : c.val.toNat ≤ 57 := UInt32.le_iff_toNat_le.mp h.2
  have hNat : c.toUInt8.toNat = c.toNat := by
    rw [Char.toUInt8, UInt32.toNat_toUInt8]
    exact Nat.mod_eq_of_lt (by omega)
  refine ⟨isDigit_iff.mpr ?_, hNat⟩
  rw [hNat]
  exact ⟨hLow, hHigh⟩

theorem bytes_toString_nat (n : Nat) :
    bytes (toString n) = (Nat.toDigits 10 n).map Char.toUInt8 := by
  rw [bytes, Nat.toString_eq_repr, Nat.toList_repr]

theorem isDigit_toString_nat (n : Nat) : ∀ c ∈ bytes (toString n), isDigit c = true := by
  intro c hc
  rw [bytes_toString_nat] at hc
  obtain ⟨d, hd, rfl⟩ := List.mem_map.mp hc
  exact (toUInt8_digit (Nat.isDigit_of_mem_toDigits (by decide) (by decide) hd)).1

theorem toString_nat_ne_nil (n : Nat) : bytes (toString n) ≠ [] := by
  rw [bytes_toString_nat]
  exact mt List.map_eq_nil_iff.mp Nat.toDigits_ne_nil

theorem ofDigits_map_toUInt8 {value : Nat} {digits : List Char}
    (h : ∀ c ∈ digits, c.isDigit = true) :
    ofDigits (digits.map Char.toUInt8) value = Nat.ofDigitChars 10 digits value := by
  induction digits generalizing value with
  | nil => simp [ofDigits]
  | cons c digits ih =>
    obtain ⟨hDigit, hRest⟩ := List.forall_mem_cons.mp h
    have hZero : '0'.toNat = 48 := by decide
    rw [List.map_cons, ofDigits, ih hRest, Nat.ofDigitChars_cons, (toUInt8_digit hDigit).2,
      Nat.mul_comm, hZero]

theorem ofDigits_toString_nat (n : Nat) : ofDigits (bytes (toString n)) 0 = n := by
  rw [bytes_toString_nat, ofDigits_map_toUInt8]
  · exact Nat.ofDigitChars_ten_toDigits
  · intro c hc
    exact Nat.isDigit_of_mem_toDigits (by decide) (by decide) hc

theorem toString_negSucc (n : Nat) :
    bytes (toString (Int.negSucc n)) = ch '-' :: bytes (toString (n + 1)) := by
  have hSign : toString (Int.negSucc n) = "-" ++ toString (n + 1) :=
    String.toByteArray_inj.mp rfl
  rw [hSign, bytes, String.toList_append, List.map_append]
  rfl

/-! ## Tokens -/

/-- What follows a value inside an array or an object, or nothing. -/
def Stops (rest : Bytes) : Prop :=
  ∀ c ∈ rest.head?, c = ch ',' ∨ c = ch ']' ∨ c = ch '}'

theorem stops_nil : Stops [] := fun _ h => nomatch h

theorem stops_cons {c : UInt8} (h : c = ch ',' ∨ c = ch ']' ∨ c = ch '}') (rest : Bytes) :
    Stops (c :: rest) := by
  intro d hd
  rw [List.head?_cons, Option.mem_some_iff] at hd
  exact hd ▸ h

def IsSpace (c : UInt8) : Bool := c == ch ' ' || c == ch '\t' || c == ch '\r' || c == ch '\n'

theorem readToken_scan {c : UInt8} {t rest : Bytes} {type : TokenType}
    (hSpace : IsSpace c = false) (hScan : scanToken c (t ++ rest) = (type, rest)) :
    readToken (c :: t ++ rest) = (⟨type, c :: t⟩, rest) := by
  have hSkip : skipSpaces (c :: t ++ rest) = c :: (t ++ rest) := by
    rw [skipSpaces, List.cons_append]
    exact List.dropWhile_cons_of_neg (by simpa [IsSpace] using hSpace)
  have hLength : (t ++ rest).length + 1 - rest.length = (c :: t).length := by
    rw [List.length_append, List.length_cons]
    omega
  rw [readToken, hSkip]
  dsimp only
  rw [hScan]
  dsimp only
  rw [hLength, ← List.cons_append, List.take_left]

/-- A text that the reader takes whole for a number, whatever follows it in a document. -/
structure NumberText (text : Bytes) : Prop where
  first : ∃ c ∈ text.head?, isDigit c = true ∨ c = ch '-'
  whole : ∀ rest, Stops rest → readNumber (text.tail ++ rest) = rest

theorem number_first {c : UInt8} (h : isDigit c = true ∨ c = ch '-') :
    IsSpace c = false ∧ c ≠ ch '{' ∧ c ≠ ch '}' ∧ c ≠ ch '[' ∧ c ≠ ch ']' ∧ c ≠ ch '"' ∧
      c ≠ ch '/' ∧ (isDigit c || c == ch '-') = true := by
  have hAll : ∀ n < 256, isDigit (UInt8.ofNat n) = true ∨ UInt8.ofNat n = ch '-' →
      IsSpace (UInt8.ofNat n) = false ∧ UInt8.ofNat n ≠ ch '{' ∧ UInt8.ofNat n ≠ ch '}' ∧
      UInt8.ofNat n ≠ ch '[' ∧ UInt8.ofNat n ≠ ch ']' ∧ UInt8.ofNat n ≠ ch '"' ∧
      UInt8.ofNat n ≠ ch '/' ∧ (isDigit (UInt8.ofNat n) || UInt8.ofNat n == ch '-') = true := by
    decide +kernel
  simpa only [UInt8.ofNat_toNat] using hAll c.toNat c.toNat_lt (by simpa using h)

theorem readToken_number {text rest : Bytes} (h : NumberText text) (hRest : Stops rest) :
    readToken (text ++ rest) = (⟨.number, text⟩, rest) := by
  obtain ⟨c, hc, hFirst⟩ := h.first
  obtain ⟨t, rfl⟩ := List.head?_eq_some_iff.mp hc
  obtain ⟨hSpace, h₁, h₂, h₃, h₄, h₅, h₆, hNumber⟩ := number_first hFirst
  apply readToken_scan hSpace
  have hWhole := h.whole rest hRest
  rw [List.tail_cons] at hWhole
  simp only [scanToken, h₁, h₂, h₃, h₄, h₅, h₆, hNumber, hWhole, if_false, if_true]

theorem stops_not_number {rest : Bytes} (h : Stops rest) :
    rest.dropWhile isDigit = rest ∧ readFraction rest = rest ∧ readExponent rest = rest := by
  cases rest with
  | nil => exact ⟨rfl, rfl, rfl⟩
  | cons c rest =>
    have hc : isDigit c = false ∧ c ≠ ch '.' ∧ c ≠ ch 'e' ∧ c ≠ ch 'E' := by
      rcases h c rfl with rfl | rfl | rfl <;> decide
    obtain ⟨hDigit, hPoint, hLower, hUpper⟩ := hc
    refine ⟨?_, ?_, ?_⟩
    · exact List.dropWhile_cons_of_neg (by simp [hDigit])
    · rw [readFraction, if_neg hPoint]
    · cases rest with
      | nil => simp [readExponent, hLower, hUpper]
      | cons d rest => simp [readExponent, hLower, hUpper]

theorem readNumber_digits {digits rest : Bytes} (h : ∀ c ∈ digits, isDigit c = true)
    (hRest : Stops rest) : readNumber (digits ++ rest) = rest := by
  obtain ⟨hDigits, hFraction, hExponent⟩ := stops_not_number hRest
  rw [readNumber, List.dropWhile_append_of_pos h, hDigits, hFraction, hExponent]

theorem readNumber_fraction (digits : Bytes) {decimals rest : Bytes}
    (h : ∀ c ∈ digits, isDigit c = true)
    (hDecimals : ∀ c ∈ decimals, isDigit c = true) (hRest : Stops rest) :
    readNumber (digits ++ ch '.' :: decimals ++ rest) = rest := by
  obtain ⟨hDigits, -, hExponent⟩ := stops_not_number hRest
  have hPoint : isDigit (ch '.') = false := by decide
  rw [readNumber, List.append_assoc, List.dropWhile_append_of_pos h, List.cons_append,
    List.dropWhile_cons_of_neg (by rw [hPoint]; decide), readFraction, if_pos rfl,
    List.dropWhile_append_of_pos hDecimals, hDigits, hExponent]

theorem numberText_nat (n : Nat) : NumberText (bytes (toString n)) := by
  have hDigits := isDigit_toString_nat n
  obtain ⟨c, t, hText⟩ := List.exists_cons_of_ne_nil (toString_nat_ne_nil n)
  rw [hText] at hDigits ⊢
  obtain ⟨hFirst, hTail⟩ := List.forall_mem_cons.mp hDigits
  exact ⟨⟨c, rfl, .inl hFirst⟩, fun rest hRest => readNumber_digits hTail hRest⟩

theorem numberText_negSucc (n : Nat) : NumberText (bytes (toString (Int.negSucc n))) := by
  rw [toString_negSucc]
  exact ⟨⟨_, rfl, .inr rfl⟩,
    fun rest hRest => readNumber_digits (isDigit_toString_nat (n + 1)) hRest⟩

/-! ## Numbers -/

theorem toString_nat_not_negative (n : Nat) :
    ((bytes (toString n)).head? == some (ch '-')) = false := by
  obtain ⟨c, t, hText⟩ := List.exists_cons_of_ne_nil (toString_nat_ne_nil n)
  have hDigit := isDigit_toString_nat n c (hText ▸ List.mem_cons_self)
  rw [hText, List.head?_cons, beq_eq_false_iff_ne]
  intro hMinus
  rw [Option.some.inj hMinus] at hDigit
  exact absurd hDigit (by decide)

theorem decodeNumber_nat (doubles : Doubles D) {n : Nat} (h : n ≤ maxLargestUInt) :
    decodeNumber doubles (bytes (toString n)) =
      some (if n ≤ maxInt then .int n else .uint n) := by
  have hDecode : decodeDigits maxLargestUInt 0 (bytes (toString n)) = some n := by
    rw [decodeDigits_ofDigits (by decide) (isDigit_toString_nat n)]
    · rw [ofDigits_toString_nat]
    · rwa [ofDigits_toString_nat]
  simp only [decodeNumber, toString_nat_not_negative, Bool.false_eq_true, if_false, hDecode]
  split_ifs <;> rfl

theorem decodeNumber_negSucc (doubles : Doubles D) {n : Nat} (h : n ≤ maxLargestInt) :
    decodeNumber doubles (bytes (toString (Int.negSucc n))) = some (.int (Int.negSucc n)) := by
  have hDecode : decodeDigits (maxLargestInt + 1) 0 (bytes (toString (n + 1))) = some (n + 1) := by
    rw [decodeDigits_ofDigits (by decide) (isDigit_toString_nat (n + 1))]
    · rw [ofDigits_toString_nat]
    · rw [ofDigits_toString_nat]
      exact Nat.succ_le_succ h
  rw [toString_negSucc]
  simp only [decodeNumber, List.head?_cons, beq_self_eq_true, if_true, List.tail_cons, hDecode]
  rfl

/-! ## Strings -/

/-- A character is copied, put behind a backslash under a name of its own, or spelled out. -/
theorem escape_kinds (c : UInt8) :
    (escape c = [c] ∧ c ≠ ch '"' ∧ c ≠ ch '\\') ∨
    (∃ e, escape c = [ch '\\', e] ∧ ∀ fuel rest decoded,
      decodeCharacters (fuel + 1) (ch '\\' :: e :: rest) decoded =
        decodeCharacters fuel rest (decoded ++ [c])) ∨
    (∃ h l, escape c = [ch '\\', ch 'u', ch '0', ch '0', h, l] ∧ h ≠ ch '"' ∧ h ≠ ch '\\' ∧
      l ≠ ch '"' ∧ l ≠ ch '\\' ∧ hexValue h = some (c.toNat / 16) ∧
      hexValue l = some (c.toNat % 16) ∧ c.toNat < 32) := by
  unfold escape
  split_ifs with h₁ h₂ h₃ h₄ h₅ h₆ h₇ h₈
  · exact .inr (.inl ⟨ch '"', rfl, fun _ _ _ => by subst h₁; rfl⟩)
  · exact .inr (.inl ⟨ch '\\', rfl, fun _ _ _ => by subst h₂; rfl⟩)
  · exact .inr (.inl ⟨ch 'b', rfl, fun _ _ _ => by subst h₃; rfl⟩)
  · exact .inr (.inl ⟨ch 'f', rfl, fun _ _ _ => by subst h₄; rfl⟩)
  · exact .inr (.inl ⟨ch 'n', rfl, fun _ _ _ => by subst h₅; rfl⟩)
  · exact .inr (.inl ⟨ch 'r', rfl, fun _ _ _ => by subst h₆; rfl⟩)
  · exact .inr (.inl ⟨ch 't', rfl, fun _ _ _ => by subst h₇; rfl⟩)
  · refine .inr (.inr ⟨_, _, rfl, ?_⟩)
    have hAll : ∀ n < 256, (isControlCharacter (UInt8.ofNat n) || UInt8.ofNat n == 0) = true →
        hexDigit (n / 16) ≠ ch '"' ∧ hexDigit (n / 16) ≠ ch '\\' ∧
        hexDigit (n % 16) ≠ ch '"' ∧ hexDigit (n % 16) ≠ ch '\\' ∧
        hexValue (hexDigit (n / 16)) = some (n / 16) ∧
        hexValue (hexDigit (n % 16)) = some (n % 16) ∧ n < 32 := by
      decide +kernel
    exact hAll c.toNat c.toNat_lt (by simpa only [UInt8.ofNat_toNat] using h₈)
  · exact .inl ⟨rfl, h₁, h₂⟩

theorem readString_plain {c : UInt8} (hQuote : c ≠ ch '"') (hSlash : c ≠ ch '\\') (rest : Bytes) :
    readString (c :: rest) = readString rest := by
  rw [readString.eq_def]
  dsimp only
  rw [if_neg hSlash, if_neg hQuote]

theorem readString_escape (c : UInt8) (rest : Bytes) :
    readString (escape c ++ rest) = readString rest := by
  rcases escape_kinds c with ⟨h, hQuote, hSlash⟩ | ⟨e, h, -⟩ | ⟨hi, lo, h, h₁, h₂, h₃, h₄, -⟩
  · rw [h]
    exact readString_plain hQuote hSlash rest
  · rw [h]
    rfl
  · have hSkip : readString ([ch '\\', ch 'u', ch '0', ch '0', hi, lo] ++ rest) =
        readString (hi :: lo :: rest) := rfl
    rw [h, hSkip, readString_plain h₁ h₂, readString_plain h₃ h₄]

theorem readString_quoted (s rest : Bytes) :
    readString (s.flatMap escape ++ ch '"' :: rest) = (true, rest) := by
  induction s with
  | nil =>
    rw [List.flatMap_nil, List.nil_append, readString.eq_def]
    rfl
  | cons c s ih => rw [List.flatMap_cons, List.append_assoc, readString_escape, ih]

theorem decodeCharacters_escape (c : UInt8) (fuel : Nat) (rest decoded : Bytes) :
    decodeCharacters (fuel + 1) (escape c ++ rest) decoded =
      decodeCharacters fuel rest (decoded ++ [c]) := by
  rcases escape_kinds c with ⟨h, hQuote, hSlash⟩ | ⟨e, h, hDecode⟩ |
    ⟨hi, lo, h, -, -, -, -, hHigh, hLow, hControl⟩
  · rw [h, List.singleton_append, decodeCharacters.eq_def]
    dsimp only
    rw [if_neg hQuote, if_neg hSlash]
  · rw [h]
    exact hDecode fuel rest decoded
  · have hUnicode : decodeUnicodeCodePoint (ch '0' :: ch '0' :: hi :: lo :: rest) =
        some (c.toNat, rest) := by
      have hZero : hexValue (ch '0') = some 0 := by decide
      have hNat : c.toNat / 16 * 16 + c.toNat % 16 = c.toNat := by omega
      rw [decodeUnicodeCodePoint, decodeUnicodeEscapeSequence, hZero, hHigh, hLow]
      simp only [Option.bind_eq_bind, Option.bind_some, Option.pure_def, Nat.zero_mul,
        Nat.zero_add, hNat]
      rw [if_neg (by omega)]
    have hText : codePointToUTF8 c.toNat = [c] := by
      rw [codePointToUTF8, if_pos (by omega), UInt8.ofNat_toNat]
    rw [h, List.cons_append, List.cons_append, List.cons_append, List.cons_append,
      List.cons_append, List.cons_append, List.nil_append, decodeCharacters.eq_def]
    simp only [hUnicode, hText]
    rfl

theorem escape_ne_nil (c : UInt8) : escape c ≠ [] := by
  rcases escape_kinds c with ⟨h, -⟩ | ⟨e, h, -⟩ | ⟨hi, lo, h, -⟩ <;> rw [h] <;> simp

theorem decodeCharacters_quoted (s : Bytes) {fuel : Nat} (hFuel : s.length ≤ fuel)
    (decoded : Bytes) :
    decodeCharacters fuel (s.flatMap escape) decoded = some (decoded ++ s) := by
  induction s generalizing fuel decoded with
  | nil =>
    rw [List.append_nil]
    cases fuel <;> rfl
  | cons c s ih =>
    rw [List.length_cons] at hFuel
    obtain ⟨fuel, rfl⟩ := Nat.exists_eq_succ_of_ne_zero (Nat.ne_zero_of_lt hFuel)
    rw [List.flatMap_cons, decodeCharacters_escape, ih (Nat.le_of_succ_le_succ hFuel),
      List.append_assoc]
    rfl

theorem length_le_flatMap_escape (s : Bytes) : s.length ≤ (s.flatMap escape).length := by
  induction s with
  | nil => exact Nat.le_refl _
  | cons c s ih =>
    have hFirst := List.length_pos_of_ne_nil (escape_ne_nil c)
    rw [List.flatMap_cons, List.length_append, List.length_cons]
    omega

theorem decodeString_quoted (s : Bytes) : decodeString (valueToQuotedStringN s) = some s := by
  have hBody : ((valueToQuotedStringN s).drop 1).dropLast = s.flatMap escape := by
    rw [valueToQuotedStringN, List.drop_one, List.tail_cons, List.dropLast_concat]
  rw [decodeString, hBody]
  exact decodeCharacters_quoted s (length_le_flatMap_escape s) []

theorem readToken_string (s rest : Bytes) :
    readToken (valueToQuotedStringN s ++ rest) = (⟨.string, valueToQuotedStringN s⟩, rest) := by
  apply readToken_scan (by decide)
  have hScan : scanToken 34 (s.flatMap escape ++ [34] ++ rest) =
      (if (readString (s.flatMap escape ++ [34] ++ rest)).1 = true then .string else .error,
        (readString (s.flatMap escape ++ [34] ++ rest)).2) := rfl
  rw [hScan, List.append_assoc]
  have hRead := readString_quoted s rest
  rw [show ch '"' = 34 from rfl] at hRead
  rw [List.singleton_append, hRead]
  rfl

end ScRedirection.Json
