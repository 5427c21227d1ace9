import ScRedirection.Json.Value
import ScRedirection.Websocketpp.Utf8Validator

/-! # Json::StreamWriter with no indentation

The text of a value as `stringifyJson` asks for it: no comments, no whitespace, so the single-
and the multi-line layout of an array print the same characters.
-/

namespace ScRedirection.Json

variable {D : Type}

def isControlCharacter (ch : UInt8) : Bool := 0 < ch && ch ≤ 0x1f

def hexDigit (n : Nat) : UInt8 := (bytes "0123456789ABCDEF").getD n 48

/-- One turn of the loop of `valueToQuotedStringN`. -/
def escape (c : UInt8) : Bytes :=
  if c = 34 then bytes "\\\""
  else if c = 92 then bytes "\\\\"
  else if c = 8 then bytes "\\b"
  else if c = 12 then bytes "\\f"
  else if c = 10 then bytes "\\n"
  else if c = 13 then bytes "\\r"
  else if c = 9 then bytes "\\t"
  else if isControlCharacter c || c == 0 then
    bytes "\\u00" ++ [hexDigit (c.toNat / 16), hexDigit (c.toNat % 16)]
  else [c]

def valueToQuotedStringN (value : Bytes) : Bytes := 34 :: (value.flatMap escape ++ [34])

section Write

variable (doubles : Doubles D)

mutual
def writeValue : Value D → Bytes
  | .null => bytes "null"
  | .int i => bytes (toString i)
  | .uint n => bytes (toString n)
  | .real d => doubles.toText d
  | .string s => valueToQuotedStringN s
  | .boolean b => if b then bytes "true" else bytes "false"
  | .array elements => 91 :: (writeElements elements ++ [93])
  | .object members => 123 :: (writeMembers members ++ [125])

def writeElements : List (Value D) → Bytes
  | [] => []
  | [x] => writeValue x
  | x :: xs => writeValue x ++ 44 :: writeElements xs

def writeMembers : List (Bytes × Value D) → Bytes
  | [] => []
  | [m] => writeMember m
  | m :: ms => writeMember m ++ 44 :: writeMembers ms

def writeMember : Bytes × Value D → Bytes
  | (name, x) => valueToQuotedStringN name ++ 58 :: writeValue x
end

end Write

example (doubles : Doubles Unit) : writeValue doubles
    (.object [(bytes "a", .array [.null, .string (bytes "\n")])]) =
      bytes "\x7b\"a\":[null,\"\\n\"]\x7d" :=
  rfl

/-! Characters the writer copies as they are. -/

def Plain (c : UInt8) : Prop := 32 ≤ c ∧ c ≠ 34 ∧ c ≠ 92

theorem escape_plain {c : UInt8} (h : Plain c) : escape c = [c] := by
  have hAll : ∀ n < 256, 32 ≤ n → n ≠ 34 → n ≠ 92 → escape (UInt8.ofNat n) = [UInt8.ofNat n] := by
    decide +kernel
  obtain ⟨hLow, hQuote, hSlash⟩ := h
  have hEscape := hAll c.toNat c.toNat_lt (UInt8.le_iff_toNat_le.mp hLow)
    (fun hc => hQuote (UInt8.toNat_inj.mp hc)) (fun hc => hSlash (UInt8.toNat_inj.mp hc))
  rwa [UInt8.ofNat_toNat] at hEscape

theorem valueToQuotedStringN_plain {s : Bytes} (h : ∀ c ∈ s, Plain c) :
    valueToQuotedStringN s = 34 :: (s ++ [34]) := by
  have hBody : s.flatMap escape = s := by
    induction s with
    | nil => rfl
    | cons c s ih =>
      rw [List.flatMap_cons, escape_plain (h c (by simp)), ih fun d hd => h d (by simp [hd])]
      rfl
  rw [valueToQuotedStringN, hBody]

/-! Quoting neither breaks nor repairs the UTF-8 of a string: escapes are ASCII for ASCII. -/

section Utf8

open Utf8Validator

theorem escape_cases (c : UInt8) :
    escape c = [c] ∨ c < 128 ∧ escape c ≠ [] ∧ ∀ e ∈ escape c, e < 128 := by
  have hAll : ∀ n < 256, escape (UInt8.ofNat n) = [UInt8.ofNat n] ∨ UInt8.ofNat n < 128 ∧
      escape (UInt8.ofNat n) ≠ [] ∧ ∀ e ∈ escape (UInt8.ofNat n), e < 128 := by
    decide +kernel
  simpa only [UInt8.ofNat_toNat] using hAll c.toNat c.toNat_lt

theorem foldl_escape (state : Nat) (c : UInt8) :
    (escape c).foldl decode state = decode state c := by
  rcases escape_cases c with h | ⟨hc, hNonempty, hAscii⟩
  · rw [h]
    rfl
  · rw [foldl_ascii hAscii, if_neg hNonempty, decode_ascii hc]

theorem foldl_flatMap_escape (s : Bytes) (state : Nat) :
    (s.flatMap escape).foldl decode state = s.foldl decode state := by
  induction s generalizing state with
  | nil => rfl
  | cons c s ih => rw [List.flatMap_cons, List.foldl_append, foldl_escape, ih, List.foldl_cons]

theorem foldl_valueToQuotedStringN (s : Bytes) :
    (valueToQuotedStringN s).foldl decode utf8Accept =
      if validate s = true then utf8Accept else utf8Reject := by
  have hQuote : (34 : UInt8) < 128 := by decide
  rw [valueToQuotedStringN, List.foldl_cons, decode_ascii hQuote, if_pos rfl, List.foldl_append,
    foldl_flatMap_escape, List.foldl_cons, List.foldl_nil, decode_ascii hQuote, validate,
    validateFrom_eq]
  simp only [beq_iff_eq]

theorem ascii_toString_nat (n : Nat) : ∀ c ∈ bytes (toString n), c < 128 := by
  intro c hc
  obtain ⟨d, hd, rfl⟩ := List.mem_map.mp hc
  rw [Nat.toString_eq_repr, Nat.toList_repr] at hd
  have hDigit := Nat.isDigit_of_mem_toDigits (by decide) (by decide) hd
  simp only [Char.isDigit, Bool.and_eq_true, decide_eq_true_eq] at hDigit
  have hLe : d.val.toNat ≤ 57 := UInt32.le_iff_toNat_le.mp hDigit.2
  rw [UInt8.lt_iff_toNat_lt, Char.toUInt8, UInt32.toNat_toUInt8]
  have hBound : (128 : UInt8).toNat = 128 := rfl
  omega

theorem ascii_toString_int (i : Int) : ∀ c ∈ bytes (toString i), c < 128 := by
  cases i with
  | ofNat n => exact ascii_toString_nat n
  | negSucc n =>
    have hSign : toString (Int.negSucc n) = "-" ++ toString (n + 1) :=
      String.toByteArray_inj.mp rfl
    have hText : bytes (toString (Int.negSucc n)) = 45 :: bytes (toString (n + 1)) := by
      rw [hSign, bytes, String.toList_append, List.map_append]
      rfl
    rw [hText]
    exact List.forall_mem_cons.mpr ⟨by decide, ascii_toString_nat (n + 1)⟩

def Value.scalarUtf8 : Value D → Bool
  | .string s => validate s
  | .array _ | .object _ => false
  | _ => true

def memberUtf8 (m : Bytes × Value D) : Bool := validate m.1 && m.2.scalarUtf8

/-- What an accepting validator makes of a text that is valid or not. -/
def verdict (valid : Bool) : Nat := if valid = true then utf8Accept else utf8Reject

theorem foldl_verdict_ascii (valid : Bool) {c : UInt8} (hc : c < 128) (s : Bytes) :
    (c :: s).foldl decode (verdict valid) =
      if valid = true then s.foldl decode utf8Accept else utf8Reject := by
  cases valid with
  | true => rw [verdict, if_pos rfl, List.foldl_cons, decode_ascii hc, if_pos rfl, if_pos rfl]
  | false => rw [verdict, if_neg (by simp), foldl_reject, if_neg (by simp)]

variable (doubles : Doubles D)

theorem foldl_writeValue {x : Value D} (hScalar : x.isContainer = false) :
    (writeValue doubles x).foldl decode utf8Accept = verdict x.scalarUtf8 := by
  have hAscii : ∀ {text : Bytes}, (∀ c ∈ text, c < 128) →
      text.foldl decode utf8Accept = utf8Accept := by
    intro text hText
    rw [foldl_ascii hText]
    split <;> rfl
  cases x with
  | null => rw [writeValue]; exact hAscii (by decide +kernel)
  | int i => rw [writeValue]; exact hAscii (ascii_toString_int i)
  | uint n => rw [writeValue]; exact hAscii (ascii_toString_nat n)
  | real d => rw [writeValue]; exact hAscii (doubles.toText_ascii d)
  | string s => rw [writeValue, foldl_valueToQuotedStringN]; rfl
  | boolean b => rw [writeValue]; exact hAscii (by cases b <;> decide +kernel)
  | array elements => cases hScalar
  | object members => cases hScalar

theorem foldl_writeMember {m : Bytes × Value D} (hScalar : m.2.isContainer = false) :
    (writeMember doubles m).foldl decode utf8Accept = verdict (memberUtf8 m) := by
  obtain ⟨name, x⟩ := m
  have hColon : (58 : UInt8) < 128 := by decide
  have hName : (valueToQuotedStringN name).foldl decode utf8Accept = verdict (validate name) :=
    foldl_valueToQuotedStringN name
  rw [writeMember, List.foldl_append, hName, foldl_verdict_ascii _ hColon,
    foldl_writeValue doubles hScalar, memberUtf8]
  cases validate name <;> rfl

theorem foldl_writeMembers {ms : Members D} (hScalar : ∀ m ∈ ms, m.2.isContainer = false) :
    (writeMembers doubles ms).foldl decode utf8Accept = verdict (ms.all memberUtf8) := by
  have hComma : (44 : UInt8) < 128 := by decide
  induction ms with
  | nil => rfl
  | cons m ms ih =>
    obtain ⟨hFirst, hRest⟩ := List.forall_mem_cons.mp hScalar
    have hMember := foldl_writeMember doubles hFirst
    cases ms with
    | nil => rw [writeMembers, hMember]; simp
    | cons m' ms =>
      have hAll : (m :: m' :: ms).all memberUtf8 =
          (memberUtf8 m && (m' :: ms).all memberUtf8) := rfl
      rw [writeMembers, List.foldl_append, hMember, foldl_verdict_ascii _ hComma, ih hRest, hAll]
      · cases memberUtf8 m <;> rfl
      · simp

/-- The text of an object of scalars is valid UTF-8 exactly when its names and strings are. -/
theorem validate_writeValue_object {ms : Members D} (hScalar : ∀ m ∈ ms, m.2.isContainer = false) :
    validate (writeValue doubles (.object ms)) = ms.all memberUtf8 := by
  have hOpen : (123 : UInt8) < 128 := by decide
  have hClose : (125 : UInt8) < 128 := by decide
  rw [writeValue, validate, validateFrom_eq, List.foldl_cons, decode_ascii hOpen, if_pos rfl,
    List.foldl_append, foldl_writeMembers doubles hScalar, foldl_verdict_ascii _ hClose]
  cases ms.all memberUtf8 <;> rfl

end Utf8

end ScRedirection.Json
