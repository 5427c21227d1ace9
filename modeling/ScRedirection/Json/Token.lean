import ScRedirection.Json.Value
import Mathlib.Algebra.Group.Nat.Defs

/-! # Json::Reader: tokens

Scanning a token and decoding its text. The text still to be read stands for `current_`, and a
token keeps the text between `start_` and `end_`.
-/

namespace ScRedirection.Json

variable {D : Type}

def ch (c : Char) : UInt8 := c.toUInt8

def isDigit (c : UInt8) : Bool := ch '0' ≤ c && c ≤ ch '9'

inductive TokenType
  | endOfStream
  | objectBegin
  | objectEnd
  | arrayBegin
  | arrayEnd
  | string
  | number
  | «true»
  | «false»
  | null
  | arraySeparator
  | memberSeparator
  | comment
  | error
  deriving DecidableEq, Repr

structure Token where
  type : TokenType
  text : Bytes
  deriving DecidableEq

def skipSpaces (s : Bytes) : Bytes :=
  s.dropWhile fun c => c == ch ' ' || c == ch '\t' || c == ch '\r' || c == ch '\n'

def readString : Bytes → Bool × Bytes
  | [] => (false, [])
  | c :: rest =>
    if c = ch '\\' then
      match rest with
      | [] => (false, [])
      | _ :: rest => readString rest
    else if c = ch '"' then (true, rest)
    else readString rest

def readCStyleComment : Bytes → Bool × Bytes
  | c :: d :: rest =>
    if c = ch '*' ∧ d = ch '/' then (true, rest) else readCStyleComment (d :: rest)
  | [c] => (c == ch '/', [])
  | [] => (false, [])

def readCppStyleComment : Bytes → Bytes
  | [] => []
  | c :: rest =>
    if c = ch '\n' then rest
    else if c = ch '\r' then
      match rest with
      | d :: rest' => if d = ch '\n' then rest' else rest
      | [] => []
    else readCppStyleComment rest

def readComment : Bytes → Bool × Bytes
  | [] => (false, [])
  | c :: rest =>
    if c = ch '*' then readCStyleComment rest
    else if c = ch '/' then (true, readCppStyleComment rest)
    else (false, rest)

def readFraction : Bytes → Bytes
  | [] => []
  | c :: rest => if c = ch '.' then rest.dropWhile isDigit else c :: rest

def readExponent : Bytes → Bytes
  | [] => []
  | [c] => if c = ch 'e' ∨ c = ch 'E' then [] else [c]
  | c :: d :: rest =>
    if c = ch 'e' ∨ c = ch 'E' then
      if d = ch '+' ∨ d = ch '-' then rest.dropWhile isDigit else (d :: rest).dropWhile isDigit
    else c :: d :: rest

def readNumber (s : Bytes) : Bytes := readExponent (readFraction (s.dropWhile isDigit))

/-- `match`: the pattern is consumed only when all of it is there. -/
def matchPattern (pattern s : Bytes) : Bool × Bytes :=
  if pattern.isPrefixOf s then (true, s.drop pattern.length) else (false, s)

/-- The type of the token that starts with `c`, and the text after it. -/
def scanToken (c : UInt8) (rest : Bytes) : TokenType × Bytes :=
  let checked (type : TokenType) (r : Bool × Bytes) := (if r.1 then type else .error, r.2)
  if c = ch '{' then (.objectBegin, rest)
  else if c = ch '}' then (.objectEnd, rest)
  else if c = ch '[' then (.arrayBegin, rest)
  else if c = ch ']' then (.arrayEnd, rest)
  else if c = ch '"' then checked .string (readString rest)
  else if c = ch '/' then checked .comment (readComment rest)
  else if isDigit c || c == ch '-' then (.number, readNumber rest)
  else if c = ch 't' then checked .true (matchPattern (bytes "rue") rest)
  else if c = ch 'f' then checked .false (matchPattern (bytes "alse") rest)
  else if c = ch 'n' then checked .null (matchPattern (bytes "ull") rest)
  else if c = ch ',' then (.arraySeparator, rest)
  else if c = ch ':' then (.memberSeparator, rest)
  else if c = 0 then (.endOfStream, rest)
  else (.error, rest)

def readToken (s : Bytes) : Token × Bytes :=
  match skipSpaces s with
  | [] => (⟨.endOfStream, []⟩, [])
  | c :: rest =>
    let (type, rest') := scanToken c rest
    (⟨type, (c :: rest).take (rest.length + 1 - rest'.length)⟩, rest')

/-- The next token that is not a comment; every comment takes a character at least. -/
def skipComments : Nat → Bytes → Token × Bytes
  | 0, s => readToken s
  | fuel + 1, s =>
    let token := readToken s
    if token.1.type = .comment then skipComments fuel token.2 else token

def skipCommentTokens (s : Bytes) : Token × Bytes := skipComments s.length s

/-! Decoding the text of a token. -/

def maxLargestInt : Nat := 2 ^ 63 - 1

def maxLargestUInt : Nat := 2 ^ 64 - 1

def maxInt : Nat := 2 ^ 31 - 1

/-- The digits of an integer, or nothing where the number must be a double. -/
def decodeDigits (maxIntegerValue : Nat) : Nat → Bytes → Option Nat
  | value, [] => some value
  | value, c :: rest =>
    if isDigit c then
      let digit := c.toNat - 48
      if value ≥ maxIntegerValue / 10 ∧ (value > maxIntegerValue / 10 ∨ rest ≠ [] ∨
          digit > maxIntegerValue % 10) then none
      else decodeDigits maxIntegerValue (value * 10 + digit) rest
    else none

def decodeNumber (doubles : Doubles D) (text : Bytes) : Option (Value D) :=
  let isNegative := text.head? == some (ch '-')
  let maxIntegerValue := if isNegative then maxLargestInt + 1 else maxLargestUInt
  match decodeDigits maxIntegerValue 0 (if isNegative then text.tail else text) with
  | some value =>
    if isNegative then some (.int (-(value : Int)))
    else if value ≤ maxInt then some (.int value)
    else some (.uint value)
  | none => (doubles.extract text).map .real

theorem decodeNumber_scalar {doubles : Doubles D} {text : Bytes} {value : Value D}
    (h : decodeNumber doubles text = some value) : value.isContainer = false := by
  simp only [decodeNumber] at h
  split at h
  · split_ifs at h <;> cases h <;> rfl
  · obtain ⟨d, -, rfl⟩ := Option.map_eq_some_iff.mp h
    rfl

def hexValue (c : UInt8) : Option Nat :=
  if isDigit c then some (c.toNat - 48)
  else if ch 'a' ≤ c ∧ c ≤ ch 'f' then some (c.toNat - 97 + 10)
  else if ch 'A' ≤ c ∧ c ≤ ch 'F' then some (c.toNat - 65 + 10)
  else none

def decodeUnicodeEscapeSequence : Bytes → Option (Nat × Bytes)
  | a :: b :: c :: d :: rest => do
    let a ← hexValue a
    let b ← hexValue b
    let c ← hexValue c
    let d ← hexValue d
    return (((a * 16 + b) * 16 + c) * 16 + d, rest)
  | _ => none

def decodeUnicodeCodePoint (s : Bytes) : Option (Nat × Bytes) := do
  let (unicode, rest) ← decodeUnicodeEscapeSequence s
  if 0xD800 ≤ unicode ∧ unicode ≤ 0xDBFF then
    if rest.length < 6 then none
    else match rest with
      | c :: d :: rest =>
        if c = ch '\\' ∧ d = ch 'u' then do
          let (surrogatePair, rest) ← decodeUnicodeEscapeSequence rest
          return (0x10000 + ((unicode &&& 0x3FF) <<< 10) + (surrogatePair &&& 0x3FF), rest)
        else none
      | _ => none
  else return (unicode, rest)

def codePointToUTF8 (cp : Nat) : Bytes :=
  if cp ≤ 0x7f then [UInt8.ofNat cp]
  else if cp ≤ 0x7FF then
    [UInt8.ofNat (0xC0 ||| (0x1f &&& (cp >>> 6))), UInt8.ofNat (0x80 ||| (0x3f &&& cp))]
  else if cp ≤ 0xFFFF then
    [UInt8.ofNat (0xE0 ||| (0xf &&& (cp >>> 12))), UInt8.ofNat (0x80 ||| (0x3f &&& (cp >>> 6))),
      UInt8.ofNat (0x80 ||| (0x3f &&& cp))]
  else if cp ≤ 0x10FFFF then
    [UInt8.ofNat (0xF0 ||| (0x7 &&& (cp >>> 18))), UInt8.ofNat (0x80 ||| (0x3f &&& (cp >>> 12))),
      UInt8.ofNat (0x80 ||| (0x3f &&& (cp >>> 6))), UInt8.ofNat (0x80 ||| (0x3f &&& cp))]
  else []

/-- The characters between the quotes; each turn takes one character at least. -/
def decodeCharacters : Nat → Bytes → Bytes → Option Bytes
  | 0, _, decoded => some decoded
  | _ + 1, [], decoded => some decoded
  | fuel + 1, c :: rest, decoded =>
    if c = ch '"' then some decoded
    else if c = ch '\\' then
      match rest with
      | [] => none
      | e :: rest =>
        if e = ch '"' ∨ e = ch '/' ∨ e = ch '\\' then decodeCharacters fuel rest (decoded ++ [e])
        else if e = ch 'b' then decodeCharacters fuel rest (decoded ++ [8])
        else if e = ch 'f' then decodeCharacters fuel rest (decoded ++ [12])
        else if e = ch 'n' then decodeCharacters fuel rest (decoded ++ [10])
        else if e = ch 'r' then decodeCharacters fuel rest (decoded ++ [13])
        else if e = ch 't' then decodeCharacters fuel rest (decoded ++ [9])
        else if e = ch 'u' then
          match decodeUnicodeCodePoint rest with
          | some (unicode, rest) => decodeCharacters fuel rest (decoded ++ codePointToUTF8 unicode)
          | none => none
        else none
    else decodeCharacters fuel rest (decoded ++ [c])

def decodeString (text : Bytes) : Option Bytes :=
  let body := (text.drop 1).dropLast
  decodeCharacters body.length body []

/-! No scan gives text back, and a token takes at least one character. -/

theorem skipSpaces_length (s : Bytes) : (skipSpaces s).length ≤ s.length :=
  (List.dropWhile_sublist _).length_le

theorem readString_length (s : Bytes) : (readString s).2.length ≤ s.length := by
  fun_induction readString s <;> simp only [List.length_cons] <;> omega

theorem readCStyleComment_length (s : Bytes) : (readCStyleComment s).2.length ≤ s.length := by
  fun_induction readCStyleComment s <;> simp only [List.length_cons, List.length_nil] at * <;> omega

theorem readCppStyleComment_length (s : Bytes) : (readCppStyleComment s).length ≤ s.length := by
  fun_induction readCppStyleComment s <;>
    simp only [List.length_cons, List.length_nil] at * <;> omega

theorem readComment_length (s : Bytes) : (readComment s).2.length ≤ s.length := by
  cases s with
  | nil => exact Nat.le_refl _
  | cons c rest =>
    have hC := readCStyleComment_length rest
    have hCpp := readCppStyleComment_length rest
    rw [readComment]
    split_ifs <;> simp only [List.length_cons] <;> omega

theorem dropWhile_length (p : UInt8 → Bool) (s : Bytes) : (s.dropWhile p).length ≤ s.length :=
  (List.dropWhile_sublist p).length_le

theorem readFraction_length (s : Bytes) : (readFraction s).length ≤ s.length := by
  fun_cases readFraction s with
  | case1 => exact Nat.le_refl _
  | case2 rest => exact (dropWhile_length isDigit rest).trans (Nat.le_succ _)
  | case3 c rest h => exact Nat.le_refl _

theorem readExponent_length (s : Bytes) : (readExponent s).length ≤ s.length := by
  fun_cases readExponent s with
  | case1 => exact Nat.le_refl _
  | case2 c h => exact Nat.zero_le _
  | case3 c h => exact Nat.le_refl _
  | case4 c d rest h h' =>
    have hRest := dropWhile_length isDigit rest
    simp only [List.length_cons]
    omega
  | case5 c d rest h h' => exact (dropWhile_length isDigit (d :: rest)).trans (Nat.le_succ _)
  | case6 c d rest h => exact Nat.le_refl _

theorem readNumber_length (s : Bytes) : (readNumber s).length ≤ s.length :=
  (readExponent_length _).trans ((readFraction_length _).trans (dropWhile_length isDigit s))

theorem matchPattern_length (pattern s : Bytes) : (matchPattern pattern s).2.length ≤ s.length := by
  rw [matchPattern]
  split_ifs
  · exact (List.length_drop ..).le.trans (Nat.sub_le _ _)
  · exact Nat.le_refl _

theorem scanToken_length (c : UInt8) (rest : Bytes) :
    (scanToken c rest).2.length ≤ rest.length := by
  have hString := readString_length rest
  have hComment := readComment_length rest
  have hNumber := readNumber_length rest
  have hTrue := matchPattern_length (bytes "rue") rest
  have hFalse := matchPattern_length (bytes "alse") rest
  have hNull := matchPattern_length (bytes "ull") rest
  let Short (r : TokenType × Bytes) : Prop := r.2.length ≤ rest.length
  change Short (scanToken c rest)
  dsimp only [scanToken]
  repeat' apply iteInduction (motive := Short) <;> intro _
  all_goals first | exact Nat.le_refl _ | assumption

theorem readToken_cases (s : Bytes) :
    (readToken s).1.type = .endOfStream ∧ (readToken s).2 = [] ∨
      (readToken s).2.length < s.length := by
  have hSpaces := skipSpaces_length s
  unfold readToken
  split
  · exact .inl ⟨rfl, rfl⟩
  · rename_i c rest hRest
    have hScan := scanToken_length c rest
    rw [hRest] at hSpaces
    simp only [List.length_cons] at hSpaces ⊢
    exact .inr (by omega)

theorem readToken_length {s : Bytes} (h : (readToken s).1.type ≠ .endOfStream) :
    (readToken s).2.length < s.length :=
  (readToken_cases s).resolve_left fun hEnd => h hEnd.1

theorem readToken_le (s : Bytes) : (readToken s).2.length ≤ s.length := by
  rcases readToken_cases s with ⟨_, hRest⟩ | hRest
  · rw [hRest]
    exact Nat.zero_le _
  · exact hRest.le

theorem skipComments_token {s : Bytes} (h : (readToken s).1.type ≠ .comment) (fuel : Nat) :
    skipComments fuel s = readToken s := by
  cases fuel with
  | zero => rfl
  | succ fuel =>
    rw [skipComments]
    exact if_neg h

theorem skipComments_length (fuel : Nat) {s : Bytes}
    (h : (skipComments fuel s).1.type ≠ .endOfStream) :
    (skipComments fuel s).2.length < s.length := by
  induction fuel generalizing s with
  | zero => exact readToken_length h
  | succ fuel ih =>
    rw [skipComments] at h ⊢
    split_ifs at h ⊢ with hComment
    · have hToken := readToken_length (s := s) (by rw [hComment]; decide)
      exact (ih h).trans hToken
    · exact readToken_length h

theorem skipCommentTokens_length {s : Bytes}
    (h : (skipCommentTokens s).1.type ≠ .endOfStream) :
    (skipCommentTokens s).2.length < s.length :=
  skipComments_length s.length h

theorem skipComments_le (fuel : Nat) (s : Bytes) :
    (skipComments fuel s).2.length ≤ s.length := by
  induction fuel generalizing s with
  | zero => exact readToken_le s
  | succ fuel ih =>
    rw [skipComments]
    split_ifs
    · exact (ih _).trans (readToken_le s)
    · exact readToken_le s

theorem skipComments_not_comment {fuel : Nat} {s : Bytes} (hFuel : s.length ≤ fuel) :
    (skipComments fuel s).1.type ≠ .comment := by
  induction fuel generalizing s with
  | zero =>
    rw [skipComments, List.length_eq_zero_iff.mp (Nat.le_zero.mp hFuel)]
    decide
  | succ fuel ih =>
    rw [skipComments]
    split_ifs with hComment
    · have hToken := readToken_length (s := s) (by rw [hComment]; decide)
      exact ih (by omega)
    · exact hComment

theorem skipCommentTokens_not_comment (s : Bytes) : (skipCommentTokens s).1.type ≠ .comment :=
  skipComments_not_comment (Nat.le_refl _)

end ScRedirection.Json
