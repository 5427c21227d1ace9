import ScRedirection.Json.Reader
import ScRedirection.Json.Scalar

/-! # What the reader makes of the writer's text

A value comes back with its numbers as the reader classifies them, unless it is nested deeper than
the reader's stack limit, which throws. What the reader returns is classified that way already.
-/

namespace ScRedirection.Json

variable {D : Type} (doubles : Doubles D)

/-! ## Values -/

/-- The type the reader gives to a number that is not negative. -/
def classify (n : Nat) : Value D := if n ≤ maxInt then .int n else .uint n

mutual
/-- The value with its numbers as the reader classifies them. -/
def canonical : Value D → Value D
  | .int (.ofNat n) => classify n
  | .int (.negSucc n) => .int (.negSucc n)
  | .uint n => classify n
  | .real d => .real d
  | .array elements => .array (canonicalElements elements)
  | .object members => .object (canonicalMembers members)
  | .null => .null
  | .string s => .string s
  | .boolean b => .boolean b

def canonicalElements : List (Value D) → List (Value D)
  | [] => []
  | x :: xs => canonical x :: canonicalElements xs

def canonicalMembers : Members D → Members D
  | [] => []
  | (key, x) :: ms => (key, canonical x) :: canonicalMembers ms
end

mutual
/-- The depth of stack that a value takes to be read. -/
def height : Value D → Nat
  | .array elements => heightElements elements + 1
  | .object members => heightMembers members + 1
  | .null | .int _ | .uint _ | .real _ | .string _ | .boolean _ => 1

def heightElements : List (Value D) → Nat
  | [] => 0
  | x :: xs => max (height x) (heightElements xs)

def heightMembers : Members D → Nat
  | [] => 0
  | (_, x) :: ms => max (height x) (heightMembers ms)
end

/-- A double that its text determines, as 17 significant digits do for one that is finite; `.0` is
added to a text that would read as an integer. -/
structure Doubles.ReadsBack (d : D) : Prop where
  text : NumberText (doubles.toText d)
  value : decodeNumber doubles (doubles.toText d) = some (.real d)

mutual
/-- What a `Json::Value` holds: integers of 64 bits, maps in key order, and doubles that are not
lost in the text. -/
def WellFormed : Value D → Prop
  | .int i => -(maxLargestInt + 1 : Int) ≤ i ∧ i ≤ maxLargestInt
  | .uint n => n ≤ maxLargestUInt
  | .real d => doubles.ReadsBack d
  | .array elements => WellFormedElements elements
  | .object members => Ordered members ∧ WellFormedMembers members
  | .null | .string _ | .boolean _ => True

def WellFormedElements : List (Value D) → Prop
  | [] => True
  | x :: xs => WellFormed x ∧ WellFormedElements xs

def WellFormedMembers : Members D → Prop
  | [] => True
  | (_, x) :: ms => WellFormed x ∧ WellFormedMembers ms
end

/-! ## Tokens of the punctuation and the names -/

theorem skipCommentTokens_of {s text rest : Bytes} {type : TokenType}
    (h : readToken s = (⟨type, text⟩, rest)) (hType : type ≠ .comment) :
    skipCommentTokens s = (⟨type, text⟩, rest) := by
  rw [skipCommentTokens, skipComments_token (by rwa [h]), h]

theorem readToken_mark {c : UInt8} {rest : Bytes} {type : TokenType} (hSpace : IsSpace c = false)
    (hScan : scanToken c rest = (type, rest)) : readToken (c :: rest) = (⟨type, [c]⟩, rest) :=
  readToken_scan (t := []) hSpace hScan

theorem readToken_null (rest : Bytes) :
    readToken (bytes "null" ++ rest) = (⟨.null, bytes "null"⟩, rest) :=
  readToken_scan (t := bytes "ull") (by decide) rfl

theorem readToken_true (rest : Bytes) :
    readToken (bytes "true" ++ rest) = (⟨.true, bytes "true"⟩, rest) :=
  readToken_scan (t := bytes "rue") (by decide) rfl

theorem readToken_false (rest : Bytes) :
    readToken (bytes "false" ++ rest) = (⟨.false, bytes "false"⟩, rest) :=
  readToken_scan (t := bytes "alse") (by decide) rfl

/-! ## One value -/

/-- What a read of a value of some height comes to. -/
def within (needed : Nat) (value : Value D) (rest : Bytes) : Except ReadFault (Outcome D) :=
  if needed ≤ stackLimit then .ok (.done value rest) else .error .stackLimit

theorem within_scalar (depth : Nat) (value : Value D) (rest : Bytes) :
    within (depth + 1) value rest =
      if depth ≥ stackLimit then .error .stackLimit else .ok (.done value rest) := by
  rw [within]
  split_ifs
  · omega
  · rfl
  · rfl
  · omega

theorem readValue_number {text rest : Bytes} {value : Value D} (hText : NumberText text)
    (hValue : decodeNumber doubles text = some value) (hRest : Stops rest) (fuel depth : Nat)
    (current : Value D) :
    readValue doubles (fuel + 1) depth current (text ++ rest) = within (depth + 1) value rest := by
  rw [readValue, skipCommentTokens_of (readToken_number hText hRest) (by decide), within_scalar]
  dsimp only
  rw [hValue]

theorem readValue_nat {n : Nat} (h : n ≤ maxLargestUInt) {rest : Bytes} (hRest : Stops rest)
    (fuel depth : Nat) (current : Value D) :
    readValue doubles (fuel + 1) depth current (bytes (toString n) ++ rest) =
      within (depth + 1) (classify n) rest :=
  readValue_number doubles (numberText_nat n) (decodeNumber_nat doubles h) hRest fuel depth current

/-- A value without elements or members is read back as the reader classifies it. -/
theorem readValue_scalar {x : Value D} (hx : WellFormed doubles x) (hScalar : x.isContainer = false)
    {rest : Bytes} (hRest : Stops rest) (fuel depth : Nat) (current : Value D) :
    readValue doubles (fuel + 1) depth current (writeValue doubles x ++ rest) =
      within (depth + height x) (canonical x) rest := by
  cases x with
  | null =>
    rw [writeValue, readValue, skipCommentTokens_of (readToken_null rest) (by decide), height,
      canonical, within_scalar]
  | boolean b =>
    cases b with
    | true =>
      rw [writeValue, if_pos rfl, readValue,
        skipCommentTokens_of (readToken_true rest) (by decide), height, canonical, within_scalar]
    | false =>
      rw [writeValue, if_neg Bool.false_ne_true, readValue,
        skipCommentTokens_of (readToken_false rest) (by decide), height, canonical, within_scalar]
  | string s =>
    rw [writeValue, readValue, skipCommentTokens_of (readToken_string s rest) (by decide), height,
      canonical, within_scalar]
    dsimp only
    rw [decodeString_quoted]
  | int i =>
    rw [WellFormed] at hx
    cases i with
    | ofNat n =>
      rw [Int.ofNat_eq_natCast] at hx
      rw [writeValue, canonical]
      exact readValue_nat doubles (by rw [maxLargestInt, maxLargestUInt] at *; omega) hRest fuel
        depth current
    | negSucc n =>
      rw [writeValue, canonical]
      exact readValue_number doubles (numberText_negSucc n)
        (decodeNumber_negSucc doubles (by rw [maxLargestInt] at *; omega)) hRest fuel depth current
  | uint n =>
    rw [writeValue, canonical]
    exact readValue_nat doubles hx hRest fuel depth current
  | real d =>
    obtain ⟨hText, hValue⟩ := hx
    rw [writeValue, canonical]
    exact readValue_number doubles hText hValue hRest fuel depth current
  | array => cases hScalar
  | object => cases hScalar

/-! ## Nested values -/

theorem writeValue_first {x : Value D} (hx : WellFormed doubles x) :
    ∃ c t, writeValue doubles x = c :: t ∧ IsSpace c = false ∧ c ≠ ch ']' := by
  have hNumber : ∀ {text : Bytes}, NumberText text →
      ∃ c t, text = c :: t ∧ IsSpace c = false ∧ c ≠ ch ']' := by
    intro text hText
    obtain ⟨c, hc, hFirst⟩ := hText.first
    obtain ⟨t, rfl⟩ := List.head?_eq_some_iff.mp hc
    obtain ⟨hSpace, -, -, -, hBracket, -⟩ := number_first hFirst
    exact ⟨c, t, rfl, hSpace, hBracket⟩
  cases x with
  | null => exact ⟨_, _, rfl, by decide, by decide⟩
  | boolean b => cases b <;> exact ⟨_, _, rfl, by decide, by decide⟩
  | string s => exact ⟨_, _, rfl, by decide, by decide⟩
  | array elements => exact ⟨_, _, rfl, by decide, by decide⟩
  | object members => exact ⟨_, _, rfl, by decide, by decide⟩
  | uint n => exact hNumber (numberText_nat n)
  | real d => exact hNumber hx.text
  | int i =>
    cases i with
    | ofNat n => exact hNumber (numberText_nat n)
    | negSucc n => exact hNumber (numberText_negSucc n)

theorem writeElements_cons (x y : Value D) (ys : List (Value D)) :
    writeElements doubles (x :: y :: ys) =
      writeValue doubles x ++ ch ',' :: writeElements doubles (y :: ys) := by
  rw [writeElements]
  · rfl
  · exact List.cons_ne_nil y ys

theorem writeMembers_cons (m n : Bytes × Value D) (ms : Members D) :
    writeMembers doubles (m :: n :: ms) =
      writeMember doubles m ++ ch ',' :: writeMembers doubles (n :: ms) := by
  rw [writeMembers]
  · rfl
  · exact List.cons_ne_nil n ms

/-- The reader sees that an array is not empty. -/
theorem skipSpaces_writeElements {x : Value D} (hx : WellFormed doubles x) (xs : List (Value D))
    (rest : Bytes) : ∃ c t, skipSpaces (writeElements doubles (x :: xs) ++ rest) = c :: t ∧
      c ≠ ch ']' := by
  obtain ⟨c, t, hText, hSpace, hBracket⟩ := writeValue_first doubles hx
  obtain ⟨t', hElements⟩ : ∃ t', writeElements doubles (x :: xs) = c :: t' := by
    cases xs with
    | nil => exact ⟨t, by rw [writeElements, hText]⟩
    | cons y ys => exact ⟨_, by rw [writeElements_cons, hText, List.cons_append]⟩
  refine ⟨c, t' ++ rest, ?_, hBracket⟩
  rw [hElements, skipSpaces, List.cons_append]
  exact List.dropWhile_cons_of_neg (by simpa [IsSpace] using hSpace)

theorem within_of_lt {needed : Nat} (h : stackLimit < needed) (value : Value D) (rest : Bytes) :
    within needed value rest = .error .stackLimit := if_neg (Nat.not_le.mpr h)

theorem within_of_le {needed : Nat} (h : needed ≤ stackLimit) (value : Value D) (rest : Bytes) :
    within needed value rest = .ok (.done value rest) := if_pos h

section Step

variable {fuel depth : Nat} {text s rest mark : Bytes} {x : Value D} {type : TokenType}

/-- An element that is too high throws; after another one the array ends or goes on. -/
theorem readArray_element {elements : List (Value D)}
    (hRead : readValue doubles fuel depth .null text =
      within (depth + height x) (canonical x) s)
    (hToken : readToken s = (⟨type, mark⟩, rest))
    (hType : type = .arrayEnd ∨ type = .arraySeparator) :
    readArray doubles (fuel + 1) depth elements text =
      if stackLimit < depth + height x then .error .stackLimit
      else if type = .arrayEnd then
        .ok (.done (.array (elements ++ [canonical x])) rest)
      else readArray doubles fuel depth (elements ++ [canonical x]) rest := by
  have hSkip : skipCommentTokens s = (⟨type, mark⟩, rest) :=
    skipCommentTokens_of hToken (by rcases hType with rfl | rfl <;> decide)
  rw [readArray, hRead]
  rcases Nat.lt_or_ge stackLimit (depth + height x) with hHigh | hHeight
  · rw [within_of_lt hHigh, if_pos hHigh]
  · rw [within_of_le hHeight, if_neg (Nat.not_lt.mpr hHeight)]
    dsimp only
    rw [hSkip]
    rcases hType with rfl | rfl
    · rfl
    · rfl

/-- The same of a member. -/
theorem readObject_member {members : Members D} {key name : Bytes}
    (hRead : readValue doubles fuel depth ((members.lookup key).getD .null) text =
      within (depth + height x) (canonical x) s)
    (hToken : readToken s = (⟨type, mark⟩, rest))
    (hType : type = .objectEnd ∨ type = .arraySeparator) :
    readObject doubles (fuel + 1) depth members name (valueToQuotedStringN key ++ ch ':' :: text) =
      if stackLimit < depth + height x then .error .stackLimit
      else if type = .objectEnd then
        .ok (.done (.object (setMember key (canonical x) members)) rest)
      else readObject doubles fuel depth (setMember key (canonical x) members) key rest := by
  have hColon : readToken (ch ':' :: text) = (⟨.memberSeparator, [ch ':']⟩, text) :=
    readToken_mark (by decide) rfl
  rw [readObject, skipCommentTokens_of (readToken_string key _) (by decide)]
  dsimp only
  rw [if_neg (by simp), if_pos rfl, decodeString_quoted]
  dsimp only
  rw [hColon]
  dsimp only
  rw [if_neg (by decide), hRead]
  rcases Nat.lt_or_ge stackLimit (depth + height x) with hHigh | hHeight
  · rw [within_of_lt hHigh, if_pos hHigh]
  · rw [within_of_le hHeight, if_neg (Nat.not_lt.mpr hHeight)]
    dsimp only
    rw [hToken]
    rcases hType with rfl | rfl
    · rfl
    · rfl

end Step

theorem within_max {a b depth : Nat} {value : Value D} {rest : Bytes}
    {result : Except ReadFault (Outcome D)}
    (hResult : depth + a ≤ stackLimit → result = within (depth + b) value rest) :
    (if stackLimit < depth + a then .error .stackLimit else result) =
      within (depth + max a b) value rest := by
  rcases Nat.lt_or_ge stackLimit (depth + a) with hHigh | hHeight
  · rw [if_pos hHigh, within_of_lt (by omega)]
  · rw [if_neg (Nat.not_lt.mpr hHeight), hResult hHeight, within, within]
    congr 1
    exact propext ⟨fun _ => by omega, fun _ => by omega⟩

theorem setMember_after {members ms : Members D} {key : Bytes} {x y : Value D}
    (h : Ordered (members ++ (key, x) :: ms)) :
    setMember key y members = members ++ [(key, y)] ∧ Ordered (members ++ [(key, y)] ++ ms) := by
  have hKeys : (members ++ [(key, y)] ++ ms).map Prod.fst =
      (members ++ (key, x) :: ms).map Prod.fst := by
    simp
  constructor
  · apply setMember_concat
    intro k hk
    rw [Ordered, List.map_append, List.pairwise_append] at h
    exact h.2.2 k hk key List.mem_cons_self
  · rwa [Ordered, hKeys]

mutual
theorem readValue_writeValue (x : Value D) (hx : WellFormed doubles x) (rest : Bytes)
    (hRest : Stops rest) (fuel depth : Nat) (current : Value D)
    (hFuel : 2 * (writeValue doubles x ++ rest).length + 1 ≤ fuel) :
    readValue doubles fuel depth current (writeValue doubles x ++ rest) =
      within (depth + height x) (canonical x) rest := by
  obtain ⟨fuel, rfl⟩ := Nat.exists_eq_succ_of_ne_zero (Nat.ne_zero_of_lt hFuel)
  cases hScalar : x.isContainer with
  | false => exact readValue_scalar doubles hx hScalar hRest fuel depth current
  | true =>
    cases x with
    | null | int | uint | real | string | boolean => cases hScalar
    | array elements =>
      have hText : writeValue doubles (.array elements) ++ rest =
          ch '[' :: (writeElements doubles elements ++ ch ']' :: rest) := by
        rw [writeValue, List.cons_append, List.append_assoc]
        rfl
      rw [hText] at hFuel ⊢
      rw [readValue, skipCommentTokens_of (readToken_mark (by decide) rfl) (by decide), height,
        canonical]
      split_ifs with hDepth
      · rw [within_of_lt (by omega)]
      dsimp only
      cases elements with
      | nil =>
        rw [writeElements, List.nil_append, heightElements, canonicalElements,
          within_of_le (by omega)]
        rfl
      | cons y ys =>
        obtain ⟨c, t, hSkip, hBracket⟩ :=
          skipSpaces_writeElements doubles hx.1 ys (ch ']' :: rest)
        rw [hSkip]
        dsimp only
        rw [if_neg hBracket, readArray_writeElements y ys hx rest fuel (depth + 1) []
          (by simp only [List.length_cons] at hFuel; omega)]
        rw [List.nil_append, Nat.add_right_comm, Nat.add_assoc]
    | object members =>
      have hText : writeValue doubles (.object members) ++ rest =
          ch '{' :: (writeMembers doubles members ++ ch '}' :: rest) := by
        rw [writeValue, List.cons_append, List.append_assoc]
        rfl
      rw [hText] at hFuel ⊢
      rw [readValue, skipCommentTokens_of (readToken_mark (by decide) rfl) (by decide), height,
        canonical]
      split_ifs with hDepth
      · rw [within_of_lt (by omega)]
      dsimp only
      cases members with
      | nil =>
        rw [writeMembers, List.nil_append, heightMembers, canonicalMembers,
          within_of_le (by omega)]
        obtain ⟨fuel, rfl⟩ := Nat.exists_eq_succ_of_ne_zero (n := fuel)
          (by simp only [List.length_cons] at hFuel; omega)
        rw [readObject, skipCommentTokens_of (readToken_mark (by decide) rfl) (by decide)]
        rfl
      | cons m ms =>
        rw [readObject_writeMembers m ms hx.2 rest fuel (depth + 1) [] [] hx.1
          (by simp only [List.length_cons] at hFuel; omega)]
        rw [List.nil_append, Nat.add_right_comm, Nat.add_assoc]
termination_by fuel

theorem readArray_writeElements (x : Value D) (xs : List (Value D))
    (hx : WellFormedElements doubles (x :: xs)) (rest : Bytes) (fuel depth : Nat)
    (elements : List (Value D))
    (hFuel : 2 * (writeElements doubles (x :: xs) ++ ch ']' :: rest).length + 2 ≤ fuel) :
    readArray doubles fuel depth elements (writeElements doubles (x :: xs) ++ ch ']' :: rest) =
      within (depth + heightElements (x :: xs))
        (.array (elements ++ canonicalElements (x :: xs))) rest := by
  obtain ⟨fuel, rfl⟩ := Nat.exists_eq_succ_of_ne_zero (Nat.ne_zero_of_lt hFuel)
  cases xs with
  | nil =>
    rw [writeElements] at hFuel ⊢
    have hRead := readValue_writeValue x hx.1 (ch ']' :: rest) (stops_cons (by decide) rest) fuel
      depth .null (by omega)
    rw [readArray_element doubles hRead (readToken_mark (by decide) rfl) (.inl rfl), if_pos rfl]
    apply within_max
    intro hHeight
    rw [heightElements, within_of_le (by omega)]
    rfl
  | cons y ys =>
    rw [writeElements_cons, List.append_assoc, List.cons_append] at hFuel ⊢
    have hRead := readValue_writeValue x hx.1
      (ch ',' :: (writeElements doubles (y :: ys) ++ ch ']' :: rest)) (stops_cons (by decide) _)
      fuel depth .null (by omega)
    rw [readArray_element doubles hRead (readToken_mark (by decide) rfl) (.inr rfl),
      if_neg (c := TokenType.arraySeparator = .arrayEnd) (by decide)]
    apply within_max
    intro _
    rw [readArray_writeElements y ys hx.2 rest fuel depth _
      (by simp only [List.length_append, List.length_cons] at hFuel ⊢; omega), List.append_assoc]
    rfl
termination_by fuel

theorem readObject_writeMembers (m : Bytes × Value D) (ms : Members D)
    (hm : WellFormedMembers doubles (m :: ms)) (rest : Bytes) (fuel depth : Nat)
    (members : Members D) (name : Bytes) (hOrdered : Ordered (members ++ m :: ms))
    (hFuel : 2 * (writeMembers doubles (m :: ms) ++ ch '}' :: rest).length + 2 ≤ fuel) :
    readObject doubles fuel depth members name (writeMembers doubles (m :: ms) ++ ch '}' :: rest) =
      within (depth + heightMembers (m :: ms))
        (.object (members ++ canonicalMembers (m :: ms))) rest := by
  obtain ⟨fuel, rfl⟩ := Nat.exists_eq_succ_of_ne_zero (Nat.ne_zero_of_lt hFuel)
  obtain ⟨key, x⟩ := m
  obtain ⟨hSet, hOrdered'⟩ := setMember_after (y := canonical x) hOrdered
  have hMember : writeMember doubles (key, x) =
      valueToQuotedStringN key ++ ch ':' :: writeValue doubles x := rfl
  cases ms with
  | nil =>
    rw [writeMembers, hMember, List.append_assoc, List.cons_append] at hFuel ⊢
    have hRead := readValue_writeValue x hm.1 (ch '}' :: rest) (stops_cons (by decide) rest) fuel
      depth ((members.lookup key).getD .null)
      (by simp only [List.length_append, List.length_cons] at hFuel ⊢; omega)
    rw [readObject_member doubles hRead (readToken_mark (by decide) rfl) (.inl rfl), if_pos rfl]
    apply within_max
    intro hHeight
    rw [heightMembers, within_of_le (by omega), hSet]
    rfl
  | cons n ms =>
    rw [writeMembers_cons, hMember, List.append_assoc, List.append_assoc, List.cons_append,
      List.cons_append] at hFuel ⊢
    have hRead := readValue_writeValue x hm.1
      (ch ',' :: (writeMembers doubles (n :: ms) ++ ch '}' :: rest)) (stops_cons (by decide) _)
      fuel depth ((members.lookup key).getD .null)
      (by simp only [List.length_append, List.length_cons] at hFuel ⊢; omega)
    rw [readObject_member doubles hRead (readToken_mark (by decide) rfl) (.inr rfl),
      if_neg (c := TokenType.arraySeparator = .objectEnd) (by decide), hSet]
    apply within_max
    intro _
    rw [readObject_writeMembers n ms hm.2 rest fuel depth _ key hOrdered'
      (by simp only [List.length_append, List.length_cons] at hFuel ⊢; omega), List.append_assoc]
    rfl
termination_by fuel
end

/-- A well-formed value comes back from its text, or is too high for the reader, which throws. -/
theorem parse_writeValue {x : Value D} (hx : WellFormed doubles x) :
    parse doubles (writeValue doubles x) =
      if height x ≤ stackLimit then .ok (.done (canonical x) [])
      else .error .stackLimit := by
  have hRead := readValue_writeValue doubles x hx [] stops_nil
    (2 * (writeValue doubles x).length + 1) 0 .null (by rw [List.append_nil])
  rwa [List.append_nil, Nat.zero_add] at hRead

end ScRedirection.Json
