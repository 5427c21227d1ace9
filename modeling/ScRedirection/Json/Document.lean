import ScRedirection.Json.Reader

/-! # Json::Reader: the document of a string

`Reader::parse` of a `std::string` copies the buffer of the string up to its capacity, and so the
reader goes on where the text ends. What it has read to the end before comes out of any buffer as
it comes out of the text alone.
-/

namespace ScRedirection.Json

/-- What stands behind the text of a `std::string` up to its capacity: nothing, or the NUL and
whatever was left there. -/
structure Spare where
  bytes : Bytes
  nul : ∀ c ∈ bytes.head?, c = 0
  deriving DecidableEq, Repr

def Spare.none : Spare := ⟨[], by simp⟩

def Spare.left (stale : Bytes) : Spare := ⟨0 :: stale, by simp⟩

structure StdString where
  text : Bytes
  spare : Spare := .none
  deriving DecidableEq, Repr

/-- From `data()` to `data() + capacity()`. -/
def StdString.buffer (document : StdString) : Bytes := document.text ++ document.spare.bytes

/-- `Reader::parse(const std::string&, ...)`: `documentCopy` is the whole buffer. -/
def parseString {D : Type} (doubles : Doubles D) (document : StdString) :
    Except ReadFault (Outcome D) :=
  parse doubles document.buffer

/-! ## Tokens that end before the text does -/

theorem Spare.eq_nil_or (spare : Spare) :
    spare.bytes = [] ∨ ∃ stale, spare.bytes = 0 :: stale := by
  cases hBytes : spare.bytes with
  | nil => exact .inl rfl
  | cons c stale =>
    have hHead : c = 0 := spare.nul c (by rw [hBytes]; rfl)
    exact .inr ⟨stale, by rw [hHead]⟩

theorem Spare.dropWhile_bytes (spare : Spare) {p : UInt8 → Bool} (hNul : p 0 = false) :
    spare.bytes.dropWhile p = spare.bytes := by
  rcases spare.eq_nil_or with hBytes | ⟨stale, hBytes⟩
  · rw [hBytes]
    rfl
  · rw [hBytes, List.dropWhile_cons_of_neg (by rw [hNul]; exact Bool.false_ne_true)]

theorem dropWhile_append_spare (s : Bytes) (spare : Spare) {p : UInt8 → Bool} (hNul : p 0 = false) :
    (s ++ spare.bytes).dropWhile p = s.dropWhile p ++ spare.bytes := by
  rw [List.dropWhile_append]
  split_ifs with hEmpty
  · rw [spare.dropWhile_bytes hNul, List.isEmpty_iff.mp hEmpty, List.nil_append]
  · rfl

theorem readString_append {s : Bytes} (h : (readString s).2 = [] → (readString s).1 = true)
    (more : Bytes) : readString (s ++ more) = ((readString s).1, (readString s).2 ++ more) := by
  fun_induction readString s with
  | case1 => exact absurd (h rfl) Bool.false_ne_true
  | case2 => exact absurd (h rfl) Bool.false_ne_true
  | case3 d rest ih => simpa [readString] using ih h
  | case4 rest hEscape =>
    rw [List.cons_append, readString.eq_def]
    dsimp only
    rw [if_neg hEscape, if_pos rfl]
  | case5 c rest hEscape hQuote ih =>
    rw [List.cons_append, readString.eq_def]
    dsimp only
    rw [if_neg hEscape, if_neg hQuote]
    exact ih h

theorem readCStyleComment_append {s : Bytes} (hRest : (readCStyleComment s).2 ≠ []) (more : Bytes) :
    readCStyleComment (s ++ more) =
      ((readCStyleComment s).1, (readCStyleComment s).2 ++ more) := by
  fun_induction readCStyleComment s with
  | case1 c d rest hEnd => simp [readCStyleComment, hEnd]
  | case2 c d rest hGoes ih =>
    simpa only [List.cons_append, readCStyleComment, if_neg hGoes] using ih hRest
  | case3 c => exact absurd rfl hRest
  | case4 => exact absurd rfl hRest

theorem readCppStyleComment_append {s : Bytes} (hRest : readCppStyleComment s ≠ [])
    (more : Bytes) : readCppStyleComment (s ++ more) = readCppStyleComment s ++ more := by
  fun_induction readCppStyleComment s with
  | case1 => exact absurd rfl hRest
  | case2 => simp [readCppStyleComment]
  | case3 => simp [readCppStyleComment, *]
  | case4 => simp [readCppStyleComment, *]
  | case5 => exact absurd rfl hRest
  | case6 c rest hLine hReturn ih => simpa [readCppStyleComment, hLine, hReturn] using ih hRest

theorem readComment_append {s : Bytes} (hRest : (readComment s).2 ≠ []) (more : Bytes) :
    readComment (s ++ more) = ((readComment s).1, (readComment s).2 ++ more) := by
  cases s with
  | nil => exact absurd rfl hRest
  | cons c s =>
    rw [readComment] at hRest ⊢
    rw [List.cons_append, readComment]
    split_ifs at hRest ⊢ with hStar hSlash
    · exact readCStyleComment_append hRest more
    · rw [readCppStyleComment_append hRest more]
    · rfl

theorem readFraction_append (s : Bytes) (spare : Spare) :
    readFraction (s ++ spare.bytes) = readFraction s ++ spare.bytes := by
  cases s with
  | nil =>
    rcases spare.eq_nil_or with hBytes | ⟨stale, hBytes⟩
    · rw [hBytes]
      rfl
    · rw [hBytes]
      rfl
  | cons c s =>
    rw [List.cons_append, readFraction, readFraction]
    split_ifs
    · exact dropWhile_append_spare s spare rfl
    · rfl

theorem readExponent_append (s : Bytes) (spare : Spare) :
    readExponent (s ++ spare.bytes) = readExponent s ++ spare.bytes := by
  match s with
  | [] =>
    have hStop : ∀ stale : Bytes, readExponent (0 :: stale) = 0 :: stale := by
      intro stale
      cases stale <;> rfl
    rcases spare.eq_nil_or with hBytes | ⟨stale, hBytes⟩
    · rw [hBytes]
      rfl
    · rw [hBytes]
      exact hStop stale
  | [c] =>
    rcases spare.eq_nil_or with hBytes | ⟨stale, hBytes⟩
    · simp [hBytes]
    · have hSign : ¬ ((0 : UInt8) = ch '+' ∨ (0 : UInt8) = ch '-') := by decide
      have hDigit : isDigit 0 = false := by decide
      rw [hBytes, List.singleton_append, readExponent, readExponent]
      split_ifs
      · rw [List.dropWhile_cons_of_neg (by rw [hDigit]; exact Bool.false_ne_true)]
        rfl
      · rfl
  | c :: d :: s =>
    rw [List.cons_append, List.cons_append, readExponent, readExponent]
    split_ifs
    · exact dropWhile_append_spare s spare rfl
    · exact dropWhile_append_spare (d :: s) spare rfl
    · rfl

theorem readNumber_append (s : Bytes) (spare : Spare) :
    readNumber (s ++ spare.bytes) = readNumber s ++ spare.bytes := by
  rw [readNumber, readNumber, dropWhile_append_spare s spare rfl, readFraction_append,
    readExponent_append]

/-- No word of the reader has a NUL in it. -/
theorem matchPattern_append {pattern : Bytes} (hNul : 0 ∉ pattern) (s : Bytes) (spare : Spare) :
    matchPattern pattern (s ++ spare.bytes) =
      ((matchPattern pattern s).1, (matchPattern pattern s).2 ++ spare.bytes) := by
  have hPrefix : pattern <+: s ++ spare.bytes ↔ pattern <+: s := by
    refine ⟨fun h => ?_, fun h => h.trans (List.prefix_append s spare.bytes)⟩
    rcases List.prefix_or_prefix_of_prefix h (List.prefix_append s spare.bytes) with
      hText | ⟨tail, rfl⟩
    · exact hText
    · obtain ⟨stale, hStale⟩ := (List.prefix_append_right_inj s).mp h
      cases tail with
      | nil => simp
      | cons c tail =>
        have hHead : c = 0 := spare.nul c (by rw [← hStale]; rfl)
        exact absurd (by simp [hHead]) hNul
  simp only [matchPattern, List.isPrefixOf_iff_prefix, hPrefix]
  split_ifs with hPattern
  · rw [List.drop_append_of_le_length hPattern.length_le]
  · rfl

/-- The end of the text may have made the token what it is. -/
def Ended (type : TokenType) : Prop := type = .endOfStream ∨ type = .error ∨ type = .comment

/-- Where a scan of the text stopped by itself, the scan of the buffer comes to the same. -/
def Kept (spare : Spare) (scan scan' : TokenType × Bytes) : Prop :=
  (scan.2 = [] → ¬ Ended scan.1) → scan' = (scan.1, scan.2 ++ spare.bytes)

section Kept

variable {spare : Spare} {type : TokenType} {s : Bytes}

theorem Kept.refl : Kept spare (type, s) (type, s ++ spare.bytes) := fun _ => rfl

theorem Kept.ite {p : Prop} [Decidable p] {a a' b b' : TokenType × Bytes} (hPos : Kept spare a a')
    (hNeg : Kept spare b b') : Kept spare (if p then a else b) (if p then a' else b') := by
  split_ifs
  · exact hPos
  · exact hNeg

/-- A scan that fails makes its type an error. -/
theorem Kept.checked {scan scan' : Bool × Bytes}
    (h : (scan.2 = [] → scan.1 = true ∧ type ≠ .comment) →
      scan' = (scan.1, scan.2 ++ spare.bytes)) :
    Kept spare (if scan.1 then type else .error, scan.2)
      (if scan'.1 then type else .error, scan'.2) := by
  intro hStopped
  rw [h fun hRest => ?_]
  have hEnded := hStopped hRest
  cases hOk : scan.1 with
  | false =>
    rw [hOk] at hEnded
    exact absurd (.inr (.inl rfl)) hEnded
  | true =>
    rw [hOk] at hEnded
    exact ⟨rfl, fun hComment => hEnded (.inr (.inr hComment))⟩

end Kept

theorem scanToken_kept (c : UInt8) (s : Bytes) (spare : Spare) :
    Kept spare (scanToken c s) (scanToken c (s ++ spare.bytes)) := by
  have hNumber : Kept spare (.number, readNumber s) (.number, readNumber (s ++ spare.bytes)) := by
    rw [readNumber_append]
    exact .refl
  unfold scanToken
  refine .ite .refl (.ite .refl (.ite .refl (.ite .refl (.ite (.checked ?string) (.ite
    (.checked ?comment) (.ite hNumber (.ite (.checked ?true) (.ite (.checked ?false) (.ite
      (.checked ?null) (.ite .refl (.ite .refl (.ite .refl .refl))))))))))))
  case string => exact fun hOk => readString_append (fun hRest => (hOk hRest).1) spare.bytes
  case comment =>
    exact fun hOk => readComment_append (fun hRest => (hOk hRest).2 rfl) spare.bytes
  all_goals exact fun _ => matchPattern_append (by decide) s spare

theorem readToken_append {s rest : Bytes} {token : Token} (h : readToken s = (token, rest))
    (hStopped : rest = [] → ¬ Ended token.type) (spare : Spare) :
    readToken (s ++ spare.bytes) = (token, rest ++ spare.bytes) := by
  unfold readToken at h ⊢
  have hSpaces : skipSpaces (s ++ spare.bytes) = skipSpaces s ++ spare.bytes :=
    dropWhile_append_spare s spare rfl
  rw [hSpaces]
  cases hText : skipSpaces s with
  | nil =>
    rw [hText] at h
    cases h
    exact absurd (.inl rfl) (hStopped rfl)
  | cons c text =>
    rw [hText] at h
    dsimp only [List.cons_append] at h ⊢
    have hKept := scanToken_kept c text spare
    have hLength := scanToken_length c text
    generalize scanToken c text = scan at h hKept hLength
    obtain ⟨type, left⟩ := scan
    cases h
    rw [hKept hStopped]
    dsimp only at hLength ⊢
    have hTake : (text ++ spare.bytes).length + 1 - (left ++ spare.bytes).length =
        text.length + 1 - left.length := by
      simp only [List.length_append]
      omega
    rw [hTake, ← List.cons_append, List.take_append_of_le_length]
    simp only [List.length_cons]
    omega

theorem skipComments_append {fuel : Nat} {s rest : Bytes} {token : Token}
    (h : skipComments fuel s = (token, rest)) (hStopped : rest = [] → ¬ Ended token.type)
    (hComment : token.type ≠ .comment) (spare : Spare) {fuel' : Nat} (hFuel : fuel ≤ fuel') :
    skipComments fuel' (s ++ spare.bytes) = (token, rest ++ spare.bytes) := by
  have hLast : ∀ {fuel s}, readToken s = (token, rest) →
      skipComments fuel (s ++ spare.bytes) = (token, rest ++ spare.bytes) := by
    intro fuel s hToken
    have hAppend := readToken_append hToken hStopped spare
    rw [skipComments_token (by rwa [hAppend]), hAppend]
  induction fuel generalizing s fuel' with
  | zero => exact hLast h
  | succ fuel ih =>
    rw [skipComments] at h
    split_ifs at h with hFirst
    · obtain ⟨fuel', rfl⟩ : ∃ n, fuel' = n + 1 := ⟨fuel' - 1, by omega⟩
      -- a comment at the end of the text leaves nothing to read
      have hMore : (readToken s).2 ≠ [] := by
        intro hNone
        rw [hNone] at h
        cases fuel <;> cases h <;> exact hStopped rfl (.inl rfl)
      have hToken : readToken s = ((readToken s).1, (readToken s).2) := rfl
      have hAppend := readToken_append hToken (absurd · hMore) spare
      rw [skipComments, hAppend]
      dsimp only
      rw [if_pos hFirst]
      exact ih h (by omega)
    · exact hLast h

theorem skipCommentTokens_append {s rest : Bytes} {token : Token}
    (h : skipCommentTokens s = (token, rest)) (hStopped : rest = [] → ¬ Ended token.type)
    (spare : Spare) : skipCommentTokens (s ++ spare.bytes) = (token, rest ++ spare.bytes) := by
  have hComment : token.type ≠ .comment := by
    have hType := skipCommentTokens_not_comment s
    rwa [h] at hType
  exact skipComments_append h hStopped hComment spare (by simp)

/-! ## Values that end before the text does -/

section Read

variable {D : Type} {doubles : Doubles D}

/-- Where the text ends between two members, the reader finds the NUL or nothing, and no name. -/
theorem readObject_spare (fuel depth : Nat) (members : Members D)
    (name : Bytes) (spare : Spare) :
    readObject doubles (fuel + 1) depth members name spare.bytes =
      .ok (.failed (.object members)) := by
  have hToken : (skipCommentTokens spare.bytes).1.type = .endOfStream := by
    rcases spare.eq_nil_or with hBytes | ⟨stale, hBytes⟩
    · rw [hBytes]
      rfl
    · rw [hBytes, skipCommentTokens, skipComments_token]
      · rfl
      · exact TokenType.noConfusion
  rw [readObject]
  dsimp only
  rw [hToken]
  rfl

theorem readObject_nil (fuel depth : Nat) (members : Members D) (name : Bytes) (value : Value D)
    (rest : Bytes) : readObject doubles fuel depth members name [] ≠ .ok (.done value rest) := by
  cases fuel with
  | zero => exact fun h => by cases h
  | succ fuel => exact fun h => by cases h

theorem readValue_blank {s : Bytes} (hBlank : skipSpaces s = []) (fuel depth : Nat)
    (current value : Value D) (rest : Bytes) :
    readValue doubles fuel depth current s ≠ .ok (.done value rest) := by
  have hToken : readToken s = (⟨.endOfStream, []⟩, []) := by rw [readToken, hBlank]
  cases fuel with
  | zero => exact fun h => by cases h
  | succ fuel =>
    rw [readValue, skipCommentTokens, skipComments_token (by rw [hToken]; decide), hToken]
    split_ifs
    · exact fun h => by cases h
    · exact fun h => by cases h

theorem readArray_blank {s : Bytes} (hBlank : skipSpaces s = []) (fuel depth : Nat)
    (elements : List (Value D)) (value : Value D) (rest : Bytes) :
    readArray doubles fuel depth elements s ≠ .ok (.done value rest) := by
  cases fuel with
  | zero => exact fun h => by cases h
  | succ fuel =>
    rw [readArray]
    split
    · exact fun h => by cases h
    · exact fun h => by cases h
    · rename_i hDone
      exact absurd hDone (readValue_blank hBlank _ _ _ _ _)

/-- What a read of some fuel has done, a read of the buffer does with any more fuel. -/
structure ReadsOn (doubles : Doubles D) (spare : Spare) (fuel : Nat) : Prop where
  value : ∀ {depth current s value rest}, readValue doubles fuel depth current s =
    .ok (.done value rest) → ∀ {fuel'}, fuel ≤ fuel' →
      readValue doubles fuel' depth current (s ++ spare.bytes) =
        .ok (.done value (rest ++ spare.bytes))
  object : ∀ {depth members name s value rest}, readObject doubles fuel depth members name s =
    .ok (.done value rest) → ∀ {fuel'}, fuel ≤ fuel' →
      readObject doubles fuel' depth members name (s ++ spare.bytes) =
        .ok (.done value (rest ++ spare.bytes))
  array : ∀ {depth elements s value rest}, readArray doubles fuel depth elements s =
    .ok (.done value rest) → ∀ {fuel'}, fuel ≤ fuel' →
      readArray doubles fuel' depth elements (s ++ spare.bytes) =
        .ok (.done value (rest ++ spare.bytes))

variable {spare : Spare} {fuel : Nat}

theorem not_ended {type type' : TokenType} (h : type = type')
    (hType : ¬ Ended type' := by unfold Ended; decide) : ¬ Ended type := h ▸ hType

theorem readArray_append (ih : ReadsOn doubles spare fuel) {depth : Nat} {elements : List (Value D)}
    {s : Bytes} {value : Value D} {rest : Bytes}
    (h : readArray doubles (fuel + 1) depth elements s = .ok (.done value rest)) {fuel' : Nat}
    (hFuel : fuel ≤ fuel') :
    readArray doubles (fuel' + 1) depth elements (s ++ spare.bytes) =
      .ok (.done value (rest ++ spare.bytes)) := by
  rw [readArray] at h ⊢
  split at h
  · cases h
  · cases h
  rename_i element s₁ hElement
  rw [ih.value hElement hFuel]
  dsimp only at h ⊢
  cases hToken : skipCommentTokens s₁ with
  | mk token s₂ =>
    rw [hToken] at h
    dsimp only at h
    split_ifs at h with hEnd hNext
    · cases h
      rw [skipCommentTokens_append hToken (fun _ => not_ended hEnd) spare]
      dsimp only
      rw [if_pos hEnd]
    · rw [skipCommentTokens_append hToken (fun _ => not_ended hNext) spare]
      dsimp only
      rw [if_neg hEnd, if_pos hNext]
      exact ih.array h hFuel
    · cases h

variable (spare) in
/-- The token behind a member, and the one that a comment there is skipped for. -/
theorem comma_append {s s' rest : Bytes} {comma next : Token} (hComma : readToken s = (comma, s'))
    (hNext : (if comma.type = .comment then skipCommentTokens s' else (comma, s')) = (next, rest))
    (hKnown : ¬ (comma.type ≠ .objectEnd ∧ comma.type ≠ .arraySeparator ∧ comma.type ≠ .comment))
    (hStopped : rest = [] → next.type = .objectEnd) :
    readToken (s ++ spare.bytes) = (comma, s' ++ spare.bytes) ∧
      (if comma.type = .comment then skipCommentTokens (s' ++ spare.bytes)
        else (comma, s' ++ spare.bytes)) = (next, rest ++ spare.bytes) := by
  by_cases hComment : comma.type = .comment
  · rw [if_pos hComment] at hNext ⊢
    have hMore : s' ≠ [] := by
      rintro rfl
      cases hNext
      cases hStopped rfl
    exact ⟨readToken_append hComma (absurd · hMore) spare,
      skipCommentTokens_append hNext (fun hRest => not_ended (hStopped hRest)) spare⟩
  · rw [if_neg hComment] at hNext ⊢
    cases hNext
    refine ⟨readToken_append hComma (fun _ => ?_) spare, rfl⟩
    by_cases hEnd : comma.type = .objectEnd
    · exact not_ended hEnd
    · by_cases hSeparator : comma.type = .arraySeparator
      · exact not_ended hSeparator
      · exact absurd ⟨hEnd, hSeparator, hComment⟩ hKnown

theorem readObject_append (ih : ReadsOn doubles spare fuel) {depth : Nat} {members : Members D}
    {name s : Bytes} {value : Value D} {rest : Bytes}
    (h : readObject doubles (fuel + 1) depth members name s = .ok (.done value rest)) {fuel' : Nat}
    (hFuel : fuel ≤ fuel') :
    readObject doubles (fuel' + 1) depth members name (s ++ spare.bytes) =
      .ok (.done value (rest ++ spare.bytes)) := by
  rw [readObject] at h ⊢
  cases hName : skipCommentTokens s with
  | mk tokenName s₁ =>
  rw [hName] at h
  dsimp only at h
  split at h
  case isTrue hClosed =>
    cases h
    rw [skipCommentTokens_append hName (fun _ => not_ended hClosed.1) spare]
    dsimp only
    rw [if_pos hClosed]
  case isFalse hClosed =>
  split at h
  case isFalse => cases h
  case isTrue hString =>
  rw [skipCommentTokens_append hName (fun _ => not_ended hString) spare]
  dsimp only
  rw [if_neg hClosed, if_pos hString]
  split at h
  · cases h
  rename_i name' _
  cases hColon : readToken s₁ with
  | mk colon s₂ =>
  rw [hColon] at h
  dsimp only at h
  split at h
  case isTrue => cases h
  case isFalse hSeparator =>
  rw [readToken_append hColon (fun _ => not_ended (not_not.mp hSeparator)) spare]
  dsimp only
  rw [if_neg hSeparator]
  split at h
  · cases h
  · cases h
  rename_i x s₃ hValue
  rw [ih.value hValue hFuel]
  dsimp only
  cases hComma : readToken s₃ with
  | mk comma s₄ =>
  rw [hComma] at h
  dsimp only at h
  split at h
  case isTrue => cases h
  case isFalse hKnown =>
  cases hNext : (if comma.type = .comment then skipCommentTokens s₄ else (comma, s₄)) with
  | mk next s₅ =>
  rw [hNext] at h
  dsimp only at h
  have hStopped : s₅ = [] → next.type = .objectEnd := by
    rintro rfl
    by_contra hGoes
    rw [if_neg hGoes] at h
    exact readObject_nil _ _ _ _ _ _ h
  obtain ⟨hComma', hNext'⟩ := comma_append spare hComma hNext hKnown hStopped
  rw [hComma']
  dsimp only
  rw [if_neg hKnown, hNext']
  dsimp only
  split_ifs at h ⊢ with hEnd
  · cases h
    rfl
  · exact ih.object h hFuel

theorem readValue_append (ih : ReadsOn doubles spare fuel) {depth : Nat} {current : Value D}
    {s : Bytes} {value : Value D} {rest : Bytes}
    (h : readValue doubles (fuel + 1) depth current s = .ok (.done value rest)) {fuel' : Nat}
    (hFuel : fuel ≤ fuel') :
    readValue doubles (fuel' + 1) depth current (s ++ spare.bytes) =
      .ok (.done value (rest ++ spare.bytes)) := by
  rw [readValue] at h ⊢
  split_ifs at h ⊢ with hDepth
  cases hToken : skipCommentTokens s with
  | mk token s₁ =>
  rw [hToken] at h
  dsimp only at h
  have hAppend := fun hEnded => skipCommentTokens_append hToken (fun _ => hEnded) spare
  split at h
  case h_1 hType =>
    rw [hAppend (not_ended hType)]
    simp only [hType]
    exact ih.object h hFuel
  case h_2 hType =>
    rw [hAppend (not_ended hType)]
    simp only [hType]
    have hSpaces : skipSpaces (s₁ ++ spare.bytes) = skipSpaces s₁ ++ spare.bytes :=
      dropWhile_append_spare s₁ spare rfl
    rw [hSpaces]
    split at h
    · rename_i c after hAfter
      rw [hAfter, List.cons_append]
      dsimp only
      split_ifs at h ⊢
      · cases h
        rfl
      · exact ih.array h hFuel
    · rename_i hNone
      exact absurd h (readArray_blank hNone _ _ _ _ _)
  case h_3 hType =>
    rw [hAppend (not_ended hType)]
    simp only [hType]
    split at h
    · cases h
      rfl
    · cases h
  case h_4 hType =>
    rw [hAppend (not_ended hType)]
    simp only [hType]
    split at h
    · cases h
      rfl
    · cases h
  case h_8 => cases h
  all_goals
    rename_i hType
    cases h
    rw [hAppend (not_ended hType)]
    simp only [hType]

theorem readsOn (doubles : Doubles D) (spare : Spare) (fuel : Nat) :
    ReadsOn doubles spare fuel := by
  induction fuel with
  | zero =>
    constructor
    · intro depth current s value rest h
      cases h
    · intro depth members name s value rest h
      cases h
    · intro depth elements s value rest h
      cases h
  | succ fuel ih =>
    constructor
    · intro depth current s value rest h fuel' hFuel
      obtain ⟨n, rfl⟩ : ∃ n, fuel' = n + 1 := ⟨fuel' - 1, by omega⟩
      exact readValue_append ih h (by omega)
    · intro depth members name s value rest h fuel' hFuel
      obtain ⟨n, rfl⟩ : ∃ n, fuel' = n + 1 := ⟨fuel' - 1, by omega⟩
      exact readObject_append ih h (by omega)
    · intro depth elements s value rest h fuel' hFuel
      obtain ⟨n, rfl⟩ : ∃ n, fuel' = n + 1 := ⟨fuel' - 1, by omega⟩
      exact readArray_append ih h (by omega)

/-- A value that ends within the text is read from every buffer that holds the text. -/
theorem parseString_eq_done {document : StdString} {value : Value D} {rest : Bytes}
    (h : parse doubles document.text = .ok (.done value rest)) :
    parseString doubles document = .ok (.done value (rest ++ document.spare.bytes)) := by
  apply (readsOn doubles document.spare _).value h
  simp only [StdString.buffer, List.length_append]
  omega

/-! A text that only its buffer completes -/

example : parse Doubles.absent [ch '"'] = .ok (.failed .null) ∧
    parseString Doubles.absent ⟨[ch '"'], .left [ch '"']⟩ =
      .ok (.done (.string [0]) []) := by
  decide +kernel

end Read

end ScRedirection.Json
