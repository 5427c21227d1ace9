import ScRedirection.Base64

/-! # What the decoder reads

`decode` on memory instead of a text: `encoded_string` lies there with its NUL, and beyond the NUL
there may be anything. Every read is recorded, also the second one of a character that is tested
for '=' and then for '.'. A length that a `std::string` can have is far from where `pos` wraps.
-/

namespace ScRedirection.Base64

/-- What comes of a computation, and the indices it read, in order. -/
structure Reading (α : Type) where
  result : Except Fault α
  reads : List Nat := []

namespace Reading

instance : Monad Reading where
  pure a := { result := .ok a }
  bind x f :=
    match x.result with
    | .ok a => ⟨(f a).result, x.reads ++ (f a).reads⟩
    | .error fault => ⟨.error fault, x.reads⟩

/-- `encoded_string[i]`. -/
def read (memory : Nat → UInt8) (i : Nat) : Reading UInt8 := ⟨.ok (memory i), [i]⟩

def posOfChar (chr : UInt8) : Reading Nat := { result := Base64.posOfChar chr }

/-- `encoded_string[i]` is '=' or '.', with the second comparison only when the first fails. -/
def isTrailingChar (memory : Nat → UInt8) (i : Nat) : Reading Bool := do
  if (← read memory i) = 61 then
    return true
  return (← read memory i) = 46

def decodeGroup (memory : Nat → UInt8) (pos : Nat) : Reading Bytes := do
  let pos₁ ← posOfChar (← read memory (pos + 1))
  let pos₀ ← posOfChar (← read memory (pos + 0))
  let byte₀ := UInt8.ofNat ((pos₀ <<< 2) + ((pos₁ &&& 0x30) >>> 4))
  if ← isTrailingChar memory (pos + 2) then
    return [byte₀]
  let pos₂ ← posOfChar (← read memory (pos + 2))
  let byte₁ := UInt8.ofNat (((pos₁ &&& 0x0f) <<< 4) + ((pos₂ &&& 0x3c) >>> 2))
  if ← isTrailingChar memory (pos + 3) then
    return [byte₀, byte₁]
  let pos₃ ← posOfChar (← read memory (pos + 3))
  return [byte₀, byte₁, UInt8.ofNat (((pos₂ &&& 0x03) <<< 6) + pos₃)]

def decodeLoop (memory : Nat → UInt8) (inLen : Nat) : Nat → Nat → Bytes → Reading Bytes
  | 0, pos, ret => if pos < inLen then { result := .error .outOfFuel } else pure ret
  | fuel + 1, pos, ret =>
    if pos < inLen then do
      let group ← decodeGroup memory pos
      decodeLoop memory inLen fuel (pos + 4) (ret ++ group)
    else pure ret

def decode (memory : Nat → UInt8) (inLen : Nat) : Reading Bytes :=
  if inLen = 0 then pure [] else decodeLoop memory inLen inLen 0 []

end Reading

/-- The text, its NUL, and what lies beyond. -/
def memoryOf (encoded : Bytes) (beyond : Nat → UInt8) (i : Nat) : UInt8 :=
  if h : i < encoded.length then encoded[i]
  else if i = encoded.length then 0
  else beyond i

/-- A computation with reads keeps to the text and does what the one on the text does, which is
never stopped at its end. -/
structure Inside {α : Type} (encoded : Bytes) (x : Reading α) (y : Except Fault α) : Prop where
  result : x.result = y
  reads : ∀ i ∈ x.reads, i ≤ encoded.length
  inRange : y ≠ .error .outOfRange

namespace Inside

variable {α β : Type} {encoded : Bytes} {beyond : Nat → UInt8} {i pos : Nat}

theorem pure (a : α) : Inside encoded (pure a) (.ok a) := ⟨rfl, by simp [Pure.pure], by simp⟩

theorem bind {x : Reading α} {y : Except Fault α} {f : α → Reading β} {g : α → Except Fault β}
    (h : Inside encoded x y) (hRest : ∀ a, y = .ok a → Inside encoded (f a) (g a)) :
    Inside encoded (x >>= f) (y >>= g) := by
  obtain ⟨result, reads⟩ := x
  obtain ⟨rfl, hReads, hRange⟩ := h
  cases result with
  | error fault =>
    refine ⟨rfl, hReads, ?_⟩
    intro hFault
    cases hFault
    exact hRange rfl
  | ok a =>
    obtain ⟨hResult, hMore, hRange'⟩ := hRest a rfl
    refine ⟨hResult, fun i hi => ?_, hRange'⟩
    rcases List.mem_append.mp hi with hi | hi
    · exact hReads i hi
    · exact hMore i hi

/-- A step that is known to return, against what the text's computation does with its value. -/
theorem next {x : Reading α} {a : α} {f : α → Reading β} {z : Except Fault β}
    (h : Inside encoded x (.ok a)) (hRest : Inside encoded (f a) z) :
    Inside encoded (x >>= f) z :=
  h.bind (g := fun _ => z) fun a' ha => by
    cases ha
    exact hRest

theorem posOfChar (chr : UInt8) :
    Inside encoded (Reading.posOfChar chr) (Base64.posOfChar chr) := by
  refine ⟨rfl, fun i hi => absurd hi List.not_mem_nil, ?_⟩
  unfold Base64.posOfChar
  split_ifs <;> simp

/-- Up to the NUL a read finds what the text has there. -/
theorem read (beyond : Nat → UInt8) (h : i ≤ encoded.length) : ∃ chr, charAt encoded i = .ok chr ∧
    Inside encoded (Reading.read (memoryOf encoded beyond) i) (.ok chr) := by
  refine ⟨memoryOf encoded beyond i, ?_, rfl, ?_, by simp⟩
  · rw [charAt, memoryOf]
    split_ifs with hText hNul
    · rfl
    · rfl
    · omega
  · intro j hj
    rw [List.mem_singleton.mp hj]
    exact h

/-- A character that has a position is not the NUL, so there is one after it. -/
theorem lt_length {chr : UInt8} {n : Nat} (hChr : charAt encoded i = .ok chr)
    (hPos : Base64.posOfChar chr = .ok n) : i < encoded.length := by
  by_contra hEnd
  rw [charAt, dif_neg hEnd] at hChr
  split_ifs at hChr
  cases hChr
  cases hPos

theorem isTrailingChar {chr : UInt8}
    (hRead : Inside encoded (Reading.read (memoryOf encoded beyond) i) (.ok chr)) :
    Inside encoded (Reading.isTrailingChar (memoryOf encoded beyond) i)
      (.ok (Base64.isTrailingChar chr)) := by
  unfold Reading.isTrailingChar
  apply hRead.next
  by_cases hEqual : chr = 61
  · rw [if_pos hEqual, hEqual]
    exact pure true
  · rw [if_neg hEqual, Base64.isTrailingChar, beq_eq_false_iff_ne.mpr hEqual, Bool.false_or]
    exact hRead.next (pure (chr == 46))

theorem decodeGroup (hPos : pos < encoded.length) :
    Inside encoded (Reading.decodeGroup (memoryOf encoded beyond) pos)
      (Base64.decodeGroup encoded pos) := by
  obtain ⟨chr₁, hChr₁, hRead₁⟩ := read beyond (Nat.succ_le_of_lt hPos)
  obtain ⟨chr₀, hChr₀, hRead₀⟩ := read beyond (Nat.le_of_lt hPos)
  unfold Reading.decodeGroup Base64.decodeGroup
  rw [hChr₁, ok_bind]
  apply hRead₁.next
  apply (posOfChar chr₁).bind
  intro pos₁ hPos₁
  have hEnd₁ := lt_length hChr₁ hPos₁
  rw [Nat.add_zero, hChr₀, ok_bind]
  apply hRead₀.next
  apply (posOfChar chr₀).bind
  intro pos₀ _
  obtain ⟨chr₂, hChr₂, hRead₂⟩ := read beyond (Nat.succ_le_of_lt hEnd₁)
  rw [hChr₂, ok_bind]
  apply (isTrailingChar hRead₂).next
  split_ifs
  · exact pure _
  apply hRead₂.next
  apply (posOfChar chr₂).bind
  intro pos₂ hPos₂
  have hEnd₂ := lt_length hChr₂ hPos₂
  obtain ⟨chr₃, hChr₃, hRead₃⟩ := read beyond (Nat.succ_le_of_lt hEnd₂)
  rw [hChr₃, ok_bind]
  apply (isTrailingChar hRead₃).next
  split_ifs
  · exact pure _
  apply hRead₃.next
  apply (posOfChar chr₃).bind
  intro pos₃ _
  exact pure _

theorem decodeLoop (fuel pos : Nat) (ret : Bytes) :
    Inside encoded (Reading.decodeLoop (memoryOf encoded beyond) encoded.length fuel pos ret)
      (Base64.decodeLoop encoded fuel pos ret) := by
  induction fuel generalizing pos ret with
  | zero =>
    rw [Reading.decodeLoop, Base64.decodeLoop]
    split_ifs
    · exact ⟨rfl, fun i hi => absurd hi List.not_mem_nil, by simp⟩
    · exact pure ret
  | succ fuel ih =>
    rw [Reading.decodeLoop, Base64.decodeLoop]
    split_ifs with hPos
    · apply (decodeGroup hPos).bind
      intro group _
      exact ih (pos + 4) (ret ++ group)
    · exact pure ret

end Inside

/-- Whatever the text and whatever lies beyond it, no read goes past the NUL, and the loop ends,
with the bytes or with the throw of `pos_of_char`. -/
theorem decode_reads_inside (encoded : Bytes) (beyond : Nat → UInt8) :
    (∀ i ∈ (Reading.decode (memoryOf encoded beyond) encoded.length).reads, i ≤ encoded.length) ∧
      (Reading.decode (memoryOf encoded beyond) encoded.length).result = base64Decode encoded ∧
      ((∃ ret, base64Decode encoded = .ok ret) ∨ base64Decode encoded = .error .badChar) := by
  have hInside : Inside encoded (Reading.decode (memoryOf encoded beyond) encoded.length)
      (base64Decode encoded) := by
    rw [Reading.decode, base64Decode]
    split_ifs with hEmpty
    · rw [hEmpty, decodeLoop, if_neg (by omega)]
      exact .pure []
    · exact .decodeLoop encoded.length 0 []
  refine ⟨hInside.reads, hInside.result, ?_⟩
  cases hDecode : base64Decode encoded with
  | ok ret => exact .inl ⟨ret, rfl⟩
  | error fault =>
    cases fault with
    | badChar => exact .inr rfl
    | outOfRange => exact absurd hDecode hInside.inRange
    | outOfFuel => exact absurd hDecode (base64Decode_ne_outOfFuel encoded)

/-- Cut after its third character, the last group reads the NUL and nothing after it. -/
example : (Reading.decode (memoryOf (bytes "aGV") fun _ => 65) 3).reads =
    [1, 0, 2, 2, 2, 3, 3, 3] := by
  decide

end ScRedirection.Base64
