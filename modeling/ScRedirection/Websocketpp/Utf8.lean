import ScRedirection.Websocketpp.Utf8Validator

/-! # What the validator accepts

The automaton of the table accepts the UTF-8 encodings of sequences of characters and nothing else:
no overlong form, no surrogate, nothing above U+10FFFF, no byte left over.
-/

namespace ScRedirection.Utf8Validator

/-! ## The table -/

/-- The type of a byte, from the first part of the table. -/
def byteType (n : Nat) : Nat :=
  if n < 0x80 then 0 else if n < 0x90 then 1 else if n < 0xA0 then 9 else if n < 0xC0 then 7
  else if n < 0xC2 then 8 else if n < 0xE0 then 2 else if n = 0xE0 then 10 else if n = 0xED then 4
  else if n < 0xF0 then 3 else if n = 0xF0 then 11 else if n < 0xF4 then 6
  else if n = 0xF4 then 5 else 8

/-- Where the first byte of a character leads. -/
def lead (type : Nat) : Nat :=
  if type = 0 then utf8Accept else if type = 2 then 2 else if type = 3 then 3
  else if type = 4 then 5 else if type = 5 then 8 else if type = 6 then 7
  else if type = 10 then 4 else if type = 11 then 6 else utf8Reject

/-- Where a byte leads inside a character. The continuation bytes are of the types 1, 9 and 7, in
their order. -/
def next (state type : Nat) : Nat :=
  if type ≠ 1 ∧ type ≠ 9 ∧ type ≠ 7 then utf8Reject
  else if state = 2 then utf8Accept
  else if state = 3 then 2
  else if state = 4 then if type = 7 then 2 else utf8Reject
  else if state = 5 then if type = 7 then utf8Reject else 2
  else if state = 6 then if type = 1 then utf8Reject else 3
  else if state = 7 then 3
  else if type = 1 then 3 else utf8Reject

theorem byteType_low {n : Nat} (hLow : n < 0xC0) :
    n < 0x80 ∧ byteType n = 0 ∨ 0x80 ≤ n ∧ n < 0x90 ∧ byteType n = 1 ∨
      0x90 ≤ n ∧ n < 0xA0 ∧ byteType n = 9 ∨ 0xA0 ≤ n ∧ byteType n = 7 := by
  unfold byteType
  rcases Nat.lt_or_ge n 0x90 with hFirst | hRest
  · grind
  · grind

theorem byteType_high {n : Nat} (hBelow : n < 0xF0) (hHigh : 0xC0 ≤ n) :
    n < 0xC2 ∧ byteType n = 8 ∨ 0xC2 ≤ n ∧ n < 0xE0 ∧ byteType n = 2 ∨
      n = 0xE0 ∧ byteType n = 10 ∨ n = 0xED ∧ byteType n = 4 ∨
      0xE0 < n ∧ n ≠ 0xED ∧ byteType n = 3 := by
  unfold byteType
  rcases Nat.lt_or_ge n 0xE0 with hTwo | hThree
  · grind
  · rcases Nat.lt_or_ge 0xE0 n with hAbove | hFirst
    · grind
    · grind

theorem byteType_top {n : Nat} (hTop : 0xF0 ≤ n) :
    n = 0xF0 ∧ byteType n = 11 ∨ 0xF0 < n ∧ n < 0xF4 ∧ byteType n = 6 ∨
      n = 0xF4 ∧ byteType n = 5 ∨ 0xF4 < n ∧ byteType n = 8 := by
  unfold byteType
  grind

theorem byteType_lt (n : Nat) : byteType n < 12 := by
  rcases Nat.lt_or_ge n 0xC0 with hLow | hHigh
  · have hType := byteType_low hLow
    omega
  rcases Nat.lt_or_ge n 0xF0 with hBelow | hTop
  · have hType := byteType_high hBelow hHigh
    omega
  · have hType := byteType_top hTop
    omega

theorem byteType_lead {n : Nat} (hLead : 0xC0 ≤ n) :
    byteType n ≠ 1 ∧ byteType n ≠ 9 ∧ byteType n ≠ 7 ∧
      (byteType n = 8 ↔ n < 0xC2 ∨ 0xF5 ≤ n) := by
  rcases Nat.lt_or_ge n 0xF0 with hBelow | hTop
  · have hType := byteType_high hBelow hLead
    omega
  · have hType := byteType_top hTop
    omega

theorem utf8d_stretches :
    (utf8d.drop 0).take 256 = (List.range 256).map byteType ∧
      (utf8d.drop 256).take 12 = (List.range 12).map lead ∧
      ∀ state < 9, 2 ≤ state →
        (utf8d.drop (256 + state * 16)).take 12 = (List.range 12).map (next state) := by
  decide +kernel

theorem getD_of_stretch {table : List Nat} {start length n : Nat} {entry : Nat → Nat}
    (h : (table.drop start).take length = (List.range length).map entry) (hn : n < length) :
    table.getD (start + n) utf8Reject = entry n := by
  have hEntry := congrArg (fun stretch => stretch[n]?) h
  rw [List.getElem?_take_of_lt hn, List.getElem?_drop, List.getElem?_map,
    List.getElem?_range hn] at hEntry
  rw [List.getD_eq_getElem?_getD, hEntry]
  rfl

theorem utf8d_byte {n : Nat} (hn : n < 256) : utf8d.getD n utf8Reject = byteType n := by
  have hEntry := getD_of_stretch utf8d_stretches.1 hn
  rwa [Nat.zero_add] at hEntry

theorem decode_accept (byte : UInt8) : decode utf8Accept byte = lead (byteType byte.toNat) := by
  rw [decode, utf8d_byte byte.toNat_lt]
  exact getD_of_stretch utf8d_stretches.2.1 (byteType_lt byte.toNat)

theorem decode_inside {state : Nat} (hInside : 2 ≤ state) (hState : state < 9) (byte : UInt8) :
    decode state byte = next state (byteType byte.toNat) := by
  rw [decode, utf8d_byte byte.toNat_lt]
  exact getD_of_stretch (utf8d_stretches.2.2 state hState hInside) (byteType_lt byte.toNat)

/-! ## Bytes of a character -/

def tail (t : Nat) : UInt8 := UInt8.ofNat (t % 64 + 0x80)

theorem byteType_tail {t : Nat} (ht : t < 64) :
    byteType (tail t).toNat = if t < 0x10 then 1 else if t < 0x20 then 9 else 7 := by
  have hType := byteType_low (n := t + 0x80) (by omega)
  rw [tail, Nat.mod_eq_of_lt ht, UInt8.toNat_ofNat_of_lt' (by unfold UInt8.size; omega)]
  split_ifs <;> omega

/-- The state behind the first byte of a character of `k + 1` bytes, whose bits are `p`. -/
def owing : Nat → Nat → Nat
  | 0, _ => utf8Accept
  | 1, _ => 2
  | 2, p => if p = 0 then 4 else if p = 0xD then 5 else 3
  | _, p => if p = 0 then 6 else if p = 4 then 8 else 7

theorem decode_lead_two {p : Nat} (hLow : 2 ≤ p) (hHigh : p < 32) :
    decode utf8Accept (UInt8.ofNat (p + 0xC0)) = 2 := by
  have hType : byteType (p + 0xC0) = 2 := by
    have hRange := byteType_high (n := p + 0xC0) (by omega) (by omega)
    omega
  rw [decode_accept, UInt8.toNat_ofNat_of_lt' (by unfold UInt8.size; omega), hType]
  rfl

theorem decode_lead_three {p : Nat} (hHigh : p < 16) :
    decode utf8Accept (UInt8.ofNat (p + 0xE0)) = owing 2 p := by
  have hType : byteType (p + 0xE0) = if p = 0 then 10 else if p = 0xD then 4 else 3 := by
    have hRange := byteType_high (n := p + 0xE0) (by omega) (by omega)
    split_ifs <;> omega
  rw [decode_accept, UInt8.toNat_ofNat_of_lt' (by unfold UInt8.size; omega), hType, owing]
  split_ifs <;> rfl

theorem decode_lead_four {p : Nat} (hHigh : p < 5) :
    decode utf8Accept (UInt8.ofNat (p + 0xF0)) = owing 3 p := by
  have hType : byteType (p + 0xF0) = if p = 0 then 11 else if p = 4 then 5 else 6 := by
    have hRange := byteType_top (n := p + 0xF0) (by omega)
    split_ifs <;> omega
  have hOwing : owing 3 p = if p = 0 then 6 else if p = 4 then 8 else 7 := rfl
  rw [decode_accept, UInt8.toNat_ofNat_of_lt' (by unfold UInt8.size; omega), hType, hOwing]
  split_ifs <;> rfl

/-- The last byte but two: with no bits before it, it has enough for four bytes, and behind the
greatest first byte it stays below U+110000. -/
theorem decode_owing_three {p t : Nat} (hp : p < 5) (ht : t < 64) :
    decode (owing 3 p) (tail t) =
      if 0x10 ≤ 64 * p + t ∧ 64 * p + t < 0x110 then 3 else utf8Reject := by
  have hOwing : owing 3 p = if p = 0 then 6 else if p = 4 then 8 else 7 := rfl
  rw [decode_inside (by rw [hOwing]; split_ifs <;> decide) (by rw [hOwing]; split_ifs <;> decide),
    byteType_tail ht, hOwing]
  split_ifs
  all_goals first | rfl | omega

/-- The last byte but one: enough bits for three bytes, and no surrogate. -/
theorem decode_owing_two {p t : Nat} (hp : p < 16) (ht : t < 64) :
    decode (owing 2 p) (tail t) =
      if 0x20 ≤ 64 * p + t ∧ ¬(0x360 ≤ 64 * p + t ∧ 64 * p + t < 0x380) then 2
      else utf8Reject := by
  have hOwing : owing 2 p = if p = 0 then 4 else if p = 0xD then 5 else 3 := rfl
  rw [decode_inside (by rw [hOwing]; split_ifs <;> decide) (by rw [hOwing]; split_ifs <;> decide),
    byteType_tail ht, hOwing]
  split_ifs
  all_goals first | rfl | omega

theorem decode_tail {t : Nat} (ht : t < 64) :
    decode 3 (tail t) = 2 ∧ decode 2 (tail t) = utf8Accept := by
  rw [decode_inside (by decide : 2 ≤ 3) (by decide), decode_inside (by decide) (by decide),
    byteType_tail ht]
  split_ifs <;> exact ⟨rfl, rfl⟩

/-- Inside a character only a continuation byte goes on. -/
theorem exists_tail {state : Nat} {byte : UInt8} (hInside : 2 ≤ state) (hState : state < 9)
    (h : decode state byte ≠ utf8Reject) : ∃ t < 64, byte = tail t := by
  rw [decode_inside hInside hState] at h
  have hType : ¬(byteType byte.toNat ≠ 1 ∧ byteType byte.toNat ≠ 9 ∧ byteType byte.toNat ≠ 7) :=
    fun hType => h (if_pos hType)
  have hRange : 0x80 ≤ byte.toNat ∧ byte.toNat < 0xC0 := by
    rcases Nat.lt_or_ge byte.toNat 0xC0 with hLow | hHigh
    · have hRange := byteType_low hLow
      omega
    · have hLead := byteType_lead hHigh
      omega
  refine ⟨byte.toNat - 0x80, by omega, ?_⟩
  rw [tail, Nat.mod_eq_of_lt (by omega), Nat.sub_add_cancel hRange.1, UInt8.ofNat_toNat]

/-- A character starts with an ASCII byte or with the first byte of two, three or four. -/
theorem lead_cases {byte : UInt8} (h : decode utf8Accept byte ≠ utf8Reject) :
    byte < 128 ∨ (∃ p, 2 ≤ p ∧ p < 32 ∧ byte = UInt8.ofNat (p + 0xC0)) ∨
      (∃ p < 16, byte = UInt8.ofNat (p + 0xE0)) ∨ ∃ p < 5, byte = UInt8.ofNat (p + 0xF0) := by
  have hAll : byte.toNat < 0x80 ∨ 0xC2 ≤ byte.toNat ∧ byte.toNat < 0xE0 ∨
      0xE0 ≤ byte.toNat ∧ byte.toNat < 0xF0 ∨ 0xF0 ≤ byte.toNat ∧ byte.toNat < 0xF5 := by
    by_contra hOutside
    have hType : byteType byte.toNat = 1 ∨ byteType byte.toNat = 9 ∨ byteType byte.toNat = 7 ∨
        byteType byte.toNat = 8 := by
      rcases Nat.lt_or_ge byte.toNat 0xC0 with hLow | hHigh
      · have hRange := byteType_low hLow
        omega
      · have hLead := byteType_lead hHigh
        omega
    rw [decode_accept] at h
    rcases hType with hType | hType | hType | hType <;> exact h (hType ▸ rfl)
  have hOf : ∀ {low : Nat}, low ≤ byte.toNat → byte = UInt8.ofNat (byte.toNat - low + low) := by
    intro low hLow
    rw [Nat.sub_add_cancel hLow, UInt8.ofNat_toNat]
  rcases hAll with h | h | h | h
  · exact .inl (UInt8.lt_iff_toNat_lt.mpr h)
  · exact .inr (.inl ⟨byte.toNat - 0xC0, by omega, by omega, hOf (by omega)⟩)
  · exact .inr (.inr (.inl ⟨byte.toNat - 0xE0, by omega, hOf (by omega)⟩))
  · exact .inr (.inr (.inr ⟨byte.toNat - 0xF0, by omega, hOf (by omega)⟩))

/-! ## Characters -/

theorem utf8EncodeChar_one {c : Char} (h : c.val.toNat < 0x80) :
    String.utf8EncodeChar c = [UInt8.ofNat c.val.toNat] := by
  rw [String.utf8EncodeChar]
  exact if_pos (Nat.le_of_lt_succ h)

theorem utf8EncodeChar_two {c : Char} (hLow : 0x80 ≤ c.val.toNat) (hHigh : c.val.toNat < 0x800) :
    String.utf8EncodeChar c =
      [UInt8.ofNat (c.val.toNat / 64 + 0xC0), tail (c.val.toNat)] := by
  have hLead : c.val.toNat / 64 % 0x20 = c.val.toNat / 64 := Nat.mod_eq_of_lt (by omega)
  rw [← hLead, String.utf8EncodeChar]
  exact (if_neg (by omega)).trans (if_pos (Nat.le_of_lt_succ hHigh))

theorem utf8EncodeChar_three {c : Char} (hLow : 0x800 ≤ c.val.toNat)
    (hHigh : c.val.toNat < 0x10000) :
    String.utf8EncodeChar c =
      [UInt8.ofNat (c.val.toNat / 4096 + 0xE0), tail (c.val.toNat / 64), tail c.val.toNat] := by
  have hLead : c.val.toNat / 4096 % 0x10 = c.val.toNat / 4096 := Nat.mod_eq_of_lt (by omega)
  rw [← hLead, String.utf8EncodeChar]
  exact (if_neg (by omega)).trans ((if_neg (by omega)).trans (if_pos (Nat.le_of_lt_succ hHigh)))

theorem utf8EncodeChar_four {c : Char} (hLow : 0x10000 ≤ c.val.toNat) :
    String.utf8EncodeChar c =
      [UInt8.ofNat (c.val.toNat / 262144 + 0xF0), tail (c.val.toNat / 4096),
        tail (c.val.toNat / 64), tail c.val.toNat] := by
  have hHigh : c.val.toNat < 0x110000 := by
    have hValid := c.valid
    rcases hValid with h | h <;> omega
  have hLead : c.val.toNat / 262144 % 0x8 = c.val.toNat / 262144 := Nat.mod_eq_of_lt (by omega)
  rw [← hLead, String.utf8EncodeChar]
  exact (if_neg (by omega)).trans ((if_neg (by omega)).trans (if_neg (by omega)))

theorem tail_mod (v : Nat) : tail (v % 64) = tail v := by rw [tail, tail, Nat.mod_mod]

theorem tail_eq (v : Nat) {t : Nat} (h : v % 64 = t) : tail v = tail t := by rw [← h, tail_mod]

/-- The automaton is back where it was behind every character. -/
theorem foldl_utf8EncodeChar (c : Char) :
    (String.utf8EncodeChar c).foldl decode utf8Accept = utf8Accept := by
  have hMod : ∀ v : Nat, v % 64 < 64 := fun v => Nat.mod_lt v (by decide)
  have hLast := fun v : Nat => decode_tail (hMod v)
  simp only [tail_mod] at hLast
  by_cases hOne : c.val.toNat < 0x80
  · have hByte : UInt8.ofNat c.val.toNat < 128 := by
      rw [UInt8.lt_iff_toNat_lt, UInt8.toNat_ofNat']
      exact Nat.lt_of_le_of_lt (Nat.mod_le _ _) hOne
    rw [utf8EncodeChar_one hOne, List.foldl_cons, decode_ascii hByte]
    rfl
  by_cases hTwo : c.val.toNat < 0x800
  · rw [utf8EncodeChar_two (Nat.le_of_not_lt hOne) hTwo, List.foldl_cons,
      decode_lead_two (by omega) (by omega), List.foldl_cons, (hLast _).2, List.foldl_nil]
  by_cases hThree : c.val.toNat < 0x10000
  · have hBits : 64 * (c.val.toNat / 4096) + c.val.toNat / 64 % 64 = c.val.toNat / 64 := by omega
    have hScalar := c.valid
    have hMiddle := decode_owing_two (p := c.val.toNat / 4096) (by omega) (hMod (c.val.toNat / 64))
    rw [hBits, tail_mod, if_pos (by rcases hScalar with h | h <;> omega)] at hMiddle
    rw [utf8EncodeChar_three (Nat.le_of_not_lt hTwo) hThree, List.foldl_cons,
      decode_lead_three (by omega), List.foldl_cons, hMiddle, List.foldl_cons, (hLast _).2,
      List.foldl_nil]
  · have hBits : 64 * (c.val.toNat / 262144) + c.val.toNat / 4096 % 64 = c.val.toNat / 4096 := by
      omega
    have hScalar : c.val.toNat < 0x110000 := by rcases c.valid with h | h <;> omega
    have hSecond := decode_owing_three (p := c.val.toNat / 262144) (by omega)
      (hMod (c.val.toNat / 4096))
    rw [hBits, tail_mod, if_pos (by omega)] at hSecond
    rw [utf8EncodeChar_four (Nat.le_of_not_lt hThree), List.foldl_cons, decode_lead_four (by omega),
      List.foldl_cons, hSecond, List.foldl_cons, (hLast _).1, List.foldl_cons, (hLast _).2,
      List.foldl_nil]

theorem foldl_flatMap_utf8EncodeChar (text : List Char) :
    (text.flatMap String.utf8EncodeChar).foldl decode utf8Accept = utf8Accept := by
  induction text with
  | nil => rfl
  | cons c text ih => rw [List.flatMap_cons, List.foldl_append, foldl_utf8EncodeChar, ih]

/-! ## The characters of an accepted text -/

theorem not_reject_of_foldl {state : Nat} {s : Bytes} (h : s.foldl decode state = utf8Accept) :
    state ≠ utf8Reject := by
  rintro rfl
  rw [foldl_reject] at h
  cases h

/-- Inside a character there is another byte, and it continues the character. -/
theorem next_tail {state : Nat} {s : Bytes} (hInside : 2 ≤ state) (hState : state < 9)
    (h : s.foldl decode state = utf8Accept) :
    ∃ t < 64, ∃ rest, s = tail t :: rest ∧ rest.foldl decode (decode state (tail t)) = utf8Accept ∧
      decode state (tail t) ≠ utf8Reject := by
  cases s with
  | nil =>
    rw [List.foldl_nil] at h
    rw [h] at hInside
    cases hInside
  | cons byte rest =>
    rw [List.foldl_cons] at h
    have hGoes := not_reject_of_foldl h
    obtain ⟨t, ht, rfl⟩ := exists_tail hInside hState hGoes
    exact ⟨t, ht, rest, rfl, h, hGoes⟩

theorem owing_range (k p : Nat) : 2 ≤ owing (k + 1) p ∧ owing (k + 1) p < 9 := by
  rcases k with _ | _ | k
  · rw [owing]
    decide
  · rw [owing]
    split_ifs <;> decide
  · rw [owing]
    · split_ifs <;> decide
    all_goals omega

theorem exists_char {v : Nat} (h : v < 0xD800 ∨ 0xDFFF < v ∧ v < 0x110000) :
    ∃ c : Char, c.val.toNat = v := by
  have hSize : v < UInt32.size := by
    have hValue : UInt32.size = 4294967296 := rfl
    omega
  exact ⟨⟨UInt32.ofNatLT v hSize, by rw [UInt32.isValidChar, UInt32.toNat_ofNatLT]; exact h⟩,
    UInt32.toNat_ofNatLT ..⟩

theorem exists_first {s : Bytes} (hText : s ≠ []) (h : s.foldl decode utf8Accept = utf8Accept) :
    ∃ c rest, s = String.utf8EncodeChar c ++ rest ∧ rest.foldl decode utf8Accept = utf8Accept := by
  obtain ⟨byte, s, rfl⟩ := List.exists_cons_of_ne_nil hText
  rw [List.foldl_cons] at h
  rcases lead_cases (not_reject_of_foldl h) with
    hAscii | ⟨p, hLow, hHigh, rfl⟩ | ⟨p, hHigh, rfl⟩ | ⟨p, hHigh, rfl⟩
  · rw [decode_ascii hAscii, if_pos rfl] at h
    have hValue : byte.toNat < 0x80 := UInt8.lt_iff_toNat_lt.mp hAscii
    obtain ⟨c, hc⟩ := exists_char (v := byte.toNat) (by omega)
    refine ⟨c, s, ?_, h⟩
    rw [utf8EncodeChar_one (by omega), hc, UInt8.ofNat_toNat]
    rfl
  · rw [decode_lead_two hLow hHigh] at h
    obtain ⟨t, ht, rest, rfl, hRest, -⟩ := next_tail (by decide) (by decide) h
    rw [(decode_tail ht).2] at hRest
    obtain ⟨c, hc⟩ := exists_char (v := 64 * p + t) (by omega)
    refine ⟨c, rest, ?_, hRest⟩
    rw [utf8EncodeChar_two (by omega) (by omega), hc, tail_eq (64 * p + t) (t := t) (by omega),
      show (64 * p + t) / 64 = p by omega]
    rfl
  · rw [decode_lead_three hHigh] at h
    obtain ⟨t, ht, rest, rfl, hRest, hGoes⟩ := next_tail (owing_range 1 p).1 (owing_range 1 p).2 h
    rw [decode_owing_two hHigh ht, ite_ne_right_iff] at hGoes
    obtain ⟨hBits, -⟩ := hGoes
    rw [decode_owing_two hHigh ht, if_pos hBits] at hRest
    obtain ⟨u, hu, rest, rfl, hRest, -⟩ := next_tail (by decide) (by decide) hRest
    rw [(decode_tail hu).2] at hRest
    obtain ⟨c, hc⟩ := exists_char (v := 64 * (64 * p + t) + u) (by omega)
    refine ⟨c, rest, ?_, hRest⟩
    rw [utf8EncodeChar_three (by omega) (by omega), hc,
      tail_eq (64 * (64 * p + t) + u) (t := u) (by omega),
      tail_eq ((64 * (64 * p + t) + u) / 64) (t := t) (by omega),
      show (64 * (64 * p + t) + u) / 4096 = p by omega]
    rfl
  · rw [decode_lead_four hHigh] at h
    obtain ⟨t, ht, rest, rfl, hRest, hGoes⟩ := next_tail (owing_range 2 p).1 (owing_range 2 p).2 h
    rw [decode_owing_three hHigh ht, ite_ne_right_iff] at hGoes
    obtain ⟨hBits, -⟩ := hGoes
    rw [decode_owing_three hHigh ht, if_pos hBits] at hRest
    obtain ⟨u, hu, rest, rfl, hRest, -⟩ := next_tail (by decide) (by decide) hRest
    rw [(decode_tail hu).1] at hRest
    obtain ⟨w, hw, rest, rfl, hRest, -⟩ := next_tail (by decide) (by decide) hRest
    rw [(decode_tail hw).2] at hRest
    obtain ⟨c, hc⟩ := exists_char (v := 64 * (64 * (64 * p + t) + u) + w) (by omega)
    refine ⟨c, rest, ?_, hRest⟩
    rw [utf8EncodeChar_four (by omega), hc,
      tail_eq (64 * (64 * (64 * p + t) + u) + w) (t := w) (by omega),
      tail_eq ((64 * (64 * (64 * p + t) + u) + w) / 64) (t := u) (by omega),
      tail_eq ((64 * (64 * (64 * p + t) + u) + w) / 4096) (t := t) (by omega),
      show (64 * (64 * (64 * p + t) + u) + w) / 262144 = p by omega]
    rfl

theorem exists_characters {s : Bytes} (h : s.foldl decode utf8Accept = utf8Accept) :
    ∃ text : List Char, s = text.flatMap String.utf8EncodeChar := by
  induction hLength : s.length using Nat.strongRecOn generalizing s with
  | ind n ih =>
    by_cases hText : s = []
    · exact ⟨[], hText⟩
    obtain ⟨c, rest, rfl, hRest⟩ := exists_first hText h
    have hChar : 0 < (String.utf8EncodeChar c).length := by
      rw [String.length_utf8EncodeChar]
      exact c.utf8Size_pos
    obtain ⟨text, rfl⟩ := ih rest.length
      (by rw [← hLength, List.length_append]; omega) hRest rfl
    exact ⟨c :: text, rfl⟩

theorem foldl_accept_iff (s : Bytes) : s.foldl decode utf8Accept = utf8Accept ↔
    ∃ text : List Char, s = text.flatMap String.utf8EncodeChar := by
  constructor
  · exact exists_characters
  · rintro ⟨text, rfl⟩
    exact foldl_flatMap_utf8EncodeChar text

/-- The table accepts UTF-8, all of it and nothing else. -/
theorem validate_iff (s : Bytes) :
    validate s = true ↔ ∃ text : List Char, s = text.flatMap String.utf8EncodeChar := by
  rw [validate, validateFrom_eq, beq_iff_eq, foldl_accept_iff]

/-! ## Text in pieces -/

/-- `validator::decode` over a piece: the state behind it, or `none` where a byte is rejected. -/
def advance : Nat → Bytes → Option Nat
  | state, [] => some state
  | state, byte :: rest =>
    let result := decode state byte
    if result = utf8Reject then none else advance result rest

theorem advance_eq (state : Nat) (hState : state ≠ utf8Reject) (s : Bytes) :
    advance state s =
      if s.foldl decode state = utf8Reject then none else some (s.foldl decode state) := by
  induction s generalizing state with
  | nil => rw [advance, List.foldl_nil, if_neg hState]
  | cons byte rest ih =>
    rw [advance, List.foldl_cons]
    split_ifs with hByte hRest hRest
    · rfl
    · rw [hByte, foldl_reject] at hRest
      exact absurd rfl hRest
    · rw [ih _ hByte, if_pos hRest]
    · rw [ih _ hByte, if_neg hRest]

theorem advance_append (state : Nat) (s t : Bytes) :
    advance state (s ++ t) = (advance state s).bind fun state => advance state t := by
  induction s generalizing state with
  | nil => rfl
  | cons byte rest ih =>
    rw [List.cons_append, advance, advance]
    split_ifs
    · rfl
    · exact ih _

theorem validate_eq_advance (s : Bytes) :
    validate s = true ↔ advance utf8Accept s = some utf8Accept := by
  rw [validate, validateFrom_eq, advance_eq _ (by decide), beq_iff_eq]
  constructor
  · intro h
    rw [h]
    rfl
  · intro h
    split_ifs at h with hReject
    exact Option.some.inj h

theorem decode_lt (state : Nat) (byte : UInt8) : decode state byte < 9 := by
  have hAll : ∀ x ∈ utf8d.drop 256, x < 9 := by decide +kernel
  rw [decode, Nat.add_assoc, List.getD_eq_getElem?_getD, ← List.getElem?_drop]
  cases hEntry : (utf8d.drop 256)[state * 16 + utf8d.getD byte.toNat utf8Reject]? with
  | none => decide
  | some x => exact hAll x (List.mem_of_getElem? hEntry)

theorem foldl_lt {state : Nat} (hState : state < 9) (s : Bytes) : s.foldl decode state < 9 := by
  induction s generalizing state with
  | nil => exact hState
  | cons byte s ih => exact ih (decode_lt state byte)

/-- Every state but the rejection can come to an end. -/
theorem exists_completion {state : Nat} (hState : state < 9) (hAlive : state ≠ utf8Reject) :
    ∃ rest : Bytes, rest.foldl decode state = utf8Accept := by
  have hAll : ∀ state < 9, state ≠ utf8Reject →
      ∃ rest ∈ [[], [0x80], [0x80, 0x80], [0xA0, 0x80], [0x80, 0x80, 0x80], [0x90, 0x80, 0x80]],
        rest.foldl decode state = utf8Accept := by
    decide +kernel
  obtain ⟨rest, -, hRest⟩ := hAll state hState hAlive
  exact ⟨rest, hRest⟩

/-- A piece is not rejected as long as it can be completed. -/
theorem advance_ne_none_iff (s : Bytes) : advance utf8Accept s ≠ none ↔
    ∃ rest : Bytes, ∃ text : List Char, s ++ rest = text.flatMap String.utf8EncodeChar := by
  rw [advance_eq _ (by decide)]
  constructor
  · intro h
    have hAlive : s.foldl decode utf8Accept ≠ utf8Reject := fun hReject => h (if_pos hReject)
    obtain ⟨rest, hRest⟩ := exists_completion (foldl_lt (by decide) s) hAlive
    refine ⟨rest, (foldl_accept_iff _).mp ?_⟩
    rw [List.foldl_append, hRest]
  · rintro ⟨rest, hText⟩ hNone
    have hWhole := (foldl_accept_iff _).mpr hText
    rw [List.foldl_append] at hWhole
    split_ifs at hNone with hReject
    rw [hReject, foldl_reject] at hWhole
    cases hWhole

end ScRedirection.Utf8Validator
