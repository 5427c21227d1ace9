import ScRedirection.Basic

/-! # utf8_validator.hpp

The table-driven validator every outgoing text frame goes through. The code point it also
computes is read by nobody here and is left out.
-/

namespace ScRedirection.Utf8Validator

def utf8Accept : Nat := 0

def utf8Reject : Nat := 1

def utf8d : List Nat :=
  List.replicate 128 0 ++ List.replicate 16 1 ++ List.replicate 16 9 ++ List.replicate 32 7 ++
  [8, 8] ++ List.replicate 30 2 ++
  [0xa, 0x3, 0x3, 0x3, 0x3, 0x3, 0x3, 0x3, 0x3, 0x3, 0x3, 0x3, 0x3, 0x4, 0x3, 0x3] ++
  [0xb, 0x6, 0x6, 0x6, 0x5, 0x8, 0x8, 0x8, 0x8, 0x8, 0x8, 0x8, 0x8, 0x8, 0x8, 0x8] ++
  [0x0, 0x1, 0x2, 0x3, 0x5, 0x8, 0x7, 0x1, 0x1, 0x1, 0x4, 0x6, 0x1, 0x1, 0x1, 0x1] ++
  [1, 1, 1, 1, 1, 1, 1, 1, 1, 1, 1, 1, 1, 1, 1, 1, 1, 0, 1, 1, 1, 1, 1, 0, 1, 0, 1, 1, 1, 1, 1, 1] ++
  [1, 2, 1, 1, 1, 1, 1, 2, 1, 2, 1, 1, 1, 1, 1, 1, 1, 1, 1, 1, 1, 1, 1, 2, 1, 1, 1, 1, 1, 1, 1, 1] ++
  [1, 2, 1, 1, 1, 1, 1, 1, 1, 2, 1, 1, 1, 1, 1, 1, 1, 1, 1, 1, 1, 1, 1, 3, 1, 3, 1, 1, 1, 1, 1, 1] ++
  [1, 3, 1, 1, 1, 1, 1, 3, 1, 3, 1, 1, 1, 1, 1, 1, 1, 3, 1, 1, 1, 1, 1, 1, 1, 1, 1, 1, 1, 1, 1, 1]

def decode (state : Nat) (byte : UInt8) : Nat :=
  let type := utf8d.getD byte.toNat utf8Reject
  utf8d.getD (256 + state * 16 + type) utf8Reject

/-- `validator::decode` over the text, then `complete`. -/
def validateFrom : Nat → Bytes → Bool
  | state, [] => state == utf8Accept
  | state, byte :: rest =>
    let result := decode state byte
    if result = utf8Reject then false else validateFrom result rest

def validate (s : Bytes) : Bool := validateFrom utf8Accept s

theorem utf8d_ascii : ∀ n < 128, utf8d.getD n utf8Reject = 0 := by decide +kernel

theorem decode_reject (byte : UInt8) : decode utf8Reject byte = utf8Reject := by
  have hAll : ∀ n < 256,
      utf8d.getD (256 + 16 + utf8d.getD n utf8Reject) utf8Reject = utf8Reject := by
    decide +kernel
  exact hAll byte.toNat byte.toNat_lt

theorem decode_ascii {byte : UInt8} (h : byte < 128) (state : Nat) :
    decode state byte = if state = utf8Accept then utf8Accept else utf8Reject := by
  have hStates : ∀ n < 9, utf8d.getD (256 + n * 16) utf8Reject =
      if n = utf8Accept then utf8Accept else utf8Reject := by
    decide +kernel
  rw [decode, utf8d_ascii _ (UInt8.lt_iff_toNat_lt.mp h)]
  rcases Nat.lt_or_ge state 9 with hState | hState
  · exact hStates state hState
  · have hLength : utf8d.length = 400 := by decide +kernel
    rw [if_neg (by rw [utf8Accept]; omega), List.getD_eq_getElem?_getD,
      List.getElem?_eq_none (by omega), Option.getD_none]

theorem foldl_reject (s : Bytes) : s.foldl decode utf8Reject = utf8Reject := by
  induction s with
  | nil => rfl
  | cons byte s ih => rw [List.foldl_cons, decode_reject, ih]

/-- Stopping at the first rejection is the same as reading on. -/
theorem validateFrom_eq (state : Nat) (s : Bytes) :
    validateFrom state s = (s.foldl decode state == utf8Accept) := by
  induction s generalizing state with
  | nil => rfl
  | cons byte s ih =>
    rw [validateFrom, List.foldl_cons]
    by_cases h : decode state byte = utf8Reject
    · rw [h, foldl_reject]
      rfl
    · simp only [h, if_false, ih]

theorem foldl_ascii {s : Bytes} (h : ∀ c ∈ s, c < 128) (state : Nat) :
    s.foldl decode state =
      if s = [] then state else if state = utf8Accept then utf8Accept else utf8Reject := by
  induction s generalizing state with
  | nil => rfl
  | cons byte s ih =>
    rw [List.foldl_cons, decode_ascii (h byte (by simp)), ih fun c hc => h c (by simp [hc])]
    by_cases hState : state = utf8Accept
    · simp [hState]
    · have hReject : utf8Reject ≠ utf8Accept := by decide
      simp [hState, hReject]

theorem validate_ascii {s : Bytes} (h : ∀ c ∈ s, c < 128) : validate s = true := by
  rw [validate, validateFrom_eq, foldl_ascii h]
  split <;> rfl

end ScRedirection.Utf8Validator
