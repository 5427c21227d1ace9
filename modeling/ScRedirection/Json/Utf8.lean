import ScRedirection.Json.RoundTrip
import ScRedirection.Websocketpp.Utf8

/-! # The UTF-8 of a written value

The text of a value is UTF-8 exactly when its strings and the names of its members are, at any
depth: what is printed around them is ASCII, and a string that ends inside a character is stopped by
its closing quote.
-/

namespace ScRedirection.Json

open Utf8Validator

variable {D : Type}

mutual
def Value.utf8 : Value D → Bool
  | .string s => validate s
  | .array elements => elementsUtf8 elements
  | .object members => membersUtf8 members
  | .null | .int _ | .uint _ | .real _ | .boolean _ => true

def elementsUtf8 : List (Value D) → Bool
  | [] => true
  | x :: xs => x.utf8 && elementsUtf8 xs

def membersUtf8 : Members D → Bool
  | [] => true
  | (name, x) :: ms => validate name && x.utf8 && membersUtf8 ms
end

/-- Behind a text that was accepted or rejected, an ASCII character changes nothing. -/
theorem decode_verdict (valid : Bool) {c : UInt8} (hc : c < 128) :
    decode (verdict valid) c = verdict valid := by
  cases valid with
  | true => exact decode_ascii hc _
  | false => exact decode_reject c

theorem foldl_verdict {valid valid' : Bool} {s : Bytes}
    (h : s.foldl decode utf8Accept = verdict valid') :
    s.foldl decode (verdict valid) = verdict (valid && valid') := by
  cases valid with
  | true => exact h
  | false => exact foldl_reject s

variable (doubles : Doubles D)

theorem foldl_writeMember_utf8 {name : Bytes} {x : Value D}
    (hx : (writeValue doubles x).foldl decode utf8Accept = verdict x.utf8) :
    (writeMember doubles (name, x)).foldl decode utf8Accept =
      verdict (validate name && x.utf8) := by
  rw [writeMember, List.foldl_append, foldl_valueToQuotedStringN, ← verdict, List.foldl_cons,
    decode_verdict _ (by decide), foldl_verdict hx]

mutual
theorem foldl_writeValue_utf8 :
    ∀ x : Value D, (writeValue doubles x).foldl decode utf8Accept = verdict x.utf8
  | .array elements => by
    rw [writeValue, List.foldl_cons, decode_ascii (by decide), if_pos rfl, List.foldl_append,
      foldl_writeElements_utf8 elements, List.foldl_cons, decode_verdict _ (by decide), Value.utf8]
    rfl
  | .object members => by
    rw [writeValue, List.foldl_cons, decode_ascii (by decide), if_pos rfl, List.foldl_append,
      foldl_writeMembers_utf8 members, List.foldl_cons, decode_verdict _ (by decide), Value.utf8]
    rfl
  | .null | .int _ | .uint _ | .real _ | .string _ | .boolean _ => by
    rw [foldl_writeValue doubles rfl]
    rfl

theorem foldl_writeElements_utf8 : ∀ xs : List (Value D),
    (writeElements doubles xs).foldl decode utf8Accept = verdict (elementsUtf8 xs)
  | [] => rfl
  | [x] => by
    rw [writeElements, foldl_writeValue_utf8 x, elementsUtf8, elementsUtf8, Bool.and_true]
  | x :: y :: ys => by
    rw [writeElements_cons, List.foldl_append, foldl_writeValue_utf8 x, List.foldl_cons,
      decode_verdict _ (by decide), foldl_verdict (foldl_writeElements_utf8 (y :: ys))]
    rfl

theorem foldl_writeMembers_utf8 : ∀ ms : Members D,
    (writeMembers doubles ms).foldl decode utf8Accept = verdict (membersUtf8 ms)
  | [] => rfl
  | [(name, x)] => by
    rw [writeMembers, foldl_writeMember_utf8 doubles (foldl_writeValue_utf8 x), membersUtf8,
      membersUtf8, Bool.and_true]
  | (name, x) :: m :: ms => by
    rw [writeMembers_cons, List.foldl_append,
      foldl_writeMember_utf8 doubles (foldl_writeValue_utf8 x), List.foldl_cons,
      decode_verdict _ (by decide), foldl_verdict (foldl_writeMembers_utf8 (m :: ms))]
    rfl
end

theorem validate_writeValue (x : Value D) : validate (writeValue doubles x) = x.utf8 := by
  rw [validate, validateFrom_eq, foldl_writeValue_utf8]
  cases x.utf8 <;> rfl

end ScRedirection.Json
