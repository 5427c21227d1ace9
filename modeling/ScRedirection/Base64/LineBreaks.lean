import ScRedirection.WebsocketServer

/-! # Base64 in lines

`base64_encode_pem` and `base64_encode_mime` break the text into lines, and `decode` takes the
breaks out again where `remove_linebreaks` is set.
-/

namespace ScRedirection.Base64

open WebsocketServer (find find_field find_last)

def lineBreak : UInt8 := 10

/-- `while (pos < str.size())`, with a bound on the number of turns. -/
def insertLoop (distance : Nat) : Nat → Nat → Bytes → Except Fault Bytes
  | 0, pos, str => if pos < str.length then .error .outOfFuel else .ok str
  | fuel + 1, pos, str =>
    if pos < str.length then
      insertLoop distance fuel (pos + (distance + 1)) (str.take pos ++ lineBreak :: str.drop pos)
    else .ok str

def insertLinebreaks (str : Bytes) (distance : Nat) : Except Fault Bytes :=
  if str.length = 0 then .ok [] else insertLoop distance str.length distance str

def encodeWithLineBreaks (lineLength : Nat) (s : Bytes) : Except Fault Bytes :=
  insertLinebreaks (base64Encode false s) lineLength

def base64EncodeMime (s : Bytes) : Except Fault Bytes := encodeWithLineBreaks 76 s

/-- A text cut into lines of one length, but the last, which may be shorter. -/
structure Lines (lineLength : Nat) (text : Bytes) (lines : List Bytes) : Prop where
  joined : lines.flatten = text
  full : ∀ line ∈ lines.dropLast, line.length = lineLength
  short : ∀ line ∈ lines, line ≠ [] ∧ line.length ≤ lineLength

theorem Lines.cons {lineLength : Nat} {line text : Bytes} {lines : List Bytes}
    (hLine : line.length = lineLength) (hPos : 0 < lineLength) (hText : text ≠ [])
    (h : Lines lineLength text lines) : Lines lineLength (line ++ text) (line :: lines) := by
  have hLines : lines ≠ [] := by
    rintro rfl
    exact hText h.joined.symm
  refine ⟨by rw [List.flatten_cons, h.joined], ?_, ?_⟩
  · rw [List.dropLast_cons_of_ne_nil hLines]
    exact List.forall_mem_cons.mpr ⟨hLine, h.full⟩
  · refine List.forall_mem_cons.mpr ⟨⟨?_, Nat.le_of_eq hLine⟩, h.short⟩
    rintro rfl
    exact Nat.ne_of_lt hPos hLine

end ScRedirection.Base64
