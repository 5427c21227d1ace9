import Mathlib.Data.List.Basic

/-! # Byte strings

A `std::string` is a list of bytes; a C++ character literal is its code.
-/

namespace ScRedirection

abbrev Bytes := List UInt8

/-- The bytes of an ASCII string literal of the source. -/
def bytes (s : String) : Bytes := s.toList.map Char.toUInt8

end ScRedirection
