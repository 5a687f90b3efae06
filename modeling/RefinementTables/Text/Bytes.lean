/-!
Text as bytes. A file holds bytes; a field or a configuration is text only when
its bytes are valid UTF-8. Encoding and decoding are the core ones, so that
decoding what was encoded gives the text back.
-/

namespace RefinementTables

/-- The contents of a file. -/
abbrev Bytes := List UInt8

namespace Text

/-- The UTF-8 bytes of a text. -/
def toBytes (s : String) : Bytes :=
  s.toUTF8.data.toList

/-- The text whose UTF-8 bytes these are, if they are valid. -/
def ofBytes? (bytes : Bytes) : Option String :=
  String.fromUTF8? ⟨bytes.toArray⟩

/-- Decoding inverts encoding. -/
theorem ofBytes?_toBytes (s : String) : ofBytes? (toBytes s) = some s := by
  simp only [ofBytes?, toBytes, String.fromUTF8?, String.toUTF8_eq_toByteArray,
    dif_pos s.isValidUTF8]
  rfl

/-- The length of the longest prefix, of at most `n` bytes, that is valid. -/
def validPrefixUpTo (bytes : Bytes) : Nat → Nat
  | 0 => 0
  | n + 1 =>
    if (ofBytes? (bytes.take (n + 1))).isSome then n + 1 else validPrefixUpTo bytes n

/-- The length of the longest valid prefix of some bytes. -/
def validPrefix (bytes : Bytes) : Nat :=
  validPrefixUpTo bytes bytes.length

end Text

end RefinementTables
