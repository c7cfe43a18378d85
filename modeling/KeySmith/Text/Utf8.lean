import KeySmith.Bytes

/-!
# Text and its octets

Text is stored in files and key containers in UTF-8. Reading fails on octets that are not UTF-8;
writing and reading back gives the same text.
-/

namespace KeySmith.Text

/-- The UTF-8 form of a text. -/
def toBytes (s : String) : Bytes :=
  s.toUTF8.data.toList

/-- The text whose UTF-8 form is `bs`, if there is one. -/
def ofBytes? (bs : Bytes) : Option String :=
  String.fromUTF8? ⟨bs.toArray⟩

@[simp] theorem ofBytes?_toBytes (s : String) : ofBytes? (toBytes s) = some s := by
  have h : s.toByteArray.IsValidUTF8 := s.isValidUTF8
  simp [ofBytes?, toBytes, String.fromUTF8?, String.fromUTF8, h]

end KeySmith.Text
