/-! Texts as bytes. A text is written in UTF-8, and bytes read back only if they are well-formed. -/

namespace LogTemplate.Text

def bytes (s : String) : List UInt8 := s.toUTF8.data.toList

def ofBytes? (bs : List UInt8) : Option String := String.fromUTF8? ⟨bs.toArray⟩

theorem ofBytes?_bytes (s : String) : ofBytes? (bytes s) = some s := by
  simp only [ofBytes?, bytes, Array.toArray_toList]
  exact dif_pos s.isValidUTF8

end LogTemplate.Text
