import FragmentGrammar.Text.CodeRange

/-! # Blank characters

    Grammar text is cut into words at its blanks, the characters that Unicode calls
    white space.  There are twenty-five of them, and the six that ASCII knows come
    first. -/

namespace FragmentGrammar

/-- The code points of the white space characters, in ascending order. -/
def blankRanges : List CodeRange :=
  [⟨0x9, 0xD⟩, ⟨0x20, 0x20⟩, ⟨0x85, 0x85⟩, ⟨0xA0, 0xA0⟩, ⟨0x1680, 0x1680⟩, ⟨0x2000, 0x200A⟩,
   ⟨0x2028, 0x2029⟩, ⟨0x202F, 0x202F⟩, ⟨0x205F, 0x205F⟩, ⟨0x3000, 0x3000⟩]

/-- A character is blank when it is white space. -/
def isBlank (c : Char) : Bool :=
  inRanges blankRanges c

end FragmentGrammar
