import FragmentGrammar.Text.Quoted

/-! # Written literals

    A label has a written form, which stands for it in the text of a move and in
    grammars that were made from automata.  Characters and strings are quoted, numbers
    are decimal, and an optional value says whether it is there. -/

namespace FragmentGrammar

/-- Values with a written form. -/
class Literal (α : Type) where
  /-- The written form of a value. -/
  text : α → String

instance : Literal Char where
  text := quotedChar

instance : Literal String where
  text := quotedString

instance : Literal Int where
  text := Int.repr

instance {α : Type} [Literal α] : Literal (Option α) where
  text
    | none => "None"
    | some a => "Some(" ++ Literal.text a ++ ")"

end FragmentGrammar
