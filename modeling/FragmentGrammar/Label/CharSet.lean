import FragmentGrammar.Ascending
import FragmentGrammar.Label

/-! # Sets of characters as labels

    A move labelled with a set of characters reads any one of them.  Two such labels
    are equal when they have the same members. -/

namespace FragmentGrammar

/-- A set of characters. -/
abbrev CharSet := Ascending Char

instance : Literal CharSet where
  text set :=
    "Class(\x7b" ++ String.intercalate ", " (set.toList.map Literal.text) ++ "\x7d)"

end FragmentGrammar
