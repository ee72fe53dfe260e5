import FragmentGrammar.Label

/-! # Kinds of characters as labels

    A small closed algebra: digits, letters, and a marker of its own for moves that
    read nothing. -/

namespace FragmentGrammar

/-- A kind of character. -/
inductive CharKind where
  | digit
  | letter
  | silent
  deriving DecidableEq

instance : Label CharKind where
  text
    | .digit => "Digit"
    | .letter => "Alpha"
    | .silent => "Eps"
  epsilon := .silent

instance : LawfulLabel CharKind where
  isEpsilon_iff := Iff.rfl

end FragmentGrammar
