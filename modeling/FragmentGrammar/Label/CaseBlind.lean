import FragmentGrammar.Label

/-! # Labels that ignore case

    Two labels are equal when they differ at most in the case of their ASCII letters,
    so equal labels may be written differently, and every spelling of `eps` marks a move
    that reads nothing.  Letters outside ASCII are only equal to themselves. -/

namespace FragmentGrammar

/-- A text that is compared without regard to the case of ASCII letters. -/
structure CaseBlind where
  spelling : String

/-- The characters of the text in lower case. -/
def CaseBlind.folded (l : CaseBlind) : List Char :=
  l.spelling.toList.map Char.toLower

instance : Label CaseBlind where
  beq l m := l.folded == m.folded
  text l := "Ci(" ++ quotedString l.spelling ++ ")"
  epsilon := ⟨"eps"⟩

theorem CaseBlind.beq_iff {l m : CaseBlind} : (l == m) = true ↔ l.folded = m.folded := by
  show (l.folded == m.folded) = true ↔ _
  simp

instance : LawfulLabel CaseBlind where
  rfl := CaseBlind.beq_iff.mpr rfl
  symm h := CaseBlind.beq_iff.mpr (CaseBlind.beq_iff.mp h).symm
  trans h₁ h₂ := CaseBlind.beq_iff.mpr ((CaseBlind.beq_iff.mp h₁).trans (CaseBlind.beq_iff.mp h₂))
  isEpsilon_iff := Iff.rfl

end FragmentGrammar
