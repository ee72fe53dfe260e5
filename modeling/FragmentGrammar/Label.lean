import FragmentGrammar.Text.Literal

/-! # Label algebras

    Moves carry labels from an algebra of the caller's choice.  The library never looks
    inside a label: all that it uses is when two labels are equal, which label marks a
    move that reads nothing, and how a label is written.  Equal labels need not be
    identical, so lawful equality here means an equivalence and no more. -/

namespace FragmentGrammar

/-- An algebra of labels: an equality, a written form, and a marker for moves that read
    nothing. -/
class Label (L : Type) extends BEq L, Literal L where
  /-- The label of a move that reads nothing. -/
  epsilon : L
  /-- The label marks a move that reads nothing. -/
  isEpsilon : L → Bool := fun l => l == epsilon

/-- An algebra whose equality is an equivalence and whose epsilon test is equality with
    the marker. -/
class LawfulLabel (L : Type) [Label L] : Prop extends EquivBEq L where
  /-- The epsilon test finds the labels equal to the marker. -/
  isEpsilon_iff {l : L} : Label.isEpsilon l = true ↔ (l == Label.epsilon) = true

/-- Optional values are labels, with the absent one as marker. -/
instance {α : Type} [BEq α] [Literal α] : Label (Option α) where
  epsilon := none
  isEpsilon := Option.isNone

instance {α : Type} [BEq α] [Literal α] [EquivBEq α] : LawfulLabel (Option α) where
  rfl {a} := by cases a <;> simp
  symm {a b} h := by
    cases a <;> cases b <;> simp_all
    exact PartialEquivBEq.symm h
  trans {a b c} h₁ h₂ := by
    cases a <;> cases b <;> cases c <;> simp_all
    exact PartialEquivBEq.trans h₁ h₂
  isEpsilon_iff {l} := by cases l <;> simp [Label.isEpsilon, Label.epsilon]

section Lawful

variable {L : Type} [Label L] [LawfulLabel L]

/-- Equal labels are epsilon together. -/
theorem isEpsilon_congr {l m : L} (h : (l == m) = true) :
    Label.isEpsilon l = Label.isEpsilon m := by
  rw [Bool.eq_iff_iff, LawfulLabel.isEpsilon_iff, LawfulLabel.isEpsilon_iff]
  exact ⟨PartialEquivBEq.trans (PartialEquivBEq.symm h), PartialEquivBEq.trans h⟩

end Lawful

end FragmentGrammar
