import FragmentGrammar.Label

/-! # Moves

    A move leads from one state to another under a label.  Moves compare field by
    field, with labels compared by the equality of their algebra. -/

namespace FragmentGrammar

/-- A move of an automaton.  States are known by their numbers. -/
structure Move (L : Type) where
  source : Nat
  target : Nat
  label : L

namespace Move

variable {L : Type}

instance [BEq L] : BEq (Move L) where
  beq m n := m.source == n.source && m.target == n.target && m.label == n.label

theorem beq_iff [BEq L] {m n : Move L} :
    (m == n) = true ↔ m.source = n.source ∧ m.target = n.target ∧ (m.label == n.label) = true := by
  show (m.source == n.source && m.target == n.target && m.label == n.label) = true ↔ _
  simp [and_assoc]

instance [BEq L] [EquivBEq L] : EquivBEq (Move L) where
  rfl := beq_iff.mpr ⟨rfl, rfl, BEq.rfl⟩
  symm h :=
    have ⟨hs, ht, hl⟩ := beq_iff.mp h
    beq_iff.mpr ⟨hs.symm, ht.symm, BEq.symm hl⟩
  trans h₁ h₂ :=
    have ⟨hs₁, ht₁, hl₁⟩ := beq_iff.mp h₁
    have ⟨hs₂, ht₂, hl₂⟩ := beq_iff.mp h₂
    beq_iff.mpr ⟨hs₁.trans hs₂, ht₁.trans ht₂, BEq.trans hl₁ hl₂⟩

/-- The move returns to the state that it leaves. -/
def isLoop (m : Move L) : Bool :=
  m.source = m.target

variable [Label L]

/-- A move that reads nothing. -/
def epsilon (source target : Nat) : Move L :=
  ⟨source, target, Label.epsilon⟩

/-- The move reads nothing. -/
def isEpsilon (m : Move L) : Bool :=
  Label.isEpsilon m.label

/-- A move as it is shown: the label stands between the states, unless nothing is
    read. -/
def text (m : Move L) : String :=
  if m.isEpsilon then "(" ++ m.source.repr ++ "," ++ m.target.repr ++ ")"
  else "(" ++ m.source.repr ++ "," ++ Literal.text m.label ++ "," ++ m.target.repr ++ ")"

end Move

end FragmentGrammar
