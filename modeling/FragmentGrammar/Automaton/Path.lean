import FragmentGrammar.Automaton

/-! # Paths and languages

    A path through the moves spells the labels that it reads; moves that read nothing
    leave no letter.  The words of an automaton are those spelled on the way from its
    initial state to a final one. -/

namespace FragmentGrammar

variable {A L : Type} [Label L]

/-- `Path moves p w q`: the moves lead from `p` to `q`, reading the labels `w`. -/
inductive Path (moves : List (Move L)) : Nat → List L → Nat → Prop
  /-- No move reads nothing. -/
  | refl (q : Nat) : Path moves q [] q
  /-- A move that reads nothing may be taken first. -/
  | silent {m : Move L} {w : List L} {q : Nat} :
      m ∈ moves → m.isEpsilon = true → Path moves m.target w q → Path moves m.source w q
  /-- A move that reads its label may be taken first. -/
  | read {m : Move L} {w : List L} {q : Nat} :
      m ∈ moves → m.isEpsilon = false → Path moves m.target w q →
      Path moves m.source (m.label :: w) q

namespace Automaton

variable [Automaton A L]

/-- Some path from `q` to a final state reads exactly `w`. -/
def AcceptsFrom (a : A) (q : Nat) (w : List L) : Prop :=
  ∃ f ∈ finals a, Path (moves a) q w f

/-- The automaton accepts `w`. -/
def Accepts (a : A) (w : List L) : Prop :=
  AcceptsFrom a (initial a) w

end Automaton

end FragmentGrammar
