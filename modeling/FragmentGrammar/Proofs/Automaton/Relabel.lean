import FragmentGrammar.Automaton.Listed
import FragmentGrammar.Proofs.Resolver.Relabel

/-! # Relabelled automata

    The questions that are asked of an automaton before it is embedded look at a label
    only to see whether anything is read.  So a function that keeps the marker may be
    applied to the labels, and all answers stay, but for the label in them
    (`verdict_relabelled`).  It may well send different labels to one. -/

namespace FragmentGrammar

variable {A L M : Type} [Automaton A L]

/-- What an automaton enumerates, with `h` applied to every label. -/
def relabelled (h : L → M) (a : A) : ListedAutomaton M :=
  (ListedAutomaton.ofAutomaton a).relabel h

/-- The move with `h` applied to its label. -/
def Move.relabel (h : L → M) (m : Move L) : Move M :=
  ⟨m.source, m.target, h m.label⟩

section Enumerations

variable {h : L → M} {a : A}

/-- The moves of a relabelled automaton are the relabelled moves, in their order. -/
theorem moves_relabelled :
    Automaton.moves (relabelled h a) = (Automaton.moves a).map (Move.relabel h) := rfl

theorem isFinal_relabelled [LawfulAutomaton A L] (q : Nat) :
    Automaton.isFinal (relabelled h a) q = Automaton.isFinal a q :=
  (LawfulAutomaton.isFinal_eq a q).symm

theorem stateCount_relabelled [LawfulAutomaton A L] :
    Automaton.stateCount (relabelled h a) = Automaton.stateCount a :=
  (LawfulAutomaton.stateCount_eq a).symm

/-- Edges do not look at labels. -/
theorem edges_relabel (ms : List (Move L)) :
    Automaton.edges (ms.map (Move.relabel h)) = Automaton.edges ms :=
  List.map_map

theorem backEdges_relabel (ms : List (Move L)) :
    Automaton.backEdges (ms.map (Move.relabel h)) = Automaton.backEdges ms :=
  List.map_map

end Enumerations

variable [Label L] [Label M] {h : L → M} {a : A}

/-- A function between label algebras that their equalities and markers are kept by.
    Labels that differ may be sent to one. -/
structure IsRelabelling (h : L → M) : Prop where
  /-- Equal labels stay equal. -/
  respects {l l' : L} : (l == l') = true → (h l == h l') = true
  /-- A label marks a move that reads nothing exactly when its image does. -/
  keeps (l : L) : Label.isEpsilon (h l) = true ↔ Label.isEpsilon l = true

/-- A relabelled move reads nothing just if the move does. -/
theorem IsRelabelling.isEpsilon (ok : IsRelabelling h) (m : Move L) :
    (m.relabel h).isEpsilon = m.isEpsilon :=
  Bool.eq_iff_iff.mpr (ok.keeps m.label)

section Verdict

variable (ok : IsRelabelling h)
include ok

/-- The edges that read nothing stay the same, since relabelling keeps epsilon apart. -/
theorem silentEdges_relabel (ms : List (Move L)) :
    Automaton.silentEdges (ms.map (Move.relabel h)) = Automaton.silentEdges ms := by
  rw [Automaton.silentEdges, List.filterMap_map, Automaton.silentEdges]
  congr 1
  funext m
  show (if (m.relabel h).isEpsilon then _ else _) = _
  rw [ok.isEpsilon]
  rfl

/-- Whether a word with letters is accepted does not depend on which letters these are. -/
theorem readsSomething_relabel (ms : List (Move L)) (initial : Nat) (finals : List Nat) :
    Automaton.readsSomething (ms.map (Move.relabel h)) initial finals =
      Automaton.readsSomething ms initial finals := by
  rw [Automaton.readsSomething, edges_relabel, backEdges_relabel, List.any_map,
    Automaton.readsSomething]
  congr 1
  funext m
  show (!(m.relabel h).isEpsilon && _ && _) = _
  rw [ok.isEpsilon]
  rfl

/-- Nor does acceptance of the empty word. -/
theorem acceptsEmpty_relabel (ms : List (Move L)) (initial : Nat) (isFinal : Nat → Bool) :
    Automaton.acceptsEmpty (ms.map (Move.relabel h)) initial isFinal =
      Automaton.acceptsEmpty ms initial isFinal := by
  rw [Automaton.acceptsEmpty, silentEdges_relabel ok, Automaton.acceptsEmpty]

/-- A single terminal stays one, with its label replaced. -/
theorem soleLabel_relabel (ms : List (Move L)) (initial : Nat) (finals : List Nat) (count : Nat) :
    Automaton.soleLabel (ms.map (Move.relabel h)) initial finals count =
      (Automaton.soleLabel ms initial finals count).map h := by
  unfold Automaton.soleLabel
  by_cases two : count = 2
  · rw [if_pos two, if_pos two]
    -- only the shape of the two lists counts, and mapping keeps it
    rcases ms with _ | ⟨m, _ | ⟨m', ms⟩⟩
    · rfl
    · rcases finals with _ | ⟨q, _ | ⟨q', qs⟩⟩
      · rfl
      · show (if !(m.relabel h).isEpsilon && _ && _ && _ then _ else _) = _
        rw [ok.isEpsilon]
        show _ = Option.map h (if _ then some m.label else none)
        rw [apply_ite (Option.map h)]
        rfl
      · rfl
    · rfl
  · rw [if_neg two, if_neg two]
    rfl

variable [LawfulAutomaton A L]

/-- The first shape test has the same answer behind a relabelling. -/
theorem acceptsOnlyEpsilon_relabelled :
    Automaton.acceptsOnlyEpsilon (relabelled h a) = Automaton.acceptsOnlyEpsilon a := by
  have final : Automaton.isFinal (relabelled h a) = Automaton.isFinal a :=
    funext isFinal_relabelled
  rw [LawfulAutomaton.acceptsOnlyEpsilon_eq, LawfulAutomaton.acceptsOnlyEpsilon_eq, final,
    moves_relabelled, acceptsEmpty_relabel ok, readsSomething_relabel ok]
  rfl

/-- The second shape test answers with the relabelled label. -/
theorem singleTerminal_relabelled :
    Automaton.singleTerminal (relabelled h a) = (Automaton.singleTerminal a).map h := by
  rw [LawfulAutomaton.singleTerminal_eq, LawfulAutomaton.singleTerminal_eq,
    stateCount_relabelled, moves_relabelled, soleLabel_relabel ok]
  rfl

/-- A relabelled automaton is judged as the automaton is. -/
theorem verdict_relabelled : Verdict.of (relabelled h a) = (Verdict.of a).relabel h := by
  rw [Verdict.of, Verdict.of, acceptsOnlyEpsilon_relabelled ok, singleTerminal_relabelled ok]
  cases Automaton.acceptsOnlyEpsilon a with
  | true => rfl
  | false => cases Automaton.singleTerminal a <;> rfl

end Verdict

end FragmentGrammar
