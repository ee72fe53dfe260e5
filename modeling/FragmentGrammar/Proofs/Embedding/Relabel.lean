import FragmentGrammar.Proofs.Automaton.Relabel
import FragmentGrammar.Proofs.Embedding.Plain
import FragmentGrammar.Proofs.Grammar.Equality

/-! # Blocks of relabelled automata

    Where a function sends different labels to one, a relabelled automaton has fewer
    terminals, and others may speak for its labels.  Production by production its block is
    still the relabelled block, up to the equality of labels (`embed_relabelled`): a label
    is equal to the one that speaks for it on both sides. -/

namespace FragmentGrammar

variable {A L M : Type} [Automaton A L] [Label L] [Label M] [EquivBEq L] [EquivBEq M]
variable {h : L → M}

/-- The label that speaks for an image is equal to the image of the label that spoke. -/
theorem representative_relabelled (ok : IsRelabelling h) (a : A) (l : L) :
    (representative (relabelled h a) (h l) == h (representative a l)) = true :=
  BEq.trans (representative_beq (relabelled h a) (h l))
    (BEq.symm (ok.respects (representative_beq a l)))

/-- The production of a relabelled move is the relabelled production of the move. -/
theorem moveProduction_relabelled (ok : IsRelabelling h) (id : Nat) (a : A) (m : Move L) :
    (moveProduction id (relabelled h a) (m.relabel h) ==
      (moveProduction id a m).relabel h) = true := by
  refine Production.beq_iff.mpr ⟨rfl, ?_⟩
  have kept := ok.isEpsilon m
  show (_ == (moveProduction id a m).body.map (Symbol.relabel h)) = true
  cases he : m.isEpsilon with
  | true =>
      rw [body_of_silent (kept.trans he), body_of_silent he]
      exact BEq.rfl
  | false =>
      have label := representative_relabelled ok a m.label
      rw [body_of_reading (kept.trans he), body_of_reading he]
      show ([Symbol.terminal _, _] == [Symbol.terminal _, _]) = true
      rw [List.cons_beq_cons, Symbol.terminal_beq, Terminal.beq_iff.mpr label]
      exact BEq.rfl

/-- The block of a relabelled automaton is the relabelled block. -/
theorem embed_relabelled (ok : IsRelabelling h) (id : Nat) (a : A) :
    (embed id (relabelled h a) == (embed id a).map (Production.relabel h)) = true := by
  rw [embed_eq_plainBlock, embed_eq_plainBlock, plainBlock, plainBlock, moves_relabelled,
    List.map_append, List.map_map, List.map_map, List.map_map]
  refine append_beq_append (map_beq_map ?_) BEq.rfl
  intro m _
  exact moveProduction_relabelled ok id a m

end FragmentGrammar
