import FragmentGrammar.Proofs.Automaton.Reordered
import FragmentGrammar.Proofs.Embedding.Sharing
import FragmentGrammar.Proofs.Grammar.Equality

/-! # Blocks of renumbered and reordered automata

    The name of a state shows its number, and the productions of a block stand in the
    order of the enumerations; that is all that numbers and order do to a block
    (`embed_reordered`).  Another order may let another label speak for its equals, so
    terminals are compared by their labels. -/

namespace FragmentGrammar

open Automaton

variable {A B L : Type}

/-! ## Numbers in names -/

/-- The nonterminal with `f` applied to the state that it names. -/
def Nonterminal.mapState (f : Nat → Nat) : Nonterminal → Nonterminal
  | .named name => .named name
  | .entry i => .entry i
  | .state i q => .state i (f q)

/-- The symbol with `f` applied to the state that it names. -/
def Symbol.mapState (f : Nat → Nat) : Symbol L → Symbol L
  | .nonterminal n => .nonterminal (n.mapState f)
  | .terminal t => .terminal t

/-- The production with `f` applied to the states that it names. -/
def Production.mapState (f : Nat → Nat) (p : Production L) : Production L :=
  ⟨p.head.mapState f, p.body.map (Symbol.mapState f)⟩

/-! ## Productions -/

section Productions

variable [Automaton A L] [Automaton B L] {f : Nat → Nat} {a : A} {b : B} {id : Nat}

/-- Where the initial state is renumbered to the initial one, names are renumbered. -/
theorem stateName_mapState (inj : Function.Injective f) (start : initial b = f (initial a))
    (q : Nat) : stateName id b (f q) = (stateName id a q).mapState f := by
  by_cases entered : q = initial a
  · rw [entered, stateName_initial, ← start, stateName_initial]
    rfl
  · have other : f q ≠ initial b := fun same => entered (inj (same.trans start))
    rw [stateName_of_ne entered, stateName_of_ne other]
    rfl

variable [Label L] [EquivBEq L]

/-- Other numbers for states only rename the states in the production of a move. -/
theorem moveProduction_mapState (inj : Function.Injective f)
    (start : initial b = f (initial a)) (m : Move L) :
    (moveProduction id b (m.renumber f) == (moveProduction id a m).mapState f) = true := by
  have target : stateName id b (f m.target) = (stateName id a m.target).mapState f :=
    stateName_mapState inj start m.target
  refine Production.beq_iff.mpr ⟨stateName_mapState inj start m.source, ?_⟩
  show (_ == (moveProduction id a m).body.map (Symbol.mapState f)) = true
  have kept : (m.renumber f).isEpsilon = m.isEpsilon := m.isEpsilon_renumber
  cases he : m.isEpsilon with
  | true =>
      rw [body_of_silent he, body_of_silent (kept.trans he)]
      show ([Symbol.nonterminal (stateName id b (f m.target))] == _) = true
      rw [target]
      exact BEq.rfl
  | false =>
      have label : (labelTerminal b m.label == labelTerminal a m.label) = true :=
        labelTerminal_beq_iff.mpr BEq.rfl
      rw [body_of_reading he, body_of_reading (kept.trans he)]
      show ([.terminal (labelTerminal b m.label), Symbol.nonterminal (stateName id b (f m.target))]
        == [.terminal (labelTerminal a m.label), _]) = true
      rw [target, List.cons_beq_cons, Symbol.terminal_beq, label]
      exact BEq.rfl

/-- A block follows the order of the enumerations, renumbered or not. -/
theorem embed_perm (h : Reordered (renumbered f a) b) :
    (embed id b).Perm (((moves a).map fun m => moveProduction id b (m.renumber f)) ++
      (finals a).map fun q => .epsilon (stateName id b (f q))) := by
  have moved := h.moves.map (moveProduction id b)
  have ended := h.finals.map fun q => (.epsilon (stateName id b q) : Production L)
  rw [moves_renumbered, List.map_map] at moved
  rw [finals_renumbered, List.map_map] at ended
  rw [embed_eq_plainBlock, plainBlock]
  exact moved.append ended

/-- Written in the old order, the productions are the old ones with the new numbers. -/
theorem map_mapState_embed (inj : Function.Injective f) (start : initial b = f (initial a)) :
    (((moves a).map fun m => moveProduction id b (m.renumber f)) ++
      ((finals a).map fun q => .epsilon (stateName id b (f q))) ==
        (embed id a).map (Production.mapState f)) = true := by
  rw [embed_eq_plainBlock, plainBlock, List.map_append, List.map_map, List.map_map]
  refine append_beq_append (map_beq_map ?_) (map_beq_map ?_)
  · intro m _
    exact moveProduction_mapState inj start m
  · intro q _
    exact Production.beq_iff.mpr ⟨stateName_mapState inj start q, rfl⟩

end Productions

/-- If the states of an automaton are given other numbers, different ones to different
    states, and its enumerations are put in another order, then the two questions have the
    same answers, and its block has the same productions in some order, with the new numbers
    in the names of states, up to the equality of labels. -/
theorem embed_reordered [Automaton A L] [LawfulAutomaton A L] [Automaton B L]
    [LawfulAutomaton B L] [Label L] [EquivBEq L] {f : Nat → Nat} (inj : Function.Injective f)
    {a : A} {b : B} (h : Reordered (renumbered f a) b) :
    acceptsOnlyEpsilon b = acceptsOnlyEpsilon a ∧ singleTerminal b = singleTerminal a ∧
    ∀ id, ∃ ps, (embed id b).Perm ps ∧
      (ps == (embed id a).map (Production.mapState f)) = true := by
  refine ⟨?_, ?_, ?_⟩
  · exact acceptsOnlyEpsilon_congr fun w => h.accepts_iff.trans (accepts_renumbered inj)
  · exact h.singleTerminal_eq.trans (singleTerminal_renumbered inj)
  · intro id
    have start : initial b = f (initial a) := h.initial.trans (initial_renumbered f a)
    exact ⟨_, embed_perm h, map_mapState_embed inj start⟩

/-- The automaton `shouting` with greater numbers and in another order, so that another
    spelling of a label comes first. -/
def murmuring : ListedAutomaton CaseBlind :=
  ⟨7, [], [9, 7, 7], [⟨7, 7, ⟨"B"⟩⟩, ⟨11, 9, ⟨"a"⟩⟩, ⟨7, 9, ⟨"EPS"⟩⟩, ⟨9, 7, ⟨"b"⟩⟩]⟩

theorem embed_reordered_murmuring :
    Reordered (renumbered (· + 4) shouting) murmuring ∧
      acceptsOnlyEpsilon murmuring = acceptsOnlyEpsilon shouting ∧
      singleTerminal murmuring = singleTerminal shouting ∧
      ∃ ps, (embed 2 murmuring).Perm ps ∧
        (ps == (embed 2 shouting).map (Production.mapState (· + 4))) = true := by
  have reordered : Reordered (renumbered (· + 4) shouting) murmuring := by
    refine ⟨rfl, .refl _, by decide, ?_⟩
    show ([_, _] ++ [_, _]).Perm ([_, _] ++ [_, _])
    exact List.perm_append_comm
  obtain ⟨empty, single, blocks⟩ :=
    embed_reordered (fun _ _ => Nat.add_right_cancel) reordered
  exact ⟨reordered, empty, single, blocks 2⟩

end FragmentGrammar
