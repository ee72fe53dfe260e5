import FragmentGrammar.Proofs.Embedding.Language
import FragmentGrammar.Proofs.Grammar.Equality
import Mathlib.Tactic.MkIffOfInductiveProp

/-! # Reading a block back

    The productions of a block that have a body are the moves of its automaton and the
    others are the final states; the names in them tell the states, once it is known which
    one is the initial state.  So moves and final states can be read back from a block
    (`decode`), and two automata with one initial state have equal blocks only if these
    agree one by one (`embed_decodes`). -/

namespace FragmentGrammar

open Automaton

variable {A B L : Type}

/-- The moves have the same ends, and they read nothing both or equal labels. -/
@[mk_iff]
structure Move.Alike [Label L] (m n : Move L) : Prop where
  source : m.source = n.source
  target : m.target = n.target
  reads : m.isEpsilon = true ∧ n.isEpsilon = true ∨
    m.isEpsilon = false ∧ n.isEpsilon = false ∧ (m.label == n.label) = true

/-! ## Decoding -/

/-- The state that a nonterminal names in the block with the number `id`. -/
def Nonterminal.state? (id initial : Nat) : Nonterminal → Option Nat
  | .named _ => none
  | .entry i => if i = id then some initial else none
  | .state i q => if i = id then some q else none

/-- The move that a production stands for.  Where nothing is read its label is the
    marker. -/
def Production.move? [Label L] (id initial : Nat) (p : Production L) : Option (Move L) :=
  let between (n : Nonterminal) (l : L) : Option (Move L) :=
    (p.head.state? id initial).bind fun source =>
      (n.state? id initial).map fun target => ⟨source, target, l⟩
  match p.body with
  | [.nonterminal n] => between n Label.epsilon
  | [.terminal t, .nonterminal n] => between n t.label
  | _ => none

/-- The final state that a production stands for. -/
def Production.final? (id initial : Nat) (p : Production L) : Option Nat :=
  match p.body with
  | [] => p.head.state? id initial
  | _ => none

/-- The moves and the final states that a block stands for, when `initial` is the initial
    state. -/
def decode [Label L] (id initial : Nat) (ps : List (Production L)) : List (Move L) × List Nat :=
  (ps.filterMap (Production.move? id initial), ps.filterMap (Production.final? id initial))

/-- `n` is the move `m` as it is read back: under the marker if nothing is read, and else
    under an equal label. -/
structure Move.ReadBack [Label L] (m n : Move L) : Prop where
  source : n.source = m.source
  target : n.target = m.target
  silent : m.isEpsilon = true → n.label = Label.epsilon
  reading : m.isEpsilon = false → (n.label == m.label) = true

/-- With a lawful marker a move that is read back is equal to the move. -/
theorem Move.ReadBack.beq [Label L] [LawfulLabel L] {m n : Move L} (h : m.ReadBack n) :
    (n == m) = true := by
  refine Move.beq_iff.mpr ⟨h.source, h.target, ?_⟩
  cases he : m.isEpsilon with
  | true =>
      rw [h.silent he]
      exact BEq.symm (LawfulLabel.isEpsilon_iff.mp he)
  | false => exact h.reading he

section Decoding

variable [Automaton A L] {id q : Nat} {a : A}

/-- The state is read back from its name, the initial one from the number of the block. -/
theorem state?_stateName : (stateName id a q).state? id (initial a) = some q := by
  by_cases start : q = initial a
  · rw [start, stateName_initial, Nonterminal.state?, if_pos rfl]
  · rw [stateName_of_ne start, Nonterminal.state?, if_pos rfl]

/-- The productions of final states are read back as these states. -/
theorem filterMap_final?_finals (qs : List Nat) :
    (qs.map fun q => (.epsilon (stateName id a q) : Production L)).filterMap
      (Production.final? id (initial a)) = qs := by
  have back : Production.final? (L := L) id (initial a) ∘
      (fun q => .epsilon (stateName id a q)) = some :=
    funext fun _ => state?_stateName
  rw [List.filterMap_map, back, List.filterMap_some]

variable [Label L] {m : Move L}

/-- The production of a move is not taken for that of a final state. -/
theorem final?_moveProduction : (moveProduction id a m).final? id (initial a) = none := by
  rw [Production.final?]
  cases he : m.isEpsilon with
  | true => rw [body_of_silent he]
  | false => rw [body_of_reading he]

/-- The move is read back from its production, up to equal labels. -/
theorem move?_moveProduction [EquivBEq L] (id : Nat) (a : A) (m : Move L) :
    ∃ n, (moveProduction id a m).move? id (initial a) = some n ∧ m.ReadBack n := by
  have head : (moveProduction id a m).head = stateName id a m.source := rfl
  rw [Production.move?, head, state?_stateName]
  cases he : m.isEpsilon with
  | true =>
      rw [body_of_silent he]
      simp only [state?_stateName]
      exact ⟨_, rfl, rfl, rfl, fun _ => rfl, fun reads => by simp [he] at reads⟩
  | false =>
      rw [body_of_reading he]
      simp only [state?_stateName]
      have label : (representative a m.label == m.label) = true := representative_beq a m.label
      exact ⟨_, rfl, rfl, rfl, fun quiet => by simp [he] at quiet, fun _ => label⟩

/-- The productions of moves are read back as these moves. -/
theorem filterMap_move?_moves [EquivBEq L] (ms : List (Move L)) :
    List.Forall₂ Move.ReadBack ms
      ((ms.map (moveProduction id a)).filterMap (Production.move? id (initial a))) := by
  induction ms with
  | nil => exact .nil
  | cons m ms ih =>
      obtain ⟨n, back, same⟩ := move?_moveProduction id a m
      rw [List.map_cons, List.filterMap_cons_some back]
      exact .cons same ih

/-- No production of a move is read back as a final state. -/
theorem filterMap_final?_moves (ms : List (Move L)) :
    (ms.map (moveProduction id a)).filterMap (Production.final? id (initial a)) = [] := by
  rw [List.filterMap_map, List.filterMap_eq_nil_iff]
  exact fun _ _ => final?_moveProduction

/-- No production of a final state is read back as a move. -/
theorem filterMap_move?_finals (qs : List Nat) :
    (qs.map fun q => (.epsilon (stateName id a q) : Production L)).filterMap
      (Production.move? id (initial a)) = [] := by
  rw [List.filterMap_map, List.filterMap_eq_nil_iff]
  exact fun _ _ => rfl

/-- Decoding a block gives back the moves and the final states of its automaton. -/
theorem decode_embed [EquivBEq L] (id : Nat) (a : A) :
    List.Forall₂ Move.ReadBack (moves a) (decode id (initial a) (embed id a)).1 ∧
      (decode id (initial a) (embed id a)).2 = finals a := by
  rw [decode, embed_eq_plainBlock, plainBlock, List.filterMap_append, List.filterMap_append,
    filterMap_move?_finals, filterMap_final?_moves, filterMap_final?_finals, List.append_nil]
  exact ⟨filterMap_move?_moves (moves a), rfl⟩

end Decoding

/-! ## Comparing blocks -/

/-- Equal productions have bodies together. -/
theorem Production.isEpsilon_congr [BEq L] {p p' : Production L} (h : (p == p') = true) :
    p.isEpsilon = p'.isEpsilon := by
  have same := (Production.beq_iff.mp h).2
  rw [isEpsilon, isEpsilon]
  cases hp : p.body <;> cases hp' : p'.body <;> simp_all

section Comparing

variable [Automaton A L] [Automaton B L] {id : Nat} {a : A} {b : B}

/-- Automata with one initial state give their states the same names. -/
theorem stateName_eq_iff (start : initial a = initial b) {p q : Nat} :
    stateName id a p = stateName id b q ↔ p = q := by
  have same : stateName id b q = stateName id a q := by
    rw [stateName, stateName, start]
  rw [same]
  exact ⟨stateName_inj, congrArg _⟩

variable [Label L] {m n : Move L}

/-- The productions of moves are those with a body. -/
theorem filter_plainBlock (id : Nat) (a : A) :
    (plainBlock id a).filter (!·.isEpsilon) = (moves a).map (moveProduction id a) ∧
      (plainBlock id a).filter (·.isEpsilon) =
        (finals a).map fun q => .epsilon (stateName id a q) := by
  have move : ∀ p ∈ (moves a).map (moveProduction id a), p.isEpsilon = false := by
    intro p hp
    obtain ⟨m, -, rfl⟩ := List.mem_map.mp hp
    simp [Production.isEpsilon, moveProduction]
  have final : ∀ p ∈ (finals a).map (fun q => (.epsilon (stateName id a q) : Production L)),
      p.isEpsilon = true := by
    intro p hp
    obtain ⟨q, -, rfl⟩ := List.mem_map.mp hp
    rfl
  rw [plainBlock, List.filter_append, List.filter_append]
  constructor
  · rw [List.filter_eq_self.mpr, List.filter_eq_nil_iff.mpr, List.append_nil]
    · simpa using final
    · simpa using move
  · rw [List.filter_eq_nil_iff.mpr, List.filter_eq_self.mpr, List.nil_append]
    · exact final
    · simpa using move

/-- Two blocks are equal when their productions of moves are and those of final states. -/
theorem plainBlock_beq_iff :
    (plainBlock id a == plainBlock id b) = true ↔
      ((moves a).map (moveProduction id a) == (moves b).map (moveProduction id b)) = true ∧
      (((finals a).map fun q => (.epsilon (stateName id a q) : Production L)) ==
        (finals b).map fun q => .epsilon (stateName id b q)) = true := by
  constructor
  · intro same
    have alike := beq_iff_forall₂.mp same
    obtain ⟨moves, finals⟩ := filter_plainBlock id a
    obtain ⟨moves', finals'⟩ := filter_plainBlock id b
    rw [← moves, ← moves', ← finals, ← finals', beq_iff_forall₂, beq_iff_forall₂]
    constructor
    · refine List.rel_filter ?_ alike
      intro p p' h
      show (!p.isEpsilon) = true ↔ (!p'.isEpsilon) = true
      rw [Production.isEpsilon_congr h]
    · refine List.rel_filter ?_ alike
      intro p p' h
      show p.isEpsilon = true ↔ p'.isEpsilon = true
      rw [Production.isEpsilon_congr h]
  · rintro ⟨moves, finals⟩
    exact append_beq_append moves finals

variable [EquivBEq L]

/-- Alike moves are those with equal productions. -/
theorem moveProduction_beq_iff (start : initial a = initial b) :
    (moveProduction id a m == moveProduction id b n) = true ↔ m.Alike n := by
  have heads : (moveProduction id a m).head = (moveProduction id b n).head ↔
      m.source = n.source := stateName_eq_iff start
  have targets : stateName id a m.target = stateName id b n.target ↔ m.target = n.target :=
    stateName_eq_iff start
  rw [Production.beq_iff, heads, Move.alike_iff]
  cases hm : m.isEpsilon with
  | true =>
      rw [body_of_silent hm]
      cases hn : n.isEpsilon with
      | true =>
          rw [body_of_silent hn]
          simp [targets]
      | false =>
          rw [body_of_reading hn]
          simp
  | false =>
      rw [body_of_reading hm]
      cases hn : n.isEpsilon with
      | true =>
          rw [body_of_silent hn]
          simp
      | false =>
          rw [body_of_reading hn]
          simp [targets, labelTerminal_beq_iff, and_comm]

/-- The productions of final states tell the states apart. -/
theorem epsilon_beq_iff (start : initial a = initial b) {p q : Nat} :
    ((.epsilon (stateName id a p) : Production L) == .epsilon (stateName id b q)) = true ↔
      p = q := by
  rw [Production.beq_iff, Production.epsilon, Production.epsilon, stateName_eq_iff start]
  simp

end Comparing

/-- Two automata with one initial state have equal blocks exactly when their moves are
    alike, one by one, and their final states are the same.  From the number of a block,
    the initial state and the productions, decoding gives back the moves, up to the
    equality of labels, and the final states. -/
theorem embed_decodes [Automaton A L] [Automaton B L] [Label L] [EquivBEq L] (id : Nat)
    (a : A) (b : B) (start : initial a = initial b) :
    ((embed id a == embed id b) = true ↔
      List.Forall₂ Move.Alike (moves a) (moves b) ∧ finals a = finals b) ∧
    List.Forall₂ Move.ReadBack (moves a) (decode id (initial a) (embed id a)).1 ∧
    (∀ [LawfulLabel L], ((decode id (initial a) (embed id a)).1 == moves a) = true) ∧
    (decode id (initial a) (embed id a)).2 = finals a := by
  obtain ⟨back, finals⟩ := decode_embed id a
  refine ⟨?_, back, ?_, finals⟩
  · rw [embed_eq_plainBlock, embed_eq_plainBlock, plainBlock_beq_iff, beq_iff_forall₂,
      beq_iff_forall₂]
    simp only [List.forall₂_map_left_iff, List.forall₂_map_right_iff,
      moveProduction_beq_iff start, epsilon_beq_iff start, List.forall₂_eq_eq_eq]
  · intro _
    rw [beq_iff_forall₂]
    exact (back.imp fun _ _ same => same.beq).flip

/-- The automaton `spinning` with all labels spelled in the other case, and with its states
    listed. -/
def respelled : ListedAutomaton CaseBlind :=
  ⟨0, [0, 1, 7], [7, 7], [⟨0, 1, ⟨"EPS"⟩⟩, ⟨1, 0, ⟨"eps"⟩⟩, ⟨1, 7, ⟨"A"⟩⟩, ⟨1, 7, ⟨"a"⟩⟩]⟩

/-- Labels in the other case leave an equal block, which gives the moves and both final
    states back. -/
theorem embed_decodes_respelled :
    initial spinning = initial respelled ∧
      (embed 4 spinning == embed 4 respelled) = true ∧
      ((decode 4 0 (embed 4 spinning)).1 == moves spinning) = true ∧
      (decode 4 0 (embed 4 spinning)).2 = [7, 7] := by
  have alike : List.Forall₂ Move.Alike (moves spinning) (moves respelled) := by
    refine .cons ?_ (.cons ?_ (.cons ?_ (.cons ?_ .nil)))
    all_goals exact ⟨rfl, rfl, by decide⟩
  obtain ⟨same, -, back, finals⟩ := embed_decodes 4 spinning respelled rfl
  exact ⟨rfl, same.mpr ⟨alike, rfl⟩, back, finals⟩

end FragmentGrammar
