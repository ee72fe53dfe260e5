import FragmentGrammar.Automaton.Listed
import FragmentGrammar.Proofs.Automaton.Language
import Mathlib.Data.List.Basic

/-! # Renumbered and reordered automata

    Which numbers the states have and in which order they, the final states and the moves
    are enumerated does not show in the words of an automaton, as long as different states
    keep different numbers: a path leads through moves, wherever these stand.  So it does
    not show either in the questions that are asked of the automaton before it is written
    into a grammar. -/

namespace FragmentGrammar

open Automaton

variable {A B L : Type}

/-- The move with `f` applied to both its ends. -/
def Move.renumber (f : Nat → Nat) (m : Move L) : Move L :=
  ⟨f m.source, f m.target, m.label⟩

section Enumerations

variable [Automaton A L] [Automaton B L]

/-- What an automaton enumerates, with `f` applied to every state. -/
def renumbered (f : Nat → Nat) (a : A) : ListedAutomaton L :=
  (ListedAutomaton.ofAutomaton a).renumber f

/-- The automaton `b` enumerates the same things as `a`, as often, in some order. -/
structure Reordered (a : A) (b : B) : Prop where
  initial : Automaton.initial b = Automaton.initial a
  states : (Automaton.states b).Perm (Automaton.states a)
  finals : (Automaton.finals b).Perm (Automaton.finals a)
  moves : (Automaton.moves b).Perm (Automaton.moves a)

/-- To list the same things in another order is mutual. -/
theorem Reordered.symm {a : A} {b : B} (h : Reordered a b) : Reordered b a :=
  ⟨h.initial.symm, h.states.symm, h.finals.symm, h.moves.symm⟩

variable (f : Nat → Nat) (a : A)

@[simp] theorem initial_renumbered : initial (renumbered f a) = f (initial a) := rfl

@[simp] theorem states_renumbered : states (renumbered f a) = (states a).map f := rfl

@[simp] theorem finals_renumbered : finals (renumbered f a) = (finals a).map f := rfl

@[simp] theorem moves_renumbered :
    moves (renumbered f a) = (moves a).map (Move.renumber f) := rfl

end Enumerations

variable [Label L] {f : Nat → Nat}

@[simp] theorem Move.isEpsilon_renumber (m : Move L) : (m.renumber f).isEpsilon = m.isEpsilon :=
  rfl

/-! ## Words -/

section Paths

variable {ms ns : List (Move L)} {p q : Nat} {w : List L}

/-- More moves leave more paths. -/
theorem Path.mono (sub : ms ⊆ ns) (h : Path ms p w q) : Path ns p w q := by
  induction h with
  | refl q => exact .refl q
  | silent hm he _ ih => exact .silent (sub hm) he ih
  | read hm he _ ih => exact .read (sub hm) he ih

/-- A path stays one when its states are renumbered. -/
theorem Path.renumber (h : Path ms p w q) : Path (ms.map (Move.renumber f)) (f p) w (f q) := by
  induction h with
  | refl q => exact .refl (f q)
  | silent hm he _ ih => exact .silent (List.mem_map_of_mem hm) he ih
  | read hm he _ ih => exact .read (List.mem_map_of_mem hm) he ih

/-- A path through renumbered moves that begins at the number of a state is a path of its
    own, renumbered. -/
theorem Path.of_renumber (inj : Function.Injective f) {q' : Nat}
    (h : Path (ms.map (Move.renumber f)) (f p) w q') : ∃ q, f q = q' ∧ Path ms p w q := by
  generalize here : f p = p' at h
  induction h generalizing p with
  | refl _ => exact ⟨p, here, .refl p⟩
  | silent hm he _ ih =>
      obtain ⟨m, mem, rfl⟩ := List.mem_map.mp hm
      obtain rfl := inj here
      obtain ⟨q, there, rest⟩ := ih rfl
      exact ⟨q, there, .silent mem he rest⟩
  | read hm he _ ih =>
      obtain ⟨m, mem, rfl⟩ := List.mem_map.mp hm
      obtain rfl := inj here
      obtain ⟨q, there, rest⟩ := ih rfl
      exact ⟨q, there, .read mem he rest⟩

variable [Automaton A L] [Automaton B L] {a : A} {b : B}

/-- Different numbers for the states leave the language as it is. -/
theorem accepts_renumbered (inj : Function.Injective f) :
    Accepts (renumbered f a) w ↔ Accepts a w := by
  constructor
  · rintro ⟨q', final, path⟩
    obtain ⟨q, rfl, back⟩ := Path.of_renumber inj path
    exact ⟨q, (List.mem_map_of_injective inj).mp final, back⟩
  · rintro ⟨q, final, path⟩
    exact ⟨f q, List.mem_map_of_mem final, path.renumber⟩

/-- What matters for acceptance is which moves and final states there are. -/
theorem Reordered.accepts_of_accepts (h : Reordered a b) (accepted : Accepts b w) :
    Accepts a w := by
  obtain ⟨q, final, path⟩ := accepted
  rw [h.initial] at path
  exact ⟨q, h.finals.subset final, path.mono h.moves.subset⟩

theorem Reordered.accepts_iff (h : Reordered a b) : Accepts b w ↔ Accepts a w :=
  ⟨h.accepts_of_accepts, h.symm.accepts_of_accepts⟩

end Paths

/-! ## The two questions -/

variable [Automaton A L] [Automaton B L] {a : A} {b : B}

/-- Whether an automaton accepts only the empty word depends on its words alone. -/
theorem acceptsOnlyEpsilon_congr [LawfulAutomaton A L] [LawfulAutomaton B L]
    (h : ∀ w, Accepts b w ↔ Accepts a w) : acceptsOnlyEpsilon b = acceptsOnlyEpsilon a := by
  rw [Bool.eq_iff_iff, acceptsOnlyEpsilon_iff, acceptsOnlyEpsilon_iff]
  exact forall_congr' fun w => by rw [h w]

variable [LawfulAutomaton A L]

/-- The shape of a single move does not depend on the numbers of its states. -/
theorem isOneMove_renumbered (inj : Function.Injective f) {n : Move L} :
    IsOneMove (renumbered f a) n ↔ ∃ m, m.renumber f = n ∧ IsOneMove a m := by
  have count : stateCount (renumbered f a) = stateCount a := by
    rw [LawfulAutomaton.stateCount_eq, LawfulAutomaton.stateCount_eq, states_renumbered,
      List.length_map]
  constructor
  · rintro ⟨two, moves, finals, reads, source, leaves⟩
    obtain ⟨m, move, rfl⟩ := List.map_eq_singleton_iff.mp moves
    obtain ⟨q, final, target⟩ := List.map_eq_singleton_iff.mp finals
    obtain rfl := inj target
    have other : m.source ≠ m.target := fun same => leaves (congrArg f same)
    exact ⟨m, rfl, count.symm.trans two, move, final, reads, inj source, other⟩
  · rintro ⟨m, rfl, two, moves, finals, reads, source, leaves⟩
    refine ⟨count.trans two, ?_, ?_, reads, congrArg f source, inj.ne leaves⟩
    · rw [moves_renumbered, moves]
      rfl
    · rw [finals_renumbered, finals]
      rfl

/-- Hence neither does the label that it is asked for. -/
theorem singleTerminal_renumbered (inj : Function.Injective f) :
    singleTerminal (renumbered f a) = singleTerminal a := by
  ext l
  simp only [singleTerminal_eq_some_iff, isOneMove_renumbered inj]
  constructor
  · rintro ⟨_, ⟨m, rfl, alone⟩, label⟩
    exact ⟨m, alone, label⟩
  · rintro ⟨m, alone, label⟩
    exact ⟨_, ⟨m, rfl, alone⟩, label⟩

namespace Reordered

variable [LawfulAutomaton B L]

/-- Nor does that shape depend on the order in which things are listed. -/
theorem isOneMove_of_isOneMove (h : Reordered a b) {m : Move L} (alone : IsOneMove b m) :
    IsOneMove a m := by
  obtain ⟨two, moves, finals, reads, source, leaves⟩ := alone
  have moved := h.moves.symm
  have ended := h.finals.symm
  rw [moves] at moved
  rw [finals] at ended
  refine ⟨?_, List.perm_singleton.mp moved, List.perm_singleton.mp ended, reads,
    source.trans h.initial, leaves⟩
  rw [LawfulAutomaton.stateCount_eq] at two ⊢
  exact h.states.length_eq.symm.trans two

theorem isOneMove_iff (h : Reordered a b) {m : Move L} : IsOneMove b m ↔ IsOneMove a m :=
  ⟨h.isOneMove_of_isOneMove, h.symm.isOneMove_of_isOneMove⟩

/-- Automata that differ in order alone answer alike. -/
theorem singleTerminal_eq (h : Reordered a b) : singleTerminal b = singleTerminal a := by
  ext l
  simp only [singleTerminal_eq_some_iff, h.isOneMove_iff]

end Reordered

end FragmentGrammar
