import FragmentGrammar.Automaton.Dense
import FragmentGrammar.Automaton.Listed
import FragmentGrammar.Label.CaseBlind
import FragmentGrammar.Proofs.FirstOccurrence

/-! # What a builder has been told

    A builder is told of states, moves and final states in any order, so what it holds at
    some point need not be an automaton yet.  It holds what the calls so far say as a whole
    (`Built`): one call keeps that up, and so do all calls one after the other.  Whether
    there is an automaton to give, which one, and else what is missing can then be read off
    the calls (`build_performAll`).  The first call is the one that adds the initial
    state. -/

namespace FragmentGrammar

variable {A L : Type}

/-! ## Answers by enumeration -/

/-- Two automata give the same answer to every question. -/
structure AnswersAlike {B : Type} [Automaton A L] [Automaton B L] [Label L] (a : A) (b : B) :
    Prop where
  isFinal (q : Nat) : Automaton.isFinal a q = Automaton.isFinal b q
  stateCount : Automaton.stateCount a = Automaton.stateCount b
  movesFrom (q : Nat) : Automaton.movesFrom a q = Automaton.movesFrom b q
  acceptsOnlyEpsilon : Automaton.acceptsOnlyEpsilon a = Automaton.acceptsOnlyEpsilon b
  singleTerminal : Automaton.singleTerminal a = Automaton.singleTerminal b

/-- A lawful automaton answers as the lists that it enumerates. -/
theorem answersAlike_ofAutomaton [Automaton A L] [LawfulAutomaton A L] [Label L] (a : A) :
    AnswersAlike a (ListedAutomaton.ofAutomaton a) := by
  have isFinal : Automaton.isFinal a = Automaton.isFinal (ListedAutomaton.ofAutomaton a) :=
    funext (LawfulAutomaton.isFinal_eq a)
  have stateCount := LawfulAutomaton.stateCount_eq a
  refine ⟨congrFun isFinal, stateCount, LawfulAutomaton.movesFrom_eq a, ?_, ?_⟩
  · rw [LawfulAutomaton.acceptsOnlyEpsilon_eq, isFinal]
    rfl
  · rw [LawfulAutomaton.singleTerminal_eq, stateCount]
    rfl

namespace DenseAutomaton

/-! ## What calls say -/

/-- The call adds a state. -/
def BuildStep.addsState : BuildStep L → Bool
  | .state _ => true
  | .final _ | .move _ => false

/-- The move that the call adds, if it adds one. -/
def BuildStep.move? : BuildStep L → Option (Move L)
  | .move m => some m
  | .state _ | .final _ => none

/-- How many states the calls add. -/
def statesOf (calls : List (BuildStep L)) : Nat :=
  calls.countP (·.addsState)

/-- The moves that the calls add, in their order and with repetitions. -/
def movesOf (calls : List (BuildStep L)) : List (Move L) :=
  calls.filterMap BuildStep.move?

/-- The calls mark the state `q` as final, by its number or where they add it.  The number
    of a state is how many were added before it. -/
inductive Marks (calls : List (BuildStep L)) (q : Nat) : Prop
  | final : .final q ∈ calls → Marks calls q
  | state {before after : List (BuildStep L)} :
      calls = before ++ .state true :: after → statesOf before = q → Marks calls q

/-- Both ends of the move are below `count`. -/
def Connects (count : Nat) (m : Move L) : Prop :=
  m.source < count ∧ m.target < count

/-- Why the calls come to no automaton: the first of their moves that leads astray, or else
    the smallest of their final states that is missing. -/
inductive Misses (calls : List (BuildStep L)) : BuildError → Prop
  | move {m : Move L} {before after : List (Move L)} :
      movesOf calls = before ++ m :: after → (∀ n ∈ before, Connects (statesOf calls) n) →
      ¬Connects (statesOf calls) m →
      Misses calls (.unknownState m.source m.target (statesOf calls))
  | final {q : Nat} :
      (∀ m ∈ movesOf calls, Connects (statesOf calls) m) → Marks calls q → statesOf calls ≤ q →
      (∀ p, Marks calls p → statesOf calls ≤ p → q ≤ p) →
      Misses calls (.unknownFinal q (statesOf calls))

/-- The automaton is what the calls say. -/
structure IsBuiltBy [Label L] (a : DenseAutomaton L) (calls : List (BuildStep L)) : Prop where
  initial : Automaton.initial a = 0
  states : Automaton.states a = List.range (statesOf calls)
  ascending : (Automaton.finals a).Pairwise (· < ·)
  finals (q : Nat) : q ∈ Automaton.finals a ↔ Marks calls q
  /-- Of equal moves the first is kept. -/
  moves : Automaton.moves a = (movesOf calls).eraseDups
  answers : AnswersAlike a (ListedAutomaton.ofAutomaton a)

section Concat

variable {calls : List (BuildStep L)} {step : BuildStep L} {q : Nat}

/-- Before the first call no state is marked. -/
theorem not_marks_nil : ¬Marks ([] : List (BuildStep L)) q := by
  rintro (mem | ⟨split, -⟩)
  · cases mem
  · exact absurd split (by simp)

/-- A call adds one state at most. -/
theorem statesOf_concat (calls : List (BuildStep L)) (step : BuildStep L) :
    statesOf (calls ++ [step]) = statesOf calls + if step.addsState then 1 else 0 := by
  rw [statesOf, List.countP_append, List.countP_singleton]
  rfl

/-- A call adds one move at most. -/
theorem movesOf_concat (calls : List (BuildStep L)) (step : BuildStep L) :
    movesOf (calls ++ [step]) = movesOf calls ++ step.move?.toList := by
  rw [movesOf, List.filterMap_append]
  cases step <;> rfl

/-- A call marks the state that it names, or the one that it adds as a final state. -/
theorem marks_concat : Marks (calls ++ [step]) q ↔
    Marks calls q ∨ step = .final q ∨ step = .state true ∧ statesOf calls = q := by
  constructor
  · intro h
    cases h with
    | final mem =>
        rcases List.mem_append.mp mem with old | new
        · exact .inl (.final old)
        · exact .inr (.inl (List.mem_singleton.mp new).symm)
    | @state before after split number =>
        rcases List.eq_nil_or_concat after with rfl | ⟨after, last, rfl⟩
        · obtain ⟨rfl, new⟩ := List.append_inj' split rfl
          exact .inr (.inr ⟨List.singleton_inj.mp new, number⟩)
        · rw [List.concat_eq_append, ← List.cons_append, ← List.append_assoc] at split
          obtain ⟨old, -⟩ := List.append_inj' split rfl
          exact .inl (.state old number)
  · rintro (h | rfl | ⟨rfl, number⟩)
    · cases h with
      | final mem => exact .final (List.mem_append_left _ mem)
      | @state before after split number =>
          have longer : calls ++ [step] = before ++ .state true :: (after ++ [step]) := by
            rw [split, List.append_assoc, List.cons_append]
          exact .state longer number
    · exact .final (by simp)
    · exact .state rfl number

end Concat

namespace Builder

/-! ## What a builder gives -/

/-- The check that a builder makes is that of `Connects`. -/
theorem connects_iff {b : Builder L} {m : Move L} :
    b.connects m = true ↔ Connects b.count m := by
  rw [connects, Bool.and_eq_true, decide_eq_true_iff, decide_eq_true_iff]
  rfl

/-- A builder gives the automaton that it holds, or else tells the first move that leads
    astray or the first final state that is missing. -/
theorem build_cases (b : Builder L) :
    (∃ m, b.moves.find? (!b.connects ·) = some m ∧
      b.build = .error (.unknownState m.source m.target b.count)) ∨
    (b.moves.find? (!b.connects ·) = none ∧
      ∃ q, b.finals.toList.find? (b.count ≤ ·) = some q ∧
        b.build = .error (.unknownFinal q b.count)) ∨
    (b.moves.find? (!b.connects ·) = none ∧ b.finals.toList.find? (b.count ≤ ·) = none ∧
      ∃ a, b.build = .ok a ∧ a.count = b.count ∧ a.finals = b.finals ∧ a.moves = b.moves) := by
  rw [build]
  split
  next m astray => exact .inl ⟨m, astray, rfl⟩
  next connected =>
    split
    next q missing => exact .inr (.inl ⟨connected, q, missing, rfl⟩)
    next known => exact .inr (.inr ⟨connected, known, _, rfl, rfl, rfl, rfl⟩)

/-! ## Builders in step with their calls -/

/-- A new state is final if it was asked to be, and the others stay as they were. -/
theorem mem_finals_addState (b : Builder L) (final : Bool) (q : Nat) :
    q ∈ (b.addState final).2.finals ↔ q ∈ b.finals ∨ final = true ∧ b.count = q := by
  cases final with
  | false =>
      show q ∈ b.finals ↔ _
      simp
  | true =>
      show q ∈ b.finals.insert b.count ↔ _
      rw [Ascending.mem_insert, or_comm, eq_comm]
      simp

/-- Adding a state leaves the moves alone. -/
theorem moves_addState (b : Builder L) (final : Bool) :
    (b.addState final).2.moves = b.moves := by
  cases final <;> rfl

/-- The builder holds what the calls say. -/
structure Built [BEq L] (calls : List (BuildStep L)) (b : Builder L) : Prop where
  count : b.count = statesOf calls
  finals (q : Nat) : q ∈ b.finals ↔ Marks calls q
  /-- Of equal moves the first is held. -/
  moves : b.moves = (movesOf calls).eraseDups

section Step

variable [BEq L] {calls : List (BuildStep L)} {b : Builder L}

/-- A builder starts as after one call that adds the initial state. -/
theorem built_start (initial : Bool) : Built [.state initial] (start (L := L) initial) := by
  refine ⟨rfl, ?_, rfl⟩
  intro q
  rw [← List.nil_append [BuildStep.state initial], marks_concat]
  cases initial with
  | false => simp [start, Ascending.mem_def, Ascending.empty, not_marks_nil]
  | true =>
      show q ∈ Ascending.singleton 0 ↔ _
      simp [Ascending.mem_def, Ascending.singleton, not_marks_nil, statesOf, eq_comm]

namespace Built

variable [EquivBEq L]

/-- One call keeps a builder in step. -/
theorem perform (h : Built calls b) (step : BuildStep L) :
    Built (calls ++ [step]) (b.perform step).2 := by
  cases step with
  | state final =>
      refine ⟨?_, ?_, ?_⟩
      · rw [statesOf_concat, ← h.count]
        exact count_addState b final
      · intro q
        rw [marks_concat, ← h.finals, ← h.count]
        refine (mem_finals_addState b final q).trans ?_
        simp
      · rw [movesOf_concat]
        refine (moves_addState b final).trans (h.moves.trans ?_)
        exact congrArg _ (List.append_nil _).symm
  | final p =>
      refine ⟨?_, ?_, ?_⟩
      · rw [statesOf_concat]
        exact h.count
      · intro q
        rw [marks_concat, ← h.finals]
        refine Ascending.mem_insert.trans ?_
        simp [or_comm, eq_comm]
      · rw [movesOf_concat]
        exact h.moves.trans (congrArg _ (List.append_nil _).symm)
  | move m =>
      refine ⟨?_, ?_, ?_⟩
      · rw [statesOf_concat]
        exact h.count
      · intro q
        rw [marks_concat, ← h.finals]
        simp [Builder.perform, addMove]
      · rw [movesOf_concat]
        show (if b.moves.any (· == m) then b.moves else b.moves ++ [m]) =
          (movesOf calls ++ [m]).eraseDups
        have known : b.moves.any (· == m) = (movesOf calls).any (· == m) := by
          rw [h.moves]
          refine any_eraseDups ?_ _
          intro n n' same
          rw [Bool.eq_iff_iff]
          constructor
          · exact BEq.trans (BEq.symm same)
          · exact BEq.trans same
        rw [eraseDups_concat, ← h.moves, known]
        cases (movesOf calls).any (· == m) with
        | true => exact (List.append_nil _).symm
        | false => rfl

/-- What a builder holds after some calls carries over further calls. -/
theorem performAll (h : Built calls b) (steps : List (BuildStep L)) :
    Built (calls ++ steps) (b.performAll steps) := by
  induction steps generalizing calls b with
  | nil =>
      rw [List.append_nil]
      exact h
  | cons step steps ih =>
      rw [List.append_cons]
      exact ih (h.perform step)

end Built

end Step

/-! ## What a builder in step gives -/

namespace Built

section

variable [BEq L] {calls : List (BuildStep L)} {b : Builder L} (h : Built calls b)
include h

/-- Moves that are left out lead astray where equal ones do that are held. -/
theorem find?_moves : b.moves.find? (!b.connects ·) = (movesOf calls).find? (!b.connects ·) := by
  rw [h.moves]
  refine find?_eraseDups ?_ _
  intro m n same
  obtain ⟨source, target, -⟩ := Move.beq_iff.mp same
  rw [connects, connects, source, target]

/-- The builder finds no final state amiss just if every marked state was added. -/
theorem known_iff : b.finals.toList.find? (b.count ≤ ·) = none ↔
    ∀ q, Marks calls q → q < statesOf calls := by
  rw [List.find?_eq_none, ← h.count]
  refine forall_congr' ?_
  intro q
  rw [← h.finals q, ← Ascending.mem_def]
  simp

/-- The builder finds no move amiss just if all moves connect states that were added. -/
theorem connected_iff : b.moves.find? (!b.connects ·) = none ↔
    ∀ m ∈ movesOf calls, Connects (statesOf calls) m := by
  rw [h.find?_moves, List.find?_eq_none, ← h.count]
  refine forall₂_congr ?_
  intro m _
  rw [← connects_iff]
  simp

/-- Without an automaton to give, a builder tells what its calls miss. -/
theorem misses_of_error {e : BuildError} (failed : b.build = .error e) : Misses calls e := by
  rcases b.build_cases with
    ⟨m, astray, told⟩ | ⟨connected, q, missing, told⟩ | ⟨-, -, a, built, -⟩
  · obtain rfl := Except.error.inj (told.symm.trans failed)
    rw [h.find?_moves, List.find?_eq_some_iff_append] at astray
    obtain ⟨leads, before, after, split, first⟩ := astray
    rw [h.count]
    refine .move split ?_ ?_
    · intro n hn
      rw [← h.count, ← connects_iff]
      simpa using first n hn
    · rw [← h.count, ← connects_iff]
      simpa using leads
  · obtain rfl := Except.error.inj (told.symm.trans failed)
    rw [List.find?_eq_some_iff_append] at missing
    obtain ⟨beyond, before, after, split, first⟩ := missing
    have mem {p : Nat} : Marks calls p ↔ p ∈ before ++ q :: after := by
      rw [← h.finals p, Ascending.mem_def, split]
    rw [h.count] at beyond ⊢
    refine .final (h.connected_iff.mp connected) (mem.mpr (by simp)) (of_decide_eq_true beyond) ?_
    intro p marked missing
    rcases List.mem_append.mp (mem.mp marked) with earlier | later
    · rw [← h.count] at missing
      exact absurd missing (by simpa using first p earlier)
    · -- the final states ascend
      have sorted := b.finals.sorted
      rw [split] at sorted
      rcases List.mem_cons.mp later with rfl | later
      · exact Nat.le_refl p
      · have above := List.rel_of_pairwise_cons (List.pairwise_append.mp sorted).2.1 later
        exact Nat.le_of_lt above
  · rw [built] at failed
    cases failed

/-- Building succeeds just if all moves and all marks are about states that were added. -/
theorem exists_build_iff : (∃ a, b.build = .ok a) ↔
    (∀ m ∈ movesOf calls, Connects (statesOf calls) m) ∧
      ∀ q, Marks calls q → q < statesOf calls := by
  rw [← h.connected_iff, ← h.known_iff]
  rcases b.build_cases with
    ⟨m, astray, told⟩ | ⟨connected, q, missing, told⟩ | ⟨connected, known, a, built, -⟩
  · simp [told, astray]
  · simp [told, connected, missing]
  · exact ⟨fun _ => ⟨connected, known⟩, fun _ => ⟨a, built⟩⟩

end

/-- The automaton that a builder gives is what its calls say. -/
theorem isBuiltBy [Label L] {calls : List (BuildStep L)} {b : Builder L}
    (h : Built calls b) {a : DenseAutomaton L} (ok : b.build = .ok a) : a.IsBuiltBy calls := by
  rcases b.build_cases with
    ⟨m, -, told⟩ | ⟨-, q, -, told⟩ | ⟨-, -, a', built, count, finals, moves⟩
  · cases told.symm.trans ok
  · cases told.symm.trans ok
  · obtain rfl := Except.ok.inj (built.symm.trans ok)
    refine ⟨rfl, ?_, a'.finals.sorted, ?_, moves.trans h.moves, answersAlike_ofAutomaton a'⟩
    · show List.range a'.count = _
      rw [count, h.count]
    · intro q
      show q ∈ a'.finals ↔ _
      rw [finals]
      exact h.finals q

end Built

end Builder

/-- At any point of its construction, a state that is added is given the number of states
    so far, and the automaton can be given exactly when the states so far are those that
    moves and final states speak of, be they added before or after these.  It has just the
    states, the final states and the moves that were added, of equal moves the first, and
    answers as its lists do.  Otherwise the first move that leads astray is told, or else
    the smallest final state that is missing. -/
theorem build_performAll [Label L] [EquivBEq L] (initial : Bool) (steps : List (BuildStep L)) :
    let calls := .state initial :: steps
    let b := (Builder.start initial).performAll steps
    statesOf calls = 1 + statesOf steps ∧
    (∀ final, (b.perform (.state final)).1 = some (statesOf calls)) ∧
    ((∃ a, b.build = .ok a) ↔ (∀ m ∈ movesOf calls, Connects (statesOf calls) m) ∧
      ∀ q, Marks calls q → q < statesOf calls) ∧
    (∀ a, b.build = .ok a → a.IsBuiltBy calls) ∧
    ∀ e, b.build = .error e → Misses calls e := by
  intro calls b
  have built : Builder.Built calls b := (Builder.built_start initial).performAll steps
  refine ⟨?_, ?_, built.exists_build_iff, fun _ => built.isBuiltBy, fun _ => built.misses_of_error⟩
  · exact (List.countP_cons_of_pos rfl).trans (Nat.add_comm _ _)
  · intro final
    exact congrArg some built.count

/-- Calls that speak of two states before they add them, and of one move in two
    spellings. -/
def callsAhead : List (BuildStep CaseBlind) :=
  [.final 2, .move ⟨0, 2, ⟨"a"⟩⟩, .state false, .move ⟨0, 2, ⟨"A"⟩⟩, .move (.epsilon 2 1),
    .state false]

/-- With its last state the automaton can be given; without it the first of the moves is
    told. -/
theorem build_performAll_ahead :
    (∃ a, ((Builder.start true).performAll callsAhead).build = .ok a ∧
      Automaton.states a = [0, 1, 2] ∧ 0 ∈ Automaton.finals a ∧ 2 ∈ Automaton.finals a ∧
      Automaton.moves a = [⟨0, 2, ⟨"a"⟩⟩, .epsilon 2 1]) ∧
    Misses (.state true :: callsAhead.dropLast) (.unknownState 0 2 2) := by
  obtain ⟨-, -, -, built, -⟩ := build_performAll true callsAhead
  obtain ⟨-, -, -, -, failed⟩ := build_performAll true callsAhead.dropLast
  refine ⟨?_, failed _ rfl⟩
  have given : ((Builder.start true).performAll callsAhead).build.isOk = true := by
    decide +kernel
  cases ok : ((Builder.start true).performAll callsAhead).build with
  | error e =>
      rw [ok] at given
      cases given
  | ok a =>
      have made := built a ok
      refine ⟨a, rfl, made.states, (made.finals 0).mpr ?_, (made.finals 2).mpr ?_, made.moves⟩
      · exact .state (List.nil_append _).symm rfl
      · exact .final (by simp [callsAhead])

end DenseAutomaton

end FragmentGrammar
