import FragmentGrammar.Ascending
import FragmentGrammar.Automaton

/-! # Automata over dense states

    The states are the numbers below a count and the initial state is `0`.  Moves and
    final states are only about states that exist; the type says so.  Such automata are
    put together by a builder, which may mention a state before adding it: whether all
    states exist is settled at the end, and then the first move that leads astray is
    reported, or else the smallest final state that is missing. -/

namespace FragmentGrammar

/-- An automaton whose states are the numbers below `count`. -/
structure DenseAutomaton (L : Type) where
  count : Nat
  finals : Ascending Nat
  moves : List (Move L)
  count_pos : 0 < count
  finals_lt : ∀ q ∈ finals, q < count
  moves_lt : ∀ m ∈ moves, m.source < count ∧ m.target < count

/-- Why a builder has no automaton to give. -/
inductive BuildError where
  /-- A move leaves or enters a state that was never added. -/
  | unknownState (source target count : Nat)
  /-- A final state was never added. -/
  | unknownFinal (state count : Nat)
  deriving DecidableEq

/-- What is said about a failed build. -/
def BuildError.message : BuildError → String
  | .unknownState source target count =>
    "move (" ++ source.repr ++ ", " ++ target.repr ++
      ") refers to a state that does not exist (state count " ++ count.repr ++ ")"
  | .unknownFinal state count =>
    "final state " ++ state.repr ++ " does not exist (state count " ++ count.repr ++ ")"

namespace DenseAutomaton

variable {L : Type}

instance : Automaton (DenseAutomaton L) L where
  initial _ := 0
  states a := List.range a.count
  finals a := a.finals.toList
  moves a := a.moves
  isFinal a q := q ∈ a.finals
  stateCount a := a.count

instance : LawfulAutomaton (DenseAutomaton L) L where
  isFinal_eq a q := (List.contains_eq_mem q a.finals.toList).symm
  stateCount_eq a := (List.length_range (n := a.count)).symm
  movesFrom_eq _ _ := rfl
  acceptsOnlyEpsilon_eq _ := rfl
  singleTerminal_eq _ := rfl

instance [BEq L] : BEq (DenseAutomaton L) where
  beq a b := a.count == b.count && decide (a.finals = b.finals) && a.moves == b.moves

/-- One state, which is initial and final, and no moves. -/
def epsilon : DenseAutomaton L where
  count := 1
  finals := .singleton 0
  moves := []
  count_pos := Nat.one_pos
  finals_lt := by simp [Ascending.mem_def, Ascending.singleton]
  moves_lt := by simp

/-- Two states with a single move from the initial one to the final one. -/
def terminal (l : L) : DenseAutomaton L where
  count := 2
  finals := .singleton 1
  moves := [⟨0, 1, l⟩]
  count_pos := Nat.two_pos
  finals_lt q hq := by
    obtain rfl := List.mem_singleton.mp hq
    exact Nat.one_lt_two
  moves_lt m hm := by
    obtain rfl := List.mem_singleton.mp hm
    exact ⟨Nat.two_pos, Nat.one_lt_two⟩

/-- An automaton under construction.  The states added so far are those below `count`;
    moves and final states may be ahead of them. -/
structure Builder (L : Type) where
  count : Nat
  finals : Ascending Nat
  moves : List (Move L)
  count_pos : 0 < count

namespace Builder

/-- A builder that has the initial state only. -/
def start (final : Bool) : Builder L where
  count := 1
  finals := if final then .singleton 0 else .empty
  moves := []
  count_pos := Nat.one_pos

/-- Marks `q` as final. -/
def markFinal (b : Builder L) (q : Nat) : Builder L :=
  { b with finals := b.finals.insert q }

/-- Adds a state and gives its number, the next one that is free. -/
def addState (b : Builder L) (final : Bool) : Nat × Builder L :=
  let grown := { b with count := b.count + 1, count_pos := Nat.succ_pos _ }
  (b.count, if final then grown.markFinal b.count else grown)

/-- Adds a move behind the others, unless an equal one is there. -/
def addMove [BEq L] (b : Builder L) (m : Move L) : Builder L :=
  { b with moves := if b.moves.any (· == m) then b.moves else b.moves ++ [m] }

@[simp] theorem count_addState (b : Builder L) (final : Bool) :
    (b.addState final).2.count = b.count + 1 := by
  cases final <;> rfl

/-- Both ends of the move are states. -/
def connects (b : Builder L) (m : Move L) : Bool :=
  m.source < b.count && m.target < b.count

/-- The automaton that has been put together, if all its states exist. -/
def build (b : Builder L) : Except BuildError (DenseAutomaton L) :=
  match hm : b.moves.find? (!b.connects ·) with
  | some m => .error (.unknownState m.source m.target b.count)
  | none =>
    match hf : b.finals.toList.find? (b.count ≤ ·) with
    | some q => .error (.unknownFinal q b.count)
    | none => .ok {
        count := b.count
        finals := b.finals
        moves := b.moves
        count_pos := b.count_pos
        finals_lt := fun q hq => by simpa using List.find?_eq_none.mp hf q hq
        moves_lt := fun m h => by simpa [connects] using List.find?_eq_none.mp hm m h }

end Builder

/-- One call to a builder. -/
inductive BuildStep (L : Type) where
  /-- Add a state, final or not. -/
  | state (final : Bool)
  /-- Mark a state as final. -/
  | final (q : Nat)
  /-- Add a move. -/
  | move (m : Move L)

namespace Builder

/-- Makes one call.  Adding a state answers its number. -/
def perform [BEq L] (b : Builder L) : BuildStep L → Option Nat × Builder L
  | .state final => let r := b.addState final; (some r.1, r.2)
  | .final q => (none, b.markFinal q)
  | .move m => (none, b.addMove m)

/-- Makes calls one after the other. -/
def performAll [BEq L] (b : Builder L) (steps : List (BuildStep L)) : Builder L :=
  steps.foldl (fun b step => (b.perform step).2) b

end Builder

end DenseAutomaton

end FragmentGrammar
