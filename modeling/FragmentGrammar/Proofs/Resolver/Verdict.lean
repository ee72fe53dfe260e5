import FragmentGrammar.Automaton.Dense
import FragmentGrammar.Automaton.Listed
import FragmentGrammar.Label.CaseBlind
import FragmentGrammar.Proofs.Automaton.Building
import FragmentGrammar.Proofs.Automaton.Language
import FragmentGrammar.Proofs.Language
import FragmentGrammar.Proofs.Resolver.Answers
import Mathlib.Data.Set.Insert

/-! # What a verdict says of the language

    A fragment is judged by the shape of its automaton, but what is meant is its language.
    The verdict that it vanishes says that the empty word is its only word, no more and no
    less (`acceptsOnlyEpsilon_iff_language`): moves that read something but lie on no way
    to a final state do not count against it, and an automaton without words does not get
    it.

    The verdict that it is a terminal says that there is one word and that it has one
    label, so the two verdicts exclude each other.  The shape that is asked for is one of
    many for such a language, but the only one that two states without silent moves leave,
    as long as no move is listed twice (`singleTerminal_iff_language`). -/

namespace FragmentGrammar

variable {A L : Type} [Label L] [Automaton A L]

/-- The words of an automaton. -/
def Automaton.language (a : A) : Set (List L) :=
  {w | Automaton.Accepts a w}

/-- A language has one word when that is accepted and no other. -/
theorem Automaton.language_eq_singleton_iff {a : A} {v : List L} :
    language a = {v} ↔ ∀ w, Accepts a w ↔ w = v :=
  Set.ext_iff

/-- An automaton is said to accept only the empty word exactly when that is all of its
    language, and so never when the language is empty.  Just these automata vanish. -/
theorem acceptsOnlyEpsilon_iff_language [LawfulAutomaton A L] (a : A) :
    (Automaton.acceptsOnlyEpsilon a = true ↔ Automaton.language a = {[]}) ∧
    (Automaton.language a = ∅ → Automaton.acceptsOnlyEpsilon a = false) ∧
    (Verdict.of a = .vanishes ↔ Automaton.language a = {[]}) := by
  have said : Automaton.acceptsOnlyEpsilon a = true ↔ Automaton.language a = {[]} := by
    rw [Automaton.acceptsOnlyEpsilon_iff, Automaton.language_eq_singleton_iff]
  refine ⟨said, ?_, Verdict.of_eq_vanishes_iff.trans said⟩
  intro empty
  rw [← Bool.not_eq_true, said, empty]
  exact (Set.singleton_ne_empty _).symm

/-- Silent moves in a circle, a move to a state that leads nowhere, one from a state that
    is not reached, and states that are not listed. -/
def drifting : ListedAutomaton CaseBlind :=
  ⟨7, [], [9, 4, 9], [⟨7, 9, ⟨"eps"⟩⟩, ⟨9, 7, ⟨"EPS"⟩⟩, ⟨9, 3, ⟨"a"⟩⟩, ⟨3, 3, ⟨"Eps"⟩⟩,
    ⟨5, 9, ⟨"b"⟩⟩]⟩

/-- Circles and dead moves do not matter; an automaton without final states has no words
    and does not vanish. -/
theorem acceptsOnlyEpsilon_iff_language_drifting :
    Automaton.language drifting = {[]} ∧
    Automaton.language (DenseAutomaton.epsilon : DenseAutomaton CaseBlind) = {[]} ∧
    Automaton.language (⟨0, [0], [], [.epsilon 0 0]⟩ : ListedAutomaton CaseBlind) = ∅ ∧
    Automaton.acceptsOnlyEpsilon (⟨0, [0], [], [.epsilon 0 0]⟩ : ListedAutomaton CaseBlind) =
      false := by
  have wordless : Automaton.language
      (⟨0, [0], [], [.epsilon 0 0]⟩ : ListedAutomaton CaseBlind) = ∅ := by
    refine Set.eq_empty_of_forall_notMem ?_
    rintro w ⟨f, hf, -⟩
    cases hf
  have still : Automaton.acceptsOnlyEpsilon (DenseAutomaton.epsilon : DenseAutomaton CaseBlind) =
      true := by
    simp [DenseAutomaton.epsilon, Automaton.acceptsOnlyEpsilon, Automaton.acceptsEmpty,
      Automaton.readsSomething, Automaton.silentEdges, Ascending.mem_def, Ascending.singleton,
      closure, explore, successors, fresh]
  refine ⟨?_, (acceptsOnlyEpsilon_iff_language DenseAutomaton.epsilon).1.mp still, wordless,
    (acceptsOnlyEpsilon_iff_language _).2.1 wordless⟩
  refine (acceptsOnlyEpsilon_iff_language drifting).1.mp ?_
  have silent : (⟨7, 9, ⟨"eps"⟩⟩ : Move CaseBlind).isEpsilon = true ∧
      (⟨9, 7, ⟨"EPS"⟩⟩ : Move CaseBlind).isEpsilon = true ∧
      (⟨3, 3, ⟨"Eps"⟩⟩ : Move CaseBlind).isEpsilon = true := by decide +kernel
  have reads : (⟨9, 3, ⟨"a"⟩⟩ : Move CaseBlind).isEpsilon = false ∧
      (⟨5, 9, ⟨"b"⟩⟩ : Move CaseBlind).isEpsilon = false := by decide +kernel
  simp [drifting, Automaton.acceptsOnlyEpsilon, Automaton.acceptsEmpty,
    Automaton.readsSomething, Automaton.silentEdges, Automaton.edges, Automaton.backEdges, closure,
    explore, successors, fresh, silent, reads]

/-! ## Terminals -/

/-- Judges an automaton, but asks about the shape of a terminal first. -/
def Verdict.terminalFirst (a : A) : Verdict L :=
  match Automaton.singleTerminal a with
  | some l => .terminal l
  | none => if Automaton.acceptsOnlyEpsilon a then .vanishes else .embeds

/-- What has the shape of a terminal reads its label, and so does not vanish. -/
theorem acceptsOnlyEpsilon_of_singleTerminal [LawfulAutomaton A L] {a : A} {l : L}
    (h : Automaton.singleTerminal a = some l) : Automaton.acceptsOnlyEpsilon a = false := by
  rw [← Bool.not_eq_true, Automaton.acceptsOnlyEpsilon_iff]
  intro empty
  have accepted : Automaton.Accepts a [l] := (Automaton.accepts_iff_of_singleTerminal h).mpr rfl
  exact List.cons_ne_nil l [] ((empty [l]).mp accepted)

/-- Asking the other test first makes no difference when the queries are the default ones.
    -/
theorem Verdict.terminalFirst_eq_of [LawfulAutomaton A L] (a : A) :
    Verdict.terminalFirst a = Verdict.of a := by
  rw [terminalFirst, Verdict.of]
  cases single : Automaton.singleTerminal a with
  | none => rfl
  | some l => simp [acceptsOnlyEpsilon_of_singleTerminal single]

section Reading

variable {moves : List (Move L)} {p q : Nat} {l : L}

/-- Where every move reads something, a path that reads nothing stays where it is. -/
theorem Path.eq_of_nil (reads : ∀ m ∈ moves, m.isEpsilon = false) (h : Path moves p [] q) :
    p = q := by
  generalize hw : ([] : List L) = w at h
  cases h with
  | refl => rfl
  | silent hm he =>
      rw [reads _ hm] at he
      cases he
  | read => cases hw

/-- Where every move reads something, a path that reads one label is one move. -/
theorem Path.exists_move (reads : ∀ m ∈ moves, m.isEpsilon = false) (h : Path moves p [l] q) :
    ∃ m ∈ moves, m.source = p ∧ m.label = l ∧ m.target = q := by
  generalize hw : [l] = w at h
  cases h with
  | refl => cases hw
  | silent hm he =>
      rw [reads _ hm] at he
      cases he
  | @read m w q hm _ rest =>
      obtain ⟨rfl, rfl⟩ := List.cons.inj hw
      exact ⟨m, hm, rfl, rfl, rest.eq_of_nil reads⟩

end Reading

namespace DenseAutomaton

/-- The automaton was put together by a builder, or is one of the two that are at hand. -/
inductive Constructed : DenseAutomaton L → Prop
  | built {initial : Bool} {steps : List (BuildStep L)} {a : DenseAutomaton L} :
      ((Builder.start initial).performAll steps).build = .ok a → Constructed a
  | epsilon : Constructed epsilon
  | terminal (l : L) : Constructed (terminal l)

variable [EquivBEq L] {a : DenseAutomaton L} {l : L}

/-- No move is listed twice, nor two that are equal. -/
theorem Constructed.distinct (h : Constructed a) :
    a.moves.Pairwise fun m n => (n == m) = false := by
  cases h with
  | @built initial steps a ok =>
      have listed : a.moves = (movesOf ([.state initial] ++ steps)).eraseDups :=
        (((Builder.built_start initial).performAll steps).isBuiltBy ok).moves
      rw [listed]
      exact pairwise_eraseDups _
  | epsilon => exact .nil
  | terminal l => exact List.pairwise_singleton _ _

/-- Two states without silent moves that read one label are a terminal, unless a move is
    listed twice. -/
theorem exists_singleTerminal (distinct : a.moves.Pairwise fun m n => (n == m) = false)
    (two : a.count = 2) (reads : ∀ m ∈ a.moves, m.isEpsilon = false)
    (sole : SameLanguage (Automaton.Accepts a) (· = [l])) :
    ∃ l', Automaton.singleTerminal a = some l' ∧ (l' == l) = true := by
  have twin {w : List L} (hw : Automaton.Accepts a w) : SameWord [l] w := by
    obtain ⟨v, rfl, same⟩ := (sole w).mp (.of_mem hw)
    exact same
  have start_not_final : 0 ∉ a.finals := by
    intro final
    cases twin (w := []) ⟨0, final, .refl 0⟩
  have final_eq {f : Nat} (hf : f ∈ a.finals) : f = 1 := by
    have bound := a.finals_lt f hf
    have moved : f ≠ 0 := fun start => start_not_final (start ▸ hf)
    omega
  obtain ⟨v, ⟨f, hf, path⟩, same⟩ := (sole [l]).mpr (.of_mem rfl)
  obtain rfl := final_eq hf
  -- the word that is accepted takes one move, from the initial state to the final one
  obtain ⟨l', rfl⟩ : ∃ l', v = [l'] := by
    cases same with
    | cons _ rest =>
        cases rest
        exact ⟨_, rfl⟩
  obtain ⟨m, hm, source, rfl, target⟩ := path.exists_move reads
  have step : Path a.moves 0 [m.label] 1 := path
  have copies : ∀ n ∈ a.moves, (n == m) = true := by
    intro n hn
    obtain ⟨left, entered⟩ := a.moves_lt n hn
    obtain ⟨u, into, here⟩ : ∃ u, Path a.moves 0 u n.source ∧ (u = [] → n.source = 0) := by
      rcases Nat.le_one_iff_eq_zero_or_eq_one.mp (by omega : n.source ≤ 1) with start | final
      · exact ⟨[], start ▸ .refl _, fun _ => start⟩
      · exact ⟨[m.label], final ▸ step, by simp⟩
    obtain ⟨v, out, there⟩ : ∃ v, Path a.moves n.target v 1 ∧ (v = [] → n.target = 1) := by
      rcases Nat.le_one_iff_eq_zero_or_eq_one.mp (by omega : n.target ≤ 1) with start | final
      · exact ⟨[m.label], start ▸ step, by simp⟩
      · exact ⟨[], final ▸ .refl _, fun _ => final⟩
    -- a word that takes another move as well is too long
    have word := twin ⟨1, hf, into.append (.read hn (reads n hn) out)⟩
    have long := word.length_eq
    simp only [List.length_append, List.length_cons, List.length_nil] at long
    obtain rfl := List.length_eq_zero_iff.mp (by omega : u.length = 0)
    obtain rfl := List.length_eq_zero_iff.mp (by omega : v.length = 0)
    have label : (l == n.label) = true := (sameWord_cons.mp word).1
    have label' : (m.label == l) = true := (sameWord_cons.mp same).1
    exact Move.beq_iff.mpr ⟨(here rfl).trans source.symm, (there rfl).trans target.symm,
      BEq.symm (BEq.trans label' label)⟩
  have only : Automaton.moves a = [m] := eq_singleton_of_pairwise distinct hm copies
  have sink : Automaton.finals a = [1] := by
    have ascending := a.finals.sorted.imp fun {p q} (h : p < q) => beq_false_of_ne h.ne'
    exact eq_singleton_of_pairwise ascending hf fun q hq => beq_iff_eq.mpr (final_eq hq)
  refine ⟨m.label, ?_, (sameWord_cons.mp same).1⟩
  have count : Automaton.stateCount a = 2 := two
  rw [LawfulAutomaton.singleTerminal_eq, only, sink, count]
  simp [Automaton.soleLabel, reads m hm, source, target, Move.isLoop, Automaton.initial]

end DenseAutomaton

/-- What has the shape of a terminal reads the label of its move and has no other word, so
    it does not vanish and it does not matter which of the two is asked about first.  An
    automaton that was put together from two states without silent moves has that shape
    whenever one word of one label is all of its language. -/
theorem singleTerminal_iff_language [LawfulAutomaton A L] [EquivBEq L] :
    (∀ (a : A) (l : L), Automaton.singleTerminal a = some l →
      Label.isEpsilon l = false ∧ Automaton.language a = {[l]} ∧
      Automaton.acceptsOnlyEpsilon a = false) ∧
    (∀ a : A, Verdict.terminalFirst a = Verdict.of a) ∧
    ∀ a : DenseAutomaton L, a.Constructed → a.count = 2 → (∀ m ∈ a.moves, m.isEpsilon = false) →
      ∀ l, (∃ l', Automaton.singleTerminal a = some l' ∧ (l' == l) = true) ↔
        SameLanguage (Automaton.Accepts a) (· = [l]) := by
  refine ⟨?_, Verdict.terminalFirst_eq_of, ?_⟩
  · intro a l single
    obtain ⟨m, -, -, reads, -, -, rfl⟩ := Automaton.eq_of_singleTerminal single
    refine ⟨reads, ?_, acceptsOnlyEpsilon_of_singleTerminal single⟩
    exact Automaton.language_eq_singleton_iff.mpr
      fun _ => Automaton.accepts_iff_of_singleTerminal single
  · intro a made two reads l
    refine ⟨?_, DenseAutomaton.exists_singleTerminal made.distinct two reads⟩
    rintro ⟨l', single, same⟩
    refine .of_subset ?_ ?_
    · intro w accepted
      obtain rfl := (Automaton.accepts_iff_of_singleTerminal single).mp accepted
      exact ⟨[l], rfl, sameWord_cons.mpr ⟨BEq.symm same, sameWord_nil⟩⟩
    · rintro w rfl
      exact ⟨[l'], (Automaton.accepts_iff_of_singleTerminal single).mpr rfl,
        sameWord_cons.mpr ⟨same, sameWord_nil⟩⟩

/-- One move in two spellings, of which the second is not kept. -/
def spelledTwice : List (DenseAutomaton.BuildStep CaseBlind) :=
  [.move ⟨0, 1, ⟨"a"⟩⟩, .state true, .move ⟨0, 1, ⟨"A"⟩⟩]

/-- The label is the one that was told first, but the language is the same when that is
    spelled in another way. -/
theorem singleTerminal_iff_language_spelledTwice :
    ∃ a, ((DenseAutomaton.Builder.start false).performAll spelledTwice).build = .ok a ∧
      Automaton.singleTerminal a = some ⟨"a"⟩ ∧ Automaton.language a = {[⟨"a"⟩]} ∧
      Verdict.terminalFirst a = Verdict.of a ∧
      SameLanguage (Automaton.Accepts a) (· = [⟨"A"⟩]) := by
  obtain ⟨a, ok, count, finals, moves⟩ :
      ∃ a, ((DenseAutomaton.Builder.start false).performAll spelledTwice).build = .ok a ∧
        a.count = 2 ∧ a.finals = .singleton 1 ∧ a.moves = [⟨0, 1, ⟨"a"⟩⟩] :=
    ⟨_, rfl, rfl, rfl, rfl⟩
  have reads : (⟨0, 1, ⟨"a"⟩⟩ : Move CaseBlind).isEpsilon = false := by decide +kernel
  have single : Automaton.singleTerminal a = some ⟨"a"⟩ := by
    simp [Automaton.singleTerminal, Automaton.soleLabel, Ascending.singleton, Move.isLoop, count,
      finals, moves, reads]
  have same : ((⟨"a"⟩ : CaseBlind) == ⟨"A"⟩) = true := by decide +kernel
  obtain ⟨sound, order, complete⟩ := singleTerminal_iff_language (A := DenseAutomaton CaseBlind)
  refine ⟨a, ok, single, (sound a _ single).2.1, order a, ?_⟩
  refine (complete a (.built ok) count ?_ _).mp ⟨_, single, same⟩
  intro m hm
  rw [moves] at hm
  rw [List.mem_singleton.mp hm, reads]

end FragmentGrammar
