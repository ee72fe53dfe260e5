import FragmentGrammar.Proofs.Pattern.Language
import FragmentGrammar.Proofs.Resolver.ByText
import FragmentGrammar.Proofs.Resolver.History
import FragmentGrammar.Proofs.Resolver.Verdict

/-! # What becomes of a compiled pattern

    The automaton of a pattern is a ladder: every item that is not starred leads up by one
    state, repetitions stay where they are, and nothing leads down (`IsLadderOf`).  No state
    is idle there, so a pattern vanishes only if it has no items, and is a terminal only if
    it is a single class that is read once.  This is how a resolver treats every text that
    is compiled, whatever it has resolved before (`resolve_compilePattern`). -/

namespace FragmentGrammar

variable {is : List Item} {i : Item} {set : CharSet} {a : DenseAutomaton ClassLabel}

/-- The states lead one to the next, one for every item that is not starred, up to the
    last one, in which words end. -/
structure DenseAutomaton.IsLadderOf (a : DenseAutomaton ClassLabel) (is : List Item) : Prop where
  count : Automaton.stateCount a = is.countP (·.quantity ≠ .star) + 1
  finals : Automaton.finals a = [Automaton.stateCount a - 1]
  onward : ∀ m ∈ Automaton.moves a, m.target = m.source ∨ m.target = m.source + 1
  reached : ∀ q ∈ Automaton.states a, ∃ w, Path (Automaton.moves a) (Automaton.initial a) w q
  productive : ∀ q ∈ Automaton.states a, ∃ w, Automaton.AcceptsFrom a q w

/-! ## Climbing item by item -/

namespace Tail

variable {t : Tail} {loops : List CharSet} {m : Move ClassLabel} {p q : Nat}

/-- Moves lead up by one state at most, and from every state below the current one there is
    one that does. -/
structure Climbs (t : Tail) : Prop where
  onward : ∀ m ∈ t.builder.moves, m.target = m.source ∨ m.target = m.source + 1
  linked : ∀ q < t.current, ∃ m ∈ t.builder.moves, m.source = q ∧ m.target = q + 1

/-- One state and no move make a ladder. -/
theorem climbs_start : Climbs start where
  onward := List.forall_mem_nil _
  linked q below := absurd below (Nat.not_lt_zero q)

/-- A loop at the top adds no rung. -/
theorem Climbs.loop (h : t.Climbs) (l : ClassLabel) : (t.loop l).Climbs where
  onward := by
    intro m hm
    rcases mem_loop.mp hm with old | rfl
    · exact h.onward m old
    · exact .inl rfl
  linked := by
    intro q below
    obtain ⟨m, hm, ends⟩ := h.linked q below
    exact ⟨m, mem_loop.mpr (.inl hm), ends⟩

/-- A move to a new state is one rung more. -/
theorem Climbs.advance (h : t.Climbs) (sound : t.Sound loops) (l : ClassLabel) :
    (t.advance l).Climbs where
  onward := by
    intro m hm
    rcases mem_advance.mp hm with old | rfl
    · exact h.onward m old
    · exact .inr sound.count
  linked := by
    intro q below
    rw [current_advance sound] at below
    rcases Nat.lt_succ_iff_lt_or_eq.mp below with earlier | rfl
    · obtain ⟨m, hm, ends⟩ := h.linked q earlier
      exact ⟨m, mem_advance.mpr (.inl hm), ends⟩
    · exact ⟨_, mem_advance.mpr (.inr rfl), rfl, sound.count⟩

/-- Either way an item keeps the ladder. -/
theorem Climbs.add (h : t.Climbs) (sound : t.Sound loops) (i : Item) : (t.add i).Climbs := by
  obtain ⟨set, quantity⟩ := i
  cases quantity with
  | once => exact h.advance sound _
  | star => exact h.loop _
  | plus => exact (h.advance sound _).loop _

/-- By induction so do all items. -/
theorem Climbs.foldl_add (h : t.Climbs) (sound : t.Sound loops) (is : List Item) :
    (is.foldl Tail.add t).Climbs := by
  induction is generalizing t loops with
  | nil => exact h
  | cons i is ih => exact ih (h.add sound i) (sound.add i)

/-- Every state is on the way up from those below it. -/
theorem Climbs.exists_path (h : t.Climbs) (up : p ≤ q) (there : q ≤ t.current) :
    ∃ w, Path t.builder.moves p w q := by
  induction up with
  | refl => exact ⟨[], .refl p⟩
  | @step q _ ih =>
      obtain ⟨w, path⟩ := ih (Nat.le_of_succ_le there)
      obtain ⟨m, hm, rfl, target⟩ := h.linked q there
      obtain ⟨v, last⟩ := Path.of_move hm
      rw [target] at last
      exact ⟨w ++ v, path.append last⟩

/-- The current state goes up with every item that is not starred. -/
theorem Sound.current_add (h : t.Sound loops) (i : Item) :
    (t.add i).current = t.current + if i.quantity = .star then 0 else 1 := by
  obtain ⟨set, quantity⟩ := i
  cases quantity with
  | once => exact current_advance h (some set)
  | star => rfl
  | plus => exact current_advance h (some set)

/-- Each item that is no star climbs one rung. -/
theorem Sound.current_foldl_add (h : t.Sound loops) (is : List Item) :
    (is.foldl Tail.add t).current = t.current + is.countP (·.quantity ≠ .star) := by
  induction is generalizing t loops with
  | nil => rfl
  | cons i is ih =>
      rw [List.foldl_cons, ih (h.add i), h.current_add i, List.countP_cons]
      by_cases starred : i.quantity = .star
      · simp [starred]
      · simp [starred]
        omega

/-! ## Moves that are there -/

/-- Items only add moves. -/
theorem mem_add_of_mem (hm : m ∈ t.builder.moves) (i : Item) : m ∈ (t.add i).builder.moves := by
  obtain ⟨set, quantity⟩ := i
  cases quantity with
  | once => exact mem_advance.mpr (.inl hm)
  | star => exact mem_loop.mpr (.inl hm)
  | plus => exact mem_loop.mpr (.inl (mem_advance.mpr (.inl hm)))

theorem mem_foldl_add_of_mem (hm : m ∈ t.builder.moves) (is : List Item) :
    m ∈ (is.foldl Tail.add t).builder.moves := by
  induction is generalizing t with
  | nil => exact hm
  | cons i is ih => exact ih (mem_add_of_mem hm i)

/-- Every item leaves a move. -/
theorem exists_move_add (t : Tail) (i : Item) : ∃ m, m ∈ (t.add i).builder.moves := by
  obtain ⟨set, quantity⟩ := i
  cases quantity with
  | once => exact ⟨_, mem_advance.mpr (.inr rfl)⟩
  | star => exact ⟨_, mem_loop.mpr (.inr rfl)⟩
  | plus => exact ⟨_, mem_loop.mpr (.inr rfl)⟩

theorem exists_move_foldl_add (t : Tail) (some : is ≠ []) :
    ∃ m, m ∈ (is.foldl Tail.add t).builder.moves := by
  cases is with
  | nil => exact absurd rfl some
  | cons i is =>
      obtain ⟨m, hm⟩ := exists_move_add t i
      exact ⟨m, mem_foldl_add_of_mem hm is⟩

/-- An item that is read more than once adds a loop. -/
theorem exists_loop_add (repeats : i.quantity ≠ .once) :
    ∃ m ∈ (t.add i).builder.moves, m.isLoop = true := by
  obtain ⟨set, quantity⟩ := i
  cases quantity with
  | once => exact absurd rfl repeats
  | star => exact ⟨_, mem_loop.mpr (.inr rfl), by simp [Move.isLoop]⟩
  | plus => exact ⟨_, mem_loop.mpr (.inr rfl), by simp [Move.isLoop]⟩

/-- An item that repeats leaves a loop. -/
theorem exists_loop_foldl_add (hi : i ∈ is) (repeats : i.quantity ≠ .once) :
    ∃ m ∈ (is.foldl Tail.add t).builder.moves, m.isLoop = true := by
  induction is generalizing t with
  | nil => cases hi
  | cons j is ih =>
      rcases List.mem_cons.mp hi with rfl | later
      · obtain ⟨m, hm, loop⟩ := exists_loop_add (t := t) repeats
        exact ⟨m, mem_foldl_add_of_mem hm is, loop⟩
      · exact ih later

end Tail

/-! ## Compiled items -/

/-- The automaton that is built has as many states as were added. -/
theorem DenseAutomaton.Builder.count_of_build {b : Builder ClassLabel} (ok : b.build = .ok a) :
    a.count = b.count := by
  rcases b.build_cases with ⟨m, -, told⟩ | ⟨-, q, -, told⟩ | ⟨-, -, a', built, count, -⟩
  · cases told.symm.trans ok
  · cases told.symm.trans ok
  · obtain rfl := Except.ok.inj (built.symm.trans ok)
    exact count

/-- What compiled items come to is the automaton that ends where the last one does. -/
theorem exists_tail_of_compileItems (h : compileItems is = .ok a) :
    ∃ t loops, t = is.foldl Tail.add .start ∧ t.Sound loops ∧ t.Climbs ∧
      a.count = t.current + 1 ∧ a.moves = t.builder.moves ∧ a.finals.toList = [t.current] := by
  obtain ⟨loops, sound⟩ := Tail.sound_start.foldl_add is
  obtain ⟨a', closed, moves, finals⟩ := sound.exists_close
  obtain rfl := Except.ok.inj (closed.symm.trans h)
  have count := DenseAutomaton.Builder.count_of_build closed
  exact ⟨_, loops, rfl, sound, Tail.climbs_start.foldl_add Tail.sound_start is,
    count.trans sound.count, moves, finals⟩

/-- Compiled items are a ladder. -/
theorem isLadderOf_compileItems (h : compileItems is = .ok a) : a.IsLadderOf is := by
  obtain ⟨t, loops, rfl, sound, climbs, count, moves, finals⟩ := exists_tail_of_compileItems h
  have known {q : Nat} (hq : q ∈ Automaton.states a) : q ≤ (is.foldl Tail.add .start).current := by
    have below : q < a.count := List.mem_range.mp hq
    rw [count] at below
    exact Nat.le_of_lt_succ below
  refine ⟨?_, ?_, ?_, ?_, ?_⟩
  · show a.count = _
    rw [count, Tail.sound_start.current_foldl_add is]
    exact congrArg (· + 1) (Nat.zero_add _)
  · show a.finals.toList = [a.count - 1]
    rw [finals, count]
    rfl
  · show ∀ m ∈ a.moves, _
    rw [moves]
    exact climbs.onward
  · intro q hq
    show ∃ w, Path a.moves 0 w q
    rw [moves]
    exact climbs.exists_path (Nat.zero_le q) (known hq)
  · intro q hq
    show ∃ w, ∃ f ∈ a.finals.toList, Path a.moves q w f
    rw [moves, finals]
    obtain ⟨w, path⟩ := climbs.exists_path (known hq) (Nat.le_refl _)
    exact ⟨w, _, List.mem_singleton_self _, path⟩

/-- The verdict on the automaton that items are compiled to. -/
def itemsVerdict : List Item → Verdict ClassLabel
  | [] => .vanishes
  | [⟨set, .once⟩] => .terminal (some set)
  | _ => .embeds

/-- Without items a pattern vanishes. -/
theorem itemsVerdict_eq_vanishes_iff : itemsVerdict is = .vanishes ↔ is = [] := by
  fun_cases itemsVerdict is with
  | case1 => simp
  | case2 => simp
  | case3 _ some => simpa using some

/-- One class that is read once is a terminal. -/
theorem itemsVerdict_eq_terminal_iff {l : ClassLabel} :
    itemsVerdict is = .terminal l ↔ ∃ set, is = [⟨set, .once⟩] ∧ l = some set := by
  fun_cases itemsVerdict is with
  | case1 => simp
  | case2 set => simp [eq_comm]
  | case3 _ _ several =>
      constructor
      · intro h
        cases h
      · rintro ⟨set, one, -⟩
        exact absurd one (several set)

theorem verdict_epsilon : Verdict.of (.epsilon : DenseAutomaton ClassLabel) = .vanishes := by
  rw [Verdict.of_eq_vanishes_iff, Automaton.acceptsOnlyEpsilon_iff]
  have nowhere {p q : Nat} {w : List ClassLabel} (path : Path [] p w q) : w = [] := by
    cases path with
    | refl => rfl
    | silent hm => cases hm
    | read hm => cases hm
  intro w
  constructor
  · rintro ⟨f, -, path⟩
    exact nowhere path
  · rintro rfl
    exact ⟨0, List.mem_singleton_self 0, .refl 0⟩

/-- The automaton of a single class is a terminal. -/
theorem verdict_terminal (set : CharSet) :
    Verdict.of (.terminal (some set) : DenseAutomaton ClassLabel) = .terminal (some set) := by
  have single : Automaton.singleTerminal (.terminal (some set) : DenseAutomaton ClassLabel) =
      some (some set) := rfl
  rw [← Verdict.terminalFirst_eq_of, Verdict.terminalFirst, single]

/-- Items accept more than the empty word, as every state of a ladder is on a way
    through. -/
theorem acceptsOnlyEpsilon_compileItems (h : compileItems is = .ok a) (some : is ≠ []) :
    Automaton.acceptsOnlyEpsilon a = false := by
  have ladder := isLadderOf_compileItems h
  obtain ⟨t, loops, rfl, sound, -, -, moves, -⟩ := exists_tail_of_compileItems h
  obtain ⟨m, hm⟩ := Tail.exists_move_foldl_add .start some
  obtain ⟨set, label⟩ := sound.labelled m hm
  rw [← moves] at hm
  obtain ⟨source, target⟩ := a.moves_lt m hm
  obtain ⟨u, into⟩ := ladder.reached m.source (List.mem_range.mpr source)
  obtain ⟨v, f, hf, out⟩ := ladder.productive m.target (List.mem_range.mpr target)
  have accepted : Automaton.Accepts a (u ++ m.label :: v) :=
    ⟨f, hf, into.append (.read hm (isEpsilon_of_some label) out)⟩
  rw [← Bool.not_eq_true, Automaton.acceptsOnlyEpsilon_iff]
  intro empty
  have nothing := (empty _).mp accepted
  simp at nothing

/-- A ladder without loops has one move for every item, so only a single item that is read
    once has the shape of a terminal. -/
theorem singleTerminal_compileItems (h : compileItems is = .ok a)
    (several : ∀ set, is ≠ [⟨set, .once⟩]) : Automaton.singleTerminal a = none := by
  have ladder := isLadderOf_compileItems h
  obtain ⟨t, loops, rfl, -, -, -, moves, -⟩ := exists_tail_of_compileItems h
  rw [Option.eq_none_iff_forall_ne_some]
  intro l single
  obtain ⟨m, only, sink, -, source, apart, -⟩ := Automaton.eq_of_singleTerminal single
  have once : ∀ i ∈ is, i.quantity = .once := by
    intro i hi
    by_contra repeats
    obtain ⟨n, hn, loop⟩ := Tail.exists_loop_foldl_add (t := .start) hi repeats
    rw [← moves] at hn
    have listed : n ∈ Automaton.moves a := hn
    rw [only] at listed
    obtain rfl := List.mem_singleton.mp listed
    exact apart (of_decide_eq_true loop)
  have mem : m ∈ Automaton.moves a := only ▸ List.mem_singleton_self m
  have up := (ladder.onward m mem).resolve_left apart.symm
  have top := List.singleton_inj.mp (sink.symm.trans ladder.finals)
  have all : is.countP (·.quantity ≠ .star) = is.length := by
    rw [List.countP_eq_length]
    intro i hi
    simp [once i hi]
  rw [up, source, ladder.count, all] at top
  obtain ⟨⟨set, quantity⟩, rfl⟩ := List.length_eq_one_iff.mp top.symm
  obtain rfl : quantity = .once := once _ (List.mem_singleton_self _)
  exact several set rfl

/-- Items are judged by how many there are and whether one is read more than once. -/
theorem verdict_compileItems (h : compileItems is = .ok a) : Verdict.of a = itemsVerdict is := by
  unfold itemsVerdict
  split
  next =>
    obtain rfl := Except.ok.inj ((rfl : compileItems [] = .ok .epsilon).symm.trans h)
    exact verdict_epsilon
  next set =>
    obtain rfl := Except.ok.inj
      ((rfl : compileItems [⟨set, .once⟩] = .ok (.terminal (some set))).symm.trans h)
    exact verdict_terminal set
  next some several =>
    rw [Verdict.of, acceptsOnlyEpsilon_compileItems h some, singleTerminal_compileItems h several]
    rfl

/-! ## Compiled patterns -/

/-- The verdict on a pattern can be read off its text. -/
theorem verdict_compilePattern {text : String} (h : compilePattern text = .ok a) :
    ((Verdict.of a : Verdict ClassLabel) = .vanishes ↔ text = "()" ∨ text = "") ∧
    (∀ l, Verdict.of a = .terminal l ↔ ∃ set, ClassText set text.toList ∧ l = some set) ∧
    ((Verdict.of a : Verdict ClassLabel) = .embeds →
      ∃ is, PatternText is text.toList ∧ a.IsLadderOf is) := by
  by_cases named : text = "()"
  · rw [compilePattern, if_pos named] at h
    obtain rfl := Except.ok.inj h
    have unwritten (set : CharSet) : ¬ClassText set text.toList := by
      rw [named]
      intro written
      cases written
    rw [verdict_epsilon]
    refine ⟨by simp [named], ?_, ?_⟩
    · intro l
      constructor
      · intro h
        cases h
      · rintro ⟨set, written, -⟩
        exact absurd written (unwritten set)
    · intro h
      cases h
  · obtain ⟨is, written, compiled⟩ : ∃ is, PatternText is text.toList ∧ compileItems is = .ok a := by
      rw [compilePattern, if_neg named] at h
      split at h
      next => cases h
      next is read =>
        split at h
        next => cases h
        next a' compiled =>
          obtain rfl := Except.ok.inj h
          exact ⟨is, readItems?_eq_some_iff.mp read, compiled⟩
    have empty : is = [] ↔ text = "()" ∨ text = "" := by
      rw [or_iff_right named, ← String.toList_eq_nil_iff, ← patternText_nil_iff]
      exact ⟨fun none => none ▸ written, written.unique⟩
    have single (set : CharSet) : is = [⟨set, .once⟩] ↔ ClassText set text.toList := by
      rw [← patternText_once_iff]
      exact ⟨fun one => one ▸ written, written.unique⟩
    rw [verdict_compileItems compiled, itemsVerdict_eq_vanishes_iff]
    refine ⟨empty, ?_, fun _ => ⟨is, written, isLadderOf_compileItems compiled⟩⟩
    intro l
    rw [itemsVerdict_eq_terminal_iff]
    simp only [single]

/-- Whatever has been resolved before, a text that is compiled as a pattern vanishes exactly
    if it is empty or `()`, and is a terminal exactly if it is written as a single class,
    which is then its label.  Every other one is embedded, as a ladder. -/
theorem resolve_compilePattern (earlier : List String) {text : String}
    (compiled : compilePattern text = .ok a) :
    let r := ((Resolver.empty : Resolver (DenseAutomaton ClassLabel) ClassLabel).resolveAll
      (.ofFunction compilePattern) earlier ()).2.1
    let now := r.resolve (.ofFunction compilePattern) text ()
    (now.answer = .ok none ↔ text = "()" ∨ text = "") ∧
    (∀ t, now.answer = .ok (some (.terminal t)) ↔
      ∃ set, ClassText set text.toList ∧ t = ⟨some set, text⟩) ∧
    (¬(text = "()" ∨ text = "") → (¬∃ set, ClassText set text.toList) →
      ∃ id, now.answer = .ok (some (.nonterminal (.entry id))) ∧
        now.resolver.recorded[id]? = some (id, a) ∧
        ∃ is, PatternText is text.toList ∧ a.IsLadderOf is) := by
  intro r now
  have byText : (Compiler.ofFunction compilePattern).AnswersBy compilePattern := fun _ _ => rfl
  obtain ⟨mid, learnt, resolver⟩ :=
    Resolver.resolveAll_of_answersBy (L := ClassLabel) byText (List.forall_mem_nil _) earlier ()
  obtain ⟨known, -, found, answer, after⟩ :=
    Resolver.resolve_of_answersBy (L := ClassLabel) byText learnt compiled ()
  rw [← resolver] at answer after
  obtain ⟨vanishes, terminal, embeds⟩ := verdict_compilePattern compiled
  have none : symbolOf (L := ClassLabel) known text = none ↔ text = "()" ∨ text = "" := by
    rw [symbolOf_eq_none_iff found, ← Verdict.of_eq_vanishes_iff, vanishes]
  have class_of (t : Terminal ClassLabel) : symbolOf known text = some (.terminal t) ↔
      ∃ set, ClassText set text.toList ∧ t = ⟨some set, text⟩ := by
    rw [symbolOf_eq_terminal_iff found]
    simp only [terminal]
    constructor
    · rintro ⟨l, ⟨set, written, rfl⟩, rfl⟩
      exact ⟨set, written, rfl⟩
    · rintro ⟨set, written, rfl⟩
      exact ⟨_, ⟨set, written, rfl⟩, rfl⟩
  have answer : now.answer = .ok (symbolOf known text) := answer
  have after : now.resolver = .knowing known := after
  simp only [answer, after, Except.ok.injEq]
  refine ⟨none, class_of, ?_⟩
  intro some other
  have verdict : Verdict.of a = (.embeds : Verdict ClassLabel) := by
    cases hv : (Verdict.of a : Verdict ClassLabel) with
    | vanishes => exact absurd (vanishes.mp hv) some
    | terminal l =>
        obtain ⟨set, written, -⟩ := (terminal l).mp hv
        exact absurd ⟨set, written⟩ other
    | embeds => rfl
  refine ⟨_, symbolOf_of_embeds found verdict, ?_, embeds verdict⟩
  rw [getElem?_recorded, getElem?_embeddedOf found verdict]
  rfl

/-- Behind texts that vanish, that are terminals and that are refused, a starred class and
    one that repeats are embedded with one state between them and the initial one. -/
theorem resolve_compilePattern_repeated :
    let r := ((Resolver.empty : Resolver (DenseAutomaton ClassLabel) ClassLabel).resolveAll
      (.ofFunction compilePattern) ["()", "x", "[", "[ab]*"] ()).2.1
    ∃ a id, compilePattern "[ab]*c+" = .ok a ∧
      (r.resolve (.ofFunction compilePattern) "[ab]*c+" ()).answer =
        .ok (some (.nonterminal (.entry id))) ∧
      Automaton.stateCount a = 2 ∧ Automaton.finals a = [1] := by
  intro r
  have last : PatternText [⟨.singleton 'c', .plus⟩] ['c', '+'] :=
    .cons (.char (by decide)) (.plus []) .nil
  have members : ClassText (.ofList ['a', 'b']) ['[', 'a', 'b', ']'] := .members (by decide)
  have written : PatternText [⟨.ofList ['a', 'b'], .star⟩, ⟨.singleton 'c', .plus⟩]
      "[ab]*c+".toList := .cons members (.star _) last
  obtain ⟨a, compiled, -⟩ := exists_compilePattern (by decide : "[ab]*c+" ≠ "()") written
  obtain ⟨-, -, embedded⟩ := resolve_compilePattern ["()", "x", "[", "[ab]*"] compiled
  have other : ¬∃ set, ClassText set "[ab]*c+".toList := by
    rintro ⟨set, single⟩
    have one := written.unique (patternText_once_iff.mpr single)
    simp at one
  obtain ⟨id, answer, -, is, text, ladder⟩ := embedded (by decide) other
  obtain rfl := written.unique text
  have count : Automaton.stateCount a = 2 := ladder.count
  refine ⟨a, id, compiled, answer, count, ?_⟩
  rw [ladder.finals, count]

end FragmentGrammar
