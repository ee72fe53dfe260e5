import FragmentGrammar.Proofs.Embedding.Relabel
import FragmentGrammar.Proofs.Parser.Segmentation
import FragmentGrammar.Proofs.Parser.Translation

/-! # Labels are only compared

    A reader does not notice when labels are mapped by a function that keeps equality and
    the marker (`Translation.relabelling`): what is written is mapped, and the compiler is
    asked the same.  The blocks of the relabelled automata are the relabelled blocks up to
    the equality of labels, so the grammar is the relabelled grammar (`parse_relabel`). -/

namespace FragmentGrammar

variable {σ E A L M : Type} [Automaton A L]

/-- The compiler whose automata are relabelled, move by move. -/
def Compiler.relabel (h : L → M) (c : Compiler σ E A) : Compiler σ E (ListedAutomaton M) :=
  fun text s => ((c text s).1.map (relabelled h), (c text s).2)

variable [Label L] [Label M] {h : L → M}

/-- Labels may be mapped. -/
def Translation.relabelling [LawfulAutomaton A L] (ok : IsRelabelling h) (c : Compiler σ E A) :
    Translation c (c.relabel h) where
  label := h
  automaton := relabelled h
  place := id
  state := id
  verdict _ := verdict_relabelled ok
  asked _ _ := rfl

/-- The grammar of relabelled automata is the relabelled grammar. -/
theorem grammar_relabelled [EquivBEq L] [EquivBEq M] (ok : IsRelabelling h) (w : Written A L) :
    ((w.map h (relabelled h)).grammar == w.grammar.relabel h) = true := by
  have blocks : ((w.map h (relabelled h)).embedded ==
      w.embedded.map (Production.relabel h)) = true := by
    rw [Written.embedded_eq, Written.embedded_eq, Written.map, List.flatMap_map, List.map_flatMap]
    refine flatMap_beq_flatMap ?_
    intro r _
    exact embed_relabelled ok r.1 r.2
  refine Grammar.beq_iff.mpr ⟨rfl, ?_⟩
  show (w.productions.map (Production.relabel h) ++ (w.map h (relabelled h)).embedded ==
    (w.productions ++ w.embedded).map (Production.relabel h)) = true
  rw [List.map_append]
  exact append_beq_append BEq.rfl blocks

/-! ## Whole sources -/

/-- Labels matter only through their equality and the marker.  A source whose automata are
    relabelled is refused with the same error, or parsed to the relabelled grammar, up to
    the equality of labels; the automata have the same numbers, and the compiler is asked
    for the same texts and ends in the same state. -/
theorem parse_relabel [LawfulAutomaton A L] [EquivBEq L] [EquivBEq M] (ok : IsRelabelling h)
    (c : Compiler σ E A) (source : String) (s : σ) :
    (∀ e, (parse (c.relabel h) source s).result = .error e ↔
      (parse c source s).result = .error e) ∧
    (∀ g, (parse c source s).result = .ok g → ∃ g' w,
      (parse (c.relabel h) source s).result = .ok g' ∧ (g' == g.relabel h) = true ∧
      (read c source s).result = .ok w ∧ (read (c.relabel h) source s).result =
        .ok ⟨w.start, w.productions.map (Production.relabel h),
          w.recorded.map fun r => (r.1, relabelled h r.2)⟩) ∧
    (parse (c.relabel h) source s).state = (parse c source s).state ∧
    (parse (c.relabel h).recorded source (s, [])).state.2.map (·.1) =
      (parse c.recorded source (s, [])).state.2.map (·.1) := by
  obtain ⟨result, state⟩ := (Translation.relabelling ok c).read_eq rfl source s
  obtain ⟨-, calls⟩ := (Translation.relabelling ok c).recorded.read_eq rfl source (s, [])
  have result : (read (c.relabel h) source s).result =
      (read c source s).result.map (Written.map h (relabelled h)) := result
  refine ⟨?_, ?_, ?_, ?_⟩
  · intro e
    rw [parse_result, parse_result, result]
    cases (read c source s).result with
    | error e' => simp [Except.map]
    | ok w => simp [Except.map]
  · intro g hg
    obtain ⟨w, hw, rfl⟩ := parse_eq_ok_iff.mp hg
    rw [hw] at result
    exact ⟨_, w, parse_eq_ok_iff.mpr ⟨_, result, rfl⟩, grammar_relabelled ok w, hw, result⟩
  · rw [parse_state, parse_state]
    exact state
  · have calls : (read (c.relabel h).recorded source (s, [])).state.2 = (read c.recorded source
        (s, [])).state.2.map fun call => (call.1, call.2.map (relabelled h)) :=
      congrArg Prod.snd calls
    rw [parse_state, parse_state, calls, List.map_map]
    rfl

/-- Takes all labels that read something for one. -/
def mergeLetters (l : CaseBlind) : CaseBlind :=
  if Label.isEpsilon l then Label.epsilon else ⟨"x"⟩

theorem isRelabelling_mergeLetters : IsRelabelling mergeLetters where
  respects {l l'} same := by
    rw [mergeLetters, mergeLetters, isEpsilon_congr same]
    exact BEq.rfl
  keeps l := by
    rw [mergeLetters]
    cases he : Label.isEpsilon l with
    | true =>
        rw [if_pos rfl]
        exact ⟨fun _ => rfl, fun _ => BEq.rfl⟩
    | false =>
        rw [if_neg Bool.false_ne_true]
        constructor
        · intro marked
          exact absurd marked (by decide)
        · intro marked
          cases marked

/-- Two letters become one, and the grammar is still the relabelled one. -/
theorem parse_relabel_mergeLetters :
    ((⟨"a"⟩ : CaseBlind) == ⟨"b"⟩) = false ∧ mergeLetters ⟨"a"⟩ = mergeLetters ⟨"b"⟩ ∧
    ∃ g g', (parse letters "S -> a* b | ~" ()).result = .ok g ∧
      (parse (letters.relabel mergeLetters) "S -> a* b | ~" ()).result = .ok g' ∧
      (g' == g.relabel mergeLetters) = true := by
  have orderly : Orderly (tokens "S -> a* b | ~") := by
    decide +kernel
  obtain ⟨g, h⟩ := exists_parse_ok orderly (consult_ok letters_total _ ())
  obtain ⟨-, parsed, -⟩ :=
    parse_relabel isRelabelling_mergeLetters letters "S -> a* b | ~" ()
  obtain ⟨g', w, h', same, -⟩ := parsed g h
  exact ⟨by decide, rfl, g, g', h, h', same⟩

end FragmentGrammar
