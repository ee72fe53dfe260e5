import FragmentGrammar.Automaton.Listed
import FragmentGrammar.Label.CaseBlind
import FragmentGrammar.Proofs.Parser.Acceptance

/-! # The written productions are the rules of the source

    Where a source is accepted, cutting its tokens into segments gives as many rules as
    productions were written, in the same order, and each production is its rule with
    every fragment replaced by the symbol that it leaves (`read_writes`).  So writing
    with one token of memory and cutting with one token in sight come to the same, and
    nothing is lost, written twice or moved. -/

namespace FragmentGrammar

variable {σ E A L : Type} [Automaton A L] [Label L]
variable {c : Compiler σ E A} {source : String} {s : σ}

theorem parse_state (c : Compiler σ E A) (source : String) (s : σ) :
    (parse c source s).state = (read c source s).state := by
  rw [parse]
  cases (read c source s).result <;> rfl

theorem parse_result (c : Compiler σ E A) (source : String) (s : σ) :
    (parse c source s).result = (read c source s).result.map Written.grammar := by
  rw [parse]
  cases (read c source s).result <;> rfl

/-- A grammar is what was written in its source, completed. -/
theorem parse_eq_ok_iff {g : Grammar L} :
    (parse c source s).result = .ok g ↔
      ∃ w : Written A L, (read c source s).result = .ok w ∧ w.grammar = g := by
  rw [parse]
  cases (read c source s).result with
  | error e => simp
  | ok w => simp

/-- A source is refused where its reading is, and for the same reason. -/
theorem parse_eq_error_iff {e : ParseError E} :
    (parse c source s).result = .error e ↔ (read c source s).result = .error e := by
  rw [parse]
  cases (read c source s).result with
  | error e' => simp
  | ok w => simp

/-- What is written in an accepted source are the rules that it is cut into. -/
theorem read_writes {w : Written A L} (h : (read c source s).result = .ok w) :
    ∃ first second rest rules, tokens source = first :: second :: rest ∧
      first.kind = .nonterminal ∧ second.kind = .arrow ∧ CutInto first.source rest rules ∧
      w.start = .named first.source ∧
      w.productions =
        rules.map (Rule.production (symbolOf (c.automata (tokens source) s))) := by
  obtain ⟨before, t, d, s', split, stop, rfl, follows, -⟩ := read_ok h
  obtain ⟨first, second, more, rfl, hf, hs, start⟩ := follows.opened
  obtain ⟨rules, cut, productions⟩ := follows.finish stop
  rw [start] at cut
  refine ⟨first, second, more ++ [t], rules, split, hf, hs, cut, ?_, productions⟩
  rw [← start]
  rfl

/-- The start symbol of a parsed grammar is the head of its first production. -/
theorem exists_first_production {g : Grammar L} (h : (parse c source s).result = .ok g) :
    ∃ p ps, g.productions = p :: ps ∧ p.head = g.start := by
  obtain ⟨w, hw, rfl⟩ := parse_eq_ok_iff.mp h
  obtain ⟨first, second, rest, rules, -, -, -, cut, start, productions⟩ := read_writes hw
  obtain ⟨rule, first_rule, head⟩ := Option.map_eq_some_iff.mp cut.head_eq
  obtain ⟨later, rfl⟩ := List.head?_eq_some_iff.mp first_rule
  refine ⟨_, _, congrArg (· ++ w.embedded) productions, ?_⟩
  show Nonterminal.named rule.head = w.start
  rw [head, start]

/-- In an accepted source every fragment has its automaton, and those that are embedded
    are recorded. -/
theorem read_consulted {w : Written A L} (h : (read c source s).result = .ok w) :
    (∃ s', Consulted c s (tokens source)
      (.knowing (c.automata (tokens source) s) : Resolver A L) s') ∧
    w.recorded = (Resolver.knowing (c.automata (tokens source) s) : Resolver A L).recorded := by
  obtain ⟨_, _, d, s', _, _, rfl, _, consulted⟩ := read_ok h
  have known := consulted.resolver
  rw [known] at consulted
  refine ⟨⟨s', consulted⟩, ?_⟩
  rw [← known]
  rfl

theorem countP_isBreak (ts : List Token) :
    ts.countP (·.kind.isBreak) = ts.countP (·.kind = .bar) + ts.countP (·.kind = .arrow) := by
  induction ts with
  | nil => rfl
  | cons t ts ih =>
      rw [List.countP_cons, List.countP_cons, List.countP_cons, ih]
      cases t.kind <;> simp [TokenKind.isBreak] <;> omega

/-- There is a production for every bar and every arrow. -/
theorem length_productions {w : Written A L} (h : (read c source s).result = .ok w) :
    w.productions.length =
      (tokens source).countP (·.kind = .bar) + (tokens source).countP (·.kind = .arrow) := by
  obtain ⟨before, t, d, s', split, stop, rfl, follows, -⟩ := read_ok h
  rw [follows.length_finish, ← countP_isBreak, split, List.countP_append]
  simp [stop, TokenKind.isBreak]

/-- The fragments of an accepted source leave what they are resolved to. -/
theorem resolveAll_fragmentsOf {w : Written A L} (h : (read c source s).result = .ok w) :
    ((Resolver.empty : Resolver A L).resolveAll c (fragmentsOf (tokens source)) s).1.map (·.1) =
      (fragmentsOf (tokens source)).map fun text =>
        .ok (symbolOf (c.automata (tokens source) s) text) := by
  obtain ⟨⟨_, consulted⟩, -⟩ := read_consulted h
  have nothing : (Resolver.empty : Resolver A L) = .knowing [] := rfl
  rw [nothing, resolveAll_knowing (fun _ _ => List.lookup_nil) (nodup_fragmentsOf _)
    consulted.automata]
  rfl

/-- The productions written for an accepted source are, in order, the rules that its
    tokens are cut into, each fragment replaced by what it resolves to, if anything. -/
theorem parse_writes_rules {g : Grammar L} (h : (parse c source s).result = .ok g) :
    ∃ (w : Written A L) (first second : Token) (rest : List Token) (rules : List Rule)
      (meaning : String → Option (Symbol L)),
      (read c source s).result = .ok w ∧ g = w.grammar ∧
      tokens source = first :: second :: rest ∧
      first.kind = .nonterminal ∧ second.kind = .arrow ∧
      CutInto first.source rest rules ∧ rulesOf first.source rest = rules ∧
      ((Resolver.empty : Resolver A L).resolveAll c (fragmentsOf (tokens source)) s).1.map (·.1) =
        (fragmentsOf (tokens source)).map (fun text => .ok (meaning text)) ∧
      w.productions = rules.map (Rule.production meaning) ∧
      w.productions.length =
        (tokens source).countP (·.kind = .bar) + (tokens source).countP (·.kind = .arrow) ∧
      w.start = .named first.source ∧ w.productions.head?.map (·.head) = some w.start := by
  obtain ⟨w, hw, rfl⟩ := parse_eq_ok_iff.mp h
  obtain ⟨first, second, rest, rules, split, hf, hs, cut, start, productions⟩ := read_writes hw
  refine ⟨w, first, second, rest, rules, _, hw, rfl, split, hf, hs, cut, cut.rulesOf_eq,
    resolveAll_fragmentsOf hw, productions, length_productions hw, start, ?_⟩
  have head := congrArg (Option.map Nonterminal.named) cut.head_eq
  rw [Option.map_map] at head
  rw [productions, start, List.head?_map, Option.map_map]
  exact head

/-- A compiler that takes `~` for the empty word, `a*` for any number of letters `a`, and
    any other text for one letter. -/
def letters : Compiler Unit String (ListedAutomaton CaseBlind) :=
  .ofFunction fun text => .ok <|
    if text = "~" then ⟨0, [0], [0], []⟩
    else if text = "a*" then ⟨0, [0], [0], [⟨0, 0, ⟨"a"⟩⟩]⟩
    else ⟨0, [0, 1], [1], [⟨0, 1, ⟨text⟩⟩]⟩

theorem letters_total (text : String) (s : Unit) : ∃ a, (letters text s).1 = .ok a :=
  ⟨_, rfl⟩

theorem parse_writes_rules_letters :
    ∃ w : Written (ListedAutomaton CaseBlind) CaseBlind,
      (read letters "S -> ~ T -> a* | ~ |" ()).result = .ok w ∧ w.productions.length = 4 := by
  have orderly : Orderly (tokens "S -> ~ T -> a* | ~ |") := by
    decide +kernel
  obtain ⟨g, h⟩ := exists_parse_ok orderly (consult_ok letters_total _ ())
  obtain ⟨w, _, _, _, _, _, hw, -, -, -, -, -, -, -, -, count, -⟩ :=
    parse_writes_rules h
  refine ⟨w, hw, ?_⟩
  rw [count]
  decide +kernel

end FragmentGrammar
