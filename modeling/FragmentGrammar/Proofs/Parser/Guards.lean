import FragmentGrammar.Proofs.Lexer.Positions
import FragmentGrammar.Proofs.Parser.Segmentation

/-! # What a reader guards against never happens

    A reader is ready for a stream that ends without saying so, for a name that is not at
    the end of the body, for text that is cut within a character.  None of it comes up
    (`parse_guarded`): a stream has an end and no turn goes on from there, a name that was
    read last has been pushed last, and spans end between characters.  Each follows from an
    invariant of its own, and all of them hold at every step (`Reads.guarded`). -/

namespace FragmentGrammar

variable {σ E A L : Type} [Automaton A L] [Label L]
variable {c : Compiler σ E A} {s s₀ : σ} {source : String} {before : List Token}

/-- What a reader may rely on when the tokens `before` of a source have led to this stage. -/
structure Stage.Guarded (c : Compiler σ E A) (source : String) (before : List Token)
    (stage : Stage A L) (s : σ) : Prop where
  /-- The lexer has another token to give. -/
  supplied : ∃ t, (Lexer.start source).answer before.length = some t ∧
    before ++ [t] <+: tokens source
  /-- Only an unknown token is reported as one. -/
  reported : ∀ t e, (stage.turn c t s).progress = .over (.error (.lexical e)) →
    t.kind = .unknown ∧ e = ⟨t.source, t.span⟩
  /-- A name that was read last ends the body. -/
  named : ∀ d, stage = .rules d → d.previous.kind = .nonterminal →
    before.getLast? = some d.previous ∧
    d.body.getLast? = some (.nonterminal (.named d.previous.source))
  /-- An arrow behind a name takes it back, and finds it where it should be. -/
  chained : ∀ d arrow, stage = .rules d → d.previous.kind = .nonterminal →
    d.chain arrow = .ok (⟨d.head, d.body.dropLast⟩, { d with
      head := .named d.previous.source, body := [],
      written := d.written ++ [⟨d.head, d.body.dropLast⟩] })

/-- A lexer that has not given its last token gives another one. -/
theorem Reads.exists_answer {stage : Stage A L} {trace : List (Event L)}
    (h : Reads c .opening s₀ before stage s trace) (within : before <+: tokens source) :
    ∃ t, (Lexer.start source).answer before.length = some t ∧
      before ++ [t] <+: tokens source := by
  obtain ⟨ahead, whole⟩ := within
  cases ahead with
  | nil =>
      -- the end of the stream would have been read
      obtain ⟨t, ht, last⟩ := (isStream_tokens source).exists_last
      rw [← whole, List.append_nil] at ht
      exact absurd last (Bool.not_eq_true _ ▸ h.not_isLast t ht)
  | cons t ahead =>
      refine ⟨t, ?_, ahead, ?_⟩
      · rw [Lexer.answer_eq]
        show (tokens source)[before.length]? = some t
        rw [← whole]
        simp
      · rw [← whole, List.append_assoc, List.singleton_append]

/-- A name that was read last is the last symbol of the body. -/
theorem Reads.exists_body {d : Draft A L} {trace : List (Event L)}
    (h : Reads c .opening s₀ before (.rules d) s trace) (isName : d.previous.kind = .nonterminal) :
    before.getLast? = some d.previous ∧
      ∃ body, d.body = body ++ [.nonterminal (.named d.previous.source)] := by
  cases h.reflects List.prefix_rfl with
  | rules follows _ =>
      obtain ⟨words, -, ends⟩ := follows.body_eq_concat isName
      exact ⟨follows.previous, _, ends⟩

/-- At every step of a reading, nothing is amiss. -/
theorem Reads.guarded {stage : Stage A L} {trace : List (Event L)}
    (h : Reads c .opening s₀ before stage s trace) (within : before <+: tokens source) :
    stage.Guarded c source before s := by
  refine ⟨h.exists_answer within, fun t e => Stage.turn_lexical, ?_, ?_⟩
  · rintro d rfl isName
    obtain ⟨last, body, ends⟩ := h.exists_body isName
    refine ⟨last, ?_⟩
    rw [ends]
    exact List.getLast?_concat
  · rintro d arrow rfl isName
    obtain ⟨-, body, ends⟩ := h.exists_body isName
    rw [Draft.chain_of_concat ends isName, ends, List.dropLast_concat]

/-- Neither what would stand behind the last token nor the size of the source matters. -/
theorem run_tokens_append (c : Compiler σ E A) (source : String) (s : σ) (size : Nat)
    (more : List Token) :
    (Stage.opening : Stage A L).run c size (tokens source ++ more) s = read c source s := by
  obtain ⟨before, t, after, stage, s', trace, stops⟩ := exists_stopsAt (L := L) c source s
  have split : tokens source ++ more = before ++ t :: (after ++ more) := by
    rw [stops.split, List.append_assoc, List.cons_append]
  rw [split, stops.reads.run_append, Stage.run, stops.ended, ← stops.state, ← stops.told]

/-- At every step of a reading the lexer has a token to give, only an unknown one is
    reported as such, and an arrow behind a name finds that name at the end of the body.
    So no stream is ever ended by its reader, an unknown token is one character of the
    source, and the start symbol of a grammar heads its first production. -/
theorem parse_guarded (c : Compiler σ E A) (source : String) (s : σ) :
    (∀ (before : List Token) (stage : Stage A L) (s' : σ) (trace : List (Event L)),
      Reads c .opening s before stage s' trace → before <+: tokens source →
      stage.Guarded c source before s') ∧
    (∀ size more, (Stage.opening : Stage A L).run c size (tokens source ++ more) s =
      read c source s) ∧
    (∀ t ∈ tokens source, t.kind = .unknown →
      t.span.Within source ∧ t.span.slice source = "-" ∧ t.source = "-") ∧
    ∀ g, (parse c source s).result = .ok g →
      ∃ p ps, g.productions = p :: ps ∧ p.head = g.start := by
  refine ⟨fun before stage s' trace reads within => reads.guarded within,
    run_tokens_append c source s, ?_, fun g => exists_first_production⟩
  intro t ht unknown
  have stands := stands_of_mem ht
  have dash := stands.source_of_unknown unknown
  exact ⟨stands.within, stands.slice_eq.trans dash, dash⟩

/-- Behind a bar, the name that is about to become the head ends a body of its own. -/
theorem parse_guarded_behindBar :
    ∃ (d : Draft (ListedAutomaton CaseBlind) CaseBlind) (trace : List (Event CaseBlind)),
      Reads letters .opening () ((tokens "S -> | T -> b").take 4) (.rules d) () trace ∧
        d.body.getLast? = some (.nonterminal (.named "T")) := by
  have stream : (tokens "S -> | T -> b").take 4 = [] ++ [.at .nonterminal ['S'] 0] ++
      [.at .arrow ['-', '>'] 2] ++ [.at .bar ['|'] 5] ++ [.at .nonterminal ['T'] 7] := by
    decide +kernel
  have reads : Reads letters .opening () ([] ++ [.at .nonterminal ['S'] 0] ++
      [.at .arrow ['-', '>'] 2] ++ [.at .bar ['|'] 5] ++ [.at .nonterminal ['T'] 7]) _ () _ :=
    .snoc (.snoc (.snoc (.snoc .start rfl) rfl) rfl) rfl
  rw [← stream] at reads
  obtain ⟨guarded, -⟩ := parse_guarded letters "S -> | T -> b" ()
  have here := guarded _ _ _ _ reads (List.take_prefix ..)
  exact ⟨_, _, reads, (here.named _ rfl rfl).2⟩

end FragmentGrammar
