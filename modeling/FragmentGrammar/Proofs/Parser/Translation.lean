import FragmentGrammar.Proofs.Parser.Invariant
import FragmentGrammar.Proofs.Resolver.Relabel

/-! # What a reader does not notice

    A reader looks at the kinds and texts of tokens, at the answers of its resolver and at
    what it wrote last.  Labels, automata, places and the states of the compiler only pass
    through.  So when they are mapped, and the compiler answers in kind, every turn comes to
    the mapped outcome (`Translation.turn`), and so does the reading of a whole stream
    (`Translation.run`).  A stream has an end, so how a reading closes that runs out of
    tokens does not matter. -/

namespace FragmentGrammar

variable {σ σ' E A B L M : Type}

/-! ## Other places -/

/-- The token at the place that `p` gives for its own. -/
def Token.relocate (p : Span → Span) (t : Token) : Token :=
  { t with span := p t.span }

/-- The error at the place that `p` gives for its own. -/
def LexError.relocate (p : Span → Span) (e : LexError) : LexError :=
  { e with span := p e.span }

/-- The error at the place that `p` gives for its own. -/
def SyntaxError.relocate (p : Span → Span) : SyntaxError → SyntaxError
  | .expectedNonterminal found source span => .expectedNonterminal found source (p span)
  | .expectedArrow head found source span => .expectedArrow head found source (p span)
  | .emptyChain span => .emptyChain (p span)
  | .chainFromOther found source span => .chainFromOther found source (p span)

/-- The error at the place that `p` gives for its own.  What the compiler says has none. -/
def ParseError.relocate (p : Span → Span) : ParseError E → ParseError E
  | .lexical e => .lexical (e.relocate p)
  | .syntactic e => .syntactic (e.relocate p)
  | .fragment e => .fragment e

@[simp] theorem Token.relocate_id : Token.relocate id = id := rfl

@[simp] theorem ParseError.relocate_id :
    (ParseError.relocate id : ParseError E → ParseError E) = id := by
  funext e
  cases e with
  | lexical e => rfl
  | syntactic e => cases e <;> rfl
  | fragment e => rfl

/-! ## What is kept, mapped -/

/-- What is written, with labels mapped by `h` and automata by `f`. -/
def Written.map (h : L → M) (f : A → B) (w : Written A L) : Written B M :=
  ⟨w.start, w.productions.map (Production.relabel h), w.recorded.map fun x => (x.1, f x.2)⟩

/-- The draft with labels, automata and the place of the token read last mapped. -/
def Draft.map (h : L → M) (f : A → B) (p : Span → Span) (d : Draft A L) : Draft B M where
  start := d.start
  head := d.head
  body := d.body.map (Symbol.relabel h)
  written := d.written.map (Production.relabel h)
  previous := d.previous.relocate p
  resolver := d.resolver.map h f

/-- The stage with labels, automata and the place of the token read last mapped. -/
def Stage.map (h : L → M) (f : A → B) (p : Span → Span) : Stage A L → Stage B M
  | .opening => .opening
  | .named start => .named start
  | .rules d => .rules (d.map h f p)

namespace Draft

variable {h : L → M} {f : A → B} {p : Span → Span} {d : Draft A L}

theorem map_push (symbol : Option (Symbol L)) (t : Token) (r : Resolver A L) :
    ({ d.push symbol with previous := t, resolver := r } : Draft A L).map h f p =
      { (d.map h f p).push (symbol.map (Symbol.relabel h)) with
        previous := t.relocate p, resolver := r.map h f } := by
  have body : (d.body ++ symbol.toList).map (Symbol.relabel h) =
      d.body.map (Symbol.relabel h) ++ (symbol.map (Symbol.relabel h)).toList := by
    rw [List.map_append]
    cases symbol <;> rfl
  rw [push, push, map, map, body]

theorem map_commit (t : Token) : ({ d.commit with previous := t } : Draft A L).map h f p =
    { (d.map h f p).commit with previous := t.relocate p } := by
  show Draft.mk _ _ _ ((d.written ++ [d.production]).map (Production.relabel h)) _ _ = _
  rw [List.map_append]
  rfl

theorem map_finish : (d.map h f p).finish = d.finish.map h f := by
  show _ = Written.mk _ ((d.written ++ [d.production]).map (Production.relabel h)) _
  rw [List.map_append]
  rfl

/-- An arrow does to a mapped draft what it does to the draft. -/
theorem chain_map (t : Token) : (d.map h f p).chain (t.relocate p) =
    ((d.chain t).map fun r => (r.1.relabel h, r.2.map h f p)).mapError (SyntaxError.relocate p) := by
  rcases List.eq_nil_or_concat d.body with empty | ⟨body, x, last⟩
  · have empty' : (d.map h f p).body = [] := by
      rw [map, empty, List.map_nil]
    rw [chain_of_nil empty, chain_of_nil empty']
    rfl
  · rw [List.concat_eq_append] at last
    have last' : (d.map h f p).body = body.map (Symbol.relabel h) ++ [x.relabel h] := by
      rw [map, last, List.map_append, List.map_singleton]
    by_cases name : d.previous.kind = .nonterminal
    · have name' : (d.map h f p).previous.kind = .nonterminal := name
      cases x with
      | terminal x =>
          rw [chain_of_terminal last, chain_of_terminal last']
          rfl
      | nonterminal next =>
          rw [chain_of_concat last name, chain_of_concat last' name']
          refine congrArg Except.ok (Prod.ext rfl ?_)
          show _ = Draft.mk _ _ _ ((d.written ++ [Production.mk d.head body]).map _) _ _
          rw [List.map_append]
          rfl
    · have some : d.body ≠ [] := by
        rw [last]
        exact List.concat_ne_nil x body
      have some' : (d.map h f p).body ≠ [] := by
        rw [last']
        exact List.concat_ne_nil _ _
      have name' : (d.map h f p).previous.kind ≠ .nonterminal := name
      rw [chain_of_ne some name, chain_of_ne some' name']
      rfl

end Draft

/-! ## Translations -/

variable [Automaton A L] [Label L] [Automaton B M] [Label M]

/-- Maps of labels, automata, places and the states of a compiler that a reader does not
    notice: verdicts are kept, and one compiler gives the mapped answers of the other. -/
structure Translation (c : Compiler σ E A) (c' : Compiler σ' E B) where
  label : L → M
  automaton : A → B
  place : Span → Span
  state : σ → σ'
  verdict (a : A) : Verdict.of (automaton a) = (Verdict.of a).relabel label
  asked (text : String) (s : σ) :
    c' text (state s) = ((c text s).1.map automaton, state (c text s).2)

namespace Translation

variable {c : Compiler σ E A} {c' : Compiler σ' E B} (k : Translation c c')

/-- The result of a reading, mapped. -/
def result (r : Except (ParseError E) (Written A L)) : Except (ParseError E) (Written B M) :=
  (r.map (Written.map k.label k.automaton)).mapError (ParseError.relocate k.place)

/-- What a token leads to, mapped. -/
def progress : Progress E A L → Progress E B M
  | .on stage => .on (stage.map k.label k.automaton k.place)
  | .over r => .over (k.result r)

theorem draft_turn (d : Draft A L) (t : Token) (s : σ) :
    ((d.map k.label k.automaton k.place).turn c' (t.relocate k.place) (k.state s)).progress =
        k.progress (d.turn c t s).progress ∧
      ((d.map k.label k.automaton k.place).turn c' (t.relocate k.place) (k.state s)).state =
        k.state (d.turn c t s).state := by
  have kind : (t.relocate k.place).kind = t.kind := rfl
  cases hk : t.kind with
  | nonterminal =>
      rw [Draft.turn_of_nonterminal hk, Draft.turn_of_nonterminal (kind.trans hk)]
      refine ⟨?_, rfl⟩
      have pushed := d.map_push (h := k.label) (f := k.automaton) (p := k.place)
        (some (.nonterminal (.named t.source))) t d.resolver
      exact congrArg (fun d => Progress.on (.rules d)) pushed.symm
  | fragment =>
      obtain ⟨answer, resolver, state⟩ :=
        Resolver.resolve_map k.verdict k.asked d.resolver t.source s
      cases hr : (d.resolver.resolve c t.source s).answer with
      | error e =>
          rw [hr] at answer
          rw [Draft.turn_of_unresolved hk hr, Draft.turn_of_unresolved (kind.trans hk) answer]
          exact ⟨rfl, state⟩
      | ok symbol =>
          rw [hr] at answer
          rw [Draft.turn_of_resolved hk hr, Draft.turn_of_resolved (kind.trans hk) answer]
          refine ⟨?_, state⟩
          show Progress.on (.rules _) = Progress.on (.rules (Draft.map _ _ _ _))
          rw [d.map_push, ← resolver]
          rfl
  | arrow =>
      have chained := d.chain_map (h := k.label) (f := k.automaton) (p := k.place) t
      cases hd : d.chain t with
      | error e =>
          rw [hd] at chained
          rw [Draft.turn_of_no_chain hk hd, Draft.turn_of_no_chain (kind.trans hk) chained]
          exact ⟨rfl, rfl⟩
      | ok r =>
          rw [hd] at chained
          rw [Draft.turn_of_chain hk hd, Draft.turn_of_chain (kind.trans hk) chained]
          exact ⟨rfl, rfl⟩
  | bar =>
      rw [Draft.turn_of_bar hk, Draft.turn_of_bar (kind.trans hk)]
      refine ⟨?_, rfl⟩
      show Progress.on (.rules _) = Progress.on (.rules (Draft.map _ _ _ _))
      rw [d.map_commit]
  | unknown =>
      rw [Draft.turn_of_unknown hk, Draft.turn_of_unknown (kind.trans hk)]
      exact ⟨rfl, rfl⟩
  | stop =>
      rw [Draft.turn_of_stop hk, Draft.turn_of_stop (kind.trans hk), Draft.map_finish]
      exact ⟨rfl, rfl⟩

/-- A mapped turn comes to what the turn comes to, mapped. -/
theorem turn (stage : Stage A L) (t : Token) (s : σ) :
    ((stage.map k.label k.automaton k.place).turn c' (t.relocate k.place) (k.state s)).progress =
        k.progress (stage.turn c t s).progress ∧
      ((stage.map k.label k.automaton k.place).turn c' (t.relocate k.place) (k.state s)).state =
        k.state (stage.turn c t s).state := by
  have kind : (t.relocate k.place).kind = t.kind := rfl
  cases stage with
  | opening =>
      by_cases hk : t.kind = .nonterminal
      · rw [Stage.turn_opening_of_nonterminal hk, Stage.map,
          Stage.turn_opening_of_nonterminal (kind.trans hk)]
        exact ⟨rfl, rfl⟩
      · have hk' : (t.relocate k.place).kind ≠ .nonterminal := hk
        rw [Stage.turn_opening_of_ne hk, Stage.map, Stage.turn_opening_of_ne hk', kind]
        by_cases unknown : t.kind = .unknown
        · rw [if_pos unknown, if_pos unknown]
          exact ⟨rfl, rfl⟩
        · rw [if_neg unknown, if_neg unknown]
          exact ⟨rfl, rfl⟩
  | named start =>
      by_cases hk : t.kind = .arrow
      · rw [Stage.turn_named_of_arrow hk, Stage.map, Stage.turn_named_of_arrow (kind.trans hk)]
        exact ⟨rfl, rfl⟩
      · have hk' : (t.relocate k.place).kind ≠ .arrow := hk
        rw [Stage.turn_named_of_ne hk, Stage.map, Stage.turn_named_of_ne hk', kind]
        by_cases unknown : t.kind = .unknown
        · rw [if_pos unknown, if_pos unknown]
          exact ⟨rfl, rfl⟩
        · rw [if_neg unknown, if_neg unknown]
          exact ⟨rfl, rfl⟩
  | rules d => exact k.draft_turn d t s

/-- Reading mapped tokens comes to what reading the tokens comes to, mapped. -/
theorem run {ts : List Token} (stream : IsStream ts) (size size' : Nat) (stage : Stage A L)
    (s : σ) :
    ((stage.map k.label k.automaton k.place).run c' size' (ts.map (Token.relocate k.place))
        (k.state s)).result = k.result (stage.run c size ts s).result ∧
      ((stage.map k.label k.automaton k.place).run c' size' (ts.map (Token.relocate k.place))
        (k.state s)).state = k.state (stage.run c size ts s).state := by
  induction stream generalizing stage s with
  | @last t ht =>
      obtain ⟨progress, state⟩ := k.turn stage t s
      obtain ⟨result, final⟩ := turn_over_of_isLast c stage s ht
      rw [final] at progress
      rw [List.map_singleton, Stage.run, Stage.run, progress, final]
      exact ⟨rfl, state⟩
  | @more t ts ht _ ih =>
      obtain ⟨progress, state⟩ := k.turn stage t s
      rw [List.map_cons, Stage.run, Stage.run]
      rcases hp : (stage.turn c t s).progress with next | result
      · rw [hp] at progress
        rw [progress, state]
        exact ih next (stage.turn c t s).state
      · rw [hp] at progress
        rw [progress]
        exact ⟨rfl, state⟩

/-- Where tokens keep their places, a source is read to what it is read to, mapped. -/
theorem read_eq (still : k.place = id) (source : String) (s : σ) :
    (read c' source (k.state s)).result =
        (read c source s).result.map (Written.map k.label k.automaton) ∧
      (read c' source (k.state s)).state =
        k.state (read c source s).state := by
  obtain ⟨result, state⟩ := k.run (isStream_tokens source) source.utf8ByteSize
    source.utf8ByteSize .opening s
  have same : ∀ r, k.result r = r.map (Written.map k.label k.automaton) := by
    intro r
    rw [Translation.result, still, ParseError.relocate_id]
    cases r <;> rfl
  rw [still, Token.relocate_id, List.map_id] at result state
  exact ⟨result.trans (same _), state⟩

/-- The calls of the compilers are mapped as well. -/
def recorded : Translation c.recorded c'.recorded where
  label := k.label
  automaton := k.automaton
  place := k.place
  state x := (k.state x.1, x.2.map fun call => (call.1, call.2.map k.automaton))
  verdict := k.verdict
  asked text s := by
    rw [Compiler.recorded, k.asked]
    show _ = (_, _, (s.2 ++ [(text, (c text s.1).1)]).map _)
    rw [List.map_append]
    rfl

end Translation

end FragmentGrammar
