import FragmentGrammar.Proofs.Parser.Numbering
import FragmentGrammar.Proofs.Parser.Restated

/-! # What a parse tells on its way

    The trace of a parse can be told from its tokens.  Every token that is read leaves a
    message of its own and at most one more: a fragment does where its text first occurs,
    and a break or the end of the text does with the production that it finishes (`told?`).
    A turn tells just that (`Reads.trace_turn`), hence so does a row of turns
    (`Reads.trace_eq`).  Productions and numbers are told when they are kept (`Reads.adds`),
    so the trace agrees in the end with what the source leaves (`read_trace_of_ok`). -/

namespace FragmentGrammar

variable {σ E A L : Type}

/-! ## Productions and numbers -/

/-- The production of the message, if it tells of one. -/
def Event.production? : Event L → Option (Production L)
  | production p => some p
  | _ => none

/-- The messages that tell of productions are those of the productions that are told. -/
theorem filter_production? (trace : List (Event L)) :
    trace.filter (·.production?.isSome) =
      (trace.filterMap Event.production?).map Event.production := by
  induction trace with
  | nil => rfl
  | cons e trace ih =>
      cases e with
      | production p => exact congrArg (Event.production p :: ·) ih
      | _ => exact ih

/-- The number that the message gives to a fragment, if it gives one. -/
def Event.recorded? : Event L → Option Nat
  | recorded _ id => some id
  | _ => none

/-- The productions finished so far. -/
def Stage.written : Stage A L → List (Production L)
  | rules d => d.written
  | _ => []

/-- The numbers given so far. -/
def Stage.numbers : Stage A L → List Nat
  | rules d => d.resolver.recorded.map (·.1)
  | _ => []

/-- The messages `trace` are what has been added to the stage `first` when it has become
    `next`. -/
structure Stage.Adds (first next : Stage A L) (trace : List (Event L)) : Prop where
  productions : next.written = first.written ++ trace.filterMap Event.production?
  numbers : next.numbers = first.numbers ++ trace.filterMap Event.recorded?

theorem Stage.Adds.trans {first next last : Stage A L} {trace more : List (Event L)}
    (h : first.Adds next trace) (h' : next.Adds last more) : first.Adds last (trace ++ more) where
  productions := by
    rw [h'.productions, h.productions, List.filterMap_append, List.append_assoc]
  numbers := by
    rw [h'.numbers, h.numbers, List.filterMap_append, List.append_assoc]

/-- The message of a token adds nothing. -/
theorem Stage.Adds.token {first next : Stage A L} {trace : List (Event L)}
    (h : first.Adds next trace) (t : Token) : first.Adds next (.token t :: trace) :=
  ⟨h.productions, h.numbers⟩

/-- A chain finishes the production that it gives, and nothing is resolved for it. -/
theorem Draft.chain_adds {d d' : Draft A L} {t : Token} {p : Production L}
    (h : d.chain t = .ok (p, d')) : d'.written = d.written ++ [p] ∧ d'.resolver = d.resolver := by
  rw [chain] at h
  split at h
  next => cases h
  next =>
    split at h
    next =>
      split at h
      next =>
        cases h
        exact ⟨rfl, rfl⟩
      next => cases h
    next => cases h

/-- The production under construction is that of the words since the last break under the
    name before the last arrow. -/
theorem Draft.Follows.exists_head {d : Draft A L} {before : List Token}
    {meaning : String → Option (Symbol L)}
    (follows : d.Follows meaning before) (heads : d.Heads before) :
    ∃ head, headOf? before = some head ∧
      d.production = Rule.production meaning ⟨head, mentionsOf (sinceBreak before)⟩ := by
  obtain ⟨head, named, last⟩ := heads
  obtain ⟨-, head', -, production, -⟩ := follows.reads
  have same : Nonterminal.named head = .named head' :=
    named.symm.trans (congrArg Production.head production)
  obtain rfl := Nonterminal.named.inj same
  exact ⟨head, last, production⟩

/-! ## The message behind a token -/

/-- The rule that a token finishes: the words since the last break under the name before
    the last arrow.  An arrow finishes it behind a name only, and without that name. -/
def finished? (before : List Token) (t : Token) : Option Rule :=
  match t.kind with
  | .bar | .stop => (headOf? before).map (⟨·, mentionsOf (sinceBreak before)⟩)
  | .arrow =>
    if before.getLast?.map (·.kind) = some .nonterminal then
      (headOf? before).map (⟨·, mentionsOf (sinceBreak before).dropLast⟩)
    else none
  | .nonterminal | .fragment | .unknown => none

variable [Automaton A L] [Label L]

/-- What is told about a fragment: what its automaton is judged to be, where its text first
    occurs and if the compiler gives one. -/
def learnt? (c : Compiler σ E A) (s : σ) (before : List Token) (t : Token) : Option (Event L) :=
  if t.source ∈ fragmentsOf before then none
  else ((c.automata (before ++ [t]) s).lookup t.source).map fun a =>
    (Verdict.of a).event t.source (embeddedOf (c.automata before s)).length

/-- What is told behind the message of a token that stands behind the tokens `before`. -/
def told? (c : Compiler σ E A) (s : σ) (before : List Token) (t : Token) : Option (Event L) :=
  if t.kind = .fragment then learnt? c s before t
  else (finished? before t).map fun r => .production (r.production (symbolOf (c.automata before s)))

/-- The messages of tokens, each with what is told behind it. -/
def narration (c : Compiler σ E A) (s : σ) (before : List Token) : List Token → List (Event L)
  | [] => []
  | t :: ts => .token t :: (told? c s before t).toList ++ narration c s (before ++ [t]) ts

variable {c : Compiler σ E A} {s s₀ : σ} {before : List Token} {t : Token}

theorem narration_concat (c : Compiler σ E A) (s : σ) (before ts : List Token) (t : Token) :
    (narration c s before (ts ++ [t]) : List (Event L)) =
      narration c s before ts ++ .token t :: (told? c s (before ++ ts) t).toList := by
  induction ts generalizing before with
  | nil =>
      show .token t :: (told? c s before t).toList ++ [] =
        .token t :: (told? c s (before ++ []) t).toList
      rw [List.append_nil, List.append_nil]
  | cons u ts ih =>
      show .token u :: (told? c s before u).toList ++ narration c s (before ++ [u]) (ts ++ [t]) =
        .token u :: (told? c s before u).toList ++ narration c s (before ++ [u]) ts ++ _
      rw [ih, List.append_assoc, List.append_assoc, List.singleton_append]

theorem headOf?_of_short (h : before.length < 2) : headOf? before = none := by
  rw [Option.eq_none_iff_forall_ne_some]
  intro name found
  obtain ⟨pre, u, arrow, rest, rfl, -⟩ := headOf?_eq_some_iff.mp found
  simp at h
  omega

/-- Nothing is told about the first two tokens. -/
theorem told?_of_short (h : before.length < 2) :
    (told? c s before t : Option (Event L)) = none := by
  have noHead := headOf?_of_short h
  have noFragment : c.automata (before ++ [t]) s = [] := by
    rw [Compiler.automata, fragmentsOf_of_short]
    · rfl
    · rw [List.length_append]
      exact h
  rw [told?]
  split
  · rw [learnt?, noFragment]
    split <;> rfl
  · rw [finished?, noHead]
    cases t.kind <;> simp

/-! ## One turn -/

/-- A fragment is told about where its text first occurs. -/
theorem Consulted.trace_resolve {r : Resolver A L} (h : Consulted c s₀ before r s)
    (ht : t.kind = .fragment) (long : 2 ≤ before.length) :
    (r.resolve c t.source s).trace = (learnt? c s₀ before t).toList := by
  rw [h.resolver]
  by_cases old : t.source ∈ fragmentsOf before
  · obtain ⟨a, known⟩ := h.exists_lookup old
    rw [Resolver.resolve_knowing_of_known known, learnt?, if_pos old]
    rfl
  · have new := h.lookup_eq_none_iff.mpr old
    rw [learnt?, if_neg old]
    cases hc : c t.source s with
    | mk answer s' =>
        cases answer with
        | error e =>
            have whole := h.consult_concat ht long old []
            rw [List.append_nil, hc] at whole
            -- a refusal adds no automaton
            have same : c.automata (before ++ [t]) s₀ = c.automata before s₀ := by
              rw [Compiler.automata, whole, automataOf_append]
              exact List.append_nil _
            rw [Resolver.resolve_knowing_of_error new hc, same, new]
            rfl
        | ok a =>
            obtain ⟨grown, -⟩ := h.of_new ht long old hc
            rw [Resolver.resolve_knowing_of_ok new hc, grown, lookup_concat_self new]
            rfl

/-- Behind the first arrow a turn tells what its token and those before it say. -/
theorem Draft.Follows.trace_turn {d : Draft A L}
    (follows : d.Follows (symbolOf (c.automata before s₀)) before)
    (consulted : Consulted c s₀ before d.resolver s) (heads : d.Heads before) :
    (d.turn c t s).trace = (told? c s₀ before t).toList := by
  obtain ⟨head, last, production⟩ := follows.exists_head heads
  cases hk : t.kind with
  | nonterminal =>
      rw [Draft.turn_of_nonterminal hk]
      simp [told?, finished?, hk]
  | fragment =>
      rw [told?, if_pos hk, ← consulted.trace_resolve hk follows.two_le_length]
      cases hr : (d.resolver.resolve c t.source s).answer with
      | error e => rw [Draft.turn_of_unresolved hk hr]
      | ok symbol => rw [Draft.turn_of_resolved hk hr]
  | bar =>
      rw [Draft.turn_of_bar hk, production]
      simp [told?, finished?, hk, last]
  | stop =>
      rw [Draft.turn_of_stop hk, production]
      simp [told?, finished?, hk, last]
  | unknown =>
      rw [Draft.turn_of_unknown hk]
      simp [told?, finished?, hk, Turn.refuse]
  | arrow =>
      by_cases isName : d.previous.kind = .nonterminal
      · obtain ⟨words, ends, body⟩ := follows.body_eq_concat isName
        rw [Draft.turn_of_chain hk (Draft.chain_of_concat body isName)]
        have head_eq : d.head = .named head := congrArg Production.head production
        simp [told?, finished?, hk, last, follows.previous, isName, ends, head_eq, Rule.production]
      · have refused : ∃ e, d.chain t = .error e := by
          by_cases empty : d.body = []
          · exact ⟨_, Draft.chain_of_nil empty⟩
          · exact ⟨_, Draft.chain_of_ne empty isName⟩
        obtain ⟨e, chain⟩ := refused
        rw [Draft.turn_of_no_chain hk chain]
        simp [told?, finished?, hk, follows.previous, isName, Turn.refuse]

/-- A turn tells what its token and those before it say. -/
theorem Reads.trace_turn {stage : Stage A L} {trace : List (Event L)}
    (h : Reads c .opening s₀ before stage s trace) :
    (stage.turn c t s).trace = (told? c s₀ before t).toList := by
  have quiet (short : before.length < 2) : (told? c s₀ before t : Option (Event L)) = none :=
    told?_of_short short
  cases h.reflects List.prefix_rfl with
  | opening =>
      rw [quiet Nat.zero_lt_two]
      by_cases hk : t.kind = .nonterminal
      · rw [Stage.turn_opening_of_nonterminal hk]
        rfl
      · rw [Stage.turn_opening_of_ne hk]
        rfl
  | @named first hf =>
      rw [quiet Nat.one_lt_two]
      by_cases hk : t.kind = .arrow
      · rw [Stage.turn_named_of_arrow hk]
        rfl
      · rw [Stage.turn_named_of_ne hk]
        rfl
  | rules follows consulted => exact follows.trace_turn consulted h.heads

/-! ## All turns -/

/-- A row of turns tells what its tokens say. -/
theorem Reads.trace_eq {stage : Stage A L} {trace : List (Event L)}
    (h : Reads c .opening s₀ before stage s trace) : trace = narration c s₀ [] before := by
  induction h with
  | start => rfl
  | snoc reads on ih => rw [narration_concat, ← ih, reads.trace_turn, List.nil_append]

/-- A reading tells what the tokens up to its end say. -/
theorem StopsAt.trace_eq {source : String} {after : List Token} {stage : Stage A L}
    {trace : List (Event L)} (h : StopsAt c s₀ source before t after stage s trace) :
    (read c source s₀).trace = narration c s₀ [] (before ++ [t]) := by
  rw [h.told, narration_concat, h.reads.trace_turn, ← h.reads.trace_eq, List.nil_append]

/-! ## What is told is kept -/

/-- Resolving a fragment tells of the number that it gives and of no production. -/
theorem Resolver.told_resolve (c : Compiler σ E A) (r : Resolver A L) (text : String) (s : σ) :
    (r.resolve c text s).trace.filterMap Event.production? = [] ∧
      (r.resolve c text s).resolver.recorded.map (·.1) =
        r.recorded.map (·.1) ++ (r.resolve c text s).trace.filterMap Event.recorded? := by
  have nothing : r.recorded.map (·.1) =
      r.recorded.map (·.1) ++ ([] : List (Event L)).filterMap Event.recorded? :=
    (List.append_nil _).symm
  cases hk : r.memo.lookup text with
  | some symbol =>
      rw [resolve_of_known hk]
      exact ⟨rfl, nothing⟩
  | none =>
      cases hc : c text s with
      | mk answer s' =>
          cases answer with
          | error e =>
              rw [resolve_of_error hk hc]
              exact ⟨rfl, nothing⟩
          | ok a =>
              rw [resolve_of_ok hk hc, learn]
              cases (Verdict.of a : Verdict L) with
              | vanishes => exact ⟨rfl, nothing⟩
              | terminal l => exact ⟨rfl, nothing⟩
              | embeds => exact ⟨rfl, List.map_append⟩

/-- Behind the first arrow a turn that goes on tells of everything that it adds. -/
theorem Draft.turn_adds {d : Draft A L} {next : Stage A L}
    (on : (d.turn c t s).progress = .on next) :
    (Stage.rules d).Adds next (d.turn c t s).trace := by
  cases hk : t.kind with
  | nonterminal =>
      rw [turn_of_nonterminal hk] at on ⊢
      cases on
      exact ⟨(List.append_nil _).symm, (List.append_nil _).symm⟩
  | fragment =>
      obtain ⟨noProduction, numbers⟩ := d.resolver.told_resolve c t.source s
      cases hr : (d.resolver.resolve c t.source s).answer with
      | error e =>
          rw [turn_of_unresolved hk hr] at on
          cases on
      | ok symbol =>
          rw [turn_of_resolved hk hr] at on ⊢
          cases on
          refine ⟨?_, numbers⟩
          show d.written = d.written ++ _
          rw [noProduction, List.append_nil]
  | arrow =>
      cases hd : d.chain t with
      | error e =>
          rw [turn_of_no_chain hk hd] at on
          cases on
      | ok r =>
          obtain ⟨p, d'⟩ := r
          obtain ⟨written, resolver⟩ := chain_adds hd
          rw [turn_of_chain hk hd] at on ⊢
          cases on
          refine ⟨written, ?_⟩
          show d'.resolver.recorded.map (·.1) = _
          rw [resolver]
          exact (List.append_nil _).symm
  | bar =>
      rw [turn_of_bar hk] at on ⊢
      cases on
      exact ⟨rfl, (List.append_nil _).symm⟩
  | stop =>
      rw [turn_of_stop hk] at on
      cases on
  | unknown =>
      rw [turn_of_unknown hk] at on
      cases on

/-- A turn that goes on tells of everything that it adds. -/
theorem Stage.turn_adds {stage next : Stage A L} (on : (stage.turn c t s).progress = .on next) :
    stage.Adds next (stage.turn c t s).trace := by
  cases stage with
  | opening =>
      by_cases hk : t.kind = .nonterminal
      · rw [turn_opening_of_nonterminal hk] at on ⊢
        cases on
        exact ⟨rfl, rfl⟩
      · rw [turn_opening_of_ne hk] at on
        cases on
  | named start =>
      by_cases hk : t.kind = .arrow
      · rw [turn_named_of_arrow hk] at on ⊢
        cases on
        exact ⟨rfl, rfl⟩
      · rw [turn_named_of_ne hk] at on
        cases on
  | rules d => exact Draft.turn_adds on

/-- A row of turns tells of everything that it adds. -/
theorem Reads.adds {stage : Stage A L} {trace : List (Event L)}
    (h : Reads c .opening s₀ before stage s trace) : Stage.opening.Adds stage trace := by
  induction h with
  | start => exact ⟨rfl, rfl⟩
  | snoc _ on ih => exact ih.trans ((Stage.turn_adds on).token _)

/-! ## Whole readings -/

variable {source : String}

/-- A reading that is refused tells of the tokens up to the one that is out of place, and of
    that one last. -/
theorem read_trace_of_error {e : ParseError E} (h : (read c source s).result = .error e) :
    ∃ before t after, tokens source = before ++ t :: after ∧
      Blameless (c.consult (fragmentsOf (tokens source)) s) before ∧
      offence (c.consult (fragmentsOf (tokens source)) s) before t = some e ∧
      (read c source s).trace = narration c s [] (before ++ [t]) ∧
      (read c source s).trace.getLast? = some (.token t) := by
  obtain ⟨before, t, after, stage, s', trace, stops⟩ := exists_stopsAt c source s
  have offends := stops.offends
  have ended := stops.ended
  rw [h] at offends ended
  refine ⟨before, t, after, stops.split, stops.blameless, offends, ?_, ?_⟩
  · rw [stops.trace_eq]
  · rw [stops.told, Stage.trace_of_refusal ended]
    exact List.getLast?_concat

/-- A reading that is accepted tells of all tokens, and of every production and every number
    that it leaves. -/
theorem read_trace_of_ok {w : Written A L} (h : (read c source s).result = .ok w) :
    (read c source s).trace = narration c s [] (tokens source) ∧
      (read c source s).trace.filterMap Event.production? = w.productions ∧
      (read c source s).trace.filterMap Event.recorded? = w.recorded.map (·.1) := by
  obtain ⟨before, t, after, stage, s', trace, stops⟩ := exists_stopsAt c source s
  obtain ⟨d, rfl, stop, rfl, rfl⟩ := stops.exists_draft h
  have adds := stops.reads.adds
  have last : (Stage.rules d).turn c t s' =
      ⟨.over (.ok d.finish), s', [.production d.production]⟩ := Draft.turn_of_stop stop
  refine ⟨?_, ?_, ?_⟩
  · rw [stops.trace_eq, stops.split]
  · rw [stops.told, last, List.filterMap_append]
    have written : d.written = trace.filterMap Event.production? := adds.productions
    rw [← written]
    rfl
  · rw [stops.told, last, List.filterMap_append]
    have numbers : d.resolver.recorded.map (·.1) = trace.filterMap Event.recorded? := adds.numbers
    rw [← numbers]
    exact List.append_nil _

/-! ## Whole parses -/

/-- The number of an automaton and the count of its productions, if the message tells that
    it was embedded. -/
def Event.embedded? : Event L → Option (Nat × Nat)
  | embedded id productions _ _ => some (id, productions)
  | _ => none

/-- Nothing is embedded while a source is read. -/
theorem embedded?_narration (c : Compiler σ E A) (s : σ) (before ts : List Token) :
    (narration c s before ts : List (Event L)).filterMap Event.embedded? = [] := by
  have quiet (before : List Token) (t : Token) (e : Event L) (h : told? c s before t = some e) :
      e.embedded? = none := by
    rw [told?] at h
    split at h
    · rw [learnt?] at h
      split at h
      · cases h
      · obtain ⟨a, -, rfl⟩ := Option.map_eq_some_iff.mp h
        cases (Verdict.of a : Verdict L) <;> rfl
    · obtain ⟨r, -, rfl⟩ := Option.map_eq_some_iff.mp h
      rfl
  induction ts generalizing before with
  | nil => rfl
  | cons t ts ih =>
      show ((told? c s before t).toList ++ narration c s (before ++ [t]) ts).filterMap _ = []
      rw [List.filterMap_append, ih, List.append_nil, List.filterMap_eq_nil_iff]
      intro e he
      exact quiet before t e (Option.mem_toList.mp he)

/-- When a grammar is completed, its automata are told and nothing else is. -/
theorem Written.told_trace (w : Written A L) :
    w.trace.filterMap Event.production? = [] ∧ w.trace.filterMap Event.recorded? = [] ∧
      w.trace.filterMap Event.embedded? = w.blocks.map fun b => (b.1, b.2.productions.length) := by
  refine ⟨?_, ?_, ?_⟩
  · simp [trace, Event.production?]
  · simp [trace, Event.recorded?]
  · show (w.blocks.map _ ++ [_]).filterMap _ = _
    rw [List.filterMap_append, List.filterMap_map, ← List.filterMap_eq_map]
    exact List.append_nil _

theorem parse_trace_of_error {e : ParseError E} (h : (read c source s).result = .error e) :
    (parse c source s).trace = .started source.utf8ByteSize :: (read c source s).trace := by
  rw [parse, h]

theorem parse_trace_of_ok {w : Written A L} (h : (read c source s).result = .ok w) :
    (parse c source s).trace =
      .started source.utf8ByteSize :: ((read c source s).trace ++ w.trace) := by
  rw [parse, h]
  rfl

end FragmentGrammar
