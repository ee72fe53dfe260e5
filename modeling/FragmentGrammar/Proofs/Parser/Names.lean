import FragmentGrammar.Label.CharKind
import FragmentGrammar.Proofs.Parser.Display
import FragmentGrammar.Proofs.Parser.Numbering
import FragmentGrammar.Proofs.Text.Decimal

/-! # Displayed names

    A name of the source starts with `#` or a capital letter, because the lexer takes no
    other word for a name and reading makes no names of its own.  The names of automata
    and their states start with `<` and hold decimal numbers, which the characters behind
    them end.  So nonterminals are known from their texts (`Nonterminal.text_inj`), in one
    parsed grammar and across any two (`parse_names_apart`). -/

namespace FragmentGrammar

/-! ## Texts of nonterminals -/

namespace Nonterminal

/-- A name of the source is spelled as names are; other nonterminals have no spelling of
    their own. -/
def WellSpelled : Nonterminal → Prop
  | named name => IsWord startsName name.toList
  | entry _ | state _ _ => True

variable {i j p q : Nat} {m n : Nonterminal}

/-- What the name of an automaton shows, character by character. -/
theorem toList_entry_text (i : Nat) :
    (entry i).text.toList = '<' :: 'r' :: (i.repr.toList ++ ['>']) := by
  simp [text]

/-- What the name of a state shows: the numbers of its block and of the state. -/
theorem toList_state_text (i p : Nat) : (state i p).text.toList =
    '<' :: 'r' :: (i.repr.toList ++ '.' :: (p.repr.toList ++ ['>'])) := by
  simp [text]

/-- What belongs to a block is shown in angle brackets. -/
theorem head?_text (h : n.block? = some i) : n.text.toList.head? = some '<' := by
  cases n with
  | named name => cases h
  | entry j => rw [toList_entry_text, List.head?_cons]
  | state j p => rw [toList_state_text, List.head?_cons]

/-- A name of the source shows like nothing that belongs to a block. -/
theorem name_ne_text {name : String} (spelled : IsWord startsName name.toList)
    (h : n.block? = some i) : name ≠ n.text := by
  rintro rfl
  obtain ⟨⟨c, tail, text, starts⟩, -⟩ := spelled
  have first := head?_text h
  rw [text, List.head?_cons] at first
  obtain rfl := Option.some.inj first
  exact absurd starts (by decide)

/-- Entries show their numbers. -/
theorem entry_text_inj : (entry i).text = (entry j).text ↔ i = j := by
  constructor
  · intro h
    rw [← String.toList_inj, toList_entry_text, toList_entry_text] at h
    exact (repr_append_inj (by decide) (by decide) (List.cons.inj (List.cons.inj h).2).2).1
  · exact congrArg fun i => (entry i).text

/-- States show both of their numbers, with a dot in between. -/
theorem state_text_inj : (state i p).text = (state j q).text ↔ i = j ∧ p = q := by
  constructor
  · intro h
    rw [← String.toList_inj, toList_state_text, toList_state_text] at h
    obtain ⟨block, -, rest⟩ :=
      repr_append_inj (by decide) (by decide) (List.cons.inj (List.cons.inj h).2).2
    exact ⟨block, toList_repr_inj (List.append_cancel_right rest)⟩
  · rintro ⟨rfl, rfl⟩
    rfl

/-- The number of a block is followed by a dot where a state shows, and by the bracket
    where an entry does. -/
theorem entry_text_ne_state_text (i j q : Nat) : (entry i).text ≠ (state j q).text := by
  intro h
  rw [← String.toList_inj, toList_entry_text, toList_state_text] at h
  have behind := (repr_append_inj (by decide) (by decide) (List.cons.inj (List.cons.inj h).2).2).2.1
  exact absurd behind (by decide)

/-- Nonterminals that show alike are the same. -/
theorem text_inj (hm : m.WellSpelled) (hn : n.WellSpelled) : m.text = n.text ↔ m = n := by
  refine ⟨fun h => ?_, congrArg text⟩
  cases m with
  | named name =>
      cases n with
      | named name' => exact congrArg named h
      | entry j => exact absurd h (name_ne_text hm rfl)
      | state j q => exact absurd h (name_ne_text hm rfl)
  | entry i =>
      cases n with
      | named name => exact absurd h.symm (name_ne_text hn rfl)
      | entry j => exact congrArg entry (entry_text_inj.mp h)
      | state j q => exact absurd h (entry_text_ne_state_text i j q)
  | state i p =>
      cases n with
      | named name => exact absurd h.symm (name_ne_text hn rfl)
      | entry j => exact absurd h.symm (entry_text_ne_state_text j i p)
      | state j q =>
          obtain ⟨rfl, rfl⟩ := state_text_inj.mp h
          rfl

end Nonterminal

/-! ## Nonterminals of a parsed grammar -/

variable {σ σ' E E' A A' L L' : Type}

/-- The nonterminal stands somewhere in the grammar. -/
inductive Grammar.Mentions (g : Grammar L) : Nonterminal → Prop
  | start : Mentions g g.start
  | head {p : Production L} : p ∈ g.productions → Mentions g p.head
  | body {p : Production L} {n : Nonterminal} :
      p ∈ g.productions → .nonterminal n ∈ p.body → Mentions g n

variable [Automaton A L] [Automaton A' L']

/-- A name that an automaton may use is none of the source. -/
theorem InBlock.wellSpelled {id : Nat} {a : A} {n : Nonterminal} (h : InBlock id a n) :
    n.WellSpelled := by
  cases h <;> exact trivial

variable [Label L] [Label L']

/-- What a well spelled rule mentions shows in its production as it is spelled. -/
theorem Rule.WellSpelled.wellSpelled_of_mem {r : Rule} {known : List (String × A)}
    {n : Nonterminal} (spelled : r.WellSpelled)
    (h : .nonterminal n ∈ (r.production (symbolOf (L := L) known)).body) : n.WellSpelled := by
  obtain ⟨m, hm, symbol⟩ := List.mem_filterMap.mp h
  cases m with
  | name name =>
      obtain rfl : .named name = n := Symbol.nonterminal.inj (Option.some.inj symbol)
      exact spelled.body _ hm
  | fragment text =>
      obtain ⟨id, rfl⟩ := eq_entry_of_symbolOf symbol
      exact trivial

/-- All names in a parsed grammar are spelled as names of a source are. -/
theorem Grammar.Mentions.wellSpelled {c : Compiler σ E A} {source : String} {s : σ}
    {g : Grammar L} {n : Nonterminal} (hn : g.Mentions n)
    (h : (parse c source s).result = .ok g) : n.WellSpelled := by
  obtain ⟨w, hw, rfl⟩ := parse_eq_ok_iff.mp h
  obtain ⟨first, second, rest, rules, split, hf, -, cut, start, productions⟩ := read_writes hw
  have tokensSpelled := (tiles_iff.mpr split).wellSpelled
  have firstSpelled : IsWord startsName first.source.toList := (tokensSpelled first (by simp)).1 hf
  have rulesSpelled {r : Rule} (hr : r ∈ rules) : r.WellSpelled :=
    cut.wellSpelled firstSpelled (fun t ht => tokensSpelled t (by simp [ht])) hr
  -- a production is that of a rule or stands in a block
  have origin {p : Production L} (hp : p ∈ w.grammar.productions) :
      (∃ r ∈ rules, r.production (symbolOf (c.automata (tokens source) s)) = p) ∨
        ∃ b ∈ w.recorded, p ∈ embed b.1 b.2 := by
    rcases List.mem_append.mp hp with written | embedded
    · rw [productions] at written
      exact .inl (List.mem_map.mp written)
    · rw [w.embedded_eq] at embedded
      exact .inr (List.mem_flatMap.mp embedded)
  cases hn with
  | start =>
      show w.start.WellSpelled
      rw [start]
      exact firstSpelled
  | head hp =>
      rcases origin hp with ⟨r, hr, rfl⟩ | ⟨b, -, hb⟩
      · exact (rulesSpelled hr).head
      · exact (inBlock_of_mem_embed hb).1.wellSpelled
  | body hp hn =>
      rcases origin hp with ⟨r, hr, rfl⟩ | ⟨b, -, hb⟩
      · exact (rulesSpelled hr).wellSpelled_of_mem hn
      · exact ((inBlock_of_mem_embed hb).2 _ hn).wellSpelled

/-- Nonterminals of parsed grammars show alike only if they are the same, whichever sources
    the grammars come from and whatever compiled their fragments.  A name of a source shows
    like no automaton or state, and these show their numbers. -/
theorem parse_names_apart {c : Compiler σ E A} {c' : Compiler σ' E' A'}
    {source source' : String} {s : σ} {s' : σ'} {g : Grammar L} {g' : Grammar L'}
    (h : (parse c source s).result = .ok g) (h' : (parse c' source' s').result = .ok g')
    {n n' : Nonterminal} (hn : g.Mentions n) (hn' : g'.Mentions n') :
    (n.text = n'.text ↔ n = n') ∧
      (∀ name, n = .named name → ∀ i q, n.text ≠ (Nonterminal.entry i).text ∧
        n.text ≠ (Nonterminal.state i q).text) ∧
      (∀ i j, (Nonterminal.entry i).text = (Nonterminal.entry j).text ↔ i = j) ∧
      (∀ i p j q, (Nonterminal.state i p).text = (Nonterminal.state j q).text ↔ i = j ∧ p = q) ∧
      ∀ i j q, (Nonterminal.entry i).text ≠ (Nonterminal.state j q).text := by
  have spelled := hn.wellSpelled h
  refine ⟨Nonterminal.text_inj spelled (hn'.wellSpelled h'), ?_,
    fun _ _ => Nonterminal.entry_text_inj, fun _ _ _ _ => Nonterminal.state_text_inj,
    Nonterminal.entry_text_ne_state_text⟩
  rintro name rfl i q
  exact ⟨Nonterminal.name_ne_text spelled rfl, Nonterminal.name_ne_text spelled rfl⟩

/-- A source with one rule, of which the only fragment is embedded, is read as this rule and
    the block behind it. -/
theorem parse_of_embeds {c : Compiler σ E A} {source name text : String} {p q r u : Span}
    {s s' : σ} {a : A}
    (cut : tokens source = [⟨.nonterminal, name, p⟩, ⟨.arrow, "->", q⟩, ⟨.fragment, text, r⟩,
      ⟨.stop, "", u⟩])
    (answer : c text s = (.ok a, s')) (verdict : Verdict.of a = (.embeds : Verdict L)) :
    (parse c source s).result = .ok ⟨.named name,
      ⟨.named name, [.nonterminal (.entry 0)]⟩ :: (embed 0 a : List (Production L))⟩ := by
  simp [parse, read, cut, Stage.run, Stage.turn, Draft.turn, Draft.opened, Draft.push,
    Draft.commit, Draft.production, Draft.finish, Resolver.resolve, Resolver.empty, answer,
    Resolver.learn, verdict, Written.grammar, Written.embedded_eq]

/-- Takes every text for one or more digits. -/
def digits : Compiler Unit String (ListedAutomaton CharKind) :=
  .ofFunction fun _ => .ok ⟨0, [0, 1], [1], [⟨0, 1, .digit⟩, ⟨1, 1, .digit⟩]⟩

/-- An automaton for digits has a second state to loop on, so it is embedded. -/
theorem verdict_digits : Verdict.of
    (⟨0, [0, 1], [1], [⟨0, 1, .digit⟩, ⟨1, 1, .digit⟩]⟩ : ListedAutomaton CharKind) = .embeds := by
  have reads : (⟨0, 1, .digit⟩ : Move CharKind).isEpsilon = false ∧
      (⟨1, 1, .digit⟩ : Move CharKind).isEpsilon = false := by
    decide
  simp [Verdict.of, Automaton.acceptsOnlyEpsilon, Automaton.acceptsEmpty, Automaton.silentEdges,
    Automaton.singleTerminal, Automaton.soleLabel, closure, explore, fresh, successors, reads]

/-- Two grammars over different labels, with a name that looks like that of an automaton. -/
theorem parse_names_apart_digits :
    ∃ (g : Grammar CaseBlind) (g' : Grammar CharKind),
      (parse letters "#r0 -> a*" ()).result = .ok g ∧ (parse digits "S -> 9" ()).result = .ok g' ∧
      g.Mentions (.named "#r0") ∧ g.Mentions (.entry 0) ∧ g'.Mentions (.state 0 1) ∧
      (Nonterminal.named "#r0").text ≠ (Nonterminal.state 0 1).text ∧
      (Nonterminal.entry 0).text ≠ (Nonterminal.state 0 1).text := by
  have cut : tokens "#r0 -> a*" = [⟨.nonterminal, "#r0", ⟨0, 3⟩⟩, ⟨.arrow, "->", ⟨4, 6⟩⟩,
      ⟨.fragment, "a*", ⟨7, 9⟩⟩, ⟨.stop, "", ⟨9, 9⟩⟩] := by
    decide +kernel
  have cut' : tokens "S -> 9" = [⟨.nonterminal, "S", ⟨0, 1⟩⟩, ⟨.arrow, "->", ⟨2, 4⟩⟩,
      ⟨.fragment, "9", ⟨5, 6⟩⟩, ⟨.stop, "", ⟨6, 6⟩⟩] := by
    decide +kernel
  have reads : Label.isEpsilon (⟨"a"⟩ : CaseBlind) = false := by
    decide +kernel
  obtain ⟨g, parsed, written⟩ : ∃ g : Grammar CaseBlind,
      (parse letters "#r0 -> a*" ()).result = .ok g ∧ g = ⟨.named "#r0", _ :: _⟩ :=
    ⟨_, parse_of_embeds cut rfl (Verdict.of_loop reads), rfl⟩
  obtain ⟨g', parsed', written'⟩ : ∃ g' : Grammar CharKind,
      (parse digits "S -> 9" ()).result = .ok g' ∧ g' = ⟨.named "S", _ :: _⟩ :=
    ⟨_, parse_of_embeds cut' rfl verdict_digits, rfl⟩
  have named : g.Mentions (.named "#r0") := by
    rw [written]
    exact .start
  have entry : g.Mentions (.entry 0) := by
    rw [written]
    exact .body List.mem_cons_self List.mem_cons_self
  have state : g'.Mentions (.state 0 1) := by
    rw [written']
    -- the final state comes last in the block
    exact .head (p := .epsilon (.state 0 1))
      (List.mem_cons_of_mem _ (List.mem_append_right _ List.mem_cons_self))
  refine ⟨g, g', parsed, parsed', named, entry, state, ?_, ?_⟩
  · intro alike
    cases (parse_names_apart parsed parsed' named state).1.mp alike
  · intro alike
    cases (parse_names_apart parsed parsed' entry state).1.mp alike

end FragmentGrammar
