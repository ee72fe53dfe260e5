import FragmentGrammar.Proofs.Automaton.Language
import FragmentGrammar.Proofs.Embedding.Language
import FragmentGrammar.Proofs.Parser.Segmentation

/-! # Parsing preserves meaning

    A source is a grammar of its own, in which a fragment stands for the words of its
    automaton.  The grammar that parsing gives derives the same words from every name,
    up to the equality of labels (`parse_preserves_language`).  Each direction reads the
    symbols of one grammar as words of the other and checks that this reading is closed
    under the rules; what a fragment became, nothing, a terminal or the entry of a block,
    matters in one lemma for each direction and nowhere else. -/

namespace FragmentGrammar

open Automaton

variable {σ E A L : Type}

/-! ## Sequences, symbol by symbol -/

section Sequences

variable [BEq L] {X Y : Type} {rule : X → List X → Prop} {word : X → List L → Prop}

/-- Words that are spelled up to equal labels may be joined. -/
theorem UpTo.append {xs ys : List X} {u v : List L} (h : UpTo (Spells rule word xs) u)
    (h' : UpTo (Spells rule word ys) v) : UpTo (Spells rule word (xs ++ ys)) (u ++ v) := by
  obtain ⟨u', hu, e⟩ := h
  obtain ⟨v', hv, e'⟩ := h'
  exact ⟨u' ++ v', hu.append hv, sameWord_append e e'⟩

/-- If all symbols are derived from what they are translated to, so are sequences. -/
theorem upTo_spells_flatMap (f : Y → List X) {ys : List Y} {w : List L}
    (h : Concat (fun y => UpTo (Spells rule word (f y))) ys w) :
    UpTo (Spells rule word (ys.flatMap f)) w := by
  induction ys generalizing w with
  | nil =>
      obtain rfl : w = [] := h
      exact ⟨[], .nil, sameWord_nil⟩
  | cons y ys ih =>
      obtain ⟨u, v, rfl, hu, hv⟩ := h
      rw [List.flatMap_cons]
      exact hu.append (ih hv)

/-- If the translations of all symbols stand for words of these symbols, so do the
    translations of sequences. -/
theorem upTo_spells_of_concat_flatMap {M : Y → List L → Prop} (f : X → List Y) {xs : List X}
    (sound : ∀ x ∈ xs, ∀ w, Concat M (f x) w → UpTo (Spells rule word [x]) w) {w : List L}
    (h : Concat M (xs.flatMap f) w) : UpTo (Spells rule word xs) w := by
  induction xs generalizing w with
  | nil =>
      obtain rfl : w = [] := h
      exact ⟨[], .nil, sameWord_nil⟩
  | cons x xs ih =>
      rw [List.flatMap_cons, concat_append] at h
      obtain ⟨u, v, rfl, hu, hv⟩ := h
      have head := sound x List.mem_cons_self u hu
      have tail := ih (fun y hy => sound y (List.mem_cons_of_mem _ hy)) hv
      exact head.append tail

end Sequences

/-! ## Completed rules -/

variable [Automaton A L] [Label L]

/-- What fragments stand for, when their automata are known. -/
def languageOf (known : List (String × A)) (text : String) (w : List L) : Prop :=
  ∃ a, known.lookup text = some a ∧ Accepts a w

/-- The productions of rules and of the automata that they mention. -/
def completed (known : List (String × A)) (rules : List Rule) : List (Production L) :=
  rules.map (Rule.production (symbolOf known)) ++
    (Resolver.knowing known : Resolver A L).recorded.flatMap fun r => embed r.1 r.2

/-- The symbols that a mention leaves, none or one. -/
def Mention.symbols (known : List (String × A)) (x : Mention) : List (Symbol L) :=
  (x.symbol (symbolOf known)).toList

variable {known : List (String × A)} {rules : List Rule} {text name : String} {a : A}
variable {w : List L} {c : Compiler σ E A} {source : String} {s : σ}

/-- The body of a production is what the mentions of its rule leave. -/
theorem body_production (r : Rule) :
    (r.production (symbolOf (L := L) known)).body = r.body.flatMap (Mention.symbols known) := by
  show List.filterMap _ _ = _
  rw [List.filterMap_eq_flatMap_toList]
  rfl

/-- The production of a rule is in the completed grammar. -/
theorem mem_completed_of_rule {r : Rule} (h : r ∈ rules) :
    r.production (symbolOf known) ∈ (completed known rules : List (Production L)) :=
  List.mem_append_left _ (List.mem_map_of_mem h)

/-- So are those of the block of each recorded automaton. -/
theorem mem_completed_of_recorded {r : Nat × A} {p : Production L}
    (h : r ∈ (Resolver.knowing known : Resolver A L).recorded) (hp : p ∈ embed r.1 r.2) :
    p ∈ completed known rules :=
  List.mem_append_right _ (List.mem_flatMap.mpr ⟨r, h, hp⟩)

/-- The grammar of an accepted source is that of its rules, completed. -/
theorem read_completed {w : Written A L} (h : (read c source s).result = .ok w) :
    ∃ start rules, reading? (tokens source) = some (start, rules) ∧
      w.grammar = ⟨.named start, completed (c.automata (tokens source) s) rules⟩ ∧
      ∀ r ∈ rules, ∀ text, .fragment text ∈ r.body →
        ∃ a, (c.automata (tokens source) s).lookup text = some a := by
  obtain ⟨first, second, rest, rules, split, hf, hs, cut, start, productions⟩ := read_writes h
  obtain ⟨⟨s', consulted⟩, recorded⟩ := read_consulted h
  refine ⟨first.source, rules, ?_, ?_, ?_⟩
  · rw [split, reading?, if_pos ⟨hf, hs⟩, cut.rulesOf_eq]
  · rw [Written.grammar, Written.embedded_eq, start, productions, recorded]
    rfl
  · intro r hr text hm
    obtain ⟨t, ht, fragment, named⟩ := cut.exists_fragment hr hm
    refine consulted.exists_lookup (mem_fragmentsOf.mpr ⟨t, ?_, fragment, named⟩)
    rw [split]
    exact ht

/-! ## From rules to productions -/

section Forward

variable [EquivBEq L] [LawfulAutomaton A L]

/-- What is left of a fragment derives the words of its automaton. -/
theorem upTo_derives_of_language (h : languageOf known text w) :
    UpTo (Derives (completed known rules) (Mention.symbols known (.fragment text))) w := by
  obtain ⟨a, found, accepts⟩ := h
  rw [Mention.symbols, Mention.symbol]
  cases hv : (Verdict.of a : Verdict L) with
  | vanishes =>
      have only := Verdict.of_eq_vanishes_iff.mp hv
      obtain rfl := (acceptsOnlyEpsilon_iff.mp only w).mp accepts
      rw [symbolOf_of_vanishes found hv]
      exact ⟨[], .nil, sameWord_nil⟩
  | terminal l =>
      have single := Verdict.of_eq_terminal hv
      obtain rfl := (accepts_iff_of_singleTerminal single).mp accepts
      rw [symbolOf_of_terminal found hv]
      exact UpTo.of_mem (Derives.terminal ⟨l, text⟩)
  | embeds =>
      have recorded := mem_recorded_of_lookup found hv
      obtain ⟨v, block, e⟩ := derives_of_acceptsFrom accepts
      rw [stateName_initial] at block
      rw [symbolOf_of_embeds found hv]
      exact ⟨v, block.mono fun p hp => mem_completed_of_recorded recorded hp, e⟩

/-- What the rules generate, the completed grammar derives. -/
theorem upTo_derives_of_rules (h : RulesGenerate rules (languageOf known) name w) :
    UpTo (Derives (completed known rules) [.nonterminal (.named name)]) w := by
  let M : Mention → List L → Prop :=
    fun x => UpTo (Derives (completed known rules) (Mention.symbols known x))
  have closed : Closed (Rule.Replaces rules) (Mention.Spelled (languageOf known)) M := by
    refine ⟨?_, ?_⟩
    · rintro _ _ ⟨text, rfl, h⟩
      exact upTo_derives_of_language h
    · rintro _ _ u ⟨r, hr, rfl, rfl⟩ hu
      obtain ⟨v, hv, e⟩ := upTo_spells_flatMap (Mention.symbols known) hu
      rw [← body_production] at hv
      exact ⟨v, Derives.of_production (mem_completed_of_rule hr) hv, e⟩
  exact closed.holds h

end Forward

/-! ## From productions to rules -/

/-- Symbols of the grammar read as words of the source: a name as what its rules
    generate, a state of a block as what its automaton reads from there. -/
def Symbol.Read (known : List (String × A)) (rules : List Rule) : Symbol L → List L → Prop
  | .terminal t, w => SameWord [t.label] w
  | .nonterminal (.named name), w => UpTo (RulesGenerate rules (languageOf known) name) w
  | .nonterminal n, w => BlocksRead (Resolver.knowing known : Resolver A L).recorded n w

theorem read_stateName {r : Nat × A} {q : Nat}
    (h : r ∈ (Resolver.knowing known : Resolver A L).recorded) :
    Symbol.Read known rules (.nonterminal (stateName r.1 r.2 q)) w ↔
      UpTo (AcceptsFrom r.2 q) w := by
  rw [← blocksRead_stateName h fun r' h' same => eq_of_mem_recorded h h' same, stateName]
  split <;> rfl

variable [LawfulAutomaton A L]

/-- What is left of a fragment stands for words of its automaton only. -/
theorem upTo_language_of_read (found : known.lookup text = some a)
    (h : Concat (Symbol.Read known rules) (Mention.symbols known (.fragment text)) w) :
    UpTo (languageOf known text) w := by
  rw [Mention.symbols, Mention.symbol] at h
  cases hv : (Verdict.of a : Verdict L) with
  | vanishes =>
      have only := Verdict.of_eq_vanishes_iff.mp hv
      rw [symbolOf_of_vanishes found hv] at h
      obtain rfl : w = [] := h
      exact ⟨[], ⟨a, found, (acceptsOnlyEpsilon_iff.mp only []).mpr rfl⟩, sameWord_nil⟩
  | terminal l =>
      have single := Verdict.of_eq_terminal hv
      rw [symbolOf_of_terminal found hv, Option.toList_some, concat_singleton] at h
      exact ⟨[l], ⟨a, found, (accepts_iff_of_singleTerminal single).mpr rfl⟩, h⟩
  | embeds =>
      have recorded := mem_recorded_of_lookup found hv
      rw [symbolOf_of_embeds found hv, Option.toList_some, concat_singleton,
        ← stateName_initial _ a] at h
      obtain ⟨v, accepts, e⟩ := (read_stateName recorded).mp h
      exact ⟨v, ⟨a, found, accepts⟩, e⟩

/-- A mention has the words that what is left of it stands for. -/
theorem upTo_mention_of_read {x : Mention}
    (found : ∀ text, x = .fragment text → ∃ a, known.lookup text = some a)
    (h : Concat (Symbol.Read known rules) (Mention.symbols known x) w) :
    UpTo (Spells (Rule.Replaces rules) (Mention.Spelled (languageOf known)) [x]) w := by
  cases x with
  | name n => exact concat_singleton.mp h
  | fragment text =>
      obtain ⟨a, ha⟩ := found text rfl
      obtain ⟨v, hv, e⟩ := upTo_language_of_read ha h
      exact ⟨v, Spells.of_word ⟨text, rfl, hv⟩, e⟩

variable [EquivBEq L]

/-- What the completed grammar derives, the rules generate. -/
theorem upTo_rules_of_derives
    (mentioned : ∀ r ∈ rules, ∀ text, .fragment text ∈ r.body → ∃ a, known.lookup text = some a)
    (h : Derives (completed known rules) [.nonterminal (.named name)] w) :
    UpTo (RulesGenerate rules (languageOf known) name) w := by
  have closed : Closed (Production.Replaces (completed known rules)) Terminal.Spelled
      (Symbol.Read known rules) := by
    refine ⟨?_, ?_⟩
    · rintro _ _ ⟨t, rfl, rfl⟩
      exact SameWord.refl _
    · rintro _ _ u ⟨p, hp, rfl, rfl⟩ hu
      rcases List.mem_append.mp hp with written | embedded
      · -- a written production stands for its rule, mention by mention
        obtain ⟨r, hr, rfl⟩ := List.mem_map.mp written
        rw [body_production] at hu
        have found : ∀ x ∈ r.body, ∀ text, x = .fragment text →
            ∃ a, known.lookup text = some a := by
          rintro _ hx text rfl
          exact mentioned r hr text hx
        obtain ⟨v, hv, e⟩ := upTo_spells_of_concat_flatMap _
          (fun x hx _ => upTo_mention_of_read (found x hx)) hu
        exact ⟨v, Spells.of_rule ⟨r, hr, rfl, rfl⟩ hv, e⟩
      · -- a production of a block is a move or a final state of its automaton
        obtain ⟨r, hr, hp⟩ := List.mem_flatMap.mp embedded
        exact head_of_concat_body (fun _ _ h => h) (fun _ _ => read_stateName hr) hp hu
  exact closed.holds h

/-- Rules and the productions that they are completed to generate the same words. -/
theorem sameLanguage_completed
    (mentioned : ∀ r ∈ rules, ∀ text, .fragment text ∈ r.body → ∃ a, known.lookup text = some a)
    (name : String) :
    SameLanguage (Derives (completed known rules) [.nonterminal (.named name)])
      (RulesGenerate rules (languageOf known) name) :=
  SameLanguage.of_subset (fun _ => upTo_rules_of_derives mentioned)
    fun _ => upTo_derives_of_rules

/-! ## Parsing -/

/-- From every name, the grammar of an accepted source derives the words that the name
    has in the source, when each fragment stands for the words of the automaton that the
    compiler gave where the fragment first occurs. -/
theorem parse_preserves_language {g : Grammar L} (h : (parse c source s).result = .ok g) :
    ∃ start rules, reading? (tokens source) = some (start, rules) ∧ g.start = .named start ∧
      ∀ name, SameLanguage (g.Generates (.named name))
        (RulesGenerate rules
          (fun text w => ∃ a,
            (c.consult (fragmentsOf (tokens source)) s).lookup text = some (.ok a) ∧
              Accepts a w)
          name) := by
  obtain ⟨w, hw, rfl⟩ := parse_eq_ok_iff.mp h
  obtain ⟨start, rules, reading, grammar, mentioned⟩ := read_completed hw
  obtain ⟨⟨s', consulted⟩, -⟩ := read_consulted hw
  have language : (fun text w => ∃ a,
      (c.consult (fragmentsOf (tokens source)) s).lookup text = some (.ok a) ∧
        Accepts a w) = languageOf (c.automata (tokens source) s) := by
    funext text w
    rw [consulted.lookup]
    simp [languageOf]
  refine ⟨start, rules, reading, by rw [grammar], ?_⟩
  intro name
  rw [language, grammar]
  exact sameLanguage_completed mentioned name

/-- Two names, a fragment that is embedded, one that is a terminal and one that leaves
    nothing. -/
theorem parse_preserves_language_letters :
    ∃ g, (parse letters "S -> a* T T -> b | ~" ()).result = .ok g ∧ g.start = .named "S" ∧
      ∀ name, SameLanguage (g.Generates (.named name))
        (RulesGenerate
          [⟨"S", [.fragment "a*", .name "T"]⟩, ⟨"T", [.fragment "b"]⟩, ⟨"T", [.fragment "~"]⟩]
          (fun text w => ∃ a,
            (letters.consult ["a*", "b", "~"] ()).lookup text = some (.ok a) ∧ Accepts a w)
          name) := by
  have orderly : Orderly (tokens "S -> a* T T -> b | ~") := by
    decide +kernel
  have reading : reading? (tokens "S -> a* T T -> b | ~") = some ("S",
      [⟨"S", [.fragment "a*", .name "T"]⟩, ⟨"T", [.fragment "b"]⟩, ⟨"T", [.fragment "~"]⟩]) := by
    decide +kernel
  have fragments : fragmentsOf (tokens "S -> a* T T -> b | ~") = ["a*", "b", "~"] := by
    decide +kernel
  obtain ⟨g, h⟩ := exists_parse_ok orderly (consult_ok letters_total _ ())
  obtain ⟨start, rules, read, named, same⟩ := parse_preserves_language h
  rw [reading] at read
  obtain ⟨rfl, rfl⟩ := Prod.mk.inj (Option.some.inj read)
  rw [fragments] at same
  exact ⟨g, h, named, same⟩

end FragmentGrammar
