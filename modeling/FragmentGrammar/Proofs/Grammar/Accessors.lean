import FragmentGrammar.Proofs.Grammar.Equality
import FragmentGrammar.Proofs.Parser.Segmentation

/-! # What a grammar is asked for

    A grammar is asked for the heads of its productions, for the productions of a head and
    for its terminals.  Heads and terminals are given where they first occur, so the
    productions of all heads, one head after the other, are the productions of the grammar
    in another order (`flatMap_productionsOf`).  Grammars that are equal answer alike, even
    where the terminals that they keep come from different texts (`Grammar.sameAnswers`).
    In a parsed grammar the first head is the start symbol (`parse_partitioned`). -/

namespace FragmentGrammar

variable {α κ σ E A L : Type}

/-! ## Grouping by a key -/

/-- Groups of all keys together are the items, each as often as it was there. -/
theorem flatMap_filter_perm [DecidableEq κ] {keys : List κ} {items : List α} (key : α → κ)
    (distinct : keys.Nodup) (covered : ∀ a ∈ items, key a ∈ keys) :
    (keys.flatMap fun k => items.filter (key · = k)).Perm items := by
  induction keys generalizing items with
  | nil =>
      have none : items = [] := by
        rw [List.eq_nil_iff_forall_not_mem]
        intro a ha
        cases covered a ha
      rw [none]
      exact .nil
  | cons k keys ih =>
      obtain ⟨absent, distinct⟩ := List.nodup_cons.mp distinct
      -- the items of the other keys are not among those of the first
      have others : (keys.flatMap fun j => items.filter (key · = j)) =
          keys.flatMap fun j =>
            (items.filter (fun a => !decide (key a = k))).filter (key · = j) := by
        refine List.flatMap_congr ?_
        intro j hj
        rw [List.filter_filter]
        refine List.filter_congr ?_
        intro a _
        by_cases here : key a = j
        · have apart : key a ≠ k := by
            rintro rfl
            exact absent (here ▸ hj)
          simp [here, here ▸ apart]
        · simp [here]
      have covered' : ∀ a ∈ items.filter (fun a => !decide (key a = k)), key a ∈ keys := by
        intro a ha
        obtain ⟨mem, other⟩ := List.mem_filter.mp ha
        rcases List.mem_cons.mp (covered a mem) with same | later
        · simp [same] at other
        · exact later
      rw [List.flatMap_cons, others]
      exact ((ih distinct covered').append_left _).trans (List.filter_append_perm _ items)

namespace Grammar

/-! ## Heads and their productions -/

section Productions

variable {g : Grammar L} {n : Nonterminal} {p : Production L}

/-- The heads of productions are listed. -/
theorem mem_nonterminals : n ∈ g.nonterminals ↔ ∃ p ∈ g.productions, p.head = n := by
  rw [nonterminals, List.mem_eraseDups, List.mem_map]

/-- The productions of a nonterminal are all those with that head. -/
theorem mem_productionsOf : p ∈ g.productionsOf n ↔ p ∈ g.productions ∧ p.head = n := by
  simp [productionsOf]

/-- A nonterminal has productions exactly when it is the head of one. -/
theorem productionsOf_ne_nil_iff : g.productionsOf n ≠ [] ↔ n ∈ g.nonterminals := by
  rw [mem_nonterminals]
  constructor
  · intro some
    obtain ⟨p, hp⟩ := List.exists_mem_of_ne_nil _ some
    exact ⟨p, mem_productionsOf.mp hp⟩
  · rintro ⟨p, hp⟩
    exact List.ne_nil_of_mem (mem_productionsOf.mpr hp)

/-- Grouping productions by their heads loses none and repeats none. -/
theorem flatMap_productionsOf (g : Grammar L) :
    (g.nonterminals.flatMap g.productionsOf).Perm g.productions := by
  refine flatMap_filter_perm Production.head (nodup_eraseDups _) ?_
  intro p hp
  exact mem_nonterminals.mpr ⟨p, hp, rfl⟩

end Productions

/-- The terminals of all bodies, each as often as it stands there. -/
def bodyTerminals (g : Grammar L) : List (Terminal L) :=
  g.productions.flatMap fun p => p.body.filterMap Symbol.terminal?

/-! ## Equal grammars -/

/-- The grammars answer alike, up to the texts that their terminals come from. -/
structure SameAnswers [BEq L] (g h : Grammar L) : Prop where
  nonterminals : g.nonterminals = h.nonterminals
  productionsOf : ∀ n, (g.productionsOf n == h.productionsOf n) = true
  terminals : (g.terminals == h.terminals) = true

section SameAnswers

variable [BEq L] {g h : Grammar L}

/-- Equal productions have equal terminals at the same places. -/
theorem bodyTerminals_beq (same : (g.productions == h.productions) = true) :
    (g.bodyTerminals == h.bodyTerminals) = true := by
  have symbols : ∀ x y : Symbol L, (x == y) = true →
      Option.Rel (fun s t : Terminal L => (s == t) = true) x.terminal? y.terminal? := by
    intro x y hxy
    cases x with
    | nonterminal m =>
        cases y with
        | nonterminal n => exact .none
        | terminal t => cases hxy
    | terminal s =>
        cases y with
        | nonterminal n => cases hxy
        | terminal t => exact .some hxy
  refine beq_iff_forall₂.mpr (List.rel_flatMap (beq_iff_forall₂.mp same) ?_)
  intro p q hpq
  exact List.rel_filterMap symbols (beq_iff_forall₂.mp (Production.beq_iff.mp hpq).2)

/-- Equal grammars give equal answers. -/
theorem sameAnswers [EquivBEq L] (same : (g == h) = true) : g.SameAnswers h := by
  obtain ⟨-, productions⟩ := beq_iff.mp same
  have heads : g.productions.map (·.head) = h.productions.map (·.head) := by
    rw [← List.forall₂_eq_eq_eq, List.forall₂_map_left_iff, List.forall₂_map_right_iff]
    exact (beq_iff_forall₂.mp productions).imp fun p q hpq => (Production.beq_iff.mp hpq).1
  refine ⟨congrArg List.eraseDups heads, ?_,
    eraseDups_beq_eraseDups (bodyTerminals_beq productions)⟩
  intro n
  refine filter_beq_filter ?_ productions
  intro p q hpq
  rw [(Production.beq_iff.mp hpq).1]

end SameAnswers

/-! ## Parsed grammars -/

/-- What a grammar answers tells its productions and its terminals apart, and leaves none
    of them out. -/
structure Partitioned [BEq L] (g : Grammar L) : Prop where
  /-- The heads are listed once each, where they first appear. -/
  heads : FirstOccurrences (g.productions.map (·.head)) g.nonterminals
  start : g.nonterminals.head? = some g.start
  /-- Just the listed nonterminals have productions. -/
  nonempty : ∀ n, g.productionsOf n ≠ [] ↔ n ∈ g.nonterminals
  /-- The productions of a nonterminal are those with that head, in the order of the
      grammar. -/
  productionsOf : ∀ n, (g.productionsOf n).Sublist g.productions ∧
    ∀ p, p ∈ g.productionsOf n ↔ p ∈ g.productions ∧ p.head = n
  /-- Every production belongs to one nonterminal of the list, as often as it was made. -/
  whole : (g.nonterminals.flatMap g.productionsOf).Perm g.productions
  /-- Terminals with equal labels are listed once, as the first of them in the grammar. -/
  terminals : FirstOccurrences g.bodyTerminals g.terminals

end Grammar

variable [Automaton A L] [Label L] {c : Compiler σ E A} {source : String} {s : σ}

/-- A parsed grammar lists its heads and its terminals where they first occur, beginning
    with the start symbol, and the productions of the heads that it lists are all that it
    has.  An equal grammar gives equal answers. -/
theorem parse_partitioned [EquivBEq L] {g : Grammar L} (h : (parse c source s).result = .ok g) :
    g.Partitioned ∧ ∀ g' : Grammar L, (g == g') = true → g.SameAnswers g' := by
  refine ⟨⟨firstOccurrences_eraseDups _, ?_, fun n => Grammar.productionsOf_ne_nil_iff, ?_,
    g.flatMap_productionsOf, firstOccurrences_eraseDups _⟩, fun g' => Grammar.sameAnswers⟩
  · obtain ⟨p, ps, productions, head⟩ := exists_first_production h
    rw [Grammar.nonterminals, productions, List.map_cons, List.eraseDups_cons, head]
    rfl
  · intro n
    exact ⟨List.filter_sublist, fun p => Grammar.mem_productionsOf⟩

/-- The rules of `S` and `T`, with a letter for each. -/
def twoLetters (first second : String) : Grammar CaseBlind :=
  ⟨.named "S", [⟨.named "S", [.terminal ⟨⟨first⟩, first⟩]⟩,
    ⟨.named "T", [.terminal ⟨⟨second⟩, second⟩]⟩]⟩

/-- Two names, each with one letter of two bytes, are read as their rules. -/
theorem parse_eq_twoLetters {source first second : String}
    (cut : tokens source = [⟨.nonterminal, "S", ⟨0, 1⟩⟩, ⟨.arrow, "->", ⟨2, 4⟩⟩,
      ⟨.fragment, first, ⟨5, 7⟩⟩, ⟨.nonterminal, "T", ⟨8, 9⟩⟩, ⟨.arrow, "->", ⟨10, 12⟩⟩,
      ⟨.fragment, second, ⟨13, 15⟩⟩, ⟨.stop, "", ⟨15, 15⟩⟩])
    (one : first ≠ "~" ∧ first ≠ "a*") (two : second ≠ "~" ∧ second ≠ "a*")
    (apart : second ≠ first) (reads : Label.isEpsilon (⟨first⟩ : CaseBlind) = false ∧
      Label.isEpsilon (⟨second⟩ : CaseBlind) = false) :
    (parse letters source ()).result = .ok (twoLetters first second) := by
  have new : (second == first) = false := beq_eq_false_iff_ne.mpr apart
  simp [parse, read, cut, Stage.run, Stage.turn, Draft.turn, Draft.opened, Draft.push,
    Draft.commit, Draft.production, Draft.chain, Draft.finish, Resolver.resolve, Resolver.empty,
    Resolver.learn, List.lookup_cons, letters, Compiler.ofFunction, one, two, new,
    Verdict.of_letter, reads, Written.grammar, Written.embedded, Written.blocks, twoLetters]

/-- Two spellings of one letter, in either order.  The grammars are equal, and each keeps
    the spelling that comes first in it. -/
theorem parse_partitioned_twoLetters :
    (parse letters "S -> xy T -> xY" ()).result = .ok (twoLetters "xy" "xY") ∧
      (parse letters "S -> xY T -> xy" ()).result = .ok (twoLetters "xY" "xy") ∧
      (twoLetters "xy" "xY").terminals.map (·.source) = ["xy"] ∧
      (twoLetters "xY" "xy").terminals.map (·.source) = ["xY"] ∧
      (twoLetters "xy" "xY").Partitioned ∧
      (twoLetters "xy" "xY").SameAnswers (twoLetters "xY" "xy") := by
  have parsed : (parse letters "S -> xy T -> xY" ()).result = .ok (twoLetters "xy" "xY") :=
    parse_eq_twoLetters (by decide +kernel) (by decide) (by decide) (by decide) (by decide +kernel)
  have parsed' : (parse letters "S -> xY T -> xy" ()).result = .ok (twoLetters "xY" "xy") :=
    parse_eq_twoLetters (by decide +kernel) (by decide) (by decide) (by decide) (by decide +kernel)
  obtain ⟨partitioned, alike⟩ := parse_partitioned parsed
  exact ⟨parsed, parsed', by decide +kernel, by decide +kernel, partitioned,
    alike _ (by decide +kernel)⟩

end FragmentGrammar
