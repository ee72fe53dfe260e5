import FragmentGrammar.Label.CaseBlind
import FragmentGrammar.Automaton.Listed
import FragmentGrammar.Proofs.Embedding.Names
import FragmentGrammar.Proofs.FirstOccurrence
import FragmentGrammar.Written
import Mathlib.Data.Finset.Card

/-! # The tables of a finished block

    A state gets its name where it is first mentioned and a label gets its terminal where
    it is first read.  So the tables of a finished block are the first occurrences among
    all mentioned states, the initial one in front of them, and among all labels
    (`NameTable.fills_embedding`).  Their sizes are what is told about the block: how many
    terminals there are in its productions, and how many nonterminals, with the entry
    counted even where no production has it (`embedding_counts`). -/

namespace FragmentGrammar

variable {A L : Type} [Automaton A L]

/-! ## What a block mentions -/

/-- The states that moves and final states mention, in the order in which they are written. -/
def mentionedStates (a : A) : List Nat :=
  (Automaton.moves a).flatMap (fun m => [m.source, m.target]) ++ Automaton.finals a

theorem mem_mentionedStates {a : A} {q : Nat} :
    q ∈ mentionedStates a ↔
      (∃ m ∈ Automaton.moves a, q = m.source ∨ q = m.target) ∨ q ∈ Automaton.finals a := by
  simp [mentionedStates]

/-- The nonterminals of productions, each as often as it stands there. -/
def nonterminalsOf (ps : List (Production L)) : List Nonterminal :=
  ps.flatMap fun p => p.head :: p.mentioned

/-- The terminals of productions, each as often as it stands there. -/
def terminalsOf (ps : List (Production L)) : List (Terminal L) :=
  ps.flatMap fun p => p.body.filterMap Symbol.terminal?

variable [Label L] {id : Nat} {a : A} {met : List Nat} {read : List L}

/-- The nonterminals of a block are the names of the states that it mentions. -/
theorem nonterminalsOf_embed [EquivBEq L] (id : Nat) (a : A) :
    nonterminalsOf (embed id a) = (mentionedStates a).map (stateName id a) := by
  have ofMove (m : Move L) : (moveProduction id a m).head :: (moveProduction id a m).mentioned =
      [m.source, m.target].map (stateName id a) := by
    cases he : m.isEpsilon with
    | true =>
        rw [Production.mentioned, body_of_silent he]
        rfl
    | false =>
        rw [Production.mentioned, body_of_reading he]
        rfl
  rw [embed_eq_plainBlock, plainBlock, nonterminalsOf, List.flatMap_append, List.flatMap_map,
    List.flatMap_map, mentionedStates, List.map_append, List.map_flatMap]
  congr 1
  · exact congrArg (List.flatMap · _) (funext ofMove)
  · exact List.map_eq_flatMap.symm

/-- The terminals of a block are those of the labels that its moves read. -/
theorem terminalsOf_embed [EquivBEq L] (id : Nat) (a : A) :
    terminalsOf (embed id a) = (readLabels (Automaton.moves a)).map (labelTerminal a) := by
  have ofMoves (ms : List (Move L)) :
      (ms.flatMap fun m => (moveProduction id a m).body.filterMap Symbol.terminal?) =
        (readLabels ms).map (labelTerminal a) := by
    induction ms with
    | nil => rfl
    | cons m ms ih =>
        have split : readLabels (m :: ms) = readLabels [m] ++ readLabels ms :=
          readLabels_append [m] ms
        rw [List.flatMap_cons, ih, split, List.map_append]
        congr 1
        cases he : m.isEpsilon with
        | true =>
            rw [body_of_silent he, readLabels_of_silent he]
            rfl
        | false =>
            rw [body_of_reading he, readLabels_of_reading he]
            rfl
  have ofFinals (qs : List Nat) :
      (qs.flatMap fun q =>
        (Production.epsilon (L := L) (stateName id a q)).body.filterMap Symbol.terminal?) = [] :=
    List.flatMap_eq_nil_iff.mpr fun _ _ => rfl
  rw [embed_eq_plainBlock, plainBlock, terminalsOf, List.flatMap_append, List.flatMap_map,
    List.flatMap_map, ofMoves, ofFinals, List.append_nil]

/-- Where a label is first read its terminal has its own written form, and terminals are
    equal as their labels are. -/
theorem eraseDups_terminalsOf_embed [EquivBEq L] (id : Nat) (a : A) :
    (terminalsOf (embed id a)).eraseDups =
      (readLabels (Automaton.moves a)).eraseDups.map Terminal.ofLabel := by
  have alike (l l' : L) : (labelTerminal a l' == labelTerminal a l) = (l' == l) := by
    rw [Bool.eq_iff_iff]
    exact labelTerminal_beq_iff
  rw [terminalsOf_embed, eraseDups_map_of_beq fun l _ l' _ => alike l l']
  refine List.map_congr_left ?_
  intro l hl
  rw [labelTerminal, representative_eq, find?_of_mem_eraseDups hl]
  rfl

/-! ## Tables while they are filled -/

/-- Where every key has its value under a function, the keys that are listed are found. -/
theorem lookup_map_pair {β : Type} (f : Nat → β) (qs : List Nat) (q : Nat) :
    (qs.map fun p => (p, f p)).lookup q = if q ∈ qs then some (f q) else none := by
  induction qs with
  | nil => rfl
  | cons p qs ih =>
      rw [List.map_cons, List.lookup_cons, ih]
      by_cases same : q = p
      · simp [same]
      · simp [same, beq_eq_false_iff_ne.mpr same]

namespace NameTable

/-- The tables hold the names of the states that have been met and the terminals of the
    labels that have been read, each where it came first. -/
structure Fills (id : Nat) (a : A) (met : List Nat) (read : List L) (t : NameTable L) : Prop where
  names : t.names = met.eraseDups.map fun q => (q, stateName id a q)
  terminals : t.terminals = read.eraseDups.map Terminal.ofLabel

/-- At the start the initial state has been met, and no label read. -/
theorem fills_start (id : Nat) (a : A) :
    Fills id a [Automaton.initial a] ([] : List L) (start id (Automaton.initial a)) where
  names := by
    show [_] = [(Automaton.initial a, stateName id a (Automaton.initial a))]
    rw [stateName_initial]
  terminals := rfl

namespace Fills

variable {t : NameTable L}

/-- A state is found in the table just if it has been met, under its own name. -/
theorem lookup_names (h : Fills id a met read t) (q : Nat) :
    t.names.lookup q = if q ∈ met then some (stateName id a q) else none := by
  rw [h.names, lookup_map_pair]
  simp only [List.mem_eraseDups]

/-- A label finds the terminal of the first equal label that was read. -/
theorem find?_terminals [EquivBEq L] (h : Fills id a met read t) (l : L) :
    t.terminals.find? (·.label == l) = (read.find? (· == l)).map Terminal.ofLabel := by
  rw [h.terminals, List.find?_map, ← find?_eraseDups (beq_shared l)]
  rfl

/-- A state that has not been met is not the initial one, so its name is its own. -/
theorem name (h : Fills id a met read t) (initial : Automaton.initial a ∈ met) (q : Nat) :
    Fills id a (met ++ [q]) read (t.name id q).2 := by
  have looked := h.lookup_names q
  rw [NameTable.name]
  by_cases known : q ∈ met
  · have copy : met.any (· == q) = true := by simpa using known
    rw [if_pos known] at looked
    rw [looked]
    refine ⟨?_, h.terminals⟩
    rw [eraseDups_concat, copy, if_pos rfl, List.append_nil]
    exact h.names
  · have new : met.any (· == q) = false := by
      rw [← Bool.not_eq_true]
      simpa using known
    have other : q ≠ Automaton.initial a := by
      rintro rfl
      exact known initial
    rw [if_neg known] at looked
    rw [looked]
    refine ⟨?_, h.terminals⟩
    rw [eraseDups_concat, new, if_neg Bool.false_ne_true, List.map_append, ← h.names]
    show _ = t.names ++ [(q, stateName id a q)]
    rw [stateName_of_ne other]

/-- A label enters its terminal unless an equal one was read before. -/
theorem terminal [EquivBEq L] (h : Fills id a met read t) (l : L) :
    Fills id a met (read ++ [l]) (t.terminal l).2 := by
  have found := h.find?_terminals l
  rw [NameTable.terminal]
  cases hl : read.find? (· == l) with
  | some x =>
      have copy : read.any (· == l) = true := by
        rw [← List.isSome_find?, hl]
        rfl
      rw [hl] at found
      rw [found]
      refine ⟨h.names, ?_⟩
      rw [eraseDups_concat, copy, if_pos rfl, List.append_nil]
      exact h.terminals
  | none =>
      have new : read.any (· == l) = false := by
        rw [← List.isSome_find?, hl]
        rfl
      rw [hl] at found
      rw [found]
      refine ⟨h.names, ?_⟩
      rw [eraseDups_concat, new, if_neg Bool.false_ne_true, List.map_append, ← h.terminals]
      rfl

variable [EquivBEq L]

/-- A move enters its source, its target and the label that it reads. -/
theorem ofMove (h : Fills id a met read t) (initial : Automaton.initial a ∈ met) (m : Move L) :
    Fills id a (met ++ [m.source, m.target]) (read ++ readLabels [m]) (t.ofMove id m).2 := by
  have source := h.name initial m.source
  have target := source.name (List.mem_append_left _ initial) m.target
  rw [List.append_assoc, List.singleton_append] at target
  cases he : m.isEpsilon with
  | true =>
      rw [ofMove_of_silent he, readLabels_of_silent he, List.append_nil]
      exact target
  | false =>
      rw [ofMove_of_reading he, readLabels_of_reading he]
      exact target.terminal m.label

/-- Moves enter their states and the labels that they read. -/
theorem ofMoves (ms : List (Move L)) (h : Fills id a met read t)
    (initial : Automaton.initial a ∈ met) :
    Fills id a (met ++ ms.flatMap fun m => [m.source, m.target]) (read ++ readLabels ms)
      (t.ofMoves id ms).2 := by
  have step (done : List (Move L)) (m : Move L) (t : NameTable L)
      (h : Fills id a (met ++ done.flatMap fun m => [m.source, m.target])
        (read ++ readLabels done) t) :
      Fills id a (met ++ (done ++ [m]).flatMap fun m => [m.source, m.target])
        (read ++ readLabels (done ++ [m])) (t.ofMove id m).2 := by
    have next := h.ofMove (List.mem_append_left _ initial) m
    rw [List.append_assoc, List.append_assoc, ← readLabels_append] at next
    rw [List.flatMap_append, List.flatMap_singleton]
    exact next
  have start : Fills id a (met ++ []) (read ++ []) t := by
    rw [List.append_nil, List.append_nil]
    exact h
  -- what is written does not matter here
  exact ((handsOn_ofMoves id).preserves _ (fun _ => ()) (fun _ => ())
    (fun done m t _ h => ⟨rfl, step done m t h⟩) start).2

omit [EquivBEq L] in
/-- Final states enter themselves. -/
theorem ofFinals (qs : List Nat) (h : Fills id a met read t)
    (initial : Automaton.initial a ∈ met) :
    Fills id a (met ++ qs) read (t.ofFinals id qs).2 := by
  have step (done : List Nat) (q : Nat) (t : NameTable L) (h : Fills id a (met ++ done) read t) :
      Fills id a (met ++ (done ++ [q])) read (t.name id q).2 := by
    rw [← List.append_assoc]
    exact h.name (List.mem_append_left _ initial) q
  have start : Fills id a (met ++ []) read t := by
    rw [List.append_nil]
    exact h
  exact ((handsOn_ofFinals id).preserves (fun done => Fills id a (met ++ done) read) (fun _ => ())
    (fun _ => ()) (fun done q t _ h => ⟨rfl, step done q t h⟩) start).2

end Fills

/-- A finished block has met the initial state and all that it mentions, and read all labels. -/
theorem fills_embedding [EquivBEq L] (id : Nat) (a : A) :
    Fills id a (Automaton.initial a :: mentionedStates a) (readLabels (Automaton.moves a))
      (Embedding.of id a).table := by
  have start : Automaton.initial a ∈ [Automaton.initial a] := List.mem_singleton_self _
  have moved := (fills_start id a).ofMoves (Automaton.moves a) start
  have whole := moved.ofFinals (Automaton.finals a) (List.mem_append_left _ start)
  rw [List.append_assoc] at whole
  exact whole

end NameTable

/-! ## Sizes of finished tables -/

/-- Without repetitions a list is as long as its set is large. -/
theorem length_eraseDups {α : Type} [DecidableEq α] (l : List α) :
    l.eraseDups.length = l.toFinset.card := by
  rw [← List.toFinset_card_of_nodup (nodup_eraseDups l)]
  congr 1
  ext x
  rw [List.mem_toFinset, List.mem_toFinset, List.mem_eraseDups]

/-- The number of different nonterminals that productions and the entry `id` are over. -/
def nonterminalCount (id : Nat) (ps : List (Production L)) : Nat :=
  (nonterminalsOf ps).toFinset.card + if .entry id ∈ nonterminalsOf ps then 0 else 1

/-- The number of different terminals in productions. -/
def terminalCount (ps : List (Production L)) : Nat :=
  (terminalsOf ps).eraseDups.length

/-- The entry stands in a block just if the initial state is mentioned. -/
theorem entry_mem_nonterminalsOf_embed [EquivBEq L] :
    .entry id ∈ nonterminalsOf (embed id a) ↔ Automaton.initial a ∈ mentionedStates a := by
  rw [nonterminalsOf_embed, List.mem_map]
  constructor
  · rintro ⟨q, hq, named⟩
    rwa [← stateName_inj (named.trans (stateName_initial id a).symm)]
  · intro h
    exact ⟨_, h, stateName_initial id a⟩

/-- Different states have different names, so there are as many nonterminals as there are
    states that are mentioned, and one more if the initial state is not. -/
theorem nonterminalCount_embed [EquivBEq L] (id : Nat) (a : A) :
    nonterminalCount id (embed id a) =
      (Automaton.initial a :: mentionedStates a).eraseDups.length := by
  have names : ((mentionedStates a).map (stateName id a)).toFinset.card =
      (mentionedStates a).toFinset.card := by
    rw [← length_eraseDups, eraseDups_map fun p _ q _ => stateName_inj, List.length_map,
      length_eraseDups]
  rw [length_eraseDups, List.toFinset_cons, Finset.card_insert_eq_ite, nonterminalCount]
  simp only [entry_mem_nonterminalsOf_embed, List.mem_toFinset]
  rw [nonterminalsOf_embed, names]
  split <;> rfl

/-- The tables of a finished block have an entry for everything that the block is about, and
    their sizes count the nonterminals and terminals of its productions. -/
structure ExactTables (id : Nat) (a : A) (t : NameTable L) : Prop where
  /-- The initial state has an entry, and so has every state that is mentioned, but no other. -/
  states : ∀ q, q ∈ t.names.map (·.1) ↔ q = Automaton.initial a ∨
    (∃ m ∈ Automaton.moves a, q = m.source ∨ q = m.target) ∨ q ∈ Automaton.finals a
  /-- No state has two entries. -/
  once : (t.names.map (·.1)).Nodup
  /-- No two states have the same nonterminal. -/
  apart : (t.names.map (·.2)).Nodup
  /-- The labels of the terminals are those that moves read, each where an equal one is first
      read and no two of them equal. -/
  labels : FirstOccurrences (readLabels (Automaton.moves a)) (t.terminals.map (·.label))
  nonterminals : t.names.length = nonterminalCount id (embed id a)
  terminals : t.terminals.length = terminalCount (embed id a)

/-- Tables that hold all that the block mentions are exact. -/
theorem NameTable.Fills.exactTables [EquivBEq L] {t : NameTable L}
    (h : t.Fills id a (Automaton.initial a :: mentionedStates a)
      (readLabels (Automaton.moves a))) : ExactTables id a t := by
  have states : t.names.map (·.1) = (Automaton.initial a :: mentionedStates a).eraseDups := by
    rw [h.names, List.map_map]
    exact List.map_id _
  have names : t.names.map (·.2) =
      (Automaton.initial a :: mentionedStates a).eraseDups.map (stateName id a) := by
    rw [h.names, List.map_map]
    rfl
  have labels : t.terminals.map (·.label) = (readLabels (Automaton.moves a)).eraseDups := by
    rw [h.terminals, List.map_map]
    exact List.map_id _
  refine ⟨?_, ?_, ?_, ?_, ?_, ?_⟩
  · intro q
    rw [states, List.mem_eraseDups, List.mem_cons, mem_mentionedStates]
  · rw [states]
    exact nodup_eraseDups _
  · rw [names]
    exact (nodup_eraseDups _).map fun p q => stateName_inj
  · rw [labels]
    exact firstOccurrences_eraseDups _
  · rw [nonterminalCount_embed, h.names, List.length_map]
  · rw [terminalCount, eraseDups_terminalsOf_embed, h.terminals]

/-- When a block is finished its tables are exact, and when blocks are told about the sizes
    of their tables are the numbers of nonterminals and terminals in their productions. -/
theorem embedding_counts [EquivBEq L] (id : Nat) (a : A) :
    ExactTables id a (Embedding.of id a).table ∧
      ∀ w : Written A L, w.trace = w.recorded.map (fun r =>
        .embedded r.1 (embed r.1 r.2).length (nonterminalCount r.1 (embed r.1 r.2))
          (terminalCount (embed r.1 r.2))) ++
        [.finished w.start w.productions.length w.embedded.length] := by
  refine ⟨(NameTable.fills_embedding id a).exactTables, ?_⟩
  intro w
  rw [Written.trace, Written.blocks, List.map_map]
  congr 1
  refine List.map_congr_left ?_
  intro r _
  have exact := (NameTable.fills_embedding r.1 r.2).exactTables
  rw [← exact.nonterminals, ← exact.terminals]
  rfl

/-- An automaton whose initial state is mentioned nowhere else, with a label spelled in two
    ways and one that reads nothing, with repeated moves and final states. -/
def stranded : ListedAutomaton CaseBlind :=
  ⟨9, [], [3, 1, 3], [⟨1, 2, ⟨"a"⟩⟩, ⟨2, 1, ⟨"A"⟩⟩, ⟨1, 2, ⟨"a"⟩⟩, ⟨2, 2, ⟨"EPS"⟩⟩, ⟨1, 7, ⟨"b"⟩⟩]⟩

/-- Five states have names, one of which is in no production, and two labels are read. -/
theorem embedding_counts_stranded :
    EquivBEq CaseBlind ∧ ExactTables 4 stranded (Embedding.of 4 stranded).table ∧
      (nonterminalsOf (embed 4 stranded)).toFinset.card = 4 ∧
      .entry 4 ∉ nonterminalsOf (embed 4 stranded) ∧
      (Embedding.of 4 stranded).table.names.length = 5 ∧
      (⟨.named "S", [], [(4, stranded)]⟩ : Written _ CaseBlind).trace =
        [.embedded 4 8 5 2, .finished (.named "S") 0 8] := by
  obtain ⟨exact, told⟩ := embedding_counts 4 stranded
  have five : nonterminalCount 4 (embed 4 stranded) = 5 := by decide
  have two : terminalCount (embed 4 stranded) = 2 := by decide
  refine ⟨inferInstance, exact, by decide, by decide, exact.nonterminals.trans five, ?_⟩
  rw [told, List.map_singleton, five, two]
  rfl

end FragmentGrammar
