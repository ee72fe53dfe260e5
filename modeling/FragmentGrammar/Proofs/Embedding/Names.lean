import FragmentGrammar.Proofs.Embedding.Plain

/-! # The names in a block

    Names depend on states alone, whatever labels are equal to.  So the nonterminals of a
    block are known without its terminals: every production goes from the name of a state
    to that of another, or ends there (`names_of_mem_embed`).  The states are those that
    the automaton mentions, and the initial one is called by the number of the block, so
    no other block uses any of these names (`inBlock_of_mem_embed`). -/

namespace FragmentGrammar

variable {A L : Type} [Automaton A L]

/-- The nonterminals of a body, in order. -/
def Production.mentioned (p : Production L) : List Nonterminal :=
  p.body.filterMap Symbol.nonterminal?

/-- Just the nonterminals in the body are mentioned. -/
theorem mem_mentioned {p : Production L} {n : Nonterminal} :
    n ∈ p.mentioned ↔ .nonterminal n ∈ p.body := by
  rw [Production.mentioned, List.mem_filterMap]
  constructor
  · rintro ⟨x, hx, hn⟩
    cases x with
    | nonterminal m =>
        obtain rfl : m = n := Option.some.inj hn
        exact hx
    | terminal t => cases hn
  · intro h
    exact ⟨_, h, rfl⟩

/-- The names that an automaton may use under the number `id`. -/
inductive InBlock (id : Nat) (a : A) : Nonterminal → Prop
  | entry : InBlock id a (.entry id)
  /-- A state that a move or a final state mentions, unless it is the initial one. -/
  | state {q : Nat} (other : q ≠ Automaton.initial a) (mentioned : q ∈ Automaton.finals a ∨
      ∃ m ∈ Automaton.moves a, q = m.source ∨ q = m.target) : InBlock id a (.state id q)

/-- The number of the block that a nonterminal belongs to, if to any. -/
def Nonterminal.block? : Nonterminal → Option Nat
  | .named _ => none
  | .entry id => some id
  | .state id _ => some id

/-- A name that an automaton may use under a number belongs to the block of that number. -/
theorem InBlock.block? {id : Nat} {a : A} {n : Nonterminal} (h : InBlock id a n) :
    n.block? = some id := by
  cases h <;> rfl

/-- The name of a state that the automaton mentions belongs to its block. -/
theorem inBlock_stateName {id q : Nat} {a : A} (mentioned : q ∈ Automaton.finals a ∨
    ∃ m ∈ Automaton.moves a, q = m.source ∨ q = m.target) : InBlock id a (stateName id a q) := by
  by_cases hq : q = Automaton.initial a
  · rw [hq, stateName_initial]
    exact .entry
  · rw [stateName_of_ne hq]
    exact .state hq mentioned

/-! ## Tables -/

variable [Label L] {id : Nat} {a : A} {t : NameTable L}

namespace NameTable

/-- Giving out a terminal leaves the names alone. -/
theorem names_terminal (t : NameTable L) (l : L) : (t.terminal l).2.names = t.names := by
  rw [terminal]
  split <;> rfl

namespace NamesAgree

/-- The production of a move goes from the name of its source to that of its target. -/
theorem ofMove (h : NamesAgree id a t) (m : Move L) :
    (t.ofMove id m).1.head = stateName id a m.source ∧
      (t.ofMove id m).1.mentioned = [stateName id a m.target] ∧
      NamesAgree id a (t.ofMove id m).2 := by
  have hs := h.name_snd m.source
  have ht := hs.name_snd m.target
  cases he : m.isEpsilon with
  | true =>
      rw [ofMove_of_silent he, h.name_fst, hs.name_fst]
      exact ⟨rfl, rfl, ht⟩
  | false =>
      rw [ofMove_of_reading he, h.name_fst, hs.name_fst]
      have same := names_terminal ((t.name id m.source).2.name id m.target).2 m.label
      exact ⟨rfl, rfl, same ▸ ht.names, same ▸ ht.initial⟩

/-- So it is for every production of the moves. -/
theorem ofMoves (ms : List (Move L)) (h : NamesAgree id a t) :
    (∀ p ∈ (t.ofMoves id ms).1, ∃ m ∈ ms, p.head = stateName id a m.source ∧
      p.mentioned = [stateName id a m.target]) ∧ NamesAgree id a (t.ofMoves id ms).2 := by
  have step (m : Move L) (t : NameTable L) (h : NamesAgree id a t) :
      ((t.ofMove id m).1.head, (t.ofMove id m).1.mentioned) =
          (stateName id a m.source, [stateName id a m.target]) ∧
        NamesAgree id a (t.ofMove id m).2 := by
    obtain ⟨head, mentioned, agrees⟩ := h.ofMove m
    exact ⟨Prod.ext head mentioned, agrees⟩
  obtain ⟨written, agrees⟩ := (handsOn_ofMoves id).preserves (fun _ => NamesAgree id a)
    (fun p => (p.head, p.mentioned)) (fun m => (stateName id a m.source, [stateName id a m.target]))
    (fun _ m t _ => step m t) h
  refine ⟨?_, agrees⟩
  intro p hp
  have named := List.mem_map_of_mem (f := fun p => (p.head, p.mentioned)) hp
  rw [written] at named
  obtain ⟨m, hm, same⟩ := List.mem_map.mp named
  obtain ⟨head, mentioned⟩ := Prod.mk.inj same
  exact ⟨m, hm, head.symm, mentioned.symm⟩

end NamesAgree

end NameTable

/-! ## Blocks -/

/-- A production of a block is that of a move or of a final state. -/
theorem names_of_mem_embed {p : Production L} (hp : p ∈ embed id a) :
    (∃ m ∈ Automaton.moves a, p.head = stateName id a m.source ∧
      p.mentioned = [stateName id a m.target]) ∨
    ∃ q ∈ Automaton.finals a, p.head = stateName id a q ∧ p.mentioned = [] := by
  obtain ⟨moves, agrees⟩ := (NameTable.namesAgree_start id a).ofMoves (Automaton.moves a)
  rw [embed, Embedding.of, agrees.ofFinals] at hp
  rcases List.mem_append.mp hp with move | final
  · exact .inl (moves p move)
  · obtain ⟨q, hq, rfl⟩ := List.mem_map.mp final
    exact .inr ⟨q, hq, rfl, rfl⟩

/-- A block uses no names but its own. -/
theorem inBlock_of_mem_embed {p : Production L} (hp : p ∈ embed id a) :
    InBlock id a p.head ∧ ∀ n, .nonterminal n ∈ p.body → InBlock id a n := by
  rcases names_of_mem_embed hp with ⟨m, hm, head, mentioned⟩ | ⟨q, hq, head, mentioned⟩
  · rw [head]
    refine ⟨inBlock_stateName (.inr ⟨m, hm, .inl rfl⟩), ?_⟩
    intro n hn
    rw [← mem_mentioned, mentioned] at hn
    obtain rfl := List.mem_singleton.mp hn
    exact inBlock_stateName (.inr ⟨m, hm, .inr rfl⟩)
  · rw [head]
    refine ⟨inBlock_stateName (.inl hq), ?_⟩
    intro n hn
    rw [← mem_mentioned, mentioned] at hn
    cases hn

end FragmentGrammar
