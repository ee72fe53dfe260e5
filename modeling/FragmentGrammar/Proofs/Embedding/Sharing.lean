import FragmentGrammar.Proofs.Embedding.Language

/-! # Shared terminals

    The tables of a block act as functions that are fixed from the start: a label is
    written as by the first move that reads an equal one, whichever move it is met on.  So
    a block can be said in terms of the enumerations of its automaton alone
    (`embed_writes`), and equal labels never show in two spellings. -/

namespace FragmentGrammar

open Automaton

variable {A L : Type} [Automaton A L] [Label L]

/-- A sequence of symbols with one nonterminal at most, which is its last symbol. -/
inductive RightLinear : List (Symbol L) → Prop
  | nil : RightLinear []
  | last (n : Nonterminal) : RightLinear [.nonterminal n]
  | terminal (t : Terminal L) {body : List (Symbol L)} :
      RightLinear body → RightLinear (.terminal t :: body)

/-- Among the moves, `n` is the first that reads a label equal to `l`. -/
inductive ReadsFirst (ms : List (Move L)) (l : L) (n : Move L) : Prop
  | stands {before after : List (Move L)} :
      ms = before ++ n :: after → n.isEpsilon = false → (n.label == l) = true →
      (∀ m ∈ before, m.isEpsilon = false → (m.label == l) = false) → ReadsFirst ms l n

/-- The move is written as this production of the block with the number `id`. -/
inductive Writes (id : Nat) (a : A) (m : Move L) : Production L → Prop
  | silent : m.isEpsilon = true →
      Writes id a m ⟨stateName id a m.source, [.nonterminal (stateName id a m.target)]⟩
  | reading {n : Move L} : m.isEpsilon = false → ReadsFirst (moves a) m.label n →
      Writes id a m ⟨stateName id a m.source,
        [.terminal (.ofLabel n.label), .nonterminal (stateName id a m.target)]⟩

/-! ## First moves -/

section ReadsFirst

variable {ms : List (Move L)} {l l' : L} {m n n' : Move L}

/-- The move found by a search for the label is the first that reads it. -/
theorem readsFirst_iff :
    ReadsFirst ms l n ↔ ms.find? (fun m => !m.isEpsilon && m.label == l) = some n := by
  rw [List.find?_eq_some_iff_append, Bool.and_eq_true, Bool.not_eq_true']
  constructor
  · rintro ⟨split, reads, same, first⟩
    refine ⟨⟨reads, same⟩, _, _, split, ?_⟩
    intro m hm
    cases he : m.isEpsilon with
    | true => rfl
    | false => simp [first m hm he]
  · rintro ⟨⟨reads, same⟩, before, after, split, first⟩
    refine .stands split reads same ?_
    intro m hm he
    simpa [he] using first m hm

/-- The first move that reads a label has a label equal to it. -/
theorem ReadsFirst.label_beq (h : ReadsFirst ms l n) : (n.label == l) = true := by
  obtain ⟨-, -, same, -⟩ := h
  exact same

/-- There is one such move at most. -/
theorem ReadsFirst.unique (h : ReadsFirst ms l n) (h' : ReadsFirst ms l n') : n = n' :=
  Option.some.inj ((readsFirst_iff.mp h).symm.trans (readsFirst_iff.mp h'))

/-- The first move that reads one of the labels, as a label. -/
theorem find?_readLabels (ms : List (Move L)) (l : L) :
    (readLabels ms).find? (· == l) =
      (ms.find? fun m => !m.isEpsilon && m.label == l).map (·.label) := by
  rw [readLabels, List.find?_map, List.find?_filter]
  simp

variable [EquivBEq L]

/-- Equal labels are read first by the same move. -/
theorem ReadsFirst.congr (h : ReadsFirst ms l n) (same : (l == l') = true) :
    ReadsFirst ms l' n := by
  have alike : (fun m : Move L => !m.isEpsilon && m.label == l') =
      fun m => !m.isEpsilon && m.label == l := by
    funext m
    congr 1
    rw [Bool.eq_iff_iff]
    exact ⟨fun e => BEq.trans e (BEq.symm same), fun e => BEq.trans e same⟩
  rw [readsFirst_iff, alike]
  exact readsFirst_iff.mp h

/-- A label that is read is read first somewhere. -/
theorem exists_readsFirst (hm : m ∈ ms) (he : m.isEpsilon = false) :
    ∃ n, ReadsFirst ms m.label n := by
  simp only [readsFirst_iff, ← Option.isSome_iff_exists, List.find?_isSome]
  exact ⟨m, hm, by simp [he]⟩

end ReadsFirst

/-! ## Productions -/

section Productions

variable {id : Nat} {a : A} {m n : Move L} {p : Production L} {t : Terminal L}

/-- A terminal shows the label of the first move with an equal one. -/
theorem labelTerminal_eq (h : ReadsFirst (moves a) m.label n) :
    labelTerminal a m.label = .ofLabel n.label := by
  have first : representative a m.label = n.label := by
    rw [representative_eq, find?_readLabels, readsFirst_iff.mp h]
    rfl
  rw [labelTerminal, first]
  rfl

/-- What is written for a move is right-linear. -/
theorem Writes.rightLinear (h : Writes id a m p) : RightLinear p.body := by
  cases h with
  | silent => exact .last _
  | reading => exact .terminal _ (.last _)

/-- The terminal of a move is spelled as by the first move that reads an equal label. -/
theorem Writes.exists_first (h : Writes id a m p) (ht : .terminal t ∈ p.body) :
    ∃ n, ReadsFirst (moves a) m.label n ∧ t = .ofLabel n.label := by
  cases h with
  | silent => simp at ht
  | @reading n _ first => exact ⟨n, first, by simpa using ht⟩

variable [EquivBEq L]

/-- The production of a move spells its label as the first move does. -/
theorem writes_moveProduction (id : Nat) (hm : m ∈ moves a) :
    Writes id a m (moveProduction id a m) := by
  cases he : m.isEpsilon with
  | true =>
      rw [moveProduction, if_pos he]
      exact .silent he
  | false =>
      obtain ⟨n, first⟩ := exists_readsFirst hm he
      rw [moveProduction, if_neg (by simp [he]), labelTerminal_eq first]
      exact .reading he first

/-- So is everything in a block. -/
theorem rightLinear_of_mem_embed (hp : p ∈ embed id a) : RightLinear p.body := by
  rcases mem_embed_iff.mp hp with ⟨m, hm, rfl⟩ | ⟨q, hq, rfl⟩
  · exact (writes_moveProduction id hm).rightLinear
  · exact .nil

/-- A terminal of a block is spelled as by the first move that reads its own label. -/
theorem exists_of_terminal_mem (hp : p ∈ embed id a) (ht : .terminal t ∈ p.body) :
    ∃ n, ReadsFirst (moves a) t.label n ∧ t = .ofLabel n.label := by
  rcases mem_embed_iff.mp hp with ⟨m, hm, rfl⟩ | ⟨q, hq, rfl⟩
  · obtain ⟨n, first, rfl⟩ := (writes_moveProduction id hm).exists_first ht
    exact ⟨n, first.congr (BEq.symm first.label_beq), rfl⟩
  · cases ht

/-- Equal terminals of a block are one terminal, text and all. -/
theorem terminal_eq_of_beq {p' : Production L} {t' : Terminal L} (hp : p ∈ embed id a)
    (ht : .terminal t ∈ p.body) (hp' : p' ∈ embed id a) (ht' : .terminal t' ∈ p'.body)
    (same : (t == t') = true) : t = t' := by
  obtain ⟨n, first, rfl⟩ := exists_of_terminal_mem hp ht
  obtain ⟨n', first', rfl⟩ := exists_of_terminal_mem hp' ht'
  rw [(first.congr (Terminal.beq_iff.mp same)).unique first']

end Productions

/-- A block has a production for every move and behind them one for every final state, in
    the order of the enumerations.  That of a move leads from the name of its source to
    that of its target, and names its label as the first move does that reads an equal
    one.  So equal terminals of a block are the same, and all bodies are right-linear. -/
theorem embed_writes [EquivBEq L] (id : Nat) (a : A) :
    (embed id a).length = (moves a).length + (finals a).length ∧
    (∃ ps, embed id a = ps ++ (finals a).map (fun q => .epsilon (stateName id a q)) ∧
      List.Forall₂ (Writes id a) (moves a) ps) ∧
    (∀ p ∈ embed id a, ∀ p' ∈ embed id a, ∀ t t', .terminal t ∈ p.body → .terminal t' ∈ p'.body →
      (t == t') = true → t = t') ∧
    ∀ p ∈ embed id a, RightLinear p.body := by
  refine ⟨length_embed id a, ?_, ?_, fun p => rightLinear_of_mem_embed⟩
  · refine ⟨_, embed_eq_plainBlock id a, ?_⟩
    rw [List.forall₂_map_right_iff, List.forall₂_same]
    exact fun m => writes_moveProduction id
  · intro p hp p' hp' t t' ht ht'
    exact terminal_eq_of_beq hp ht hp' ht'

/-- An automaton whose moves spell a label in two ways, turn back to the initial state and
    read nothing under the marker in capitals. -/
def shouting : ListedAutomaton CaseBlind :=
  ⟨3, [], [3, 5, 3], [⟨3, 5, ⟨"EPS"⟩⟩, ⟨5, 3, ⟨"b"⟩⟩, ⟨3, 3, ⟨"B"⟩⟩, ⟨7, 5, ⟨"a"⟩⟩]⟩

/-- Its third move is written with the label of its second one. -/
theorem embed_writes_shouting :
    EquivBEq CaseBlind ∧ (embed 2 shouting).length = 7 ∧
      (embed 2 shouting)[2]? =
        some ⟨.entry 2, [.terminal (.ofLabel ⟨"b"⟩), .nonterminal (.entry 2)]⟩ := by
  obtain ⟨count, ⟨ps, whole, written⟩, -, -⟩ := embed_writes 2 shouting
  refine ⟨inferInstance, count, ?_⟩
  have first : ReadsFirst (moves shouting) ⟨"B"⟩ ⟨5, 3, ⟨"b"⟩⟩ := by
    have split : moves shouting =
        [⟨3, 5, ⟨"EPS"⟩⟩] ++ ⟨5, 3, ⟨"b"⟩⟩ :: [⟨3, 3, ⟨"B"⟩⟩, ⟨7, 5, ⟨"a"⟩⟩] := rfl
    exact .stands split (by decide) (by decide) (by decide)
  obtain ⟨_, _, -, behind, rfl⟩ := List.forall₂_cons_left_iff.mp written
  obtain ⟨_, _, -, last, rfl⟩ := List.forall₂_cons_left_iff.mp behind
  obtain ⟨_, _, third, -, rfl⟩ := List.forall₂_cons_left_iff.mp last
  rw [whole]
  cases third with
  | silent he => exact absurd he (by decide)
  | reading _ spoken =>
      rw [spoken.unique first]
      rfl

end FragmentGrammar
