import FragmentGrammar.Embedding.Plain

/-! # The tables hold what the plain block says

    While a block is written, its tables agree with functions of the automaton alone: a
    state that has a name has its own one, and the terminals are those of the labels met
    so far, each under the first label equal to it.  So handing the tables on leaves the
    same productions as `plainBlock`, which has none (`embed_eq_plainBlock`). -/

namespace FragmentGrammar

variable {A L : Type} [Automaton A L]

/-! ## Names -/

/-- The initial state is called by the number of the block. -/
theorem stateName_initial (id : Nat) (a : A) :
    stateName id a (Automaton.initial a) = .entry id :=
  if_pos rfl

/-- Any other state is called by its own number as well. -/
theorem stateName_of_ne {id q : Nat} {a : A} (h : q ≠ Automaton.initial a) :
    stateName id a q = .state id q :=
  if_neg h

/-- A name says which block it belongs to. -/
theorem stateName_id {i j p q : Nat} {a b : A} (h : stateName i a p = stateName j b q) :
    i = j := by
  simp only [stateName] at h
  split at h <;> split at h <;> simp_all

/-- Different states of an automaton have different names. -/
theorem stateName_inj {i j p q : Nat} {a : A} (h : stateName i a p = stateName j a q) :
    p = q := by
  simp only [stateName] at h
  split at h <;> split at h <;> simp_all

/-! ## Terminals -/

/-- The labels that moves read, in their order. -/
def readLabels (ms : List (Move L)) [Label L] : List L :=
  (ms.filter (!·.isEpsilon)).map (·.label)

/-- The terminal of a label under its own written form. -/
def Terminal.ofLabel [Label L] (l : L) : Terminal L :=
  ⟨l, Literal.text l⟩

section Labels

variable [Label L] {ms : List (Move L)} {m : Move L}

/-- Labels are read move by move. -/
theorem readLabels_append (ms ms' : List (Move L)) :
    readLabels (ms ++ ms') = readLabels ms ++ readLabels ms' := by
  rw [readLabels, List.filter_append, List.map_append]
  rfl

theorem readLabels_of_silent (h : m.isEpsilon = true) : readLabels [m] = [] := by
  simp [readLabels, h]

theorem readLabels_of_reading (h : m.isEpsilon = false) : readLabels [m] = [m.label] := by
  simp [readLabels, h]

/-- The label that speaks for `l` is the first equal one that is read. -/
theorem representative_eq (a : A) (l : L) :
    representative a l = ((readLabels (Automaton.moves a)).find? (· == l)).getD l :=
  rfl

variable [EquivBEq L]

/-- A label is equal to the one that speaks for it. -/
theorem representative_beq (a : A) (l : L) : (representative a l == l) = true := by
  rw [representative_eq]
  cases h : (readLabels (Automaton.moves a)).find? (· == l) with
  | none => exact BEq.rfl
  | some x =>
      have found := List.find?_some h
      exact found

/-- Two blocks name labels by equal terminals exactly when the labels are equal, whichever
    labels speak for them. -/
theorem labelTerminal_beq_iff {B : Type} [Automaton B L] {a : A} {b : B} {l l' : L} :
    (labelTerminal a l == labelTerminal b l') = true ↔ (l == l') = true := by
  have here := representative_beq a l
  have there := representative_beq b l'
  rw [Terminal.beq_iff]
  constructor
  · intro same
    exact BEq.trans (BEq.symm here) (BEq.trans same there)
  · intro same
    exact BEq.trans here (BEq.trans same (BEq.symm there))

end Labels

/-! ## Bodies -/

section Bodies

variable [Label L] {id : Nat} {a : A} {m : Move L}

/-- A move that reads nothing leads on to its target alone. -/
theorem body_of_silent (h : m.isEpsilon = true) :
    (moveProduction id a m).body = [.nonterminal (stateName id a m.target)] := by
  simp [moveProduction, h]

/-- A move that reads something puts the terminal of its label in front of its target. -/
theorem body_of_reading (h : m.isEpsilon = false) :
    (moveProduction id a m).body =
      [.terminal (labelTerminal a m.label), .nonterminal (stateName id a m.target)] := by
  simp [moveProduction, h]

end Bodies

/-! ## The tables of a block half written -/

namespace NameTable

/-- Giving out a name leaves the terminals alone. -/
theorem terminals_name (id : Nat) (t : NameTable L) (q : Nat) :
    (t.name id q).2.terminals = t.terminals := by
  rw [name]
  split <;> rfl

/-- The loop `all` writes each entry as `one` does and hands the tables on to the next. -/
structure HandsOn {α β : Type} (one : NameTable L → α → β × NameTable L)
    (all : NameTable L → List α → List β × NameTable L) : Prop where
  nil (t : NameTable L) : all t [] = ([], t)
  cons (t : NameTable L) (x : α) (xs : List α) :
    all t (x :: xs) = ((one t x).1 :: (all (one t x).2 xs).1, (all (one t x).2 xs).2)

/-- What writing one entry preserves is preserved by the loop.  `view` is what matters of
    the things that are written, and `spec` what it has to be for each entry. -/
theorem HandsOn.preserves {α β γ : Type} {one : NameTable L → α → β × NameTable L}
    {all : NameTable L → List α → List β × NameTable L} (loop : HandsOn one all)
    (Right : List α → NameTable L → Prop) (view : β → γ) (spec : α → γ) {entries : List α}
    (step : ∀ done x t, done ++ [x] <+: entries → Right done t →
      view (one t x).1 = spec x ∧ Right (done ++ [x]) (one t x).2)
    {t : NameTable L} (start : Right [] t) :
    (all t entries).1.map view = entries.map spec ∧ Right entries (all t entries).2 := by
  have go : ∀ rest done t, done ++ rest <+: entries → Right done t →
      (all t rest).1.map view = rest.map spec ∧ Right (done ++ rest) (all t rest).2 := by
    intro rest
    induction rest with
    | nil =>
        intro done t _ right
        rw [loop.nil, List.append_nil]
        exact ⟨rfl, right⟩
    | cons x rest ih =>
        intro done t hpre right
        rw [List.append_cons] at hpre
        obtain ⟨here, right'⟩ := step done x t ((List.prefix_append _ _).trans hpre) right
        obtain ⟨later, ends⟩ := ih (done ++ [x]) (one t x).2 hpre right'
        rw [loop.cons, List.map_cons, List.map_cons, here, later, List.append_cons]
        exact ⟨rfl, ends⟩
  exact go entries [] t (List.prefix_refl _) start

/-- Final states are written by such a loop. -/
theorem handsOn_ofFinals (id : Nat) : HandsOn (L := L)
    (fun t q => (.epsilon (t.name id q).1, (t.name id q).2)) (ofFinals id) :=
  ⟨fun _ => rfl, fun _ _ _ => rfl⟩

/-- The names in the tables are right, and the initial state has one. -/
structure NamesAgree (id : Nat) (a : A) (t : NameTable L) : Prop where
  names : ∀ x ∈ t.names, x.2 = stateName id a x.1
  initial : t.names.lookup (Automaton.initial a) ≠ none

/-- The only name at the start is the right one. -/
theorem namesAgree_start (id : Nat) (a : A) :
    NamesAgree id a (NameTable.start id (Automaton.initial a) : NameTable L) where
  names x hx := by
    obtain rfl := List.mem_singleton.mp hx
    exact (stateName_initial id a).symm
  initial := by simp [start]

namespace NamesAgree

variable {id : Nat} {a : A} {t : NameTable L}

/-- A state is called by its own name, whether the table has it or not. -/
theorem name_fst (h : NamesAgree id a t) (q : Nat) : (t.name id q).1 = stateName id a q := by
  rw [name]
  split
  next n hn =>
    obtain ⟨l₁, l₂, hl, -⟩ := List.lookup_eq_some_iff.mp hn
    exact h.names (q, n) (by simp [hl])
  next hn =>
    -- the initial state has a name from the start
    have hq : q ≠ Automaton.initial a := by
      rintro rfl
      exact h.initial hn
    exact (stateName_of_ne hq).symm

/-- A name that is given out is right, so the table stays right. -/
theorem name_snd (h : NamesAgree id a t) (q : Nat) : NamesAgree id a (t.name id q).2 := by
  constructor
  · intro x hx
    have named := h.name_fst q
    rw [name] at hx named
    split at hx
    next => exact h.names x hx
    next hn =>
      rw [hn] at named
      rcases List.mem_append.mp hx with old | new
      · exact h.names x old
      · obtain rfl := List.mem_singleton.mp new
        exact named
  · have known := h.initial
    rw [name]
    split
    next => exact known
    next =>
      rw [List.lookup_append]
      simp [known]

/-- Final states are written as they would be without tables. -/
theorem ofFinals (qs : List Nat) (h : NamesAgree id a t) :
    (t.ofFinals id qs).1 = qs.map fun q => .epsilon (stateName id a q) := by
  have step (q : Nat) (t : NameTable L) (h : NamesAgree id a t) :
      Production.epsilon (L := L) (t.name id q).1 = .epsilon (stateName id a q) ∧
        NamesAgree id a (t.name id q).2 :=
    ⟨congrArg Production.epsilon (h.name_fst q), h.name_snd q⟩
  obtain ⟨written, -⟩ := (handsOn_ofFinals id).preserves (fun _ => NamesAgree id a) (fun p => p)
    (fun q => .epsilon (stateName id a q)) (fun _ q t _ => step q t) h
  rwa [List.map_id'] at written

end NamesAgree

variable [Label L]

/-- Moves are written by such a loop. -/
theorem handsOn_ofMoves (id : Nat) : HandsOn (L := L) (ofMove id) (ofMoves id) :=
  ⟨fun _ => rfl, fun _ _ _ => rfl⟩

/-- How a move that reads nothing is written: two names are asked for and no terminal. -/
theorem ofMove_of_silent {id : Nat} {t : NameTable L} {m : Move L} (h : m.isEpsilon = true) :
    t.ofMove id m = (⟨(t.name id m.source).1,
        [.nonterminal ((t.name id m.source).2.name id m.target).1]⟩,
      ((t.name id m.source).2.name id m.target).2) :=
  if_pos h

/-- How other moves are written: the terminal is asked for last. -/
theorem ofMove_of_reading {id : Nat} {t : NameTable L} {m : Move L} (h : m.isEpsilon = false) :
    t.ofMove id m = (⟨(t.name id m.source).1,
        [.terminal (((t.name id m.source).2.name id m.target).2.terminal m.label).1,
          .nonterminal ((t.name id m.source).2.name id m.target).1]⟩,
      (((t.name id m.source).2.name id m.target).2.terminal m.label).2) :=
  if_neg (Bool.not_eq_true _ ▸ h)

/-- What the tables hold when the moves `done` have been written: names that are right,
    the initial state among them, and the terminals of the labels read so far. -/
structure Agrees (id : Nat) (a : A) (done : List (Move L)) (t : NameTable L) : Prop where
  names : ∀ x ∈ t.names, x.2 = stateName id a x.1
  initial : t.names.lookup (Automaton.initial a) ≠ none
  terminals (l : L) : t.terminals.find? (·.label == l) =
    ((readLabels done).find? (· == l)).map Terminal.ofLabel

variable {id : Nat} {a : A} {done : List (Move L)} {t : NameTable L} {m : Move L}

/-- Nothing has been read at the start. -/
theorem agrees_start (id : Nat) (a : A) :
    Agrees id a [] (NameTable.start id (Automaton.initial a)) where
  names := (namesAgree_start id a).names
  initial := (namesAgree_start (L := L) id a).initial
  terminals _ := rfl

namespace Agrees

theorem namesAgree (h : Agrees id a done t) : NamesAgree id a t :=
  ⟨h.names, h.initial⟩

theorem name_fst (h : Agrees id a done t) (q : Nat) : (t.name id q).1 = stateName id a q :=
  h.namesAgree.name_fst q

theorem name_snd (h : Agrees id a done t) (q : Nat) : Agrees id a done (t.name id q).2 := by
  obtain ⟨names, initial⟩ := h.namesAgree.name_snd q
  exact ⟨names, initial, fun l => terminals_name id t q ▸ h.terminals l⟩

/-- A move that reads nothing leaves no terminal to enter. -/
theorem silent (h : Agrees id a done t) (he : m.isEpsilon = true) :
    Agrees id a (done ++ [m]) t := by
  refine ⟨h.names, h.initial, ?_⟩
  intro l
  rw [readLabels_append, readLabels_of_silent he, List.append_nil]
  exact h.terminals l

variable [EquivBEq L]

/-- The terminal of the next move is that of its label in the whole automaton: what was
    met before comes first among its moves, and the move itself comes next. -/
theorem terminal_fst (h : Agrees id a done t) (he : m.isEpsilon = false)
    (hpre : done ++ [m] <+: Automaton.moves a) :
    (t.terminal m.label).1 = labelTerminal a m.label := by
  obtain ⟨more, hmoves⟩ := hpre
  have first : representative a m.label =
      ((readLabels done).find? (· == m.label)).getD m.label := by
    rw [representative_eq, ← hmoves, readLabels_append, readLabels_append,
      readLabels_of_reading he, List.find?_append, List.find?_append]
    cases (readLabels done).find? (· == m.label) with
    | none => simp
    | some x => rfl
  have known := h.terminals m.label
  rw [labelTerminal, first, terminal]
  cases hf : (readLabels done).find? (· == m.label) with
  | none =>
      rw [hf] at known
      rw [known]
      rfl
  | some x =>
      rw [hf] at known
      rw [known]
      rfl

/-- A terminal is entered for a label just where none equal to it was read before. -/
theorem terminal_snd (h : Agrees id a done t) (he : m.isEpsilon = false) :
    Agrees id a (done ++ [m]) (t.terminal m.label).2 := by
  have known := h.terminals m.label
  rw [terminal]
  split
  next x hx =>
    -- an equal label was read before, so the new one is never the first found
    refine ⟨h.names, h.initial, ?_⟩
    intro l
    rw [h.terminals l, readLabels_append, readLabels_of_reading he, List.find?_append]
    rw [hx] at known
    obtain ⟨y, hy, -⟩ := Option.map_eq_some_iff.mp known.symm
    congr 1
    cases hl : (readLabels done).find? (· == l) with
    | some z => rfl
    | none =>
        have hne : (m.label == l) = false := by
          have found := List.find?_some hy
          have apart := List.find?_eq_none.mp hl y (List.mem_of_find?_eq_some hy)
          rw [← Bool.not_eq_true]
          intro same
          exact apart (BEq.trans found same)
        simp [hne]
  next =>
    refine ⟨h.names, h.initial, ?_⟩
    intro l
    show (t.terminals ++ [Terminal.ofLabel m.label]).find? (fun x => x.label == l) = _
    rw [List.find?_append, h.terminals l, readLabels_append, readLabels_of_reading he,
      List.find?_append]
    cases (readLabels done).find? (· == l) with
    | some z => rfl
    | none => by_cases hl : (m.label == l) = true <;> simp [hl, Terminal.ofLabel]

/-- One move is written as it would be without tables. -/
theorem ofMove (h : Agrees id a done t) (hpre : done ++ [m] <+: Automaton.moves a) :
    (t.ofMove id m).1 = moveProduction id a m ∧
      Agrees id a (done ++ [m]) (t.ofMove id m).2 := by
  have hs := h.name_snd m.source
  have ht := hs.name_snd m.target
  rw [moveProduction]
  by_cases he : m.isEpsilon = true
  · rw [ofMove_of_silent he, if_pos he, h.name_fst, hs.name_fst]
    exact ⟨rfl, ht.silent he⟩
  · rw [if_neg he]
    rw [Bool.not_eq_true] at he
    rw [ofMove_of_reading he, h.name_fst, hs.name_fst, ht.terminal_fst he hpre]
    exact ⟨rfl, ht.terminal_snd he⟩

/-- All moves are written as they would be without tables. -/
theorem ofMoves (h : Agrees id a [] t) :
    (t.ofMoves id (Automaton.moves a)).1 = (Automaton.moves a).map (moveProduction id a) ∧
      Agrees id a (Automaton.moves a) (t.ofMoves id (Automaton.moves a)).2 := by
  obtain ⟨written, agrees⟩ := (handsOn_ofMoves id).preserves (Agrees id a) (fun p => p)
    (moveProduction id a) (fun _ _ _ hpre agrees => agrees.ofMove hpre) h
  rw [List.map_id'] at written
  exact ⟨written, agrees⟩

end Agrees

end NameTable

/-- The tables leave the same block as functions of the automaton do. -/
theorem embed_eq_plainBlock [Label L] [EquivBEq L] (id : Nat) (a : A) :
    embed id a = plainBlock id a := by
  obtain ⟨moves, agrees⟩ := (NameTable.agrees_start id a).ofMoves
  rw [embed, Embedding.of, plainBlock, moves, agrees.namesAgree.ofFinals]

end FragmentGrammar
