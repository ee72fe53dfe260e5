import FragmentGrammar.Automaton.Listed
import FragmentGrammar.Automaton.Path
import FragmentGrammar.Label.CaseBlind
import FragmentGrammar.Proofs.Embedding.Plain
import FragmentGrammar.Proofs.Grammar.Derivation
import FragmentGrammar.Proofs.Language

/-! # A block derives the words of its automaton

    From the name of a state, the productions of a block derive what the automaton reads
    on its way from that state to a final one (`sameLanguage_embed`).  A path becomes a
    derivation move by move.  The other way round, reading every name as the words of its
    state is closed under the productions of the block, so nothing else is derived.  Both
    hold up to the equality of labels only: a move is written with the first label that
    is equal to its own. -/

namespace FragmentGrammar

open Automaton

variable {A L : Type} [Automaton A L] [Label L]
variable {id : Nat} {a : A} {q : Nat} {w : List L}

/-! ## Words read from a state -/

/-- A move may be taken first, under any label equal to its own. -/
theorem upTo_acceptsFrom_of_reading {m : Move L} {l : L} (hm : m ∈ moves a)
    (he : m.isEpsilon = false) (hl : (m.label == l) = true)
    (h : UpTo (AcceptsFrom a m.target) w) : UpTo (AcceptsFrom a m.source) (l :: w) := by
  obtain ⟨v, ⟨f, hf, hp⟩, e⟩ := h
  exact ⟨m.label :: v, ⟨f, hf, .read hm he hp⟩, sameWord_cons.mpr ⟨hl, e⟩⟩

/-- `n` names a state in one of the numbered automata, and `w` is read from there. -/
def BlocksRead (recorded : List (Nat × A)) (n : Nonterminal) (w : List L) : Prop :=
  ∃ r ∈ recorded, ∃ q, n = stateName r.1 r.2 q ∧ UpTo (AcceptsFrom r.2 q) w

/-- Where no number is used twice, a name says which automaton and state it belongs to. -/
theorem blocksRead_stateName {recorded : List (Nat × A)} {r : Nat × A} (hr : r ∈ recorded)
    (unique : ∀ r' ∈ recorded, r'.1 = r.1 → r' = r) :
    BlocksRead recorded (stateName r.1 r.2 q) w ↔ UpTo (AcceptsFrom r.2 q) w := by
  constructor
  · rintro ⟨r', hr', q', hn, h⟩
    -- the name shows the number, and the number shows the automaton
    obtain rfl := unique r' hr' (stateName_id hn).symm
    obtain rfl := stateName_inj hn
    exact h
  · intro h
    exact ⟨r, hr, q, rfl, h⟩

variable [EquivBEq L]

/-! ## From paths to derivations -/

/-- A block has the productions of its moves and final states and no others. -/
theorem mem_embed_iff {p : Production L} :
    p ∈ embed id a ↔ (∃ m ∈ moves a, p = moveProduction id a m) ∨
      ∃ f ∈ finals a, p = .epsilon (stateName id a f) := by
  rw [embed_eq_plainBlock, plainBlock, List.mem_append, List.mem_map, List.mem_map]
  simp only [eq_comm]

/-- Every move has its production in the block. -/
theorem moveProduction_mem_embed {m : Move L} (hm : m ∈ moves a) :
    moveProduction id a m ∈ embed id a :=
  mem_embed_iff.mpr (Or.inl ⟨m, hm, rfl⟩)

/-- Every final state may end there. -/
theorem epsilon_mem_embed {f : Nat} (hf : f ∈ finals a) :
    .epsilon (stateName id a f) ∈ embed id a :=
  mem_embed_iff.mpr (Or.inr ⟨f, hf, rfl⟩)

/-- What is read from a state to a final one is derived from the name of the state. -/
theorem derives_of_acceptsFrom (h : AcceptsFrom a q w) :
    UpTo (Derives (embed id a) [.nonterminal (stateName id a q)]) w := by
  obtain ⟨f, hf, hp⟩ := h
  induction hp with
  | refl q => exact ⟨[], Derives.of_production (epsilon_mem_embed hf) .nil, sameWord_nil⟩
  | silent hm he _ ih =>
      obtain ⟨v, hv, e⟩ := ih hf
      refine ⟨v, Derives.of_production (moveProduction_mem_embed hm) ?_, e⟩
      rw [body_of_silent he]
      exact hv
  | @read m w f hm he _ ih =>
      obtain ⟨v, hv, e⟩ := ih hf
      refine ⟨representative a m.label :: v,
        Derives.of_production (moveProduction_mem_embed hm) ?_,
        sameWord_cons.mpr ⟨representative_beq a m.label, e⟩⟩
      rw [body_of_reading he]
      exact (Derives.terminal (labelTerminal a m.label)).append hv

/-! ## From derivations to paths -/

/-- An interpretation that reads terminals as their labels and the names of a block as
    the words of their states is closed under the productions of the block. -/
theorem head_of_concat_body {M : Symbol L → List L → Prop}
    (terminals : ∀ t w, M (.terminal t) w → SameWord [t.label] w)
    (states : ∀ q w, M (.nonterminal (stateName id a q)) w ↔ UpTo (AcceptsFrom a q) w)
    {p : Production L} (hp : p ∈ embed id a) (h : Concat M p.body w) :
    M (.nonterminal p.head) w := by
  rcases mem_embed_iff.mp hp with ⟨m, hm, rfl⟩ | ⟨f, hf, rfl⟩
  · show M (.nonterminal (stateName id a m.source)) w
    rw [states]
    by_cases he : m.isEpsilon = true
    · rw [body_of_silent he, concat_singleton, states] at h
      obtain ⟨v, ⟨f, hf, hv⟩, e⟩ := h
      exact ⟨v, ⟨f, hf, .silent hm he hv⟩, e⟩
    · rw [Bool.not_eq_true] at he
      rw [body_of_reading he] at h
      obtain ⟨u, v, rfl, hu, hv⟩ := h
      rw [concat_singleton, states] at hv
      -- the first letter is only equal to the label that the move is written with
      have same := terminals _ u hu
      obtain ⟨l, u', hl, htail, rfl⟩ := List.forall₂_cons_left_iff.mp same
      obtain rfl := List.forall₂_nil_left_iff.mp htail
      exact upTo_acceptsFrom_of_reading hm he
        (BEq.trans (BEq.symm (representative_beq a m.label)) hl) hv
  · show M (.nonterminal (stateName id a f)) w
    obtain rfl : w = [] := h
    exact (states f []).mpr (UpTo.of_mem ⟨f, hf, .refl f⟩)

/-- From the name of a state, a block derives the words that its automaton reads from
    that state to a final one. -/
theorem sameLanguage_embed (id : Nat) (a : A) (q : Nat) :
    SameLanguage (Derives (embed id a) [.nonterminal (stateName id a q)]) (AcceptsFrom a q) := by
  refine SameLanguage.of_subset ?_ fun w => derives_of_acceptsFrom
  intro w hw
  let M : Symbol L → List L → Prop
    | .nonterminal n, w => BlocksRead [(id, a)] n w
    | .terminal t, w => SameWord [t.label] w
  have states : ∀ q w, M (.nonterminal (stateName id a q)) w ↔ UpTo (AcceptsFrom a q) w :=
    fun q w => blocksRead_stateName (List.mem_singleton.mpr rfl)
      fun r' hr' _ => List.mem_singleton.mp hr'
  have closed : Closed (Production.Replaces (embed id a)) Terminal.Spelled M := by
    refine ⟨?_, ?_⟩
    · rintro _ _ ⟨t, rfl, rfl⟩
      exact SameWord.refl _
    · rintro _ _ u ⟨p, hp, rfl, rfl⟩ hu
      exact head_of_concat_body (fun _ _ h => h) states hp hu
  exact (states q w).mp (closed.holds hw)

/-- An automaton whose final state is listed twice, reached by moves that read equal
    labels, and which turns back to its start without reading anything. -/
def spinning : ListedAutomaton CaseBlind :=
  ⟨0, [], [7, 7], [⟨0, 1, ⟨"eps"⟩⟩, ⟨1, 0, ⟨"EPS"⟩⟩, ⟨1, 7, ⟨"a"⟩⟩, ⟨1, 7, ⟨"A"⟩⟩]⟩

theorem sameLanguage_embed_spinning :
    EquivBEq CaseBlind ∧
      UpTo (Derives (embed 4 spinning) [.nonterminal (.entry 4)]) [⟨"A"⟩] := by
  refine ⟨inferInstance, (sameLanguage_embed 4 spinning 0 _).mpr (UpTo.of_mem ?_)⟩
  have turn : (⟨0, 1, ⟨"eps"⟩⟩ : Move CaseBlind) ∈ moves spinning := List.mem_cons_self
  have step : (⟨1, 7, ⟨"A"⟩⟩ : Move CaseBlind) ∈ moves spinning :=
    List.mem_of_getElem? (i := 3) rfl
  exact ⟨7, by decide, .silent turn (by decide) (.read step (by decide) (.refl 7))⟩

end FragmentGrammar
