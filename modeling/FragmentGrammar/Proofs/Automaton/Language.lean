import FragmentGrammar.Automaton.Path
import FragmentGrammar.Proofs.Automaton.Closure

/-! # What the shape of an automaton says about its words

    The two questions that are asked of an automaton are answered by closures of its
    states; paths give the answers their meaning.  An automaton accepts only the empty
    word exactly when it is said to (`acceptsOnlyEpsilon_iff`), and one that is said to
    be a single terminal accepts the label of its move and nothing else
    (`accepts_iff_of_singleTerminal`). -/

namespace FragmentGrammar

variable {A L : Type} [Label L]

namespace Path

variable {moves : List (Move L)} {p q r : Nat} {v w : List L}

/-- Paths compose. -/
theorem append (h : Path moves p v q) (h' : Path moves q w r) : Path moves p (v ++ w) r := by
  induction h with
  | refl q => exact h'
  | silent hm he _ ih => exact .silent hm he (ih h')
  | read hm he _ ih => exact .read hm he (ih h')

/-- One move is a path, whatever it reads. -/
theorem of_move {m : Move L} (hm : m ∈ moves) : ∃ w, Path moves m.source w m.target := by
  by_cases he : m.isEpsilon = true
  · exact ⟨[], .silent hm he (.refl _)⟩
  · exact ⟨[m.label], .read hm (Bool.not_eq_true _ ▸ he) (.refl _)⟩

/-- A path that reads something takes a move that does. -/
theorem exists_reading_move (h : Path moves p w q) (hw : w ≠ []) :
    ∃ m ∈ moves, m.isEpsilon = false ∧
      (∃ u, Path moves p u m.source) ∧ ∃ v, Path moves m.target v q := by
  induction h with
  | refl q => exact absurd rfl hw
  | silent hm he _ ih =>
      obtain ⟨m, hm', he', ⟨u, hu⟩, hv⟩ := ih hw
      exact ⟨m, hm', he', ⟨u, .silent hm he hu⟩, hv⟩
  | @read m w q hm he hp _ => exact ⟨m, hm, he, ⟨[], .refl _⟩, w, hp⟩

end Path

namespace Automaton

variable [Automaton A L] {a : A} {ms : List (Move L)} {p q : Nat} {w : List L}

/-! ## Closures as paths -/

/-- An edge is followed without reading when a move along it reads nothing. -/
theorem mem_silentEdges_iff :
    (p, q) ∈ silentEdges ms ↔ ∃ m ∈ ms, m.isEpsilon = true ∧ m.source = p ∧ m.target = q := by
  simp only [silentEdges, List.mem_filterMap, Option.ite_none_right_eq_some, Option.some.injEq,
    Prod.mk.injEq]

/-- Following the moves is going along a path. -/
theorem reachable_edges_iff : Reachable (edges ms) [p] q ↔ ∃ w, Path ms p w q := by
  constructor
  · intro h
    induction h with
    | seed hq =>
        obtain rfl := List.mem_singleton.mp hq
        exact ⟨[], .refl _⟩
    | step _ edge ih =>
        obtain ⟨w, hw⟩ := ih
        obtain ⟨m, hm, he⟩ := List.mem_map.mp edge
        obtain ⟨rfl, rfl⟩ := Prod.mk.inj he
        obtain ⟨v, hv⟩ := Path.of_move hm
        exact ⟨w ++ v, hw.append hv⟩
  · rintro ⟨w, hw⟩
    have edge {m : Move L} (hm : m ∈ ms) : (m.source, m.target) ∈ edges ms :=
      List.mem_map_of_mem hm
    induction hw with
    | refl q => exact .seed (List.mem_singleton.mpr rfl)
    | silent hm _ _ ih => exact Reachable.head (edge hm) ih
    | read hm _ _ ih => exact Reachable.head (edge hm) ih

/-- Following the moves that read nothing is going along a path that reads nothing. -/
theorem reachable_silentEdges_iff : Reachable (silentEdges ms) [p] q ↔ Path ms p [] q := by
  constructor
  · intro h
    induction h with
    | seed hq =>
        obtain rfl := List.mem_singleton.mp hq
        exact .refl _
    | step _ edge ih =>
        obtain ⟨m, hm, he, rfl, rfl⟩ := mem_silentEdges_iff.mp edge
        exact ih.append (.silent hm he (.refl _))
  · intro h
    generalize hw : ([] : List L) = w at h
    induction h with
    | refl q => exact .seed (List.mem_singleton.mpr rfl)
    | @silent m w q hm he _ ih =>
        exact Reachable.head (mem_silentEdges_iff.mpr ⟨m, hm, he, rfl, rfl⟩) (ih hw)
    | read => cases hw

/-- Going back along the moves from the final states leads to where a path to a final
    state begins. -/
theorem reachable_backEdges_iff :
    Reachable (backEdges (moves a)) (finals a) q ↔ ∃ w, AcceptsFrom a q w := by
  constructor
  · intro h
    induction h with
    | seed hq => exact ⟨[], _, hq, .refl _⟩
    | step _ edge ih =>
        obtain ⟨w, f, hf, hw⟩ := ih
        obtain ⟨m, hm, he⟩ := List.mem_map.mp edge
        obtain ⟨rfl, rfl⟩ := Prod.mk.inj he
        obtain ⟨v, hv⟩ := Path.of_move hm
        exact ⟨v ++ w, f, hf, hv.append hw⟩
  · rintro ⟨w, f, hf, hw⟩
    have back {m : Move L} (hm : m ∈ moves a) : (m.target, m.source) ∈ backEdges (moves a) :=
      List.mem_map_of_mem hm
    induction hw with
    | refl q => exact .seed hf
    | silent hm _ _ ih => exact .step (ih hf) (back hm)
    | read hm _ _ ih => exact .step (ih hf) (back hm)

/-! ## The two questions -/

/-- Accepting the empty word is having a path that reads nothing. -/
theorem acceptsEmpty_iff [LawfulAutomaton A L] :
    acceptsEmpty (moves a) (initial a) (isFinal a) = true ↔ Accepts a [] := by
  simp only [acceptsEmpty, List.any_eq_true, mem_closure_iff, reachable_silentEdges_iff,
    LawfulAutomaton.isFinal_eq, List.contains_iff_mem, Accepts, AcceptsFrom]
  constructor
  · rintro ⟨f, hp, hf⟩
    exact ⟨f, hf, hp⟩
  · rintro ⟨f, hf, hp⟩
    exact ⟨f, hp, hf⟩

/-- Reading something on the way to a final state is accepting a word that is not empty. -/
theorem readsSomething_iff : readsSomething (moves a) (initial a) (finals a) = true ↔
    ∃ w, w ≠ [] ∧ Accepts a w := by
  simp only [readsSomething, List.any_eq_true, Bool.and_eq_true, Bool.not_eq_true',
    List.contains_iff_mem, mem_closure_iff, reachable_edges_iff, reachable_backEdges_iff]
  constructor
  · rintro ⟨m, hm, ⟨he, u, hu⟩, v, f, hf, hv⟩
    refine ⟨u ++ m.label :: v, by simp, f, hf, ?_⟩
    exact hu.append (.read hm he hv)
  · rintro ⟨w, hw, f, hf, hp⟩
    obtain ⟨m, hm, he, hu, v, hv⟩ := hp.exists_reading_move hw
    exact ⟨m, hm, ⟨he, hu⟩, v, f, hf, hv⟩

/-- An automaton is said to accept only the empty word when that is its only word. -/
theorem acceptsOnlyEpsilon_iff [LawfulAutomaton A L] :
    acceptsOnlyEpsilon a = true ↔ ∀ w, Accepts a w ↔ w = [] := by
  rw [LawfulAutomaton.acceptsOnlyEpsilon_eq, Bool.and_eq_true, Bool.not_eq_true',
    ← Bool.not_eq_true, acceptsEmpty_iff, readsSomething_iff]
  constructor
  · rintro ⟨hnil, hno⟩ w
    constructor
    · intro hw
      cases w with
      | nil => rfl
      | cons l w => exact absurd ⟨_, List.cons_ne_nil l w, hw⟩ hno
    · rintro rfl
      exact hnil
  · intro h
    refine ⟨(h []).mpr rfl, ?_⟩
    rintro ⟨w, hne, hw⟩
    exact hne ((h w).mp hw)

/-- The automaton is the move `m` and nothing else: it leads from the initial state to the
    only final one, and these are all states. -/
structure IsOneMove (a : A) (m : Move L) : Prop where
  stateCount : stateCount a = 2
  moves : moves a = [m]
  finals : finals a = [m.target]
  reads : m.isEpsilon = false
  source : m.source = initial a
  leaves : m.source ≠ m.target

/-- The sole label of an automaton is that of its only move. -/
theorem soleLabel_eq_some_iff {l : L} :
    soleLabel (moves a) (initial a) (finals a) (stateCount a) = some l ↔
      ∃ m, IsOneMove a m ∧ m.label = l := by
  constructor
  · intro h
    unfold soleLabel at h
    split at h
    next hcount =>
      split at h
      next m q hm hq =>
        split at h
        next shape =>
          simp only [Bool.and_eq_true, Bool.not_eq_true', decide_eq_true_eq, Move.isLoop,
            decide_eq_false_iff_not] at shape
          obtain ⟨⟨⟨he, hs⟩, hl⟩, rfl⟩ := shape
          exact ⟨m, ⟨hcount, hm, hq, he, hs, hl⟩, Option.some.inj h⟩
        next => cases h
      next => cases h
    next => cases h
  · rintro ⟨m, ⟨hcount, hm, hf, he, hs, hne⟩, rfl⟩
    unfold soleLabel
    rw [if_pos hcount, hm, hf]
    exact if_pos (by simp [he, hs, Move.isLoop, hs ▸ hne])

variable [LawfulAutomaton A L]

/-- A single terminal is the label of the only move. -/
theorem singleTerminal_eq_some_iff {l : L} :
    singleTerminal a = some l ↔ ∃ m, IsOneMove a m ∧ m.label = l := by
  rw [LawfulAutomaton.singleTerminal_eq, soleLabel_eq_some_iff]

/-- What an automaton looks like that is said to be a single terminal. -/
theorem eq_of_singleTerminal {l : L} (h : singleTerminal a = some l) :
    ∃ m, moves a = [m] ∧ finals a = [m.target] ∧ m.isEpsilon = false ∧ m.source = initial a ∧
      m.source ≠ m.target ∧ m.label = l := by
  obtain ⟨m, ⟨-, hm, hf, he, hs, hne⟩, hl⟩ := singleTerminal_eq_some_iff.mp h
  exact ⟨m, hm, hf, he, hs, hne, hl⟩

/-- An automaton that is a single terminal accepts its label and nothing else. -/
theorem accepts_iff_of_singleTerminal {l : L} (h : singleTerminal a = some l) :
    Accepts a w ↔ w = [l] := by
  obtain ⟨m, hm, hf, he, hs, hne, rfl⟩ := eq_of_singleTerminal h
  rw [Accepts, AcceptsFrom, hm, hf, ← hs]
  -- nothing leaves the target of the only move
  have stays {v : List L} {f : Nat} (hp : Path [m] m.target v f) : v = [] := by
    generalize hq : m.target = q at hp
    cases hp with
    | refl => rfl
    | silent hm' => exact absurd (List.mem_singleton.mp hm' ▸ hq.symm) hne
    | read hm' => exact absurd (List.mem_singleton.mp hm' ▸ hq.symm) hne
  constructor
  · rintro ⟨f, hf', hp⟩
    obtain rfl := List.mem_singleton.mp hf'
    generalize hq : m.source = q at hp
    cases hp with
    | refl => exact absurd hq hne
    | silent hm' he' =>
        rw [List.mem_singleton.mp hm', he] at he'
        cases he'
    | read hm' _ hv =>
        obtain rfl := List.mem_singleton.mp hm'
        rw [stays hv]
  · rintro rfl
    exact ⟨m.target, List.mem_singleton.mpr rfl, .read (List.mem_singleton.mpr rfl) he (.refl _)⟩

end Automaton

end FragmentGrammar
