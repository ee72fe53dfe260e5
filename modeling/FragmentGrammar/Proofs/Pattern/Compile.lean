import FragmentGrammar.Automaton.Path
import FragmentGrammar.Pattern.Compile
import FragmentGrammar.Proofs.Automaton.Building
import Mathlib.Data.List.Forall2

/-! # What a compiled pattern accepts

    While items are added, only the current state is left by new moves: by a loop for
    every item that repeats there, and at last by the move that leads on.  All loops of
    one state are alike, so what they read comes in any order.  `Mixed` says which words
    that makes, and a compiled pattern accepts just these (`exists_compileItems`). -/

namespace FragmentGrammar

/-- The characters are members of the labels, one by one. -/
def Fits (v : List ClassLabel) (w : List Char) : Prop :=
  List.Forall₂ (fun l c => ∃ set, l = some set ∧ c ∈ set) v w

/-- The automaton accepts a word of labels that the characters are members of. -/
def DenseAutomaton.AcceptsText (a : DenseAutomaton ClassLabel) (w : List Char) : Prop :=
  ∃ v, Automaton.Accepts a v ∧ Fits v w

/-- The character is a member of one of the sets. -/
def Among (sets : List CharSet) (c : Char) : Prop :=
  ∃ set ∈ sets, c ∈ set

/-- The words of items behind repeated classes `loops`, when all classes that repeat with
    no single item between them may take turns. -/
def Mixed (loops : List CharSet) : List Item → List Char → Prop
  | [], w => ∀ c ∈ w, Among loops c
  | ⟨set, .star⟩ :: is, w => Mixed (loops ++ [set]) is w
  | ⟨set, .once⟩ :: is, w =>
    ∃ u c v, w = u ++ c :: v ∧ (∀ d ∈ u, Among loops d) ∧ c ∈ set ∧ Mixed [] is v
  | ⟨set, .plus⟩ :: is, w =>
    ∃ u c v, w = u ++ c :: v ∧ (∀ d ∈ u, Among loops d) ∧ c ∈ set ∧ Mixed [set] is v

/-! ## Paths that read characters -/

/-- Some path from `p` to `q` reads labels that the characters are members of. -/
def Scans (moves : List (Move ClassLabel)) (p : Nat) (w : List Char) (q : Nat) : Prop :=
  ∃ v, Path moves p v q ∧ Fits v w

section Scans

variable {moves : List (Move ClassLabel)} {p q : Nat} {loops : List CharSet} {w : List Char}

/-- A move with a class reads a character. -/
theorem isEpsilon_of_some {m : Move ClassLabel} {set : CharSet} (h : m.label = some set) :
    m.isEpsilon = false := by
  rw [Move.isEpsilon, h]
  rfl

/-- Without moves that read nothing, the empty word leads nowhere else. -/
theorem scans_nil_iff (labelled : ∀ m ∈ moves, ∃ set, m.label = some set) :
    Scans moves p [] q ↔ p = q := by
  constructor
  · rintro ⟨v, path, fits⟩
    cases fits
    cases path with
    | refl => rfl
    | silent hm silent _ =>
        obtain ⟨set, hl⟩ := labelled _ hm
        rw [isEpsilon_of_some hl] at silent
        cases silent
  · rintro rfl
    exact ⟨[], .refl p, List.Forall₂.nil⟩

/-- The first character is read by a move, and the others behind it. -/
theorem scans_cons_iff {c : Char} (labelled : ∀ m ∈ moves, ∃ set, m.label = some set) :
    Scans moves p (c :: w) q ↔ ∃ m ∈ moves, m.source = p ∧
      (∃ set, m.label = some set ∧ c ∈ set) ∧ Scans moves m.target w q := by
  constructor
  · rintro ⟨v, path, fits⟩
    cases path with
    | refl => cases fits
    | silent hm silent _ =>
        obtain ⟨set, hl⟩ := labelled _ hm
        rw [isEpsilon_of_some hl] at silent
        cases silent
    | @read m v _ hm _ rest =>
        obtain ⟨member, fits⟩ := List.forall₂_cons.mp fits
        exact ⟨m, hm, rfl, member, v, rest, fits⟩
  · rintro ⟨m, hm, rfl, ⟨set, hl, hc⟩, v, rest, fits⟩
    exact ⟨m.label :: v, .read hm (isEpsilon_of_some hl) rest, List.Forall₂.cons ⟨set, hl, hc⟩ fits⟩

/-- A state that is left by its loops only reads the characters of its loops. -/
theorem scans_loops_iff (labelled : ∀ m ∈ moves, ∃ set, m.label = some set)
    (leaving : ∀ m, m.source = p → (m ∈ moves ↔ m.target = p ∧ ∃ s ∈ loops, m.label = some s)) :
    Scans moves p w p ↔ ∀ c ∈ w, Among loops c := by
  induction w with
  | nil => simp [scans_nil_iff labelled]
  | cons c w ih =>
      rw [scans_cons_iff labelled, List.forall_mem_cons, ← ih]
      constructor
      · rintro ⟨m, hm, source, ⟨set, hl, hc⟩, rest⟩
        obtain ⟨target, s, hs, hl'⟩ := (leaving m source).mp hm
        obtain rfl := Option.some.inj (hl.symm.trans hl')
        rw [target] at rest
        exact ⟨⟨set, hs, hc⟩, rest⟩
      · rintro ⟨⟨set, hs, hc⟩, rest⟩
        have loop := (leaving ⟨p, p, some set⟩ rfl).mpr ⟨rfl, set, hs, rfl⟩
        exact ⟨_, loop, rfl, ⟨set, rfl, hc⟩, rest⟩

/-- On the way to another state the loops are left by the move that leads on. -/
theorem scans_leave_iff {n : Nat} {set : CharSet} (apart : p ≠ q)
    (labelled : ∀ m ∈ moves, ∃ set, m.label = some set)
    (leaving : ∀ m, m.source = p → (m ∈ moves ↔
      (m.target = p ∧ ∃ s ∈ loops, m.label = some s) ∨ m = ⟨p, n, some set⟩)) :
    Scans moves p w q ↔ ∃ u c v, w = u ++ c :: v ∧ (∀ d ∈ u, Among loops d) ∧ c ∈ set ∧
      Scans moves n v q := by
  induction w with
  | nil => simp [scans_nil_iff labelled, apart]
  | cons d w ih =>
      rw [scans_cons_iff labelled]
      constructor
      · rintro ⟨m, hm, source, ⟨s, hl, hd⟩, rest⟩
        rcases (leaving m source).mp hm with ⟨target, s', hs, hl'⟩ | rfl
        · obtain rfl := Option.some.inj (hl.symm.trans hl')
          rw [target] at rest
          obtain ⟨u, c, v, rfl, before, hc, behind⟩ := ih.mp rest
          exact ⟨d :: u, c, v, rfl, List.forall_mem_cons.mpr ⟨⟨s, hs, hd⟩, before⟩, hc, behind⟩
        · obtain rfl := Option.some.inj hl
          exact ⟨[], d, w, rfl, List.forall_mem_nil _, hd, rest⟩
      · rintro ⟨u, c, v, split, before, hc, behind⟩
        cases u with
        | nil =>
            obtain ⟨rfl, rfl⟩ := List.cons.inj split
            have on := (leaving ⟨p, n, some set⟩ rfl).mpr (.inr rfl)
            exact ⟨_, on, rfl, ⟨set, rfl, hc⟩, behind⟩
        | cons e u =>
            obtain ⟨rfl, rfl⟩ := List.cons.inj split
            obtain ⟨⟨s, hs, hd⟩, before⟩ := List.forall_mem_cons.mp before
            have loop := (leaving ⟨p, p, some s⟩ rfl).mpr (.inl ⟨rfl, s, hs, rfl⟩)
            exact ⟨_, loop, rfl, ⟨s, rfl, hd⟩, ih.mpr ⟨u, c, v, rfl, before, hc, behind⟩⟩

end Scans

/-! ## Building -/

namespace DenseAutomaton.Builder

variable {b : Builder ClassLabel}

/-- Classes are equal only if they are the same. -/
theorem eq_of_move_beq {m n : Move ClassLabel} (h : (m == n) = true) : m = n := by
  obtain ⟨source, target, label⟩ := Move.beq_iff.mp h
  obtain ⟨_, _, l⟩ := m
  obtain ⟨_, _, l'⟩ := n
  obtain rfl : l = l' := eq_of_beq label
  subst source target
  rfl

/-- The moves are those that were there and the one that is added. -/
theorem mem_addMove {m n : Move ClassLabel} :
    m ∈ (b.addMove n).moves ↔ m ∈ b.moves ∨ m = n := by
  rw [addMove]
  by_cases known : b.moves.any (· == n) = true
  · rw [if_pos known]
    obtain ⟨x, hx, same⟩ := List.any_eq_true.mp known
    obtain rfl := eq_of_move_beq same
    constructor
    · exact .inl
    · rintro (old | rfl)
      · exact old
      · exact hx
  · rw [if_neg known, List.mem_append, List.mem_singleton]

/-- A builder whose moves and final states exist gives the automaton that they make. -/
theorem exists_build (hm : ∀ m ∈ b.moves, m.source < b.count ∧ m.target < b.count)
    (hf : ∀ q ∈ b.finals, q < b.count) :
    ∃ a, b.build = .ok a ∧ a.moves = b.moves ∧ a.finals = b.finals := by
  have connected : b.moves.find? (!b.connects ·) = none := by
    refine List.find?_eq_none.mpr fun m h => ?_
    simp [connects, hm m h]
  have known : b.finals.toList.find? (b.count ≤ ·) = none := by
    refine List.find?_eq_none.mpr fun q h => ?_
    simpa using hf q h
  rcases b.build_cases with ⟨m, astray, -⟩ | ⟨-, q, missing, -⟩ | ⟨-, -, a, built, -, finals, moves⟩
  · rw [connected] at astray
    cases astray
  · rw [known] at missing
    cases missing
  · exact ⟨a, built, moves, finals⟩

end DenseAutomaton.Builder

namespace Tail

variable {t : Tail} {loops : List CharSet} {set : CharSet} {m : Move ClassLabel}

/-- The current state is the last one, and the only moves that leave it are loops under
    these classes. -/
structure Sound (t : Tail) (loops : List CharSet) : Prop where
  count : t.builder.count = t.current + 1
  finals : t.builder.finals = .empty
  labelled : ∀ m ∈ t.builder.moves, ∃ set, m.label = some set
  within : ∀ m ∈ t.builder.moves, m.source ≤ t.current ∧ m.target ≤ t.current
  leaving : ∀ m, m.source = t.current →
    (m ∈ t.builder.moves ↔ m.target = t.current ∧ ∃ s ∈ loops, m.label = some s)

/-- A loop stays at the current state. -/
theorem mem_loop {l : ClassLabel} :
    m ∈ (t.loop l).builder.moves ↔ m ∈ t.builder.moves ∨ m = ⟨t.current, t.current, l⟩ :=
  DenseAutomaton.Builder.mem_addMove

/-- A move ahead leads to a state of its own. -/
theorem mem_advance {l : ClassLabel} :
    m ∈ (t.advance l).builder.moves ↔
      m ∈ t.builder.moves ∨ m = ⟨t.current, t.builder.count, l⟩ :=
  DenseAutomaton.Builder.mem_addMove

/-- At the start there is one state and no move. -/
theorem sound_start : Sound start [] where
  count := rfl
  finals := rfl
  labelled := List.forall_mem_nil _
  within := List.forall_mem_nil _
  leaving m _ := by simp [start, DenseAutomaton.Builder.start]

/-- A loop puts its class behind the others. -/
theorem Sound.loop (h : t.Sound loops) (set : CharSet) :
    (t.loop (some set)).Sound (loops ++ [set]) where
  count := h.count
  finals := h.finals
  labelled := by
    intro m hm
    rcases mem_loop.mp hm with old | rfl
    · exact h.labelled m old
    · exact ⟨set, rfl⟩
  within := by
    intro m hm
    rcases mem_loop.mp hm with old | rfl
    · exact h.within m old
    · exact ⟨Nat.le_refl _, Nat.le_refl _⟩
  leaving := by
    intro m source
    rw [mem_loop, h.leaving m source]
    constructor
    · rintro (⟨target, s, hs, hl⟩ | rfl)
      · exact ⟨target, s, List.mem_append_left _ hs, hl⟩
      · exact ⟨rfl, set, by simp, rfl⟩
    · rintro ⟨target, s, hs, hl⟩
      rcases List.mem_append.mp hs with old | new
      · exact .inl ⟨target, s, old, hl⟩
      · obtain rfl := List.mem_singleton.mp new
        obtain ⟨_, _, _⟩ := m
        obtain rfl : _ = t.current := source
        obtain rfl : _ = t.current := target
        obtain rfl : _ = some s := hl
        exact .inr rfl

/-- States are numbered as they are entered. -/
theorem current_advance (h : t.Sound loops) (l : ClassLabel) :
    (t.advance l).current = t.current + 1 :=
  h.count

/-- A new state has no loops. -/
theorem Sound.advance (h : t.Sound loops) (set : CharSet) : (t.advance (some set)).Sound [] where
  count := rfl
  finals := h.finals
  labelled := by
    intro m hm
    rcases mem_advance.mp hm with old | rfl
    · exact h.labelled m old
    · exact ⟨set, rfl⟩
  within := by
    intro m hm
    rw [current_advance h]
    rcases mem_advance.mp hm with old | rfl
    · have := h.within m old
      omega
    · show t.current ≤ t.current + 1 ∧ t.builder.count ≤ t.current + 1
      have := h.count
      omega
  leaving := by
    intro m source
    rw [current_advance h] at source
    -- all moves that there are leave a state before the new one
    constructor
    · intro hm
      rcases mem_advance.mp hm with old | rfl
      · have := h.within m old
        omega
      · have source : t.current = t.current + 1 := source
        omega
    · rintro ⟨-, s, hs, -⟩
      cases hs

/-- The classes that repeat at the current state once an item is added. -/
def loopsAfter (loops : List CharSet) : Item → List CharSet
  | ⟨set, .star⟩ => loops ++ [set]
  | ⟨_, .once⟩ => []
  | ⟨set, .plus⟩ => [set]

/-- One item keeps the tail sound. -/
theorem Sound.add (h : t.Sound loops) (i : Item) : (t.add i).Sound (loopsAfter loops i) := by
  obtain ⟨set, quantity⟩ := i
  cases quantity with
  | once => exact h.advance set
  | star => exact h.loop set
  | plus => exact (h.advance set).loop set

/-- By induction so do all items. -/
theorem Sound.foldl_add (h : t.Sound loops) (is : List Item) :
    ∃ loops', (is.foldl Tail.add t).Sound loops' := by
  induction is generalizing t loops with
  | nil => exact ⟨loops, h⟩
  | cons i is ih => exact ih (h.add i)

/-- Adding an item leaves the moves of earlier states alone. -/
theorem Sound.add_keeps (h : t.Sound loops) (i : Item) : t.current ≤ (t.add i).current ∧
    ∀ m, m.source < t.current → (m ∈ (t.add i).builder.moves ↔ m ∈ t.builder.moves) := by
  obtain ⟨set, quantity⟩ := i
  have grows : t.current ≤ (t.advance (some set)).current := by
    rw [current_advance h]
    exact Nat.le_succ _
  have other {m : Move ClassLabel} {q : Nat} {l : ClassLabel} (p : Nat) (hp : t.current ≤ p)
      (hm : m.source < t.current) : m ≠ ⟨p, q, l⟩ := by
    rintro rfl
    exact absurd hm (Nat.not_lt.mpr hp)
  cases quantity with
  | once =>
      refine ⟨grows, fun m hm => ?_⟩
      show m ∈ (t.advance (some set)).builder.moves ↔ _
      rw [mem_advance, or_iff_left (other _ (Nat.le_refl _) hm)]
  | star =>
      refine ⟨Nat.le_refl _, fun m hm => ?_⟩
      show m ∈ (t.loop (some set)).builder.moves ↔ _
      rw [mem_loop, or_iff_left (other _ (Nat.le_refl _) hm)]
  | plus =>
      refine ⟨grows, fun m hm => ?_⟩
      show m ∈ ((t.advance (some set)).loop (some set)).builder.moves ↔ _
      rw [mem_loop, mem_advance, or_iff_left (other _ grows hm),
        or_iff_left (other _ (Nat.le_refl _) hm)]

/-- What has been left behind is not changed by later items. -/
theorem Sound.foldl_keeps (h : t.Sound loops) (is : List Item) :
    t.current ≤ (is.foldl Tail.add t).current ∧
      ∀ m, m.source < t.current →
        (m ∈ (is.foldl Tail.add t).builder.moves ↔ m ∈ t.builder.moves) := by
  induction is generalizing t loops with
  | nil => exact ⟨Nat.le_refl _, fun m _ => Iff.rfl⟩
  | cons i is ih =>
      obtain ⟨grows, keeps⟩ := h.add_keeps i
      obtain ⟨grows', keeps'⟩ := ih (h.add i)
      refine ⟨Nat.le_trans grows grows', fun m hm => ?_⟩
      rw [List.foldl_cons, keeps' m (Nat.lt_of_lt_of_le hm grows), keeps m hm]

/-! ## The words of a compiled pattern -/

section Words

variable {u : Tail} {w : List Char}

/-- Where items lead on from the state `t` to the state `u`, the words that are read from
    `t` on go through the loops of `t`, the new move, and on from `u`. -/
theorem scans_leave (h : t.Sound loops) {loops' : List CharSet} (h' : u.Sound loops')
    (behind : t.current < u.current)
    (moves : ∀ m, m.source = t.current → (m ∈ u.builder.moves ↔
      m ∈ t.builder.moves ∨ m = ⟨t.current, u.current, some set⟩)) (is : List Item) :
    Scans (is.foldl Tail.add u).builder.moves t.current w (is.foldl Tail.add u).current ↔
      ∃ before c after, w = before ++ c :: after ∧ (∀ d ∈ before, Among loops d) ∧ c ∈ set ∧
        Scans (is.foldl Tail.add u).builder.moves u.current after
          (is.foldl Tail.add u).current := by
  obtain ⟨grows, keeps⟩ := h'.foldl_keeps is
  obtain ⟨_, last⟩ := h'.foldl_add is
  refine scans_leave_iff (Nat.ne_of_lt (Nat.lt_of_lt_of_le behind grows)) last.labelled ?_
  intro m source
  rw [keeps m (by rw [source]; exact behind), moves m source, h.leaving m source]

/-- From the current state on, the words of the items that are still to be added are
    read, mixed with the loops that are there. -/
theorem scans_foldl_add (h : t.Sound loops) (is : List Item) (w : List Char) :
    Scans (is.foldl Tail.add t).builder.moves t.current w (is.foldl Tail.add t).current ↔
      Mixed loops is w := by
  induction is generalizing t loops w with
  | nil => exact scans_loops_iff h.labelled h.leaving
  | cons i is ih =>
      obtain ⟨set, quantity⟩ := i
      have behind : t.current < (t.advance (some set)).current := by
        rw [current_advance h]
        exact Nat.lt_succ_self _
      cases quantity with
      | star => exact ih (h.loop set) w
      | once =>
          have leave := scans_leave (w := w) h (h.advance set) behind (fun m _ => mem_advance) is
          refine leave.trans ?_
          simp only [ih (h.advance set)]
          rfl
      | plus =>
          have moves (m : Move ClassLabel) (source : m.source = t.current) :
              m ∈ ((t.advance (some set)).loop (some set)).builder.moves ↔
                m ∈ t.builder.moves ∨ m = ⟨t.current, (t.advance (some set)).current, some set⟩ := by
            -- the loop leaves the new state
            have other : m ≠ ⟨(t.advance (some set)).current, (t.advance (some set)).current,
                some set⟩ := by
              rintro rfl
              exact Nat.ne_of_gt behind source
            rw [mem_loop, or_iff_left other]
            exact mem_advance
          have leave := scans_leave (w := w) h ((h.advance set).loop set) behind moves is
          refine leave.trans ?_
          simp only [ih ((h.advance set).loop set)]
          rfl

/-- Closing a pattern makes its current state the only final one. -/
theorem Sound.exists_close (h : t.Sound loops) :
    ∃ a, t.close = .ok a ∧ a.moves = t.builder.moves ∧ a.finals.toList = [t.current] := by
  have finals : (t.builder.markFinal t.current).finals.toList = [t.current] := by
    show (t.builder.finals.insert t.current).toList = _
    rw [h.finals]
    rfl
  have connected : ∀ m ∈ t.builder.moves, m.source < t.builder.count ∧ m.target < t.builder.count := by
    intro m hm
    have := h.within m hm
    have := h.count
    omega
  have known : ∀ q ∈ (t.builder.markFinal t.current).finals, q < t.builder.count := by
    intro q hq
    rw [Ascending.mem_def, finals] at hq
    obtain rfl := List.mem_singleton.mp hq
    rw [h.count]
    exact Nat.lt_succ_self _
  obtain ⟨a, built, moves, same⟩ := DenseAutomaton.Builder.exists_build
    (b := t.builder.markFinal t.current) connected known
  exact ⟨a, built, moves, by rw [same, finals]⟩

end Words

end Tail

/-- Items are always compiled, and what is accepted are their words, mixed. -/
theorem exists_compileItems (is : List Item) :
    ∃ a, compileItems is = .ok a ∧ ∀ w, a.AcceptsText w ↔ Mixed [] is w := by
  obtain ⟨_, last⟩ := Tail.sound_start.foldl_add is
  obtain ⟨a, closed, moves, finals⟩ := last.exists_close
  refine ⟨a, closed, fun w => ?_⟩
  rw [← Tail.scans_foldl_add Tail.sound_start is w, ← moves]
  constructor
  · rintro ⟨v, ⟨q, hq, path⟩, fits⟩
    have hq : q ∈ a.finals.toList := hq
    rw [finals] at hq
    obtain rfl := List.mem_singleton.mp hq
    exact ⟨v, path, fits⟩
  · rintro ⟨v, path, fits⟩
    have hq : (is.foldl Tail.add Tail.start).current ∈ a.finals.toList := by
      rw [finals]
      exact List.mem_singleton_self _
    exact ⟨v, ⟨_, hq, path⟩, fits⟩

end FragmentGrammar
