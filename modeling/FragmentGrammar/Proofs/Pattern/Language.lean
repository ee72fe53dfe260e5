import FragmentGrammar.Proofs.Pattern.Compile
import FragmentGrammar.Proofs.Pattern.Text

/-! # Where a compiled pattern reads its items in order

    Every word of a pattern's items is accepted, but classes that repeat one behind the
    other share their state, and then words are accepted in which they take turns.  That
    makes no difference where one of these classes holds all members of the others; where
    none does, and nothing else stands in the pattern, it always makes one
    (`itemsRead_stars_all_iff`).  So a compiled pattern accepts the words of its items if
    no classes get tangled (`compilePattern_accepts_iff`), and `a*b*` accepts `ba`. -/

namespace FragmentGrammar

variable {sets loops : List CharSet} {set : CharSet} {is js : List Item} {w : List Char}

/-! ## Items one by one -/

/-- Items behind others read what comes behind. -/
theorem itemsRead_append :
    ItemsRead (is ++ js) w ↔ ∃ u v, w = u ++ v ∧ ItemsRead is u ∧ ItemsRead js v := by
  induction is generalizing w with
  | nil =>
      constructor
      · intro h
        exact ⟨[], w, rfl, .nil, h⟩
      · rintro ⟨u, v, rfl, h, h'⟩
        cases h
        exact h'
  | cons i is ih =>
      constructor
      · intro h
        cases h with
        | @cons _ _ u v reads rest =>
            obtain ⟨u', v', rfl, first, second⟩ := ih.mp rest
            exact ⟨u ++ u', v', (List.append_assoc ..).symm, .cons reads first, second⟩
      · rintro ⟨_, v, rfl, h, h'⟩
        cases h with
        | @cons _ _ u u' reads rest =>
            rw [List.append_assoc]
            exact .cons reads (ih.mpr ⟨u', v, rfl, rest, h'⟩)

/-- A plain item reads one character. -/
theorem itemsRead_once :
    ItemsRead (⟨set, .once⟩ :: is) w ↔ ∃ c v, w = c :: v ∧ c ∈ set ∧ ItemsRead is v := by
  constructor
  · intro h
    cases h with
    | @cons _ _ u v reads rest =>
        obtain ⟨members, single⟩ := reads
        obtain ⟨c, rfl⟩ := List.length_eq_one_iff.mp single
        exact ⟨c, v, rfl, members c (List.mem_singleton_self c), rest⟩
  · rintro ⟨c, v, rfl, hc, rest⟩
    have reads : Item.Reads ⟨set, .once⟩ [c] := ⟨by simpa using hc, rfl⟩
    exact .cons reads rest

/-- A repeated item reads one character, and then any number of others. -/
theorem itemsRead_plus :
    ItemsRead (⟨set, .plus⟩ :: is) w ↔
      ∃ c v, w = c :: v ∧ c ∈ set ∧ ItemsRead (⟨set, .star⟩ :: is) v := by
  constructor
  · intro h
    cases h with
    | @cons _ _ u v reads rest =>
        obtain ⟨members, nonempty⟩ := reads
        cases u with
        | nil => exact absurd rfl nonempty
        | cons c u =>
            obtain ⟨hc, others⟩ := List.forall_mem_cons.mp members
            have more : Item.Reads ⟨set, .star⟩ u := ⟨others, trivial⟩
            exact ⟨c, u ++ v, rfl, hc, .cons more rest⟩
  · rintro ⟨c, v, rfl, hc, h⟩
    cases h with
    | @cons _ _ u v reads rest =>
        have more : Item.Reads ⟨set, .plus⟩ (c :: u) :=
          ⟨List.forall_mem_cons.mpr ⟨hc, reads.1⟩, List.cons_ne_nil c u⟩
        exact .cons more rest

/-! ## Starred items -/

/-- Each of the classes, any number of times. -/
def stars (sets : List CharSet) : List Item :=
  sets.map (⟨·, .star⟩)

theorem stars_append (sets : List CharSet) (set : CharSet) :
    stars (sets ++ [set]) = stars sets ++ [⟨set, .star⟩] :=
  List.map_append

/-- Starred items read characters of their classes. -/
theorem among_of_itemsRead_stars (h : ItemsRead (stars sets) w) : ∀ c ∈ w, Among sets c := by
  induction sets generalizing w with
  | nil =>
      cases h
      exact List.forall_mem_nil _
  | cons set sets ih =>
      cases h with
      | cons reads rest =>
          intro c hc
          rcases List.mem_append.mp hc with first | later
          · exact ⟨set, List.mem_cons_self, reads.1 c first⟩
          · obtain ⟨s, hs, member⟩ := ih rest c later
            exact ⟨s, List.mem_cons_of_mem _ hs, member⟩

/-- Starred items may all be skipped. -/
theorem itemsRead_stars_nil (sets : List CharSet) : ItemsRead (stars sets) [] := by
  induction sets with
  | nil => exact .nil
  | cons set sets ih =>
      have none : Item.Reads ⟨set, .star⟩ [] := ⟨List.forall_mem_nil _, trivial⟩
      exact .cons none ih

/-- Any one of the classes may read all. -/
theorem itemsRead_stars_of_mem (hs : set ∈ sets) (h : ∀ c ∈ w, c ∈ set) :
    ItemsRead (stars sets) w := by
  obtain ⟨before, after, rfl⟩ := List.append_of_mem hs
  have reads : Item.Reads ⟨set, .star⟩ w := ⟨h, trivial⟩
  have rest : ItemsRead (⟨set, .star⟩ :: stars after) (w ++ []) :=
    .cons reads (itemsRead_stars_nil after)
  have split : stars (before ++ set :: after) = stars before ++ ⟨set, .star⟩ :: stars after :=
    List.map_append
  rw [split, itemsRead_append]
  exact ⟨[], w ++ [], by simp, itemsRead_stars_nil before, rest⟩

/-- Characters that the classes miss, one for each and in their order, are not read. -/
theorem eq_nil_of_itemsRead_stars (missed : List.Forall₂ (fun set c => c ∉ set) sets w)
    (before : List Char) (h : ItemsRead (stars sets) (before ++ w)) : before = [] ∧ sets = [] := by
  induction missed generalizing before with
  | nil =>
      generalize hw : before ++ [] = read at h
      cases h
      exact ⟨by simpa using hw, rfl⟩
  | @cons set c sets w miss _ ih =>
      generalize hw : before ++ c :: w = read at h
      cases h with
      | @cons _ _ u v reads rest =>
          -- the first class comes to an end before the character that it misses
          rcases List.append_eq_append_iff.mp hw with ⟨more, rfl, tail⟩ | ⟨more, rfl, rfl⟩
          · cases more with
            | nil =>
                obtain rfl : c :: w = v := tail
                have last := ih [c] rest
                exact absurd last.1 (List.cons_ne_nil c [])
            | cons d more =>
                obtain ⟨rfl, -⟩ := List.cons.inj tail
                exact absurd (reads.1 c (by simp)) miss
          · rw [← List.singleton_append, ← List.append_assoc] at rest
            exact absurd (ih _ rest).1 (by simp)

/-- One of the classes holds all members of the others, or there are no classes. -/
def Dominated (sets : List CharSet) : Prop :=
  sets = [] ∨ ∃ set ∈ sets, ∀ c, Among sets c → c ∈ set

/-- When all loops are covered by the last one, any mixture of their characters is in order.
    -/
theorem Dominated.itemsRead (h : Dominated sets) (hw : ∀ c ∈ w, Among sets c) :
    ItemsRead (stars sets) w := by
  rcases h with rfl | ⟨set, hs, all⟩
  · cases w with
    | nil => exact .nil
    | cons c w =>
        obtain ⟨_, hs, -⟩ := hw c List.mem_cons_self
        cases hs
  · exact itemsRead_stars_of_mem hs fun c hc => all c (hw c hc)

/-- Starred items read all words over their classes exactly when one class holds all
    members of the others. -/
theorem itemsRead_stars_all_iff :
    (∀ w, (∀ c ∈ w, Among sets c) → ItemsRead (stars sets) w) ↔ Dominated sets := by
  refine ⟨fun all => ?_, fun h w hw => h.itemsRead hw⟩
  by_contra tangled
  have none : ∀ set ∈ sets, ∃ c, Among sets c ∧ c ∉ set := by
    intro set hs
    by_contra every
    refine tangled (.inr ⟨set, hs, fun c hc => ?_⟩)
    by_contra out
    exact every ⟨c, hc, out⟩
  have word (part : List CharSet) (h : ∀ set ∈ part, ∃ c, Among sets c ∧ c ∉ set) :
      ∃ w, (∀ c ∈ w, Among sets c) ∧ List.Forall₂ (fun set c => c ∉ set) part w := by
    induction part with
    | nil => exact ⟨[], List.forall_mem_nil _, .nil⟩
    | cons set part ih =>
        obtain ⟨⟨c, among, miss⟩, others⟩ := List.forall_mem_cons.mp h
        obtain ⟨w, all, missed⟩ := ih others
        exact ⟨c :: w, List.forall_mem_cons.mpr ⟨among, all⟩, .cons miss missed⟩
  obtain ⟨w, among, missed⟩ := word sets none
  have nothing := eq_nil_of_itemsRead_stars missed [] (all w among)
  exact tangled (.inl nothing.2)

/-! ## Classes that take turns -/

/-- Of the classes that repeat with no single item between them, one always holds all
    members of the others; the first ones repeat behind `loops`. -/
def Untangled (loops : List CharSet) : List Item → Prop
  | [] => Dominated loops
  | ⟨set, .star⟩ :: is => Untangled (loops ++ [set]) is
  | ⟨_, .once⟩ :: is => Dominated loops ∧ Untangled [] is
  | ⟨set, .plus⟩ :: is => Dominated loops ∧ Untangled [set] is

/-- A star behind stars is one of them. -/
theorem itemsRead_stars_cons (loops : List CharSet) (set : CharSet) (is : List Item) :
    ItemsRead (stars loops ++ ⟨set, .star⟩ :: is) w ↔
      ItemsRead (stars (loops ++ [set]) ++ is) w := by
  rw [stars_append, List.append_assoc, List.singleton_append]

/-- What items read behind repeated classes is a mixed word of theirs. -/
theorem mixed_of_itemsRead (h : ItemsRead (stars loops ++ is) w) : Mixed loops is w := by
  induction is generalizing loops w with
  | nil =>
      rw [List.append_nil] at h
      exact among_of_itemsRead_stars h
  | cons i is ih =>
      obtain ⟨set, quantity⟩ := i
      cases quantity with
      | star => exact ih ((itemsRead_stars_cons loops set is).mp h)
      | once =>
          obtain ⟨u, _, rfl, first, behind⟩ := itemsRead_append.mp h
          obtain ⟨c, v, rfl, hc, rest⟩ := itemsRead_once.mp behind
          exact ⟨u, c, v, rfl, among_of_itemsRead_stars first, hc, ih rest⟩
      | plus =>
          obtain ⟨u, _, rfl, first, behind⟩ := itemsRead_append.mp h
          obtain ⟨c, v, rfl, hc, rest⟩ := itemsRead_plus.mp behind
          exact ⟨u, c, v, rfl, among_of_itemsRead_stars first, hc, ih rest⟩

/-- A mixed word is one of the items where no classes get tangled. -/
theorem Untangled.itemsRead (h : Untangled loops is) (mixed : Mixed loops is w) :
    ItemsRead (stars loops ++ is) w := by
  induction is generalizing loops w with
  | nil =>
      rw [List.append_nil]
      exact Dominated.itemsRead h mixed
  | cons i is ih =>
      obtain ⟨set, quantity⟩ := i
      cases quantity with
      | star => exact (itemsRead_stars_cons loops set is).mpr (ih h mixed)
      | once =>
          obtain ⟨u, c, v, rfl, first, hc, rest⟩ := mixed
          have behind := itemsRead_once.mpr ⟨c, v, rfl, hc, ih h.2 rest⟩
          exact itemsRead_append.mpr ⟨u, c :: v, rfl, h.1.itemsRead first, behind⟩
      | plus =>
          obtain ⟨u, c, v, rfl, first, hc, rest⟩ := mixed
          have behind := itemsRead_plus.mpr ⟨c, v, rfl, hc, ih h.2 rest⟩
          exact itemsRead_append.mpr ⟨u, c :: v, rfl, h.1.itemsRead first, behind⟩

/-- Stars in a row are read at one state, so only the characters matter and not their order.
    -/
theorem mixed_stars (loops sets : List CharSet) :
    Mixed loops (stars sets) w ↔ ∀ c ∈ w, Among (loops ++ sets) c := by
  induction sets generalizing loops with
  | nil =>
      rw [List.append_nil]
      rfl
  | cons set sets ih =>
      show Mixed (loops ++ [set]) (stars sets) w ↔ _
      rw [ih, List.append_assoc, List.singleton_append]

/-! ## Compiled patterns -/

/-- A pattern other than `()` is compiled if it is written with items, and accepts their
    words, mixed. -/
theorem exists_compilePattern {pattern : String} (named : pattern ≠ "()")
    (text : PatternText is pattern.toList) :
    ∃ a, compilePattern pattern = .ok a ∧ ∀ w, a.AcceptsText w ↔ Mixed [] is w := by
  obtain ⟨a, compiled, accepts⟩ := exists_compileItems is
  refine ⟨a, ?_, accepts⟩
  rw [compilePattern, if_neg named]
  simp only [text.read, compiled]

/-- A pattern other than `()` is refused exactly when it is not written with items.  If it
    is, then all words of the items are accepted, others only where repeated classes take
    turns, and none if no classes get tangled; where all items are starred, this is also
    needed. -/
theorem compilePattern_accepts_iff {pattern : String} (named : pattern ≠ "()") :
    ((¬∃ is, PatternText is pattern.toList) ↔
      compilePattern pattern = .error (.unterminated pattern)) ∧
    ∀ is, PatternText is pattern.toList → ∃ a, compilePattern pattern = .ok a ∧
      (∀ w, ItemsRead is w → a.AcceptsText w) ∧
      (∀ w, a.AcceptsText w ↔ Mixed [] is w) ∧
      (Untangled [] is → ∀ w, a.AcceptsText w ↔ ItemsRead is w) ∧
      ∀ sets, is = stars sets →
        ((∀ w, a.AcceptsText w ↔ ItemsRead is w) ↔ Dominated sets) := by
  constructor
  · constructor
    · intro none
      cases hr : readItems? pattern.toList with
      | none =>
          rw [compilePattern, if_neg named]
          simp only [hr]
      | some is => exact absurd ⟨is, readItems?_eq_some_iff.mp hr⟩ none
    · rintro refused ⟨is, text⟩
      obtain ⟨a, compiled, -⟩ := exists_compilePattern named text
      rw [compiled] at refused
      cases refused
  · intro is text
    obtain ⟨a, compiled, accepts⟩ := exists_compilePattern named text
    have all (w : List Char) (h : ItemsRead is w) : a.AcceptsText w :=
      (accepts w).mpr (mixed_of_itemsRead h)
    refine ⟨a, compiled, all, accepts, ?_, ?_⟩
    · intro untangled w
      exact ⟨fun h => untangled.itemsRead ((accepts w).mp h), all w⟩
    · rintro sets rfl
      rw [← itemsRead_stars_all_iff]
      constructor
      · intro same w hw
        exact (same w).mp ((accepts w).mpr ((mixed_stars [] sets).mpr hw))
      · intro every w
        exact ⟨fun h => every w ((mixed_stars [] sets).mp ((accepts w).mp h)), all w⟩

/-- The class `a` may take turns with `[ab]`, which holds it, and not with `c`. -/
theorem compilePattern_accepts_iff_nested :
    ∃ a, compilePattern "[ab]+a*c" = .ok a ∧ ∀ w, a.AcceptsText w ↔
      ItemsRead [⟨.ofList ['a', 'b'], .plus⟩, ⟨.singleton 'a', .star⟩, ⟨.singleton 'c', .once⟩] w := by
  have last : PatternText [⟨.singleton 'c', .once⟩] ['c'] :=
    .cons (.char (by decide)) (.once (by simp)) .nil
  have middle : PatternText [⟨.singleton 'a', .star⟩, ⟨.singleton 'c', .once⟩] ['a', '*', 'c'] :=
    .cons (.char (by decide)) (.star ['c']) last
  have members : ClassText (.ofList ['a', 'b']) ['[', 'a', 'b', ']'] :=
    .members (by decide)
  have text : PatternText [⟨.ofList ['a', 'b'], .plus⟩, ⟨.singleton 'a', .star⟩,
      ⟨.singleton 'c', .once⟩] "[ab]+a*c".toList := .cons members (.plus _) middle
  have none : Dominated [] := .inl rfl
  have nested : Dominated [.ofList ['a', 'b'], .singleton 'a'] := by
    refine .inr ⟨.ofList ['a', 'b'], List.mem_cons_self, ?_⟩
    rintro c ⟨s, hs, hc⟩
    rcases List.mem_pair.mp hs with rfl | rfl
    · exact hc
    · obtain rfl := List.mem_singleton.mp hc
      exact Ascending.mem_ofList.mpr List.mem_cons_self
  have untangled : Untangled [] [⟨.ofList ['a', 'b'], .plus⟩, ⟨.singleton 'a', .star⟩,
      ⟨.singleton 'c', .once⟩] := ⟨none, nested, none⟩
  obtain ⟨-, written⟩ := compilePattern_accepts_iff (by decide : "[ab]+a*c" ≠ "()")
  obtain ⟨a, compiled, -, -, same, -⟩ := written _ text
  exact ⟨a, compiled, same untangled⟩

/-- The pattern `a*b*` is compiled to an automaton that accepts `ba`, which is no word of
    its items. -/
theorem compilePattern_tangled :
    ∃ a, compilePattern "a*b*" = .ok a ∧
      PatternText [⟨.singleton 'a', .star⟩, ⟨.singleton 'b', .star⟩] "a*b*".toList ∧
      a.AcceptsText ['b', 'a'] ∧
      ¬ItemsRead [⟨.singleton 'a', .star⟩, ⟨.singleton 'b', .star⟩] ['b', 'a'] := by
  have last : PatternText [⟨.singleton 'b', .star⟩] ['b', '*'] :=
    .cons (.char (by decide)) (.star []) .nil
  have text : PatternText [⟨.singleton 'a', .star⟩, ⟨.singleton 'b', .star⟩] "a*b*".toList :=
    .cons (.char (by decide)) (.star _) last
  obtain ⟨a, compiled, accepts⟩ := exists_compilePattern (by decide : "a*b*" ≠ "()") text
  refine ⟨a, compiled, text, (accepts _).mpr ?_, fun read => ?_⟩
  · intro c hc
    rcases List.mem_pair.mp hc with rfl | rfl
    · exact ⟨.singleton 'b', by simp, List.mem_singleton_self _⟩
    · exact ⟨.singleton 'a', by simp, List.mem_singleton_self _⟩
  · have missed : List.Forall₂ (fun (set : CharSet) c => c ∉ set) [.singleton 'a', .singleton 'b']
        ['b', 'a'] := .cons (by decide) (.cons (by decide) .nil)
    exact absurd (eq_nil_of_itemsRead_stars missed [] read).2 (List.cons_ne_nil _ _)

end FragmentGrammar
