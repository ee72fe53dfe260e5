import Mathlib.Data.List.Induction
import Mathlib.Data.List.Nodup

/-! # First occurrences

    A list without its repetitions keeps every member where it first occurs
    (`firstOccurrences_eraseDups`).  Numbering the members by their places there is
    numbering them in the order in which they first occur, so the numbers themselves
    first occur in ascending order (`eraseDups_map_idxOf`). -/

namespace FragmentGrammar

variable {α β : Type} [BEq α]

/-- Behind its first member a list without repetitions goes on as what is left of the list
    once all copies of that member are dropped. -/
@[elab_as_elim]
theorem eraseDups_induction {motive : List α → Prop} (nil : motive [])
    (cons : ∀ a l, motive (l.filter fun b => !b == a) → motive (a :: l)) (l : List α) :
    motive l := by
  induction hn : l.length using Nat.strongRecOn generalizing l with
  | ind n ih =>
      cases l with
      | nil => exact nil
      | cons a l =>
          have shorter : (l.filter fun b => !b == a).length < n := by
            rw [← hn]
            exact Nat.lt_succ_of_le (List.length_filter_le _ _)
          exact cons a l (ih _ shorter _ rfl)

/-! ## Members that are equal without being the same -/

/-- The first member with a property that copies share is a first occurrence. -/
theorem find?_eraseDups {p : α → Bool} (shared : ∀ a b, (a == b) = true → p a = p b)
    (l : List α) : l.eraseDups.find? p = l.find? p := by
  induction l using eraseDups_induction with
  | nil => rfl
  | cons a l ih =>
      rw [List.eraseDups_cons, List.find?_cons, List.find?_cons, ih]
      cases found : p a with
      | true => rfl
      | false =>
          have dropped : (fun b => decide ((!b == a) = true ∧ p b = true)) = p := by
            funext b
            by_cases copy : (b == a) = true
            · simp [copy, shared b a copy, found]
            · simp [copy]
          show (l.filter fun b => !b == a).find? p = l.find? p
          rw [List.find?_filter, dropped]

/-- A property that copies share is had by a first occurrence if by any member. -/
theorem any_eraseDups {p : α → Bool} (shared : ∀ a b, (a == b) = true → p a = p b)
    (l : List α) : l.eraseDups.any p = l.any p := by
  rw [← List.isSome_find?, find?_eraseDups shared, List.isSome_find?]

/-- A member that is put behind a list first occurs there, unless a copy stands before. -/
theorem eraseDups_concat [EquivBEq α] (l : List α) (a : α) :
    (l ++ [a]).eraseDups = l.eraseDups ++ if l.any (· == a) then [] else [a] := by
  induction l using eraseDups_induction with
  | nil => rfl
  | cons b l ih =>
      rw [List.cons_append, List.eraseDups_cons, List.eraseDups_cons, List.filter_append,
        List.any_cons, List.cons_append]
      by_cases copy : (b == a) = true
      · have dropped : [a].filter (fun c => !c == b) = [] := by
          simp [BEq.symm copy]
        rw [dropped, copy, List.append_nil, Bool.true_or, if_pos rfl, List.append_nil]
      · have kept : [a].filter (fun c => !c == b) = [a] := by
          have other : (a == b) ≠ true := fun h => copy (BEq.symm h)
          simp [other]
        -- a copy of the new member is none of the copies that are dropped
        have others : (l.filter fun c => !c == b).any (· == a) = l.any (· == a) := by
          rw [List.any_filter]
          congr 1
          funext c
          by_cases here : (c == a) = true
          · have apart : (c == b) ≠ true := fun h => copy (BEq.trans (BEq.symm h) here)
            simp [here, apart]
          · simp [here]
        rw [Bool.not_eq_true] at copy
        rw [kept, ih, others, copy, Bool.false_or]

/-- A function under which just the copies of a member have equal values keeps first
    occurrences. -/
theorem eraseDups_map_of_beq [BEq β] {f : α → β} {l : List α}
    (same : ∀ a ∈ l, ∀ b ∈ l, (f b == f a) = (b == a)) :
    (l.map f).eraseDups = l.eraseDups.map f := by
  induction l using eraseDups_induction with
  | nil => rfl
  | cons a l ih =>
      have within : ∀ b ∈ l.filter (fun b => !b == a), b ∈ a :: l := by
        intro b hb
        exact List.mem_cons_of_mem a (List.mem_of_mem_filter hb)
      have others : l.filter ((fun y => !y == f a) ∘ f) = l.filter fun b => !b == a := by
        refine List.filter_congr ?_
        intro b hb
        show (!f b == f a) = (!b == a)
        rw [same a List.mem_cons_self b (List.mem_cons_of_mem a hb)]
      have tail := ih fun b hb c hc => same b (within b hb) c (within c hc)
      rw [List.map_cons, List.eraseDups_cons, List.eraseDups_cons, List.map_cons,
        List.filter_map, others, tail]

/-- Copies are equal to the same members. -/
theorem beq_shared [EquivBEq α] (a : α) :
    ∀ b c : α, (b == c) = true → (b == a) = (c == a) := by
  intro b c same
  rw [Bool.eq_iff_iff]
  exact ⟨BEq.trans (BEq.symm same), BEq.trans same⟩

/-- First occurrences are not equal to one another. -/
theorem pairwise_eraseDups [EquivBEq α] (l : List α) :
    l.eraseDups.Pairwise fun a b => (b == a) = false := by
  induction l using eraseDups_induction with
  | nil => exact .nil
  | cons a l ih =>
      rw [List.eraseDups_cons, List.pairwise_cons]
      refine ⟨?_, ih⟩
      have none : (l.filter fun b => !b == a).eraseDups.any (· == a) = false := by
        rw [any_eraseDups (beq_shared a)]
        simp
      intro b hb
      rw [← Bool.not_eq_true]
      exact List.any_eq_false.mp none b hb

/-- Where all members are equal and no two are, there is only one. -/
theorem eq_singleton_of_pairwise [EquivBEq α] {l : List α} {a : α}
    (distinct : l.Pairwise fun b c => (c == b) = false) (mem : a ∈ l)
    (copies : ∀ b ∈ l, (b == a) = true) : l = [a] := by
  cases l with
  | nil => cases mem
  | cons b l =>
      cases l with
      | nil => rw [List.mem_singleton.mp mem]
      | cons c l =>
          have apart := List.rel_of_pairwise_cons distinct List.mem_cons_self
          have same : (c == b) = true :=
            BEq.trans (copies c (by simp)) (BEq.symm (copies b List.mem_cons_self))
          rw [same] at apart
          cases apart

/-! ## First occurrences, said without erasing -/

/-- The members of the list `all` that no equal member stands in front of, in their order. -/
structure FirstOccurrences (all firsts : List α) : Prop where
  /-- Every member is equal to one of them, and to no other. -/
  once : ∀ a ∈ all, firsts.countP (· == a) = 1
  /-- Each of them is where the list first has a member equal to it. -/
  first : ∀ a ∈ firsts, all.find? (· == a) = some a
  /-- They stand in the order of the places where the list has them. -/
  ordered : (firsts.map fun a => all.findIdx (· == a)).Pairwise (· < ·)

section FirstOccurrences

variable [EquivBEq α] {all : List α} {a : α}

/-- Of equal items one is kept. -/
theorem countP_eraseDups (h : a ∈ all) : all.eraseDups.countP (· == a) = 1 := by
  have copies : all.eraseDups.any (· == a) = true := by
    rw [any_eraseDups (beq_shared a)]
    exact List.any_eq_true.mpr ⟨a, h, BEq.rfl⟩
  obtain ⟨b, hb, same⟩ := List.any_eq_true.mp copies
  have one : all.eraseDups.filter (· == a) = [b] := by
    refine eq_singleton_of_pairwise ((pairwise_eraseDups all).filter _)
      (List.mem_filter.mpr ⟨hb, same⟩) ?_
    intro c hc
    exact BEq.trans (List.mem_filter.mp hc).2 (BEq.symm same)
  rw [List.countP_eq_length_filter, one]
  rfl

/-- An item that is kept is the first of those equal to it. -/
theorem find?_of_mem_eraseDups (h : a ∈ all.eraseDups) : all.find? (· == a) = some a := by
  rw [← find?_eraseDups (beq_shared a), List.find?_eq_some_iff_append]
  obtain ⟨front, back, split⟩ := List.append_of_mem h
  refine ⟨BEq.rfl, front, back, split, ?_⟩
  intro b hb
  have distinct := pairwise_eraseDups all
  rw [split, List.pairwise_append] at distinct
  rw [BEq.comm, distinct.2.2 b hb a List.mem_cons_self]
  rfl

/-- Whoever comes first is put in front of whoever comes later, which takes an induction
    from the end of the list. -/
theorem pairwise_findIdx_eraseDups (all : List α) :
    (all.eraseDups.map fun a => all.findIdx (· == a)).Pairwise (· < ·) := by
  induction all using List.reverseRecOn with
  | nil => exact .nil
  | append_singleton all b ih =>
      have found : ∀ a ∈ all.eraseDups, all.findIdx (· == a) < all.length := by
        intro a ha
        have here := List.mem_of_find?_eq_some (find?_of_mem_eraseDups ha)
        exact List.findIdx_lt_length_of_exists ⟨a, here, BEq.rfl⟩
      have kept : (all.eraseDups.map fun a => (all ++ [b]).findIdx (· == a)) =
          all.eraseDups.map fun a => all.findIdx (· == a) := by
        refine List.map_congr_left ?_
        intro a ha
        rw [List.findIdx_append, if_pos (found a ha)]
      rw [eraseDups_concat, List.map_append, kept]
      cases met : all.any (· == b) with
      | true =>
          rw [if_pos rfl, List.map_nil, List.append_nil]
          exact ih
      | false =>
          have absent : all.findIdx (· == b) = all.length := by
            rw [List.findIdx_eq_length]
            intro c hc
            exact eq_false_of_ne_true (List.any_eq_false.mp met c hc)
          rw [if_neg Bool.false_ne_true, List.pairwise_append]
          refine ⟨ih, List.pairwise_singleton _ _, ?_⟩
          intro i hi j hj
          obtain ⟨a, ha, rfl⟩ := List.mem_map.mp hi
          obtain rfl : (all ++ [b]).findIdx (· == b) = j := (List.mem_singleton.mp hj).symm
          rw [List.findIdx_append, absent, if_neg (Nat.lt_irrefl _)]
          exact Nat.lt_of_lt_of_le (found a ha) (Nat.le_add_left _ _)

/-- Erasing repetitions leaves the first occurrences. -/
theorem firstOccurrences_eraseDups (all : List α) : FirstOccurrences all all.eraseDups where
  once _ := countP_eraseDups
  first _ := find?_of_mem_eraseDups
  ordered := pairwise_findIdx_eraseDups all

end FirstOccurrences

/-! ## Members that are equal only if they are the same -/

variable [LawfulBEq α] [BEq β] [LawfulBEq β] {l : List α}

theorem nodup_eraseDups (l : List α) : l.eraseDups.Nodup := by
  induction l using eraseDups_induction with
  | nil => exact List.nodup_nil
  | cons a l ih =>
      rw [List.eraseDups_cons, List.nodup_cons]
      refine ⟨?_, ih⟩
      rw [List.mem_eraseDups, List.mem_filter]
      rintro ⟨-, other⟩
      simp at other

/-- A filter and the removal of repetitions may be exchanged. -/
theorem eraseDups_filter (p : α → Bool) (l : List α) :
    (l.filter p).eraseDups = l.eraseDups.filter p := by
  induction l using eraseDups_induction with
  | nil => rfl
  | cons a l ih =>
      rw [List.eraseDups_cons, List.filter_cons, List.filter_cons, ← ih]
      by_cases kept : p a = true
      · rw [if_pos kept, if_pos kept, List.eraseDups_cons, List.filter_filter,
          List.filter_filter]
        simp only [Bool.and_comm]
      · rw [if_neg kept, if_neg kept, List.filter_filter]
        congr 1
        -- what is dropped is dropped with all its copies
        refine List.filter_congr fun b _ => ?_
        by_cases same : b = a
        · simp [same, kept]
        · simp [same]

/-- A function that keeps the members of a list apart keeps first occurrences. -/
theorem eraseDups_map {f : α → β} (apart : ∀ a ∈ l, ∀ b ∈ l, f a = f b → a = b) :
    (l.map f).eraseDups = l.eraseDups.map f := by
  refine eraseDups_map_of_beq ?_
  intro a ha b hb
  rw [Bool.eq_iff_iff, beq_iff_eq, beq_iff_eq]
  exact ⟨apart b hb a ha, congrArg f⟩

/-- A member of a list without repetitions is first met where it stands. -/
theorem idxOf_of_getElem? (nodup : l.Nodup) {i : Nat} {a : α} (h : l[i]? = some a) :
    l.idxOf a = i := by
  obtain ⟨bound, rfl⟩ := List.getElem?_eq_some_iff.mp h
  exact nodup.idxOf_getElem i bound

/-- The places of the members of a list without repetitions are all places, in order. -/
theorem map_idxOf (nodup : l.Nodup) : l.map l.idxOf = List.range l.length := by
  refine List.ext_getElem (by simp) ?_
  intro i hi hi'
  rw [List.getElem_map, List.getElem_range]
  exact nodup.idxOf_getElem i _

/-- Numbers that are given in the order of first occurrence first occur in order. -/
theorem eraseDups_map_idxOf (l : List α) :
    (l.map l.eraseDups.idxOf).eraseDups = List.range l.eraseDups.length := by
  have apart : ∀ a ∈ l, ∀ b ∈ l, l.eraseDups.idxOf a = l.eraseDups.idxOf b → a = b := by
    intro a ha b _ same
    exact (List.idxOf_inj (List.mem_eraseDups.mpr ha)).mp same
  rw [eraseDups_map apart, map_idxOf (nodup_eraseDups l)]

end FragmentGrammar
