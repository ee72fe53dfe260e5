import FragmentGrammar.Grammar
import FragmentGrammar.Proofs.FirstOccurrence
import Mathlib.Data.List.Forall2

/-! # Equality, item by item

    Lists are equal up to the equality of their items when they are so item by item.
    Hence the productions of two grammars may be compared piece by piece. -/

namespace FragmentGrammar

variable {α β L : Type}

section List

variable [BEq α] {v w v' w' : List α}

/-- Lists are equal just if they are so item by item. -/
theorem beq_iff_forall₂ :
    (v == w) = true ↔ List.Forall₂ (fun x y => (x == y) = true) v w := by
  induction v generalizing w with
  | nil => cases w <;> simp
  | cons x v ih => cases w <;> simp [ih]

/-- Equal pieces may be joined. -/
theorem append_beq_append (h : (v == w) = true) (h' : (v' == w') = true) :
    (v ++ v' == w ++ w') = true :=
  beq_iff_forall₂.mpr (List.rel_append (beq_iff_forall₂.mp h) (beq_iff_forall₂.mp h'))

/-- Functions that agree on the items of a list make equal lists of it. -/
theorem map_beq_map {f g : β → α} {l : List β} (h : ∀ x ∈ l, (f x == g x) = true) :
    (l.map f == l.map g) = true := by
  induction l with
  | nil => rfl
  | cons x l ih =>
      obtain ⟨here, later⟩ := List.forall_mem_cons.mp h
      rw [List.map_cons, List.map_cons, List.cons_beq_cons, here, ih later]
      rfl

theorem flatMap_beq_flatMap {f g : β → List α} {l : List β}
    (h : ∀ x ∈ l, (f x == g x) = true) : (l.flatMap f == l.flatMap g) = true := by
  induction l with
  | nil => rfl
  | cons x l ih =>
      obtain ⟨here, later⟩ := List.forall_mem_cons.mp h
      exact append_beq_append here (ih later)

/-- Items that are picked by equal tests are equal. -/
theorem filter_beq_filter {p q : α → Bool} (same : ∀ x y, (x == y) = true → p x = q y)
    (h : (v == w) = true) : (v.filter p == w.filter q) = true := by
  refine beq_iff_forall₂.mpr (List.rel_filter ?_ (beq_iff_forall₂.mp h))
  intro x y hxy
  show p x = true ↔ q y = true
  rw [same x y hxy]

/-- Equal lists have equal first occurrences. -/
theorem eraseDups_beq_eraseDups [EquivBEq α] (h : (v == w) = true) :
    (v.eraseDups == w.eraseDups) = true := by
  induction v using eraseDups_induction generalizing w with
  | nil =>
      cases w with
      | nil => rfl
      | cons y w => cases h
  | cons x v ih =>
      cases w with
      | nil => cases h
      | cons y w =>
          obtain ⟨here, later⟩ : (x == y) = true ∧ (v == w) = true := by
            simpa using h
          rw [List.eraseDups_cons, List.eraseDups_cons, List.cons_beq_cons, here, Bool.true_and]
          refine ih (filter_beq_filter ?_ later)
          intro a b hab
          show (!a == x) = (!b == y)
          rw [beq_shared x a b hab, BEq.congr_right here]

end List

instance [BEq L] [EquivBEq L] : ReflBEq (Production L) where
  rfl := Production.beq_iff.mpr ⟨rfl, BEq.rfl⟩

end FragmentGrammar
