/-! # Ascending lists

    A finite set of ordered values is kept as the list of its members in strictly
    ascending order.  There is one such list for each set, so two sets are equal
    exactly when their lists are, and enumerating a set is reading its list. -/

namespace FragmentGrammar

/-- A list in strictly ascending order. -/
structure Ascending (α : Type) [LT α] where
  toList : List α
  sorted : toList.Pairwise (· < ·)

namespace Ascending

variable {α : Type} [LT α]

instance [DecidableEq α] : DecidableEq (Ascending α) := fun s t =>
  decidable_of_iff (s.toList = t.toList)
    ⟨fun h => by cases s; cases t; cases h; rfl, fun h => by rw [h]⟩

instance : Membership α (Ascending α) where
  mem s a := a ∈ s.toList

theorem mem_def {a : α} {s : Ascending α} : a ∈ s ↔ a ∈ s.toList := Iff.rfl

instance [DecidableEq α] (a : α) (s : Ascending α) : Decidable (a ∈ s) :=
  inferInstanceAs (Decidable (a ∈ s.toList))

/-- No members. -/
def empty : Ascending α :=
  ⟨[], .nil⟩

/-- One member. -/
def singleton (a : α) : Ascending α :=
  ⟨[a], by simp⟩

section Insert

variable [DecidableLT α]

/-- Puts `a` in its place in a list, unless a member stands there that it is not
    below nor above. -/
def place (a : α) : List α → List α
  | [] => [a]
  | b :: bs => if a < b then a :: b :: bs else if b < a then b :: place a bs else b :: bs

theorem mem_of_mem_place {a x : α} {bs : List α} (h : x ∈ place a bs) : x = a ∨ x ∈ bs := by
  fun_induction place a bs <;> grind

variable [LE α] [Std.IsLinearOrder α] [Std.LawfulOrderLT α]

theorem mem_place {a x : α} {bs : List α} : x ∈ place a bs ↔ x = a ∨ x ∈ bs := by
  refine ⟨mem_of_mem_place, ?_⟩
  fun_induction place a bs with
  | case1 => simp
  | case2 => simp
  | case3 b bs _ _ ih =>
    intro h
    rcases h with h | h
    · exact List.mem_cons_of_mem _ (ih (Or.inl h))
    · rcases List.mem_cons.mp h with rfl | h
      · exact List.mem_cons_self
      · exact List.mem_cons_of_mem _ (ih (Or.inr h))
  | case4 b bs above below =>
    have : a = b := (Std.lt_trichotomy a b).elim (absurd · above) (·.elim id (absurd · below))
    simp [this]

theorem pairwise_place {a : α} {bs : List α} (h : bs.Pairwise (· < ·)) :
    (place a bs).Pairwise (· < ·) := by
  fun_induction place a bs with
  | case1 => simp
  | case2 b bs below =>
    refine List.pairwise_cons.mpr ⟨fun x hx => ?_, h⟩
    rcases List.mem_cons.mp hx with rfl | hx
    · exact below
    · exact Std.lt_trans below (List.rel_of_pairwise_cons h hx)
  | case3 b bs _ above ih =>
    refine List.pairwise_cons.mpr ⟨fun x hx => ?_, ih h.of_cons⟩
    rcases mem_of_mem_place hx with rfl | hx
    · exact above
    · exact List.rel_of_pairwise_cons h hx
  | case4 => exact h

/-- Adds a member, if it is not there yet. -/
def insert (a : α) (s : Ascending α) : Ascending α :=
  ⟨place a s.toList, pairwise_place s.sorted⟩

@[simp] theorem mem_insert {a x : α} {s : Ascending α} : x ∈ s.insert a ↔ x = a ∨ x ∈ s :=
  mem_place

/-- The members of a list. -/
def ofList (as : List α) : Ascending α :=
  as.foldl (fun s a => s.insert a) empty

theorem mem_foldl_insert {x : α} {as : List α} {s : Ascending α} :
    x ∈ as.foldl (fun s a => s.insert a) s ↔ x ∈ as ∨ x ∈ s := by
  induction as generalizing s with
  | nil => simp
  | cons a as ih => simp [ih, or_assoc, or_left_comm]

@[simp] theorem mem_ofList {x : α} {as : List α} : x ∈ ofList as ↔ x ∈ as := by
  rw [ofList, mem_foldl_insert]
  simp [empty, mem_def]

end Insert

end Ascending

end FragmentGrammar
