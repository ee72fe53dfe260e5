/-! # Decimal numbers in text

    A decimal number is made of digits alone.  So it ends where the first other character
    stands, and where numbers are written between other characters they can be read back
    from the front (`repr_append_inj`) and from the back (`append_repr_inj`), whatever
    text there is on the other side. -/

namespace FragmentGrammar

section Run

variable {α : Type} {p : α → Bool} {xs ys as bs : List α} {a b : α}

/-- A list begins with one run of `p` only that something else follows. -/
theorem append_cons_inj_of_run (hx : ∀ x ∈ xs, p x = true) (hy : ∀ y ∈ ys, p y = true)
    (ha : p a = false) (hb : p b = false) (h : xs ++ a :: as = ys ++ b :: bs) :
    xs = ys ∧ a = b ∧ as = bs := by
  have first : (xs ++ a :: as).takeWhile p = xs := by
    rw [List.takeWhile_append_of_pos hx, List.takeWhile_cons_of_neg (ne_true_of_eq_false ha),
      List.append_nil]
  have second : (ys ++ b :: bs).takeWhile p = ys := by
    rw [List.takeWhile_append_of_pos hy, List.takeWhile_cons_of_neg (ne_true_of_eq_false hb),
      List.append_nil]
  have same : xs = ys := by rw [← first, ← second, h]
  rw [same] at h
  obtain ⟨rfl, rfl⟩ := List.cons.inj (List.append_cancel_left h)
  exact ⟨same, rfl, rfl⟩

end Run

variable {m n : Nat} {c d : Char} {cs ds : List Char}

theorem isDigit_of_mem_repr (h : c ∈ n.repr.toList) : c.isDigit = true := by
  rw [Nat.toList_repr] at h
  exact Nat.isDigit_of_mem_toDigits (by decide) (by decide) h

/-- Numbers are told apart by their digits. -/
theorem toList_repr_inj (h : m.repr.toList = n.repr.toList) : m = n := by
  rw [Nat.toList_repr, Nat.toList_repr] at h
  have value := congrArg (Nat.ofDigitChars 10 · 0) h
  rwa [Nat.ofDigitChars_ten_toDigits, Nat.ofDigitChars_ten_toDigits] at value

/-- A number is read back from the front of text. -/
theorem repr_append_inj (hc : c.isDigit = false) (hd : d.isDigit = false)
    (h : m.repr.toList ++ c :: cs = n.repr.toList ++ d :: ds) : m = n ∧ c = d ∧ cs = ds := by
  obtain ⟨digits, rest⟩ := append_cons_inj_of_run (fun _ => isDigit_of_mem_repr)
    (fun _ => isDigit_of_mem_repr) hc hd h
  exact ⟨toList_repr_inj digits, rest⟩

/-- A number is read back from the end of text. -/
theorem append_repr_inj (hc : c.isDigit = false) (hd : d.isDigit = false)
    (h : cs ++ c :: m.repr.toList = ds ++ d :: n.repr.toList) : m = n ∧ c = d ∧ cs = ds := by
  have back : m.repr.toList.reverse ++ c :: cs.reverse =
      n.repr.toList.reverse ++ d :: ds.reverse := by
    have reversed := congrArg List.reverse h
    simpa using reversed
  obtain ⟨digits, same, rest⟩ := append_cons_inj_of_run
    (fun _ hx => isDigit_of_mem_repr (List.mem_reverse.mp hx))
    (fun _ hx => isDigit_of_mem_repr (List.mem_reverse.mp hx)) hc hd back
  exact ⟨toList_repr_inj (List.reverse_inj.mp digits), same, List.reverse_inj.mp rest⟩

end FragmentGrammar
