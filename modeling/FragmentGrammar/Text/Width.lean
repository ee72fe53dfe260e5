/-! # Width of text

    Positions in grammar text count the bytes of its UTF-8 form.  Over a list of
    characters that count is a sum, so it splits wherever the text is cut. -/

namespace FragmentGrammar

/-- The number of bytes that `cs` takes in UTF-8. -/
def width (cs : List Char) : Nat :=
  cs.foldr (fun c n => c.utf8Size + n) 0

@[simp] theorem width_nil : width [] = 0 := rfl

@[simp] theorem width_cons (c : Char) (cs : List Char) :
    width (c :: cs) = c.utf8Size + width cs := rfl

@[simp] theorem width_append (cs ds : List Char) : width (cs ++ ds) = width cs + width ds := by
  induction cs with
  | nil => rw [List.nil_append, width_nil, Nat.zero_add]
  | cons c cs ih => rw [List.cons_append, width_cons, ih, width_cons, Nat.add_assoc]

/-- No text but the empty one has width zero. -/
theorem width_eq_zero_iff {cs : List Char} : width cs = 0 ↔ cs = [] := by
  cases cs with
  | nil => simp
  | cons c cs =>
    have := c.utf8Size_pos
    simp only [width_cons, reduceCtorEq, iff_false]
    omega

/-- The width of the characters of a string is the length of its UTF-8 form. -/
theorem utf8ByteSize_ofList_eq_width (cs : List Char) :
    (String.ofList cs).utf8ByteSize = width cs := by
  induction cs with
  | nil => rfl
  | cons c cs ih =>
    rw [← List.singleton_append, String.ofList_append, String.utf8ByteSize_append, ih, width_append]
    simp

end FragmentGrammar
