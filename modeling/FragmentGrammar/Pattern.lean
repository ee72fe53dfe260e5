import FragmentGrammar.Label.CharSet

/-! # Patterns of character classes

    A small notation for fragments: a pattern is a sequence of items, and an item is a
    single character or the members of a class between brackets, read once, any number
    of times (`*`) or at least once (`+`).  A class ends at the first closing bracket;
    everything else stands for itself where an item starts.  What an item reads is said
    twice: here as a language, and by the automaton that a pattern is compiled to. -/

namespace FragmentGrammar

/-- How often an item is read. -/
inductive Quantity where
  | once
  /-- Any number of times. -/
  | star
  /-- At least once. -/
  | plus
  deriving DecidableEq

/-- One item of a pattern: any of the members, as often as the quantity says. -/
structure Item where
  members : CharSet
  quantity : Quantity
  deriving DecidableEq

/-- The quantity at the front of text, once if none is written, and what is left. -/
def Quantity.read : List Char → Quantity × List Char
  | '*' :: cs => (.star, cs)
  | '+' :: cs => (.plus, cs)
  | cs => (.once, cs)

theorem Quantity.length_read_le (cs : List Char) :
    (Quantity.read cs).2.length ≤ cs.length := by
  fun_cases Quantity.read cs <;> simp

/-- The members at the front of text that is not empty, and what is left.  There are none
    when a class is not closed. -/
def readMembers? : Char → List Char → Option (CharSet × List Char)
  | '[', cs =>
    -- up to the first closing bracket every character is a member, an opening one too
    match cs.dropWhile (· ≠ ']') with
    | [] => none
    | _ :: rest => some (.ofList (cs.takeWhile (· ≠ ']')), rest)
  | c, cs => some (.singleton c, cs)

theorem length_le_of_readMembers? {c : Char} {cs rest : List Char} {set : CharSet}
    (h : readMembers? c cs = some (set, rest)) : rest.length ≤ cs.length := by
  unfold readMembers? at h
  split at h
  · split at h
    · cases h
    next heq =>
      obtain ⟨rfl, rfl⟩ := by simpa using h
      have := (List.dropWhile_sublist (p := (· ≠ ']')) (l := cs)).length_le
      rw [heq] at this
      simp only [List.length_cons] at this
      omega
  · obtain ⟨rfl, rfl⟩ := by simpa using h
    exact Nat.le_refl _

/-- The items that text is made of, unless a class is not closed. -/
def readItems? : List Char → Option (List Item)
  | [] => some []
  | c :: cs =>
    match _ : readMembers? c cs with
    | none => none
    | some (set, rest) =>
      (readItems? (Quantity.read rest).2).map (⟨set, (Quantity.read rest).1⟩ :: ·)
termination_by cs => cs.length
decreasing_by
  have := length_le_of_readMembers? ‹_›
  have := Quantity.length_read_le rest
  simp only [List.length_cons]
  omega

/-! ## What items read -/

/-- The words that an item reads. -/
def Item.Reads (i : Item) (w : List Char) : Prop :=
  (∀ c ∈ w, c ∈ i.members) ∧
    match i.quantity with
    | .once => w.length = 1
    | .star => True
    | .plus => w ≠ []

/-- The words that items read one after the other. -/
inductive ItemsRead : List Item → List Char → Prop
  /-- No items read the empty word. -/
  | nil : ItemsRead [] []
  /-- The first item reads a word and the others go on behind it. -/
  | cons {i : Item} {is : List Item} {u v : List Char} :
      i.Reads u → ItemsRead is v → ItemsRead (i :: is) (u ++ v)

end FragmentGrammar
