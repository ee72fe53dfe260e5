import FragmentGrammar.Pattern

/-! # How patterns are written

    The notation of patterns, said without a reader: an item is a class with its
    quantity behind it, and a class is one character or members between brackets.  A
    star or a plus behind a class is always its quantity.  Reading a text finds the items
    that it is written with, and fails when there are none (`readItems?_eq_some_iff`). -/

namespace FragmentGrammar

/-- `ClassText set front`: the text `front` names the members of `set`, as a character
    other than an opening bracket or between brackets, up to the first closing one. -/
inductive ClassText : CharSet → List Char → Prop
  | char {c : Char} : c ≠ '[' → ClassText (.singleton c) [c]
  | members {cs : List Char} : ']' ∉ cs → ClassText (.ofList cs) ('[' :: (cs ++ [']']))

/-- `QuantityText quantity mark rest`: the text `mark` names the quantity of the class
    before it when `rest` follows. -/
inductive QuantityText : Quantity → List Char → List Char → Prop
  | once {rest : List Char} : (∀ c ∈ rest.head?, c ≠ '*' ∧ c ≠ '+') → QuantityText .once [] rest
  | star (rest : List Char) : QuantityText .star ['*'] rest
  | plus (rest : List Char) : QuantityText .plus ['+'] rest

/-- The text is written with these items, one behind the other. -/
inductive PatternText : List Item → List Char → Prop
  | nil : PatternText [] []
  | cons {set : CharSet} {quantity : Quantity} {is : List Item} {front mark rest : List Char} :
      ClassText set front → QuantityText quantity mark rest → PatternText is rest →
      PatternText (⟨set, quantity⟩ :: is) (front ++ (mark ++ rest))

variable {set : CharSet} {quantity : Quantity} {is : List Item} {c : Char}
  {cs front mark rest : List Char}

/-! ## Classes -/

/-- A character stands for itself unless it opens a class. -/
theorem readMembers?_of_ne (h : c ≠ '[') (cs : List Char) :
    readMembers? c cs = some (.singleton c, cs) := by
  rw [readMembers?]
  intro same
  exact absurd same h

/-- A class has the characters up to the first closing bracket. -/
theorem readMembers?_bracket (h : ']' ∉ cs) (rest : List Char) :
    readMembers? '[' (cs ++ ']' :: rest) = some (.ofList cs, rest) := by
  have inside : ∀ d ∈ cs, decide (d ≠ ']') = true := by
    intro d hd
    rw [decide_eq_true_iff]
    rintro rfl
    exact h hd
  rw [readMembers?, List.dropWhile_append_of_pos inside, List.takeWhile_append_of_pos inside]
  simp

/-- A class is read whole, whatever follows it. -/
theorem ClassText.read (h : ClassText set front) (rest : List Char) :
    ∃ c tail, front = c :: tail ∧ readMembers? c (tail ++ rest) = some (set, rest) := by
  cases h with
  | char other => exact ⟨_, [], rfl, readMembers?_of_ne other _⟩
  | @members cs inside =>
      refine ⟨'[', cs ++ [']'], rfl, ?_⟩
      rw [List.append_assoc]
      exact readMembers?_bracket inside rest

/-- What is read as a class is one. -/
theorem classText_of_readMembers? (h : readMembers? c cs = some (set, rest)) :
    ∃ tail, cs = tail ++ rest ∧ ClassText set (c :: tail) := by
  by_cases bracket : c = '['
  · subst bracket
    rw [readMembers?] at h
    cases hd : cs.dropWhile (· ≠ ']') with
    | nil =>
        simp only [hd] at h
        cases h
    | cons d tail =>
        simp only [hd, Option.some.injEq, Prod.mk.injEq] at h
        obtain ⟨rfl, rfl⟩ := h
        have whole := List.takeWhile_append_dropWhile (p := (· ≠ ']')) (l := cs)
        have ends := List.head?_dropWhile_not (· ≠ ']') cs
        rw [hd] at whole ends
        obtain rfl : d = ']' := by simpa using ends
        refine ⟨cs.takeWhile (· ≠ ']') ++ [']'], ?_, .members ?_⟩
        · rw [List.append_assoc]
          exact whole.symm
        · intro mem
          have kept := List.all_eq_true.mp (List.all_takeWhile (p := (· ≠ ']')) (l := cs)) _ mem
          simp at kept
  · rw [readMembers?_of_ne bracket] at h
    obtain ⟨rfl, rfl⟩ := by simpa using h
    exact ⟨[], rfl, .char bracket⟩

/-! ## Quantities -/

/-- A mark is read as its quantity. -/
theorem QuantityText.read (h : QuantityText quantity mark rest) :
    Quantity.read (mark ++ rest) = (quantity, rest) := by
  cases h with
  | star => rfl
  | plus => rfl
  | once other =>
      rw [List.nil_append, Quantity.read]
      · rintro tail rfl
        exact (other '*' rfl).1 rfl
      · rintro tail rfl
        exact (other '+' rfl).2 rfl

/-- Whatever follows an item starts with one mark or none. -/
theorem quantityText_read (cs : List Char) :
    ∃ mark, cs = mark ++ (Quantity.read cs).2 ∧
      QuantityText (Quantity.read cs).1 mark (Quantity.read cs).2 := by
  fun_cases Quantity.read cs with
  | case1 rest => exact ⟨['*'], rfl, .star rest⟩
  | case2 rest => exact ⟨['+'], rfl, .plus rest⟩
  | case3 _ star plus =>
      refine ⟨[], rfl, .once ?_⟩
      intro c hc
      obtain ⟨tail, rfl⟩ := List.head?_eq_some_iff.mp hc
      constructor
      · rintro rfl
        exact star tail rfl
      · rintro rfl
        exact plus tail rfl

/-! ## Patterns -/

/-- One item is read, with its mark, and then the others. -/
theorem readItems?_cons (h : readMembers? c cs = some (set, rest)) :
    readItems? (c :: cs) =
      (readItems? (Quantity.read rest).2).map (⟨set, (Quantity.read rest).1⟩ :: ·) := by
  rw [readItems?]
  split <;> simp_all

/-- A text is read as the items that it is written with. -/
theorem PatternText.read (h : PatternText is cs) : readItems? cs = some is := by
  induction h with
  | nil => rw [readItems?]
  | @cons set quantity is front mark rest named marked _ ih =>
      obtain ⟨c, tail, rfl, members⟩ := named.read (mark ++ rest)
      rw [List.cons_append, readItems?_cons members, marked.read, ih]
      rfl

/-- Reading finds the items that a text is written with, if there are any. -/
theorem readItems?_eq_some_iff : readItems? cs = some is ↔ PatternText is cs := by
  refine ⟨fun h => ?_, PatternText.read⟩
  fun_induction readItems? cs generalizing is with
  | case1 =>
      obtain rfl := Option.some.inj h
      exact .nil
  | case2 => cases h
  | case3 c cs set rest members ih =>
      obtain ⟨later, found, rfl⟩ := Option.map_eq_some_iff.mp h
      obtain ⟨tail, rfl, named⟩ := classText_of_readMembers? members
      obtain ⟨mark, split, marked⟩ := quantityText_read rest
      have text := PatternText.cons named marked (ih found)
      rwa [← split] at text

/-- A text is written with one list of items at most. -/
theorem PatternText.unique {js : List Item} (h : PatternText is cs) (h' : PatternText js cs) :
    is = js :=
  Option.some.inj (h.read.symm.trans h'.read)

/-- No items are written as nothing. -/
theorem patternText_nil_iff : PatternText [] cs ↔ cs = [] := by
  constructor
  · intro h
    cases h
    rfl
  · rintro rfl
    exact .nil

/-- A single item that is read once is written as its class. -/
theorem patternText_once_iff : PatternText [⟨set, .once⟩] cs ↔ ClassText set cs := by
  constructor
  · intro h
    cases h with
    | cons named marked rest =>
        cases rest
        cases marked
        simpa using named
  · intro named
    have alone : ∀ c ∈ ([] : List Char).head?, c ≠ '*' ∧ c ≠ '+' := by simp
    simpa using PatternText.cons named (.once alone) .nil

end FragmentGrammar
