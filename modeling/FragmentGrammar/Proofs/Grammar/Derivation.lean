import FragmentGrammar.Grammar.Derivation

/-! # Derivability is the least closed interpretation

    Let every symbol stand for a set of words.  A sequence then stands for the words that
    can be cut into pieces, one for each of its symbols (`Concat`).  An interpretation is
    closed when it holds what a symbol spells and what the body of one of its rules
    stands for.  Whatever is derived lies in every closed interpretation
    (`Closed.concat`), so to bound a grammar from above it is enough to look at each of
    its rules once. -/

namespace FragmentGrammar

variable {X L : Type} {rule : X → List X → Prop} {word : X → List L → Prop}

namespace Spells

/-- Two sequences that spell words spell the two words one after the other. -/
theorem append {xs ys : List X} {u v : List L} (h : Spells rule word xs u)
    (h' : Spells rule word ys v) : Spells rule word (xs ++ ys) (u ++ v) := by
  induction h with
  | nil => exact h'
  | word hx _ ih =>
      rw [List.append_assoc]
      exact .word hx ih
  | rule hx hb _ _ ih =>
      rw [List.append_assoc]
      exact .rule hx hb ih

theorem of_word {x : X} {w : List L} (h : word x w) : Spells rule word [x] w := by
  have spelled : Spells rule word [x] (w ++ []) := .word h .nil
  rwa [List.append_nil] at spelled

/-- One rule, and then whatever its body spells. -/
theorem of_rule {x : X} {body : List X} {w : List L} (hx : rule x body)
    (h : Spells rule word body w) : Spells rule word [x] w := by
  have spelled : Spells rule word [x] (w ++ []) := .rule hx h .nil
  rwa [List.append_nil] at spelled

/-- More rules derive more. -/
theorem mono {rule' : X → List X → Prop} (hr : ∀ x body, rule x body → rule' x body)
    {xs : List X} {w : List L} (h : Spells rule word xs w) : Spells rule' word xs w := by
  induction h with
  | nil => exact .nil
  | word hx _ ih => exact .word hx ih
  | rule hx _ _ ihb ih => exact .rule (hr _ _ hx) ihb ih

end Spells

/-! ## Interpretations -/

/-- `w` can be cut into words that `M` gives to the symbols of a sequence, in order. -/
def Concat (M : X → List L → Prop) : List X → List L → Prop
  | [], w => w = []
  | x :: xs, w => ∃ u v, w = u ++ v ∧ M x u ∧ Concat M xs v

theorem concat_singleton {M : X → List L → Prop} {x : X} {w : List L} :
    Concat M [x] w ↔ M x w := by
  constructor
  · rintro ⟨u, v, rfl, hu, rfl⟩
    rwa [List.append_nil]
  · intro h
    exact ⟨w, [], (List.append_nil w).symm, h, rfl⟩

/-- A concatenation may be cut anywhere. -/
theorem concat_append {M : X → List L → Prop} {xs ys : List X} {w : List L} :
    Concat M (xs ++ ys) w ↔ ∃ u v, w = u ++ v ∧ Concat M xs u ∧ Concat M ys v := by
  induction xs generalizing w with
  | nil =>
      constructor
      · intro h
        exact ⟨[], w, rfl, rfl, h⟩
      · rintro ⟨u, v, rfl, rfl, h⟩
        exact h
  | cons x xs ih =>
      constructor
      · rintro ⟨u, v, rfl, hx, h⟩
        obtain ⟨v₁, v₂, rfl, h₁, h₂⟩ := ih.mp h
        exact ⟨u ++ v₁, v₂, (List.append_assoc ..).symm, ⟨u, v₁, rfl, hx, h₁⟩, h₂⟩
      · rintro ⟨_, v, rfl, ⟨u, v₁, rfl, hx, h₁⟩, h₂⟩
        exact ⟨u, v₁ ++ v, List.append_assoc .., hx, ih.mpr ⟨v₁, v, rfl, h₁, h₂⟩⟩

/-- `M` holds what symbols spell and what the bodies of their rules stand for. -/
structure Closed (rule : X → List X → Prop) (word : X → List L → Prop)
    (M : X → List L → Prop) : Prop where
  word {x : X} {w : List L} : word x w → M x w
  rule {x : X} {body : List X} {w : List L} : rule x body → Concat M body w → M x w

namespace Closed

variable {M : X → List L → Prop}

/-- A closed interpretation holds whatever is derived. -/
theorem concat (hM : Closed rule word M) {xs : List X} {w : List L}
    (h : Spells rule word xs w) : Concat M xs w := by
  induction h with
  | nil => rfl
  | word hx _ ih => exact ⟨_, _, rfl, hM.word hx, ih⟩
  | rule hx _ _ ihb ih => exact ⟨_, _, rfl, hM.rule hx ihb, ih⟩

/-- A meaning that is closed under the rules holds of all that is spelled. -/
theorem holds (hM : Closed rule word M) {x : X} {w : List L} (h : Spells rule word [x] w) :
    M x w :=
  concat_singleton.mp (hM.concat h)

end Closed

/-! ## Productions -/

variable {ps qs : List (Production L)}

/-- More productions derive no less. -/
theorem Derives.mono (hsub : ∀ p ∈ ps, p ∈ qs) {xs : List (Symbol L)} {w : List L}
    (h : Derives ps xs w) : Derives qs xs w := by
  refine Spells.mono ?_ h
  rintro _ _ ⟨p, hp, rfl, rfl⟩
  exact ⟨p, hsub p hp, rfl, rfl⟩

/-- What the body of a production derives, its head does. -/
theorem Derives.of_production {p : Production L} (hp : p ∈ ps) {w : List L}
    (h : Derives ps p.body w) : Derives ps [.nonterminal p.head] w :=
  Spells.of_rule ⟨p, hp, rfl, rfl⟩ h

theorem Derives.terminal (t : Terminal L) : Derives ps [.terminal t] [t.label] :=
  Spells.of_word ⟨t, rfl, rfl⟩

end FragmentGrammar
