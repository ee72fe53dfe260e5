import FragmentGrammar.Move
import FragmentGrammar.Proofs.Text.Decimal

/-! # Displayed moves

    A move shows as its two states with its label between them, and the text of a label is
    whatever its algebra makes it: there may be commas, digits and brackets in it.  But
    states are decimal numbers, so the first comma ends the source and the last one begins
    the target.  Only what reads nothing has a single comma.  So the text of a move says
    its states and the text of its label, for any algebra (`Move.text_eq_iff`), and the
    move itself where labels are told apart by their texts (`Move.text_identifies`). -/

namespace FragmentGrammar

namespace Move

variable {L : Type} [Label L] {m n : Move L}

/-- The text of the label, unless nothing is read. -/
def written? (m : Move L) : Option String :=
  if m.isEpsilon then none else some (Literal.text m.label)

/-- A move that reads nothing has no written label. -/
theorem written?_of_silent (h : m.isEpsilon = true) : m.written? = none :=
  if_pos h

/-- A move that reads something shows its label as a literal. -/
theorem written?_of_reading (h : m.isEpsilon = false) : m.written? = some (Literal.text m.label) :=
  if_neg (ne_true_of_eq_false h)

/-- Whether a move reads something is known from its written label. -/
theorem isEpsilon_eq_of_written? (h : m.written? = n.written?) : m.isEpsilon = n.isEpsilon := by
  cases hm : m.isEpsilon <;> cases hn : n.isEpsilon <;> simp_all [written?]

/-- What a move shows behind its source: the label, if one is written, and the target. -/
def behindSource (target : Nat) : Option String → List Char
  | none => target.repr.toList
  | some label => label.toList ++ ',' :: target.repr.toList

/-- The text of a move, taken apart at its first comma. -/
theorem text_toList (m : Move L) : m.text.toList =
    '(' :: (m.source.repr.toList ++ ',' :: (behindSource m.target m.written? ++ [')'])) := by
  cases he : m.isEpsilon with
  | true => simp [text, written?_of_silent he, behindSource, he]
  | false => simp [text, written?_of_reading he, behindSource, he]

/-- Without a label there is no comma behind the source. -/
theorem behindSource_ne (p q : Nat) (label : String) :
    behindSource p none ≠ behindSource q (some label) := by
  intro h
  have comma : ',' ∈ behindSource q (some label) := by simp [behindSource]
  rw [← h] at comma
  exact absurd (isDigit_of_mem_repr comma) (by decide)

/-- Read from the end, what stands behind the source is the target and, if there is a comma
    in front of it, the label. -/
theorem behindSource_inj {p q : Nat} {label label' : Option String}
    (h : behindSource p label = behindSource q label') : p = q ∧ label = label' := by
  cases label with
  | none =>
      cases label' with
      | none => exact ⟨toList_repr_inj h, rfl⟩
      | some text' => exact absurd h (behindSource_ne p q text')
  | some text =>
      cases label' with
      | none => exact absurd h.symm (behindSource_ne q p text)
      | some text' =>
          obtain ⟨target, -, same⟩ := append_repr_inj (by decide) (by decide) h
          exact ⟨target, congrArg some (String.toList_inj.mp same)⟩

/-- Moves show alike exactly when their states are the same and their labels are written
    alike, or both read nothing. -/
theorem text_eq_iff :
    m.text = n.text ↔ m.source = n.source ∧ m.target = n.target ∧ m.written? = n.written? := by
  rw [← String.toList_inj, text_toList, text_toList]
  constructor
  · intro h
    obtain ⟨source, -, rest⟩ := repr_append_inj (by decide) (by decide) (List.cons.inj h).2
    exact ⟨source, behindSource_inj (List.append_cancel_right rest)⟩
  · rintro ⟨source, target, label⟩
    rw [source, target, label]

/-- Where labels that are written alike are equal, so are moves that show alike.  A move
    that reads nothing never shows like one that reads a label. -/
theorem text_identifies [LawfulLabel L]
    (shown : ∀ l l' : L, Literal.text l = Literal.text l' → (l == l') = true) (m n : Move L) :
    (m.text = n.text → (m == n) = true) ∧
      (m.isEpsilon = true → n.isEpsilon = false → m.text ≠ n.text) := by
  constructor
  · intro h
    obtain ⟨source, target, written⟩ := text_eq_iff.mp h
    refine beq_iff.mpr ⟨source, target, ?_⟩
    have together := isEpsilon_eq_of_written? written
    cases hn : n.isEpsilon with
    | true =>
        -- the texts say nothing of the labels, but both are equal to the marker
        have left := LawfulLabel.isEpsilon_iff.mp (together.trans hn)
        have right := LawfulLabel.isEpsilon_iff.mp hn
        exact BEq.trans left (BEq.symm right)
    | false =>
        rw [written?_of_reading hn, written?_of_reading (together.trans hn)] at written
        exact shown _ _ (Option.some.inj written)
  · intro hm hn h
    have together := isEpsilon_eq_of_written? (text_eq_iff.mp h).2.2
    rw [hm, hn] at together
    cases together

end Move

/-- A label that is written as it is spelled, with a remark that is not written and does
    not count. -/
structure Remarked where
  spelling : String
  remark : String

instance : Label Remarked where
  beq l m := l.spelling == m.spelling
  text l := l.spelling
  epsilon := ⟨"", ""⟩

theorem Remarked.beq_iff {l m : Remarked} : (l == m) = true ↔ l.spelling = m.spelling := by
  show (l.spelling == m.spelling) = true ↔ _
  rw [beq_iff_eq]

instance : LawfulLabel Remarked where
  rfl := Remarked.beq_iff.mpr rfl
  symm h := Remarked.beq_iff.mpr (Remarked.beq_iff.mp h).symm
  trans h₁ h₂ := Remarked.beq_iff.mpr ((Remarked.beq_iff.mp h₁).trans (Remarked.beq_iff.mp h₂))
  isEpsilon_iff := Iff.rfl

/-- Labels that look like parts of moves themselves. -/
theorem Move.text_identifies_commas :
    (⟨1, 4, ⟨"2),(3", "once"⟩⟩ : Move Remarked).text = "(1,2),(3,4)" ∧
      (⟨1, 4, ⟨"2),(3", "twice"⟩⟩ : Move Remarked).text = "(1,2),(3,4)" ∧
      ((⟨1, 4, ⟨"2),(3", "once"⟩⟩ : Move Remarked) == ⟨1, 4, ⟨"2),(3", "twice"⟩⟩) = true ∧
      (⟨1, 23, ⟨"", "silent"⟩⟩ : Move Remarked).text = "(1,23)" ∧
      (⟨1, 3, ⟨",2", ""⟩⟩ : Move Remarked).text = "(1,,2,3)" ∧
      (⟨1, 23, ⟨"", "silent"⟩⟩ : Move Remarked).text ≠
        (⟨1, 3, ⟨",2", ""⟩⟩ : Move Remarked).text := by
  have shown (l l' : Remarked) (h : Literal.text l = Literal.text l') : (l == l') = true :=
    Remarked.beq_iff.mpr h
  have once : (⟨1, 4, ⟨"2),(3", "once"⟩⟩ : Move Remarked).text = "(1,2),(3,4)" := by decide
  have twice : (⟨1, 4, ⟨"2),(3", "twice"⟩⟩ : Move Remarked).text = "(1,2),(3,4)" := by decide
  exact ⟨once, twice, (text_identifies shown _ _).1 (once.trans twice.symm), by decide, by decide,
    (text_identifies shown _ _).2 (by decide) (by decide)⟩

end FragmentGrammar
