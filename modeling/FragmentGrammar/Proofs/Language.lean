import FragmentGrammar.Label
import Mathlib.Data.List.Forall2

/-! # Words up to the equality of labels

    Equal labels need not be identical, so a set of words is only given up to that
    equality: two sets are the same when each word of one has a twin in the other.
    `SameLanguage.of_subset` is how such a statement is proved, by one inclusion up to
    twins in each direction. -/

namespace FragmentGrammar

variable {L : Type} [BEq L]

/-- Words of one length whose labels are equal one by one. -/
def SameWord (v w : List L) : Prop :=
  List.Forall₂ (fun l m => (l == m) = true) v w

/-- `w` is the same as some word of `M`. -/
def UpTo (M : List L → Prop) (w : List L) : Prop :=
  ∃ v, M v ∧ SameWord v w

/-- `M` and `N` hold the same words, when equal labels count as one. -/
def SameLanguage (M N : List L → Prop) : Prop :=
  ∀ w, UpTo M w ↔ UpTo N w

@[simp] theorem sameWord_nil : SameWord ([] : List L) [] :=
  List.Forall₂.nil

@[simp] theorem sameWord_cons {l m : L} {v w : List L} :
    SameWord (l :: v) (m :: w) ↔ (l == m) = true ∧ SameWord v w :=
  List.forall₂_cons

/-- Words that are the same letter by letter may be joined. -/
theorem sameWord_append {v v' w w' : List L} (h : SameWord v w) (h' : SameWord v' w') :
    SameWord (v ++ v') (w ++ w') :=
  List.rel_append h h'

variable [EquivBEq L]

theorem SameWord.refl (w : List L) : SameWord w w :=
  List.forall₂_same.mpr fun _ _ => BEq.rfl

/-- Being the same word is handed on, as equality of labels is. -/
theorem SameWord.trans {u v w : List L} (h : SameWord u v) (h' : SameWord v w) :
    SameWord u w := by
  induction h generalizing w with
  | nil => exact h'
  | cons e _ ih =>
      cases h' with
      | cons e' t' => exact List.Forall₂.cons (BEq.trans e e') (ih t')

/-- A word of `M` is one up to equality. -/
theorem UpTo.of_mem {M : List L → Prop} {w : List L} (h : M w) : UpTo M w :=
  ⟨w, h, SameWord.refl w⟩

/-- Belonging up to equality does not tell twins apart. -/
theorem UpTo.congr {M : List L → Prop} {v w : List L} (h : UpTo M v) (e : SameWord v w) :
    UpTo M w := by
  obtain ⟨u, hu, e'⟩ := h
  exact ⟨u, hu, e'.trans e⟩

/-- One inclusion up to equality in each direction makes two languages the same. -/
theorem SameLanguage.of_subset {M N : List L → Prop} (hMN : ∀ w, M w → UpTo N w)
    (hNM : ∀ w, N w → UpTo M w) : SameLanguage M N := by
  intro w
  constructor
  · rintro ⟨v, hv, e⟩
    exact (hMN v hv).congr e
  · rintro ⟨v, hv, e⟩
    exact (hNM v hv).congr e

end FragmentGrammar
