import FragmentGrammar.Lexer

/-! # Token streams end once

    Whatever the text is, a lexer gives out at least one token, and the last of them is
    the only one that ends a stream (`isStream_tokens`).  So whoever reads a stream token
    by token meets its end, and meets nothing behind it. -/

namespace FragmentGrammar

/-- The last token ends a stream, and no other does. -/
inductive IsStream : List Token → Prop
  | last {t : Token} : t.kind.isLast = true → IsStream [t]
  | more {t : Token} {ts : List Token} :
      t.kind.isLast = false → IsStream ts → IsStream (t :: ts)

namespace IsStream

variable {before after ts : List Token} {t : Token}

/-- A stream has an end. -/
theorem exists_last (h : IsStream ts) : ∃ t ∈ ts, t.kind.isLast = true := by
  induction h with
  | last ht => exact ⟨_, List.mem_singleton.mpr rfl, ht⟩
  | more _ _ ih =>
      obtain ⟨t, ht, hk⟩ := ih
      exact ⟨t, List.mem_cons_of_mem _ ht, hk⟩

/-- Nothing stands behind the token that ends a stream. -/
theorem after_eq_nil (h : IsStream (before ++ t :: after)) (ht : t.kind.isLast = true) :
    after = [] := by
  induction before with
  | nil =>
      cases h with
      | last => rfl
      | more hk => exact absurd ht (Bool.not_eq_true _ ▸ hk)
  | cons u before ih =>
      rw [List.cons_append] at h
      generalize hl : before ++ t :: after = l at h
      cases h with
      | last => exact absurd hl (by simp)
      | more _ h' => exact ih (hl ▸ h')

end IsStream

namespace Lexer

/-- A lexer that is not done gives a token, and it is done behind the last one. -/
theorem next?_of_waiting {l : Lexer} (h : l.done = false) :
    ∃ t l', l.next? = some (t, l') ∧ l'.done = t.kind.isLast := by
  rw [next?]
  rw [h]
  exact ⟨_, _, rfl, rfl⟩

theorem next?_of_done {l : Lexer} (h : l.done = true) : l.next? = none := by
  rw [next?]
  rw [h]
  rfl

/-- A lexer that is not done gives out a stream. -/
theorem isStream_of_waiting {l : Lexer} (h : l.done = false) : IsStream l.tokens := by
  rw [tokens]
  fun_induction drain l with
  | case1 l none =>
      obtain ⟨t, l', some, -⟩ := next?_of_waiting h
      cases none.symm.trans some
  | case2 l t l' some r ih =>
      obtain ⟨t, l', some', last⟩ := next?_of_waiting h
      obtain ⟨rfl, rfl⟩ := Prod.mk.inj (Option.some.inj (some.symm.trans some'))
      cases hk : t.kind.isLast with
      | false => exact .more hk (ih (last.trans hk))
      | true =>
          have none : r = ([], l') := drain_of_none (next?_of_done (last.trans hk))
          rw [none]
          exact .last hk

end Lexer

/-- The tokens of a source are a stream: the last one, and no other, ends it. -/
theorem isStream_tokens (source : String) : IsStream (tokens source) :=
  Lexer.isStream_of_waiting rfl

/-- Nothing stands behind the token that ends a source. -/
theorem tokens_after_eq_nil {source : String} {before after : List Token} {t : Token}
    (split : tokens source = before ++ t :: after) (ht : t.kind.isLast = true) : after = [] := by
  have stream := isStream_tokens source
  rw [split] at stream
  exact stream.after_eq_nil ht

end FragmentGrammar
