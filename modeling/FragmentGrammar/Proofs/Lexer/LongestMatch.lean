import FragmentGrammar.Proofs.Lexer.Tiling

/-! # Lexemes are longest matches

    Each kind of token that does not end a stream has a pattern, and the patterns differ
    in the characters that they start with.  So at most one of them matches at a place,
    and no order between them matters; of its matches a lexeme is the longest
    (`lexeme_iff_isLongestMatch`).  No pattern matches exactly at a dash that no `>`
    follows (`no_match_iff`). -/

namespace FragmentGrammar

/-- The two conditions on a word can be checked character by character. -/
theorem isWord_iff {starts : Char → Bool} {cs : List Char} :
    IsWord starts cs ↔ cs.head?.any starts = true ∧ cs.all (!isBlank ·) = true := by
  cases cs <;> simp [IsWord]

-- Through lists, since all characters might be tried where they are known to be finite.
instance (starts : Char → Bool) (cs : List Char) : Decidable (IsWord starts cs) :=
  decidable_of_iff _ isWord_iff.symm

/-- The pattern of a kind of token matches the characters.  Kinds that end a stream have
    no pattern. -/
def TokenKind.Matches : TokenKind → List Char → Prop
  | .nonterminal, cs => IsWord startsName cs
  | .fragment, cs => IsWord startsFragment cs
  | .arrow, cs => cs = ['-', '>']
  | .bar, cs => cs = ['|']
  | .unknown, _ | .stop, _ => False

instance : (kind : TokenKind) → (cs : List Char) → Decidable (kind.Matches cs)
  | .nonterminal, cs => inferInstanceAs (Decidable (IsWord startsName cs))
  | .fragment, cs => inferInstanceAs (Decidable (IsWord startsFragment cs))
  | .arrow, cs => inferInstanceAs (Decidable (cs = ['-', '>']))
  | .bar, cs => inferInstanceAs (Decidable (cs = ['|']))
  | .unknown, _ | .stop, _ => inferInstanceAs (Decidable False)

/-- The characters `cs` are the longest match of any pattern at the front of `cs` and
    `rest`, and it is the pattern of `kind` that matches. -/
def IsLongestMatch (kind : TokenKind) (cs rest : List Char) : Prop :=
  kind.Matches cs ∧ ∀ kind' cs' rest', cs' ++ rest' = cs ++ rest → kind'.Matches cs' →
    kind' = kind ∧ cs'.length ≤ cs.length

section Match

variable {kind : TokenKind} {c : Char} {cs rest : List Char}

/-- What is cut as a lexeme matches the pattern of its kind. -/
theorem TokenKind.Matches.of_lexeme (h : Lexeme kind cs rest) (goesOn : kind.isLast = false) :
    kind.Matches cs := by
  cases kind with
  | nonterminal => exact h.1
  | fragment => exact h.1
  | arrow => exact h
  | bar => exact h
  | unknown => cases goesOn
  | stop => cases goesOn

/-- A match is a lexeme where it cannot run on. -/
theorem TokenKind.Matches.lexeme (h : kind.Matches cs) (ends : EndsWord rest) :
    Lexeme kind cs rest := by
  cases kind with
  | nonterminal => exact ⟨h, ends⟩
  | fragment => exact ⟨h, ends⟩
  | arrow => exact h
  | bar => exact h
  | unknown => cases h
  | stop => cases h

/-- The end of the text matches no pattern. -/
theorem TokenKind.Matches.isLast (h : kind.Matches cs) : kind.isLast = false := by
  cases kind with
  | unknown => cases h
  | stop => cases h
  | _ => rfl

/-- The kind whose pattern starts with the character. -/
def kindOf (c : Char) : TokenKind :=
  if c = '-' then .arrow
  else if c = '|' then .bar
  else if startsName c then .nonterminal
  else .fragment

/-- Patterns differ in the characters that they start with. -/
theorem TokenKind.Matches.exists_cons (h : kind.Matches cs) :
    ∃ c tail, cs = c :: tail ∧ isBlank c = false ∧ kind = kindOf c := by
  cases kind with
  | nonterminal =>
      obtain ⟨⟨c, tail, rfl, starts⟩, word⟩ := h
      refine ⟨c, tail, rfl, word c List.mem_cons_self, ?_⟩
      have hdash : c ≠ '-' := by
        rintro rfl
        exact absurd starts (by decide)
      have hbar : c ≠ '|' := by
        rintro rfl
        exact absurd starts (by decide)
      rw [kindOf, if_neg hdash, if_neg hbar, if_pos starts]
  | fragment =>
      obtain ⟨⟨c, tail, rfl, starts⟩, word⟩ := h
      refine ⟨c, tail, rfl, word c List.mem_cons_self, ?_⟩
      obtain ⟨name, hdash, hbar, -⟩ := startsFragment_iff.mp starts
      rw [kindOf, if_neg hdash, if_neg hbar, name]
      rfl
  | arrow =>
      obtain rfl : cs = ['-', '>'] := h
      exact ⟨'-', ['>'], rfl, by decide, rfl⟩
  | bar =>
      obtain rfl : cs = ['|'] := h
      exact ⟨'|', [], rfl, by decide, by decide⟩
  | unknown => cases h
  | stop => cases h

/-- A word matches no further than the blank behind it. -/
theorem IsWord.length_le {starts : Char → Bool} {cs' rest' : List Char} (h : IsWord starts cs')
    (ends : EndsWord rest) (same : cs' ++ rest' = cs ++ rest) : cs'.length ≤ cs.length := by
  rcases List.append_eq_append_iff.mp same with ⟨more, rfl, -⟩ | ⟨more, rfl, split⟩
  · rw [List.length_append]
    exact Nat.le_add_right _ _
  · cases more with
    | nil => exact Nat.le_of_eq (congrArg List.length (List.append_nil cs))
    | cons d more =>
        have blank : isBlank d = true := ends d (by rw [split]; rfl)
        rw [h.2 d (by simp)] at blank
        cases blank

/-- A word runs on over a character that is not blank. -/
theorem IsWord.concat {starts : Char → Bool} {d : Char} (h : IsWord starts cs)
    (visible : isBlank d = false) : IsWord starts (cs ++ [d]) := by
  obtain ⟨⟨c, tail, rfl, hc⟩, word⟩ := h
  refine ⟨⟨c, tail ++ [d], rfl, hc⟩, ?_⟩
  intro x hx
  rcases List.mem_append.mp hx with old | new
  · exact word x old
  · obtain rfl := List.mem_singleton.mp new
    exact visible

/-- The longest match of a word leaves nothing that it could run on into. -/
theorem endsWord_of_longest {starts : Char → Bool} (h : IsWord starts cs)
    (longest : ∀ cs' rest', cs' ++ rest' = cs ++ rest → IsWord starts cs' →
      cs'.length ≤ cs.length) : EndsWord rest := by
  intro d hd
  obtain ⟨more, rfl⟩ := List.head?_eq_some_iff.mp hd
  cases visible : isBlank d with
  | true => rfl
  | false =>
      have further := longest (cs ++ [d]) more (by simp) (h.concat visible)
      rw [List.length_append, List.length_singleton] at further
      omega

end Match

/-- A lexeme is the longest match of any pattern where it stands. -/
theorem lexeme_iff_isLongestMatch {kind : TokenKind} {cs rest : List Char}
    (goesOn : kind.isLast = false) : Lexeme kind cs rest ↔ IsLongestMatch kind cs rest := by
  constructor
  · intro h
    have hm := TokenKind.Matches.of_lexeme h goesOn
    refine ⟨hm, ?_⟩
    intro kind' cs' rest' same hm'
    -- both start with the same character, so the same pattern matches
    obtain ⟨c, tail, hc, -, hk⟩ := hm.exists_cons
    obtain ⟨c', tail', hc', -, hk'⟩ := hm'.exists_cons
    rw [hc, hc'] at same
    obtain ⟨rfl, -⟩ := List.cons.inj same
    rw [← hc, ← hc'] at same
    obtain rfl : kind' = kind := hk'.trans hk.symm
    refine ⟨rfl, ?_⟩
    cases kind' with
    | nonterminal => exact IsWord.length_le hm' h.2 same
    | fragment => exact IsWord.length_le hm' h.2 same
    | arrow => exact Nat.le_of_eq (congrArg List.length (Eq.trans hm' hm.symm))
    | bar => exact Nat.le_of_eq (congrArg List.length (Eq.trans hm' hm.symm))
    | unknown => cases hm
    | stop => cases hm
  · rintro ⟨hm, longest⟩
    cases kind with
    | nonterminal =>
        refine ⟨hm, endsWord_of_longest hm ?_⟩
        intro cs' rest' same hm'
        exact (longest .nonterminal cs' rest' same hm').2
    | fragment =>
        refine ⟨hm, endsWord_of_longest hm ?_⟩
        intro cs' rest' same hm'
        exact (longest .fragment cs' rest' same hm').2
    | arrow => exact hm
    | bar => exact hm
    | unknown => cases hm
    | stop => cases hm

/-- Where text starts with no blank, no pattern matches exactly at a dash that no `>`
    follows. -/
theorem no_match_iff {c : Char} {cs : List Char} (visible : isBlank c = false) :
    (∀ (kind : TokenKind) (front rest : List Char), c :: cs = front ++ rest →
      ¬kind.Matches front) ↔ c = '-' ∧ Lexeme .unknown [c] cs := by
  constructor
  · intro none
    have start : ∀ d ∈ (c :: cs).head?, isBlank d = false := by
      intro d hd
      obtain rfl := Option.some.inj hd
      exact visible
    have lexeme := Cut.lexeme_of start
    have whole := Cut.lexeme_append_rest (c :: cs)
    cases hcut : Cut.of (c :: cs) with
    | mk kind front rest =>
        rw [hcut] at lexeme whole
        -- what is cut off would match, were it not the dash
        have last : kind.isLast = true := by
          cases hk : kind.isLast with
          | true => rfl
          | false => exact absurd (TokenKind.Matches.of_lexeme lexeme hk) (none _ _ _ whole.symm)
        cases kind with
        | unknown =>
            obtain ⟨rfl, single⟩ := lexeme
            obtain ⟨rfl, rfl⟩ := List.cons.inj whole
            exact ⟨rfl, rfl, single⟩
        | stop =>
            obtain ⟨rfl, rfl⟩ := lexeme
            cases whole
        | _ => cases last
  · rintro ⟨rfl, -, single⟩ kind front rest same hm
    obtain ⟨d, tail, rfl, -, hk⟩ := hm.exists_cons
    obtain ⟨rfl, behind⟩ := List.cons.inj same
    obtain rfl : kind = .arrow := hk
    have arrow : '-' :: tail = ['-', '>'] := hm
    obtain ⟨-, rfl⟩ := List.cons.inj arrow
    exact single (by rw [behind]; rfl)

end FragmentGrammar
