import FragmentGrammar.Proofs.Parser.Calls
import FragmentGrammar.Proofs.Pattern.Compile
import FragmentGrammar.Proofs.Pattern.Text
import FragmentGrammar.Proofs.Resolver.ByText
import Mathlib.Data.List.TakeWhile

/-! # Patterns that are refused

    Nothing can go wrong with a pattern but that a class is not closed where an item starts
    (`compilePattern_eq_error_iff`): brackets inside a class are its members, and whatever
    the items are, their automaton has all the states that it needs.  So a source is
    refused for a pattern only if it has such a one (`compilePattern_refuses_unclosed`). -/

namespace FragmentGrammar

variable {c : Char} {cs : List Char}

/-- Reading items from the left, one of them starts with an opening bracket behind which
    no bracket closes. -/
inductive Unclosed : List Char → Prop
  | here {cs : List Char} : ']' ∉ cs → Unclosed ('[' :: cs)
  | behind {set : CharSet} {quantity : Quantity} {front mark rest : List Char} :
      ClassText set front → QuantityText quantity mark rest → Unclosed rest →
      Unclosed (front ++ (mark ++ rest))

/-! ## Reading -/

/-- There are no members only in a class that is not closed. -/
theorem readMembers?_eq_none_iff : readMembers? c cs = none ↔ c = '[' ∧ ']' ∉ cs := by
  by_cases bracket : c = '['
  · subst bracket
    have unread : cs.dropWhile (· ≠ ']') = [] ↔ ']' ∉ cs := by
      rw [List.dropWhile_eq_nil_iff]
      simp only [decide_eq_true_iff]
      exact List.forall_mem_ne'
    rw [readMembers?, and_iff_right rfl, ← unread]
    cases cs.dropWhile (· ≠ ']') <;> simp
  · simp [readMembers?_of_ne bracket, bracket]

/-- A bracket that is not closed spoils the whole pattern. -/
theorem readItems?_of_open (h : readMembers? c cs = none) : readItems? (c :: cs) = none := by
  rw [readItems?]
  split <;> simp_all

/-- A pattern with an unclosed bracket is not read. -/
theorem Unclosed.read (h : Unclosed cs) : readItems? cs = none := by
  induction h with
  | here inside => exact readItems?_of_open (readMembers?_eq_none_iff.mpr ⟨rfl, inside⟩)
  | @behind set quantity front mark rest named marked _ ih =>
      obtain ⟨c, tail, rfl, members⟩ := named.read (mark ++ rest)
      rw [List.cons_append, readItems?_cons members, marked.read, ih]
      rfl

/-- A text has no items exactly when a class is not closed in it. -/
theorem readItems?_eq_none_iff : readItems? cs = none ↔ Unclosed cs := by
  refine ⟨fun h => ?_, Unclosed.read⟩
  fun_induction readItems? cs with
  | case1 => cases h
  | case2 c cs members =>
      obtain ⟨rfl, inside⟩ := readMembers?_eq_none_iff.mp members
      exact .here inside
  | case3 c cs set rest members ih =>
      obtain ⟨tail, rfl, named⟩ := classText_of_readMembers? members
      obtain ⟨mark, split, marked⟩ := quantityText_read rest
      have text := Unclosed.behind named marked (ih (Option.map_eq_none_iff.mp h))
      rwa [← split] at text

/-- Where a class is not closed there is a bracket that opens it. -/
theorem Unclosed.bracket_mem (h : Unclosed cs) : '[' ∈ cs := by
  induction h with
  | here _ => exact List.mem_cons_self
  | behind _ _ _ ih => exact List.mem_append_right _ (List.mem_append_right _ ih)

/-! ## Compiling -/

/-- A pattern is refused for a class that is not closed, and for nothing else. -/
theorem compilePattern_eq_error_iff {text : String} {e : PatternError} :
    compilePattern text = .error e ↔ e = .unterminated text ∧ Unclosed text.toList := by
  rw [compilePattern]
  split
  next named =>
    constructor
    · intro refused
      cases refused
    · rintro ⟨-, unclosed⟩
      rw [named] at unclosed
      exact absurd unclosed.bracket_mem (by decide)
  next =>
    rw [← readItems?_eq_none_iff]
    cases hr : readItems? text.toList with
    | none => simp [eq_comm]
    | some is =>
        obtain ⟨a, compiled, -⟩ := exists_compileItems is
        simp [compiled]

/-- A pattern compiles just if no bracket is left open. -/
theorem exists_compilePattern_iff {text : String} :
    (∃ a, compilePattern text = .ok a) ↔ ¬Unclosed text.toList := by
  cases hc : compilePattern text with
  | ok a =>
      have unrefused (unclosed : Unclosed text.toList) :=
        hc.symm.trans (compilePattern_eq_error_iff.mpr ⟨rfl, unclosed⟩)
      simpa using unrefused
  | error e => simpa using (compilePattern_eq_error_iff.mp hc).2

/-- A source is refused for a pattern exactly when a class is not closed in the last one
    that is compiled. -/
theorem parse_eq_error_pattern_iff {source : String} {e : PatternError} :
    (parse (.ofFunction compilePattern) source ()).result = .error (.fragment e) ↔
      ∃ pattern, (asked (.ofFunction compilePattern) source ()).getLast? = some pattern ∧
        e = .unterminated pattern ∧ Unclosed pattern.toList := by
  have byText : (Compiler.ofFunction compilePattern).AnswersBy compilePattern := fun _ _ => rfl
  rw [(parse_asks _ source ()).refused, byText.consult_eq, List.getLast?_map]
  simp [compilePattern_eq_error_iff]

/-- The compiler of patterns refuses a text, as a whole, exactly when reading items from the
    left meets a class that is not closed, and gives an automaton for every other text.  It
    never asks for an automaton with a state that does not exist, not in a parse either,
    which is refused for the last pattern that it compiles or for none. -/
theorem compilePattern_refuses_unclosed (text source : String) :
    (compilePattern text = .error (.unterminated text) ↔ Unclosed text.toList) ∧
    ((∃ a, compilePattern text = .ok a) ↔ ¬Unclosed text.toList) ∧
    (∀ e, compilePattern text ≠ .error (.invalid e)) ∧
    (∀ e, (parse (.ofFunction compilePattern) source ()).result ≠
      .error (.fragment (.invalid e))) ∧
    ∀ e, (parse (.ofFunction compilePattern) source ()).result = .error (.fragment e) ↔
      ∃ pattern, (asked (.ofFunction compilePattern) source ()).getLast? = some pattern ∧
        e = .unterminated pattern ∧ Unclosed pattern.toList := by
  refine ⟨?_, exists_compilePattern_iff, ?_, ?_, fun e => parse_eq_error_pattern_iff⟩
  · rw [compilePattern_eq_error_iff]
    exact and_iff_right rfl
  · intro e refused
    cases (compilePattern_eq_error_iff.mp refused).1
  · intro e refused
    obtain ⟨_, -, other, -⟩ := parse_eq_error_pattern_iff.mp refused
    cases other

/-- The first class holds an opening bracket, and the second one is not closed. -/
example : Unclosed "[[a]+[b*".toList := by
  have inside : ']' ∉ ['[', 'a'] := by decide
  have last : ']' ∉ ['b', '*'] := by decide
  exact .behind (.members inside) (.plus _) (.here last)

end FragmentGrammar
