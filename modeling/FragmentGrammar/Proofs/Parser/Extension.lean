import FragmentGrammar.Proofs.Lexer.Joined
import FragmentGrammar.Proofs.Parser.Calls

/-! # Errors stay when the text goes on

    A source that is refused for something in it is refused for the same thing when blanks
    and more text are put behind it.  The tokens up to the refused one are the same there
    (`tokens_extend`), and a reading is settled by these (`EndsAt.read_eq`): nothing behind
    them is looked at, and no fragment behind them is compiled (`parse_error_extend`).
    Only an error that blames the end of the text may go away. -/

namespace FragmentGrammar

variable {σ E A L : Type}

/-- The text ends where a token was expected. -/
def ParseError.atStop : ParseError E → Bool
  | .syntactic (.expectedNonterminal found _ _) => found = .stop
  | .syntactic (.expectedArrow _ found _ _) => found = .stop
  | _ => false

variable [Automaton A L] [Label L] {c : Compiler σ E A} {source between : String} {s : σ}
variable {e : ParseError E}

/-- The end of the text is refused for itself. -/
theorem Stage.atStop_of_stop {stage : Stage A L} {t : Token} (h : t.kind = .stop)
    (refused : (stage.turn c t s).progress = .over (.error e)) : e.atStop = true := by
  cases stage with
  | opening =>
      rw [turn_opening_of_ne (by simp [h]), h] at refused
      obtain rfl := Except.error.inj (Progress.over.inj refused)
      rfl
  | named start =>
      rw [turn_named_of_ne (by simp [h]), h] at refused
      obtain rfl := Except.error.inj (Progress.over.inj refused)
      rfl
  | rules d =>
      rw [show (Stage.rules d).turn c t s = d.turn c t s from rfl, Draft.turn_of_stop h] at refused
      cases Progress.over.inj refused

/-- What is refused for something in it is read to the same when the text goes on: the
    tokens told about and the calls to the compiler are the same as well. -/
theorem read_extend (refused : (read c source s).result = .error e) (inside : e.atStop = false)
    (blank : ∀ ch ∈ between.toList, isBlank ch = true) (apart : between ≠ "") (more : String) :
    read c (source ++ between ++ more) s = read c source s := by
  obtain ⟨before, t, after, split, ends⟩ := read_endsAt c source s
  have goesOn : t.kind ≠ .stop := by
    intro stop
    obtain ⟨stage, s', trace, -, ended, -⟩ := ends
    rw [refused] at ended
    rw [Stage.atStop_of_stop stop ended] at inside
    cases inside
  obtain ⟨after', split'⟩ := tokens_extend split goesOn blank apart more
  exact ends.read_eq split'

/-- A source that is refused, and not for its end, is refused for the same reason when
    blanks and any text are put behind it: with the same error at the same place, after
    the same calls to the compiler, and having looked at the same tokens. -/
theorem parse_error_extend (c : Compiler σ E A) (s : σ)
    (refused : (parse c source s).result = .error e) (inside : e.atStop = false)
    (blank : ∀ ch ∈ between.toList, isBlank ch = true) (apart : between ≠ "") (more : String) :
    (parse c (source ++ between ++ more) s).result = .error e ∧
      (parse c (source ++ between ++ more) s).state = (parse c source s).state ∧
      (parse c (source ++ between ++ more) s).trace.tail = (parse c source s).trace.tail ∧
      (parse c.recorded (source ++ between ++ more) (s, [])).state =
        (parse c.recorded source (s, [])).state := by
  have same := read_extend (parse_eq_error_iff.mp refused) inside blank apart more
  -- the calls are read off a compiler that keeps them, whose parses are refused as well
  have kept : (parse c.recorded source (s, [])).result = .error e := by
    rw [(parse_recorded c source s []).1]
    exact refused
  have same' := read_extend (parse_eq_error_iff.mp kept) inside blank apart more
  refine ⟨?_, ?_, ?_, ?_⟩
  · rw [parse_result, same, ← parse_result]
    exact refused
  · rw [parse_state, same, ← parse_state]
  · rw [parse_eq_error_iff] at refused
    rw [parse, parse, same, refused]
    rfl
  · rw [parse_state, same', ← parse_state]

/-- A dash that ends its text stays a dash when an arrow head follows behind a blank. -/
theorem parse_error_extend_dash :
    (parse letters "S -> a* -" ()).result = .error (.lexical ⟨"-", ⟨8, 9⟩⟩) ∧
      (parse letters ("S -> a* -" ++ " " ++ "> b") ()).result =
        .error (.lexical ⟨"-", ⟨8, 9⟩⟩) := by
  have offends : refusalOf (read letters "S -> a* -" ()).result =
      some (.lexical ⟨"-", ⟨8, 9⟩⟩) := by
    rw [refusalOf_read]
    decide +kernel
  have refused : (parse letters "S -> a* -" ()).result = .error (.lexical ⟨"-", ⟨8, 9⟩⟩) := by
    rw [parse_eq_error_iff]
    cases hr : (read letters "S -> a* -" ()).result with
    | error e =>
        rw [hr] at offends
        rw [Option.some.inj offends]
    | ok w =>
        rw [hr] at offends
        cases offends
  have blank : ∀ ch ∈ " ".toList, isBlank ch = true := List.forall_mem_singleton.mpr (by decide)
  exact ⟨refused, (parse_error_extend letters () refused rfl blank (by decide) "> b").1⟩

end FragmentGrammar
