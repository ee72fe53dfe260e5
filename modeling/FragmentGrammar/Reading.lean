import FragmentGrammar.Grammar.Derivation
import FragmentGrammar.Token

/-! # What a source says

    A source read as a list of rules, all at once and without resolving anything.  The
    tokens behind the first arrow are cut at every bar and at every name that an arrow
    follows; each piece is the body of a rule, whose head is the name before the nearest
    arrow.  Rules mention names and fragments, and with a language for each fragment they
    are a grammar of their own. -/

namespace FragmentGrammar

/-- What the body of a rule mentions. -/
inductive Mention where
  | name (name : String)
  | fragment (text : String)
  deriving DecidableEq

/-- A rule as it is written. -/
structure Rule where
  head : String
  body : List Mention
  deriving DecidableEq

/-- Puts a mention in front of the body of the first rule. -/
def Rule.mention (m : Mention) : List Rule → List Rule
  | [] => []
  | r :: rs => { r with body := m :: r.body } :: rs

/-- The rules that are written in tokens, when `head` is the head of the first. -/
def rulesOf (head : String) : List Token → List Rule
  | [] => [⟨head, []⟩]
  | t :: ts =>
    match t.kind with
    | .nonterminal =>
      match ts with
      | [] => [⟨head, [.name t.source]⟩]
      | a :: rest =>
        if a.kind = .arrow then ⟨head, []⟩ :: rulesOf t.source rest
        else Rule.mention (.name t.source) (rulesOf head (a :: rest))
    | .fragment => Rule.mention (.fragment t.source) (rulesOf head ts)
    | .bar => ⟨head, []⟩ :: rulesOf head ts
    | .arrow | .unknown => rulesOf head ts
    | .stop => [⟨head, []⟩]

/-- The name that a source starts with and its rules, if it starts with a name and an
    arrow. -/
def reading? : List Token → Option (String × List Rule)
  | first :: second :: rest =>
    if first.kind = .nonterminal ∧ second.kind = .arrow then
      some (first.source, rulesOf first.source rest)
    else none
  | _ => none

/-! ## Rules as a grammar -/

variable {L : Type}

/-- A name may be replaced by the body of each of its rules. -/
def Rule.Replaces (rules : List Rule) (x : Mention) (body : List Mention) : Prop :=
  ∃ r ∈ rules, x = .name r.head ∧ body = r.body

/-- A fragment spells the words of its language. -/
def Mention.Spelled (language : String → List L → Prop) (x : Mention) (w : List L) : Prop :=
  ∃ text, x = .fragment text ∧ language text w

/-- `name` derives the word `w` in the grammar of the rules, when `language` says which
    words a fragment stands for. -/
def RulesGenerate (rules : List Rule) (language : String → List L → Prop) (name : String)
    (w : List L) : Prop :=
  Spells (Rule.Replaces rules) (Mention.Spelled language) [.name name] w

/-- The symbol that a mention leaves, when `meaning` says what fragments leave. -/
def Mention.symbol (meaning : String → Option (Symbol L)) : Mention → Option (Symbol L)
  | name n => some (.nonterminal (.named n))
  | fragment text => meaning text

/-- The production that a rule becomes. -/
def Rule.production (meaning : String → Option (Symbol L)) (r : Rule) : Production L :=
  ⟨.named r.head, r.body.filterMap (Mention.symbol meaning)⟩

end FragmentGrammar
