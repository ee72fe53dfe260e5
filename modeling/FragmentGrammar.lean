import FragmentGrammar.Label.CharKind
import FragmentGrammar.Proofs.Embedding.Decoding
import FragmentGrammar.Proofs.Embedding.Reordered
import FragmentGrammar.Proofs.Parser.Display
import FragmentGrammar.Proofs.Parser.Extension
import FragmentGrammar.Proofs.Parser.Meaning
import FragmentGrammar.Proofs.Parser.Relabel
import FragmentGrammar.Proofs.Parser.Restated
import FragmentGrammar.Proofs.Pattern.Refusal
import FragmentGrammar.Proofs.Pattern.Shape
import FragmentGrammar.Proofs.Resolver.Failure
import FragmentGrammar.Proofs.Grammar.Accessors
import FragmentGrammar.Proofs.Parser.Blame
import FragmentGrammar.Proofs.Parser.Guards
import FragmentGrammar.Proofs.Parser.Log
import FragmentGrammar.Proofs.Automaton.Display
import FragmentGrammar.Proofs.Automaton.Worklist
import FragmentGrammar.Proofs.Embedding.Tables
import FragmentGrammar.Proofs.Parser.Names
