import MonkeySyntax.Lexer
import MonkeySyntax.Main
import MonkeySyntax.Proofs.Leads
import MonkeySyntax.Proofs.Reads
import MonkeySyntax.Proofs.Spelling
import MonkeySyntax.Proofs.Tally
import MonkeySyntax.Tree.Equality
import MonkeySyntax.Proofs.Soundness
import MonkeySyntax.Proofs.Due
import MonkeySyntax.Proofs.Recovery
import MonkeySyntax.Proofs.Delivers
import MonkeySyntax.Proofs.Completeness
import MonkeySyntax.Proofs.Isolation
import MonkeySyntax.Proofs.Retoken
import MonkeySyntax.Proofs.RoundTrip
import MonkeySyntax.Proofs.Streaming
import MonkeySyntax.Proofs.Depths
import MonkeySyntax.Proofs.Recursion
import MonkeySyntax.Proofs.Extension
import MonkeySyntax.Proofs.Beginnings
import MonkeySyntax.Proofs.Order
import MonkeySyntax.Proofs.Spaced
import MonkeySyntax.Proofs.Chains
import MonkeySyntax.Proofs.Discipline.Expressions
import MonkeySyntax.Proofs.Reports
import MonkeySyntax.Proofs.Sifting
import MonkeySyntax.Proofs.Blocks
import MonkeySyntax.Proofs.Nesting
import MonkeySyntax.Proofs.WellFormed
import MonkeySyntax.Proofs.Languages
import MonkeySyntax.Proofs.Longest
import MonkeySyntax.Proofs.Coverage
import MonkeySyntax.Proofs.Places
import MonkeySyntax.Proofs.Joints
import MonkeySyntax.Proofs.Layout
import MonkeySyntax.Proofs.Caret
import MonkeySyntax.Proofs.Separators
import MonkeySyntax.Proofs.Commas
import MonkeySyntax.Proofs.Powers
import MonkeySyntax.Proofs.Numbers
import MonkeySyntax.Proofs.Escapes
