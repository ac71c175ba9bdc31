/-
# What can be wrong with a text

A diagnostic is a cause and the position it refers to.  Each cause has a name, a message, and all
but one have a tip on what to look for.

| cause | position |
| --- | --- |
| a character starts no lexeme | that character |
| another kind of token has to follow | the token that follows instead |
| no expression starts with a kind of token | the token |
| a number is out of range | the number |
| expressions nest too deeply | the token at which the next one would start |
-/

import MonkeySyntax.Token

namespace MonkeySyntax

/-- Why a piece of text was refused. -/
inductive Cause where
  | unrecognisedToken (text : String)
  | unexpectedToken (expected actual : Kind)
  | noPrefixRule (kind : Kind)
  | integerRange (text : String)
  | nestingTooDeep (limit : Nat)
  deriving DecidableEq, Repr

namespace Cause

/-- The name of a cause. -/
def name : Cause → String
  | unrecognisedToken _ => "UnrecognisedToken"
  | unexpectedToken _ _ => "UnexpectedToken"
  | noPrefixRule _ => "NoPrefixParseFn"
  | integerRange _ => "IntegerParseError"
  | nestingTooDeep _ => "NestingTooDeep"

/-- What is wrong, in a line. -/
def message : Cause → String
  | unrecognisedToken text => "unrecognised token: " ++ Text.quoted text
  | unexpectedToken expected actual =>
    "expected next token to be " ++ expected.display ++ ", got " ++ actual.display ++ " instead"
  | noPrefixRule kind => "no prefix parse function for " ++ kind.display ++ " found"
  | integerRange text => "could not parse " ++ Text.quoted text ++ " as integer"
  | nestingTooDeep limit =>
    "expression nested more than " ++ Nat.repr limit ++ " levels deep"

/-- What to look for. -/
def tip : Cause → Option String
  | unrecognisedToken _ => none
  | unexpectedToken expected actual =>
    some ("expected next token to be " ++ expected.display ++ ", got " ++ actual.display
      ++ " instead")
  | noPrefixRule kind => some ("\x60" ++ kind.display ++ "\x60 cannot start an expression")
  | integerRange text =>
    some ("Invalid integer: \x60" ++ text ++ "\x60, is it above the integer limit?")
  | nestingTooDeep _ => some "split the expression using let bindings"

end Cause

/-- A cause and where it was found. -/
structure Diagnostic where
  cause : Cause
  position : Position
  deriving DecidableEq, Repr

end MonkeySyntax
