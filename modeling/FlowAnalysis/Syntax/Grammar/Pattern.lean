import FlowAnalysis.Syntax.Grammar.Literal

/-!
# The grammar of patterns

Patterns are the targets of bindings and of assignments: names, members of objects, and
destructuring patterns over those.

## Main definitions

* `Grammar.destructuring` — an object pattern or an array pattern.
* `Grammar.pattern` — any target.
* `Grammar.bindingName` — a name or a destructuring pattern.
-/

namespace FlowAnalysis.Syntax.Grammar

open Reader Lexeme

/-- Reads an equals sign and a default value in the role of the right side. -/
def defaultValue (self : Rules) : Reader Unit := do
  equalsSign
  inRole .right (self .expression)

/-- Reads a pattern that may have a default value. -/
def patternWithDefault (self : Rules) : Reader Unit := do
  self .pattern
  maybe <| wrap .assignmentPattern (some .left) (defaultValue self)

/-- Reads the rest pattern of a list. -/
def restPattern (self : Rules) : Reader Unit :=
  node .restPattern do
    token "..."
    self .pattern

/-- Reads an element of an object pattern. -/
def objectPatternElement (self : Rules) : Reader Unit :=
  let pair := node .pairPattern do
    inRole .key (propertyName self)
    token ":"
    inRole .value (patternWithDefault self)
  let withDefault := node .objectAssignmentPattern do
    inRole .left (heading .shorthandPropertyIdentifierPattern)
    defaultValue self
  restPattern self <|> pair <|> withDefault <|> name .shorthandPropertyIdentifierPattern

/-- Reads an object pattern or an array pattern. -/
def destructuring (self : Rules) : Reader Unit := do
  let s ← current
  if s.sees "\x7b" then
    node .objectPattern do
      token "\x7b"
      bracketed (sparse (objectPatternElement self))
      closing "\x7d"
  else
    node .arrayPattern do
      token "["
      bracketed (sparse (patternWithDefault self))
      closing "]"

/-- Reads a name or a destructuring pattern. -/
def bindingName (self : Rules) : Reader Unit := do
  let s ← current
  if s.sees "\x7b" || s.sees "[" then destructuring self else heading .identifier

/-- Reads any target of a binding or of an assignment. -/
def pattern (self : Rules) : Reader Unit := do
  let s ← current
  if s.sees "\x7b" || s.sees "[" then destructuring self
  else if s.sees "..." then restPattern self
  else do
    wordAs .this "this" <|> identifier
    many <| do
      require fun s => continues s && !s.sees ".."
      (wrap .memberExpression (some .object) do
          token "."
          inRole .property (privateName <|> name .propertyIdentifier)) <|>
        (wrap .subscriptExpression (some .object) do
          token "["
          inRole .index (bracketed (self .expressions))
          closing "]")

end FlowAnalysis.Syntax.Grammar
