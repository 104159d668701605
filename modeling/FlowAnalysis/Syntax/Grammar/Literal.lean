import FlowAnalysis.Syntax.Reader

/-!
# Names and literals of the grammar

The grammar is a family of readers that refer to one another.  `Goal` names the members of the
family that other members need, and every reader here takes the family as a parameter, so that
each part of the grammar is an ordinary definition.

## Main definitions

* `Goal` — the constructs that other constructs contain.
* `Grammar.string`, `Grammar.template`, `Grammar.regex`, `Grammar.number` — literals.
* `Grammar.propertyName` — the name of a property or of a member.
* `Grammar.arguments`, `Grammar.decorator` — arguments and decorators.
-/

namespace FlowAnalysis.Syntax

/-- The constructs that other constructs contain. -/
inductive Goal
  | statement
  | block
  /-- An expression without commas, between the marks of a conditional expression or not. -/
  | expressionIn (between : Bool)
  /-- Expressions with commas between them. -/
  | expressions
  /-- An expression whose operators bind at least as tightly as the level. -/
  | binary (between : Bool) (level : Nat)
  /-- An operand of a binary operator. -/
  | unary (between : Bool)
  | type
  /-- A type without binary operators around it. -/
  | typeOperand
  /-- A target of a binding or of an assignment. -/
  | pattern
  /-- Type parameters, parameters and the result type of a function. -/
  | signature
  /-- A class with everything from its decorators to its body. -/
  | classOf (kind : Kind)
  /-- An object type, or the body of an interface. -/
  | objectTypeOf (kind : Kind)
  deriving Repr

/-- An expression without commas. -/
abbrev Goal.expression : Goal := .expressionIn false

/-- The family of readers that makes up the grammar. -/
abbrev Rules := Goal → Reader Unit

namespace Grammar

open Reader Lexeme

/-- Whether an identifier or a keyword stands next. -/
def seesName (s : State) : Bool := s.word?.isSome

/-- Whether a number stands next. -/
def seesNumber (s : State) : Bool := (numberEnd? s.text s.next).isSome

/-- Whether a string stands next. -/
def seesString (s : State) : Bool := s.sees "'" || s.sees "\""

/-- Reads the characters of a string up to its end, an escape or the end of the line. -/
def stringFragment (quote : Char) : Reader Unit :=
  leafHere (.rule .stringFragment) fun text i =>
    let j := runEnd text
      (fun c => isPlain c && c ≠ quote && c ≠ '\\' && c ≠ '\r' && c ≠ '\n') i
    if i < j then some j else none

/-- Reads an escape sequence that begins right here. -/
def escape : Reader Unit :=
  leafHere (.rule .escapeSequence) fun text i =>
    if text[i]? = some '\\' then escapeEnd? text i else none

/-- Reads a string in the given quotes. -/
def quoted (quote : Char) : Reader Unit :=
  node .string do
    token (String.singleton quote)
    many (stringFragment quote <|> escape)
    closing (String.singleton quote)

/-- Reads a string. -/
def string : Reader Unit := do
  let s ← current
  if s.sees "\"" then quoted '"' else quoted '\''

/-- Reads a number. -/
def number : Reader Unit := leaf .number numberEnd?

/-- Reads the characters of a template up to its end, an escape or a substitution. -/
def templateChars : Reader Unit :=
  leafHere (.rule .stringFragment) fun text i =>
    (templateRest? text (text.size - i) i).filter (i < ·)

/-- Reads a substitution inside a template, whose inside is read by a reader. -/
def substitution (kind : Kind) (inside : Reader Unit) : Reader Unit :=
  node kind do
    token "$\x7b"
    bracketed inside
    ending "\x7d"

/-- Reads a template whose substitutions are of a kind. -/
def templateOf (kind part : Kind) (inside : Reader Unit) : Reader Unit :=
  node kind do
    token "\x60"
    many (templateChars <|> escape <|> substitution part inside)
    closing "\x60"

/-- Reads a template string. -/
def template (self : Rules) : Reader Unit :=
  templateOf .templateString .templateSubstitution (self .expressions)

/-- Reads a regular expression. -/
def regex : Reader Unit :=
  node .regex do
    token "/"
    inRole .pattern (leafHere (.rule .regexPattern) regexEnd?)
    closing "/"
    maybe <| inRole .flags <| leafHere (.rule .regexFlags) fun text i =>
      let j := runEnd text (fun c => 'a' ≤ c && c ≤ 'z') i
      if i < j then some j else none

/-- Reads a private name. -/
def privateName : Reader Unit :=
  leaf .privatePropertyIdentifier fun text i =>
    if text[i]? = some '#' then wordEnd? text (i + 1) else none

/-- Reads an identifier; `undefined` is a literal. -/
def identifier : Reader Unit := wordAs .undefined "undefined" <|> name .identifier

/-- Reads the name of a property or of a member. -/
def propertyName (self : Rules) : Reader Unit := do
  let s ← current
  if s.supplies "identifier" then name .propertyIdentifier
  else if s.sees "[" then
    node .computedPropertyName do
      token "["
      bracketed (self .expression)
      closing "]"
  else if s.sees "#" then privateName
  else if seesString s then string
  else if seesNumber s then number
  else name .propertyIdentifier

/-- Whether a property name could begin at the next token. -/
def seesPropertyName (s : State) : Bool :=
  seesName s || seesString s || seesNumber s || s.sees "[" || s.sees "#"

/-- Reads a word that is a modifier only where a condition holds behind it. -/
def modifierWhen (behind : State → Bool) (w : String) : Reader Unit :=
  maybe do
    word w
    require behind

/-- Reads a word that is a modifier only in front of a property name. -/
def modifier (w : String) : Reader Unit := modifierWhen seesPropertyName w

/-- Reads a word as a node of a kind, where a condition holds behind it. -/
def modifierNode (kind : Kind) (ws : List String) (behind : State → Bool) : Reader Unit :=
  maybe do
    node kind (anyWord ws)
    require behind

/-- Reads `public`, `private` or `protected`, where a condition holds behind it. -/
def accessibility (behind : State → Bool) : Reader Unit :=
  modifierNode .accessibilityModifier ["public", "private", "protected"] behind

/-- Reads `override`, where a condition holds behind it. -/
def overriding (behind : State → Bool) : Reader Unit :=
  maybe do
    wordAs .overrideModifier "override"
    require behind

/-- Reads a colon and a type. -/
def typeAscription (self : Rules) : Reader Unit :=
  node .typeAscription do
    token ":"
    typed (self .type)

/-- Reads a colon and a type in the role of the type, if they stand next. -/
def optionalType (self : Rules) : Reader Unit := maybe (inRole .type (typeAscription self))

/-- Reads an equals sign that is not part of a longer mark. -/
def equalsSign : Reader Unit := do
  require fun s => !s.sees "==" && !s.sees "=>"
  token "="

/-- Reads an equals sign and the value behind it. -/
def initializer (self : Rules) : Reader Unit := do
  equalsSign
  inRole .value (self .expression)

/-- Reads type arguments. -/
def typeArguments (self : Rules) : Reader Unit :=
  node .typeArguments do
    token "<"
    bracketed do
      separated (self .type)
      maybe (token ",")
    closing ">"

/-- Reads a spread element. -/
def spread (self : Rules) : Reader Unit :=
  node .spreadElement do
    token "..."
    self .expression

/-- Reads the arguments of a call. -/
def arguments (self : Rules) : Reader Unit :=
  node .arguments do
    token "("
    bracketed (sparse (spread self <|> self .expression))
    closing ")"

/-- Reads what a decorator names: a name, perhaps one of a member, and perhaps arguments. -/
def decoration (self : Rules) : Reader Unit := do
  name .identifier
  many <| wrap .memberExpression (some .object) do
    token "."
    inRole .property (name .propertyIdentifier)
  maybe <| wrap .callExpression (some .function) do
    maybe (inRole .typeArguments (typeArguments self))
    inRole .arguments (arguments self)

/-- Reads a decorator. -/
def decorator (self : Rules) : Reader Unit :=
  node .decorator do
    token "@"
    bracketed do
      decoration self <|> node .parenthesizedExpression do
        token "("
        decoration self
        closing ")"

/-- Reads the decorators that stand next, in the role of decorators. -/
def decorators (self : Rules) : Reader Unit :=
  many (inRole .decorator (decorator self))

end Grammar

end FlowAnalysis.Syntax
