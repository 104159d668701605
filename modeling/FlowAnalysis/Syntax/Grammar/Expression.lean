import FlowAnalysis.Syntax.Grammar.Pattern
import FlowAnalysis.Syntax.Grammar.Type

/-!
# The grammar of expressions

An operand is a primary expression with everything that may stand behind it; binary operators
are read by precedence.  A type assertion behind an expression binds weaker than any binary
operator to its left, and takes part in the chain of operators from then on.

Between the marks of a conditional expression, as in `a ? (b) : c => d`, a colon behind parentheses
may be the second of these marks.  So an arrow function there has a type as its result only if the
mark still follows it; the readers of operands are told whether they read there.

## Main definitions

* `Grammar.infixLevel?` — how tightly a binary operator binds.
* `Grammar.primary`, `Grammar.operand`, `Grammar.unary` — operands.
* `Grammar.binary`, `Grammar.expression`, `Grammar.expressions` — expressions.
-/

namespace FlowAnalysis.Syntax.Grammar

open Reader Lexeme

/-! ### Operators -/

/-- All marks that can follow an operand, longer marks before their beginnings. -/
def operatorMarks : List String :=
  [">>>=", "===", "!==", "**=", "<<=", ">>=", ">>>", "&&=", "||=", "??=", "...", "=>", "==", "!=",
   "<=", ">=", "&&", "||", "??", "?.", "++", "--", "+=", "-=", "*=", "/=", "%=", "&=", "|=", "^=",
   "<<", ">>", "**", "+", "-", "*", "/", "%", "<", ">", "&", "|", "^", "!", "=", "?", "."]

/-- The longest mark that stands next. -/
def seenMark? (s : State) : Option String := operatorMarks.find? s.sees

/-- How tightly a binary operator binds. -/
def infixLevel? : String → Option Nat
  | "??" => some 1
  | "||" => some 2
  | "&&" => some 3
  | "|" => some 4
  | "^" => some 5
  | "&" => some 6
  | "==" | "!=" | "===" | "!==" => some 7
  | "<" | "<=" | ">" | ">=" | "in" | "instanceof" => some 8
  | "<<" | ">>" | ">>>" => some 9
  | "+" | "-" => some 10
  | "*" | "/" | "%" => some 11
  | "**" => some 12
  | _ => none

/-- The marks of assignments that combine the old value with a new one. -/
def augmentedMarks : List String :=
  ["+=", "-=", "*=", "/=", "%=", "^=", "&=", "|=", ">>=", ">>>=", "<<=", "**=", "&&=", "||=", "??="]

/-- Whether an operand could begin at the next token. -/
def seesOperand (s : State) : Bool :=
  match s.word? with
  | some w =>
    !(["in", "instanceof", "as", "satisfies", "of", "implements", "extends"].contains w)
  | none =>
    seesString s || seesNumber s ||
      s.sees "(" || s.sees "[" || s.sees "\x7b" || s.sees "\x60" || s.sees "#"

/-! ### Brackets and literals -/

/-- Reads an array. -/
def array (self : Rules) : Reader Unit :=
  node .array do
    token "["
    bracketed (sparse (spread self <|> self .expression))
    closing "]"

/-- Reads a method of an object or of a class. -/
def method (self : Rules) : Reader Unit :=
  node .methodDefinition do
    methodHead self
    inRole .body (self .block)

/-- Reads a member of an object. -/
def objectMember (self : Rules) : Reader Unit :=
  let pair := node .pair do
    inRole .key (propertyName self)
    token ":"
    inRole .value (self .expression)
  spread self <|> pair <|> method self <|> name .shorthandPropertyIdentifier

/-- Reads an object. -/
def object (self : Rules) : Reader Unit :=
  node .object do
    token "\x7b"
    bracketed (sparse (objectMember self))
    closing "\x7d"

/-- Reads an expression in parentheses. -/
def parenthesized (self : Rules) : Reader Unit :=
  node .parenthesizedExpression do
    token "("
    bracketed do
      self .expressions
      optionalType self
    closing ")"

/-- Reads a literal in brackets; in front of an equals sign it is a pattern. -/
def literalOrPattern (self : Rules) (literal : Reader Unit) : Reader Unit :=
  (do literal; require fun s => seenMark? s ≠ some "=") <|>
    (do destructuring self; require fun s => seenMark? s = some "=")

/-! ### Functions -/

/-- Reads a function as an expression. -/
def function (self : Rules) : Reader Unit :=
  nodeBy (fun out =>
      if out.any (·.isToken "*") then .generatorFunction else .functionExpression) do
    maybe (word "async")
    word "function"
    maybe (token "*")
    maybe (inRole .name (heading .identifier))
    self .signature
    inRole .body (bracketed (self .block))

/-- Whether the newest child has a type as its result. -/
def endsTyped (s : State) : Bool :=
  (s.out.head?).any fun t => (t.field? .returnType).isSome

/-- Reads an arrow function. -/
def arrow (self : Rules) (between : Bool) : Reader Unit := do
  node .arrowFunction do
    modifierWhen (fun s => seesName s || s.sees "(" || s.sees "<") "async"
    (do inRole .parameter (heading .identifier); require (·.sees "=>")) <|> self .signature
    token "=>"
    let s ← current
    if s.sees "\x7b" then inRole .body (self .block <|> self (.expressionIn between))
    else inRole .body (self (.expressionIn between))
  require fun s => !(between && endsTyped s) || s.sees ":"

/-! ### Operands -/

/-- Whether what begins at the next token could be an arrow function. -/
def arrowAhead : Reader Bool := do
  let s ← current
  if s.sees "(" || s.sees "<" then give true
  else if s.seesWord "async" then
    ahead do
      word "async"
      require fun s => seesName s || s.sees "(" || s.sees "<"
  else
    ahead do
      heading .identifier
      token "=>"

/-- Reads a constructor call, or the property `new.target`. -/
def construction (self : Rules) (chain : Reader Unit) : Reader Unit :=
  (node .metaProperty do word "new"; token "."; word "target") <|>
  (node .newExpression do
    word "new"
    inRole .constructor chain
    maybe do
      inRole .typeArguments (typeArguments self)
      require fun s => s.sees "(" || !seesOperand s
    maybe do
      require continues
      inRole .arguments (arguments self))

/-- Reads a primary expression that begins with a word. -/
def wordPrimary (self : Rules) (w : String) (chain : Reader Unit) : Reader Unit :=
  match w with
  | "function" => function self
  | "async" => function self <|> name .identifier
  | "class" => self (.classOf .classExpression)
  | "this" => wordAs .this w
  | "super" => wordAs .super w
  | "true" => wordAs .trueLiteral w
  | "false" => wordAs .falseLiteral w
  | "null" => wordAs .nullLiteral w
  | "undefined" => wordAs .undefined w
  | "new" => construction self chain
  | "import" =>
    (node .metaProperty do word "import"; token "."; word "meta") <|>
      (do wordAs .importKeyword w; require (·.sees "("))
  | _ => name .identifier

/-- Reads a primary expression other than an arrow function; `chain` reads the class behind
`new`. -/
def plainPrimary (self : Rules) (chain : Reader Unit) : Reader Unit := do
  let s ← current
  if s.supplies "identifier" then name .identifier
  else match s.peek? with
  | some '(' => parenthesized self
  | some '[' => literalOrPattern self (array self)
  | some '\x7b' => literalOrPattern self (object self)
  | some '\x60' => template self
  | some '/' => regex
  | some '@' => self (.classOf .classExpression)
  | some '#' => do privateName; require fun s => s.seesWord "in"
  | _ =>
    if seesString s then string
    else if seesNumber s then number
    else
      match s.word? with
      | some w => wordPrimary self w chain
      | none => refuse

/-- Reads a primary expression. -/
def primary (self : Rules) (between : Bool) (chain : Reader Unit) : Reader Unit := do
  if ← arrowAhead then arrow self between <|> plainPrimary self chain
  else plainPrimary self chain

/-- Reads the name of a member behind a dot. -/
def memberName : Reader Unit := inRole .property (privateName <|> name .propertyIdentifier)

/-- Reads an index in brackets. -/
def indexed (self : Rules) : Reader Unit := do
  token "["
  inRole .index (bracketed (self .expressions))
  closing "]"

/-- Reads the mark of an optional access. -/
def optionalChain : Reader Unit :=
  inRole .optionalChain <| leaf .optionalChain fun text i =>
    if hasAt text ['?', '.'] i && !(text[i + 2]?).any Char.isDigit then some (i + 2) else none

/-- Reads an access to a member or an element, which may stand behind an operand. -/
def accessTail (self : Rules) : Reader Unit := do
  let s ← current
  match seenMark? s with
  | some "." => wrap .memberExpression (some .object) do token "."; memberName
  | some "?." =>
    (wrap .memberExpression (some .object) do optionalChain; memberName) <|>
      (wrap .subscriptExpression (some .object) do optionalChain; indexed self)
  | some "!" => wrap .nonNullExpression none (closing "!")
  | some _ => refuse
  | none =>
    if s.sees "[" then wrap .subscriptExpression (some .object) (indexed self)
    else if s.sees "\x60" then
      wrap .callExpression (some .function) (inRole .arguments (template self))
    else refuse

/-- Reads a call, an instantiation with types, or an increment behind an operand. -/
def callTail (self : Rules) : Reader Unit := do
  let s ← current
  let called := wrap .callExpression (some .function) do
    maybe (inRole .typeArguments (typeArguments self))
    inRole .arguments (arguments self)
  match seenMark? s with
  | some "?." => wrap .callExpression (some .function) do
      token "?."
      maybe (inRole .typeArguments (typeArguments self))
      inRole .arguments (arguments self)
  | some "<" => called <|> wrap .instantiationExpression none do
      inRole .typeArguments (typeArguments self)
      require fun s => !seesOperand s
  | some "++" => wrap .updateExpression (some .argument) (inRole .operator (closing "++"))
  | some "--" => wrap .updateExpression (some .argument) (inRole .operator (closing "--"))
  | some _ => refuse
  | none => if s.sees "(" then called else refuse

/-- Reads the class behind `new`: accesses, but neither calls nor `!`. -/
def constructorChain (self : Rules) (between : Bool) : Nat → Reader Unit
  | 0 => refuse
  | n + 1 => do
    primary self between (constructorChain self between n)
    many do
      require fun s => continues s && seenMark? s ≠ some "!"
      accessTail self

/-- The kinds of the expressions that can be assigned to. -/
def targetKinds : List Kind :=
  [.identifier, .undefined, .memberExpression, .subscriptExpression, .nonNullExpression,
   .parenthesizedExpression, .objectPattern, .arrayPattern]

/-- Reads the rest of an assignment behind its target. -/
def assignmentTail (self : Rules) (between : Bool) : Reader Unit := do
  require fun s => newestIs targetKinds s && continues s
  let s ← current
  match seenMark? s with
  | some "=" => wrap .assignmentExpression (some .left) do
      token "="
      inRole .right (self (.expressionIn between))
  | some m =>
    if augmentedMarks.contains m then
      wrap .augmentedAssignmentExpression (some .left) do
        inRole .operator (token m)
        inRole .right (self (.expressionIn between))
    else refuse
  | none => refuse

/-- Reads a primary expression with all that may stand behind it. -/
def operand (self : Rules) (between : Bool) : Reader Unit := do
  let s ← current
  primary self between (constructorChain self between (s.text.size - s.pos + 1))
  many do
    require continues
    accessTail self <|> callTail self
  maybe (assignmentTail self between)

/-- Reads an operand behind an operator that stands in front of it. -/
def prefixed (self : Rules) (between : Bool) (kind : Kind) (operator : Reader Unit) :
    Reader Unit :=
  node kind do
    inRole .operator operator
    inRole .argument (self (.unary between))

/-- Reads an operand that begins with a word. -/
def wordUnary (self : Rules) (between : Bool) (w : String) : Reader Unit :=
  match w with
  | "typeof" | "void" | "delete" => prefixed self between .unaryExpression (word w)
  | "await" => node .awaitExpression do word w; self (.unary between)
  | "yield" => node .yieldExpression do
      word w
      (do token "*"; self (.expressionIn between)) <|>
        maybe (do require continues; self (.expressionIn between))
  | _ => operand self between

/-- Reads an operand of a binary operator. -/
def unary (self : Rules) (between : Bool) : Reader Unit := do
  let s ← current
  if s.supplies "identifier" then operand self between
  else match s.word?, seenMark? s with
  | some w, _ => wordUnary self between w
  | none, some "++" => prefixed self between .updateExpression (token "++")
  | none, some "--" => prefixed self between .updateExpression (token "--")
  | none, _ =>
    match s.peek? with
    | some '!' => prefixed self between .unaryExpression (token "!")
    | some '~' => prefixed self between .unaryExpression (token "~")
    | some '+' => prefixed self between .unaryExpression (token "+")
    | some '-' => prefixed self between .unaryExpression (token "-")
    | some '<' =>
      operand self between <|> node .typeAssertion do
        typeArguments self
        self (.unary between)
    | _ => operand self between

/-! ### Binary operators -/

/-- Reads a binary operator that binds at least as tightly as a level, and its right operand. -/
def infixTail (self : Rules) (between : Bool) (level : Nat) : Reader Unit := do
  require continues
  let s ← current
  let found : Option (String × Reader Unit) :=
    match s.word? with
    | some w => some (w, word w)
    | none => (seenMark? s).map fun m => (m, token m)
  match found with
  | none => refuse
  | some ("as", r) =>
    require fun _ => level = 0
    wrap .asExpression none do
      r
      word "const" <|> self .type
  | some ("satisfies", r) =>
    require fun _ => level = 0
    wrap .satisfiesExpression none do
      r
      self .type
  | some (m, r) =>
    match infixLevel? m with
    | some l =>
      require fun _ => level ≤ l
      wrap .binaryExpression (some .left) do
        inRole .operator r
        inRole .right (self (.binary between (if m = "**" then l else l + 1)))
    | none => refuse

/-- Reads an expression whose operators bind at least as tightly as a level. -/
def binary (self : Rules) (between : Bool) (level : Nat) : Reader Unit := do
  self (.unary between)
  many (infixTail self between level)

/-- Whether the question mark of a conditional expression stands next: one that neither marks an
optional parameter nor an optional access. -/
def seesQuestion (s : State) : Bool :=
  match seenMark? s with
  | some "?" =>
    match s.text[runEnd s.text Text.isAsciiBlank (s.next + 1)]? with
    | some c => !(c = ':' || c = ')' || c = ',')
    | none => true
  | some "?." => (s.text[s.next + 2]?).any Char.isDigit
  | _ => false

/-- Reads an expression without commas. -/
def expression (self : Rules) (between : Bool) : Reader Unit :=
  Reader.operand do
    self (.binary between 0)
    maybe <| do
      require fun s => continues s && seesQuestion s
      wrap .ternaryExpression (some .condition) do
        token "?"
        inRole .consequence (bracketed (self (.expressionIn true)))
        token ":"
        inRole .alternative (self (.expressionIn between))

/-- Reads expressions with commas between them. -/
def expressions (self : Rules) : Reader Unit := do
  self .expression
  let s ← current
  if !s.mayEnd && s.sees "," then
    wrap .sequenceExpression none do
      many do
        token ","
        self .expression
  else give ()

end FlowAnalysis.Syntax.Grammar
