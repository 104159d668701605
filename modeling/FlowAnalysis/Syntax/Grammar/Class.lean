import FlowAnalysis.Syntax.Grammar.Expression

/-!
# The grammar of classes

A class may be a declaration or an expression; both have the same parts.

## Main definitions

* `Grammar.classMember` — a member of a class body.
* `Grammar.classOf` — a class with everything from its decorators to its body.
-/

namespace FlowAnalysis.Syntax.Grammar

open Reader Lexeme

/-- Whether the newest child ends in a value, so that an operator could follow it. -/
def endsInValue (s : State) : Bool :=
  (s.out.head?).any fun t => (t.field? .value).isSome

/-- Reads a semicolon behind a declaration, which may be left out. -/
def declarationEnd : Reader Unit := fun s => semicolon (endsInValue s) s

/-- Reads a field of a class. -/
def classField (self : Rules) : Reader Unit :=
  node .fieldDefinition do
    decorators self
    modifier "declare"
    accessibility seesPropertyName
    modifier "declare"
    modifier "static"
    overriding seesPropertyName
    many <| do
      anyWord ["readonly", "abstract", "accessor"]
      require seesPropertyName
    inRole .name (propertyName self)
    maybe (token "?" <|> (do require fun s => !s.sees "!="; token "!"))
    optionalType self
    maybe (initializer self)

/-- Reads the signature of an abstract method. -/
def abstractMethod (self : Rules) : Reader Unit :=
  node .abstractMethodSignature do
    accessibility seesPropertyName
    word "abstract"
    overriding seesPropertyName
    (do token "*") <|> (do anyWord ["get", "set"]; require seesPropertyName) <|> give ()
    inRole .name (propertyName self)
    maybe (token "?")
    self .signature

/-- Reads a static block. -/
def staticBlock (self : Rules) : Reader Unit :=
  node .classStaticBlock do
    word "static"
    inRole .body (self .block)

/-- Reads a member of a class body. -/
def classMember (self : Rules) : Reader Unit :=
  let decorated := do
    decorators self
    within false false (method self)
    maybe (token ";")
  let signatureOnly := do
    node .methodSignature (methodHead self)
    token "," <|> semicolonOr true false
  let other := do
    abstractMethod self <|> indexSignature self <|> classField self
    token "," <|> declarationEnd
  token ";" <|> staticBlock self <|> decorated <|> signatureOnly <|> other

/-- Reads the body of a class. -/
def classBody (self : Rules) : Reader Unit :=
  node .classBody do
    token "\x7b"
    within true false (many (classMember self))
    closing "\x7d"

/-- Whether what can follow the base of a class stands next. -/
def seesHeritageEnd (s : State) : Bool :=
  s.sees "\x7b" || s.sees "," || s.seesWord "implements"

/-- Reads one base of a class and its type arguments. -/
def heritage (self : Rules) : Reader Unit :=
  let chain := operandChain
  chain <|> inRole .value (self .expression)
where
  /-- A base without operators, whose type arguments belong to the clause. -/
  operandChain : Reader Unit := do
    inRole .value do
      primary self false (constructorChain self false 1)
      many <| do
        accessTail self <|> (do require (·.sees "("); callTail self)
    maybe (inRole .typeArguments (typeArguments self))
    require seesHeritageEnd

/-- Reads the clauses that name the bases and the interfaces of a class. -/
def heritageClauses (self : Rules) : Reader Unit :=
  let interfaces := node .implementsClause do
    word "implements"
    separated (typed (self .type))
  node .classHeritage do
    (do
      node .extendsClause do
        word "extends"
        separated (heritage self)
      maybe interfaces) <|> interfaces

/-- Reads a class with everything from its decorators to its body.  A declaration has a name, an
expression may lack it. -/
def classOf (self : Rules) (kind : Kind) : Reader Unit :=
  let className := do
    require fun s => !s.seesWord "extends" && !s.seesWord "implements"
    inRole .name (heading .typeIdentifier)
  node kind do
    bracketed do
      decorators self
      if kind = .abstractClassDeclaration then word "abstract" else give ()
      word "class"
      if kind = .classExpression then maybe className else className
      maybe (inRole .typeParameters (typeParameters self))
      maybe (heritageClauses self)
      inRole .body (classBody self)
    if kind = .classDeclaration then maybe (silentSemicolon false false) else give ()

end FlowAnalysis.Syntax.Grammar
