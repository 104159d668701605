import FlowAnalysis.Syntax.Grammar.Literal

/-!
# The grammar of types

Unions and intersections nest to the left and may begin with their operator; a conditional type
takes what precedes it as a whole.

## Main definitions

* `Grammar.type` — a whole type.
* `Grammar.typeOperand` — a type without binary operators around it.
* `Grammar.objectTypeOf` — an object type or the body of an interface.
* `Grammar.signature` — type parameters, parameters and result type of a function.
-/

namespace FlowAnalysis.Syntax.Grammar

open Reader Lexeme

/-- The words that name a built-in type. -/
def predefinedTypes : List String :=
  ["any", "number", "boolean", "string", "symbol", "void", "unknown", "never", "object"]

/-- Reads a type name, perhaps with a namespace in front. -/
def typeName : Reader Unit := do
  name .typeIdentifier
  many <| do
    require fun s => !s.sees ".." && !s.mayEnd
    wrap .nestedTypeIdentifier (some .module) do
      token "."
      inRole .name (name .typeIdentifier)

/-- Reads a type name and the type arguments behind it. -/
def namedType (self : Rules) : Reader Unit := do
  typeName
  maybe <| wrap .genericType (some .name) do
    require continues
    inRole .typeArguments (typeArguments self)

/-- Reads a type parameter. -/
def typeParameter (self : Rules) : Reader Unit :=
  node .typeParameter do
    modifierWhen seesName "const"
    inRole .name (name .typeIdentifier)
    maybe <| inRole .constraint <| node .constraint do
      (word "extends" <|> token ":")
      self .type
    maybe <| inRole .value <| node .defaultType do
      token "="
      self .type

/-- Reads type parameters. -/
def typeParameters (self : Rules) : Reader Unit :=
  node .typeParameters do
    token "<"
    bracketed do
      separated (typeParameter self)
      maybe (token ",")
    closing ">"

/-- Reads the name that a type predicate speaks about, and the predicate. -/
def typePredicate (self : Rules) : Reader Unit :=
  node .typePredicate do
    inRole .name (wordAs .this "this" <|> heading .identifier)
    word "is"
    inRole .type (self .type)

/-- Reads an assertion about a parameter. -/
def asserts (self : Rules) : Reader Unit :=
  node .asserts do
    word "asserts"
    typePredicate self <|> wordAs .this "this" <|> name .identifier

/-- Whether an assertion could stand next. -/
def seesAsserts (s : State) : Bool := s.seesWord "asserts"

/-- Reads the result type of a function. -/
def resultType (self : Rules) : Reader Unit :=
  typed <|
    (node .assertsAscription do token ":"; require seesAsserts; asserts self) <|>
    (node .typePredicateAscription do token ":"; typePredicate self) <|>
    typeAscription self

/-- Reads a parameter. -/
def parameter (self : Rules) : Reader Unit :=
  let patternNext := fun s : State =>
    seesName s || s.sees "\x7b" || s.sees "[" || s.sees "..."
  nodeBy (fun out =>
      if out.any (·.isToken "?") then .optionalParameter else .requiredParameter) do
    decorators self
    accessibility patternNext
    overriding patternNext
    modifierWhen patternNext "readonly"
    inRole .pattern (wordAs .this "this" <|> self .pattern)
    maybe (token "?")
    optionalType self
    maybe (initializer self)

/-- Reads a parameter list. -/
def parameters (self : Rules) : Reader Unit :=
  node .formalParameters do
    token "("
    bracketed (listed (parameter self))
    closing ")"

/-- Reads type parameters, parameters and the result type of a function. -/
def signature (self : Rules) : Reader Unit := do
  maybe (inRole .typeParameters (typeParameters self))
  inRole .parameters (parameters self)
  maybe (inRole .returnType (resultType self))

/-- Reads a function type. -/
def functionType (self : Rules) : Reader Unit :=
  node .functionType do
    maybe (inRole .typeParameters (typeParameters self))
    inRole .parameters (parameters self)
    token "=>"
    inRole .returnType <|
      (do require seesAsserts; asserts self) <|> typePredicate self <|> self .type

/-- Reads a constructor type. -/
def constructorType (self : Rules) : Reader Unit :=
  node .constructorType do
    maybe (word "abstract")
    word "new"
    maybe (inRole .typeParameters (typeParameters self))
    inRole .parameters (parameters self)
    token "=>"
    inRole .type (self .type)

/-- Reads a type in parentheses. -/
def parenthesizedType (self : Rules) : Reader Unit :=
  node .parenthesizedType do
    token "("
    bracketed (self .type)
    closing ")"

/-- Reads an element of a tuple type. -/
def tupleElement (self : Rules) : Reader Unit :=
  let named := nodeBy (fun out =>
      if out.any (·.isToken "?") then .optionalParameter else .requiredParameter) do
    inRole .name <|
      (node .restPattern do token "..."; heading .identifier) <|> heading .identifier
    maybe (token "?")
    inRole .type (typeAscription self)
  let rest := node .restType do token "..."; self .type
  let plain := do
    self .type
    maybe <| wrap .optionalType none (token "?")
  named <|> rest <|> plain

/-- Reads a tuple type. -/
def tupleType (self : Rules) : Reader Unit :=
  node .tupleType do
    token "["
    bracketed (listed (tupleElement self))
    closing "]"

/-- Reads a literal as a type. -/
def literalType : Reader Unit :=
  let signed := node .unaryExpression do
    inRole .operator (token "-" <|> token "+")
    inRole .argument number
  let keyword := wordAs .trueLiteral "true" <|> wordAs .falseLiteral "false" <|>
    wordAs .nullLiteral "null" <|> wordAs .undefined "undefined"
  node .literalType do
    let s ← current
    if seesString s then string
    else if s.sees "-" || s.sees "+" then signed
    else if seesNumber s then number
    else keyword

/-- Reads what `typeof` asks about. -/
def queried (self : Rules) : Reader Unit := do
  (do wordAs .importKeyword "import"
      wrap .callExpression (some .function) <| inRole .arguments <| node .arguments do
        token "("; bracketed string; closing ")") <|>
    wordAs .this "this" <|> name .identifier
  many <| do
    require continues
    (wrap .memberExpression (some .object) do
        token "." <|> token "?."
        inRole .property (privateName <|> name .propertyIdentifier)) <|>
      (wrap .subscriptExpression (some .object) do
        token "["
        inRole .index (string <|> number)
        closing "]")
  maybe <| wrap .instantiationExpression (some .function) <|
    inRole .typeArguments (typeArguments self)

/-- Reads a type that is imported in place. -/
def importedType : Reader Unit := do
  wordAs .importKeyword "import"
  wrap .callExpression (some .function) <| inRole .arguments <| node .arguments do
    token "("; bracketed string; closing ")"
  many <| wrap .memberExpression (some .object) do
    token "."
    inRole .property (privateName <|> name .propertyIdentifier)

/-- Reads a type that begins with a word. -/
def wordType (self : Rules) (w : String) : Reader Unit :=
  match w with
  | "typeof" => node .typeQuery do word w; queried self
  | "keyof" => node .indexTypeQuery do word w; self .typeOperand
  | "readonly" => node .readonlyType do word w; self .type
  | "infer" => node .inferType do
      word w
      name .typeIdentifier
      maybe do
        word "extends"
        self .typeOperand
        require fun s => !s.sees "?"
  | "this" => wordAs .thisType w
  | "const" => word w
  | "import" => importedType
  | "new" => constructorType self
  | "true" | "false" | "null" | "undefined" => literalType
  | "abstract" => constructorType self <|> namedType self
  | "unique" => node .predefinedType (do word w; word "symbol") <|> namedType self
  | w => if predefinedTypes.contains w then node .predefinedType (word w) else namedType self

/-- Reads a type without the brackets that may stand behind it. -/
def primaryType (self : Rules) : Reader Unit := do
  let s ← current
  if s.supplies "identifier" then namedType self
  else match s.peek? with
  | some '(' => functionType self <|> parenthesizedType self
  | some '<' => functionType self
  | some '\x7b' => self (.objectTypeOf .objectType)
  | some '[' => tupleType self
  | some '?' => node .flowMaybeType do token "?"; self .typeOperand
  | some '*' => leaf .existentialType fun _ i => some (i + 1)
  | some '\x60' =>
    templateOf .templateLiteralType .templateType (self .type)
  | _ =>
    if seesString s || seesNumber s || s.sees "-" || s.sees "+" then literalType
    else
      match s.word? with
      | some w => wordType self w
      | none => refuse

/-- Reads a type without binary operators around it: a primary type and the brackets behind it. -/
def typeOperand (self : Rules) : Reader Unit := do
  primaryType self
  many <| do
    require continues
    (wrap .arrayType none do token "["; closing "]") <|>
      (wrap .lookupType none do
        token "["
        bracketed (self .type)
        closing "]")

/-- Reads operands with a binary operator between them, and perhaps one in front. -/
def operands (kind : Kind) (mark : String) (operand : Reader Unit) : Reader Unit := do
  let single := fun s : State => s.sees mark && !s.sees (mark ++ mark)
  (node kind do require single; token mark; operand) <|> operand
  many <| do
    require fun s => continues s && single s
    wrap kind none do
      token mark
      operand

/-- Reads a type without conditions. -/
def unionType (self : Rules) : Reader Unit :=
  operands .unionType "|" (operands .intersectionType "&" (self .typeOperand))

/-- Reads a whole type. -/
def type (self : Rules) : Reader Unit := do
  unionType self
  maybe <| do
    require continues
    wrap .conditionalType (some .left) do
      word "extends"
      inRole .right (unionType self)
      token "?"
      inRole .consequence (self .type)
      token ":"
      inRole .alternative (self .type)

/-- Reads an index signature. -/
def indexSignature (self : Rules) : Reader Unit :=
  node .indexSignature do
    maybe do
      maybe (inRole .sign (token "-" <|> token "+"))
      word "readonly"
    token "["
    bracketed <|
      (node .mappedTypeClause do
        inRole .name (heading .typeIdentifier)
        word "in"
        inRole .type (self .type)
        maybe do
          word "as"
          inRole .alias (self .type)) <|>
      (do
        inRole .name (heading .identifier)
        token ":"
        inRole .indexType (self .type))
    tokenWith false "]"
    inRole .type <|
      (node .omittingTypeAscription do token "-?:"; typed (self .type)) <|>
      (node .addingTypeAscription do token "+?:"; typed (self .type)) <|>
      (node .optingTypeAscription do token "?:"; typed (self .type)) <|>
      typeAscription self

/-- Reads the modifiers, the name and the signature of a method. -/
def methodHead (self : Rules) : Reader Unit := do
  accessibility seesPropertyName
  modifier "static"
  overriding seesPropertyName
  modifier "readonly"
  modifierWhen (fun s => seesPropertyName s || s.sees "*") "async"
  (do token "*") <|> (do anyWord ["get", "set"]; require seesPropertyName) <|> give ()
  inRole .name (propertyName self)
  maybe (token "?")
  self .signature

/-- Reads a member of an object type. -/
def typeMember (self : Rules) : Reader Unit :=
  let constructSignature := node .constructSignature do
    maybe (word "abstract")
    word "new"
    maybe (inRole .typeParameters (typeParameters self))
    inRole .parameters (parameters self)
    optionalType self
  let property := node .propertySignature do
    accessibility seesPropertyName
    modifier "static"
    overriding seesPropertyName
    modifier "readonly"
    inRole .name (propertyName self)
    maybe (token "?")
    optionalType self
  indexSignature self <|> constructSignature <|> node .callSignature (self .signature) <|>
    node .methodSignature (methodHead self) <|> property

/-- Reads an object type, or the body of an interface. -/
def objectTypeOf (self : Rules) (kind : Kind) : Reader Unit :=
  node kind do
    token "\x7b|" <|> token "\x7b"
    within true false do
      maybe (token "," <|> token ";")
      many do
        typeMember self
        token "," <|> silentSemicolon false false <|> token ";" <|> require (·.sees "|\x7d")
    closing "|\x7d" <|> closing "\x7d"

end FlowAnalysis.Syntax.Grammar
