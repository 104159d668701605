import FlowAnalysis.Syntax.Grammar.Class

/-!
# The grammar of declarations and of modules

## Main definitions

* `Grammar.declaration` — whatever introduces a name.
* `Grammar.importStatement`, `Grammar.exportStatement` — what a module takes and gives.
-/

namespace FlowAnalysis.Syntax.Grammar

open Reader Lexeme

/-! ### Values and functions -/

/-- Reads a declarator: a name or a pattern, its type and its value. -/
def declarator (self : Rules) : Reader Unit :=
  node .variableDeclarator do
    inRole .name (bindingName self)
    (do
      require fun s => s.sees "!" && !s.sees "!="
      token "!"
      inRole .type (typeAscription self)) <|>
    (do
      optionalType self
      maybe (initializer self))

/-- Reads a declaration with `var`. -/
def variableDeclaration (self : Rules) : Reader Unit :=
  node .variableDeclaration do
    word "var"
    within true false (separated (declarator self))
    declarationEnd

/-- Reads a declaration with `let` or `const`. -/
def lexicalDeclaration (self : Rules) : Reader Unit :=
  node .lexicalDeclaration do
    inRole .kind (anyWord ["let", "const"])
    within true false (separated (declarator self))
    declarationEnd

/-- Reads what stands in front of the body of a function declaration. -/
def functionHead (self : Rules) : Reader Unit := do
  maybe (word "async")
  word "function"
  maybe (token "*")
  inRole .name (heading .identifier)
  self .signature

/-- Reads a function declaration, or a signature without a body. -/
def functionDeclaration (self : Rules) : Reader Unit :=
  (nodeBy (fun out =>
      if out.any (·.isToken "*") then .generatorFunctionDeclaration else .functionDeclaration) do
    functionHead self
    inRole .body (self .block)
    maybe (silentSemicolon false false)) <|>
  (node .functionSignature do
    functionHead self
    semicolonOr true false)

/-! ### Types and namespaces -/

/-- Reads an interface. -/
def interfaceDeclaration (self : Rules) : Reader Unit :=
  node .interfaceDeclaration do
    word "interface"
    inRole .name (heading .typeIdentifier)
    maybe (inRole .typeParameters (typeParameters self))
    maybe <| node .extendsTypeClause do
      word "extends"
      separated (inRole .type (namedType self))
    inRole .body (self (.objectTypeOf .interfaceBody))

/-- Reads a type alias. -/
def typeAlias (self : Rules) : Reader Unit :=
  node .typeAliasDeclaration do
    word "type"
    inRole .name (heading .typeIdentifier)
    maybe (inRole .typeParameters (typeParameters self))
    token "="
    within true false (inRole .value (self .type))
    semicolon false

/-- Reads an enumeration. -/
def enumDeclaration (self : Rules) : Reader Unit :=
  let member := do
    inRole .name (propertyName self)
    maybe <| wrap .enumAssignment (some .name) (initializer self)
  node .enumDeclaration do
    maybe (word "const")
    word "enum"
    inRole .name (heading .identifier)
    inRole .body <| node .enumBody do
      token "\x7b"
      bracketed (listed member)
      closing "\x7d"

/-- Reads identifiers with dots between them. -/
def dottedName : Reader Unit := do
  heading .identifier
  many <| wrap .nestedIdentifier (some .object) do
    token "."
    inRole .property (name .propertyIdentifier)

/-- Reads a namespace or a module. -/
def namespaceOf (self : Rules) (kind : Kind) (w : String) : Reader Unit :=
  node kind do
    word w
    inRole .name <| do
      let s ← current
      if seesString s then string else dottedName
    maybe (inRole .body (self .block))

/-- Reads an alias of an imported name. -/
def importAlias : Reader Unit :=
  node .importAlias do
    word "import"
    heading .identifier
    token "="
    dottedName
    semicolon false

/-! ### Declarations -/

/-- Reads a declaration that begins with the given word. -/
def declarationOf (self : Rules) (w : String) : Reader Unit :=
  match w with
  | "function" | "async" => functionDeclaration self
  | "class" => self (.classOf .classDeclaration)
  | "abstract" => self (.classOf .abstractClassDeclaration)
  | "var" => variableDeclaration self
  | "let" => lexicalDeclaration self
  | "const" => enumDeclaration self <|> lexicalDeclaration self
  | "enum" => enumDeclaration self
  | "interface" => interfaceDeclaration self
  | "type" => typeAlias self
  | "namespace" => namespaceOf self .namespaceDeclaration w
  | "module" => namespaceOf self .moduleDeclaration w
  | "import" => importAlias
  | "declare" =>
    node .ambientDeclaration do
      word "declare"
      let s ← current
      if s.seesWord "global" then do
        word "global"
        self .block
      else
        self .statement
        require (newestIs [.functionDeclaration, .generatorFunctionDeclaration,
          .functionSignature, .classDeclaration, .abstractClassDeclaration, .lexicalDeclaration,
          .variableDeclaration, .enumDeclaration, .interfaceDeclaration, .typeAliasDeclaration,
          .namespaceDeclaration, .moduleDeclaration, .importAlias, .ambientDeclaration])
  | _ => refuse

/-- Reads a declaration. -/
def declaration (self : Rules) : Reader Unit := do
  let s ← current
  if s.sees "@" then
    self (.classOf .classDeclaration) <|> self (.classOf .abstractClassDeclaration)
  else
    match s.word? with
    | some w => declarationOf self w
    | none => refuse

/-! ### Modules -/

/-- Reads the name of an exported or imported thing. -/
def moduleName : Reader Unit := do
  let s ← current
  if seesString s then string else name .identifier

/-- Reads the clause that names the module that is read from. -/
def fromClause : Reader Unit := do
  word "from"
  inRole .source string

/-- Whether an entry of a list of imports or exports is over. -/
def entryOver (s : State) : Bool := s.sees "," || s.sees "\x7d"

/-- Reads an entry of a list of imports or of exports. -/
def moduleEntry (kind : Kind) : Reader Unit :=
  let entry := do
    inRole .name moduleName
    maybe do
      word "as"
      inRole .alias moduleName
    require entryOver
  (node kind do anyWord ["type", "typeof"]; entry) <|> node kind entry

/-- Reads a list of imports or of exports. -/
def moduleEntries (list entry : Kind) : Reader Unit :=
  node list do
    token "\x7b"
    bracketed (listed (moduleEntry entry))
    ending "\x7d"

/-- Reads what is imported. -/
def importClause : Reader Unit :=
  let everything := node .namespaceImport do
    token "*"
    word "as"
    name .identifier
  let listOrAll := everything <|> moduleEntries .namedImports .importSpecifier
  node .importClause do
    listOrAll <|> do
      name .identifier
      maybe do
        token ","
        listOrAll

/-- Reads the attributes of an import. -/
def importAttribute (self : Rules) : Reader Unit :=
  maybe <| node .importAttribute do
    anyWord ["with", "assert"]
    object self

/-- Reads an import. -/
def importStatement (self : Rules) : Reader Unit :=
  let required := node .importRequireClause do
    heading .identifier
    token "="
    word "require"
    token "("
    inRole .source string
    ending ")"
  let what := (do importClause; fromClause) <|> required <|> inRole .source string
  node .importStatement do
    word "import"
    (do anyWord ["type", "typeof"]; what) <|> what
    importAttribute self
    semicolon false

/-- Reads what follows `export default`. -/
def defaultExport (self : Rules) : Reader Unit := do
  word "default"
  inRole .declaration (declaration self) <|> do
    within true false (inRole .value (self .expression))
    semicolon true

/-- Reads an export. -/
def exportStatement (self : Rules) : Reader Unit :=
  let clause := moduleEntries .exportClause .exportSpecifier
  let everything := do
    (node .namespaceExport do token "*"; word "as"; moduleName) <|> token "*"
    fromClause
    semicolon false
  let listed := do
    maybe (word "type")
    clause
    maybe fromClause
    semicolon false
  let assigned := do
    token "="
    within true false (self .expression)
    semicolon true
  let named := do
    word "as"
    word "namespace"
    heading .identifier
    semicolon false
  node .exportStatement do
    decorators self
    word "export"
    everything <|> listed <|> assigned <|> named <|> defaultExport self <|>
      inRole .declaration (declaration self)

end FlowAnalysis.Syntax.Grammar
