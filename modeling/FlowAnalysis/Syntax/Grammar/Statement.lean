import FlowAnalysis.Syntax.Grammar.Declaration

/-!
# The grammar of statements

## Main definitions

* `Grammar.statement` — any statement.
* `Grammar.block` — statements in braces.
* `Grammar.program` — a whole text.
-/

namespace FlowAnalysis.Syntax.Grammar

open Reader Lexeme

/-- Marks the point behind the head of a statement, which ends no operand. -/
def headDone : Reader Unit := fun s => .done () { s with fresh := true }

/-- Reads the condition of a statement. -/
def conditionIn (self : Rules) (role : Role) : Reader Unit := do
  inRole role (parenthesized self)
  headDone

/-- Reads an empty statement. -/
def emptyStatement : Reader Unit := node .emptyStatement (ending ";")

/-- Reads statements in braces. -/
def block (self : Rules) : Reader Unit := fun s =>
  (node .statementBlock do
    token "\x7b"
    within false false (many (self .statement))
    closing "\x7d"
    maybe (silentSemicolon false s.operable)) s

/-- Reads expressions as a statement. -/
def expressionStatement (self : Rules) : Reader Unit :=
  node .expressionStatement do
    within true true (self .expressions)
    semicolon true

/-! ### Branches and loops -/

/-- Reads a conditional statement. -/
def ifStatement (self : Rules) : Reader Unit :=
  node .ifStatement do
    word "if"
    conditionIn self .condition
    inRole .consequence (self .statement)
    onlyIf (·.seesWord "else") <| inRole .alternative <| node .elseClause do
      word "else"
      self .statement

/-- Reads the statements of a case. -/
def caseBody (self : Rules) : Reader Unit :=
  many <| do
    require fun s => !s.seesWord "case" && !s.seesWord "default"
    inRole .body (self .statement)

/-- Reads a switch statement. -/
def switchStatement (self : Rules) : Reader Unit :=
  let case := node .switchCase do
    word "case"
    inRole .value (bracketed (self .expressions))
    token ":"
    caseBody self
  let fallback := node .switchDefault do
    word "default"
    token ":"
    caseBody self
  node .switchStatement do
    word "switch"
    conditionIn self .value
    inRole .body <| node .switchBody do
      token "\x7b"
      many (case <|> fallback)
      ending "\x7d"

/-- Reads the target of a loop over a collection. -/
def loopTarget (self : Rules) : Reader Unit :=
  (do
    inRole .kind (word "var")
    inRole .left (bindingName self)
    maybe (initializer self)) <|>
  (do
    inRole .kind (anyWord ["let", "const"])
    inRole .left (bindingName self)) <|>
  inRole .left (self .pattern) <|> inRole .left (parenthesized self)

/-- Reads a loop over a collection. -/
def forInStatement (self : Rules) : Reader Unit :=
  node .forInStatement do
    word "for"
    maybe (word "await")
    token "("
    bracketed do
      loopTarget self
      inRole .operator (anyWord ["in", "of"])
      inRole .right (self .expressions)
    token ")"
    inRole .body (self .statement)

/-- Reads a loop with a counter. -/
def forStatement (self : Rules) : Reader Unit :=
  node .forStatement do
    word "for"
    token "("
    inRole .initializer (variableDeclaration self) <|>
      inRole .initializer (lexicalDeclaration self) <|>
      (do inRole .initializer (bracketed (self .expressions)); token ";") <|>
      inRole .initializer emptyStatement
    (do inRole .condition (bracketed (self .expressions)); token ";") <|>
      inRole .condition emptyStatement
    maybe (inRole .increment (bracketed (self .expressions)))
    token ")"
    inRole .body (self .statement)

/-- Reads a loop that tests before its body. -/
def whileStatement (self : Rules) : Reader Unit :=
  node .whileStatement do
    word "while"
    conditionIn self .condition
    inRole .body (self .statement)

/-- Reads a loop that tests behind its body. -/
def doStatement (self : Rules) : Reader Unit :=
  node .doStatement do
    word "do"
    inRole .body (self .statement)
    word "while"
    conditionIn self .condition
    maybe (semicolon false)

/-! ### Jumps and the rest -/

/-- Reads a statement that jumps, perhaps to a label. -/
def jump (kind : Kind) (w : String) : Reader Unit :=
  node kind do
    word w
    within true false <| maybe do
      require continues
      inRole .label (heading .statementIdentifier)
    semicolon false

/-- Reads a return statement. -/
def returnStatement (self : Rules) : Reader Unit :=
  let empty := do
    require fun s => (s.semicolonAt? false false).isSome || s.sees ";"
    semicolon false
  node .returnStatement do
    word "return"
    empty <|> do
      within true false (self .expressions)
      semicolon true

/-- Reads a throw statement. -/
def throwStatement (self : Rules) : Reader Unit :=
  node .throwStatement do
    word "throw"
    within true false (self .expressions)
    semicolon true

/-- Reads a statement that handles failures. -/
def tryStatement (self : Rules) : Reader Unit :=
  let handler := node .catchClause do
    word "catch"
    maybe do
      token "("
      bracketed do
        inRole .parameter (bindingName self)
        optionalType self
      token ")"
    inRole .body (self .block)
  let finalizer := node .finallyClause do
    word "finally"
    inRole .body (self .block)
  node .tryStatement do
    word "try"
    inRole .body (self .block)
    onlyIf (·.seesWord "catch") (inRole .handler handler)
    onlyIf (·.seesWord "finally") (inRole .finalizer finalizer)

/-- Reads a statement with a label. -/
def labeledStatement (self : Rules) : Reader Unit :=
  node .labeledStatement do
    inRole .label (heading .statementIdentifier)
    token ":"
    inRole .body (self .statement)

/-! ### Statements -/

/-- Words that begin a statement where a parenthesis follows, so that no method has their name
at the beginning of an object. -/
def statementHeads : List String :=
  ["if", "for", "while", "switch", "with", "catch", "function"]

/-- Whether an opening brace could begin an object: its first entry looks like a property. -/
def objectAhead : Reader Bool :=
  let key (r : Reader Unit) : Reader Unit := do
    r
    require (·.sees ":")
  ahead do
    token "\x7b"
    let s ← current
    if s.sees "..." || s.sees "[" || s.sees "*" then give ()
    else if seesString s then key string
    else if seesNumber s then key number
    else
      let w := s.word?.getD ""
      heading .identifier
      require fun t =>
        [":", ",", "\x7d", "(", "<"].any t.sees && !statementHeads.contains w ||
          ["get", "set", "async"].contains w

/-- Whether an opening brace and what follows it could begin a block with a label. -/
def labelAhead : Reader Bool :=
  ahead do
    token "\x7b"
    heading .statementIdentifier
    token ":"

/-- Reads a statement that begins with an opening brace.  It is a block, or else an expression; but
an object is preferred to a block that would begin with a label. -/
def bracedStatement (self : Rules) : Reader Unit := do
  if ← labelAhead then expressionStatement self <|> block self
  else if ← objectAhead then block self <|> expressionStatement self
  else block self

/-- Reads a statement that begins with a word that is not reserved: a declaration, a labelled
statement or an expression. -/
def looseStatement (self : Rules) : Reader Unit :=
  declaration self <|> labeledStatement self <|> expressionStatement self

/-- Reads a statement that begins with the given word. -/
def wordStatement (self : Rules) (w : String) : Reader Unit :=
  match w with
  | "if" => ifStatement self
  | "switch" => switchStatement self
  | "for" => forInStatement self <|> forStatement self
  | "while" => whileStatement self
  | "do" => doStatement self
  | "try" => tryStatement self
  | "with" => node .withStatement do
      word w
      conditionIn self .object
      inRole .body (self .statement)
  | "break" => jump .breakStatement w
  | "continue" => jump .continueStatement w
  | "debugger" => node .debuggerStatement do word w; semicolon false
  | "return" => returnStatement self
  | "throw" => throwStatement self
  | "import" => importAlias <|> importStatement self <|> expressionStatement self
  | "export" => exportStatement self <|> expressionStatement self
  | "var" => variableDeclaration self
  | "const" => declaration self
  | _ => looseStatement self

/-- Reads any statement. -/
def statement (self : Rules) : Reader Unit :=
  within true false do
    let s ← current
    if s.supplies "identifier" then expressionStatement self
    else if s.supplies ";" then emptyStatement
    else match s.peek? with
    | some '\x7b' => bracedStatement self
    | some ';' => emptyStatement
    | some '@' => exportStatement self <|> declaration self <|> expressionStatement self
    | _ =>
      match s.word? with
      | some w => wordStatement self w
      | none => expressionStatement self

/-- Reads the line that may name an interpreter, and all statements. -/
def program (self : Rules) : Reader Unit := do
  maybe <| leaf .hashBangLine fun text i =>
    if hasAt text ['#', '!'] i then
      some (runEnd text (fun c => isPlain c && c ≠ '\n') i)
    else none
  many (self .statement)

/-! ### The family -/

/-- The grammar over itself. -/
def rules (self : Rules) : Rules
  | .statement => statement self
  | .block => block self
  | .expressionIn between => expression self between
  | .expressions => expressions self
  | .binary between level => binary self between level
  | .unary between => unary self between
  | .type => type self
  | .typeOperand => typeOperand self
  | .pattern => pattern self
  | .signature => signature self
  | .classOf kind => classOf self kind
  | .objectTypeOf kind => objectTypeOf self kind

/-- The grammar with constructs nested at most `n` deep. -/
def upTo : Nat → Rules
  | 0 => fun _ => refuse
  | n + 1 => rules (upTo n)

end FlowAnalysis.Syntax.Grammar
