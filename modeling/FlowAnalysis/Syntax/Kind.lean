/-!
# Kinds of syntax nodes

The vocabulary of the concrete syntax trees: the kinds of their named nodes and the roles that a
node can play in its parent.

## Main definitions

* `Kind` — what a named node stands for.
* `Role` — the part that a node plays in its parent.
-/

namespace FlowAnalysis.Syntax

/-- What a named node of a syntax tree stands for. -/
inductive Kind
  -- texts and comments
  | program | hashBangLine | comment | htmlComment
  -- modules
  | importStatement | importClause | importSpecifier | namedImports | namespaceImport
  | importRequireClause | importAttribute | importAlias | exportStatement | exportClause
  | exportSpecifier | namespaceExport
  -- declarations
  | variableDeclaration | lexicalDeclaration | variableDeclarator | functionDeclaration
  | generatorFunctionDeclaration | functionSignature | classDeclaration
  | abstractClassDeclaration | interfaceDeclaration | typeAliasDeclaration | enumDeclaration
  | enumBody | enumAssignment | namespaceDeclaration | moduleDeclaration | ambientDeclaration
  -- classes
  | classHeritage | extendsClause | implementsClause | extendsTypeClause | classBody
  | interfaceBody | methodDefinition | methodSignature | abstractMethodSignature
  | fieldDefinition | classStaticBlock | decorator | accessibilityModifier | overrideModifier
  -- statements
  | statementBlock | expressionStatement | emptyStatement | ifStatement | elseClause
  | switchStatement | switchBody | switchCase | switchDefault | forStatement | forInStatement
  | whileStatement | doStatement | tryStatement | catchClause | finallyClause | withStatement
  | breakStatement | continueStatement | debuggerStatement | returnStatement | throwStatement
  | labeledStatement | statementIdentifier
  -- expressions
  | parenthesizedExpression | sequenceExpression | assignmentExpression
  | augmentedAssignmentExpression | ternaryExpression | binaryExpression | unaryExpression
  | updateExpression | awaitExpression | yieldExpression | newExpression | callExpression
  | memberExpression | subscriptExpression | nonNullExpression | asExpression
  | satisfiesExpression | typeAssertion | instantiationExpression | metaProperty | optionalChain
  | arguments | spreadElement | arrowFunction | functionExpression | generatorFunction
  | classExpression | object | pair | computedPropertyName | array | this | super | importKeyword
  | identifier | propertyIdentifier | privatePropertyIdentifier | shorthandPropertyIdentifier
  -- literals
  | string | stringFragment | escapeSequence | templateString | templateSubstitution | number
  | regex | regexPattern | regexFlags | trueLiteral | falseLiteral | nullLiteral | undefined
  -- patterns and parameters
  | formalParameters | requiredParameter | optionalParameter | restPattern | objectPattern
  | arrayPattern | pairPattern | assignmentPattern | objectAssignmentPattern
  | shorthandPropertyIdentifierPattern
  -- types
  | typeAscription | assertsAscription | typePredicateAscription | asserts | typePredicate
  | typeParameters | typeParameter | constraint | defaultType | typeArguments | typeIdentifier
  | nestedTypeIdentifier | nestedIdentifier | genericType | predefinedType | literalType
  | templateLiteralType | templateType | unionType | intersectionType | conditionalType
  | functionType | constructorType | parenthesizedType | readonlyType | inferType | arrayType
  | lookupType | tupleType | optionalType | restType | typeQuery | indexTypeQuery | thisType
  | existentialType | flowMaybeType | objectType | propertySignature | callSignature
  | constructSignature | indexSignature | mappedTypeClause | omittingTypeAscription
  | addingTypeAscription | optingTypeAscription
  deriving DecidableEq, Repr, Inhabited

/-- The part that a node plays in its parent. -/
inductive Role
  | name | alias | source | value | label | declaration | decorator | body | parameters | parameter
  | pattern | returnType | typeParameters | typeArguments | type | constraint | sign | indexType
  | kind | condition | consequence | alternative | initializer | increment | handler | finalizer
  | left | right | operator | argument | arguments | function | constructor | object | property
  | index | optionalChain | key | module | flags
  deriving DecidableEq, Repr, Inhabited

end FlowAnalysis.Syntax
