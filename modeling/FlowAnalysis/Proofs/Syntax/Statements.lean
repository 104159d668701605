import FlowAnalysis.Proofs.Syntax.Placement
import FlowAnalysis.Proofs.Syntax.Sources

/-!
# Branches and loops stand where statements stand

Every reader of the grammar keeps statements in place, so in every source branches and loops are
parts of texts, blocks, cases and other statements.

## Main results

* `Grammar.places_upTo` — the readers of the grammar keep statements in place.
* `placed_of_parse` — **in every source branches and loops stand where statements stand.**
-/

namespace FlowAnalysis.Syntax

/-! ### The family -/

/-- Whether the nodes of a construct whose kind is given have no statements among their parts. -/
@[reducible] def Goal.plain : Goal → Bool
  | classOf kind => kind.plain
  | objectTypeOf kind => kind.plain
  | _ => true

/-- The goals for which no branch and no loop can stand. -/
@[reducible] def Goal.unbranching : Goal → Bool
  | statement => false
  | _ => true

/-- A family of readers that keep statements in place. -/
class Rules.Places (family : Rules) : Prop where
  places : ∀ g : Goal, g.plain → g.unbranching → (family g).Places .branches .branches
  statement : (family .statement).Places .nothing .nothing
  classOf : ∀ {kind : Kind} {m : Ban}, kind.plain → (family (.classOf kind)).Places m m
  objectTypeOf : ∀ {kind : Kind} {m : Ban}, kind.plain → (family (.objectTypeOf kind)).Places m m

section

variable {self : Rules} [hself : self.Places] {kind : Kind} {m : Ban}

instance places_goal {g : Goal} [hg : Holds g.plain] [hm : Holds g.unbranching] :
    (self g).Places .branches .branches :=
  hself.places g hg.holds hm.holds

instance places_goal_statement : (self .statement).Places .nothing .nothing := hself.statement

instance places_goal_classOf [hk : Holds kind.plain] : (self (.classOf kind)).Places m m :=
  hself.classOf hk.holds

instance places_goal_objectTypeOf [hk : Holds kind.plain] :
    (self (.objectTypeOf kind)).Places m m :=
  hself.objectTypeOf hk.holds

end

namespace Grammar

open Reader

-- Instance search goes through whole readers of the grammar.
set_option synthInstance.maxSize 100000

variable {m : Ban}

/-! ### Literals -/

instance places_stringFragment {quote : Char} : (stringFragment quote).Places .branches .branches := by
  unfold stringFragment
  infer_instance

instance places_escape : escape.Places .branches .branches := by
  unfold escape
  infer_instance

instance places_quoted {quote : Char} : (quoted quote).Places .branches .branches := by
  unfold quoted
  infer_instance

instance places_string : string.Places .branches .branches := by
  unfold string
  infer_instance

instance places_number : number.Places .branches .branches := by
  unfold number
  infer_instance

instance places_templateChars : templateChars.Places .branches .branches := by
  unfold templateChars
  infer_instance

instance places_regex : regex.Places .branches .branches := by
  unfold regex
  infer_instance

instance places_privateName : privateName.Places .branches .branches := by
  unfold privateName
  infer_instance

instance places_identifier : identifier.Places .branches .branches := by
  unfold identifier
  infer_instance

/-! ### The family -/

section

variable {self : Rules} [self.Places]

instance places_templateOf {kind part : Kind} {inside : Reader Unit} [Holds kind.plain]
    [Holds part.plain] [inside.Places .branches .branches] :
    (templateOf kind part inside).Places .branches .branches := by
  unfold templateOf substitution
  infer_instance

instance places_template : (template self).Places .branches .branches := by
  unfold template
  infer_instance

instance places_propertyName : (propertyName self).Places .branches .branches := by
  unfold propertyName
  infer_instance

instance places_modifierWhen {behind : State → Bool} {w : String} :
    (modifierWhen behind w).Places .branches .branches := by
  unfold modifierWhen
  infer_instance

instance places_modifier {w : String} : (modifier w).Places .branches .branches := by
  unfold modifier
  infer_instance

instance places_accessibility {behind : State → Bool} :
    (accessibility behind).Places .branches .branches := by
  unfold accessibility modifierNode
  infer_instance

instance places_overriding {behind : State → Bool} : (overriding behind).Places .branches .branches := by
  unfold overriding
  infer_instance

instance places_typeAscription : (typeAscription self).Places .branches .branches := by
  unfold typeAscription
  infer_instance

instance places_optionalType : (optionalType self).Places .branches .branches := by
  unfold optionalType
  infer_instance

instance places_equalsSign : equalsSign.Places .branches .branches := by
  unfold equalsSign
  infer_instance

instance places_initializer : (initializer self).Places .branches .branches := by
  unfold initializer
  infer_instance

instance places_typeArguments : (typeArguments self).Places .branches .branches := by
  unfold typeArguments
  infer_instance

instance places_spread : (spread self).Places .branches .branches := by
  unfold spread
  infer_instance

instance places_arguments : (arguments self).Places .branches .branches := by
  unfold arguments
  infer_instance

instance places_decoration : (decoration self).Places .branches .branches := by
  unfold decoration
  infer_instance

instance places_decorator : (decorator self).Places .branches .branches := by
  unfold decorator
  infer_instance

instance places_decorators : (decorators self).Places .branches .branches := by
  unfold decorators
  infer_instance

/-! ### Patterns -/

instance places_defaultValue : (defaultValue self).Places .branches .branches := by
  unfold defaultValue
  infer_instance

instance places_patternWithDefault : (patternWithDefault self).Places .branches .branches := by
  unfold patternWithDefault
  infer_instance

instance places_restPattern : (restPattern self).Places .branches .branches := by
  unfold restPattern
  infer_instance

instance places_objectPatternElement : (objectPatternElement self).Places .branches .branches := by
  unfold objectPatternElement
  infer_instance

instance places_destructuring : (destructuring self).Places .branches .branches := by
  unfold destructuring
  infer_instance

instance places_bindingName : (bindingName self).Places .branches .branches := by
  unfold bindingName
  infer_instance

instance yields_bindingName : (bindingName self).Yields .parameter := by
  unfold bindingName
  refine yields_look fun s => ?_
  split
  · unfold destructuring
    refine yields_look fun s => ?_
    split <;> infer_instance
  · infer_instance

instance places_pattern : (pattern self).Places .branches .branches := by
  unfold pattern
  infer_instance

/-! ### Types -/

instance places_typeName : typeName.Places .branches .branches := by
  unfold typeName
  infer_instance

instance places_namedType : (namedType self).Places .branches .branches := by
  unfold namedType
  infer_instance

instance places_typeParameter : (typeParameter self).Places .branches .branches := by
  unfold typeParameter
  infer_instance

instance places_typeParameters : (typeParameters self).Places m m := by
  unfold typeParameters
  infer_instance

instance places_typePredicate : (typePredicate self).Places .branches .branches := by
  unfold typePredicate
  infer_instance

instance places_asserts : (asserts self).Places .branches .branches := by
  unfold asserts
  infer_instance

instance places_resultType : (resultType self).Places .branches .branches := by
  unfold resultType
  infer_instance

instance places_parameter : (parameter self).Places m m := by
  unfold parameter
  infer_instance

instance places_parameters : (parameters self).Places .branches .branches := by
  unfold parameters
  infer_instance

instance yields_parameters : (parameters self).Yields .parameters := by
  unfold parameters
  infer_instance

instance places_signature : (signature self).Places .branches .branches := by
  unfold signature
  infer_instance

instance places_functionType : (functionType self).Places .branches .branches := by
  unfold functionType
  infer_instance

instance places_constructorType : (constructorType self).Places .branches .branches := by
  unfold constructorType
  infer_instance

instance places_parenthesizedType : (parenthesizedType self).Places .branches .branches := by
  unfold parenthesizedType
  infer_instance

instance places_tupleElement : (tupleElement self).Places .branches .branches := by
  unfold tupleElement
  infer_instance

instance places_tupleType : (tupleType self).Places .branches .branches := by
  unfold tupleType
  infer_instance

instance places_literalType : literalType.Places .branches .branches := by
  unfold literalType
  infer_instance

instance places_queried : (queried self).Places .branches .branches := by
  unfold queried
  infer_instance

instance places_importedType : importedType.Places .branches .branches := by
  unfold importedType
  infer_instance

instance places_wordType {w : String} : (wordType self w).Places .branches .branches := by
  unfold wordType
  split <;> infer_instance

instance places_primaryType : (primaryType self).Places .branches .branches := by
  unfold primaryType
  apply places_look
  intro s
  repeat' split
  all_goals infer_instance

instance places_typeOperand : (typeOperand self).Places .branches .branches := by
  unfold typeOperand
  infer_instance

instance places_operands {kind : Kind} {mark : String} {operand : Reader Unit} [Holds kind.plain]
    [operand.Places .branches .branches] : (operands kind mark operand).Places .branches .branches := by
  unfold operands
  infer_instance

instance places_unionType : (unionType self).Places .branches .branches := by
  unfold unionType
  infer_instance

instance places_type : (type self).Places .branches .branches := by
  unfold type
  infer_instance

instance places_indexSignature : (indexSignature self).Places .branches .branches := by
  unfold indexSignature
  infer_instance

instance places_methodHead : (methodHead self).Places .branches .branches := by
  unfold methodHead
  infer_instance

instance places_typeMember : (typeMember self).Places .branches .branches := by
  unfold typeMember
  infer_instance

instance places_objectTypeOf {kind : Kind} [Holds kind.plain] :
    (objectTypeOf self kind).Places m m := by
  unfold objectTypeOf
  infer_instance

/-! ### Expressions -/

/-- The reader of the binary operator that stands next. -/
theorem places_operator {s : State} {m : String} {r : Reader Unit}
    (h : (match s.word? with
      | some w => some (w, word w)
      | none => (seenMark? s).map fun m => (m, token m)) = some (m, r)) :
    r.Places .branches .branches := by
  split at h
  · obtain ⟨rfl, rfl⟩ := Prod.mk.inj (Option.some.inj h)
    infer_instance
  · obtain ⟨mark, hmark, h⟩ := Option.map_eq_some_iff.1 h
    obtain ⟨rfl, rfl⟩ := Prod.mk.inj h
    infer_instance

instance places_array : (array self).Places .branches .branches := by
  unfold array
  infer_instance

instance places_method : (method self).Places .branches .branches := by
  unfold method
  infer_instance

instance places_objectMember : (objectMember self).Places .branches .branches := by
  unfold objectMember
  infer_instance

instance places_object : (object self).Places .branches .branches := by
  unfold object
  infer_instance

instance places_parenthesized : (parenthesized self).Places m m := by
  unfold parenthesized
  infer_instance

instance places_literalOrPattern {literal : Reader Unit} [literal.Places .branches .branches] :
    (literalOrPattern self literal).Places .branches .branches := by
  unfold literalOrPattern
  infer_instance

instance places_function : (function self).Places .branches .branches := by
  unfold function
  infer_instance

instance places_arrow {between : Bool} : (arrow self between).Places .branches .branches := by
  unfold arrow
  infer_instance

instance places_arrowAhead : arrowAhead.Places .branches .branches := by
  unfold arrowAhead
  infer_instance

instance places_construction {chain : Reader Unit} [chain.Places .branches .branches] :
    (construction self chain).Places .branches .branches := by
  unfold construction
  infer_instance

instance places_wordPrimary {w : String} {chain : Reader Unit} [chain.Places .branches .branches] :
    (wordPrimary self w chain).Places .branches .branches := by
  unfold wordPrimary
  split <;> infer_instance

instance places_plainPrimary {chain : Reader Unit} [chain.Places .branches .branches] :
    (plainPrimary self chain).Places .branches .branches := by
  unfold plainPrimary
  apply places_look
  intro s
  repeat' split
  all_goals infer_instance

instance places_primary {between : Bool} {chain : Reader Unit} [chain.Places .branches .branches] :
    (primary self between chain).Places .branches .branches := by
  unfold primary
  infer_instance

instance places_memberName : memberName.Places .branches .branches := by
  unfold memberName
  infer_instance

instance places_indexed : (indexed self).Places .branches .branches := by
  unfold indexed
  infer_instance

instance places_optionalChain : optionalChain.Places .branches .branches := by
  unfold optionalChain
  infer_instance

instance places_accessTail : (accessTail self).Places .branches .branches := by
  unfold accessTail
  apply places_look
  intro s
  repeat' split
  all_goals infer_instance

instance places_callTail : (callTail self).Places .branches .branches := by
  unfold callTail
  apply places_look
  intro s
  repeat' split
  all_goals infer_instance

instance places_constructorChain {between : Bool} {n : Nat} :
    (constructorChain self between n).Places .branches .branches := by
  induction n with
  | zero =>
    unfold constructorChain
    infer_instance
  | succ n ih =>
    unfold constructorChain
    infer_instance

instance places_assignmentTail {between : Bool} :
    (assignmentTail self between).Places .branches .branches := by
  unfold assignmentTail
  refine places_andThen (m := .branches) inferInstance fun _ => places_look fun s => ?_
  split
  · infer_instance
  · next m hm =>
    split <;> infer_instance
  · infer_instance

instance places_operand {between : Bool} : (operand self between).Places .branches .branches := by
  unfold Grammar.operand
  infer_instance

instance places_prefixed {between : Bool} {kind : Kind} {operator : Reader Unit}
    [Holds kind.plain] [operator.Places .branches .branches] :
    (prefixed self between kind operator).Places .branches .branches := by
  unfold prefixed
  infer_instance

instance places_wordUnary {between : Bool} {w : String} :
    (wordUnary self between w).Places .branches .branches := by
  unfold wordUnary
  split <;> infer_instance

instance places_unary {between : Bool} : (unary self between).Places .branches .branches := by
  unfold unary
  apply places_look
  intro s
  repeat' split
  all_goals infer_instance

instance places_infixTail {between : Bool} {level : Nat} :
    (infixTail self between level).Places .branches .branches := by
  unfold infixTail
  refine places_andThen (m := .branches) inferInstance fun _ => places_look fun s => ?_
  dsimp only
  split
  · infer_instance
  · have : Reader.Places _ .branches .branches := places_operator ‹_ = some _›
    infer_instance
  · have : Reader.Places _ .branches .branches := places_operator ‹_ = some _›
    infer_instance
  · have : Reader.Places _ .branches .branches := places_operator ‹_ = some _›
    split <;> infer_instance

instance places_binary {between : Bool} {level : Nat} :
    (binary self between level).Places .branches .branches := by
  unfold binary
  infer_instance

instance places_expression {between : Bool} : (expression self between).Places .branches .branches := by
  unfold expression
  infer_instance

instance places_expressions : (expressions self).Places .branches .branches := by
  unfold expressions
  infer_instance

/-! ### Classes -/

instance places_declarationEnd : declarationEnd.Places .branches .branches := 
  places_at (f := fun s => semicolon (endsInValue s)) fun _ => inferInstance

instance places_classField : (classField self).Places .branches .branches := by
  unfold classField
  infer_instance

instance places_abstractMethod : (abstractMethod self).Places .branches .branches := by
  unfold abstractMethod
  infer_instance

instance places_staticBlock : (staticBlock self).Places .branches .branches := by
  unfold staticBlock
  infer_instance

instance places_classMember : (classMember self).Places .branches .branches := by
  unfold classMember
  infer_instance

instance places_classBody : (classBody self).Places .branches .branches := by
  unfold classBody
  infer_instance

instance places_operandChain : (heritage.operandChain self).Places .branches .branches := by
  unfold heritage.operandChain
  infer_instance

instance places_heritage : (heritage self).Places .branches .branches := by
  unfold heritage
  infer_instance

instance places_heritageClauses : (heritageClauses self).Places .branches .branches := by
  unfold heritageClauses
  infer_instance

instance places_classOf {kind : Kind} [Holds kind.plain] : (classOf self kind).Places m m := by
  unfold classOf
  infer_instance

/-! ### Declarations -/

instance places_declarator : (declarator self).Places .branches .branches := by
  unfold declarator
  infer_instance

instance places_variableDeclaration : (variableDeclaration self).Places m m := by
  unfold variableDeclaration
  infer_instance

instance places_lexicalDeclaration : (lexicalDeclaration self).Places m m := by
  unfold lexicalDeclaration
  infer_instance

instance places_functionHead : (functionHead self).Places .branches .branches := by
  unfold functionHead
  infer_instance

instance places_functionDeclaration : (functionDeclaration self).Places m m := by
  unfold functionDeclaration
  infer_instance

instance places_interfaceDeclaration : (interfaceDeclaration self).Places m m := by
  unfold interfaceDeclaration
  infer_instance

instance places_typeAlias : (typeAlias self).Places m m := by
  unfold typeAlias
  infer_instance

instance places_enumDeclaration : (enumDeclaration self).Places m m := by
  unfold enumDeclaration
  infer_instance

instance places_dottedName : dottedName.Places .branches .branches := by
  unfold dottedName
  infer_instance

instance places_namespaceOf {kind : Kind} {w : String} [Holds kind.plain] :
    (namespaceOf self kind w).Places m m := by
  unfold namespaceOf
  infer_instance

instance places_importAlias : importAlias.Places m m := by
  unfold importAlias
  infer_instance

instance places_declarationOf {w : String} [Holds m.lenient] : (declarationOf self w).Places m m := by
  unfold declarationOf
  split <;> infer_instance

instance places_declaration [Holds m.lenient] : (declaration self).Places m m := by
  unfold declaration
  apply places_look
  intro s
  repeat' split
  all_goals infer_instance

instance places_moduleName : moduleName.Places .branches .branches := by
  unfold moduleName
  infer_instance

instance places_fromClause : fromClause.Places .branches .branches := by
  unfold fromClause
  infer_instance

instance places_moduleEntry {kind : Kind} [Holds kind.textual] :
    (moduleEntry kind).Places .branches .branches := by
  unfold moduleEntry
  infer_instance

instance places_moduleEntries {list entry : Kind} [Holds list.plain] [Holds entry.textual] :
    (moduleEntries list entry).Places .branches .branches := by
  unfold moduleEntries
  infer_instance

instance places_importClause : importClause.Places .branches .branches := by
  unfold importClause
  infer_instance

instance places_importAttribute : (importAttribute self).Places .branches .branches := by
  unfold importAttribute
  infer_instance

instance places_importStatement : (importStatement self).Places m m := by
  unfold importStatement
  infer_instance

instance places_defaultExport : (defaultExport self).Places .branches .branches := by
  unfold defaultExport
  infer_instance

instance places_exportStatement : (exportStatement self).Places m m := by
  unfold exportStatement
  infer_instance

/-! ### Statements -/

instance places_headDone : headDone.Places m m := by
  constructor
  rintro s a t ⟨⟩
  exact id

instance places_conditionIn {role : Role} [Holds (Role.loose (some role))] :
    (conditionIn self role).Places m m := by
  unfold conditionIn
  infer_instance

instance places_emptyStatement : emptyStatement.Places m m := by
  unfold emptyStatement
  infer_instance

instance places_block [Holds m.lenient] : (block self).Places m m := by
  unfold block
  exact places_at fun s => inferInstance

instance places_expressionStatement : (expressionStatement self).Places m m := by
  unfold expressionStatement
  infer_instance

instance places_ifStatement : (ifStatement self).Places .nothing .nothing := by
  unfold ifStatement
  infer_instance

instance places_caseBody : (caseBody self).Places .nothing .nothing := by
  unfold caseBody
  infer_instance

instance places_switchStatement : (switchStatement self).Places m m := by
  unfold switchStatement
  infer_instance

instance places_loopTarget : (loopTarget self).Places .branches .branches := by
  unfold loopTarget
  infer_instance

instance places_forInStatement : (forInStatement self).Places .nothing .nothing := by
  unfold forInStatement
  infer_instance

instance places_forStatement : (forStatement self).Places .nothing .nothing := by
  unfold forStatement
  infer_instance

instance places_whileStatement : (whileStatement self).Places .nothing .nothing := by
  unfold whileStatement
  infer_instance

instance places_doStatement : (doStatement self).Places .nothing .nothing := by
  unfold doStatement
  infer_instance

instance places_jump {kind : Kind} {w : String} [Holds kind.plain] :
    (jump kind w).Places m m := by
  unfold jump
  infer_instance

instance places_returnStatement : (returnStatement self).Places m m := by
  unfold returnStatement
  infer_instance

instance places_throwStatement : (throwStatement self).Places m m := by
  unfold throwStatement
  infer_instance

instance places_tryStatement : (tryStatement self).Places m m := by
  unfold tryStatement
  infer_instance

instance places_labeledStatement : (labeledStatement self).Places .nothing .nothing := by
  unfold labeledStatement
  infer_instance

instance places_objectAhead : objectAhead.Places m m := by
  unfold objectAhead
  infer_instance

instance places_labelAhead : labelAhead.Places m m := by
  unfold labelAhead
  infer_instance

instance places_bracedStatement : (bracedStatement self).Places .nothing .nothing := by
  unfold bracedStatement
  infer_instance

instance places_looseStatement : (looseStatement self).Places .nothing .nothing := by
  unfold looseStatement
  infer_instance

instance places_wordStatement {w : String} : (wordStatement self w).Places .nothing .nothing := by
  unfold wordStatement
  split <;> infer_instance

instance places_statement : (statement self).Places .nothing .nothing := by
  unfold statement
  refine @places_within _ _ _ _ _ _ (places_look fun s => ?_)
  repeat' split
  all_goals infer_instance

instance places_program : (program self).Places .nothing .nothing := by
  unfold program
  infer_instance

end


/-! ### The family over itself -/

instance places_rules {self : Rules} [self.Places] : (rules self).Places where
  places g hg hm := by
    cases g with
    | classOf kind =>
      have : Holds kind.plain := ⟨hg⟩
      exact places_classOf
    | objectTypeOf kind =>
      have : Holds kind.plain := ⟨hg⟩
      exact places_objectTypeOf
    | statement => simp at hm
    | _ =>
      unfold rules
      infer_instance
  statement := places_statement
  classOf hk := by
    have := Holds.mk hk
    exact places_classOf
  objectTypeOf hk := by
    have := Holds.mk hk
    exact places_objectTypeOf

/-- The readers of the grammar keep statements in place. -/
instance places_upTo : ∀ n : Nat, (upTo n).Places := by
  intro n
  induction n with
  | zero =>
    exact ⟨fun _ _ _ => places_refuse, places_refuse, fun _ => places_refuse, fun _ => places_refuse⟩
  | succ n ih => exact places_rules

end Grammar

/-! ### Sources -/

theorem placed_readWith {patches : List Patch} {text : Chars} {root : Tree}
    (h : readWith patches text = .finished root) : root.Placed := by
  simp only [readWith] at h
  split at h
  · simp at h
  · next a s hs =>
    split at h
    · obtain rfl := Reading.finished.inj h
      have hout := settled_flush (Grammar.places_program.settled hs (List.forall_mem_nil _))
      exact Tree.placed_node (fun t ht => (hout t (List.mem_reverse.1 ht)).2) fun t ht =>
        (hout t (List.mem_reverse.1 ht)).1
    · simp at h

/-- **In every source branches and loops stand where statements stand.** -/
theorem placed_of_parse {text : String} {s : Source} (h : Source.parse text = .ok s) :
    s.root.Placed := by
  obtain ⟨rfl, hc⟩ := Source.parse_eq_ok h
  rcases ofText_cases hc with ⟨patches, h⟩ | h
  · exact placed_readWith h
  · show (Tree.ofText _).Placed
    rw [h]
    exact Tree.placed_node (fun t ht => by simp at ht) fun t ht => by simp at ht

end FlowAnalysis.Syntax
