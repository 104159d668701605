import FlowAnalysis.Proofs.Syntax.Combinators

/-!
# The grammar lays out

Every reader of the grammar lays out what it reads, so every reader of the family does.

## Main results

* `lays_upTo` — the readers of the grammar lay out what they read.
-/

namespace FlowAnalysis.Syntax

/-- Whether the nodes of a construct whose kind is given may have any parts. -/
@[reducible] def Goal.ordinary : Goal → Bool
  | classOf kind => kind.ordinary
  | objectTypeOf kind => kind.ordinary
  | _ => true

/-- A family of readers that lay out what they read. -/
class Rules.Lays (family : Rules) : Prop where
  lays : ∀ g : Goal, g.ordinary → (family g).Lays .adds false

instance lays_goal {self : Rules} [hself : self.Lays] {g : Goal} [hg : Holds g.ordinary] :
    (self g).Lays .adds false :=
  hself.lays g hg.holds

namespace Grammar

open Reader Lexeme

-- Instance search goes through whole readers of the grammar.
set_option synthInstance.maxSize 100000

variable {straight : Bool}

/-! ### Literals -/

instance lays_stringFragment {quote : Char} : (stringFragment quote).Lays .adds straight := by
  have : Forward fun text i =>
      let j := runEnd text
        (fun c => isPlain c && c ≠ quote && c ≠ '\\' && c ≠ '\r' && c ≠ '\n') i
      if i < j then some j else none := ⟨by
    intro text i j h
    simp only at h
    split at h <;> simp_all⟩
  unfold stringFragment
  infer_instance

instance lays_escape : escape.Lays .adds straight := by
  have : Forward fun text i => if text[i]? = some '\\' then escapeEnd? text i else none := ⟨by
    intro text i j h
    split at h
    · exact lt_escapeEnd? h
    · simp at h⟩
  unfold escape
  infer_instance

instance lays_quoted {quote : Char} : (quoted quote).Lays .adds straight := by
  unfold quoted
  infer_instance

instance lays_string : string.Lays .adds straight := by
  unfold string
  infer_instance

instance lays_number : number.Lays .adds straight := by
  unfold number
  infer_instance

instance lays_templateChars : templateChars.Lays .adds straight := by
  have : Forward fun text i => (templateRest? text (text.size - i) i).filter (i < ·) := ⟨by
    intro text i j h
    simpa using (Option.filter_eq_some_iff.1 h).2⟩
  unfold templateChars
  infer_instance

instance lays_regex : regex.Lays .adds straight := by
  have : Forward fun text i =>
      let j := runEnd text (fun c => 'a' ≤ c && c ≤ 'z') i
      if i < j then some j else none := ⟨by
    intro text i j h
    simp only at h
    split at h <;> simp_all⟩
  unfold regex
  infer_instance

instance lays_privateName : privateName.Lays .adds straight := by
  have : Forward fun text i => if text[i]? = some '#' then wordEnd? text (i + 1) else none := ⟨by
    intro text i j h
    split at h
    · exact Nat.lt_of_succ_lt (lt_wordEnd? h)
    · simp at h⟩
  unfold privateName
  infer_instance

instance lays_identifier : identifier.Lays .adds straight := by
  unfold identifier
  infer_instance

/-! ### The family -/

section

variable {self : Rules} [self.Lays]

instance lays_templateOf {kind part : Kind} {inside : Reader Unit} [Holds kind.ordinary]
    [Holds part.ordinary] [inside.Lays .adds false] : (templateOf kind part inside).Lays .adds false := by
  unfold templateOf substitution
  infer_instance

instance lays_template : (template self).Lays .adds false := by
  unfold template
  infer_instance

instance lays_propertyName : (propertyName self).Lays .adds false := by
  unfold propertyName
  infer_instance

instance valueless_propertyName : Valueless (propertyName self) := by
  unfold propertyName privateName string quoted number
  infer_instance

instance lays_modifierWhen {behind : State → Bool} {w : String} : (modifierWhen behind w).Lays .keeps false := by
  unfold modifierWhen
  infer_instance

instance lays_modifier {w : String} : (modifier w).Lays .keeps false := by
  unfold modifier
  infer_instance

instance lays_accessibility {behind : State → Bool} : (accessibility behind).Lays .keeps false := by
  unfold accessibility modifierNode
  infer_instance

instance lays_overriding {behind : State → Bool} : (overriding behind).Lays .keeps false := by
  unfold overriding
  infer_instance

instance lays_typeAscription : (typeAscription self).Lays .adds false := by
  unfold typeAscription
  infer_instance

instance lays_optionalType : (optionalType self).Lays .keeps false := by
  unfold optionalType
  infer_instance

instance lays_equalsSign : equalsSign.Lays .adds false := by
  unfold equalsSign
  infer_instance

instance lays_initializer : (initializer self).Lays .adds false := by
  unfold initializer
  infer_instance

instance lays_typeArguments : (typeArguments self).Lays .adds false := by
  unfold typeArguments
  infer_instance

instance lays_spread : (spread self).Lays .adds false := by
  unfold spread
  infer_instance

instance lays_arguments : (arguments self).Lays .adds false := by
  unfold arguments
  infer_instance

instance lays_decoration : (decoration self).Lays .adds false := by
  unfold decoration
  infer_instance

instance lays_decorator : (decorator self).Lays .adds false := by
  unfold decorator
  infer_instance

instance lays_decorators : (decorators self).Lays .keeps false := by
  unfold decorators
  infer_instance

/-! ### Patterns -/

instance lays_defaultValue : (defaultValue self).Lays .adds false := by
  unfold defaultValue
  infer_instance

instance lays_patternWithDefault : (patternWithDefault self).Lays .adds false := by
  unfold patternWithDefault
  infer_instance

instance lays_restPattern : (restPattern self).Lays .adds false := by
  unfold restPattern
  infer_instance

instance lays_objectPatternElement : (objectPatternElement self).Lays .adds false := by
  unfold objectPatternElement
  infer_instance

instance lays_destructuring : (destructuring self).Lays .adds false := by
  unfold destructuring
  infer_instance

instance lays_bindingName : (bindingName self).Lays .adds false := by
  unfold bindingName
  infer_instance

instance lays_pattern : (pattern self).Lays .adds false := by
  unfold pattern
  infer_instance

/-! ### Types -/

instance lays_typeName : typeName.Lays .adds straight := by
  apply Lays.relax
  unfold typeName
  infer_instance

/-- The name of a type with arguments has been read before them. -/
instance lays_namedType : (namedType self).Lays .adds false := by
  constructor
  intro s a u h
  obtain ⟨_, t, ht, hu⟩ := andThen_eq_done h
  have hname : State.Leads .adds false s t := lays_typeName.leads ht
  have hstraight : State.Leads .adds true s t := lays_typeName.leads ht
  obtain ⟨zs, hzs, hsolid, hst, _⟩ := hstraight.added nofun
  obtain ⟨first, rest, hout, hfirst⟩ : ∃ first rest, t.out = first :: rest ∧ first.straight := by
    cases zs with
    | nil => exact absurd (hsolid rfl) not_solid_nil
    | cons z zs => exact ⟨z, zs ++ s.out, hzs, (Bool.and_eq_true_iff.1 (hst rfl)).1⟩
  unfold maybe orElse at hu
  split at hu
  · next b v hv =>
    obtain ⟨-, rfl⟩ := Reply.done.inj hu
    have harguments : State.Leads .grows false t v := by
      unfold wrap at hv
      simp only [hout] at hv
      split at hv
      · next w hr =>
        obtain ⟨-, rfl⟩ := Reply.done.inj hv
        have hinside : State.Leads .keeps false _ w := lays_keeps.leads hr
        refine State.leads_wrap hout hinside nofun ⟨rfl, rfl, rfl⟩ ⟨rfl, rfl, rfl⟩ rfl
          fun ts _ _ => ?_
        rw [formed_titled rfl, List.find?_cons_of_pos (by simp [Tree.withRole])]
        rintro y ⟨⟩
        simpa using hfirst
      · simp at hv
    exact hname.trans harguments nofun (fun _ => .inl rfl) (fun _ => .inl rfl)
  · obtain ⟨-, rfl⟩ := Reply.done.inj hu
    exact State.leads_congr hname ⟨rfl, rfl, rfl⟩ ⟨rfl, rfl, rfl⟩

instance lays_typeParameter : (typeParameter self).Lays .adds false := by
  unfold typeParameter
  infer_instance

instance lays_typeParameters : (typeParameters self).Lays .adds false := by
  unfold typeParameters
  infer_instance

instance lays_typePredicate : (typePredicate self).Lays .adds false := by
  unfold typePredicate
  infer_instance

instance lays_asserts : (asserts self).Lays .adds false := by
  unfold asserts
  infer_instance

instance lays_resultType : (resultType self).Lays .adds false := by
  unfold resultType
  infer_instance

instance lays_parameter : (parameter self).Lays .adds false := by
  unfold parameter
  infer_instance

instance lays_parameters : (parameters self).Lays .adds false := by
  unfold parameters
  infer_instance

instance lays_signature : (signature self).Lays .adds false := by
  unfold signature
  infer_instance

instance lays_functionType : (functionType self).Lays .adds false := by
  unfold functionType
  infer_instance

instance lays_constructorType : (constructorType self).Lays .adds false := by
  unfold constructorType
  infer_instance

instance lays_parenthesizedType : (parenthesizedType self).Lays .adds false := by
  unfold parenthesizedType
  infer_instance

instance lays_tupleElement : (tupleElement self).Lays .adds false := by
  unfold tupleElement
  infer_instance

instance lays_tupleType : (tupleType self).Lays .adds false := by
  unfold tupleType
  infer_instance

instance lays_literalType : literalType.Lays .adds straight := by
  unfold literalType
  infer_instance

instance lays_queried : (queried self).Lays .adds false := by
  unfold queried
  infer_instance

instance lays_importedType : importedType.Lays .adds false := by
  unfold importedType
  infer_instance

instance lays_wordType {w : String} : (wordType self w).Lays .adds false := by
  unfold wordType
  split <;> infer_instance

instance lays_primaryType : (primaryType self).Lays .adds false := by
  have : Forward fun _ i => some (i + 1) := ⟨by simp_all⟩
  unfold primaryType
  apply lays_look
  intro s
  repeat' split
  all_goals infer_instance

instance lays_typeOperand : (typeOperand self).Lays .adds false := by
  unfold typeOperand
  infer_instance

instance lays_operands {kind : Kind} {mark : String} {operand : Reader Unit} [Holds kind.ordinary]
    [Mark mark] [operand.Lays .adds false] : (operands kind mark operand).Lays .adds false := by
  unfold operands
  infer_instance

instance lays_unionType : (unionType self).Lays .adds false := by
  unfold unionType
  infer_instance

instance lays_type : (type self).Lays .adds false := by
  unfold type
  infer_instance

instance lays_indexSignature : (indexSignature self).Lays .adds false := by
  unfold indexSignature
  infer_instance

instance lays_methodHead : (methodHead self).Lays .adds false := by
  unfold methodHead
  infer_instance

instance lays_typeMember : (typeMember self).Lays .adds false := by
  unfold typeMember
  infer_instance

instance lays_objectTypeOf {kind : Kind} [Holds kind.ordinary] : (objectTypeOf self kind).Lays .adds false := by
  unfold objectTypeOf
  infer_instance

/-! ### Expressions -/

theorem mark_of_seenMark? {s : State} {mark : String} (h : seenMark? s = some mark) : Mark mark :=
  ⟨(by decide : ∀ m ∈ operatorMarks, 0 < m.length) mark (List.mem_of_find?_eq_some h)⟩

/-- The reader of the binary operator that stands next. -/
theorem lays_operator {s : State} {m : String} {r : Reader Unit}
    (h : (match s.word? with
      | some w => some (w, word w)
      | none => (seenMark? s).map fun m => (m, token m)) = some (m, r)) :
    r.Lays .adds straight := by
  split at h
  · obtain ⟨rfl, rfl⟩ := Prod.mk.inj (Option.some.inj h)
    infer_instance
  · obtain ⟨mark, hmark, h⟩ := Option.map_eq_some_iff.1 h
    obtain ⟨rfl, rfl⟩ := Prod.mk.inj h
    have := mark_of_seenMark? hmark
    infer_instance

instance lays_array : (array self).Lays .adds false := by
  unfold array
  infer_instance

instance lays_method : (method self).Lays .adds false := by
  unfold method
  infer_instance

instance lays_objectMember : (objectMember self).Lays .adds false := by
  unfold objectMember
  infer_instance

instance lays_object : (object self).Lays .adds false := by
  unfold object
  infer_instance

instance lays_parenthesized : (parenthesized self).Lays .adds false := by
  unfold parenthesized
  infer_instance

instance lays_literalOrPattern {literal : Reader Unit} [literal.Lays .adds false] : (literalOrPattern self literal).Lays .adds false := by
  unfold literalOrPattern
  infer_instance

instance lays_function : (function self).Lays .adds false := by
  unfold function
  infer_instance

instance lays_arrow {between : Bool} : (arrow self between).Lays .adds false := by
  unfold arrow
  infer_instance

instance lays_arrowAhead : arrowAhead.Lays .keeps false := by
  unfold arrowAhead
  infer_instance

instance lays_construction {chain : Reader Unit} [chain.Lays .adds false] : (construction self chain).Lays .adds false := by
  unfold construction
  infer_instance

instance lays_wordPrimary {w : String} {chain : Reader Unit} [chain.Lays .adds false] : (wordPrimary self w chain).Lays .adds false := by
  unfold wordPrimary
  split <;> infer_instance

instance lays_plainPrimary {chain : Reader Unit} [chain.Lays .adds false] : (plainPrimary self chain).Lays .adds false := by
  unfold plainPrimary
  apply lays_look
  intro s
  repeat' split
  all_goals infer_instance

instance lays_primary {between : Bool} {chain : Reader Unit} [chain.Lays .adds false] :
    (primary self between chain).Lays .adds false := by
  unfold primary
  infer_instance

instance lays_memberName : memberName.Lays .adds straight := by
  unfold memberName
  infer_instance

instance lays_indexed : (indexed self).Lays .adds false := by
  unfold indexed
  infer_instance

instance lays_optionalChain : optionalChain.Lays .adds straight := by
  have : Forward fun text i =>
      if hasAt text ['?', '.'] i && !(text[i + 2]?).any Char.isDigit then some (i + 2)
      else none := ⟨by
    intro text i j h
    split at h <;> simp_all
    omega⟩
  unfold optionalChain
  infer_instance

instance lays_accessTail : (accessTail self).Lays .grows false := by
  unfold accessTail
  apply lays_look
  intro s
  repeat' split
  all_goals infer_instance

instance lays_callTail : (callTail self).Lays .grows false := by
  unfold callTail
  apply lays_look
  intro s
  repeat' split
  all_goals infer_instance

instance lays_constructorChain {between : Bool} {n : Nat} :
    (constructorChain self between n).Lays .adds false := by
  induction n with
  | zero =>
    unfold constructorChain
    infer_instance
  | succ n ih =>
    unfold constructorChain
    infer_instance

instance lays_assignmentTail {between : Bool} :
    (assignmentTail self between).Lays .grows false := by
  unfold assignmentTail
  refine @lays_bind_grows _ _ _ _ _ inferInstance fun _ => lays_look fun s => ?_
  split
  · infer_instance
  · next m hm =>
    have := mark_of_seenMark? hm
    split <;> infer_instance
  · infer_instance

instance lays_operand {between : Bool} : (operand self between).Lays .adds false := by
  unfold Grammar.operand
  infer_instance

instance lays_prefixed {between : Bool} {kind : Kind} {operator : Reader Unit}
    [Holds kind.ordinary] [operator.Lays .adds false] :
    (prefixed self between kind operator).Lays .adds false := by
  unfold prefixed
  infer_instance

instance lays_wordUnary {between : Bool} {w : String} :
    (wordUnary self between w).Lays .adds false := by
  unfold wordUnary
  split <;> infer_instance

instance lays_unary {between : Bool} : (unary self between).Lays .adds false := by
  unfold unary
  apply lays_look
  intro s
  repeat' split
  all_goals infer_instance

instance lays_infixTail {between : Bool} {level : Nat} :
    (infixTail self between level).Lays .grows false := by
  unfold infixTail
  refine @lays_bind_grows _ _ _ _ _ inferInstance fun _ => lays_look fun s => ?_
  dsimp only
  split
  · infer_instance
  · have : Reader.Lays _ .adds false := lays_operator ‹_ = some _›
    infer_instance
  · have : Reader.Lays _ .adds false := lays_operator ‹_ = some _›
    infer_instance
  · have : Reader.Lays _ .adds false := lays_operator ‹_ = some _›
    split <;> infer_instance

instance lays_binary {between : Bool} {level : Nat} :
    (binary self between level).Lays .adds false := by
  unfold binary
  infer_instance

instance lays_expression {between : Bool} : (expression self between).Lays .adds false := by
  unfold expression
  infer_instance

instance lays_expressions : (expressions self).Lays .adds false := by
  unfold expressions
  infer_instance

/-! ### Classes -/

instance lays_declarationEnd : declarationEnd.Lays .keeps false := 
  lays_at (f := fun s => semicolon (endsInValue s)) fun _ => inferInstance

instance lays_classField : (classField self).Lays .adds false := by
  unfold classField
  infer_instance

instance lays_abstractMethod : (abstractMethod self).Lays .adds false := by
  unfold abstractMethod
  infer_instance

instance lays_staticBlock : (staticBlock self).Lays .adds false := by
  unfold staticBlock
  infer_instance

instance lays_classMember : (classMember self).Lays .adds false := by
  unfold classMember
  infer_instance

instance lays_classBody : (classBody self).Lays .adds false := by
  unfold classBody
  infer_instance

instance lays_operandChain : (heritage.operandChain self).Lays .adds false := by
  unfold heritage.operandChain
  infer_instance

instance lays_heritage : (heritage self).Lays .adds false := by
  unfold heritage
  infer_instance

instance lays_heritageClauses : (heritageClauses self).Lays .adds false := by
  unfold heritageClauses
  infer_instance

instance lays_classOf {kind : Kind} [Holds kind.ordinary] : (classOf self kind).Lays .adds false := by
  unfold classOf
  infer_instance

/-! ### Declarations -/

instance lays_declarator : (declarator self).Lays .adds false := by
  unfold declarator
  infer_instance

instance lays_variableDeclaration : (variableDeclaration self).Lays .adds false := by
  unfold variableDeclaration
  infer_instance

instance lays_lexicalDeclaration : (lexicalDeclaration self).Lays .adds false := by
  unfold lexicalDeclaration
  infer_instance

instance lays_functionHead : (functionHead self).Lays .adds false := by
  unfold functionHead
  infer_instance

instance lays_functionDeclaration : (functionDeclaration self).Lays .adds false := by
  unfold functionDeclaration
  infer_instance

instance lays_interfaceDeclaration : (interfaceDeclaration self).Lays .adds false := by
  unfold interfaceDeclaration
  infer_instance

instance lays_typeAlias : (typeAlias self).Lays .adds false := by
  unfold typeAlias
  infer_instance

instance lays_enumDeclaration : (enumDeclaration self).Lays .adds false := by
  unfold enumDeclaration
  infer_instance

instance lays_dottedName : dottedName.Lays .adds false := by
  unfold dottedName
  infer_instance

instance lays_namespaceOf {kind : Kind} {w : String} [Holds kind.ordinary] : (namespaceOf self kind w).Lays .adds false := by
  unfold namespaceOf
  infer_instance

instance lays_importAlias : importAlias.Lays .adds false := by
  unfold importAlias
  infer_instance

instance lays_declarationOf {w : String} : (declarationOf self w).Lays .adds false := by
  unfold declarationOf
  split <;> infer_instance

instance lays_declaration : (declaration self).Lays .adds false := by
  unfold declaration
  apply lays_look
  intro s
  repeat' split
  all_goals infer_instance

instance lays_moduleName : moduleName.Lays .adds straight := by
  unfold moduleName
  infer_instance

instance lays_fromClause : fromClause.Lays .adds false := by
  unfold fromClause
  infer_instance

instance lays_moduleEntry {kind : Kind} [Holds kind.textual] : (moduleEntry kind).Lays .adds false := by
  unfold moduleEntry
  infer_instance

instance lays_moduleEntries {list entry : Kind} [Holds list.ordinary] [Holds entry.textual] : (moduleEntries list entry).Lays .adds false := by
  unfold moduleEntries
  infer_instance

instance lays_importClause : importClause.Lays .adds false := by
  unfold importClause
  infer_instance

instance lays_importAttribute : (importAttribute self).Lays .keeps false := by
  unfold importAttribute
  infer_instance

instance lays_importStatement : (importStatement self).Lays .adds false := by
  unfold importStatement
  infer_instance

instance lays_defaultExport : (defaultExport self).Lays .adds false := by
  unfold defaultExport
  infer_instance

instance lays_exportStatement : (exportStatement self).Lays .adds false := by
  unfold exportStatement
  infer_instance

/-! ### Statements -/

instance lays_headDone : headDone.Lays .keeps false := by
  constructor
  rintro s a t ⟨⟩
  exact State.leads_congr (.refl s) ⟨rfl, rfl, rfl⟩ ⟨rfl, rfl, rfl⟩

instance lays_conditionIn {role : Role} : (conditionIn self role).Lays .adds false := by
  unfold conditionIn
  infer_instance

instance lays_emptyStatement : emptyStatement.Lays .adds false := by
  unfold emptyStatement
  infer_instance

instance lays_block : (block self).Lays .adds false := by
  unfold block
  exact lays_at fun s => inferInstance

instance lays_expressionStatement : (expressionStatement self).Lays .adds false := by
  unfold expressionStatement
  infer_instance

instance lays_ifStatement : (ifStatement self).Lays .adds false := by
  unfold ifStatement
  infer_instance

instance lays_caseBody : (caseBody self).Lays .keeps false := by
  unfold caseBody
  infer_instance

instance lays_switchStatement : (switchStatement self).Lays .adds false := by
  unfold switchStatement
  infer_instance

instance lays_loopTarget : (loopTarget self).Lays .adds false := by
  unfold loopTarget
  infer_instance

instance lays_forInStatement : (forInStatement self).Lays .adds false := by
  unfold forInStatement
  infer_instance

instance lays_forStatement : (forStatement self).Lays .adds false := by
  unfold forStatement
  infer_instance

instance lays_whileStatement : (whileStatement self).Lays .adds false := by
  unfold whileStatement
  infer_instance

instance lays_doStatement : (doStatement self).Lays .adds false := by
  unfold doStatement
  infer_instance

instance lays_jump {kind : Kind} {w : String} [Holds kind.ordinary] : (jump kind w).Lays .adds false := by
  unfold jump
  infer_instance

instance lays_returnStatement : (returnStatement self).Lays .adds false := by
  unfold returnStatement
  infer_instance

instance lays_throwStatement : (throwStatement self).Lays .adds false := by
  unfold throwStatement
  infer_instance

instance lays_tryStatement : (tryStatement self).Lays .adds false := by
  unfold tryStatement
  infer_instance

instance lays_labeledStatement : (labeledStatement self).Lays .adds false := by
  unfold labeledStatement
  infer_instance

instance lays_objectAhead : objectAhead.Lays .keeps false := by
  unfold objectAhead
  infer_instance

instance lays_labelAhead : labelAhead.Lays .keeps false := by
  unfold labelAhead
  infer_instance

instance lays_bracedStatement : (bracedStatement self).Lays .adds false := by
  unfold bracedStatement
  infer_instance

instance lays_looseStatement : (looseStatement self).Lays .adds false := by
  unfold looseStatement
  infer_instance

instance lays_wordStatement {w : String} : (wordStatement self w).Lays .adds false := by
  unfold wordStatement
  split <;> infer_instance

instance lays_statement : (statement self).Lays .adds false := by
  unfold statement
  refine @lays_within _ _ _ _ _ _ (lays_look fun s => ?_)
  repeat' split
  all_goals infer_instance

instance lays_program : (program self).Lays .keeps false := by
  have : Forward fun text i =>
      if hasAt text ['#', '!'] i then some (runEnd text (fun c => isPlain c && c ≠ '\n') i)
      else none := ⟨by
    intro text i j h
    split at h
    · next hmark =>
      simp only [hasAt, Bool.and_eq_true, decide_eq_true_eq] at hmark
      exact Option.some.inj h ▸ lt_runEnd hmark.1 (by decide)
    · simp at h⟩
  unfold program
  infer_instance

end

/-! ### The family over itself -/

instance lays_rules {self : Rules} [self.Lays] : (rules self).Lays := by
  constructor
  intro g hg
  cases g with
  | classOf kind =>
    have : Holds kind.ordinary := ⟨hg⟩
    exact lays_classOf
  | objectTypeOf kind =>
    have : Holds kind.ordinary := ⟨hg⟩
    exact lays_objectTypeOf
  | _ =>
    unfold rules
    infer_instance

/-- The readers of the grammar lay out what they read. -/
instance lays_upTo : ∀ n : Nat, (upTo n).Lays := by
  intro n
  induction n with
  | zero => exact ⟨fun _ _ => lays_refuse⟩
  | succ n ih => exact lays_rules

end Grammar

end FlowAnalysis.Syntax
