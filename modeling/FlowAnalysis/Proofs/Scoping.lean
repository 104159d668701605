import FlowAnalysis.Proofs.Syntax.Nodes
import FlowAnalysis.Types.Payload

/-!
# The scopes of the payload

A name that is bound again inside the entry method means something else there.  The check leaves out
the nodes in which it sees the name of the payload bound again.  What it sees are names that are bound
by being written down: patterns, the cases of a switch and generators escape it, and it mistakes a
loop over a collection that assigns to the payload, and a variable of the whole function, for a new
binding.  Where none of these is met, it follows the scopes exactly.

## Main definitions

* `Flow.bindsIn` — a pattern binds a name.
* `Flow.opens` — a node opens a scope in which a name is bound.
* `Flow.Means` — the name means at a node what it means at another one around it.
* `Flow.plain` — a node binds a name in no way that escapes the check or is mistaken by it.

## Main results

* `Flow.shadows_eq_opens` — the check sees a plain binding.
* `Flow.mem_walkBelow_iff` — the check looks at a reading node if the name means the payload there.
* `Flow.mem_checkPayload_iff` — **the check follows the scopes where bindings are plain.**
-/

namespace FlowAnalysis

open Syntax

namespace Flow

/-! ### Bindings -/

mutual

/-- Whether a pattern binds a name: it is the name, or one of its parts that take a value binds it. -/
def bindsIn (f : Flow) (name : String) : Tree → Bool
  | .node l r span ts =>
    match l with
    | .rule .identifier | .rule .typeIdentifier | .rule .shorthandPropertyIdentifierPattern =>
      f.textOf (.node l r span ts) = name
    | .rule .objectPattern | .rule .arrayPattern | .rule .restPattern => bindsAmong f name none ts
    | .rule .pairPattern => bindsAmong f name (some .value) ts
    | .rule .assignmentPattern | .rule .objectAssignmentPattern =>
      bindsAmong f name (some .left) ts
    | _ => false

/-- Whether one of some patterns binds a name; where a role is given, only those in it count. -/
def bindsAmong (f : Flow) (name : String) (role : Option Role) : List Tree → Bool
  | [] => false
  | t :: ts => (role.isNone || t.role = role) && bindsIn f name t || bindsAmong f name role ts

end

/-- The pattern of a parameter. -/
def parameterPattern (p : Tree) : Tree := (p.field? .pattern).getD p

/-- The patterns that a declaration binds in the block around it. -/
def declared (d : Tree) : List Tree :=
  if d.is .lexicalDeclaration then
    (d.named.filter (·.is .variableDeclarator)).filterMap (·.field? .name)
  else if d.isAny [.functionDeclaration, .generatorFunctionDeclaration, .classDeclaration,
      .abstractClassDeclaration] then
    (d.field? .name).toList
  else []

/-- The pattern that a loop over a collection declares. -/
def loopDeclared (t : Tree) : List Tree :=
  if (t.field? .kind).any fun k => !k.isToken "var" then (t.field? .left).toList else []

/-- The patterns that a node binds in the scope that it opens. -/
def binders (t : Tree) : List Tree :=
  if t.isFunctionLike then (parametersOf t).map parameterPattern
  else if t.is .statementBlock then t.named.flatMap declared
  else if t.is .switchBody then t.named.flatMap fun c => c.named.flatMap declared
  else if t.is .catchClause then (t.field? .parameter).toList
  else if t.is .forInStatement then loopDeclared t
  else if t.is .forStatement then (t.field? .initializer).toList.flatMap declared
  else []

/-- Whether a node opens a scope in which a name is bound. -/
def opens (f : Flow) (name : String) (t : Tree) : Bool := (binders t).any (f.bindsIn name)

/-- Whether a node binds a name anew for one of its children.  The name of a function stands outside
the scope that the function opens. -/
def hides (f : Flow) (name : String) (t c : Tree) : Bool :=
  f.opens name t && !(t.isFunctionLike && decide (c.role = some .name))

/-- A name means at a node what it means at another one around it: on the way down to the node it is
not bound anew. -/
inductive Means (f : Flow) (name : String) : Tree → Tree → Prop
  /-- At the node itself. -/
  | here (t : Tree) : Means f name t t
  /-- Below a child for which the name is not bound anew. -/
  | down {t c u : Tree} (hc : c ∈ t.children) (hides : f.hides name t c = false)
    (h : Means f name c u) : Means f name t u

/-! ### Plain bindings -/

/-- Whether a pattern binds a name only by being the name. -/
def plainPattern (f : Flow) (name : String) (q : Tree) : Bool :=
  !f.bindsIn name q || q.isAny [.identifier, .typeIdentifier]

/-- Whether a declaration binds a name in no way that escapes the check or is mistaken by it. -/
def plainDeclaration (f : Flow) (name : String) (d : Tree) : Bool :=
  if d.isAny [.variableDeclaration, .generatorFunctionDeclaration, .abstractClassDeclaration] then
    !f.declares name d && !(declared d).any (f.bindsIn name)
  else (declared d).all (f.plainPattern name)

/-- Whether a name is not read in the name of a function. -/
def plainTitle (f : Flow) (name : String) (t : Tree) : Bool :=
  (t.children.filter fun c => decide (c.role = some .name)).all fun c =>
    c.nodes.all fun n => (f.reads name n).isEmpty

/-- Whether a node binds a name in no way that escapes the check or is mistaken by it. -/
def plain (f : Flow) (name : String) (t : Tree) : Bool :=
  if t.isFunctionLike then
    ((parametersOf t).all fun p =>
      !f.bindsIn name (parameterPattern p) || (parameterPattern p).is .identifier) &&
      (!f.opens name t || f.plainTitle name t)
  else if t.is .statementBlock then t.named.all (f.plainDeclaration name)
  else if t.is .switchBody then !t.named.any (f.declares name) && !f.opens name t
  else if t.is .catchClause then (t.field? .parameter).all (f.plainPattern name)
  else if t.is .forInStatement then
    (t.field? .left).all fun q =>
      f.plainPattern name q && (!f.bindsIn name q || (t.field? .kind).any fun k => !k.isToken "var")
  else if t.is .forStatement then (t.field? .initializer).all (f.plainDeclaration name)
  else true

theorem bindsIn_of_isAny {f : Flow} {name : String} {q : Tree}
    (h : q.isAny [.identifier, .typeIdentifier]) : f.bindsIn name q = decide (f.textOf q = name) := by
  obtain ⟨k, hk, hq⟩ := Tree.isAny_iff.1 h
  obtain ⟨l, r, span, ts⟩ := q
  obtain rfl : l = .rule k := hq
  simp only [List.mem_cons, List.not_mem_nil, or_false] at hk
  rcases hk with rfl | rfl <;> rw [bindsIn]

/-- The check sees a name that is bound by being written down. -/
theorem bindsName_some {f : Flow} {name : String} {q : Tree} (h : f.plainPattern name q) :
    f.bindsName name (some q) = f.bindsIn name q := by
  rw [bindsName, Option.any_some]
  by_cases hq : q.isAny [.identifier, .typeIdentifier]
  · rw [hq, bindsIn_of_isAny hq, Bool.true_and]
  · rw [Bool.eq_false_iff.2 hq, Bool.false_and]
    simpa [plainPattern, hq] using h

theorem any_toList (p : Tree → Bool) (o : Option Tree) : o.toList.any p = o.any p := by
  cases o <;> simp

theorem bindsName_eq {f : Flow} {name : String} {o : Option Tree}
    (h : o.all (f.plainPattern name)) : f.bindsName name o = o.any (f.bindsIn name) := by
  cases o with
  | none => rfl
  | some q => exact bindsName_some h

/-- The check sees a plain declaration. -/
theorem declares_eq {f : Flow} {name : String} {d : Tree} (h : f.plainDeclaration name d) :
    f.declares name d = (declared d).any (f.bindsIn name) := by
  unfold plainDeclaration at h
  split at h
  · rw [Bool.and_eq_true, Bool.not_eq_true', Bool.not_eq_true'] at h
    rw [h.1, h.2]
  · next hother =>
    simp only [Tree.isAny, List.any_cons, List.any_nil, Bool.or_false, Bool.or_eq_true,
      not_or, Bool.not_eq_true] at hother
    obtain ⟨hvariable, hgenerator, habstract⟩ := hother
    simp only [List.all_eq_true, declared, Tree.isAny, List.any_cons, List.any_nil, Bool.or_false,
      hgenerator, habstract, Bool.false_or] at h
    simp only [declares, declared, Tree.isAny, List.any_cons, List.any_nil, Bool.or_false,
      hvariable, hgenerator, habstract, Bool.false_or]
    split at h
    · next hlexical =>
      rw [if_pos hlexical, if_pos hlexical, List.any_filterMap, Bool.eq_iff_iff, List.any_eq_true,
        List.any_eq_true]
      refine exists_congr fun c => and_congr_right fun hc => ?_
      rw [bindsName_eq (Option.all_eq_true _ _ |>.2 fun q hq =>
        h q (List.mem_filterMap.2 ⟨c, hc, hq⟩))]
      rfl
    · next hlexical =>
      rw [if_neg hlexical, if_neg hlexical]
      split at h
      · next hnamed =>
        rw [if_pos hnamed, if_pos hnamed]
        rw [any_toList]
        exact bindsName_eq (Option.all_eq_true _ _ |>.2 fun q hq => h q (by simp [hq]))
      · next hnamed => rw [if_neg hnamed, if_neg hnamed, List.any_nil]

theorem any_declares_eq {f : Flow} {name : String} {ds : List Tree}
    (h : ds.all (f.plainDeclaration name)) :
    ds.any (f.declares name) = (ds.flatMap declared).any (f.bindsIn name) := by
  rw [List.any_flatMap, Bool.eq_iff_iff, List.any_eq_true, List.any_eq_true]
  refine exists_congr fun d => and_congr_right fun hd => ?_
  rw [declares_eq (List.all_eq_true.1 h d hd)]

theorem rebinds_eq {f : Flow} {name : String} {t : Tree}
    (h : ∀ p ∈ parametersOf t, f.bindsIn name (parameterPattern p) → (parameterPattern p).is .identifier) :
    f.rebinds name t = ((parametersOf t).map parameterPattern).any (f.bindsIn name) := by
  rw [rebinds, List.any_map, Bool.eq_iff_iff, List.any_eq_true, List.any_eq_true]
  refine exists_congr fun p => and_congr_right fun hp => ?_
  have hpattern : f.bindsIn name (parameterPattern p) = ((parameterPattern p).is .identifier &&
      decide (f.textOf (parameterPattern p) = name)) := by
    by_cases hq : (parameterPattern p).is .identifier
    · rw [hq, Bool.true_and, bindsIn_of_isAny (by simp [Tree.isAny, hq])]
    · rw [Bool.eq_false_iff.2 hq, Bool.false_and, Bool.eq_false_iff]
      exact fun hb => hq (h p hp hb)
  rw [Function.comp_apply, hpattern]
  rfl

theorem any_loopDeclared_eq {f : Flow} {name : String} {t : Tree}
    (h : (t.field? .left).all fun q => f.plainPattern name q &&
      (!f.bindsIn name q || (t.field? .kind).any fun k => !k.isToken "var")) :
    f.bindsName name (t.field? .left) = (loopDeclared t).any (f.bindsIn name) := by
  rw [bindsName_eq, loopDeclared]
  · cases hleft : t.field? .left with
    | none => simp
    | some q =>
      simp only [hleft, Option.all_some, Bool.and_eq_true, Bool.or_eq_true, Bool.not_eq_true'] at h
      split
      · simp
      · next hkind => simpa [hkind] using h.2
  · rw [Option.all_eq_true]
    intro q hq
    simp only [hq, Option.all_some, Bool.and_eq_true] at h
    exact h.1

/-- **The check sees a plain binding.** -/
theorem shadows_eq_opens {f : Flow} {name : String} {t : Tree} (h : f.plain name t) :
    f.shadows name t = f.opens name t := by
  unfold plain at h
  unfold shadows opens binders
  simp only [Tree.isAny, List.any_cons, List.any_nil, Bool.or_false]
  by_cases hf : t.isFunctionLike
  · simp only [hf, if_true, Bool.and_eq_true, List.all_eq_true, Bool.or_eq_true] at h ⊢
    exact rebinds_eq fun p hp hb => (h.1 p hp).resolve_left (by simp [hb])
  simp only [hf, Bool.false_eq_true, if_false] at h ⊢
  by_cases hblock : t.is .statementBlock
  · simp only [hblock, if_true, Bool.true_or] at h ⊢
    exact any_declares_eq h
  simp only [hblock, Bool.false_eq_true, if_false, Bool.false_or] at h ⊢
  by_cases hswitch : t.is .switchBody
  · simp only [hswitch, if_true, Bool.and_eq_true, Bool.not_eq_true'] at h ⊢
    simpa only [h.1, opens, binders, hf, hblock, hswitch, Bool.false_eq_true, if_false, if_true]
      using h.2.symm
  simp only [hswitch, Bool.false_eq_true, if_false] at h ⊢
  by_cases hcatch : t.is .catchClause
  · simp only [hcatch, if_true] at h ⊢
    rw [any_toList]
    exact bindsName_eq h
  simp only [hcatch, Bool.false_eq_true, if_false] at h ⊢
  by_cases hloop : t.is .forInStatement
  · simp only [hloop, if_true] at h ⊢
    exact any_loopDeclared_eq h
  simp only [hloop, Bool.false_eq_true, if_false] at h ⊢
  by_cases hfor : t.is .forStatement
  · simp only [hfor, if_true] at h ⊢
    rw [← any_declares_eq, any_toList]
    rw [List.all_eq_true]
    intro d hd
    exact Option.all_eq_true _ _ |>.1 h d (Option.mem_toList.1 hd)
  · simp only [hfor, Bool.false_eq_true, if_false, List.any_nil]

/-! ### Reads -/

/-- The kinds of nodes that may open a scope. -/
def scopeKinds : List Kind :=
  Tree.functionKinds ++ [.statementBlock, .switchBody, .catchClause, .forInStatement, .forStatement]

theorem isAny_of_shadows {f : Flow} {name : String} {t : Tree} (h : f.shadows name t) :
    t.isAny scopeKinds := by
  rw [Tree.isAny, scopeKinds, List.any_append, Bool.or_eq_true]
  unfold shadows at h
  split at h
  · next hf => exact .inl hf
  · right
    split at h
    · next hb =>
      rw [Tree.isAny, List.any_cons, List.any_cons, List.any_nil, Bool.or_false,
        Bool.or_eq_true] at hb
      rcases hb with hb | hb <;> simp [hb]
    · split at h
      · next hc => simp [hc]
      · split at h
        · next hl => simp [hl]
        · split at h
          · next hl => simp [hl]
          · simp at h

/-- What opens a scope reads nothing itself. -/
theorem reads_eq_nil_of_shadows {f : Flow} {name : String} {t : Tree} (h : f.shadows name t) :
    f.reads name t = [] := by
  obtain ⟨k, hk, hlabel⟩ := Tree.isAny_iff.1 (isAny_of_shadows h)
  have hne : ∀ k ∈ scopeKinds, k ≠ .memberExpression ∧ k ≠ .subscriptExpression ∧
      k ≠ .variableDeclarator := by decide
  obtain ⟨hm, hs, hd⟩ := hne k hk
  simp [reads, Tree.is_eq_false_of hlabel hm, Tree.is_eq_false_of hlabel hs,
    Tree.is_eq_false_of hlabel hd]

theorem Means.mem_nodes {f : Flow} {name : String} {t u : Tree} (h : f.Means name t u) :
    u ∈ t.nodes := by
  induction h with
  | here t => exact t.self_mem_nodes
  | down hc _ _ ih => exact Tree.nodes_subset hc _ ih

/-- The walk comes to a node only if the name keeps its meaning on the way. -/
theorem means_of_mem_walk {f : Flow} {name : String} {t u : Tree}
    (hplain : ∀ n ∈ t.nodes, f.plain name n) (h : u ∈ t.walk (Tree.except (f.shadows name))) :
    f.Means name t u := by
  induction t using Tree.induction with
  | node l r span ts ih =>
    have hself := shadows_eq_opens (hplain _ (Tree.self_mem_nodes _))
    rw [Tree.walk_eq, Tree.except] at h
    cases hshadow : f.shadows name (.node l r span ts) with
    | true => simp [hshadow] at h
    | false =>
      simp only [hshadow, Bool.false_eq_true, if_false] at h
      rcases List.mem_cons.1 h with rfl | h
      · exact .here _
      · obtain ⟨c, hc, hu⟩ := List.mem_flatMap.1 h
        refine .down hc ?_ (ih c hc (fun n hn => hplain n (Tree.nodes_subset hc n hn)) hu)
        rw [hides, ← hself, hshadow, Bool.false_and]

/-- The walk comes to every read at which the name keeps its meaning. -/
theorem Means.mem_walk {f : Flow} {name : String} {t u : Tree} {e : String × Tree}
    (h : f.Means name t u) (hplain : ∀ n ∈ t.nodes, f.plain name n) (he : e ∈ f.reads name u) :
    u ∈ t.walk (Tree.except (f.shadows name)) := by
  induction h with
  | here t =>
    have hshadow : f.shadows name t = false := by
      by_contra hs
      simp [reads_eq_nil_of_shadows (by simpa using hs)] at he
    rw [Tree.walk_eq, Tree.except, hshadow]
    exact List.mem_cons_self
  | @down t c u hc hhides hm ih =>
    have hself := hplain t t.self_mem_nodes
    have hshadow : f.shadows name t = false := by
      -- A function reads the name nowhere but in the scope that it opens.
      by_contra hs
      have hopens : f.opens name t := by rwa [← shadows_eq_opens hself, ← Bool.not_eq_false]
      simp only [hides, hopens, Bool.true_and, Bool.not_eq_false', Bool.and_eq_true,
        decide_eq_true_eq] at hhides
      obtain ⟨hf, hrole⟩ := hhides
      simp only [plain, hf, if_true, hopens, Bool.not_true, Bool.false_or, Bool.and_eq_true,
        plainTitle, List.all_eq_true, List.mem_filter, decide_eq_true_eq] at hself
      have hnone := hself.2 c ⟨hc, hrole⟩ u hm.mem_nodes
      simp [List.isEmpty_iff.1 hnone] at he
    have hu := ih (fun n hn => hplain n (Tree.nodes_subset hc n hn)) he
    rw [Tree.walk_eq, Tree.except, hshadow]
    exact List.mem_cons_of_mem t (List.mem_flatMap.2 ⟨c, hc, hu⟩)

/-- **What is read of the payload** is read where its name means the parameter. -/
theorem mem_payloadReads_iff {f : Flow} {p : Payload} {body : Tree} {e : String × Tree}
    (hname : p.pattern.is .identifier)
    (hplain : ∀ c ∈ body.children, ∀ t ∈ c.nodes, f.plain (f.textOf p.pattern) t)
    (hfresh : f.opens (f.textOf p.pattern) body = false) :
    e ∈ f.payloadReads p body ↔
      ∃ t, f.Means (f.textOf p.pattern) body t ∧ e ∈ f.reads (f.textOf p.pattern) t := by
  have hobject : p.pattern.is .objectPattern = false :=
    Tree.is_eq_false_of (Tree.is_iff.1 hname) (by decide)
  simp only [payloadReads, hobject, hname, Bool.false_eq_true, if_false, if_true, List.mem_flatMap,
    Tree.walkBelow, Tree.walkChildren_eq, List.mem_cons]
  refine exists_congr fun t => and_congr_left fun he => ?_
  constructor
  · rintro (rfl | ⟨c, hc, ht⟩)
    · exact .here t
    · refine .down hc ?_ (means_of_mem_walk (hplain c hc) ht)
      rw [hides, hfresh, Bool.false_and]
  · intro h
    cases h with
    | here => exact .inl rfl
    | down hc _ h => exact .inr ⟨_, hc, h.mem_walk (hplain _ hc) he⟩

/-- **The check follows the scopes where bindings are plain.**  If the payload is received by a name
and no part of its type is unknown, a diagnostic is reported for a read of a property in the body of
the entry method exactly if the type lacks the property and the name means the parameter there. -/
theorem mem_checkPayload_iff {f : Flow} {p : Payload} {body : Tree}
    (hpayload : f.payload? f.typeEnv = some p) (hbody : f.entryMethod?.bind (·.body) = some body)
    (hname : p.pattern.is .identifier) (hclosed : p.shape.isOpen = false)
    (hplain : ∀ c ∈ body.children, ∀ t ∈ c.nodes, f.plain (f.textOf p.pattern) t)
    (hfresh : f.opens (f.textOf p.pattern) body = false) (d : Diagnostic) :
    d ∈ f.checkPayload ↔ ∃ t key place, f.Means (f.textOf p.pattern) body t ∧
      (key, place) ∈ f.reads (f.textOf p.pattern) t ∧ (∀ e ∈ p.shape.fields, e.1 ≠ key) ∧
      d = f.diagnosticAt place (.payloadProperty key p.typeName) := by
  have hhas : ∀ key, (!p.shape.has key) = true ↔ ∀ e ∈ p.shape.fields, e.1 ≠ key := by
    intro key
    simp [Shape.has, hclosed]
  simp only [checkPayload, hpayload, hbody, hclosed, Bool.false_eq_true, if_false, List.mem_map,
    List.mem_filter, Prod.exists, mem_payloadReads_iff hname hplain hfresh, hhas]
  constructor
  · rintro ⟨key, place, ⟨⟨t, hmeans, hread⟩, hkey⟩, rfl⟩
    exact ⟨t, key, place, hmeans, hread, hkey, rfl⟩
  · rintro ⟨t, key, place, hmeans, hread, hkey, rfl⟩
    exact ⟨key, place, ⟨⟨t, hmeans, hread⟩, hkey⟩, rfl⟩

/-- A flow whose entry method binds the name of the payload again in a block. -/
def shadowedText : String :=
  "class F extends B\x7bh(p:\x7ba:string\x7d)\x7b\x7bconst p=1;p.z\x7dp.y\x7d\x7d"

/-- The parts of a source in which classes extend `B` and flows begin in `h`. -/
def shadowedFlow (s : Source) : Flow :=
  .of s (.ofList []) { Config.standard with baseClass := "B", entryMethod := "h" }

theorem mem_checkPayload_iff_shadowedText : ∃ s, Source.parse shadowedText = .ok s ∧
    ∃ p body, ((shadowedFlow s).payload? (shadowedFlow s).typeEnv = some p ∧
        (shadowedFlow s).entryMethod?.bind (·.body) = some body ∧ p.pattern.is .identifier ∧
        p.shape.isOpen = false ∧
        (∀ c ∈ body.children, ∀ t ∈ c.nodes,
          (shadowedFlow s).plain ((shadowedFlow s).textOf p.pattern) t) ∧
        (shadowedFlow s).opens ((shadowedFlow s).textOf p.pattern) body = false) ∧
      (shadowedFlow s).checkPayload.length = 1 ∧
      ∀ d, d ∈ (shadowedFlow s).checkPayload ↔ ∃ t key place,
        (shadowedFlow s).Means ((shadowedFlow s).textOf p.pattern) body t ∧
        (key, place) ∈ (shadowedFlow s).reads ((shadowedFlow s).textOf p.pattern) t ∧
        (∀ e ∈ p.shape.fields, e.1 ≠ key) ∧
        d = (shadowedFlow s).diagnosticAt place (.payloadProperty key p.typeName) := by
  have hread : ((Source.parse shadowedText).toOption.any fun s =>
      ((shadowedFlow s).payload? (shadowedFlow s).typeEnv).any fun p =>
        ((shadowedFlow s).entryMethod?.bind (·.body)).any fun body =>
          p.pattern.is .identifier && !p.shape.isOpen &&
            (body.children.all fun c => c.nodes.all fun t =>
              (shadowedFlow s).plain ((shadowedFlow s).textOf p.pattern) t) &&
            !(shadowedFlow s).opens ((shadowedFlow s).textOf p.pattern) body &&
            decide ((shadowedFlow s).checkPayload.length = 1)) = true := by decide +kernel
  cases hs : Source.parse shadowedText with
  | error e =>
    rw [hs] at hread
    simp [Except.toOption] at hread
  | ok s =>
    rw [hs] at hread
    change (Option.any _ (some s)) = true at hread
    rw [Option.any_some] at hread
    obtain ⟨p, hp, hread⟩ := Option.any_eq_true _ _ |>.1 hread
    obtain ⟨body, hbody, hread⟩ := Option.any_eq_true _ _ |>.1 hread
    simp only [Bool.and_eq_true, Bool.not_eq_true', List.all_eq_true, decide_eq_true_eq] at hread
    obtain ⟨⟨⟨⟨hname, hclosed⟩, hplain⟩, hfresh⟩, hlength⟩ := hread
    exact ⟨s, rfl, p, body, ⟨hp, hbody, hname, hclosed, hplain, hfresh⟩, hlength,
      mem_checkPayload_iff hp hbody hname hclosed hplain hfresh⟩

end Flow

end FlowAnalysis
