import FlowAnalysis.Proofs.Braces

/-!
# The normal form is in normal form

In the tree of a normal form every promoted body stands inside a block.  Once the bodies stand in
blocks, no branch and no loop is left whose body is a single statement, so nothing is promoted any
more.

## Main definitions

* `Tree.shape` — a tree without its offsets and its comments.
* `Tree.promoted` — a tree in which every body that is a single statement stands in a block.

## Main results

* `bareBody?_of_mem_promoted` — nothing is left to promote.
* `normalize_normalize` — **normalizing twice is normalizing once.**
-/

namespace FlowAnalysis

open Syntax

namespace Syntax.Tree

/-! ### Equality -/

mutual

/-- Whether two trees are equal. -/
def decideEq : (t u : Tree) → Decidable (t = u)
  | node l r span ts, node l' r' span' us =>
    match decideEqAll ts us with
    | isFalse h => isFalse fun heq => h (Tree.node.inj heq).2.2.2
    | isTrue h =>
      if h' : l = l' ∧ r = r' ∧ span = span' then
        isTrue (by rw [h'.1, h'.2.1, h'.2.2, h])
      else isFalse fun heq => h' ⟨(Tree.node.inj heq).1, (Tree.node.inj heq).2.1,
        (Tree.node.inj heq).2.2.1⟩

/-- Whether two lists of trees are equal. -/
def decideEqAll : (ts us : List Tree) → Decidable (ts = us)
  | [], [] => isTrue rfl
  | [], _ :: _ => isFalse nofun
  | _ :: _, [] => isFalse nofun
  | t :: ts, u :: us =>
    match decideEq t u, decideEqAll ts us with
    | isTrue h, isTrue h' => isTrue (by rw [h, h'])
    | isFalse h, _ => isFalse fun heq => h (List.cons.inj heq).1
    | _, isFalse h => isFalse fun heq => h (List.cons.inj heq).2

end

instance : DecidableEq Tree := decideEq

/-! ### Shapes -/

/-- Whether the node is a comment, which may stand anywhere. -/
def isComment (t : Tree) : Bool :=
  t.is .comment && decide (t.role = none) && t.children.isEmpty

mutual

/-- A tree without its offsets and its comments. -/
def shape : Tree → Tree
  | node l r _ ts => node l r ⟨0, 0⟩ (shapes ts)

/-- Some trees without their offsets and their comments. -/
def shapes : List Tree → List Tree
  | [] => []
  | t :: ts => if t.isComment then shapes ts else shape t :: shapes ts

end

/-! ### Blocks around bodies -/

/-- A block that takes the place of a body: braces around the body. -/
def blockOf (body : Tree) (role : Option Role) : Tree :=
  let brace := fun mark => node (.token mark) none ⟨0, 0⟩ []
  node (.rule .statementBlock) role body.span [brace "\x7b", body.withRole none, brace "\x7d"]

/-- Whether a node is the given body. -/
def isBody (body? : Option Tree) (t : Tree) : Bool :=
  body?.any fun b => decide (b.span = t.span) && decide (b.label = t.label)

mutual

/-- The tree in which every body that is a single statement stands in a block. -/
def promoted : Tree → Tree
  | node l r span ts => node l r span (promotedBelow (node l r span ts).bareBody? ts)

/-- Some siblings, one of which may be a body that is a single statement. -/
def promotedBelow (body? : Option Tree) : List Tree → List Tree
  | [] => []
  | t :: ts =>
    (if isBody body? t then blockOf (promoted t) t.role else promoted t) :: promotedBelow body? ts

end

@[simp] theorem label_shape (t : Tree) : t.shape.label = t.label := by
  cases t
  rw [shape]
  rfl

@[simp] theorem role_shape (t : Tree) : t.shape.role = t.role := by
  cases t
  rw [shape]
  rfl

theorem children_shape (t : Tree) : t.shape.children = shapes t.children := by
  cases t
  rw [shape]
  rfl

@[simp] theorem label_promoted (t : Tree) : t.promoted.label = t.label := by
  cases t
  rw [promoted]
  rfl

@[simp] theorem role_promoted (t : Tree) : t.promoted.role = t.role := by
  cases t
  rw [promoted]
  rfl

/-- What a node in place of another one is, with a block around it if it is the body. -/
def promotedIn (body? : Option Tree) (t : Tree) : Tree :=
  if isBody body? t then blockOf (promoted t) t.role else promoted t

theorem promotedBelow_eq (body? : Option Tree) (ts : List Tree) :
    promotedBelow body? ts = ts.map (promotedIn body?) := by
  induction ts with
  | nil => rfl
  | cons t ts ih =>
    rw [promotedBelow, ih]
    rfl

theorem children_promoted (t : Tree) : t.promoted.children = t.children.map (promotedIn t.bareBody?) := by
  cases t
  rw [promoted, children_node, promotedBelow_eq]
  rfl

/-! ### Bodies -/

/-- A node is a comment or has a name as its kind says, whatever its offsets. -/
theorem keeps_iff_label {t u : Tree} (h : t.label = u.label) :
    (t.isNamed && !t.is .comment) = (u.isNamed && !u.is .comment) := by
  simp [isNamed, is, h]

theorem find?_shapes (r : Role) (ts : List Tree) :
    (shapes ts).find? (fun c => decide (c.role = some r)) =
      (ts.find? fun c => decide (c.role = some r)).map shape := by
  induction ts with
  | nil => rfl
  | cons t ts ih =>
    rw [shapes]
    split
    · next hc =>
      have hr : t.role = none := by simp_all [isComment]
      rw [List.find?_cons_of_neg (by simp [hr]), ih]
    · by_cases hr : t.role = some r
      · rw [List.find?_cons_of_pos (by simp [hr]), List.find?_cons_of_pos (by simp [hr])]
        rfl
      · rw [List.find?_cons_of_neg (by simp [hr]), List.find?_cons_of_neg (by simp [hr]), ih]

theorem filter_shapes (ts : List Tree) :
    (shapes ts).filter (fun c => c.isNamed && !c.is .comment) =
      (ts.filter fun c => c.isNamed && !c.is .comment).map shape := by
  induction ts with
  | nil => rfl
  | cons t ts ih =>
    rw [shapes]
    split
    · next hc =>
      have : t.is .comment := by simp_all [isComment]
      rw [List.filter_cons_of_neg (by simp [this]), ih]
    · rw [List.filter_cons, List.filter_cons, keeps_iff_label (label_shape t), ih]
      split <;> rfl

/-- A node whose children take the places of those of another node has a body in the place of its
body. -/
theorem body?_eq_map {t u : Tree} {f : Tree → Tree} (hlabel : u.label = t.label)
    (hfield : ∀ r, u.field? r = (t.field? r).map f)
    (hnamed : t.label = .rule .elseClause → u.named = t.named.map f)
    (hif : t.label = .rule .elseClause → ∀ c, (f c).is .ifStatement = c.is .ifStatement) :
    u.body? = t.body?.map f := by
  unfold body?
  rw [hlabel]
  split
  case h_2 hl =>
    have hkeep : (fun c => !c.is .ifStatement) ∘ f = fun c => !c.is .ifStatement := by
      funext c
      simp [hif hl c]
    rw [hnamed hl, List.getLast?_map, Option.filter_map, hkeep]
  case h_7 => rfl
  all_goals exact hfield _

theorem bareBody?_shape (t : Tree) : t.shape.bareBody? = t.bareBody?.map shape := by
  have his : ∀ k u, (shape u).is k = u.is k := by
    intro k u
    simp [is]
  have hbody : t.shape.body? = t.body?.map shape := by
    refine body?_eq_map (label_shape t) (fun r => ?_) (fun _ => ?_) fun _ => his _
    · rw [field?, children_shape, find?_shapes]
      rfl
    · rw [named, children_shape, filter_shapes]
      rfl
  have hbare : (fun c => !c.isAny [.statementBlock, .emptyStatement]) ∘ shape =
      fun c => !c.isAny [.statementBlock, .emptyStatement] := by
    funext c
    simp [isAny, his]
  rw [bareBody?, hbody, Option.filter_map, hbare]
  rfl

theorem isBody_self {t b : Tree} (h : t.bareBody? = some b) : isBody t.bareBody? b := by
  simp [isBody, h]

theorem label_of_isBody {t b c : Tree} (h : t.bareBody? = some b) (hc : isBody t.bareBody? c) :
    c.label = b.label := by
  rw [h] at hc
  simp only [isBody, Option.any_some, Bool.and_eq_true, decide_eq_true_eq] at hc
  exact hc.2.symm

@[simp] theorem role_promotedIn (body? : Option Tree) (t : Tree) :
    (promotedIn body? t).role = t.role := by
  unfold promotedIn
  split
  · rfl
  · exact role_promoted t

/-- What stands behind an `else` keeps its name and its kind as far as the body depends on them. -/
theorem promotedIn_of_else {t : Tree} (ht : t.label = .rule .elseClause) (c : Tree) :
    ((promotedIn t.bareBody? c).isNamed && !(promotedIn t.bareBody? c).is .comment) =
        (c.isNamed && !c.is .comment) ∧
      (promotedIn t.bareBody? c).is .ifStatement = c.is .ifStatement := by
  unfold promotedIn
  split
  · next hc =>
    obtain ⟨b, hb⟩ : ∃ b, t.bareBody? = some b := by
      cases hb : t.bareBody? with
      | none => simp [hb, isBody] at hc
      | some b => exact ⟨b, rfl⟩
    have hlabel := label_of_isBody hb hc
    have hlast : t.named.getLast?.filter (!·.is .ifStatement) = some b := by
      have hbody := body?_of_bareBody? hb
      unfold body? at hbody
      rwa [ht] at hbody
    obtain ⟨hmem, hif⟩ := Option.filter_eq_some_iff.1 hlast
    have hnamed := (List.mem_filter.1 (List.mem_of_getLast? hmem)).2
    rw [keeps_iff_label hlabel, hnamed]
    have hcif : c.is .ifStatement = b.is .ifStatement := by simp [is, hlabel]
    rw [hcif]
    exact ⟨rfl, by simpa [blockOf, is] using hif⟩
  · exact ⟨keeps_iff_label (label_promoted c), by simp [is]⟩

/-- Once its body stands in a block, a node has no body that is a single statement. -/
theorem bareBody?_promoted (t : Tree) : t.promoted.bareBody? = none := by
  have hbody : t.promoted.body? = t.body?.map (promotedIn t.bareBody?) := by
    refine body?_eq_map (label_promoted t) (fun r => ?_) (fun ht => ?_)
      fun ht c => (promotedIn_of_else ht c).2
    · have hrole : (fun c => decide (role c = some r)) ∘ promotedIn t.bareBody? =
          fun c => decide (c.role = some r) := by
        funext c
        simp
      rw [field?, children_promoted, List.find?_map, hrole]
      rfl
    · have hnamed : (fun c => c.isNamed && !c.is .comment) ∘ promotedIn t.bareBody? =
          fun c => c.isNamed && !c.is .comment :=
        funext fun c => (promotedIn_of_else ht c).1
      rw [named, children_promoted, List.filter_map, hnamed]
      rfl
  rw [bareBody?, hbody, Option.filter_eq_none_iff]
  intro c hc
  obtain ⟨b, hb, rfl⟩ := Option.map_eq_some_iff.1 hc
  by_cases hbare : isBody t.bareBody? b
  · simp [promotedIn, hbare, blockOf, isAny, is]
  · have hkept : b.isAny [.statementBlock, .emptyStatement] := by
      by_contra hnot
      exact hbare (isBody_self (Option.filter_eq_some_iff.2 ⟨hb, by simpa using hnot⟩))
    have hsame : (promoted b).isAny [.statementBlock, .emptyStatement] =
        b.isAny [.statementBlock, .emptyStatement] := by
      simp [isAny, is]
    rw [promotedIn, if_neg hbare, hsame, hkept]
    decide

/-! ### Nodes -/

theorem mem_shapes {ts : List Tree} {u : Tree} :
    u ∈ shapes ts ↔ ∃ t ∈ ts, ¬ t.isComment ∧ u = t.shape := by
  induction ts with
  | nil => simp [shapes]
  | cons t ts ih =>
    rw [shapes]
    split
    · next hc => simp [ih, hc]
    · next hc => simp [ih, hc]

theorem bareBody?_withRole (t : Tree) (r : Option Role) :
    (t.withRole r).bareBody? = t.bareBody? := by
  obtain ⟨l, r', span, ts⟩ := t
  rfl

/-- The block around a body has no body that is a single statement, and neither have its braces. -/
theorem bareBody?_of_mem_blockOf {t : Tree} {r : Option Role}
    (h : ∀ n ∈ t.nodes, n.bareBody? = none) : ∀ n ∈ (blockOf t r).nodes, n.bareBody? = none := by
  intro n hn
  rw [nodes_eq, List.mem_cons] at hn
  rcases hn with rfl | hn
  · rfl
  · obtain ⟨c, hc, hn⟩ := mem_nodesOf.1 hn
    simp only [blockOf, children_node, List.mem_cons, List.not_mem_nil, or_false] at hc
    rw [nodes_eq, List.mem_cons] at hn
    rcases hc with rfl | rfl | rfl
    · rcases hn with rfl | hn
      · rfl
      · simp [nodesOf] at hn
    · rcases hn with rfl | hn
      · rw [bareBody?_withRole]
        exact h t (nodes_eq t ▸ List.mem_cons_self)
      · exact h n (nodes_eq t ▸ List.mem_cons_of_mem t hn)
    · rcases hn with rfl | hn
      · rfl
      · simp [nodesOf] at hn

/-- In a tree whose bodies stand in blocks, nothing is left to promote. -/
theorem bareBody?_of_mem_promoted (t : Tree) : ∀ n ∈ t.promoted.nodes, n.bareBody? = none := by
  induction t using Tree.induction with
  | node l r span ts ih =>
    intro n hn
    rw [nodes_eq, List.mem_cons] at hn
    rcases hn with rfl | hn
    · exact bareBody?_promoted _
    · rw [children_promoted, mem_nodesOf] at hn
      obtain ⟨c', hc', hn⟩ := hn
      obtain ⟨c, hc, rfl⟩ := List.mem_map.1 hc'
      unfold promotedIn at hn
      split at hn
      · exact bareBody?_of_mem_blockOf (ih c hc) n hn
      · exact ih c hc n hn

/-- Every node shows in the shape of a tree, comments apart. -/
theorem shape_mem_nodes (t : Tree) :
    ∀ n ∈ t.nodes, n.shape ∈ t.shape.nodes ∨ n.isComment := by
  induction t using Tree.induction with
  | node l r span ts ih =>
    intro n hn
    rw [nodes_eq, List.mem_cons] at hn
    rcases hn with rfl | hn
    · exact .inl (nodes_eq (shape _) ▸ List.mem_cons_self)
    · obtain ⟨c, hc, hn⟩ := mem_nodesOf.1 hn
      by_cases hcomment : c.isComment
      · -- A comment has no parts.
        right
        have hnil : c.children = [] := by simp_all [isComment]
        rw [nodes_eq, hnil, nodesOf, List.mem_singleton] at hn
        exact hn ▸ hcomment
      · refine (ih c hc n hn).imp_left fun hmem => ?_
        rw [nodes_eq (shape _), children_shape]
        exact List.mem_cons_of_mem _
          (mem_nodesOf.2 ⟨c.shape, mem_shapes.2 ⟨c, hc, hcomment, rfl⟩, hmem⟩)

/-- Every node of a shape comes from a node of the tree. -/
theorem exists_of_mem_shape (t : Tree) : ∀ m ∈ t.shape.nodes, ∃ n ∈ t.nodes, m = n.shape := by
  induction t using Tree.induction with
  | node l r span ts ih =>
    intro m hm
    rw [nodes_eq, List.mem_cons, children_shape] at hm
    rcases hm with rfl | hm
    · exact ⟨_, nodes_eq (node l r span ts) ▸ List.mem_cons_self, rfl⟩
    · obtain ⟨c', hc', hm⟩ := mem_nodesOf.1 hm
      obtain ⟨c, hc, _, rfl⟩ := mem_shapes.1 hc'
      obtain ⟨n, hn, rfl⟩ := ih c hc m hm
      exact ⟨n, nodes_eq (node l r span ts) ▸ List.mem_cons_of_mem _ (mem_nodesOf.2 ⟨c, hc, hn⟩), rfl⟩

/-- A tree that has the shape of one whose bodies stand in blocks has nothing to promote. -/
theorem bareBody?_of_shape {t u : Tree} (h : u.shape = t.promoted.shape) :
    ∀ n ∈ u.nodes, n.bareBody? = none := by
  intro n hn
  rcases shape_mem_nodes u n hn with hmem | hcomment
  · rw [h] at hmem
    obtain ⟨m, hm, heq⟩ := exists_of_mem_shape _ _ hmem
    have hnone : n.shape.bareBody? = none := by
      rw [heq, bareBody?_shape, bareBody?_of_mem_promoted t m hm]
      rfl
    rwa [bareBody?_shape, Option.map_eq_none_iff] at hnone
  · have hl : n.label = .rule .comment := by simp_all [isComment, is]
    simp [bareBody?, body?, hl]

end Syntax.Tree

/-! ### Normal forms -/

namespace Syntax.Source

theorem promotions_eq_nil {s : Source} (h : ∀ n ∈ s.root.nodes, n.bareBody? = none) :
    s.promotions = [] := by
  rw [promotions, List.filterMap_eq_nil_iff]
  rintro ⟨t, p⟩ hv
  apply promotion?_eq_none
  apply h
  rw [← Tree.walkWith_fst s.placeOf ⟨s.lineIndent s.root.start, 0⟩]
  exact List.mem_map_of_mem hv

/-- A source without anything to promote is in normal form. -/
theorem normalized_eq_self {s : Source} (h : s.promotions = []) :
    s.normalized = String.ofList s.text.toList := by
  simp [normalized, normalEdits, h]

end Syntax.Source

/-- **Normalizing twice is normalizing once.**  What is assumed of the grammar is that the normal
form, where it follows the grammar, has the tree of the text with every promoted body in a block. -/
theorem normalize_normalize {text : String}
    (h : ∀ s s', Source.parse text = .ok s → Source.parse (normalize text) = .ok s' →
      s'.root.shape = s.root.promoted.shape) : normalize (normalize text) = normalize text := by
  cases hs : Source.parse text with
  | error e =>
    -- Neither the text nor what comes of it is changed.
    rw [normalize_of_error hs, normalize_of_error hs]
  | ok s =>
    cases hs' : Source.parse (normalize text) with
    | error e => exact normalize_of_error hs'
    | ok s' =>
      have hsettled := Tree.bareBody?_of_shape (h s s' hs hs')
      rw [normalize_of_ok hs', Source.normalized_eq_self (Source.promotions_eq_nil hsettled),
        (rooted_of_parse hs').1]
      simp

/-- The body of a branch stands in a block once it has been promoted. -/
theorem normalize_normalize_branch : normalize "if(a)b();" = "if(a) \x7b\n  b();\n\x7d" ∧
    normalize (normalize "if(a)b();") = normalize "if(a)b();" := by
  have hread : ((Source.parse "if(a)b();").toOption.map fun s => s.promotions) =
      some [⟨5, ⟨5, 9⟩, [], 2, true⟩] := by decide +kernel
  have hshape : ((Source.parse "if(a) \x7b\n  b();\n\x7d").toOption.map fun s => s.root.shape) =
      (Source.parse "if(a)b();").toOption.map fun s => s.root.promoted.shape := by decide +kernel
  cases h : Source.parse "if(a)b();" with
  | error e =>
    rw [h] at hread
    simp [Except.toOption] at hread
  | ok s =>
    rw [h] at hread hshape
    have hpromotions : s.promotions = [⟨5, ⟨5, 9⟩, [], 2, true⟩] := Option.some.inj hread
    have hnormal : normalize "if(a)b();" = "if(a) \x7b\n  b();\n\x7d" := by
      rw [normalize_of_ok h, Source.normalized,
        Source.normalEdits_of_singleton hpromotions (by decide), (rooted_of_parse h).1]
      decide
    refine ⟨hnormal, normalize_normalize fun s₁ s₂ h₁ h₂ => ?_⟩
    rw [hnormal] at h₂
    rw [h] at h₁
    obtain rfl := Except.ok.inj h₁
    rw [h₂] at hshape
    exact Option.some.inj hshape

end FlowAnalysis
