import FlowAnalysis.Proofs.Codes
import FlowAnalysis.Proofs.Trimming.Payload
import FlowAnalysis.Proofs.Trimming.Secrets

/-!
# Verdicts on trimmed sources

Comments never influence the verdict on a flow, and neither do the wrappers that leave the value of
an expression alone, unless an expression is looked at as it is written.

## Main definitions

* `Source.withRoot` — another tree over the same text.
* `Trimming.comments`, `Trimming.everything` — the trimmings that take off comments only, and all
  wrappers.
* `Tree.Commented` — a tree with comments inserted.

## Main results

* `Analyzer.codes_check_commented` — **comments leave the verdict as it is.**
* `Analyzer.validate_trim` — **wrappers leave the verdict as it is.**
-/

namespace FlowAnalysis

open Syntax Trimming

variable {P : Trimming} {s' s : Source} {f' f : Flow}

/-! ### All checks -/

namespace Flow.Matches

theorem findings_runRules (h : Flow.Matches P f' f) {config : Config}
    (hP : P.Harmless config f' f) (hsorts : Flow.Sorts P f' f) :
    (runRules Rule.builtin f' config).map (·.finding) =
      (runRules Rule.builtin f config).map (·.finding) := by
  have hrule : ∀ r ∈ Rule.builtin, (r.check f' config).map (·.finding) =
      (r.check f config).map (·.finding) := by
    simp only [Rule.builtin, List.forall_mem_cons, List.not_mem_nil, false_imp_iff, implies_true,
      and_true]
    exact ⟨h.findings_checkEnvironment hP, h.findings_checkComplexity hP config,
      h.findings_checkDynamicCode hP, h.findings_checkSecrets hP hsorts, h.findings_checkSchedule⟩
  rw [runRules, runRules, List.map_flatMap, List.map_flatMap]
  exact List.flatMap_congr fun r hr => hrule r (List.mem_of_mem_filter hr)

/-- **What is found in a trimmed flow is what is found in the flow.** -/
theorem findings_validate (h : Flow.Matches P f' f) {config : Config}
    (hP : P.Harmless config f' f) (hsorts : Flow.Sorts P f' f) (registry : Registry) :
    (f'.validate registry config Rule.builtin).diagnostics.map (·.finding) =
      (f.validate registry config Rule.builtin).diagnostics.map (·.finding) := by
  simp only [Flow.validate, List.map_append, h.findings_checkStructure hP,
    h.findings_checkCredentials, h.findings_checkRegistered, h.findings_checkParameters,
    h.findings_checkPayload hP, h.findings_runRules hP hsorts]

end Flow.Matches

theorem Analyzer.findings_check_trims (a : Analyzer) (hrules : a.hostRules = [])
    (htrims : P.Trims s' s) (hP : P.Harmless a.config (a.flow s') (a.flow s))
    (hsorts : Flow.Sorts P (a.flow s') (a.flow s)) :
    (a.check s').diagnostics.map (·.finding) = (a.check s).diagnostics.map (·.finding) := by
  rw [check, check, rules, hrules, List.append_nil]
  exact (Flow.matches_of htrims hP).findings_validate hP hsorts a.registry

/-! ### Comments -/

namespace Syntax

/-- The same text with another tree. -/
def Source.withRoot (s : Source) (u : Tree) : Source := ⟨s.text, u⟩

/-- The trimming that takes off comments only. -/
def Trimming.comments : Trimming := ⟨fun _ _ => false, fun h => absurd h Bool.false_ne_true⟩

theorem Trimming.core_comments (p c : Tree) : comments.core p c = c :=
  core_of_not_opens Bool.false_ne_true

theorem Trimming.Part.of_comments {p v c : Tree} (h : comments.Part s' s p v c) :
    comments.Matches s' s v c := core_comments p c ▸ h.core

mutual

/-- A tree with comments inserted. -/
inductive Tree.Commented : Tree → Tree → Prop
  | node {l : Label} {r : Option Role} {span : Span} {ts ts' : List Tree} :
    Tree.CommentedAll ts ts' → Tree.Commented (.node l r span ts) (.node l r span ts')

/-- The children of a node with comments inserted among them. -/
inductive Tree.CommentedAll : List Tree → List Tree → Prop
  | nil : Tree.CommentedAll [] []
  | cons {t t' : Tree} {ts ts' : List Tree} :
    Tree.Commented t t' → Tree.CommentedAll ts ts' → Tree.CommentedAll (t :: ts) (t' :: ts')
  | comment {c : Tree} {ts ts' : List Tree} :
    c.isRemark → Tree.CommentedAll ts ts' → Tree.CommentedAll ts (c :: ts')

end

namespace Tree

/-- Perhaps no comments are inserted. -/
theorem Commented.refl (t : Tree) : Commented t t := by
  induction t using Tree.induction with
  | node l r span ts ih =>
    refine .node ?_
    induction ts with
    | nil => exact .nil
    | cons t ts ihts =>
      rw [List.forall_mem_cons] at ih
      exact .cons ih.1 (ihts ih.2)

mutual

theorem Commented.isQuiet_eq {t t' : Tree} (h : Commented t t') : t'.isQuiet = t.isQuiet := by
  match h with
  | .node hts =>
    rw [isQuiet, isQuiet, nodes, nodes, List.all_cons, List.all_cons, hts.all_nodesOf]
    rfl

theorem CommentedAll.all_nodesOf {ts ts' : List Tree} (h : CommentedAll ts ts') :
    ((nodesOf ts').all fun n => !n.isAny loudKinds) =
      (nodesOf ts).all fun n => !n.isAny loudKinds := by
  match h with
  | .nil => rfl
  | .cons ht hts =>
    have hquiet := ht.isQuiet_eq
    rw [isQuiet, isQuiet] at hquiet
    rw [nodesOf, nodesOf, List.all_append, List.all_append, hquiet, hts.all_nodesOf]
  | .comment hc hts =>
    have hquiet := isQuiet_of_isRemark hc
    rw [isQuiet] at hquiet
    rw [nodesOf, List.all_append, hquiet, hts.all_nodesOf, Bool.true_and]

end

namespace Commented

variable {t t' : Tree}

theorem span (h : Commented t t') : t'.span = t.span := by
  cases h
  rfl

theorem role (h : Commented t t') : t'.role = t.role := by
  cases h
  rfl

theorem label (h : Commented t t') : t'.label = t.label := by
  cases h
  rfl

theorem isRemark_eq (h : Commented t t') : t'.isRemark = t.isRemark := by
  rw [isRemark, isRemark, is, is, h.label, h.role, h.isQuiet_eq]

/-- The children that are no comments are the same up to the comments in them. -/
theorem forall₂_parts (h : Commented t t') :
    List.Forall₂ (fun v c => Commented c v) (Trimming.parts t') (Trimming.parts t) := by
  have hparts : ∀ {ts ts' : List Tree}, CommentedAll ts ts' →
      List.Forall₂ (fun v c => Commented c v) (ts'.filter fun c => !c.isRemark)
        (ts.filter fun c => !c.isRemark) := by
    -- The induction is on the children with the comments among them.
    intro ts ts' hts
    induction ts' generalizing ts with
    | nil =>
      cases hts
      exact .nil
    | cons c ts' ih =>
      cases hts with
      | cons ht hts =>
        rw [List.filter_cons, List.filter_cons, ht.isRemark_eq]
        split
        · exact .cons ht (ih hts)
        · exact ih hts
      | comment hc hts =>
        rw [List.filter_cons, hc]
        exact ih hts
  cases h with
  | node hts => exact hparts hts

/-- So are all nodes that are no comments. -/
theorem of_mem_pairs (h : Commented t t') {x : Tree × Tree} (hx : x ∈ comments.pairs t' t) :
    Commented x.2 x.1 := by
  induction t using Tree.induction_below generalizing t' with
  | node t ih =>
    rw [Trimming.pairs_eq, List.mem_cons, List.mem_flatMap] at hx
    rcases hx with rfl | ⟨y, hy, hx⟩
    · exact h
    · rw [core_comments] at hx
      have hchild : y.2 ∈ t.children := (Trimming.mem_parts.1 (List.of_mem_zip hy).2).1
      have hcommented : Commented y.2 y.1 := (List.forall₂_iff_zip.1 h.forall₂_parts).2 hy
      exact ih y.2 hchild y.2 (Tree.self_mem_nodes _) hcommented hx

end Commented

end Tree

variable {u : Tree} (h : s.root.Commented u)

include h

theorem Source.span_of_commented {v t : Tree} (ht : comments.Matches (s.withRoot u) s v t) :
    v.span = t.span := (h.of_mem_pairs ht.mem).span

theorem Source.chars_of_commented {x : Tree × Tree} (hx : x ∈ comments.pairs u s.root) :
    (s.withRoot u).chars x.1 = s.chars x.2 := by
  rw [chars, chars, (h.of_mem_pairs hx).span]
  rfl

theorem Source.trims_of_commented : comments.Trims (s.withRoot u) s := by
  intro x hx
  have hcommented := h.of_mem_pairs hx
  refine ⟨hcommented.label, fun _ => s.chars_of_commented h hx, ?_⟩
  refine hcommented.forall₂_parts.imp fun v c hc => ⟨hc.role, fun _ => ?_⟩
  rw [chars, chars, hc.span]
  rfl

end Syntax

namespace Analyzer

section

variable (a : Analyzer) {u : Tree} (h : s.root.Commented u)

include h

/-- No check notices that comments are taken off. -/
theorem harmless_of_commented :
    comments.Harmless a.config (a.flow (s.withRoot u)) (a.flow s) where
  -- No wrapper is taken off, so what remains is that the texts are those of the same spans.
  beside _ _ _ _ hopens := absurd hopens Bool.false_ne_true
  bases x hx _ := by
    have hmatch : comments.Matches (s.withRoot u) s x.1 x.2 := ⟨s.trims_of_commented h, hx⟩
    refine congrArg (Option.filter _) ((Flow.rel_extendsClause? hmatch).bind_eq fun d' d hd => ?_)
    have hbase := ((hd.rel_field? .value).imp fun _ _ hc => hc.1.of_comments).or
      (hd.rel_firstNamed?.imp fun _ _ hc => hc.of_comments)
    refine hbase.bind_eq fun b' b hb => ?_
    rw [hb.is_eq]
    split
    · exact hb.rel_property.map_eq fun _ _ hp => hp.2
    · exact congrArg (some <| String.ofList ·) (s.chars_of_commented h hb.mem)
  names x hx _ _ _ _ _ := s.chars_of_commented h hx
  quoted x hx _ := s.chars_of_commented h hx
  templates x hx _ _ := congrArg secretProvider? (s.chars_of_commented h hx)
  bodies _ _ _ _ _ _ _ _ hopens := absurd hopens Bool.false_ne_true
  loops _ _ _ _ _ hopens := absurd hopens Bool.false_ne_true
  environment _ _ _ _ _ _ hopened := by
    obtain ⟨_, -, -, hopens⟩ := hopened
    exact absurd hopens Bool.false_ne_true
  types hopened := by
    obtain ⟨_, -, _, -, -, hopens⟩ := hopened
    exact absurd hopens Bool.false_ne_true

/-- Texts are told from credentials alike. -/
theorem sorts_of_commented : Flow.Sorts comments (a.flow (s.withRoot u)) (a.flow s) where
  begins v t ht := by
    have hmatches := Flow.matches_of (s.trims_of_commented h) (a.harmless_of_commented h)
    have hspans : (a.flow (s.withRoot u)).credentialSpans = (a.flow s).credentialSpans := by
      refine List.forall₂_eq_eq_eq ▸ hmatches.forall₂_credentialSpans.imp ?_
      rintro _ _ ⟨p, v, c, hc, rfl, rfl, -, -⟩
      exact s.span_of_commented h hc.of_comments
    rw [hspans, Flow.beginsIn, Flow.beginsIn, Tree.start, Tree.start, s.span_of_commented h ht]
  inside _ _ _ _ _ hopened := absurd hopened.opens Bool.false_ne_true

end

end Analyzer

/-- A statement that calls `eval` in some form with one argument. -/
def evalTree (length : Nat) (callee : Tree) (arguments : List Tree) : Tree :=
  .node (.rule .program) none ⟨0, length⟩ [.node (.rule .expressionStatement) none ⟨0, length⟩
    [.node (.rule .callExpression) none ⟨0, length⟩
      [callee, .node (.rule .arguments) (some .arguments) ⟨length - 3, length⟩ arguments]]]

/-- An analysis with the settings that hold unless others are given. -/
def standardAnalyzer : Analyzer := ⟨.empty, .standard, []⟩

namespace Analyzer

/-- **Comments leave the verdict as it is**: what is found is the same, wherever and however many
are inserted.  Both trees stand over one text, so what is read as it is written, such as a computed
name, is the same text in both; with comments in such a text, or with two texts, this is a matter of
trimmed sources. -/
theorem codes_check_commented (a : Analyzer) (hrules : a.hostRules = []) (s : Source) {u : Tree}
    (h : s.root.Commented u) :
    (a.check (s.withRoot u)).diagnostics.map (·.code) = (a.check s).diagnostics.map (·.code) := by
  have hcodes := congrArg (List.map Finding.code)
    (a.findings_check_trims hrules (s.trims_of_commented h) (a.harmless_of_commented h)
      (a.sorts_of_commented h))
  rwa [List.map_map, List.map_map] at hcodes

/-- `eval(/* c */ x)`, where the tree lacks the comment. -/
def evalCommented : Source :=
  ⟨"eval(/* c */x)".toList.toArray,
    evalTree 14 (.node (.rule .identifier) (some .function) ⟨0, 4⟩ [])
      [.node (.rule .identifier) none ⟨12, 13⟩ []]⟩

/-- The tree with the comment. -/
def evalCommentedRoot : Tree :=
  evalTree 14 (.node (.rule .identifier) (some .function) ⟨0, 4⟩ [])
    [.node (.rule .comment) none ⟨5, 12⟩ [], .node (.rule .identifier) none ⟨12, 13⟩ []]

theorem codes_check_commented_eval : standardAnalyzer.hostRules = [] ∧
    evalCommented.root.Commented evalCommentedRoot ∧
    (standardAnalyzer.check (evalCommented.withRoot evalCommentedRoot)).diagnostics.map (·.code) =
      (standardAnalyzer.check evalCommented).diagnostics.map (·.code) ∧
    (standardAnalyzer.check evalCommented).diagnostics.map (·.code) =
      ["flow-class", "no-dynamic-code"] := by
  have harguments : Tree.CommentedAll [.node (.rule .identifier) none ⟨12, 13⟩ []]
      [.node (.rule .comment) none ⟨5, 12⟩ [], .node (.rule .identifier) none ⟨12, 13⟩ []] :=
    .comment (by decide) (.cons (.refl _) .nil)
  have hcommented : evalCommented.root.Commented evalCommentedRoot :=
    .node (.cons (.node (.cons (.node (.cons (.refl _) (.cons (.node harguments) .nil))) .nil))
      .nil)
  exact ⟨rfl, hcommented, codes_check_commented _ rfl _ hcommented, by decide⟩

/-! ### Wrappers -/

/-- **Wrappers leave the verdict as it is**: where a text reads as another one does without some of
the wrappers in it, and no check looks at these as they are written, the same is said of the two. -/
theorem validate_trim (a : Analyzer) (hrules : a.hostRules = []) {text text' : String}
    {s s' : Source} (h : Source.parse text = .ok s) (h' : Source.parse text' = .ok s')
    (htrims : P.Trims s' s) (hP : P.Harmless a.config (a.flow s') (a.flow s)) :
    (a.validate text').diagnostics.map (fun d => (d.code, d.message)) =
      (a.validate text).diagnostics.map fun d => (d.code, d.message) := by
  have hsorts := (Flow.matches_of htrims hP).sorts_of_rooted (rooted_of_parse h').2.2
    (rooted_of_parse h).2.2
  have hsaid := congrArg (List.map fun x : Finding => (x.code, x.message))
    (a.findings_check_trims hrules htrims hP hsorts)
  rw [List.map_map, List.map_map] at hsaid
  rw [validate_of_parse h, validate_of_parse h']
  exact hsaid

end Analyzer

/-- The trimming that takes off all wrappers. -/
def Syntax.Trimming.everything : Trimming := ⟨Tree.mayOpen, id⟩

/-- A flow with wrappers around what is called, around its argument and around credentials. -/
def wrappedText : String :=
  "class F extends B\x7bh()\x7b(eval)(m as 'a');new A(\x7bcredentials:(v)\x7d)\x7d\x7d"

/-- The same flow without them. -/
def unwrappedText : String :=
  "class F extends B\x7bh()\x7beval(m);new A(\x7bcredentials:v\x7d)\x7d\x7d"

theorem Analyzer.validate_trim_wrappedText : tokenAnalyzer.hostRules = [] ∧
    ∃ s s', Source.parse wrappedText = .ok s ∧ Source.parse unwrappedText = .ok s' ∧
      everything.Trims s' s ∧
      everything.Harmless tokenAnalyzer.config (tokenAnalyzer.flow s') (tokenAnalyzer.flow s) ∧
      (tokenAnalyzer.validate unwrappedText).diagnostics.map (fun d => (d.code, d.message)) =
        (tokenAnalyzer.validate wrappedText).diagnostics.map (fun d => (d.code, d.message)) ∧
      (tokenAnalyzer.validate wrappedText).diagnostics.map (·.code) = ["no-dynamic-code"] := by
  have hread : (Source.parse wrappedText).toOption.any fun s =>
      (Source.parse unwrappedText).toOption.any fun s' => decide (everything.Trims s' s) &&
        decide (everything.Harmless tokenAnalyzer.config (tokenAnalyzer.flow s')
          (tokenAnalyzer.flow s)) &&
        decide ((tokenAnalyzer.check s).diagnostics.map (·.code) = ["no-dynamic-code"]) := by
    decide +kernel
  obtain ⟨s, h, hread⟩ := exists_ok_of_any hread
  obtain ⟨s', h', hread⟩ := exists_ok_of_any hread
  simp only [Bool.and_eq_true, decide_eq_true_eq] at hread
  obtain ⟨⟨htrims, hharmless⟩, hcodes⟩ := hread
  rw [← validate_of_parse h] at hcodes
  exact ⟨rfl, s, s', h, h', htrims, hharmless,
    validate_trim tokenAnalyzer rfl h h' htrims hharmless, hcodes⟩

end FlowAnalysis
