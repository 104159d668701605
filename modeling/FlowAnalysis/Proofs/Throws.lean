import FlowAnalysis.Proofs.Codes
import FlowAnalysis.Proofs.Members

/-!
# The throw statements of the entry method

The entry method throws nothing itself: of the throw statements in its body exactly those are
reported that stand in no function and in no class inside it.  The body is looked through even if it
is a function or a class as a whole, and abstract classes are not told from blocks; apart from these
two cases the reports are exact.

## Main definitions

* `Method.Throws` — the throw statements of a method itself.
* `Method.isScopePlain` — a body without the two cases.

## Main results

* `Flow.mem_ownThrows_iff` — which throw statements are found, in every body.
* `Flow.pairwise_ownThrows` — they are found once each, in the order of the source.
* `Analyzer.exists_throws_of_validate` — **the reports of a text are the throw statements of its
  entry method itself, once each and in their order.**
-/

namespace FlowAnalysis

open Syntax

/-! ### Throw statements of a method itself -/

/-- Whether a throw statement below a node counts as one of what stands around the node: the node is
neither a scope nor a throw statement. -/
def Syntax.Tree.passesThrow (t : Tree) : Bool := !t.isScope && !t.is .throwStatement

namespace Method

/-- A throw statement of a method itself: it stands in the body, and no function, method or class of
any kind lies between, nor another throw statement. -/
def Throws (m : Method) (t : Tree) : Prop :=
  t.is .throwStatement ∧ ∃ body, m.body = some body ∧ body.Reaches Tree.passesThrow t

/-- Whether the body of a method is neither a function nor a class as a whole, and no abstract class
in it throws.  A body is a block or an expression, so it is no throw statement either. -/
def isScopePlain (m : Method) : Bool :=
  m.body.all fun body => body.passesThrow &&
    body.nodes.all fun n => !n.is .abstractClassDeclaration || n.nodes.all (!·.is .throwStatement)

end Method

namespace Flow

variable {body t : Tree}

/-- What the search for throw statements does at a node. -/
def throwVisit (t : Tree) : Visit :=
  if t.isFunctionLike then .skip else if t.is .throwStatement then .keep else .enter

theorem ownThrows_eq (body : Tree) :
    ownThrows body = (body.walkBelow throwVisit).filter (·.is .throwStatement) := rfl

theorem throwVisit_eq_enter_iff :
    throwVisit t = .enter ↔ t.isFunctionLike = false ∧ t.is .throwStatement = false := by
  unfold throwVisit
  cases t.isFunctionLike <;> cases t.is .throwStatement <;> simp

/-- A throw statement is no function and no class. -/
theorem isFunctionLike_of_is_throwStatement (h : t.is .throwStatement) :
    t.isFunctionLike = false := by
  rw [Tree.is_iff] at h
  simp [Tree.isFunctionLike, Tree.isAny, Tree.functionKinds, Tree.is, h]

/-- **Which throw statements are found**: the body itself is looked through whatever it is, below it
everything but functions, classes that are not abstract, and throw statements. -/
theorem mem_ownThrows_iff : t ∈ ownThrows body ↔ t.is .throwStatement ∧ (t = body ∨
    ∃ c ∈ body.children, c.Reaches (fun n => !n.isFunctionLike && !n.is .throwStatement) t) := by
  have hthrough : (fun n => decide (throwVisit n = .enter)) =
      fun n => !n.isFunctionLike && !n.is .throwStatement := by
    funext n
    rw [Bool.eq_iff_iff, decide_eq_true_eq, throwVisit_eq_enter_iff, Bool.and_eq_true,
      Bool.not_eq_true', Bool.not_eq_true']
  rw [ownThrows_eq, List.mem_filter, Tree.mem_walkBelow_iff, hthrough, and_comm]
  refine and_congr_right fun hthrow => or_congr_right ?_
  have hskip : throwVisit t ≠ .skip := by
    simp [throwVisit, isFunctionLike_of_is_throwStatement hthrow, hthrow]
  simp only [hskip, ne_eq, not_false_eq_true, and_true]

/-- **Throw statements are found once each, in the order of the source.** -/
theorem pairwise_ownThrows (h : LaidFrom body.start body.children body.stop)
    (hself : body.is .throwStatement = false) :
    (ownThrows body).Pairwise fun u v => u.stop ≤ v.start := by
  rw [ownThrows_eq]
  refine Tree.pairwise_apart_walkBelow h hself fun n hn henter => ?_
  rw [throwVisit_eq_enter_iff, hn] at henter
  simp at henter

/-- The throw statements that are found in the body of a method are those of the method itself, if
the method is plain. -/
theorem mem_ownThrows_iff_throws {m : Method} (hbody : m.body = some body)
    (hplain : m.isScopePlain) : t ∈ ownThrows body ↔ m.Throws t := by
  rw [Method.isScopePlain, hbody, Option.all_some, Bool.and_eq_true, List.all_eq_true] at hplain
  obtain ⟨hpasses, habstract⟩ := hplain
  rw [mem_ownThrows_iff, Method.Throws]
  simp only [hbody, Option.some.injEq, exists_eq_left']
  refine and_congr_right fun hthrow => ?_
  refine Tree.below_iff_reaches hpasses fun n hn ht => ?_
  have hopen : n.is .abstractClassDeclaration = false := by
    cases hclass : n.is .abstractClassDeclaration with
    | false => rfl
    | true =>
      have hno := habstract n hn
      rw [hclass, Bool.not_true, Bool.false_or, List.all_eq_true] at hno
      have hfree := hno t ht
      rw [hthrow] at hfree
      simp at hfree
  simp only [Tree.passesThrow, Tree.isScope, hopen, Bool.or_false]

end Flow

/-! ### Reports -/

namespace Analyzer

variable {a : Analyzer} {text : String} {s : Source} {c : FlowClass} {m : Method}

/-- **The reports of a text are the throw statements of its entry method itself, once each and in
their order**, if the entry method is plain. -/
theorem exists_throws_of_validate (hs : Source.parse text = .ok s)
    (hc : (a.flow s).flowClass? = some c) (hm : c.method? a.config.entryMethod = some m)
    (hhost : ∀ r ∈ a.hostRules, r.Avoids "throw-in-entry") (hplain : m.isScopePlain) :
    ∃ throws : List Tree, (∀ t, t ∈ throws ↔ m.Throws t) ∧
      throws.Pairwise (fun t u => t.stop ≤ u.start) ∧
      (a.validate text).diagnostics.filter (·.code = "throw-in-entry") =
        throws.map fun t => (a.flow s).diagnosticAt t (.throwInEntry a.config.entryMethod) := by
  have hreports : (a.validate text).diagnostics.filter (·.code = "throw-in-entry") =
      (a.flow s).checkThrows a.config m := by
    rw [validate_of_parse hs, filter_throwInEntry hhost hc, hm, Option.map_some, Option.getD_some]
  rw [hreports, Flow.checkThrows]
  cases hbody : m.body with
  | none =>
    refine ⟨[], fun t => ?_, .nil, rfl⟩
    simp [Method.Throws, hbody]
  | some body =>
    obtain ⟨u, hu, hmember⟩ := Flow.exists_member_of_mem_methods hc (List.mem_of_find?_eq_some hm)
    have hnodes := Tree.mem_nodes_trans hu (Flow.mem_nodes_of_body hmember hbody)
    have hlaid := (Tree.children_of_mem_nodes (rooted_of_parse hs).2.2.laid hnodes).1
    have hself : body.is .throwStatement = false := by
      simp only [Method.isScopePlain, hbody, Option.all_some, Bool.and_eq_true,
        Tree.passesThrow, Bool.not_eq_true'] at hplain
      exact hplain.1.2
    exact ⟨Flow.ownThrows body, fun t => Flow.mem_ownThrows_iff_throws hbody hplain,
      Flow.pairwise_ownThrows hlaid hself, rfl⟩

/-- A flow whose entry method throws twice itself and once in a function inside it. -/
def guardedText : String :=
  "class F extends B\x7bh()\x7bif(p)throw p;g(()=>\x7bthrow 1\x7d);throw 2\x7d\x7d"

/-- An analysis in which classes extend `B` and flows begin in `h`. -/
def guardedAnalyzer : Analyzer where
  registry := .ofList []
  config := { Config.standard with baseClass := "B", entryMethod := "h" }

theorem exists_throws_of_validate_guardedText : ∃ s c m,
    (Source.parse guardedText = .ok s ∧ (guardedAnalyzer.flow s).flowClass? = some c ∧
      c.method? "h" = some m ∧ m.isScopePlain) ∧
    ∃ throws : List Tree, throws.length = 2 ∧ (∀ t, t ∈ throws ↔ m.Throws t) ∧
      throws.Pairwise (fun t u => t.stop ≤ u.start) ∧
      (guardedAnalyzer.validate guardedText).diagnostics.filter (·.code = "throw-in-entry") =
        throws.map fun t => (guardedAnalyzer.flow s).diagnosticAt t (.throwInEntry "h") := by
  have hread : (Source.parse guardedText).toOption.any fun s =>
      (guardedAnalyzer.flow s).flowClass?.any fun c => (c.method? "h").any fun m =>
        m.isScopePlain && decide (((guardedAnalyzer.check s).diagnostics.filter
          (·.code = "throw-in-entry")).length = 2) := by decide +kernel
  cases hs : Source.parse guardedText with
  | error e =>
    rw [hs] at hread
    simp [Except.toOption] at hread
  | ok s =>
    rw [hs] at hread
    change (Option.any _ (some s)) = true at hread
    rw [Option.any_some] at hread
    obtain ⟨c, hc, hread⟩ := Option.any_eq_true _ _ |>.1 hread
    obtain ⟨m, hm, hread⟩ := Option.any_eq_true _ _ |>.1 hread
    simp only [Bool.and_eq_true, decide_eq_true_eq] at hread
    obtain ⟨hplain, hlength⟩ := hread
    obtain ⟨throws, hmem, horder, hreports⟩ :=
      exists_throws_of_validate (a := guardedAnalyzer) hs hc hm (by simp [guardedAnalyzer]) hplain
    refine ⟨s, c, m, ⟨rfl, hc, hm, hplain⟩, throws, ?_, hmem, horder, hreports⟩
    rw [← validate_of_parse hs, hreports, List.length_map] at hlength
    exact hlength

end Analyzer

end FlowAnalysis
