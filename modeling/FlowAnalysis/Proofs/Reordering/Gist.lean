import FlowAnalysis.Flow.Literal
import FlowAnalysis.Proofs.Matched
import FlowAnalysis.Proofs.Syntax.Nodes
import FlowAnalysis.Types.Env

/-!
# Sources with their declarations in another order

Two sources differ in nothing but the order in which they declare types if they are the same once
all declarations are left blank, and what they declare is the same but for the order.  Where something
stands on the text is no part of what is compared, since the declarations may differ in length.

## Main definitions

* `Gist`, `Syntax.Source.gist` — what a node says, wherever it stands.
* `Syntax.Source.frame` — what a source says beside the declarations that stand as statements.
* `Syntax.Source.Reorders` — sources with the same declarations in another order.
* `Alike`, `Fits` — nodes that say the same, all in all or beside the declarations below them.

## Main results

* `alike_iff`, `Alike.fits` — nodes that say the same have children that do.
* `Fits.forall₂_children`, `Fits.forall₂_slots` — nodes that say the same beside declarations have
  children that do, or that are both declarations.
-/

namespace FlowAnalysis

open Syntax

/-! ### Gists -/

/-- What a node says, wherever it stands. -/
inductive Gist
  /-- Nothing: a declaration of a type that is left blank. -/
  | blank (role : Option Role)
  /-- All of a node. -/
  | whole (label : Label) (role : Option Role) (text : List Char) (parts : List Gist)
  /-- The parts of a node, of which some are left blank. -/
  | opened (label : Label) (role : Option Role) (parts : List Gist)

namespace Gist

/-- Whether two labels are the same. -/
def sameLabel : Label → Label → Bool
  -- Kinds are compared as such, since this is what evaluates: an equation of labels would have to
  -- be carried over from one to the other.
  | .rule k, .rule k' => k = k'
  | l, l' => l = l'

theorem sameLabel_iff (l l' : Label) : sameLabel l l' ↔ l = l' := by
  cases l <;> cases l' <;> simp [sameLabel]

mutual

/-- Whether two nodes say the same. -/
def same : Gist → Gist → Bool
  | blank r, blank r' => r = r'
  | whole l r text ps, whole l' r' text' ps' =>
    sameLabel l l' && r = r' && text = text' && sameAll ps ps'
  | opened l r ps, opened l' r' ps' => sameLabel l l' && r = r' && sameAll ps ps'
  | _, _ => false

/-- Whether nodes say the same one by one. -/
def sameAll : List Gist → List Gist → Bool
  | [], [] => true
  | g :: gs, h :: hs => same g h && sameAll gs hs
  | _, _ => false

end

mutual

theorem same_iff (g h : Gist) : g.same h ↔ g = h := by
  match g, h with
  | blank _, blank _ => simp [same]
  | whole _ _ _ ps, whole _ _ _ ps' => simp [same, sameLabel_iff, sameAll_iff ps ps', and_assoc]
  | opened _ _ ps, opened _ _ ps' => simp [same, sameLabel_iff, sameAll_iff ps ps', and_assoc]
  | blank _, whole _ _ _ _ | blank _, opened _ _ _ | whole _ _ _ _, blank _
  | whole _ _ _ _, opened _ _ _ | opened _ _ _, blank _ | opened _ _ _, whole _ _ _ _ =>
    simp [same]

theorem sameAll_iff (gs hs : List Gist) : sameAll gs hs ↔ gs = hs := by
  match gs, hs with
  | [], [] => simp [sameAll]
  | [], _ :: _ | _ :: _, [] => simp [sameAll]
  | g :: gs, h :: hs => simp [sameAll, same_iff g h, sameAll_iff gs hs]

end

instance : DecidableEq Gist := fun g h => decidable_of_iff (g.same h) (same_iff g h)

end Gist

/-- The kinds of nodes whose children are statements. -/
def statementHolders : List Kind :=
  [.program, .statementBlock, .exportStatement, .ambientDeclaration, .ifStatement, .elseClause,
   .switchCase, .switchDefault, .forStatement, .forInStatement, .whileStatement, .doStatement,
   .labeledStatement, .withStatement]

/-- Whether a node is a declaration of a type that stands as a statement. -/
def isBlank (parent t : Tree) : Bool := parent.isAny statementHolders && isTypeDeclaration t

/-- The kinds of nodes whose text makes a difference as it is written. -/
def writtenKinds : List Kind :=
  [.importStatement, .extendsClause, .string, .number, .identifier, .propertyIdentifier,
   .privatePropertyIdentifier, .shorthandPropertyIdentifier, .shorthandPropertyIdentifierPattern,
   .typeIdentifier]

/-- Whether the text of a node makes a difference as it is written. -/
def isWritten (t : Tree) : Bool :=
  t.isAny writtenKinds || t.children.isEmpty ||
    t.is .templateString && !t.children.any (·.is .templateSubstitution)

/-- Whether a node is a type or the name of something other than a variable.  A statement in place
of parameters, which the grammar does not know, counts too. -/
def isHeld (parent t : Tree) : Bool :=
  t.role = some .type || t.role = some .name && !parent.is .variableDeclarator ||
    t.isAny statementHolders &&
      (t.role = some .parameters || t.role = some .parameter || parent.role = some .parameters)

namespace Syntax.Source

mutual

/-- All that a node says. -/
def gist (s : Source) : Tree → Gist
  | .node l r span ts => .whole l r (s.chars (.node l r span ts)) (s.gists ts)

/-- All that some nodes say. -/
def gists (s : Source) : List Tree → List Gist
  | [] => []
  | t :: ts => s.gist t :: s.gists ts

end

mutual

/-- What a child of a node says beside the declarations that stand as statements. -/
def frameIn (s : Source) (parent : Tree) : Tree → Gist
  | .node l r span ts =>
    let t := Tree.node l r span ts
    if isBlank parent t then .blank r
    else if isWritten t || isHeld parent t then s.gist t
    else .opened l r (s.framesIn t ts)

/-- What some children of a node say beside the declarations that stand as statements. -/
def framesIn (s : Source) (parent : Tree) : List Tree → List Gist
  | [] => []
  | t :: ts => s.frameIn parent t :: s.framesIn parent ts

end

/-- What a source says beside the declarations that stand as statements. -/
def frame (s : Source) : Gist := s.frameIn s.root s.root

/-- The declarations of types in a node, those inside others left out. -/
def declarationsIn (t : Tree) : List Tree :=
  (t.walk fun t => if isTypeDeclaration t then .keep else .enter).filter isTypeDeclaration

/-- What the declarations of types in a source say, whatever part they play. -/
def declarationGists (s : Source) : List Gist :=
  (declarationsIn s.root).map fun t => s.gist (t.withRole none)

/-- Two sources are the same but for the order of their declarations of types. -/
structure Reorders (s' s : Source) : Prop where
  frame : s'.frame = s.frame
  declarations : s'.declarationGists.Perm s.declarationGists

instance (s' s : Source) : Decidable (s'.Reorders s) :=
  decidable_of_iff (s'.frame = s.frame ∧ s'.declarationGists.Perm s.declarationGists)
    ⟨fun h => ⟨h.1, h.2⟩, fun h => ⟨h.1, h.2⟩⟩

theorem gists_eq (s : Source) (ts : List Tree) : s.gists ts = ts.map s.gist := by
  induction ts with
  | nil => rfl
  | cons t ts ih => rw [gists, ih, List.map_cons]

theorem gist_eq (s : Source) (t : Tree) :
    s.gist t = .whole t.label t.role (s.chars t) (t.children.map s.gist) := by
  obtain ⟨l, r, span, ts⟩ := t
  rw [gist, gists_eq]
  rfl

theorem framesIn_eq (s : Source) (p : Tree) (ts : List Tree) :
    s.framesIn p ts = ts.map (s.frameIn p) := by
  induction ts with
  | nil => rfl
  | cons t ts ih => rw [framesIn, ih, List.map_cons]

theorem frameIn_eq (s : Source) (p t : Tree) : s.frameIn p t =
    if isBlank p t then .blank t.role
    else if isWritten t || isHeld p t then s.gist t
    else .opened t.label t.role (t.children.map (s.frameIn t)) := by
  obtain ⟨l, r, span, ts⟩ := t
  rw [frameIn, framesIn_eq]
  rfl

end Syntax.Source

/-! ### Nodes that say the same -/

variable {s' s : Source} {p' p t' t c' c : Tree}

/-- Two nodes of two sources say the same. -/
def Alike (s' s : Source) (t' t : Tree) : Prop := s'.gist t' = s.gist t

theorem map_eq_iff_forall₂ {α' α γ : Type} {F' : α' → γ} {F : α → γ} {l' : List α'} {l : List α} :
    l'.map F' = l.map F ↔ List.Forall₂ (fun x' x => F' x' = F x) l' l := by
  rw [← List.forall₂_eq_eq_eq, List.forall₂_map_left_iff, List.forall₂_map_right_iff]

theorem alike_iff : Alike s' s t' t ↔ t'.label = t.label ∧ t'.role = t.role ∧
    s'.chars t' = s.chars t ∧ List.Forall₂ (Alike s' s) t'.children t.children := by
  rw [Alike, Source.gist_eq, Source.gist_eq, Gist.whole.injEq, map_eq_iff_forall₂]
  rfl

/-- Two labels are the same, so the nodes are of the same kinds. -/
theorem Syntax.Tree.is_eq_of_label (h : t'.label = t.label) (k : Kind) : t'.is k = t.is k := by
  rw [Tree.is, Tree.is, h]

theorem Syntax.Tree.isAny_eq_of_label (h : t'.label = t.label) (ks : List Kind) :
    t'.isAny ks = t.isAny ks := by
  rw [Tree.isAny, Tree.isAny]
  exact congrArg ks.any (funext fun k => Tree.is_eq_of_label h k)

theorem Syntax.Tree.isNamed_eq_of_label (h : t'.label = t.label) : t'.isNamed = t.isNamed := by
  rw [Tree.isNamed, Tree.isNamed, h]

theorem isBlank_eq_of_label (hp : p'.label = p.label) (h : t'.label = t.label) :
    isBlank p' t' = isBlank p t := by
  rw [isBlank, isBlank, isTypeDeclaration, isTypeDeclaration, Tree.isAny_eq_of_label hp,
    Tree.isAny_eq_of_label h]

namespace Alike

variable (h : Alike s' s t' t)

include h

theorem label : t'.label = t.label := (alike_iff.1 h).1

theorem role : t'.role = t.role := (alike_iff.1 h).2.1

theorem chars : s'.chars t' = s.chars t := (alike_iff.1 h).2.2.1

theorem textOf : s'.textOf t' = s.textOf t := congrArg String.ofList h.chars

theorem children : List.Forall₂ (Alike s' s) t'.children t.children := (alike_iff.1 h).2.2.2

theorem named : List.Forall₂ (Alike s' s) t'.named t.named :=
  h.children.filter fun c' c hc => by
    rw [Tree.isNamed_eq_of_label hc.label, Tree.is_eq_of_label hc.label]

theorem field? (r : Role) : Option.Rel (Alike s' s) (t'.field? r) (t.field? r) :=
  h.children.find? fun c' c hc => by rw [hc.role]

theorem firstNamed? : Option.Rel (Alike s' s) t'.firstNamed? t.firstNamed? := h.named.head?

theorem stringValue? : s'.stringValue? t' = s.stringValue? t := by
  have hany : t'.children.any (·.is .templateSubstitution) =
      t.children.any (·.is .templateSubstitution) :=
    h.children.any_eq fun c' c hc => Tree.is_eq_of_label hc.label _
  unfold Source.stringValue?
  rw [h.chars, Tree.is_eq_of_label h.label, Tree.is_eq_of_label h.label, hany]

theorem propertyName? : s'.propertyName? t' = s.propertyName? t := by
  unfold Source.propertyName?
  rw [Tree.isAny_eq_of_label h.label, Tree.is_eq_of_label h.label, h.textOf, h.stringValue?]

theorem isWritten_eq : isWritten t' = isWritten t := by
  have hany : t'.children.any (·.is .templateSubstitution) =
      t.children.any (·.is .templateSubstitution) :=
    h.children.any_eq fun c' c hc => Tree.is_eq_of_label hc.label _
  have hempty : t'.children.isEmpty = t.children.isEmpty := by
    rw [Bool.eq_iff_iff, List.isEmpty_iff_length_eq_zero, List.isEmpty_iff_length_eq_zero,
      h.children.length_eq]
  rw [isWritten, isWritten, Tree.isAny_eq_of_label h.label, Tree.is_eq_of_label h.label, hempty,
    hany]

end Alike

/-- The nodes below nodes that say the same say the same. -/
theorem Alike.forall₂_nodes (h : Alike s' s t' t) :
    List.Forall₂ (Alike s' s) t'.nodes t.nodes := by
  induction t using Tree.induction generalizing t' with
  | node l r span ts ih =>
    rw [Tree.nodes_eq, Tree.nodes_eq, Tree.nodesOf_eq, Tree.nodesOf_eq]
    exact .cons h (h.children.flatMap_of_mem fun c' c hc hcc => ih c hc hcc)

/-! ### Nodes that say the same beside declarations -/

/-- Two nodes of two sources say the same beside the declarations below them that stand as
statements, and if their text makes a difference they say the same all in all. -/
structure Fits (s' s : Source) (t' t : Tree) : Prop where
  label : t'.label = t.label
  role : t'.role = t.role
  frames : t'.children.map (s'.frameIn t') = t.children.map (s.frameIn t)
  written : isWritten t → Alike s' s t' t

/-- Two nodes say the same beside declarations, or both are declarations. -/
inductive Slot (s' s : Source) (t' t : Tree) : Prop
  /-- Both are declarations, which may differ. -/
  | blank (h' : isTypeDeclaration t') (h : isTypeDeclaration t) (hrole : t'.role = t.role)
  /-- They say the same beside declarations. -/
  | fits (h : Fits s' s t' t)

/-- **Nodes that say the same do so beside declarations.** -/
theorem Alike.frameIn_eq (h : Alike s' s t' t) (hp : p'.label = p.label)
    (hrole : p'.role = p.role) : s'.frameIn p' t' = s.frameIn p t := by
  induction t using Tree.induction generalizing t' p' p with
  | node l r span ts ih =>
    have hheld : isHeld p' t' = isHeld p (.node l r span ts) := by
      rw [isHeld, isHeld, h.role, Tree.is_eq_of_label hp, Tree.isAny_eq_of_label h.label, hrole]
    rw [Source.frameIn_eq, Source.frameIn_eq, isBlank_eq_of_label hp h.label, h.isWritten_eq, hheld,
      h.role, h.label]
    split
    · rfl
    · split
      · exact h
      · congr 1
        rw [map_eq_iff_forall₂]
        exact h.children.imp_of_mem fun c' c hc hcc => ih c hc hcc h.label h.role

theorem Alike.fits (h : Alike s' s t' t) : Fits s' s t' t where
  label := h.label
  role := h.role
  frames := map_eq_iff_forall₂.2 (h.children.imp fun _ _ hc => hc.frameIn_eq h.label h.role)
  written _ := h

/-- What is the same of two children beside declarations. -/
theorem slot_of_frameIn_eq (h : s'.frameIn p' t' = s.frameIn p t) :
    Slot s' s t' t ∧ (isBlank p t = false → Fits s' s t' t ∧ (isHeld p t → Alike s' s t' t)) := by
  rw [Source.frameIn_eq, Source.frameIn_eq] at h
  cases hblank : isBlank p t with
  | true =>
    rw [hblank, if_pos rfl] at h
    refine ⟨?_, by simp⟩
    split at h
    · next hblank' =>
      have hdeclaration' := (Bool.and_eq_true_iff.1 hblank').2
      exact .blank hdeclaration' (Bool.and_eq_true_iff.1 hblank).2 (Gist.blank.inj h)
    · split at h
      · rw [Source.gist_eq] at h
        exact Gist.noConfusion h
      · exact Gist.noConfusion h
  | false =>
    rw [hblank, if_neg Bool.false_ne_true] at h
    have hfits : Fits s' s t' t ∧ (isHeld p t → Alike s' s t' t) := by
      split at h
      · split at h
        · rw [Source.gist_eq] at h
          exact Gist.noConfusion h
        · exact Gist.noConfusion h
      · split at h
        · split at h
          · exact ⟨Alike.fits h, fun _ => h⟩
          · rw [Source.gist_eq] at h
            exact Gist.noConfusion h
        · split at h
          · rw [Source.gist_eq] at h
            exact Gist.noConfusion h
          · next hkept =>
            obtain ⟨hlabel, hrole, hframes⟩ := Gist.opened.inj h
            simp only [Bool.or_eq_true, not_or] at hkept
            exact ⟨⟨hlabel, hrole, hframes, fun hw => absurd hw hkept.1⟩,
              fun hheld => absurd hheld hkept.2⟩
    exact ⟨.fits hfits.1, fun _ => hfits⟩

namespace Fits

variable (h : Fits s' s t' t)

include h

/-- **The children of nodes that say the same beside declarations** do so too, or both are
declarations. -/
theorem forall₂_slots : List.Forall₂ (Slot s' s) t'.children t.children :=
  (map_eq_iff_forall₂.1 h.frames).imp fun _ _ hc => (slot_of_frameIn_eq hc).1

/-- Below a node whose children are no statements there are no declarations that may differ. -/
theorem forall₂_children (hholder : t.isAny statementHolders = false) :
    List.Forall₂ (fun c' c => Fits s' s c' c ∧ (isHeld t c → Alike s' s c' c)) t'.children
      t.children := by
  refine (map_eq_iff_forall₂.1 h.frames).imp fun c' c hc => (slot_of_frameIn_eq hc).2 ?_
  rw [isBlank, hholder, Bool.false_and]

end Fits

end FlowAnalysis
