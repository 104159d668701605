import FlowAnalysis.Proofs.Syntax.Combinators
import FlowAnalysis.Proofs.Syntax.Nodes

/-!
# Readers keep statements in place

A branch or a loop is a statement, so it is a part of a text, of a block, of a case, or of another
statement that has statements as its parts.  Expressions, types and declarations have none among
their parts, and what an interface or a list of parameters is made of has no statements as its parts
either.  As with layout, there is one instance for each combinator, and instance search goes through
a reader as it is written.

## Main definitions

* `Ban` — what may not stand among some trees.
* `Role.admits` — the kinds of the nodes in a role.
* `Tree.Placed` — nothing stands where it is banned.
* `Reader.Places` — a reader that keeps what has been read in place.
* `Reader.Yields` — a reader that reads a node last which may get a role.

## Main results

* `Reader.places_nodeBy`, `Reader.places_wrap` — nodes are made up of what is in place.
-/

namespace FlowAnalysis.Syntax

open Lexeme

/-! ### Trees -/

/-- What may not stand among some trees. -/
inductive Ban
  | nothing
  /-- Branches and loops. -/
  | branches
  /-- Whatever has statements among its parts. -/
  | statements

/-- Whether no more than branches and loops are banned. -/
@[reducible] def Ban.lenient : Ban → Bool
  | statements => false
  | _ => true

/-- The kinds whose nodes have statements among their parts. -/
@[reducible] def Kind.enclosing : Kind → Bool
  | program | ambientDeclaration | statementBlock | switchCase | switchDefault | labeledStatement
  | withStatement => true
  | k => k.owner

/-- The kinds whose nodes may stand where no branch and no loop does. -/
@[reducible] def Kind.unbranching (k : Kind) : Bool :=
  match k.owner with
  | true => false
  | false => true

/-- What may not stand among the children of a node of a kind. -/
@[reducible] def Kind.ban (k : Kind) : Ban :=
  match k, k.enclosing with
  | _, true => .nothing
  | interfaceDeclaration, _ | formalParameters, _ => .statements
  | _, _ => .branches

/-- The kinds whose nodes have no statements among their parts and may be made up of any others. -/
@[reducible] def Kind.plain (k : Kind) : Bool :=
  match k.ban with
  | .branches => true
  | _ => false

/-- The kinds whose nodes are made up of what has no statements among its parts. -/
@[reducible] def Kind.strict (k : Kind) : Bool :=
  match k.ban with
  | .statements => true
  | _ => false

/-- The kinds of the nodes that may stand in a role: parameters stand in a list of them, or there is
one that is a name or a pattern. -/
@[reducible] def Role.admits : Role → Kind → Bool
  | .parameters, .formalParameters => true
  | .parameters, _ => false
  | .parameter, .identifier | .parameter, .objectPattern | .parameter, .arrayPattern => true
  | .parameter, _ => false
  | _, _ => true

/-- The roles in which any nodes may stand. -/
@[reducible] def Role.loose : Option Role → Bool
  | some .parameters | some .parameter => false
  | _ => true

/-- Nothing is banned among the parts of a node that has statements among them, and something is
among those of every other node. -/
theorem Kind.ban_cases (k : Kind) : k.enclosing ∧ k.ban = .nothing ∨
    k.enclosing = false ∧ (k.ban = .branches ∨ k.ban = .statements) := by
  cases henclosing : k.enclosing with
  | true => exact .inl ⟨rfl, by unfold ban; rw [henclosing]⟩
  | false =>
    refine .inr ⟨rfl, ?_⟩
    unfold ban
    rw [henclosing]
    split
    · next h => cases h
    · exact .inr rfl
    · exact .inr rfl
    · exact .inl rfl

theorem Kind.ban_of_plain {k : Kind} (h : k.plain) : k.ban = .branches := by
  unfold plain at h
  split at h
  · assumption
  · cases h

theorem Kind.enclosing_of_plain {k : Kind} (h : k.plain) : k.enclosing = false := by
  rcases k.ban_cases with ⟨-, hban⟩ | ⟨henclosing, -⟩
  · simp [ban_of_plain h] at hban
  · exact henclosing

theorem Kind.ban_of_enclosing {k : Kind} (h : k.enclosing) : k.ban = .nothing := by
  rcases k.ban_cases with ⟨-, hban⟩ | ⟨henclosing, -⟩
  · exact hban
  · simp [h] at henclosing

theorem Kind.ban_of_strict {k : Kind} (h : k.strict) :
    k.ban = .statements ∧ k.enclosing = false := by
  rcases k.ban_cases with ⟨-, hban⟩ | ⟨henclosing, hban | hban⟩
  · simp [strict, hban] at h
  · simp [strict, hban] at h
  · exact ⟨hban, henclosing⟩

theorem Kind.owner_of_enclosing {k : Kind} (h : k.enclosing = false) : k.owner = false := by
  unfold enclosing at h
  split at h
  all_goals first | exact h | cases h

/-- A parameter has no statements among its parts. -/
theorem Role.enclosing_of_admits {k : Kind} (h : Role.admits .parameter k) :
    k.enclosing = false := by
  unfold admits at h
  split at h <;> simp_all

theorem Role.eq_of_admits {k : Kind} (h : Role.admits .parameters k) : k = .formalParameters := by
  unfold admits at h
  split at h
  · rfl
  all_goals simp_all

namespace Tree

/-- Whether a node has statements among its parts. -/
def isEnclosing (t : Tree) : Bool :=
  match t.label with
  | .rule k => k.enclosing
  | _ => false

/-- What may not stand among the children of a node. -/
def ban (t : Tree) : Ban :=
  match t.label with
  | .rule k => k.ban
  | _ => .branches

/-- Whether a node may stand in its role. -/
def suits (t : Tree) : Bool :=
  match t.role, t.label with
  | some r, .rule k => r.admits k
  | r, _ => Role.loose r

/-- Whether a node may stand where something is banned. -/
def respects (t : Tree) : Ban → Bool
  | .nothing => t.suits
  | .branches => t.suits && !t.isOwner
  | .statements => t.suits && !t.isEnclosing

/-- Nothing stands where it is banned. -/
def Placed (t : Tree) : Prop := ∀ n ∈ t.nodes, ∀ c ∈ n.children, c.respects n.ban

/-- Nothing stands where it is banned, the tree itself included. -/
def Settled (b : Ban) (t : Tree) : Prop := t.Placed ∧ t.respects b

end Tree

section

variable {b : Ban} {t : Tree} {k : Kind} {ts : List Tree}

theorem Tree.isOwner_of_isEnclosing (h : t.isEnclosing = false) : t.isOwner = false := by
  unfold isEnclosing at h
  unfold isOwner
  cases hlabel : t.label with
  | rule k => exact Kind.owner_of_enclosing (by simpa only [hlabel] using h)
  | _ => rfl

theorem Tree.isEnclosing_of_isOwner (h : t.isOwner) : t.isEnclosing := by
  by_contra hnot
  simp [isOwner_of_isEnclosing (Bool.eq_false_iff.2 hnot)] at h

theorem Tree.suits_of_role (h : t.role = none) : t.suits := by
  rw [suits, h]

/-- Parameters stand in a list of them. -/
theorem Tree.label_of_suits (h : t.suits) (hrole : t.role = some .parameters) :
    t.label = .rule .formalParameters := by
  rw [suits, hrole] at h
  cases hl : t.label with
  | rule k => exact congrArg Label.rule (Role.eq_of_admits (by simpa only [hl] using h))
  | _ => simp [hl] at h

theorem Tree.isEnclosing_of_suits (h : t.suits) (hrole : t.role = some .parameter) :
    t.isEnclosing = false := by
  rw [suits, hrole] at h
  rw [isEnclosing]
  cases hl : t.label with
  | rule k => exact Role.enclosing_of_admits (by simpa only [hl] using h)
  | _ => rfl

theorem Tree.suits_of_respects (h : t.respects b) : t.suits := by
  cases b with
  | nothing => exact h
  | branches => exact (Bool.and_eq_true_iff.1 h).1
  | statements => exact (Bool.and_eq_true_iff.1 h).1

theorem Tree.respects_of_isEnclosing (hrole : t.role = none) (h : t.isEnclosing = false)
    (b : Ban) : t.respects b := by
  cases b <;> simp [respects, suits_of_role hrole, isOwner_of_isEnclosing h, h]

/-- Where no statement stands, there is no branch and no loop. -/
theorem Tree.isOwner_of_respects {c : Tree} (h : t.isEnclosing = false) (hc : c.respects t.ban) :
    c.isOwner = false := by
  unfold isEnclosing at h
  unfold ban at hc
  cases hlabel : t.label with
  | rule k =>
    simp only [hlabel] at h hc
    revert hc
    cases hban : k.ban with
    | nothing =>
      rcases k.ban_cases with ⟨henclosing, -⟩ | ⟨-, hbanned⟩
      · simp [h] at henclosing
      · simp [hban] at hbanned
    | branches => exact fun hc => by simpa using (Bool.and_eq_true_iff.1 hc).2
    | statements =>
      exact fun hc => isOwner_of_isEnclosing (by simpa using (Bool.and_eq_true_iff.1 hc).2)
  | _ =>
    simp only [hlabel] at hc
    simpa using (Bool.and_eq_true_iff.1 hc).2

/-- Where statements are banned, there are none among the parts of what stands there. -/
theorem Tree.isEnclosing_of_respects (h : t.respects .statements) : t.isEnclosing = false := by
  simpa using (Bool.and_eq_true_iff.1 h).2

theorem Tree.Settled.loosen (h : t.Settled b) : t.Settled .nothing := ⟨h.1, suits_of_respects h.2⟩

theorem Tree.placed_node {l : Label} {r : Option Role} {span : Span}
    (h : ∀ t ∈ ts, t.respects (Tree.node l r span ts).ban) (hts : ∀ t ∈ ts, t.Placed) :
    (Tree.node l r span ts).Placed := by
  intro n hn
  rcases Tree.mem_nodes.1 hn with rfl | ⟨t, ht, hn⟩
  · exact h
  · exact hts t ht n hn

theorem Tree.placed_withRole {r : Option Role} (h : t.Placed) : (t.withRole r).Placed := by
  obtain ⟨l, r', span, ts⟩ := t
  exact Tree.placed_node (h (.node l r' span ts) (self_mem_nodes _)) fun t ht n hn =>
    h n (nodes_subset ht n hn)

theorem Tree.suits_withRole {r : Option Role} (hr : Role.loose r) : (t.withRole r).suits := by
  obtain ⟨l, r', span, ts⟩ := t
  cases r with
  | none => rfl
  | some r =>
    revert hr
    cases l <;> cases r <;> simp [suits, withRole, Tree.role, Tree.label]

theorem Tree.settled_withRole {r : Option Role} (hr : (t.withRole r).suits) (h : t.Settled b) :
    (t.withRole r).Settled b := by
  refine ⟨placed_withRole h.1, ?_⟩
  have hrespects := h.2
  cases b with
  | nothing => exact hr
  | branches => exact Bool.and_eq_true_iff.2 ⟨hr, (Bool.and_eq_true_iff.1 hrespects).2⟩
  | statements => exact Bool.and_eq_true_iff.2 ⟨hr, (Bool.and_eq_true_iff.1 hrespects).2⟩

theorem settled_leafOf {l : Label} {i j : Nat} (hl : (State.leafOf l i j).isEnclosing = false) :
    (State.leafOf l i j).Settled b :=
  ⟨Tree.placed_node (List.forall_mem_nil _) (List.forall_mem_nil _),
    Tree.respects_of_isEnclosing rfl hl b⟩

theorem settled_extra? {s : State} {t : Tree} (h : s.extra? = some t) : t.Settled b := by
  obtain ⟨l, j, rfl, rfl | ⟨rfl | rfl, _⟩⟩ := State.extra?_cases h <;> exact settled_leafOf rfl

theorem settled_flushUpTo {n : Nat} {s : State} (h : ∀ z ∈ s.out, z.Settled b) :
    ∀ z ∈ (State.flushUpTo n s).out, z.Settled b := by
  induction n generalizing s with
  | zero => exact h
  | succ n ih =>
    rw [State.flushUpTo]
    split
    · next t ht =>
      split
      · exact ih (List.forall_mem_cons.2 ⟨settled_extra? ht, h⟩)
      · exact h
    · exact h

theorem settled_flush {s : State} (h : ∀ z ∈ s.out, z.Settled b) :
    ∀ z ∈ s.flush.out, z.Settled b := settled_flushUpTo h

theorem settled_assemble {pos : Nat} (hk : (Reader.assemble k ts pos).respects b)
    (hts : ∀ t ∈ ts, t.Settled k.ban) : (Reader.assemble k ts pos).Settled b :=
  ⟨Tree.placed_node (fun t ht => (hts t (List.mem_reverse.1 ht)).2) fun t ht =>
    (hts t (List.mem_reverse.1 ht)).1, hk⟩

theorem respects_assemble {pos : Nat} (hk : k.enclosing = false) :
    (Reader.assemble k ts pos).respects b :=
  Tree.respects_of_isEnclosing (t := Reader.assemble k ts pos) rfl hk b

theorem settled_mark {role : Role} (hrole : Role.loose (some role)) (h : ∀ z ∈ ts, z.Settled b) :
    ∀ z ∈ Reader.mark role ts, z.Settled b := by
  induction ts with
  | nil => exact h
  | cons t ts ih =>
    rw [List.forall_mem_cons] at h
    rw [Reader.mark]
    split
    · exact List.forall_mem_cons.2 ⟨h.1, ih h.2⟩
    · exact List.forall_mem_cons.2 ⟨Tree.settled_withRole (Tree.suits_withRole hrole) h.1, h.2⟩

end

/-! ### Readers -/

/-- A reader that keeps what has been read in place, where something is banned before and after. -/
class Reader.Places {α : Type} (r : Reader α) (before after : Ban) : Prop where
  settled : ∀ {s a t}, r s = .done a t → (∀ z ∈ s.out, z.Settled before) →
    ∀ z ∈ t.out, z.Settled after

/-- A reader that reads a node last which may get a role. -/
class Reader.Yields (r : Reader Unit) (role : Role) : Prop where
  last : ∀ {s a t}, r s = .done a t → ∃ c k ts, t.out = c :: ts ∧ c.label = .rule k ∧
    role.admits k ∧ k.bare

instance holds_plain_of_textual {kind : Kind} [h : Holds kind.textual] : Holds kind.plain := by
  have hk := h.holds
  constructor
  revert hk
  cases kind <;> simp

namespace Reader

variable {α β : Type} {m before after : Ban}

/-- Where anything may stand in front, there may be no branches. -/
instance (priority := 10) places_loose {r : Reader α} [h : r.Places .nothing .nothing] :
    r.Places .branches .nothing :=
  ⟨fun ht hs => h.settled ht fun z hz => (hs z hz).loosen⟩

/-- Where anything may follow, there may be no branches. -/
instance (priority := 10) places_wide {r : Reader α} [h : r.Places .branches .branches] :
    r.Places .branches .nothing :=
  ⟨fun ht hs z hz => (h.settled ht hs z hz).loosen⟩

theorem places_andThen {r : Reader α} {f : α → Reader β} (hr : r.Places before m)
    (hf : ∀ a, (f a).Places m after) : (r >>= f).Places before after := by
  constructor
  intro s b u h hs
  obtain ⟨a, t, ht, hu⟩ := andThen_eq_done h
  exact (hf a).settled hu (hr.settled ht hs)

instance places_bind {r : Reader α} {f : α → Reader β} [hr : r.Places m m]
    [hf : ∀ a, (f a).Places m m] : (r >>= f).Places m m := places_andThen hr hf

instance places_bind_first {r : Reader α} {f : α → Reader β} [hr : r.Places .branches .branches]
    [hf : ∀ a, (f a).Places .branches .nothing] : (r >>= f).Places .branches .nothing := places_andThen hr hf

instance places_give {a : α} : (give a).Places m m := by
  constructor
  rintro s b t ⟨⟩
  exact id

instance places_current : current.Places m m := by
  constructor
  rintro s b t ⟨⟩
  exact id

instance places_refuse : (refuse : Reader α).Places before after := by
  constructor
  intro s b t h
  simp [refuse] at h

instance places_require {p : State → Bool} : (require p).Places m m := by
  constructor
  intro s a t h
  unfold require at h
  split at h
  · obtain ⟨rfl, rfl⟩ := Reply.done.inj h
    exact id
  · simp [refuse] at h

instance places_ahead {r : Reader α} : (ahead r).Places m m := by
  constructor
  intro s a t h
  unfold ahead at h
  split at h
  all_goals
    obtain ⟨-, rfl⟩ := Reply.done.inj h
    exact id

theorem places_or {r q : Reader α} (hr : r.Places before after) (hq : q.Places before after) :
    (orElse r q).Places before after := by
  constructor
  intro s a t h
  unfold orElse at h
  split at h
  · next b u hu =>
    obtain ⟨rfl, rfl⟩ := Reply.done.inj h
    exact hr.settled hu
  · have hsettled := hq.settled h
    exact hsettled

instance places_orElse {r q : Reader α} [hr : r.Places before after]
    [hq : q.Places before after] : (r <|> q).Places before after := places_or hr hq

instance places_maybe {r : Reader Unit} [hr : r.Places m m] : (maybe r).Places m m :=
  places_or hr places_give

instance places_onlyIf {p : State → Bool} {r : Reader Unit} [hr : r.Places m m] :
    (onlyIf p r).Places m m := by
  constructor
  intro s a t h
  unfold onlyIf at h
  split at h
  · exact hr.settled h
  · obtain ⟨rfl, rfl⟩ := Reply.done.inj h
    exact id

instance places_ite {c : Prop} [Decidable c] {r q : Reader α} [hr : r.Places before after]
    [hq : q.Places before after] : (if c then r else q).Places before after := by
  split
  · exact hr
  · exact hq

/-- A reader may look at the state from which it starts. -/
theorem places_at {f : State → Reader α} (h : ∀ s, (f s).Places before after) :
    Places (fun s => f s s) before after :=
  ⟨fun {s _ _} ht => (h s).settled ht⟩

/-- A reader may look at the state before it reads. -/
theorem places_look {f : State → Reader α} (h : ∀ s, (f s).Places before after) :
    (current >>= f).Places before after := by
  constructor
  intro s a t ht
  obtain ⟨_, _, hs, ht⟩ := andThen_eq_done ht
  obtain ⟨rfl, rfl⟩ := Reply.done.inj hs
  exact (h s).settled ht

theorem places_manyUpTo {r : Reader Unit} (hr : r.Places m m) : ∀ n, (manyUpTo r n).Places m m := by
  intro n
  induction n with
  | zero => exact places_give
  | succ n ih =>
    constructor
    intro s a t h
    simp only [manyUpTo] at h
    split at h
    · obtain ⟨-, rfl⟩ := Reply.done.inj h
      exact id
    · next u hu =>
      split at h
      · obtain ⟨-, rfl⟩ := Reply.done.inj h
        exact hr.settled hu
      · exact fun hs => ih.settled h (hr.settled hu hs)

instance places_many {r : Reader Unit} [hr : r.Places m m] : (many r).Places m m :=
  ⟨fun ht => (places_manyUpTo hr _).settled ht⟩

instance places_within {endable operable : Bool} {r : Reader α} [hr : r.Places before after] :
    (within endable operable r).Places before after := by
  constructor
  intro s a t h
  unfold within at h
  split at h
  · next b u hu =>
    obtain ⟨rfl, rfl⟩ := Reply.done.inj h
    have hsettled := hr.settled hu
    exact hsettled
  · simp at h

instance places_bracketed {r : Reader α} [hr : r.Places before after] :
    (bracketed r).Places before after := places_within

instance places_operand {r : Reader α} [hr : r.Places before after] :
    (operand r).Places before after :=
  places_at (f := fun s => within s.endable true r) fun _ => places_within

instance places_typed {r : Reader α} [hr : r.Places before after] :
    (typed r).Places before after :=
  places_at (f := fun s => within s.endable false r) fun _ => places_within

instance places_inRole {role : Role} {r : Reader Unit} [hrole : Holds (Role.loose (some role))]
    [hr : r.Places before after] : (inRole role r).Places before after := by
  constructor
  intro s a t h hs
  obtain ⟨b, u, hu, rfl⟩ := inRole_eq_done h
  exact settled_mark hrole.holds (hr.settled hu hs)

/-- What has been read last gets the role. -/
instance places_inRole_yields {role : Role} {r : Reader Unit} [hlast : r.Yields role]
    [hr : r.Places before after] : (inRole role r).Places before after := by
  constructor
  intro s a t h hs
  obtain ⟨b, u, hu, rfl⟩ := inRole_eq_done h
  obtain ⟨c, k, ts, hout, hlabel, hadmits, hbare⟩ := hlast.last hu
  obtain ⟨-, hcomment, hhtml⟩ := (Kind.bare_iff k).1 hbare
  have hsettled := hr.settled hu hs
  rw [hout, List.forall_mem_cons] at hsettled
  have hsuits : (c.withRole (some role)).suits := by
    obtain ⟨l, r', span, cs⟩ := c
    obtain rfl : l = .rule k := hlabel
    exact hadmits
  show ∀ z ∈ mark role u.out, z.Settled after
  rw [hout, mark, if_neg (by simp [Tree.isAny, Tree.is, hlabel, hcomment, hhtml])]
  exact List.forall_mem_cons.2 ⟨Tree.settled_withRole hsuits hsettled.1, hsettled.2⟩

/-! ### Tokens and names -/

theorem settled_push {l : Label} {fresh : Bool} {stop : Nat} {s t : State} {a : Unit}
    (h : push l fresh stop s = .done a t) (hl : ∀ i, (State.leafOf l i stop).isEnclosing = false)
    (hs : ∀ z ∈ s.out, z.Settled m) : ∀ z ∈ t.out, z.Settled m := by
  obtain ⟨-, rfl⟩ := Reply.done.inj h
  exact List.forall_mem_cons.2 ⟨settled_leafOf (hl _), settled_flush hs⟩

instance places_suppliable {what name : String} {fresh : Bool} {r : Reader Unit}
    [hr : r.Places m m] : (suppliable what name fresh r).Places m m := by
  constructor
  intro s a t h
  unfold suppliable at h
  split at h
  · obtain ⟨-, rfl⟩ := Reply.done.inj h
    exact fun hs => List.forall_mem_cons.2 ⟨settled_leafOf rfl, settled_flush hs⟩
  · exact hr.settled h

instance places_tokenWith {fresh : Bool} {mark : String} : (tokenWith fresh mark).Places m m := by
  constructor
  intro s a t h
  simp only [tokenWith] at h
  split at h
  · exact settled_push h fun _ => rfl
  · simp [refuse] at h

instance places_token {mark : String} : (token mark).Places m m := places_tokenWith

instance places_ending {mark : String} : (ending mark).Places m m := places_suppliable

instance places_closing {mark : String} : (closing mark).Places m m := places_suppliable

instance places_word {w : String} : (word w).Places m m := by
  constructor
  intro s a t h
  simp only [word] at h
  split at h
  · split at h
    · exact settled_push h fun _ => rfl
    · simp [refuse] at h
  · simp [refuse] at h

instance places_anyWord {ws : List String} : (anyWord ws).Places m m := by
  constructor
  intro s a t h
  unfold anyWord at h
  split at h
  · split at h
    · exact places_word.settled h
    · simp [refuse] at h
  · simp [refuse] at h

instance places_wordAs {kind : Kind} {w : String} [hk : Holds kind.plain] :
    (wordAs kind w).Places m m := by
  have hplain := Kind.enclosing_of_plain hk.holds
  constructor
  intro s a t h
  simp only [wordAs] at h
  split at h
  · split at h
    · exact settled_push h fun _ => hplain
    · simp [refuse] at h
  · simp [refuse] at h

instance places_leaf {kind : Kind} {stop? : Chars → Nat → Option Nat} [hk : Holds kind.plain] :
    (leaf kind stop?).Places m m := by
  have hplain := Kind.enclosing_of_plain hk.holds
  constructor
  intro s a t h
  simp only [leaf] at h
  split at h
  · exact settled_push h fun _ => hplain
  · simp [refuse] at h

instance places_leafHere {kind : Kind} {stop? : Chars → Nat → Option Nat}
    [hk : Holds kind.plain] : (leafHere (.rule kind) stop?).Places m m := by
  have hplain := Kind.enclosing_of_plain hk.holds
  constructor
  intro s a t h
  unfold leafHere at h
  split at h
  · obtain ⟨-, rfl⟩ := Reply.done.inj h
    exact fun hs => List.forall_mem_cons.2 ⟨settled_leafOf hplain, hs⟩
  · simp at h

instance places_heading {kind : Kind} [Holds kind.plain] : (heading kind).Places m m :=
  places_leaf

instance places_name {kind : Kind} [Holds kind.plain] : (name kind).Places m m :=
  places_suppliable

theorem settled_semicolonUpTo {operable bodyOk : Bool} : ∀ {n : Nat} {s t : State},
    s.semicolonUpTo operable bodyOk n = some t → (∀ z ∈ s.out, z.Settled m) →
      ∀ z ∈ t.out, z.Settled m := by
  intro n
  induction n with
  | zero => intro s t h; simp [State.semicolonUpTo] at h
  | succ n ih =>
    intro s t h hs
    rw [State.semicolonUpTo] at h
    split at h
    · simp at h
    · split at h
      · obtain rfl : s = t := by simpa using h
        exact hs
      · split at h
        · next u hu =>
          split at h
          · exact ih h (List.forall_mem_cons.2 ⟨settled_extra? hu, hs⟩)
          · simp at h
        · simp at h

instance places_silentSemicolon {bodyOk operable : Bool} :
    (silentSemicolon bodyOk operable).Places m m := by
  constructor
  intro s a t h
  unfold silentSemicolon at h
  split at h
  · next u hu =>
    obtain ⟨-, rfl⟩ := Reply.done.inj h
    have hsettled := settled_semicolonUpTo (m := m) hu
    exact hsettled
  · simp [refuse] at h

instance places_semicolonOr {bodyOk operable : Bool} : (semicolonOr bodyOk operable).Places m m :=
  places_or places_silentSemicolon places_ending

instance places_semicolon {operable : Bool} : (semicolon operable).Places m m := places_semicolonOr

/-! ### Nodes -/

theorem places_nodeBy {kind : List Tree → Kind} {r : Reader Unit}
    (hr : ∀ ts, r.Places (kind ts).ban (kind ts).ban)
    (hk : ∀ ts pos, (assemble (kind ts) ts pos).respects m) : (nodeBy kind r).Places m m := by
  constructor
  intro s a w h hs
  obtain ⟨b, u, hu, rfl⟩ := nodeBy_eq_done h
  have hout := (hr u.out).settled hu (List.forall_mem_nil _)
  exact List.forall_mem_cons.2 ⟨settled_assemble (hk _ _) hout, settled_flush hs⟩

instance places_node {kind : Kind} {r : Reader Unit} [hk : Holds kind.plain]
    [hr : r.Places .branches .branches] : (node kind r).Places m m :=
  places_nodeBy (fun _ => (Kind.ban_of_plain hk.holds).symm ▸ hr) fun _ _ =>
    respects_assemble (Kind.enclosing_of_plain hk.holds)

instance places_node_ite {p : List Tree → Bool} {k₁ k₂ : Kind} {r : Reader Unit}
    [hk₁ : Holds k₁.plain] [hk₂ : Holds k₂.plain] [hr : r.Places .branches .branches] :
    (nodeBy (fun out => if p out then k₁ else k₂) r).Places m m := by
  have hplain : ∀ ts, (if p ts then k₁ else k₂).plain := by
    intro ts
    split
    · exact hk₁.holds
    · exact hk₂.holds
  exact places_nodeBy (fun ts => (Kind.ban_of_plain (hplain ts)).symm ▸ hr) fun ts _ =>
    respects_assemble (Kind.enclosing_of_plain (hplain ts))

/-- A node that is made of what has no statements among its parts. -/
instance places_node_strict {kind : Kind} {r : Reader Unit} [hk : Holds kind.strict]
    [hr : r.Places .statements .statements] : (node kind r).Places m m :=
  places_nodeBy (fun _ => (Kind.ban_of_strict hk.holds).1.symm ▸ hr) fun _ _ =>
    respects_assemble (Kind.ban_of_strict hk.holds).2

/-- Whatever stood before, a node with statements among its parts begins with nothing. -/
theorem places_nodeBy_enclosing {kind : Kind} {r : Reader Unit} (hk : kind.enclosing)
    (hr : r.Places .branches .nothing)
    (hm : ∀ ts pos, (assemble kind ts pos).respects m) : (node kind r).Places m m := by
  have hban := Kind.ban_of_enclosing hk
  constructor
  intro s a w h hs
  obtain ⟨b, u, hu, rfl⟩ := nodeBy_eq_done h
  have hout := hr.settled hu (List.forall_mem_nil _)
  exact List.forall_mem_cons.2 ⟨settled_assemble (hm _ _) (hban ▸ hout), settled_flush hs⟩

/-- A node with statements among its parts that stands where no branch and no loop does. -/
instance places_node_enclosing {kind : Kind} {r : Reader Unit} [hk : Holds kind.enclosing]
    [howner : Holds kind.unbranching] [hm : Holds m.lenient] [hr : r.Places .branches .nothing] :
    (node kind r).Places m m := by
  refine places_nodeBy_enclosing hk.holds hr fun _ _ => ?_
  have hlenient := hm.holds
  cases m with
  | nothing => rfl
  | branches => exact howner.holds
  | statements => simp at hlenient

instance places_node_statement {kind : Kind} {r : Reader Unit} [hk : Holds kind.enclosing]
    [hr : r.Places .branches .nothing] : (node kind r).Places .nothing .nothing :=
  places_nodeBy_enclosing hk.holds hr fun _ _ => rfl

instance places_wrap {kind : Kind} {role : Option Role} {r : Reader Unit}
    [hk : Holds kind.plain] [hrole : Holds (Role.loose role)] [hr : r.Places .branches .branches] :
    (wrap kind role r).Places .branches .branches := by
  constructor
  intro s a w h hs
  unfold wrap at h
  split at h
  · simp [refuse] at h
  · next first rest hout =>
    split at h
    · next b u hu =>
      obtain ⟨-, rfl⟩ := Reply.done.inj h
      rw [hout, List.forall_mem_cons] at hs
      have hinside := hr.settled hu
        (List.forall_mem_singleton.2
          (Tree.settled_withRole (Tree.suits_withRole hrole.holds) hs.1))
      have hkind := Kind.enclosing_of_plain hk.holds
      exact List.forall_mem_cons.2 ⟨settled_assemble (respects_assemble hkind)
        ((Kind.ban_of_plain hk.holds).symm ▸ hinside), hs.2⟩
    · simp at h

/-! ### What is read last -/

variable {role : Role}

instance yields_node {kind : Kind} {r : Reader Unit} [hk : Holds (role.admits kind)]
    [hbare : Holds kind.bare] : (node kind r).Yields role := by
  constructor
  intro s a t h
  obtain ⟨b, u, hu, rfl⟩ := nodeBy_eq_done h
  exact ⟨_, _, _, rfl, rfl, hk.holds, hbare.holds⟩

instance yields_heading {kind : Kind} [hk : Holds (role.admits kind)] [hbare : Holds kind.bare] :
    (heading kind).Yields role := by
  constructor
  intro s a t h
  simp only [heading, leaf] at h
  split at h
  · obtain ⟨-, rfl⟩ := Reply.done.inj h
    exact ⟨_, _, _, rfl, rfl, hk.holds, hbare.holds⟩
  · simp [refuse] at h

theorem yields_look {f : State → Reader Unit} (h : ∀ s, (f s).Yields role) :
    (current >>= f).Yields role := by
  constructor
  intro s a t ht
  obtain ⟨_, _, hs, ht⟩ := andThen_eq_done ht
  obtain ⟨rfl, rfl⟩ := Reply.done.inj hs
  exact (h s).last ht

/-! ### Lists -/

instance places_separated {item : Reader Unit} [item.Places m m] : (separated item).Places m m := by
  unfold separated
  infer_instance

instance places_listed {item : Reader Unit} [item.Places m m] : (listed item).Places m m := by
  unfold listed
  infer_instance

instance places_sparse {item : Reader Unit} [item.Places m m] : (sparse item).Places m m := by
  unfold sparse
  infer_instance

end Reader

end FlowAnalysis.Syntax
