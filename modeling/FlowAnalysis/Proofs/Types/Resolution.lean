import FlowAnalysis.Types.Env
import Mathlib.Data.List.Perm.Subperm
import Mathlib.Data.List.Nodup

/-!
# The resolution of types

Types are resolved while a stack holds the names on the way.  Here the stack is written out: a name
is pushed before its declarations are resolved and popped afterwards, every stack that has been there
is kept, and so is everything on the way that could not be resolved.

## Main definitions

* `Obstacle` — what cannot be resolved.
* `Trail`, `Run` — what a resolution leaves behind, and computations that leave it behind.
* `TypeEnv.resolve`, `TypeEnv.resolveName` — the resolution of a type expression and of a name.
* `Orderly` — a stack of different names, all of them declared.
* `Sound` — a computation that restores the stack and meets an obstacle exactly if its result is open.

## Main results

* `TypeEnv.sound_resolveName` — the resolution of a name is sound, however many names are allowed for.
* `TypeEnv.resolve_eq_shapeOf` — **resolution ends, keeps its stack in order, and leaves a type open
  exactly if something could not be resolved.**
-/

namespace FlowAnalysis

/-! ### Resolution with a stack -/

/-- What cannot be resolved. -/
inductive Obstacle
  /-- An index signature. -/
  | index
  /-- A name that is not declared. -/
  | undeclared (name : String)
  /-- A name on the way to itself. -/
  | onPath (name : String)
  /-- A form of type of which no properties are known. -/
  | uninterpreted
  /-- A union that has no members but `null` and `undefined`. -/
  | nothingLeft
  /-- More names on the way than were allowed for. -/
  | cutShort
  deriving DecidableEq, Repr

/-- What a resolution leaves behind. -/
structure Trail where
  /-- The names on the way, the last one first. -/
  stack : List String
  /-- All stacks that have been there. -/
  seen : List (List String)
  /-- The stacks before a name was resolved and after that. -/
  returns : List (List String × List String)
  /-- What could not be resolved. -/
  obstacles : List Obstacle

/-- A computation that leaves a trail behind. -/
abbrev Run := StateM Trail

namespace Run

/-- Meets an obstacle: nothing is known of the type. -/
def meet (o : Obstacle) : Run Shape := do
  modify fun w => { w with obstacles := o :: w.obstacles }
  return .unknown

/-- Puts a name on the stack while something else is resolved. -/
def within {α : Type} (name : String) (r : Run α) : Run α := do
  let before := (← get).stack
  modify fun w => { w with stack := name :: w.stack, seen := (name :: w.stack) :: w.seen }
  let a ← r
  modify fun w => { w with stack := w.stack.tail, returns := (before, w.stack.tail) :: w.returns }
  return a

end Run

/-- Whether a member stands for properties of any name. -/
def Member.isIndex : Member → Bool
  | .index => true
  | .property _ _ _ _ => false

namespace TypeEnv

/-- Resolves an object type. -/
def resolveMembers (builtin : Bool) (members : List Member) : Run Shape := do
  if members.any Member.isIndex then discard (Run.meet .index)
  return shapeOfMembers builtin members

mutual

/-- Resolves a type expression, where `ofName` resolves a name. -/
def resolve (ofName : String → Run Shape) (builtin : Bool) : TypeExpr → Run Shape
  | .wrapped inner => resolve ofName builtin inner
  | .named name => ofName name
  | .generic name arguments =>
    match modifier? name with
    | some modify => do
      match ← resolveFirst ofName builtin arguments with
      | some shape => return modify shape
      | none => ofName name
    | none => ofName name
  | .object members => resolveMembers builtin members
  | .intersection parts => return .mergeAll (← resolveAll ofName builtin parts)
  | .union parts => do
    let shapes ← resolvePresent ofName builtin parts
    if shapes.isEmpty then Run.meet .nothingLeft else return .common shapes
  | _ => Run.meet .uninterpreted

/-- Resolves the first of some type expressions. -/
def resolveFirst (ofName : String → Run Shape) (builtin : Bool) :
    List TypeExpr → Run (Option Shape)
  | [] => return none
  | t :: _ => return some (← resolve ofName builtin t)

/-- Resolves type expressions, one after the other. -/
def resolveAll (ofName : String → Run Shape) (builtin : Bool) : List TypeExpr → Run (List Shape)
  | [] => return []
  | t :: ts => return (← resolve ofName builtin t) :: (← resolveAll ofName builtin ts)

/-- Resolves type expressions, one after the other, `null` and `undefined` left out. -/
def resolvePresent (ofName : String → Run Shape) (builtin : Bool) :
    List TypeExpr → Run (List Shape)
  | [] => return []
  | t :: ts =>
    if t.isNullish then resolvePresent ofName builtin ts
    else return (← resolve ofName builtin t) :: (← resolvePresent ofName builtin ts)

end

/-- Resolves a declaration: the types that an interface extends and its members, or the type that an
alias stands for. -/
def resolveDecl (ofName : String → Run Shape) (d : TypeDecl) : Run Shape :=
  match d.declared with
  | .interface parents body => do
    let inherited ← resolveAll ofName d.builtin parents
    return (Shape.mergeAll inherited).merge (← resolveMembers d.builtin body)
  | .alias (some t) => resolve ofName d.builtin t
  | .alias none => return .empty

/-- Resolves declarations, one after the other. -/
def resolveDecls (ofName : String → Run Shape) : List TypeDecl → Run (List Shape)
  | [] => return []
  | d :: ds => return (← resolveDecl ofName d) :: (← resolveDecls ofName ds)

/-- Resolves a name, where `n` names on the way are allowed for. -/
def resolveName (env : TypeEnv) : Nat → String → Run Shape
  | 0, _ => Run.meet .cutShort
  | n + 1, name => do
    if (← get).stack.contains name then Run.meet (.onPath name)
    else
      match env.declsOf? name with
      | none => Run.meet (.undeclared name)
      | some ds => return .mergeAll (← Run.within name (resolveDecls (resolveName env n) ds))

end TypeEnv

/-! ### Open shapes -/

namespace Shape

@[simp] theorem isOpen_merge (s t : Shape) : (s.merge t).isOpen = (s.isOpen || t.isOpen) := rfl

@[simp] theorem isOpen_withOptional (s : Shape) (optional : Bool) :
    (s.withOptional optional).isOpen = s.isOpen := rfl

theorem isOpen_foldl_merge (shapes : List Shape) (s : Shape) :
    (shapes.foldl merge s).isOpen = (s.isOpen || shapes.any (·.isOpen)) := by
  induction shapes generalizing s with
  | nil => simp
  | cons t ts ih => rw [List.foldl_cons, ih, isOpen_merge, List.any_cons, Bool.or_assoc]

@[simp] theorem isOpen_mergeAll (shapes : List Shape) :
    (mergeAll shapes).isOpen = shapes.any (·.isOpen) := by
  rw [mergeAll, isOpen_foldl_merge]
  rfl

@[simp] theorem isOpen_common (shapes : List Shape) :
    (common shapes).isOpen = (shapes.isEmpty || shapes.any (·.isOpen)) := by
  unfold common
  split
  · next h => simp [isOpen_foldl_merge, unknown, h]
  · next h =>
    cases shapes with
    | nil => rfl
    | cons s ss => simpa using h

end Shape

namespace TypeEnv

theorem isOpen_foldl_addMember (builtin : Bool) (members : List Member) (s : Shape) :
    (members.foldl (addMember builtin) s).isOpen = (s.isOpen || members.any Member.isIndex) := by
  induction members generalizing s with
  | nil => simp
  | cons m ms ih =>
    rw [List.foldl_cons, ih]
    cases m <;> simp [addMember, Member.isIndex]

@[simp] theorem isOpen_shapeOfMembers (builtin : Bool) (members : List Member) :
    (shapeOfMembers builtin members).isOpen = members.any Member.isIndex := by
  rw [shapeOfMembers, isOpen_foldl_addMember]
  rfl

theorem isOpen_of_modifier? {name : String} {modify : Shape → Shape}
    (h : modifier? name = some modify) (s : Shape) : (modify s).isOpen = s.isOpen := by
  unfold modifier? at h
  split at h <;> cases h <;> rfl

end TypeEnv

/-! ### Sound computations -/

/-- A stack of different names, all of them declared. -/
structure Orderly (env : TypeEnv) (stack : List String) : Prop where
  nodup : stack.Nodup
  known : ∀ name ∈ stack, env.isKnown name

theorem TypeEnv.mem_of_isKnown {env : TypeEnv} {name : String} (h : env.isKnown name) :
    name ∈ env.decls.map (·.1) := by
  simp only [isKnown, declsOf?, Keyed.get?, Option.isSome_map, List.find?_isSome] at h
  obtain ⟨e, he, hname⟩ := h
  exact List.mem_map.2 ⟨e, he, by simpa using hname⟩

/-- An orderly stack is no longer than there are names. -/
theorem Orderly.length_le {env : TypeEnv} {stack : List String} (h : Orderly env stack) :
    stack.length ≤ env.decls.length := by
  have hsub : stack ⊆ env.decls.map (·.1) := fun name hn => TypeEnv.mem_of_isKnown (h.known name hn)
  simpa using (h.nodup.subperm hsub).length_le

theorem Orderly.cons {env : TypeEnv} {stack : List String} {name : String} (h : Orderly env stack)
    (hn : name ∉ stack) (hk : env.isKnown name) : Orderly env (name :: stack) :=
  ⟨List.nodup_cons.2 ⟨hn, h.nodup⟩, by simpa [hk] using h.known⟩

/-- A computation that has a result, restores the stack, keeps to orderly stacks, is not cut short,
and meets an obstacle exactly if something is open. -/
def Sound (env : TypeEnv) (stack : List String) {α : Type} (r : Run α) (a : α) (isOpen : Bool) :
    Prop :=
  ∀ w : Trail, w.stack = stack → ∃ seen returns obstacles,
    r w = (a, ⟨stack, seen ++ w.seen, returns ++ w.returns, obstacles ++ w.obstacles⟩) ∧
      (∀ s ∈ seen, Orderly env s) ∧ (∀ p ∈ returns, p.2 = p.1) ∧ .cutShort ∉ obstacles ∧
      (obstacles = [] ↔ isOpen = false)

namespace Sound

variable {env : TypeEnv} {stack : List String} {α β : Type}

theorem pure {a : α} : Sound env stack (Pure.pure a) a false := by
  rintro w rfl
  exact ⟨[], [], [], rfl, nofun, nofun, nofun, by simp⟩

theorem bind {r : Run α} {f : α → Run β} {a : α} {b : β} {o o' : Bool} (hr : Sound env stack r a o)
    (hf : Sound env stack (f a) b o') : Sound env stack (r >>= f) b (o || o') := by
  intro w hw
  obtain ⟨s₁, r₁, o₁, h₁, hs₁, hr₁, hc₁, ho₁⟩ := hr w hw
  obtain ⟨s₂, r₂, o₂, h₂, hs₂, hr₂, hc₂, ho₂⟩ :=
    hf ⟨stack, s₁ ++ w.seen, r₁ ++ w.returns, o₁ ++ w.obstacles⟩ rfl
  refine ⟨s₂ ++ s₁, r₂ ++ r₁, o₂ ++ o₁, ?_, ?_, ?_, ?_, ?_⟩
  · simp only [List.append_assoc]
    rw [← h₂]
    show f (r w).1 (r w).2 = _
    rw [h₁]
  · exact List.forall_mem_append.2 ⟨hs₂, hs₁⟩
  · exact List.forall_mem_append.2 ⟨hr₂, hr₁⟩
  · simp [hc₁, hc₂]
  · simp [ho₁, ho₂, and_comm]

/-- What depends on the trail may depend on its stack. -/
theorem get {f : Trail → Run β} {b : β} {o : Bool}
    (h : ∀ w : Trail, w.stack = stack → Sound env stack (f w) b o) :
    Sound env stack (MonadState.get >>= f) b o :=
  fun w hw => h w hw w hw

theorem map {r : Run α} {f : α → β} {a : α} {o : Bool} (hr : Sound env stack r a o) :
    Sound env stack (do return f (← r)) (f a) o := by
  simpa using hr.bind (f := fun a => Pure.pure (f a)) pure

theorem meet {o : Obstacle} (ho : o ≠ .cutShort) : Sound env stack (Run.meet o) .unknown true := by
  rintro w rfl
  exact ⟨[], [], [o], rfl, nofun, nofun, by simpa using Ne.symm ho, by simp⟩

theorem within {name : String} {r : Run α} {a : α} {o : Bool} (hstack : Orderly env (name :: stack))
    (hr : Sound env (name :: stack) r a o) : Sound env stack (Run.within name r) a o := by
  rintro w rfl
  let start : Trail := { w with stack := name :: w.stack, seen := (name :: w.stack) :: w.seen }
  obtain ⟨ss, rs, os, h, hs, hrs, hc, ho⟩ := hr start rfl
  refine ⟨ss ++ [name :: w.stack], (w.stack, w.stack) :: rs, os, ?_, ?_, ?_, hc, ho⟩
  · rw [List.append_assoc, List.singleton_append]
    show ((r start).1, { (r start).2 with
      stack := (r start).2.stack.tail
      returns := (w.stack, (r start).2.stack.tail) :: (r start).2.returns }) = _
    rw [h]
    rfl
  · exact List.forall_mem_append.2 ⟨hs, by simpa using hstack⟩
  · exact List.forall_mem_cons.2 ⟨rfl, hrs⟩

theorem members (builtin : Bool) (ms : List Member) :
    Sound env stack (TypeEnv.resolveMembers builtin ms) (TypeEnv.shapeOfMembers builtin ms)
      (TypeEnv.shapeOfMembers builtin ms).isOpen := by
  rw [TypeEnv.isOpen_shapeOfMembers]
  unfold TypeEnv.resolveMembers
  split
  · next h =>
    rw [h]
    exact (map (f := fun _ => ()) (meet (by decide))).bind pure
  · next h =>
    rw [Bool.eq_false_iff.2 h]
    exact pure

end Sound

/-! ### Resolution is sound -/

/-- Types are built up from the types inside them. -/
@[elab_as_elim]
theorem TypeExpr.induction {P : TypeExpr → Prop} (builtin : ∀ name, P (.builtin name))
    (named : ∀ name, P (.named name))
    (generic : ∀ name arguments, (∀ t ∈ arguments, P t) → P (.generic name arguments))
    (object : ∀ members, P (.object members))
    (intersection : ∀ parts, (∀ t ∈ parts, P t) → P (.intersection parts))
    (union : ∀ parts, (∀ t ∈ parts, P t) → P (.union parts)) (array : ∀ items, P (.array items))
    (literal : ∀ value, P (.literal value)) (wrapped : ∀ inner, P inner → P (.wrapped inner))
    (other : P .other) : ∀ t, P t := by
  intro t
  refine TypeExpr.rec (motive_1 := P) (motive_2 := fun _ => True)
    (motive_3 := fun ts => ∀ t ∈ ts, P t) (motive_4 := fun _ => True) (motive_5 := fun _ => True)
    builtin named generic (fun members _ => object members) intersection union
    (fun items _ => array items) literal wrapped other ?_ trivial ?_ ?_ trivial ?_ trivial ?_ t
  · intros
    trivial
  · simp
  · intro t ts ht hts
    rw [List.forall_mem_cons]
    exact ⟨ht, hts⟩
  · intros
    trivial
  · intros
    trivial

namespace TypeEnv

variable {env : TypeEnv} {stack : List String} {ofName : String → Run Shape}
  {shapeOf : String → Shape} {builtin : Bool}

theorem sound_resolveAll {ts : List TypeExpr}
    (h : ∀ t ∈ ts, Sound env stack (resolve ofName builtin t) (env.shapeWith shapeOf builtin t)
      (env.shapeWith shapeOf builtin t).isOpen) :
    Sound env stack (resolveAll ofName builtin ts) (env.shapesWith shapeOf builtin ts)
      ((env.shapesWith shapeOf builtin ts).any (·.isOpen)) := by
  induction ts with
  | nil =>
    rw [resolveAll, shapesWith]
    exact .pure
  | cons t ts ih =>
    rw [List.forall_mem_cons] at h
    rw [resolveAll, shapesWith, List.any_cons]
    exact h.1.bind (ih h.2).map

theorem sound_resolvePresent {ts : List TypeExpr}
    (h : ∀ t ∈ ts, Sound env stack (resolve ofName builtin t) (env.shapeWith shapeOf builtin t)
      (env.shapeWith shapeOf builtin t).isOpen) :
    Sound env stack (resolvePresent ofName builtin ts) (env.shapesOfPresent shapeOf builtin ts)
      ((env.shapesOfPresent shapeOf builtin ts).any (·.isOpen)) := by
  induction ts with
  | nil =>
    rw [resolvePresent, shapesOfPresent]
    exact .pure
  | cons t ts ih =>
    rw [List.forall_mem_cons] at h
    rw [resolvePresent, shapesOfPresent]
    split
    · exact ih h.2
    · rw [List.any_cons]
      exact h.1.bind (ih h.2).map

/-- The resolution of a type is sound if that of names is, and names that are not declared are
open. -/
theorem sound_resolve (hname : ∀ name, Sound env stack (ofName name) (shapeOf name)
      (shapeOf name).isOpen)
    (hunknown : ∀ name, ¬ env.isKnown name → shapeOf name = .unknown) (t : TypeExpr) :
    Sound env stack (resolve ofName builtin t) (env.shapeWith shapeOf builtin t)
      (env.shapeWith shapeOf builtin t).isOpen := by
  -- Only names and the types inside a type have to be looked at.
  have hopen : Sound env stack (Run.meet .uninterpreted) .unknown Shape.unknown.isOpen :=
    .meet (by decide)
  induction t using TypeExpr.induction with
  | builtin name =>
    simpa only [resolve, shapeWith] using hopen
  | array items =>
    simpa only [resolve, shapeWith] using hopen
  | literal value =>
    simpa only [resolve, shapeWith] using hopen
  | other =>
    simpa only [resolve, shapeWith] using hopen
  | named name =>
    rw [resolve, shapeWith]
    exact hname name
  | wrapped inner ih =>
    rw [resolve, shapeWith]
    exact ih
  | object members =>
    rw [resolve, shapeWith]
    exact .members builtin members
  | intersection parts ih =>
    rw [resolve, shapeWith, Shape.isOpen_mergeAll]
    exact (sound_resolveAll ih).map
  | union parts ih =>
    rw [resolve, shapeWith, Shape.isOpen_common, Bool.or_comm]
    refine (sound_resolvePresent ih).bind ?_
    cases h : env.shapesOfPresent shapeOf builtin parts with
    | nil => exact .meet (by decide)
    | cons s ss => exact .pure
  | generic name arguments ih =>
    have hdeclared : (if env.isKnown name then shapeOf name else .unknown) = shapeOf name := by
      split
      · rfl
      · next h => exact (hunknown name h).symm
    rw [resolve, shapeWith, hdeclared]
    cases hm : modifier? name with
    | none => exact hname name
    | some modify =>
      cases arguments with
      | nil =>
        simp only [resolveFirst, shapeOfFirst]
        exact Sound.pure.bind (hname name)
      | cons t ts =>
        simp only [resolveFirst, shapeOfFirst]
        have ht := (ih t List.mem_cons_self).map (f := some)
        simpa [isOpen_of_modifier? hm] using ht.bind (f := fun
          | some shape => Pure.pure (modify shape)
          | none => ofName name) .pure

theorem sound_resolveDecl (hname : ∀ name, Sound env stack (ofName name) (shapeOf name)
      (shapeOf name).isOpen)
    (hunknown : ∀ name, ¬ env.isKnown name → shapeOf name = .unknown) (d : TypeDecl) :
    Sound env stack (resolveDecl ofName d) (env.shapeOfDecl shapeOf d)
      (env.shapeOfDecl shapeOf d).isOpen := by
  unfold resolveDecl shapeOfDecl
  match d.declared with
  | .interface parents body =>
    simp only [Shape.isOpen_merge, Shape.isOpen_mergeAll]
    exact (sound_resolveAll fun t _ => sound_resolve hname hunknown t).bind
      (Sound.members d.builtin body).map
  | .alias none => exact .pure
  | .alias (some t) => exact sound_resolve hname hunknown t

theorem sound_resolveDecls (hname : ∀ name, Sound env stack (ofName name) (shapeOf name)
      (shapeOf name).isOpen)
    (hunknown : ∀ name, ¬ env.isKnown name → shapeOf name = .unknown) (ds : List TypeDecl) :
    Sound env stack (resolveDecls ofName ds) (ds.map (env.shapeOfDecl shapeOf))
      ((ds.map (env.shapeOfDecl shapeOf)).any (·.isOpen)) := by
  induction ds with
  | nil => exact .pure
  | cons d ds ih =>
    rw [resolveDecls, List.map_cons, List.any_cons]
    exact (sound_resolveDecl hname hunknown d).bind ih.map

theorem shapeOfNameAmong_of_unknown (n : Nat) (visiting : List String) {name : String}
    (h : ¬ env.isKnown name) : env.shapeOfNameAmong n visiting name = .unknown := by
  have hnone : env.declsOf? name = none := by simpa [isKnown] using h
  cases n with
  | zero => rfl
  | succ n =>
    rw [shapeOfNameAmong, hnone]
    split <;> rfl

/-- **The resolution of a name is sound**, as long as the names on the way and those still allowed
for are more than there are declared.  What is allowed for beyond that makes no difference. -/
theorem sound_resolveName (n m : Nat) {visiting : List String} (hv : Orderly env visiting)
    (hn : env.decls.length < n + visiting.length) (hm : env.decls.length < m + visiting.length)
    (name : String) :
    Sound env visiting (env.resolveName n name) (env.shapeOfNameAmong m visiting name)
      (env.shapeOfNameAmong m visiting name).isOpen := by
  have hlength := hv.length_le
  induction n generalizing m visiting name with
  | zero => omega
  | succ n ih =>
    obtain ⟨m, rfl⟩ : ∃ k, m = k + 1 := ⟨m - 1, by omega⟩
    rw [resolveName, shapeOfNameAmong]
    refine Sound.get fun w hw => ?_
    rw [hw]
    split
    · exact .meet (by simp)
    · next hpath =>
      cases hds : env.declsOf? name with
      | none => exact .meet (by simp)
      | some ds =>
        have hcons : Orderly env (name :: visiting) :=
          hv.cons (by simpa using hpath) (by simp [isKnown, hds])
        have hle := hcons.length_le
        simp only [Shape.isOpen_mergeAll]
        refine (Sound.within hcons (sound_resolveDecls (fun name' => ?_) (fun name' h => ?_) ds)).map
        · exact ih m hcons (by simp; omega) (by simp; omega) name' hle
        · exact shapeOfNameAmong_of_unknown m _ h

/-- **Resolution ends, keeps its stack in order, and leaves a type open exactly if something could
not be resolved.**  However many names are allowed for beyond those that are declared, resolution
is never cut short and finds the shape of the type.  Every stack that has been there holds different
names, all of them declared, so it is no longer than there are names; each name leaves the stack as it
was before; and the stack is empty again in the end. -/
theorem resolve_eq_shapeOf (env : TypeEnv) (t : TypeExpr) (more : Nat) :
    ∃ trail : Trail,
      (resolve (env.resolveName (env.decls.length + 1 + more)) false t).run ⟨[], [], [], []⟩ =
        (env.shapeOf t, trail) ∧
      trail.stack = [] ∧
      (∀ stack ∈ trail.seen, stack.Nodup ∧ (∀ name ∈ stack, env.isKnown name) ∧
        stack.length ≤ env.decls.length) ∧
      (∀ p ∈ trail.returns, p.2 = p.1) ∧
      .cutShort ∉ trail.obstacles ∧
      ((env.shapeOf t).isOpen ↔ trail.obstacles ≠ []) := by
  have hnil : Orderly env [] := ⟨List.nodup_nil, nofun⟩
  have hsound : Sound env [] (resolve (env.resolveName (env.decls.length + 1 + more)) false t)
      (env.shapeOf t) (env.shapeOf t).isOpen :=
    sound_resolve (fun name => sound_resolveName _ _ hnil (by simp; omega) (by simp) name)
      (fun name h => shapeOfNameAmong_of_unknown _ _ h) t
  obtain ⟨seen, returns, obstacles, hrun, horderly, hreturns, hcut, hopen⟩ := hsound ⟨[], [], [], []⟩ rfl
  simp only [List.append_nil] at hrun
  refine ⟨_, hrun, rfl, ?_, hreturns, hcut, ?_⟩
  · intro stack hs
    exact ⟨(horderly stack hs).nodup, (horderly stack hs).known, (horderly stack hs).length_le⟩
  · simp [hopen]

end TypeEnv

end FlowAnalysis
