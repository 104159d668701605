import FlowAnalysis.Credentials
import FlowAnalysis.Proofs.Keyed
import Mathlib.Data.List.Forall2

/-!
# Injection of credentials

Handles of credentials are put into the records of the classes that need some: into the place of
the first parameter with the name of credentials, or behind all parameters.  Nothing else changes,
only handles of the kinds that are needed get in, and a later injection leaves no trace of an
earlier one.

## Main definitions

* `Parameter.TakesPlace` — a parameter stands where the first of its name stood.
* `Handles.Fill` — an object holds the handles of some kinds.
* `Record.Injected` — what an injection makes of a record.
* `Record.credentials` — the parameters with the name of credentials.

## Main results

* `takesPlace_putParameter`, `putParameter_putParameter` — putting a parameter, once and twice.
* `Handles.exists_fill` — what the literal of some handles holds.
* `Record.injected_inject`, `Record.inject_congr`, `Record.inject_inject` — the injection into a
  record.
* `Records.injection_exact` — **an injection puts the handles that are needed into their place,
  changes nothing else, and counts alone if it is the last.**
-/

namespace FlowAnalysis

/-! ### Parameters -/

/-- A parameter stands where the first of its name stood, or behind all others if there was none.
The other parameters stay as they are. -/
inductive Parameter.TakesPlace (p : Parameter) : List Parameter → List Parameter → Prop
  | ofFirst {front back : List Parameter} {q : Parameter} (fresh : ∀ x ∈ front, x.name ≠ p.name)
    (same : q.name = p.name) : TakesPlace p (front ++ q :: back) (front ++ p :: back)
  | behind {ps : List Parameter} (fresh : ∀ x ∈ ps, x.name ≠ p.name) : TakesPlace p ps (ps ++ [p])

namespace Parameter.TakesPlace

variable {p q : Parameter} {ps ps' : List Parameter}

theorem cons (hq : q.name ≠ p.name) (h : p.TakesPlace ps ps') :
    p.TakesPlace (q :: ps) (q :: ps') := by
  cases h with
  | @ofFirst front back x fresh same =>
    exact @ofFirst p (q :: front) back x (List.forall_mem_cons.2 ⟨hq, fresh⟩) same
  | behind fresh => exact .behind (List.forall_mem_cons.2 ⟨hq, fresh⟩)

/-- Of the parameters of its name, a parameter replaces the first and leaves the others. -/
theorem filter_name (h : p.TakesPlace ps ps') :
    ps'.filter (·.name = p.name) = p :: (ps.filter (·.name = p.name)).tail := by
  have hnone : ∀ front : List Parameter, (∀ x ∈ front, x.name ≠ p.name) →
      front.filter (·.name = p.name) = [] := by
    intro front fresh
    simpa using fresh
  cases h with
  | @ofFirst front back x fresh same =>
    rw [List.filter_append, List.filter_append, hnone front fresh,
      List.filter_cons_of_pos (by simp), List.filter_cons_of_pos (by simpa using same)]
    rfl
  | behind fresh =>
    rw [List.filter_append, hnone ps fresh, List.filter_cons_of_pos (by simp)]
    rfl

end Parameter.TakesPlace

theorem takesPlace_putParameter (p : Parameter) (ps : List Parameter) :
    p.TakesPlace ps (putParameter p ps) := by
  induction ps with
  | nil => exact .behind nofun
  | cons q rest ih =>
    rw [putParameter]
    split
    · next h => exact @Parameter.TakesPlace.ofFirst p [] rest q nofun h
    · next h => exact ih.cons h

/-- Of two parameters of one name, the one that was put last is left. -/
theorem putParameter_putParameter {p q : Parameter} (h : p.name = q.name) (ps : List Parameter) :
    putParameter q (putParameter p ps) = putParameter q ps := by
  induction ps with
  | nil => simp [putParameter, h]
  | cons x rest ih =>
    by_cases hx : x.name = p.name
    · simp [putParameter, hx, h]
    · rw [putParameter, if_neg hx, putParameter, putParameter, if_neg (h ▸ hx), if_neg (h ▸ hx), ih]

/-! ### Handles -/

/-- The entries of an object that holds handles of some kinds: every kind that has a handle stands
for it, nothing else stands for anything, and the kinds ascend. -/
structure Handles.Fill (handles : Handles) (kinds : List String) (entries : List (String × Json)) :
    Prop where
  ordered : Keyed.Ordered entries
  value : ∀ k, Keyed.get? entries k =
    if k ∈ kinds then (Keyed.get? handles k).map Json.string else none

namespace Handles

variable {handles handles' : Handles} {kinds : List String}

/-- The literal of some handles holds them. -/
theorem exists_fill (handles : Handles) (kinds : List String) :
    ∃ entries, handles.literal kinds = .object entries ∧ handles.Fill kinds entries := by
  refine ⟨_, rfl, Keyed.ordered_sorted _, fun k => ?_⟩
  have hentry : ∀ j, ((Keyed.get? handles j).map fun h => (j, Json.string h)) =
      ((Keyed.get? handles j).map Json.string).map (j, ·) := fun j => by
    rw [Option.map_map]
    rfl
  -- The last entry of a kind counts, and it says the same as the others of this kind.
  rw [Keyed.get?_sorted, ← List.filterMap_reverse]
  simp only [hentry]
  rw [Keyed.get?_filterMap fun j => (Keyed.get? handles j).map Json.string]
  simp only [List.mem_reverse]

/-- Only the handles of the kinds that are asked for count. -/
theorem parameter_congr (h : ∀ k ∈ kinds, Keyed.get? handles k = Keyed.get? handles' k) :
    handles.parameter kinds = handles'.parameter kinds := by
  have hentries :
      (kinds.filterMap fun k => (Keyed.get? handles k).map fun h => (k, Json.string h)) =
        kinds.filterMap fun k => (Keyed.get? handles' k).map fun h => (k, Json.string h) :=
    List.filterMap_congr fun k hk => by rw [h k hk]
  rw [parameter, parameter, literal, literal, hentries]

end Handles

/-! ### Records -/

/-- What an injection makes of a record. -/
structure Record.Injected (needed : Requirements) (handles : Handles) (r r' : Record) : Prop where
  /-- Nothing but the parameters changes. -/
  frame : r' = { r with parameters := r'.parameters }
  /-- The parameters stay where the class needs nothing. -/
  unneeded : Keyed.get? needed r.className = none → r'.parameters = r.parameters
  /-- What is injected is the literal of the handles of the kinds that the class needs, and nobody
  edits it. -/
  injected : ∀ kinds, Keyed.get? needed r.className = some kinds → ∃ entries,
    handles.Fill kinds entries ∧
      Parameter.TakesPlace ⟨credentialsName, .literal (.object entries), .object, false⟩
        r.parameters r'.parameters

namespace Record

variable {r : Record} {needed : Requirements} {handles handles' : Handles}

theorem inject_of_needed {kinds : List String} (h : Keyed.get? needed r.className = some kinds) :
    r.inject needed handles =
      { r with parameters := putParameter (handles.parameter kinds) r.parameters } := by
  rw [inject, h]

theorem inject_of_unneeded (h : Keyed.get? needed r.className = none) :
    r.inject needed handles = r := by
  rw [inject, h]

theorem injected_inject (r : Record) (needed : Requirements) (handles : Handles) :
    r.Injected needed handles (r.inject needed handles) := by
  cases h : Keyed.get? needed r.className with
  | none =>
    rw [inject_of_unneeded h]
    exact ⟨rfl, fun _ => rfl, fun kinds hkinds => by simp [h] at hkinds⟩
  | some kinds =>
    rw [inject_of_needed h]
    refine ⟨rfl, fun hnone => by simp [h] at hnone, fun kinds' hkinds => ?_⟩
    obtain rfl : kinds = kinds' := Option.some.inj (h.symm.trans hkinds)
    obtain ⟨entries, hliteral, hfill⟩ := handles.exists_fill kinds
    refine ⟨entries, hfill, ?_⟩
    rw [← hliteral]
    exact takesPlace_putParameter _ _

@[simp] theorem className_inject (r : Record) (needed : Requirements) (handles : Handles) :
    (r.inject needed handles).className = r.className := by
  have hframe := congrArg className (r.injected_inject needed handles).frame
  exact hframe

/-- A record gets only handles of the kinds that its class needs. -/
theorem inject_congr (h : ∀ kinds, Keyed.get? needed r.className = some kinds →
    ∀ k ∈ kinds, Keyed.get? handles k = Keyed.get? handles' k) :
    r.inject needed handles = r.inject needed handles' := by
  cases hkinds : Keyed.get? needed r.className with
  | none => rw [inject_of_unneeded hkinds, inject_of_unneeded hkinds]
  | some kinds =>
    rw [inject_of_needed hkinds, inject_of_needed hkinds,
      Handles.parameter_congr (h kinds hkinds)]

/-- The parameters with the name of credentials. -/
def credentials (r : Record) : List Parameter := r.parameters.filter (·.name = credentialsName)

/-- An injection replaces the first parameter with the name of credentials. -/
theorem credentials_inject {kinds : List String}
    (h : Keyed.get? needed r.className = some kinds) (handles : Handles) :
    (r.inject needed handles).credentials = handles.parameter kinds :: r.credentials.tail := by
  rw [inject_of_needed h]
  exact (takesPlace_putParameter (handles.parameter kinds) r.parameters).filter_name

/-- A later injection leaves no trace of an earlier one. -/
theorem inject_inject (r : Record) (needed : Requirements) (handles handles' : Handles) :
    (r.inject needed handles).inject needed handles' = r.inject needed handles' := by
  cases h : Keyed.get? needed r.className with
  | none => rw [inject_of_unneeded (r := r) h]
  | some kinds =>
    have hlast : putParameter (handles'.parameter kinds) (putParameter (handles.parameter kinds)
        r.parameters) = putParameter (handles'.parameter kinds) r.parameters := by
      apply putParameter_putParameter
      rfl
    rw [inject_of_needed (r := r.inject needed handles) ((className_inject ..).symm ▸ h),
      inject_of_needed h, inject_of_needed h, hlast]

end Record

namespace Records

theorem inject_inject (rs : Records) (needed : Requirements) (handles handles' : Handles) :
    (rs.inject needed handles).inject needed handles' = rs.inject needed handles' := by
  rw [inject, inject, inject, List.map_map]
  exact List.map_congr_left fun e _ => by
    rw [Function.comp_apply, Record.inject_inject]

/-- **An injection puts the handles that are needed into their place, changes nothing else, and
counts alone if it is the last.**  The records keep their numbers and their order; a record depends
on the handles of the kinds that its class needs only. -/
theorem injection_exact (rs : Records) (needed : Requirements) (handles handles' : Handles) :
    List.Forall₂ (fun e e' => e'.1 = e.1 ∧ e.2.Injected needed handles e'.2) rs
        (rs.inject needed handles) ∧
      (∀ i : Nat, (∀ e ∈ rs[i]?, ∀ kinds, Keyed.get? needed e.2.className = some kinds →
          ∀ k ∈ kinds, Keyed.get? handles k = Keyed.get? handles' k) →
        (rs.inject needed handles)[i]? = (rs.inject needed handles')[i]?) ∧
      (rs.inject needed handles).inject needed handles' = rs.inject needed handles' ∧
      (rs.inject needed handles).inject needed handles = rs.inject needed handles := by
  refine ⟨?_, ?_, rs.inject_inject needed handles handles', rs.inject_inject needed handles handles⟩
  · rw [inject, List.forall₂_map_right_iff, List.forall₂_same]
    exact fun e _ => ⟨rfl, e.2.injected_inject needed handles⟩
  · intro i hagree
    rw [inject, inject, List.getElem?_map, List.getElem?_map]
    cases hi : rs[i]? with
    | none => rfl
    | some e =>
      rw [Option.map_some, Option.map_some, Record.inject_congr (hagree e hi)]

end Records

end FlowAnalysis
