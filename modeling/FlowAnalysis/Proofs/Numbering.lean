import FlowAnalysis.Proofs.Blocks
import FlowAnalysis.Record

/-!
# The numbers of records

Records are numbered from one in reading order, so a number says which construction of the source a
record belongs to, and edits of its parameters can be kept under it.  Constructions begin with their
keyword; hence one that stands inside another begins behind it, and no two begin at the same place.

## Main definitions

* `Flow.constructs` — the expressions that construct bubbles.
* `Extent.Precedes` — where of two constructions the one with the smaller number stands.

## Main results

* `Syntax.Tree.pairwise_precedes` — of two nodes that begin with a keyword the earlier one in reading
  order begins first, and contains the other one or stands in front of it.
* `Syntax.locationOf_lt` — a later offset has a later location.
* `Flow.map_node_constructions` — each expression that constructs a bubble is found once.
* `Flow.anonymousName_inj` — made-up names tell the numbers of their records.
* `Flow.records_in_reading_order` — **records are numbered in reading order.**
-/

namespace FlowAnalysis

open Syntax

/-! ### Nodes that begin with a keyword -/

namespace Syntax.Tree

variable {t u v : Tree} {k : Kind}

/-- Of two nodes the first begins before the second, and contains it or stands in front of it. -/
def Precedes (u v : Tree) : Prop := u.start < v.start ∧ (u.stop ≤ v.start ∨ v.stop ≤ u.stop)

/-- What stands below a node that begins with a keyword begins behind that. -/
theorem precedes_of_headed (ht : t.Laid) (hk : k.headed) (hlabel : t.label = .rule k)
    {c : Tree} (hc : c ∈ t.children) (hu : u ∈ c.nodes) {k' : Kind} (hlabel' : u.label = .rule k') :
    t.Precedes u := by
  have hformed := ht.formed
  have hlaid := ht.children
  rw [hlabel, formed_headed hk] at hformed
  obtain ⟨hclaid, hcstart, hcstop⟩ := hlaid.laid_of_mem hc
  obtain ⟨hulaid, hustart, hustop⟩ := laid_of_mem_nodes hclaid hu
  refine ⟨?_, .inr (by omega)⟩
  cases hts : t.children with
  | nil => simp [hts] at hc
  | cons w ws =>
    have hterminal : w.isTerminal := hformed w (by rw [hts]; rfl)
    rw [hts, laidFrom_cons] at hlaid
    rw [hts] at hc
    rcases List.mem_cons.1 hc with rfl | hc
    · -- The keyword has no parts and is itself no node of a kind.
      have hformed := hclaid.formed
      cases hw : c.label with
      | token text =>
        rw [hw, formed_token] at hformed
        obtain rfl := eq_of_mem_nodes hformed hu
        simp [hw] at hlabel'
      | rule _ | missing _ | error => simp [isTerminal, hw] at hterminal
    · have hbehind := (hlaid.2.2.laid_of_mem hc).2.1
      have hlt := hlaid.2.1.lt
      omega

/-- **Of two nodes that begin with a keyword the earlier one in reading order begins first, and
contains the other one or stands in front of it.** -/
theorem pairwise_precedes (ht : t.Laid) (hk : k.headed) :
    (t.nodes.filter (·.is k)).Pairwise Precedes := by
  induction t using Tree.induction with
  | node l r span ts ih =>
    have hbelow : ((ts.flatMap nodes).filter (·.is k)).Pairwise Precedes := by
      rw [List.filter_flatMap]
      exact pairwise_flatMap_of_laidFrom ht.children
        (fun c _ u hu => List.mem_of_mem_filter hu) (fun u v hlt hle => ⟨by omega, .inl hle⟩)
        fun c hc => ih c hc (ht.children.laid_of_mem hc).1
    rw [nodes_eq, nodesOf_eq, List.filter_cons]
    split
    · next hself =>
      refine List.pairwise_cons.2 ⟨fun u hu => ?_, hbelow⟩
      obtain ⟨hu, hkind⟩ := List.mem_filter.1 hu
      obtain ⟨c, hc, hu⟩ := List.mem_flatMap.1 hu
      exact precedes_of_headed ht hk (is_iff.1 hself) hc hu (is_iff.1 hkind)
    · exact hbelow

/-- The same below a root that is no such node. -/
theorem pairwise_precedes_root (ht : LaidFrom t.start t.children t.stop) (hk : k.headed)
    (hroot : t.is k = false) : (t.nodes.filter (·.is k)).Pairwise Precedes := by
  rw [nodes_eq, nodesOf_eq, List.filter_cons_of_neg (by simp [hroot]), List.filter_flatMap]
  exact pairwise_flatMap_of_laidFrom ht (fun c _ u hu => List.mem_of_mem_filter hu)
    (fun u v hlt hle => ⟨by omega, .inl hle⟩) fun c hc => pairwise_precedes (ht.laid_of_mem hc).1 hk

end Syntax.Tree

/-! ### Locations -/

namespace Location

/-- Strict reading order of locations. -/
def lt (a b : Location) : Prop := a.line < b.line ∨ a.line = b.line ∧ a.column < b.column

theorem lt_of_lt_of_le {a b c : Location} (h : a.lt b) (h' : b.le c) : a.lt c := by
  unfold lt le at *
  omega

theorem lt_next (a : Location) (c : Char) : a.lt (a.next c) := by
  unfold next
  split
  · exact .inl (Nat.lt_succ_self _)
  · exact .inr ⟨rfl, Nat.lt_add_of_pos_right c.utf8Size_pos⟩

end Location

/-- **A later offset has a later location.** -/
theorem Syntax.locationOf_lt {text : Chars} {i j : Nat} (h : i < j) (hj : j ≤ text.size) :
    (locationOf text i).lt (locationOf text j) := by
  have hi : i < text.toList.length := by
    rw [Array.length_toList]
    omega
  refine Location.lt_of_lt_of_le ?_ (locationOf_mono text (Nat.succ_le_of_lt h))
  rw [locationOf, locationOf, sliceOf_eq, sliceOf_eq, List.drop_zero, List.drop_zero,
    ← List.take_concat_get' _ _ hi, Location.after_concat]
  exact Location.lt_next _ _

/-- The extent of a construction with a smaller number: it begins before the other one, and contains
it or ends in front of it. -/
def Extent.Precedes (a b : Extent) : Prop :=
  a.start.lt b.start ∧ (a.stop.le b.start ∨ b.stop.le a.stop)

/-- Extents stand as the nodes that they belong to. -/
theorem Syntax.Tree.Precedes.extentOf {s : Source} {u v : Tree} (h : u.Precedes v)
    (hv : v.start ≤ s.text.size) : (s.extentOf u).Precedes (s.extentOf v) :=
  ⟨locationOf_lt h.1 hv, h.2.imp (locationOf_mono s.text) (locationOf_mono s.text)⟩

namespace Flow

variable {s : Source} {registry : Registry} {config : Config}

/-! ### Constructions -/

/-- Whether an expression constructs a bubble. -/
def constructs (s : Source) (registry : Registry) (config : Config) (t : Tree) : Bool :=
  t.is .newExpression && (constructed? s (importsOf s) t).any fun named =>
    isBubble registry config named.1 named.2

theorem map_node_constructionOf? (t : Tree) (target : Option Tree) :
    (constructionOf? s (importsOf s) registry config t target).map (·.node) =
      if (constructed? s (importsOf s) t).any fun named => isBubble registry config named.1 named.2
      then some t else none := by
  unfold constructionOf?
  cases constructed? s (importsOf s) t with
  | none => rfl
  | some named =>
    obtain ⟨className, module⟩ := named
    cases h : isBubble registry config className module <;> simp [h, guard]

/-- **Each expression that constructs a bubble is found once, in reading order.** -/
theorem map_node_constructions (s : Source) (registry : Registry) (config : Config) :
    (Flow.of s registry config).constructions.map (·.node) =
      s.root.nodes.filter (constructs s registry config) := by
  rw [← Tree.walkWith_fst receiver none s.root]
  change List.map _ (List.filterMap _ (List.filter _ _)) = _
  induction s.root.walkWith receiver (fun _ _ => .enter) none with
  | nil => rfl
  | cons x xs ih =>
    obtain ⟨t, target⟩ := x
    have hnode := @map_node_constructionOf? s registry config t target
    rw [List.map_cons]
    cases hnew : t.is .newExpression with
    | false =>
      rw [List.filter_cons_of_neg (by simp [hnew]),
        List.filter_cons_of_neg (by simp [constructs, hnew])]
      exact ih
    | true =>
      rw [List.filter_cons_of_pos (by simpa using hnew), List.filterMap_cons, List.filter_cons,
        constructs, hnew, Bool.true_and]
      dsimp only at hnode ⊢
      split at hnode
      · next hbubble =>
        obtain ⟨c, hc, rfl⟩ := Option.map_eq_some_iff.1 hnode
        rw [if_pos hbubble, hc, List.map_cons, ih]
      · next hbubble =>
        rw [if_neg hbubble, Option.map_eq_none_iff.1 hnode, ih]

/-- **Of two constructions the earlier one in reading order begins first, and contains the other one
or stands in front of it.** -/
theorem pairwise_precedes_constructions (h : Rooted s.text s.root) :
    (Flow.of s registry config).constructions.Pairwise fun c d =>
      (s.extentOf c.node).Precedes (s.extentOf d.node) := by
  have hroot : s.root.is .newExpression = false := Tree.is_eq_false_of h.label (by decide)
  have hnodes : (s.root.nodes.filter (constructs s registry config)).Pairwise Tree.Precedes := by
    refine (Tree.pairwise_precedes_root h.laid (k := .newExpression) rfl hroot).sublist ?_
    exact List.monotone_filter_right _ fun t ht => (Bool.and_eq_true_iff.1 ht).1
  rw [← map_node_constructions, List.pairwise_map] at hnodes
  refine hnodes.imp_of_mem fun {c d} _ hd hprecedes => hprecedes.extentOf ?_
  have hmem := List.mem_map_of_mem (f := Construction.node) hd
  rw [map_node_constructions] at hmem
  have hbounds := Tree.bounds_of_mem_nodes h.laid (List.mem_of_mem_filter hmem)
  have hstop := h.stop
  omega

/-! ### Made-up names -/

/-- The name of what is constructed without being bound to a name. -/
def anonymousName (className : String) (number : Nat) : String :=
  "_anonymous_" ++ className ++ "_" ++ toString number

/-- What stands behind the last of some marks. -/
theorem eq_of_append_cons_eq {α : Type} {mark : α} {as bs xs ys : List α} (hxs : mark ∉ xs)
    (hys : mark ∉ ys) (h : as ++ mark :: xs = bs ++ mark :: ys) : xs = ys := by
  rcases List.append_eq_append_iff.1 h with ⟨cs, -, hcs⟩ | ⟨cs, -, hcs⟩
  · cases cs with
    | nil => exact (List.cons.inj hcs).2
    | cons c cs =>
      obtain ⟨-, rfl⟩ := List.cons.inj hcs
      simp at hxs
  · cases cs with
    | nil => exact (List.cons.inj hcs).2.symm
    | cons c cs =>
      obtain ⟨-, rfl⟩ := List.cons.inj hcs
      simp at hys

/-- **Made-up names tell the numbers of their records**, since no digit is an underscore. -/
theorem anonymousName_inj {className className' : String} {m n : Nat}
    (h : anonymousName className m = anonymousName className' n) : m = n := by
  have hdigits : ∀ k : Nat, '_' ∉ (toString k).toList := by
    intro k hk
    rw [Nat.toString_eq_repr, Nat.repr_eq_ofList_toDigits, String.toList_ofList] at hk
    exact absurd (Nat.isDigit_of_mem_toDigits (by decide) (by decide) hk) (by decide)
  have hlists := congrArg String.toList h
  simp only [anonymousName, String.toList_append, String.reduceToList, List.append_assoc] at hlists
  rw [← List.append_assoc _ className.toList, ← List.append_assoc _ className'.toList] at hlists
  have heq := eq_of_append_cons_eq (hdigits m) (hdigits n) hlists
  simp only [Nat.toString_eq_repr, Nat.repr_eq_ofList_toDigits, String.toList_ofList] at heq
  rw [← Nat.ofDigitChars_ten_toDigits (n := m), heq, Nat.ofDigitChars_ten_toDigits]

/-! ### Records -/

theorem map_number_records (f : Flow) (registry : Registry) (config : Config) :
    (f.records registry config).map (·.1) = List.range' 1 f.constructions.length := by
  refine List.ext_getElem (by simp [records]) fun i hi _ => ?_
  simp [records, Nat.add_comm]

theorem map_extent_records (f : Flow) (registry : Registry) (config : Config) :
    (f.records registry config).map (·.2.extent) =
      f.constructions.map fun c => f.source.extentOf c.node := by
  refine List.ext_getElem (by simp [records]) fun i hi _ => ?_
  simp [records, recordOf]

/-- Each construction has the record with its number. -/
theorem mem_zip_records {f : Flow} {x : Construction × Nat × Record}
    (hx : x ∈ f.constructions.zip (f.records registry config)) :
    x.2.2 = f.recordOf registry config x.2.1 x.1 := by
  obtain ⟨i, hi, rfl⟩ := List.mem_iff_getElem.1 hx
  simp [records]

/-- Records enumerate the constructions of bubbles among the expressions of a source. -/
structure Enumerates (f : Flow) (news : List Tree) (rs : Records) : Prop where
  /-- The numbers count the constructions from one. -/
  keys : rs.map (·.1) = List.range' 1 news.length
  /-- A record says its number. -/
  number : ∀ e ∈ rs, e.2.number = e.1
  /-- Each construction is found once, in reading order. -/
  nodes : f.constructions.map (·.node) = news
  /-- Each construction has a record. -/
  extents : rs.map (·.2.extent) = news.map f.source.extentOf
  /-- Of two records the one with the smaller number begins first, and contains the other one or
  ends in front of it. -/
  apart : rs.Pairwise fun e e' => e.1 < e'.1 ∧ e.2.extent.Precedes e'.2.extent
  /-- What is bound to no name has a name of its own. -/
  names : (f.constructions.zip rs).Pairwise fun x y => x.1.binding = none → y.1.binding = none →
    x.2.2.variableName ≠ y.2.2.variableName

/-- **Records are numbered in reading order**: the numbers count the expressions that construct
bubbles, wherever these stand. -/
theorem records_in_reading_order {text : String} (hs : Source.parse text = .ok s)
    (registry : Registry) (config : Config) :
    (Flow.of s registry config).Enumerates (s.root.nodes.filter (constructs s registry config))
      ((Flow.of s registry config).records registry config) := by
  set f := Flow.of s registry config
  have hrooted := (rooted_of_parse hs).2.2
  have hnodes := map_node_constructions s registry config
  have hlength := congrArg List.length hnodes
  rw [List.length_map] at hlength
  have hkeys := f.map_number_records registry config
  have hextents := f.map_extent_records registry config
  have hless : ((f.records registry config).map (·.1)).Pairwise (· < ·) :=
    hkeys ▸ List.pairwise_lt_range' 1 Nat.one_pos
  have happart : ((f.records registry config).map (·.2.extent)).Pairwise Extent.Precedes :=
    hextents ▸ List.pairwise_map.2 (pairwise_precedes_constructions hrooted)
  rw [List.pairwise_map] at hless happart
  refine ⟨hlength ▸ hkeys, ?_, hnodes, ?_, hless.and happart, ?_⟩
  · intro e he
    obtain ⟨i, hi, rfl⟩ := List.mem_mapIdx.1 he
    rfl
  · rw [hextents, ← hnodes, List.map_map]
    rfl
  · have hzip : (f.constructions.zip (f.records registry config)).Pairwise
        fun x y => x.2.1 < y.2.1 := by
      rw [← List.pairwise_map (f := Prod.snd) (R := fun e e' : Nat × Record => e.1 < e'.1),
        List.map_snd_zip (by simp [records])]
      exact hless
    refine hzip.imp_of_mem fun {x y} hx hy hlt hfree hfree' heq => ?_
    have hname : x.2.2.variableName = anonymousName x.1.className x.2.1 := by
      rw [mem_zip_records hx, recordOf, hfree]
      rfl
    have hname' : y.2.2.variableName = anonymousName y.1.className y.2.1 := by
      rw [mem_zip_records hy, recordOf, hfree']
      rfl
    rw [hname, hname'] at heq
    exact absurd (anonymousName_inj heq) (Nat.ne_of_lt hlt)

/-- A source with a construction among the arguments of another, and one behind them. -/
def nestingText : String := "const a=new ABubble(new BBubble());new ABubble()"

theorem exists_parse_nestingText : ∃ s, Source.parse nestingText = .ok s ∧
    ((Flow.of s (.ofList []) .standard).records (.ofList []) .standard).map
      (fun e => (e.1, e.2.variableName)) =
        [(1, "a"), (2, "_anonymous_BBubble_2"), (3, "_anonymous_ABubble_3")] := by
  have hread : (Source.parse nestingText).toOption.any fun s =>
      decide (((Flow.of s (.ofList []) .standard).records (.ofList []) .standard).map
        (fun e => (e.1, e.2.variableName)) =
          [(1, "a"), (2, "_anonymous_BBubble_2"), (3, "_anonymous_ABubble_3")]) := by
    decide +kernel
  obtain ⟨s, hs, hnames⟩ := Option.any_eq_true _ _ |>.1 hread
  exact ⟨s, eq_ok_of_toOption hs, of_decide_eq_true hnames⟩

theorem records_in_reading_order_nestingText : ∃ s, Source.parse nestingText = .ok s ∧
    ((Flow.of s (.ofList []) .standard).records (.ofList []) .standard).map
      (fun e => (e.1, e.2.variableName)) =
        [(1, "a"), (2, "_anonymous_BBubble_2"), (3, "_anonymous_ABubble_3")] ∧
    (Flow.of s (.ofList []) .standard).Enumerates
      (s.root.nodes.filter (constructs s (.ofList []) .standard))
      ((Flow.of s (.ofList []) .standard).records (.ofList []) .standard) := by
  obtain ⟨s, hs, hnames⟩ := exists_parse_nestingText
  exact ⟨s, hs, hnames, records_in_reading_order hs (.ofList []) .standard⟩

end Flow

end FlowAnalysis
