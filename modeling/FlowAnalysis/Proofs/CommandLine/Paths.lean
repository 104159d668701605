import FlowAnalysis.CommandLine.Files
import FlowAnalysis.Proofs.Keyed
import FlowAnalysis.Proofs.Text.Fields

/-!
# Paths

A path has parts, and paths are in the order of their parts.  The path of what a directory holds has
one part more than the path of the directory, and what the directory holds stands there.

## Main definitions

* `PathPart`, `pathParts` — the parts of a path and their order.
* `IsEntryName` — the names that something in a directory may have.
* `FileTree.WellFormed` — a tree whose directories hold each name once, and such names only.

## Main results

* `pathParts_foldl_childPath` — **the path that names make behind another one has these names as its
  further parts.**
* `FileTree.find_foldl_childPath` — **what stands below a directory stands at the path that its
  names make.**
-/

namespace FlowAnalysis

/-! ### Paths -/

/-- A part of a path. -/
inductive PathPart
  /-- The slash that an absolute path begins with. -/
  | root
  /-- The point that a path may begin with. -/
  | here
  /-- Two points. -/
  | up
  | name (name : String)
  deriving DecidableEq, Repr

/-- The place of a kind of parts among the kinds. -/
def PathPart.rank : PathPart → Nat
  | root => 0
  | here => 1
  | up => 2
  | name _ => 3

/-- Names are in the order of their characters, after all other parts. -/
instance : LT PathPart where
  lt
    | .name a, .name b => a < b
    | p, q => p.rank < q.rank

instance : Std.Irrefl fun p q : PathPart => p < q where
  irrefl p h := by
    cases p with
    | name a => exact String.lt_irrefl a h
    | _ => exact Nat.lt_irrefl _ h

/-- The part of a path that stands between two of its slashes. -/
def namePart? (name : String) : Option PathPart :=
  if name = "" ∨ name = "." then none else if name = ".." then some .up else some (.name name)

/-- The parts of a path. -/
def pathParts (path : String) : List PathPart :=
  (if path.toList.head? = some '/' then [.root]
    else if (pathNames path).head? = some "." then [.here] else []) ++
    (pathNames path).filterMap namePart?

/-- The names that something in a directory may have. -/
def IsEntryName (name : String) : Prop := name ∉ ["", ".", ".."] ∧ '/' ∉ name.toList

instance : DecidablePred IsEntryName := fun _ => inferInstanceAs (Decidable (_ ∧ _))

theorem IsEntryName.ne {name : String} (h : IsEntryName name) :
    ¬(name = "" ∨ name = ".") ∧ name ≠ ".." := by
  have hname := h.1
  simp only [List.mem_cons, List.not_mem_nil, or_false, not_or] at hname
  exact ⟨not_or.2 ⟨hname.1, hname.2.1⟩, hname.2.2⟩

theorem IsEntryName.namePart?_eq {name : String} (h : IsEntryName name) :
    namePart? name = some (.name name) := by
  rw [namePart?, if_neg h.ne.1, if_neg h.ne.2]

theorem pathNames_ne_nil (path : String) : pathNames path ≠ [] := by
  rw [pathNames, Text.splitAt_eq_splitOnP, ne_eq, List.map_eq_nil_iff]
  exact List.splitOnP_ne_nil _ _

theorem pathNames_append_slash (path : String) {name : String} (h : '/' ∉ name.toList) :
    pathNames (path ++ "/" ++ name) = pathNames path ++ [name] := by
  have hnone : ∀ c ∈ name.toList, decide (c = '/') = false := by
    rintro c hc
    exact decide_eq_false fun hslash => h (hslash ▸ hc)
  unfold pathNames
  rw [Text.splitAt_eq_splitOnP, Text.splitAt_eq_splitOnP, String.toList_append,
    String.toList_append, List.append_assoc, show "/".toList = ['/'] by rfl, List.singleton_append,
    List.splitOnP_append_cons _ _ (by simp), List.splitOnP_eq_singleton hnone]
  simp

/-- The names in the path of what a directory holds: the last of those in the path of the directory
may be empty, and then it is replaced. -/
theorem exists_pathNames (path : String) {name : String} (h : '/' ∉ name.toList) :
    ∃ names, names ≠ [] ∧ (pathNames path = names ∨ pathNames path = names ++ [""]) ∧
      pathNames (childPath path name) = names ++ [name] := by
  unfold childPath
  split
  · next hlast =>
    obtain ⟨front, hfront⟩ := List.getLast?_eq_some_iff.1 hlast
    have hpath : path = String.ofList front ++ "/" := by
      rw [← String.ofList_toList (s := path), hfront]
      simp
    refine ⟨pathNames (String.ofList front), pathNames_ne_nil _, .inr ?_, ?_⟩
    · have hempty : pathNames (String.ofList front ++ "/" ++ "") = _ :=
        pathNames_append_slash (String.ofList front) (by simp)
      rwa [String.append_empty, ← hpath] at hempty
    · rw [hpath, pathNames_append_slash _ h]
  · exact ⟨pathNames path, pathNames_ne_nil path, .inl rfl, pathNames_append_slash path h⟩

theorem head?_childPath {path : String} (hpath : path ≠ "") (name : String) :
    (childPath path name).toList.head? = path.toList.head? := by
  have hne : path.toList ≠ [] := by simpa using hpath
  obtain ⟨c, rest, hcons⟩ := List.exists_cons_of_ne_nil hne
  unfold childPath
  split <;> simp [hcons]

theorem childPath_ne_empty {path : String} (hpath : path ≠ "") (name : String) :
    childPath path name ≠ "" := by
  intro hempty
  have hhead := head?_childPath hpath name
  rw [hempty] at hhead
  exact hpath (by simpa using hhead.symm)

/-- **The path of what a directory holds has one part more.** -/
theorem pathParts_childPath {path name : String} (hpath : path ≠ "") (h : IsEntryName name) :
    pathParts (childPath path name) = pathParts path ++ [.name name] := by
  obtain ⟨names, hne, hnames, hchild⟩ := exists_pathNames path h.2
  have hhead : (pathNames (childPath path name)).head? = (pathNames path).head? := by
    obtain ⟨first, rest, hcons⟩ := List.exists_cons_of_ne_nil hne
    rcases hnames with hnames | hnames <;> simp [hchild, hnames, hcons]
  have hparts : (pathNames path).filterMap namePart? = names.filterMap namePart? := by
    rcases hnames with hnames | hnames <;> simp [hnames, namePart?]
  unfold pathParts
  rw [head?_childPath hpath, hhead, hparts, hchild, List.filterMap_append,
    List.filterMap_cons_some h.namePart?_eq, List.filterMap_nil, List.append_assoc]

theorem pathParts_foldl_childPath {path : String} (hpath : path ≠ "") {names : List String}
    (h : ∀ name ∈ names, IsEntryName name) :
    pathParts (names.foldl childPath path) = pathParts path ++ names.map .name := by
  induction names generalizing path with
  | nil => simp
  | cons name names ih =>
    rw [List.forall_mem_cons] at h
    rw [List.foldl_cons, ih (childPath_ne_empty hpath name) h.2, pathParts_childPath hpath h.1]
    simp

/-! ### Trees -/

namespace FileTree

/-- A tree whose directories hold each name once, and only names that something may have. -/
inductive WellFormed : FileTree → Prop
  | file (content : Except FileFailure String) : WellFormed (.file content)
  | directory {entries : List (String × FileTree)} (nodup : (entries.map Prod.fst).Nodup)
      (names : ∀ x ∈ entries, IsEntryName x.1) (wellFormed : ∀ x ∈ entries, WellFormed x.2) :
      WellFormed (.directory entries)
  | closed (obstacle : FileObstacle) : WellFormed (.closed obstacle)

variable {root e e' : FileTree} {path name : String} {names : List String}
  {entries : List (String × FileTree)}

theorem at?_append (root : FileTree) (names names' : List String) :
    root.at? (names ++ names') = (root.at? names).bind (·.at? names') := by
  induction names generalizing root with
  | nil => rfl
  | cons name names ih =>
    rw [List.cons_append, at?_cons, at?_cons, Option.bind_assoc]
    exact congrArg _ (funext fun e => ih e)

theorem at?_cons_eq_some_iff : root.at? (name :: names) = some e ↔
    ∃ child, root.child? name = some child ∧ child.at? names = some e := Option.bind_eq_some_iff

/-- What stands below a tree is as it should be, and so are the names that lead to it. -/
theorem WellFormed.of_at? (h : root.WellFormed) (hat : root.at? names = some e) :
    e.WellFormed ∧ ∀ name ∈ names, IsEntryName name := by
  induction names generalizing root with
  | nil =>
    obtain rfl : root = e := Option.some.inj hat
    exact ⟨h, nofun⟩
  | cons name names ih =>
    obtain ⟨child, hchild, hbelow⟩ := at?_cons_eq_some_iff.1 hat
    cases h with
    | file _ | closed _ => cases hchild
    | directory nodup hnames hwell =>
      have hmem := Keyed.mem_of_get? hchild
      obtain ⟨he, hrest⟩ := ih (hwell _ hmem) hbelow
      exact ⟨he, List.forall_mem_cons.2 ⟨hnames _ hmem, hrest⟩⟩

/-! ### What stands at a path -/

theorem find_eq_ok_iff : root.find path = .ok e ↔
    ∃ place, root.locate path = .ok place ∧ root.at? place = some e := by
  unfold find
  cases root.locate path with
  | error cause => simp
  | ok place => cases hat : root.at? place <;> simp [hat]

theorem ne_empty_of_find (h : root.find path = .ok e) : path ≠ "" := by
  rintro rfl
  cases h

/-- An empty name leads nowhere else. -/
theorem step_empty {place place' : List String} (h : root.step place "" = .ok place') :
    place' = place := by
  unfold step at h
  split at h
  · cases h
  · split at h
    · cases h
    · rw [if_pos (.inl rfl)] at h
      exact (Except.ok.inj h).symm

theorem step_of_get? {place : List String} (hplace : root.at? place = some (.directory entries))
    (hname : IsEntryName name) (hchild : Keyed.get? entries name = some e) :
    root.step place name = .ok (place ++ [name]) ∧ root.at? (place ++ [name]) = some e := by
  have hat : root.at? (place ++ [name]) = some e := by
    rw [at?_append, hplace]
    simp [child?, hchild]
  refine ⟨?_, hat⟩
  unfold step
  rw [hplace]
  simp only
  rw [if_neg (by simp [isDirectory]), if_neg hname.ne.1, if_neg hname.ne.2, hat]
  rfl

/-- What a directory holds under a name stands at the path that the name makes. -/
theorem find_childPath (hfind : root.find path = .ok (.directory entries))
    (hname : IsEntryName name) (hchild : Keyed.get? entries name = some e) :
    root.find (childPath path name) = .ok e := by
  have hpath := ne_empty_of_find hfind
  obtain ⟨place, hplace, hat⟩ := find_eq_ok_iff.1 hfind
  obtain ⟨names, -, hnames, hchildNames⟩ := exists_pathNames path hname.2
  unfold locate at hplace
  split at hplace
  · cases hplace
  · next hrelative =>
    -- The name that is replaced is empty, so the names before it lead to the directory too.
    have hfold : names.foldlM root.step [] = .ok place := by
      rcases hnames with hnames | hnames
      · rwa [hnames] at hplace
      · rw [hnames, List.foldlM_append] at hplace
        cases hinit : names.foldlM root.step [] with
        | error cause =>
          rw [hinit] at hplace
          cases hplace
        | ok place' =>
          rw [hinit] at hplace
          simp only [List.foldlM_cons, List.foldlM_nil, bind_pure] at hplace
          rw [step_empty hplace]
    obtain ⟨hstep, hat⟩ := step_of_get? hat hname hchild
    have hrelative : ¬(childPath path name = "" ∨
        (childPath path name).toList.head? = some '/') := by
      rw [head?_childPath hpath]
      exact not_or.2 ⟨childPath_ne_empty hpath name, (not_or.1 hrelative).2⟩
    refine find_eq_ok_iff.2 ⟨place ++ [name], ?_, hat⟩
    rw [locate, if_neg hrelative, hchildNames, List.foldlM_append, hfold]
    show [name].foldlM root.step place = .ok (place ++ [name])
    simpa using hstep

/-- **What stands below a directory stands at the path that its names make.** -/
theorem find_foldl_childPath (hfind : root.find path = .ok e) (h : e.WellFormed)
    (hat : e.at? names = some e') : root.find (names.foldl childPath path) = .ok e' := by
  induction names generalizing path e with
  | nil =>
    obtain rfl : e = e' := Option.some.inj hat
    exact hfind
  | cons name names ih =>
    obtain ⟨child, hchild, hbelow⟩ := at?_cons_eq_some_iff.1 hat
    cases h with
    | file _ | closed _ => cases hchild
    | directory nodup hnames hwell =>
      have hmem := Keyed.mem_of_get? hchild
      exact ih (find_childPath hfind (hnames _ hmem) hchild) (hwell _ hmem) hbelow

end FileTree

end FlowAnalysis
