import FlowAnalysis.CommandLine.Run
import FlowAnalysis.Proofs.CommandLine.Paths

/-!
# Flows of targets

A target is a file, or a directory with all the flows below it.  A directory is gone through in the
order of the paths of what is met, part by part, because each directory puts what it holds in order:
what two paths begin with in common is the directory where they part.  What is met is a flow or an
obstacle, and the first obstacle is what is reported.

## Main definitions

* `FileTree.Meets` — what is met below an entry, and under which names.
* `FileTree.visitsUnder` — what is met in what a directory holds under a name.
* `FileTree.FirstObstacle` — the obstacle that is met first.

## Main results

* `FileTree.mem_visits` — what is met when an entry is gone through.
* `FileTree.pairwise_visits` — **it is met in the order of the paths.**
* `FileTree.mem_flowFiles`, `FileTree.pairwise_flowFiles` — which flows an entry has, and in which
  order.
* `FileTree.exists_firstObstacle` — **the obstacle that is found is the one whose path comes
  first.**
* `CommandLine.collectFlows_of_wellFormed` — **which flows some targets have, and in which order.**
-/

namespace FlowAnalysis

/-- What it is that is met. -/
def FileVisit.entry : FileVisit → FileTree
  | flow content => .file content
  | obstacle o => .closed o

theorem FileVisit.entry_injective : Function.Injective FileVisit.entry := by
  rintro (_ | _) (_ | _) h <;> cases h <;> rfl

namespace FileTree

variable {e : FileTree} {v : FileVisit} {path : String} {names : List String} {o : FileObstacle}
  {entries : List (String × FileTree)}

/-! ### What is met in an entry -/

/-- What is met below an entry under some names: what is not a directory is only met where its name
says that it is a flow. -/
def Meets (e : FileTree) (names : List String) (v : FileVisit) : Prop :=
  e.at? names = some v.entry ∧ (v.entry.isDirectory ∨ ∀ name ∈ names.getLast?, isFlowName name)

/-- Nothing is below what is met. -/
theorem eq_nil_of_at?_entry (h : v.entry.at? names = some e) : names = [] := by
  cases names with
  | nil => rfl
  | cons name names => cases v <;> cases h

theorem meets_entry_iff {w : FileVisit} : w.entry.Meets names v ↔ names = [] ∧ v = w := by
  constructor
  · rintro ⟨hat, -⟩
    obtain rfl := eq_nil_of_at?_entry hat
    exact ⟨rfl, FileVisit.entry_injective (Option.some.inj hat).symm⟩
  · rintro ⟨rfl, rfl⟩
    exact ⟨rfl, .inr nofun⟩

/-- Below a directory something is met where it is met in what the directory holds under a name, if
that is gone through. -/
theorem meets_cons_iff {name : String} {child : FileTree}
    (hchild : Keyed.get? entries name = some child) :
    (directory entries).Meets (name :: names) v ↔
      (child.isDirectory || isFlowName name) = true ∧ child.Meets names v := by
  have hat : (directory entries).at? (name :: names) = child.at? names := by
    rw [at?_cons, child?, hchild, Option.bind_some]
  rw [Meets, Meets, hat]
  cases names with
  | nil =>
    rw [and_left_comm]
    refine and_congr_right fun hsame => ?_
    obtain rfl : child = v.entry := Option.some.inj hsame
    simp
  | cons next names =>
    -- Something stands below the child, so it is a directory, whatever its name.
    rw [List.getLast?_cons_cons]
    refine ⟨fun h => ⟨?_, h⟩, And.right⟩
    cases child with
    | directory _ => rfl
    | file _ | closed _ => cases h.1

/-- What is met in what a directory holds under a name, where only directories and what has the name
of a flow are gone through. -/
def visitsUnder (path : String) (x : String × FileTree) : List (String × FileVisit) :=
  if x.2.isDirectory || isFlowName x.1 then visits (childPath path x.1) x.2 else []

theorem visits_entry (path : String) (v : FileVisit) : v.entry.visits path = [(path, v)] := by
  cases v <;> simp [FileVisit.entry, visits]

theorem visitsIn_eq (path : String) (entries : List (String × FileTree)) :
    visitsIn path entries = entries.map fun x => (x.1, visitsUnder path x) := by
  induction entries with
  | nil => rfl
  | cons x rest ih =>
    rw [visitsIn, ih]
    rfl

/-- Names that tell files apart do so once they are in order. -/
theorem mem_sorted_visitsIn (hnodup : (entries.map Prod.fst).Nodup)
    {y : String × List (String × FileVisit)} :
    y ∈ Keyed.sorted Keyed.stringLt (visitsIn path entries) ↔
      ∃ x ∈ entries, (x.1, visitsUnder path x) = y := by
  have hkeys : ((entries.map fun x => (x.1, visitsUnder path x)).map Prod.fst).Nodup := by
    simpa [Function.comp_def] using hnodup
  rw [visitsIn_eq, Keyed.mem_sorted_iff hkeys, List.mem_map]

theorem mem_visits_directory (hnodup : (entries.map Prod.fst).Nodup) {f : String × FileVisit} :
    f ∈ (directory entries).visits path ↔ ∃ x ∈ entries, f ∈ visitsUnder path x := by
  simp only [visits, List.mem_flatMap, mem_sorted_visitsIn hnodup]
  constructor
  · rintro ⟨_, ⟨x, hx, rfl⟩, hf⟩
    exact ⟨x, hx, hf⟩
  · rintro ⟨x, hx, hf⟩
    exact ⟨_, ⟨x, hx, rfl⟩, hf⟩

/-- **What is met when an entry is gone through**, each at the path that the names make which lead
to it. -/
theorem mem_visits (h : e.WellFormed) {p : String} :
    (p, v) ∈ e.visits path ↔ ∃ names, e.Meets names v ∧ p = names.foldl childPath path := by
  induction h generalizing path with
  | file content =>
    show _ ∈ (FileVisit.flow content).entry.visits path ↔
      ∃ names, (FileVisit.flow content).entry.Meets names v ∧ _
    simp [visits_entry, meets_entry_iff, and_comm]
  | closed o =>
    show _ ∈ (FileVisit.obstacle o).entry.visits path ↔
      ∃ names, (FileVisit.obstacle o).entry.Meets names v ∧ _
    simp [visits_entry, meets_entry_iff, and_comm]
  | @directory entries hnodup hnames hwell ih =>
    rw [mem_visits_directory hnodup]
    constructor
    · rintro ⟨⟨name, child⟩, hmem, hf⟩
      unfold visitsUnder at hf
      split at hf
      · next htaken =>
        obtain ⟨names, hmeets, rfl⟩ := (ih _ hmem).1 hf
        have hchild := Keyed.get?_of_mem_of_nodup hnodup hmem
        exact ⟨name :: names, (meets_cons_iff hchild).2 ⟨htaken, hmeets⟩, rfl⟩
      · cases hf
    · rintro ⟨names, hmeets, rfl⟩
      cases names with
      | nil => cases v <;> cases hmeets.1
      | cons name names =>
        obtain ⟨child, hchild, -⟩ := at?_cons_eq_some_iff.1 hmeets.1
        have hmem := Keyed.mem_of_get? hchild
        obtain ⟨htaken, hbelow⟩ := (meets_cons_iff hchild).1 hmeets
        refine ⟨(name, child), hmem, ?_⟩
        rw [visitsUnder, if_pos htaken]
        exact (ih _ hmem).2 ⟨names, hbelow, rfl⟩

/-- The paths of what is met under a name have the name as the part behind those of the
directory. -/
theorem exists_pathParts_of_mem_visitsUnder (hpath : path ≠ "") {x : String × FileTree}
    (hname : IsEntryName x.1) (hwell : x.2.WellFormed) {f : String × FileVisit}
    (hf : f ∈ visitsUnder path x) :
    ∃ rest, pathParts f.1 = pathParts path ++ .name x.1 :: rest := by
  unfold visitsUnder at hf
  split at hf
  · obtain ⟨names, hmeets, hf⟩ := (mem_visits hwell).1 hf
    refine ⟨names.map .name, ?_⟩
    rw [hf, pathParts_foldl_childPath (childPath_ne_empty hpath x.1) (hwell.of_at? hmeets.1).2,
      pathParts_childPath hpath hname, List.append_assoc, List.singleton_append]
  · cases hf

/-- **An entry is gone through in the order of the paths.** -/
theorem pairwise_visits (h : e.WellFormed) (hpath : path ≠ "") :
    (e.visits path).Pairwise fun f g => pathParts f.1 < pathParts g.1 := by
  induction h generalizing path with
  | file _ | closed _ =>
    rw [visits]
    exact List.pairwise_singleton _ _
  | @directory entries hnodup hnames hwell ih =>
    rw [visits, List.pairwise_flatMap]
    constructor
    · intro y hy
      obtain ⟨x, hx, rfl⟩ := (mem_sorted_visitsIn hnodup).1 hy
      show (visitsUnder path x).Pairwise _
      unfold visitsUnder
      split
      · exact ih x hx (childPath_ne_empty hpath x.1)
      · exact .nil
    · -- Under two names the paths part at the names, which are in order.
      refine (Keyed.ordered_sorted _).imp_of_mem ?_
      intro y z hy hz hlt f hf g hg
      obtain ⟨x, hx, rfl⟩ := (mem_sorted_visitsIn hnodup).1 hy
      obtain ⟨x', hx', rfl⟩ := (mem_sorted_visitsIn hnodup).1 hz
      obtain ⟨rest, hf⟩ := exists_pathParts_of_mem_visitsUnder hpath (hnames x hx) (hwell x hx) hf
      obtain ⟨rest', hg⟩ :=
        exists_pathParts_of_mem_visitsUnder hpath (hnames x' hx') (hwell x' hx') hg
      rw [hf, hg]
      exact List.append_left_lt (.rel hlt)

/-! ### Flows of an entry -/

theorem mem_flowFiles_iff {p : String} {content : Except FileFailure String} :
    (p, content) ∈ e.flowFiles path ↔ (p, .flow content) ∈ e.visits path := by
  rw [flowFiles, List.mem_filterMap]
  constructor
  · rintro ⟨⟨_, _ | _⟩, hmem, hflow⟩ <;> cases hflow
    exact hmem
  · exact fun hmem => ⟨_, hmem, rfl⟩

/-- **Which flows an entry has**: the files below it whose names say so, and itself if it is a file;
each at the path that the names make which lead to it. -/
theorem mem_flowFiles (h : e.WellFormed) {p : String} {content : Except FileFailure String} :
    (p, content) ∈ e.flowFiles path ↔ ∃ names, e.at? names = some (.file content) ∧
      (∀ name ∈ names.getLast?, isFlowName name) ∧ p = names.foldl childPath path := by
  rw [mem_flowFiles_iff, mem_visits h]
  refine exists_congr fun names => ?_
  rw [Meets, and_assoc]
  simp [FileVisit.entry, isDirectory]

/-- **The flows of an entry come in the order of their paths.** -/
theorem pairwise_flowFiles (h : e.WellFormed) (hpath : path ≠ "") :
    (e.flowFiles path).Pairwise fun f g => pathParts f.1 < pathParts g.1 := by
  rw [flowFiles, List.pairwise_filterMap]
  refine (pairwise_visits h hpath).imp ?_
  rintro ⟨p, _ | _⟩ ⟨q, _ | _⟩ hlt f hf g hg <;> cases hf <;> cases hg
  exact hlt

theorem nodup_flowFiles (h : e.WellFormed) (hpath : path ≠ "") :
    ((e.flowFiles path).map Prod.fst).Nodup := by
  rw [List.nodup_iff_pairwise_ne, List.pairwise_map]
  refine (pairwise_flowFiles h hpath).imp fun hlt heq => ?_
  rw [heq] at hlt
  exact List.lt_irrefl _ hlt

theorem flowFiles_file (path : String) (content : Except FileFailure String) :
    (file content).flowFiles path = [(path, content)] := by
  simp [flowFiles, visits]

/-- A directory has the files below it whose last name says so. -/
theorem mem_flowFiles_directory (h : (directory entries).WellFormed) {p : String}
    {content : Except FileFailure String} :
    (p, content) ∈ (directory entries).flowFiles path ↔ ∃ names name,
      (directory entries).at? (names ++ [name]) = some (.file content) ∧
        extension? name = some "ts" ∧ p = (names ++ [name]).foldl childPath path := by
  rw [mem_flowFiles h]
  constructor
  · rintro ⟨names, hfile, hlast, rfl⟩
    rcases List.eq_nil_or_concat names with rfl | ⟨front, name, rfl⟩
    · cases hfile
    · rw [List.concat_eq_append] at hfile hlast ⊢
      exact ⟨front, name, hfile, by simpa [isFlowName] using hlast, rfl⟩
  · rintro ⟨names, name, hfile, hlast, rfl⟩
    exact ⟨names ++ [name], hfile, by simpa [isFlowName] using hlast, rfl⟩

/-! ### Obstacles -/

theorem obstacle?_file (path : String) (content : Except FileFailure String) :
    (file content).obstacle? path = none := by
  simp [obstacle?, visits]

/-- An obstacle below an entry that is met before all the others. -/
structure FirstObstacle (e : FileTree) (path : String) (names : List String) (o : FileObstacle) :
    Prop where
  meets : e.Meets names (.obstacle o)
  first : ∀ names' o', e.Meets names' (.obstacle o') →
    names.foldl childPath path = names'.foldl childPath path ∨
      pathParts (names.foldl childPath path) < pathParts (names'.foldl childPath path)

theorem obstacle?_eq_none_iff (h : e.WellFormed) :
    e.obstacle? path = none ↔ ∀ names o, ¬e.Meets names (.obstacle o) := by
  rw [obstacle?, List.findSome?_eq_none_iff]
  constructor
  · intro hnone names o hmeets
    cases hnone _ ((mem_visits h).2 ⟨names, hmeets, rfl⟩)
  · rintro hnone ⟨p, _ | o⟩ hmem
    · rfl
    · obtain ⟨names, hmeets, -⟩ := (mem_visits h).1 hmem
      exact absurd hmeets (hnone names o)

/-- What is found first is the obstacle that is met first. -/
theorem exists_firstObstacle (h : e.WellFormed) (hpath : path ≠ "") {p : String}
    (hfound : e.obstacle? path = some (p, o)) :
    ∃ names, e.FirstObstacle path names o ∧ p = names.foldl childPath path := by
  obtain ⟨before, ⟨q, _ | o'⟩, after, hvisits, hsome, hbefore⟩ :=
    List.findSome?_eq_some_iff.1 hfound
  · cases hsome
  · cases hsome
    have hvisited : (p, .obstacle o) ∈ e.visits path := by
      rw [hvisits]
      exact List.mem_append_right _ List.mem_cons_self
    obtain ⟨names, hmeets, rfl⟩ := (mem_visits h).1 hvisited
    refine ⟨names, ⟨hmeets, fun names' o' hmeets' => ?_⟩, rfl⟩
    have hmem : (names'.foldl childPath path, .obstacle o') ∈ e.visits path :=
      (mem_visits h).2 ⟨names', hmeets', rfl⟩
    have hordered := pairwise_visits h hpath
    rw [hvisits] at hmem hordered
    -- What is met before it is no obstacle, and what is met after it has a later path.
    rcases List.mem_append.1 hmem with hearly | hlate
    · cases hbefore _ hearly
    · rcases List.mem_cons.1 hlate with heq | hlate
      · exact .inl (congrArg Prod.fst heq).symm
      · exact .inr ((List.pairwise_cons.1 (List.pairwise_append.1 hordered).2.1).1 _ hlate)

end FileTree

/-! ### What is found -/

namespace FileTree

variable {root e : FileTree} {path p : String} {o : FileObstacle}

theorem surveyed_eq_ok_iff {e' : FileTree} :
    e.surveyed path = .ok e' ↔ e = e' ∧ e.obstacle? path = none := by
  unfold surveyed
  split
  · simp [obstacle?, visits]
  · next hfound => simp [hfound]
  · next hfound => simp [hfound]

theorem surveyed_of_obstacle? (h : e.obstacle? path = some (p, o)) :
    ∃ f, e.surveyed path = .error f ∧ CommandLine.lookupFailure path f =
      CommandLine.obstacleFailure p o := by
  unfold surveyed
  split
  · next cause =>
    obtain ⟨rfl, rfl⟩ : path = p ∧ .unknown cause = o := by simpa [obstacle?, visits] using h
    exact ⟨_, rfl, rfl⟩
  · next hfound =>
    obtain ⟨rfl, rfl⟩ := Prod.mk.inj (Option.some.inj (hfound.symm.trans h))
    exact ⟨_, rfl, rfl⟩
  · next hfound =>
    rw [hfound] at h
    cases h

theorem lookup_eq_ok_iff :
    root.lookup path = .ok e ↔ root.find path = .ok e ∧ e.obstacle? path = none := by
  unfold lookup
  cases root.find path with
  | error cause => simp
  | ok e' =>
    simp only [surveyed_eq_ok_iff, Except.ok.injEq]
    constructor <;> rintro ⟨rfl, hnone⟩ <;> exact ⟨rfl, hnone⟩

theorem WellFormed.of_find (h : root.WellFormed) (hfind : root.find path = .ok e) :
    e.WellFormed := by
  obtain ⟨place, -, hat⟩ := find_eq_ok_iff.1 hfind
  exact (h.of_at? hat).1

/-- **What can be gone through is found.** -/
theorem lookup_of_find (h : root.WellFormed) (hfind : root.find path = .ok e)
    (hfree : ∀ names o, ¬e.Meets names (.obstacle o)) : root.lookup path = .ok e :=
  lookup_eq_ok_iff.2 ⟨hfind, (obstacle?_eq_none_iff (h.of_find hfind)).2 hfree⟩

/-- The flows of what stands at a path stand at their own paths. -/
theorem lookup_of_mem_flowFiles (h : root.WellFormed) (hfind : root.find path = .ok e)
    {content : Except FileFailure String} (hf : (p, content) ∈ e.flowFiles path) :
    root.lookup p = .ok (.file content) := by
  have hwell := h.of_find hfind
  obtain ⟨names, hfile, -, rfl⟩ := (mem_flowFiles hwell).1 hf
  exact lookup_eq_ok_iff.2 ⟨find_foldl_childPath hfind hwell hfile, obstacle?_file _ content⟩

end FileTree

/-! ### Flows of targets -/

namespace CommandLine

open FileTree

variable {look : Lookup} {path : String} {targets : List String}

theorem collectFlows_nil (look : Lookup) : collectFlows look [] = .ok [] := rfl

theorem collectFlows_cons_of_ok {e : FileTree} (h : look path = .ok e) (rest : List String) :
    collectFlows look (path :: rest) = (collectFlows look rest).map (e.flowFiles path ++ ·) := by
  unfold collectFlows
  rw [List.mapM_cons, targetFlows, h]
  cases rest.mapM (targetFlows look) <;> rfl

theorem collectFlows_cons_of_error {f : LookupFailure} (h : look path = .error f)
    (rest : List String) : collectFlows look (path :: rest) = .error (lookupFailure path f) := by
  unfold collectFlows
  rw [List.mapM_cons, targetFlows, h]
  rfl

theorem collectFlows_singleton {e : FileTree} (h : look path = .ok e) :
    collectFlows look [path] = .ok (e.flowFiles path) := by
  rw [collectFlows_cons_of_ok h, collectFlows_nil]
  exact congrArg Except.ok (List.append_nil _)

/-- The flows of targets are those of the first one, then those of the second one, and so on. -/
theorem collectFlows_of_forall (h : ∀ path ∈ targets, ∃ e, look path = .ok e) :
    ∃ found, targets.Forall₂ (fun path flows => collectFlows look [path] = .ok flows) found ∧
      collectFlows look targets = .ok found.flatten := by
  induction targets with
  | nil => exact ⟨[], .nil, rfl⟩
  | cons path rest ih =>
    rw [List.forall_mem_cons] at h
    obtain ⟨⟨e, hlook⟩, hrest⟩ := h
    obtain ⟨found, hfound, hflows⟩ := ih hrest
    refine ⟨e.flowFiles path :: found, .cons (collectFlows_singleton hlook) hfound, ?_⟩
    rw [collectFlows_cons_of_ok hlook, hflows]
    rfl

/-- What is in the way of a target is reported, if it comes first. -/
theorem collectFlows_of_obstacle {root e : FileTree} (h : root.WellFormed)
    (hfind : root.find path = .ok e) (hobstacle : ∃ names o, e.Meets names (.obstacle o)) :
    ∃ names o, e.FirstObstacle path names o ∧ collectFlows root.lookup [path] =
      .error (obstacleFailure (names.foldl childPath path) o) := by
  have hwell := h.of_find hfind
  cases hfound : e.obstacle? path with
  | none =>
    obtain ⟨names, o, hmeets⟩ := hobstacle
    exact absurd hmeets ((obstacle?_eq_none_iff hwell).1 hfound names o)
  | some x =>
    obtain ⟨names, hfirst, hpath⟩ := exists_firstObstacle hwell (ne_empty_of_find hfind) hfound
    obtain ⟨f, hsurveyed, hfailure⟩ := surveyed_of_obstacle? hfound
    have hlook : root.lookup path = .error f := by
      rw [lookup, hfind]
      exact hsurveyed
    refine ⟨names, x.2, hfirst, ?_⟩
    rw [collectFlows_cons_of_error hlook [], hfailure, hpath]

/-- The first target that is not found is reported. -/
theorem collectFlows_of_missing {before after : List String} {f : LookupFailure}
    (hbefore : ∀ path ∈ before, ∃ e, look path = .ok e) (h : look path = .error f) :
    collectFlows look (before ++ path :: after) = .error (lookupFailure path f) := by
  induction before with
  | nil => exact collectFlows_cons_of_error h after
  | cons first rest ih =>
    rw [List.forall_mem_cons] at hbefore
    obtain ⟨⟨e, hfirst⟩, hrest⟩ := hbefore
    rw [List.cons_append, collectFlows_cons_of_ok hfirst, ih hrest]
    rfl

/-- Where some target is not found there is a first one. -/
theorem exists_first_missing (h : ∃ path ∈ targets, ∃ f, look path = .error f) :
    ∃ before path after f, targets = before ++ path :: after ∧
      (∀ p ∈ before, ∃ e, look p = .ok e) ∧ look path = .error f := by
  induction targets with
  | nil => simp at h
  | cons path rest ih =>
    cases hlook : look path with
    | error f => exact ⟨[], path, rest, f, rfl, nofun, hlook⟩
    | ok e =>
      obtain ⟨missing, hmem, f, hmissing⟩ := h
      rcases List.mem_cons.1 hmem with rfl | hmem
      · rw [hlook] at hmissing
        cases hmissing
      · obtain ⟨before, p, after, f, rfl, hbefore, hp⟩ := ih ⟨missing, hmem, f, hmissing⟩
        exact ⟨path :: before, p, after, f, rfl, List.forall_mem_cons.2 ⟨⟨e, hlook⟩, hbefore⟩, hp⟩

/-- **Which flows some targets have, and in which order.**  A file is a flow, whatever its name.  A
directory has the files below it whose names say so, each once, in the order of their paths.  The
flows of several targets come one target after the other; if a target does not exist, the first such
one is reported, and nothing is validated.  The same holds for a directory with something that cannot
be looked into: what comes first in the order of the paths is reported. -/
theorem collectFlows_of_wellFormed {root : FileTree} (h : root.WellFormed) :
    (∀ path content, root.lookup path = .ok (.file content) →
      collectFlows root.lookup [path] = .ok [(path, content)]) ∧
    (∀ path entries, root.lookup path = .ok (.directory entries) →
      ∃ flows, collectFlows root.lookup [path] = .ok flows ∧
        (∀ p content, (p, content) ∈ flows ↔ ∃ names name,
          (FileTree.directory entries).at? (names ++ [name]) = some (.file content) ∧
            extension? name = some "ts" ∧ p = (names ++ [name]).foldl childPath path) ∧
        (flows.Pairwise fun f g => pathParts f.1 < pathParts g.1) ∧ (flows.map Prod.fst).Nodup ∧
        ∀ f ∈ flows, root.lookup f.1 = .ok (.file f.2)) ∧
    (∀ targets, (∀ path ∈ targets, ∃ e, root.lookup path = .ok e) →
      ∃ found, targets.Forall₂ (fun path flows =>
          collectFlows root.lookup [path] = .ok flows) found ∧
        collectFlows root.lookup targets = .ok found.flatten) ∧
    (∀ targets, (∃ path ∈ targets, ∃ f, root.lookup path = .error f) →
      ∃ before path after f, targets = before ++ path :: after ∧
        (∀ p ∈ before, ∃ e, root.lookup p = .ok e) ∧ root.lookup path = .error f ∧
        collectFlows root.lookup targets = .error (lookupFailure path f) ∧
        ∀ inputs json a, inputs.readAnalyzer root.lookup = .ok a →
          (Command.validate inputs json targets).run root.lookup =
            ({} : Printed).fail (lookupFailure path f)) ∧
    (∀ path cause, root.find path = .error cause →
      root.lookup path = .error (.missing cause) ∧
        collectFlows root.lookup [path] = .error (.noTarget path)) ∧
    ∀ path e, root.find path = .ok e →
      ((∀ names o, ¬e.Meets names (.obstacle o)) → root.lookup path = .ok e) ∧
      ((∃ names o, e.Meets names (.obstacle o)) → ∃ names o, e.FirstObstacle path names o ∧
        collectFlows root.lookup [path] =
          .error (obstacleFailure (names.foldl childPath path) o)) := by
  refine ⟨?_, ?_, fun _ => collectFlows_of_forall, ?_, ?_, ?_⟩
  · intro path content hlook
    rw [collectFlows_singleton hlook, flowFiles_file]
  · intro path entries hlook
    have hfind := (lookup_eq_ok_iff.1 hlook).1
    have hpath := ne_empty_of_find hfind
    have hwell := h.of_find hfind
    exact ⟨_, collectFlows_singleton hlook, fun _ _ => mem_flowFiles_directory hwell,
      pairwise_flowFiles hwell hpath, nodup_flowFiles hwell hpath,
      fun _ hf => lookup_of_mem_flowFiles h hfind hf⟩
  · intro targets hmissing
    obtain ⟨before, path, after, f, rfl, hbefore, hlook⟩ := exists_first_missing hmissing
    have herror : collectFlows root.lookup (before ++ path :: after) =
        .error (lookupFailure path f) := collectFlows_of_missing hbefore hlook
    refine ⟨before, path, after, f, rfl, hbefore, hlook, herror, ?_⟩
    intro inputs json a ha
    rw [Command.run, ha, herror]
    rfl
  · intro path cause hfind
    have hlook : root.lookup path = .error (.missing cause) := by rw [lookup, hfind]
    exact ⟨hlook, collectFlows_cons_of_error hlook []⟩
  · exact fun path e hfind => ⟨lookup_of_find h hfind, collectFlows_of_obstacle h hfind⟩

/-- A directory that holds a file and a directory whose names begin alike, and one with a directory
that cannot be opened. -/
def alikeTree : FileTree :=
  .directory [("flows", .directory [("a.ts", .file (.ok "")),
    ("a", .directory [("z.txt", .file (.ok "")), ("z.ts", .file (.error .notText))])]),
    ("sealed", .directory [("b", .closed (.unopened .notAllowed)), ("a.ts", .file (.ok ""))])]

/-- What the directory holds comes before the file, though a slash comes after a point. -/
theorem collectFlows_of_wellFormed_alikeTree : alikeTree.WellFormed ∧
    collectFlows alikeTree.lookup ["flows/a/z.txt"] = .ok [("flows/a/z.txt", .ok "")] ∧
    collectFlows alikeTree.lookup ["flows"] =
      .ok [("flows/a/z.ts", .error .notText), ("flows/a.ts", .ok "")] ∧
    pathParts "flows/a/z.ts" < pathParts "flows/a.ts" ∧
    (Command.validate ⟨none, none⟩ true ["flows", "none"]).run alikeTree.lookup =
      ({} : Printed).fail (.noTarget "none") ∧
    ∃ e names, alikeTree.find "sealed" = .ok e ∧
      e.FirstObstacle "sealed" names (.unopened .notAllowed) := by
  have hwell : alikeTree.WellFormed := by
    have hinner : (FileTree.directory [("z.txt", .file (.ok "")),
        ("z.ts", .file (.error .notText))]).WellFormed :=
      .directory (by decide) (by decide) (by simp [WellFormed.file])
    have hflows : (FileTree.directory [("a.ts", .file (.ok "")), ("a", .directory
        [("z.txt", .file (.ok "")), ("z.ts", .file (.error .notText))])]).WellFormed :=
      .directory (by decide) (by decide) (by simp [WellFormed.file, hinner])
    have hsealed : (FileTree.directory [("b", .closed (.unopened .notAllowed)),
        ("a.ts", .file (.ok ""))]).WellFormed :=
      .directory (by decide) (by decide) (by simp [WellFormed.file, WellFormed.closed])
    exact .directory (by decide) (by decide) (by simp [hflows, hsealed])
  obtain ⟨hfile, hdirectory, -, hmissing, -, hobstacle⟩ := collectFlows_of_wellFormed hwell
  have hflows : collectFlows alikeTree.lookup ["flows"] =
      .ok [("flows/a/z.ts", .error .notText), ("flows/a.ts", .ok "")] := by decide +kernel
  obtain ⟨flows, hsame, -, hordered, -⟩ := hdirectory "flows" _ rfl
  obtain rfl := Except.ok.inj (hflows.symm.trans hsame)
  refine ⟨hwell, hfile "flows/a/z.txt" (.ok "") ?_, hflows, ?_, ?_, ?_⟩
  · rfl
  · simpa using hordered
  · have hnone : alikeTree.lookup "none" = .error (.missing .notFound) := rfl
    obtain ⟨before, path, after, f, hsplit, -, hlook, -, hrun⟩ :=
      hmissing ["flows", "none"] ⟨"none", by simp, _, hnone⟩
    have hpath : path ∈ ["flows", "none"] := by simp [hsplit]
    rcases List.mem_pair.1 hpath with rfl | rfl
    · cases hlook
    · obtain rfl := Except.error.inj (hnone.symm.trans hlook)
      exact hrun _ true _ rfl
  · have hsealed : collectFlows alikeTree.lookup ["sealed"] =
        .error (.unopened "sealed/b" .notAllowed) := by decide +kernel
    obtain ⟨names, o, hfirst, hfailure⟩ :=
      (hobstacle "sealed" _ rfl).2 ⟨["b"], _, rfl, .inl rfl⟩
    have hsame := Except.error.inj (hsealed.symm.trans hfailure)
    obtain rfl : .unopened .notAllowed = o := by
      cases o with
      | unopened cause => exact congrArg _ (Failure.unopened.inj hsame).2
      | _ => cases hsame
    exact ⟨_, names, rfl, hfirst⟩

end CommandLine

end FlowAnalysis
