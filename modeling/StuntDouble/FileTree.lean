import Mathlib.Data.List.Induction

/-!
File trees with symbolic links. A location is the list of the names from the top, and a path
is resolved to a location one component after the other. A link stands for the components
of its target; a chain of links may be of any length, and a dangling or cyclic one leads
nowhere.
-/
namespace StuntDouble.FileTree

variable {N D : Type*}

inductive Component (N : Type*)
  | current
  | parent
  | name (n : N)

structure Path (N : Type*) where
  absolute : Bool
  components : List (Component N)

inductive Node (N D : Type*)
  | directory (searchable : Bool)
  | file (readable : Bool) (data : D)
  | other
  | link (target : Path N)

def Node.IsLink : Node N D → Prop
  | .link _ => True
  | _ => False

/-- What stands at each location. Only a directory has names in it. -/
structure Tree (N D : Type*) where
  node : List N → Option (Node N D)
  top : ∃ searchable, node [] = some (.directory searchable)
  inside : ∀ loc n, node (loc ++ [n]) ≠ none → ∃ searchable, node loc = some (.directory searchable)

/-- The absolute path of a location. -/
def absolute (loc : List N) : List (Component N) := loc.map .name

section Resolution

variable (tree : Tree N D)

def Tree.Searchable (loc : List N) : Prop := tree.node loc = some (.directory true)

/-- From a location, the components lead to a node that is no link. -/
inductive Resolves : List N → List (Component N) → List N → Prop
  | done (loc : List N) (node : Node N D) (hnode : tree.node loc = some node)
      (hlink : ¬ node.IsLink) : Resolves loc [] loc
  | current (loc : List N) (rest : List (Component N)) (found : List N)
      (hdir : tree.Searchable loc) (hrest : Resolves loc rest found) :
      Resolves loc (.current :: rest) found
  | parent (loc : List N) (rest : List (Component N)) (found : List N)
      (hdir : tree.Searchable loc) (hrest : Resolves loc.dropLast rest found) :
      Resolves loc (.parent :: rest) found
  | name (loc : List N) (n : N) (rest : List (Component N)) (found : List N) (node : Node N D)
      (hdir : tree.Searchable loc) (hnode : tree.node (loc ++ [n]) = some node)
      (hlink : ¬ node.IsLink) (hrest : Resolves (loc ++ [n]) rest found) :
      Resolves loc (.name n :: rest) found
  | link (loc : List N) (n : N) (rest : List (Component N)) (found : List N) (target : Path N)
      (hdir : tree.Searchable loc) (hnode : tree.node (loc ++ [n]) = some (.link target))
      (hrest : Resolves (if target.absolute then [] else loc) (target.components ++ rest) found) :
      Resolves loc (.name n :: rest) found

/-- A path resolves from a working directory; the empty path resolves to nothing. -/
def Path.Resolves (cwd : List N) (path : Path N) (found : List N) : Prop :=
  (path.absolute = true ∨ path.components ≠ []) ∧
    FileTree.Resolves tree (if path.absolute then [] else cwd) path.components found

/-- A file that can be opened: every directory above it can be searched. -/
structure Tree.Readable (loc : List N) (data : D) : Prop where
  file : tree.node loc = some (.file true data)
  searchable : ∀ front back, loc = front ++ back → back ≠ [] → tree.Searchable front

variable {tree}

theorem Resolves.node {start found : List N} {path : List (Component N)}
    (h : Resolves tree start path found) :
    ∃ node, tree.node found = some node ∧ ¬ node.IsLink := by
  induction h with
  | done loc node hnode hlink => exact ⟨node, hnode, hlink⟩
  | current _ _ _ _ _ ih => exact ih
  | parent _ _ _ _ _ ih => exact ih
  | name _ _ _ _ _ _ _ _ _ ih => exact ih
  | link _ _ _ _ _ _ _ _ ih => exact ih

/-- A path that has components starts in a directory. -/
theorem Resolves.searchable {start found : List N} {path : List (Component N)}
    (h : Resolves tree start path found) (hne : path ≠ []) : tree.Searchable start := by
  cases h with
  | done => exact absurd rfl hne
  | current _ _ _ hdir => exact hdir
  | parent _ _ _ hdir => exact hdir
  | name _ _ _ _ _ hdir => exact hdir
  | link _ _ _ _ _ hdir => exact hdir

/-- Links decide where a path leads, and nothing else does. -/
theorem Resolves.unique {start found other : List N} {path : List (Component N)}
    (h : Resolves tree start path found) (hother : Resolves tree start path other) :
    found = other := by
  induction h with
  | done =>
    cases hother with
    | done => rfl
  | current loc rest found _ _ ih =>
    cases hother with
    | current _ _ _ _ hrest => exact ih hrest
  | parent loc rest found _ _ ih =>
    cases hother with
    | parent _ _ _ _ hrest => exact ih hrest
  | name loc n rest found node _ hnode hlink _ ih =>
    cases hother with
    | name _ _ _ _ _ _ _ _ hrest => exact ih hrest
    | link _ _ _ _ target _ hnode' =>
      obtain rfl := Option.some.inj (hnode.symm.trans hnode')
      exact absurd trivial hlink
  | link loc n rest found target _ hnode _ ih =>
    cases hother with
    | name _ _ _ _ node _ hnode' hlink =>
      obtain rfl := Option.some.inj (hnode.symm.trans hnode')
      exact absurd trivial hlink
    | link _ _ _ _ target' _ hnode' hrest =>
      obtain ⟨rfl⟩ := Node.link.inj (Option.some.inj (hnode.symm.trans hnode'))
      exact ih hrest

end Resolution

section Locations

variable {tree : Tree N D}

/-- Everything above a node is a directory. -/
theorem Tree.above (tree : Tree N D) (front back : List N) (hne : back ≠ [])
    (h : tree.node (front ++ back) ≠ none) :
    ∃ searchable, tree.node front = some (.directory searchable) := by
  induction back using List.reverseRecOn with
  | nil => exact absurd rfl hne
  | append_singleton back n ih =>
    rw [← List.append_assoc] at h
    obtain ⟨searchable, hdir⟩ := tree.inside (front ++ back) n h
    cases back with
    | nil =>
      rw [List.append_nil] at hdir
      exact ⟨searchable, hdir⟩
    | cons first back =>
      apply ih (List.cons_ne_nil first back)
      rw [hdir]
      exact Option.some_ne_none _

/-- Names are walked down as they are, as long as none of them is a link. -/
theorem resolves_names_iff {base names : List N} {rest : List (Component N)} {found : List N}
    (hnode : ∃ node, tree.node (base ++ names) = some node ∧ ¬ node.IsLink) :
    Resolves tree base (absolute names ++ rest) found ↔
      (∀ front back, names = front ++ back → back ≠ [] → tree.Searchable (base ++ front)) ∧
        Resolves tree (base ++ names) rest found := by
  induction names generalizing base with
  | nil => simp [absolute]
  | cons n names ih =>
    have hassoc : base ++ n :: names = (base ++ [n]) ++ names := by simp
    have hnext : ∃ node, tree.node (base ++ [n]) = some node ∧ ¬ node.IsLink := by
      cases names with
      | nil => exact hnode
      | cons next names =>
        obtain ⟨node, hsome, -⟩ := hnode
        rw [hassoc] at hsome
        obtain ⟨searchable, hdir⟩ := tree.above (base ++ [n]) (next :: names)
          (List.cons_ne_nil _ _) (by rw [hsome]; exact Option.some_ne_none _)
        exact ⟨_, hdir, id⟩
    rw [hassoc] at hnode
    have hcons : absolute (n :: names) ++ rest = .name n :: (absolute names ++ rest) := rfl
    rw [hcons, hassoc]
    constructor
    · intro h
      have hdir := h.searchable (List.cons_ne_nil _ _)
      have hrest : Resolves tree (base ++ [n]) (absolute names ++ rest) found := by
        cases h with
        | name _ _ _ _ _ _ _ _ hrest => exact hrest
        | link _ _ _ _ target _ htarget _ =>
          obtain ⟨node, hsome, hlink⟩ := hnext
          obtain rfl := Option.some.inj (hsome.symm.trans htarget)
          exact absurd trivial hlink
      obtain ⟨hdirs, hfound⟩ := (ih hnode).mp hrest
      refine ⟨?_, hfound⟩
      intro front back hnames hne
      cases front with
      | nil =>
        rw [List.append_nil]
        exact hdir
      | cons first front =>
        obtain ⟨rfl, htail⟩ := List.cons.inj hnames
        have hstep := hdirs front back htail hne
        rwa [List.append_assoc] at hstep
    · rintro ⟨hdirs, hfound⟩
      have hdir := hdirs [] (n :: names) rfl (List.cons_ne_nil _ _)
      rw [List.append_nil] at hdir
      obtain ⟨node, hsome, hlink⟩ := hnext
      refine .name base n _ found node hdir hsome hlink ((ih hnode).mpr ⟨?_, hfound⟩)
      intro front back hnames hne
      have hstep := hdirs (n :: front) back (by rw [hnames]; rfl) hne
      rwa [← List.singleton_append, ← List.append_assoc] at hstep

/-- The location of a file that can be read is a path to it. -/
theorem Tree.Readable.resolves {loc : List N} {data : D} (h : tree.Readable loc data) :
    Resolves tree [] (absolute loc) loc := by
  have hnode : ∃ node, tree.node ([] ++ loc) = some node ∧ ¬ node.IsLink := ⟨_, h.file, id⟩
  have hwalk : Resolves tree [] (absolute loc ++ []) loc :=
    (resolves_names_iff hnode).mpr ⟨h.searchable, .done _ _ h.file id⟩
  rwa [List.append_nil] at hwalk

end Locations

end StuntDouble.FileTree
