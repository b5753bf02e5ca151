import Mathlib.Data.List.DropRight

/-!
A file-system tree with symbolic links: how a path is resolved in it, and the calls that look
at, create and change one entry. Resolution succeeds in every tree that has grown from one in
which it did, and then ends at the same place.
-/

namespace FileTrees

abbrev Name := List UInt8

-- The innermost name first; the root is the empty list.
abbrev Location := List Name

-- `file` is everything else.
inductive Kind where
  | directory
  | file
  | symlink (target : List UInt8)
  deriving DecidableEq

structure Entry where
  kind : Kind
  uid : UInt32
  mode : UInt32
  deriving DecidableEq

inductive Errno where
  | eexist
  | enoent
  | enotdir
  | eloop
  deriving DecidableEq

def isDirectoryIn (find : Location → Option Entry) (place : Location) : Bool :=
  (find place).any fun entry => entry.kind = .directory

/-- Entries lie in directories only. -/
structure Tree where
  find : Location → Option Entry
  nested : ∀ name place, find (name :: place) ≠ none → isDirectoryIn find place = true

namespace Tree

def isDirectory (tree : Tree) (place : Location) : Bool :=
  isDirectoryIn tree.find place

def modeAt (tree : Tree) (place : Location) : UInt32 :=
  ((tree.find place).map Entry.mode).getD 0

def linkAt (tree : Tree) (place : Location) : Option (List UInt8) :=
  match tree.find place with
  | some ⟨.symlink target, _, _⟩ => some target
  | _ => none

end Tree

def slash : UInt8 := 0x2F

def dot : Name := [0x2E]

def dotdot : Name := [0x2E, 0x2E]

def flush (current : Name) : List Name :=
  if current = [] then [] else [current]

def splitNames : Name → List UInt8 → List Name
  | current, [] => flush current
  | current, byte :: rest =>
      if byte = slash then flush current ++ splitNames [] rest
      else splitNames (current ++ [byte]) rest

def names (path : List UInt8) : List Name :=
  splitNames [] path

-- A trailing slash asks for a directory, as a dot in its place does.
def components (path : List UInt8) : List Name :=
  if path.getLast? = some slash then names path ++ [dot] else names path

def trimmed (path : List UInt8) : List Name :=
  (names path).rdropWhile fun name => name = dot

def isAbsolute (path : List UInt8) : Bool :=
  path.head? = some slash

def join (base name : List UInt8) : List UInt8 :=
  if isAbsolute name then name
  else if base = [] ∨ base.getLast? = some slash then base ++ name
  else base ++ slash :: name

def start (cwd : Location) (path : List UInt8) : Location :=
  if isAbsolute path then [] else cwd

section Resolution

variable (tree : Tree)

def enter (place : Location) (name : Name) : Except Errno Location :=
  if tree.isDirectory place then
    if name = dot then .ok place
    else if name = dotdot then .ok place.tail
    else if tree.find (name :: place) = none then .error .enoent
    else .ok (name :: place)
  else .error .enotdir

def descend (links : Nat) (follow : Location → List Name → Except Errno (Location × Nat)) :
    Location → List Name → Except Errno (Location × Nat)
  | place, [] => .ok (place, links)
  | place, name :: rest =>
      match enter tree place name with
      | .error errno => .error errno
      | .ok next =>
          match tree.linkAt next with
          | some target => follow (start place target) (components target ++ rest)
          | none => descend links follow next rest

-- Where the names lead with every link followed, and how many more may be.
def walk : Nat → Location → List Name → Except Errno (Location × Nat)
  | 0 => descend tree 0 fun _ _ => .error .eloop
  | links + 1 => descend tree (links + 1) (walk links)

-- Where the names lead, the last one not followed.
def locate (links : Nat) (place : Location) (path : List Name) : Except Errno Location :=
  match path.getLast? with
  | none => .ok place
  | some last =>
      match walk tree links place path.dropLast with
      | .error errno => .error errno
      | .ok reached => enter tree reached.1 last

end Resolution

def maxLinks : Nat := 40

namespace Tree

variable (tree : Tree) (cwd : Location) (path : List UInt8)

def lstat : Except Errno Entry :=
  if path = [] then .error .enoent
  else
    match locate tree maxLinks (start cwd path) (components path) with
    | .error errno => .error errno
    | .ok place =>
        match tree.find place with
        | none => .error .enoent
        | some entry => .ok entry

def add (place : Location) (name : Name) (entry : Entry)
    (holds : tree.isDirectory place = true) (absent : tree.find (name :: place) = none) :
    Tree where
  find location := if location = name :: place then some entry else tree.find location
  nested child location found := by
    have below : isDirectoryIn tree.find location = true := by
      split at found
      · rename_i same
        cases same
        exact holds
      · exact tree.nested child location found
    have other : location ≠ name :: place := by
      rintro rfl
      simp [isDirectoryIn, absent] at below
    simpa [isDirectoryIn, other] using below

def setMode (place : Location) (mode : UInt32) : Tree where
  find location :=
    if location = place then (tree.find location).map fun entry => { entry with mode := mode }
    else tree.find location
  nested child location found := by
    have below : isDirectoryIn tree.find location = true := by
      refine tree.nested child location ?_
      intro absent
      simp [absent] at found
    unfold isDirectoryIn at below ⊢
    dsimp only
    split
    · simpa [Option.any_map, Function.comp_def] using below
    · exact below

-- A directory that hands its group on hands the set-group-id bit on too.
def madeMode (holder mode umask : UInt32) : UInt32 :=
  (mode &&& ~~~umask) ||| (holder &&& 0o2000)

def mkdir (uid umask mode : UInt32) : Except Errno Tree :=
  match (names path).getLast? with
  | none => .error (if path = [] then .enoent else .eexist)
  | some name =>
      match walk tree maxLinks (start cwd path) (names path).dropLast with
      | .error errno => .error errno
      | .ok reached =>
          if holds : tree.isDirectory reached.1 = true then
            if name = dot ∨ name = dotdot then .error .eexist
            else if absent : tree.find (name :: reached.1) = none then
              .ok (tree.add reached.1 name
                ⟨.directory, uid, madeMode (tree.modeAt reached.1) mode umask⟩ holds absent)
            else .error .eexist
          else .error .enotdir

def chmod (mode : UInt32) : Except Errno Tree :=
  if path = [] then .error .enoent
  else
    match walk tree maxLinks (start cwd path) (components path) with
    | .error errno => .error errno
    | .ok reached =>
        if tree.find reached.1 = none then .error .enoent else .ok (tree.setMode reached.1 mode)

/-- The entry that a path names, itself not followed: a dot or a slash behind it is no name. -/
def named : Option (Location × Entry) :=
  match locate tree maxLinks (start cwd path) (trimmed path) with
  | .error _ => none
  | .ok place => (tree.find place).map fun entry => (place, entry)

/-- The path names a symbolic link, but is spelled so that a look at it follows the link. -/
def Follows : Prop :=
  (components path).getLast? = some dot ∧ ∃ place entry target,
    tree.named cwd path = some (place, entry) ∧ entry.kind = .symlink target

end Tree

theorem splitNames_slash (current : Name) (path rest : List UInt8) :
    splitNames current (path ++ slash :: rest) = splitNames current path ++ names rest := by
  induction path generalizing current with
  | nil => simp [splitNames, names]
  | cons byte path ih =>
      simp only [List.cons_append, splitNames]
      split
      · rw [ih, List.append_assoc]
      · exact ih _

theorem splitNames_of_no_slash {current name : Name} (none : slash ∉ name) :
    splitNames current name = flush (current ++ name) := by
  induction name generalizing current with
  | nil => simp [splitNames]
  | cons byte name ih =>
      rw [List.mem_cons, not_or] at none
      rw [splitNames, if_neg (Ne.symm none.1), ih none.2, List.append_assoc,
        List.singleton_append]

/-- A name of an entry: neither empty, nor a dot or two, nor with a slash in it. -/
structure IsName (name : Name) : Prop where
  ne_nil : name ≠ []
  ne_dot : name ≠ dot
  ne_dotdot : name ≠ dotdot
  no_slash : slash ∉ name

namespace IsName

variable {name : Name} (isName : IsName name)
include isName

theorem names_eq : names name = [name] := by
  rw [names, splitNames_of_no_slash isName.no_slash, List.nil_append, flush,
    if_neg isName.ne_nil]

theorem relative : isAbsolute name = false := by
  rw [isAbsolute, decide_eq_false_iff_not]
  exact fun first => isName.no_slash (List.mem_of_mem_head? first)

theorem join_eq (base : List UInt8) :
    join base name =
      if base = [] ∨ base.getLast? = some slash then base ++ name else base ++ slash :: name := by
  rw [join, if_neg (by simp [isName.relative])]

theorem names_join (base : List UInt8) : names (join base name) = names base ++ [name] := by
  rw [isName.join_eq]
  split
  · rename_i ended
    rcases ended with rfl | ended
    · exact isName.names_eq
    · obtain ⟨front, rfl⟩ := List.getLast?_eq_some_iff.mp ended
      rw [List.append_assoc, List.singleton_append, names, splitNames_slash, isName.names_eq,
        names, splitNames_slash]
      simp [names, splitNames, flush]
  · rw [names, splitNames_slash, isName.names_eq, names]

theorem start_join (cwd : Location) (base : List UInt8) :
    start cwd (join base name) = start cwd base := by
  have same : isAbsolute (join base name) = isAbsolute base := by
    rw [isName.join_eq]
    cases base with
    | nil => exact isName.relative
    | cons byte base => split <;> rfl
  rw [start, same, start]

theorem components_join (base : List UInt8) :
    components (join base name) = names base ++ [name] := by
  have last : (join base name).getLast? = name.getLast? := by
    rw [isName.join_eq]
    split
    · exact List.getLast?_append_of_ne_nil _ isName.ne_nil
    · rw [List.getLast?_append_of_ne_nil _ (by simp), List.getLast?_cons_of_ne_nil isName.ne_nil]
  rw [components, last, if_neg, isName.names_join]
  exact fun ended => isName.no_slash (List.mem_of_getLast? ended)

end IsName

section Resolution

variable {tree : Tree} {place next : Location} {name : Name}

theorem Tree.isDirectory_iff :
    tree.isDirectory place = true ↔ ∃ entry, tree.find place = some entry ∧
      entry.kind = .directory := by
  simp [Tree.isDirectory, isDirectoryIn, Option.any_eq_true]

theorem Tree.isDirectory_tail (holds : tree.isDirectory place = true) :
    tree.isDirectory place.tail = true := by
  cases place with
  | nil => exact holds
  | cons name parent =>
      obtain ⟨entry, found, _⟩ := Tree.isDirectory_iff.mp holds
      exact tree.nested name parent (by simp [found])

theorem Tree.linkAt_eq_some_iff {target : List UInt8} :
    tree.linkAt place = some target ↔ ∃ entry, tree.find place = some entry ∧
      entry.kind = .symlink target := by
  unfold Tree.linkAt
  rcases tree.find place with _ | ⟨_ | _ | target, uid, mode⟩ <;> simp

theorem Tree.linkAt_of_isDirectory (holds : tree.isDirectory place = true) :
    tree.linkAt place = none := by
  obtain ⟨entry, found, kind⟩ := Tree.isDirectory_iff.mp holds
  rw [Option.eq_none_iff_forall_ne_some]
  intro target linked
  obtain ⟨other, same, symlink⟩ := Tree.linkAt_eq_some_iff.mp linked
  rw [found, Option.some.injEq] at same
  rw [same, symlink] at kind
  cases kind

/-- What entering a directory by a name can lead to. -/
theorem enter_ok_iff :
    enter tree place name = .ok next ↔ tree.isDirectory place = true ∧
      ((name = dot ∧ next = place) ∨ (name = dotdot ∧ next = place.tail) ∨
        (name ≠ dot ∧ name ≠ dotdot ∧ tree.find (name :: place) ≠ none ∧
          next = name :: place)) := by
  have differ : dotdot ≠ dot := by decide
  unfold enter
  split
  · rename_i holds
    split
    · rename_i isDot
      simp [holds, isDot, differ.symm, @eq_comm _ next]
    · rename_i notDot
      split
      · rename_i isDotdot
        simp [holds, isDotdot, differ, @eq_comm _ next]
      · rename_i notDotdot
        split <;> simp_all [@eq_comm _ next]
  · simp_all

theorem enter_dot_iff : enter tree place dot = .ok next ↔ tree.isDirectory place = true ∧
    next = place := by
  have differ : dot ≠ dotdot := by decide
  simp [enter_ok_iff, differ]

theorem enter_found (entered : enter tree place name = .ok next) :
    ∃ entry, tree.find next = some entry := by
  obtain ⟨holds, ⟨-, rfl⟩ | ⟨-, rfl⟩ | ⟨-, -, found, rfl⟩⟩ := enter_ok_iff.mp entered
  · exact (Tree.isDirectory_iff.mp holds).imp fun _ => And.left
  · exact (Tree.isDirectory_iff.mp (Tree.isDirectory_tail holds)).imp fun _ => And.left
  · exact Option.ne_none_iff_exists'.mp found

theorem walk_nil (links : Nat) (place : Location) :
    walk tree links place [] = .ok (place, links) := by
  cases links <;> rfl

theorem descend_append {links : Nat}
    {follow : Location → List Name → Except Errno (Location × Nat)}
    {rest : List Name} {onward : Location × Nat → Except Errno (Location × Nat)}
    (arrived : ∀ place, descend tree links follow place rest = onward (place, links))
    (followed : ∀ place path, follow place (path ++ rest) = (follow place path).bind onward)
    (place : Location) (path : List Name) :
    descend tree links follow place (path ++ rest) =
      (descend tree links follow place path).bind onward := by
  induction path generalizing place with
  | nil => exact arrived place
  | cons name path ih =>
      simp only [List.cons_append, descend]
      cases enter tree place name with
      | error errno => rfl
      | ok next =>
          cases linked : tree.linkAt next with
          | none => simpa only [linked] using ih next
          | some target =>
              simpa only [linked, List.append_assoc] using followed _ (components target ++ path)

/-- A path is walked name after name, the links followed on the way being counted. -/
theorem walk_append (links : Nat) (place : Location) (path rest : List Name) :
    walk tree links place (path ++ rest) =
      (walk tree links place path).bind fun reached => walk tree reached.2 reached.1 rest := by
  induction links generalizing place path with
  | zero => exact descend_append (fun _ => rfl) (fun _ _ => rfl) place path
  | succ links ih => exact descend_append (fun _ => rfl) ih place path

theorem walk_singleton {links : Nat} (entered : enter tree place name = .ok next)
    (real : tree.linkAt next = none) : walk tree links place [name] = .ok (next, links) := by
  cases links <;> simp only [walk, descend, entered, real]

/-- The last name of a path that is walked to its end names an entry; where it is not a link, the
path ends there. -/
theorem walk_concat_ok {links : Nat} {path : List Name} {reached : Location × Nat}
    (walked : walk tree links place (path ++ [name]) = .ok reached) :
    ∃ dir next, walk tree links place path = .ok dir ∧ enter tree dir.1 name = .ok next ∧
      (tree.linkAt next = none → reached = (next, dir.2)) := by
  rw [walk_append] at walked
  cases front : walk tree links place path with
  | error errno => simp [front, Except.bind] at walked
  | ok dir =>
      simp only [front, Except.bind] at walked
      cases entered : enter tree dir.1 name with
      | error errno =>
          cases left : dir.2 <;> simp [left, walk, descend, entered] at walked
      | ok next =>
          refine ⟨dir, next, rfl, entered, fun real => ?_⟩
          rw [walk_singleton entered real, Except.ok.injEq] at walked
          exact walked.symm

theorem locate_concat (links : Nat) (place : Location) (path : List Name) (name : Name) :
    locate tree links place (path ++ [name]) =
      (walk tree links place path).bind fun dir => enter tree dir.1 name := by
  rw [locate, List.getLast?_concat, List.dropLast_concat]
  cases walk tree links place path <;> rfl

/-- Where the last name is no link, not following it makes no difference. -/
theorem walk_of_locate {links : Nat} {path : List Name}
    (located : locate tree links place path = .ok next) (real : tree.linkAt next = none) :
    ∃ left, walk tree links place path = .ok (next, left) := by
  rcases path.eq_nil_or_concat with rfl | ⟨front, name, rfl⟩
  · cases located
    exact ⟨links, walk_nil links _⟩
  · rw [List.concat_eq_append] at located ⊢
    rw [locate_concat] at located
    rw [walk_append]
    cases walked : walk tree links place front with
    | error errno => simp [walked, Except.bind] at located
    | ok dir =>
        simp only [walked, Except.bind] at located ⊢
        exact ⟨dir.2, walk_singleton located real⟩

theorem locate_of_walk {links left : Nat} {path : List Name}
    (walked : walk tree links place path = .ok (next, left)) :
    ∃ named, locate tree links place path = .ok named ∧
      (tree.linkAt named = none → named = next) := by
  rcases path.eq_nil_or_concat with rfl | ⟨front, name, rfl⟩
  · rw [walk_nil] at walked
    cases walked
    exact ⟨place, rfl, fun _ => rfl⟩
  · rw [List.concat_eq_append] at walked ⊢
    obtain ⟨dir, named, reached, entered, ends⟩ := walk_concat_ok walked
    refine ⟨named, ?_, fun real => ?_⟩
    · rw [locate_concat, reached]
      exact entered
    · exact (congrArg Prod.fst (ends real)).symm

/-- Dots at the end only ask for a directory. -/
theorem walk_dots_iff {links left : Nat} {path : List Name} (count : Nat) :
    walk tree links place (path ++ List.replicate count dot) = .ok (next, left) ↔
      walk tree links place path = .ok (next, left) ∧
        (count ≠ 0 → tree.isDirectory next = true) := by
  induction count with
  | zero => simp
  | succ count ih =>
      rw [List.replicate_succ', ← List.append_assoc]
      constructor
      · intro walked
        obtain ⟨dir, named, reached, entered, ends⟩ := walk_concat_ok walked
        obtain ⟨holds, rfl⟩ := enter_dot_iff.mp entered
        have same := ends (Tree.linkAt_of_isDirectory holds)
        rw [Prod.mk.injEq] at same
        obtain ⟨rfl, rfl⟩ := same
        exact ⟨(ih.mp reached).1, fun _ => holds⟩
      · rintro ⟨walked, holds⟩
        have holds := holds (Nat.succ_ne_zero count)
        rw [walk_append, ih.mpr ⟨walked, fun _ => holds⟩]
        exact walk_singleton (enter_dot_iff.mpr ⟨holds, rfl⟩) (Tree.linkAt_of_isDirectory holds)

end Resolution

theorem dropped_dots (path : List Name) : ∃ count,
    path = (path.rdropWhile fun name => name = dot) ++ List.replicate count dot ∧
      (count ≠ 0 → path.getLast? = some dot) := by
  have dots : path.rtakeWhile (fun name => decide (name = dot)) =
      List.replicate (path.rtakeWhile fun name => decide (name = dot)).length dot :=
    List.eq_replicate_iff.mpr ⟨rfl, fun name member => by
      simpa using List.mem_rtakeWhile_imp member⟩
  have split : path.rdropWhile (fun name => decide (name = dot)) ++
      path.rtakeWhile (fun name => decide (name = dot)) = path :=
    List.rdropWhile_append_rtakeWhile
  rw [dots] at split
  refine ⟨_, split.symm, fun some => ?_⟩
  rw [← split, List.getLast?_append, List.getLast?_replicate, if_neg some]
  rfl

theorem names_trimmed (path : List UInt8) : ∃ count,
    names path = trimmed path ++ List.replicate count dot :=
  (dropped_dots (names path)).imp fun _ => And.left

theorem components_trimmed (path : List UInt8) : ∃ count,
    components path = trimmed path ++ List.replicate count dot ∧
      (count ≠ 0 → (components path).getLast? = some dot) := by
  unfold components
  split
  · obtain ⟨count, same⟩ := names_trimmed path
    refine ⟨count + 1, ?_, fun _ => List.getLast?_concat⟩
    rw [List.replicate_succ', ← List.append_assoc, ← same]
  · exact dropped_dots (names path)

namespace IsName

variable {name : Name} (isName : IsName name)
include isName

theorem trimmed_join (base : List UInt8) : trimmed (join base name) = names base ++ [name] := by
  rw [trimmed, isName.names_join, List.rdropWhile_concat_neg]
  simp [isName.ne_dot]

theorem not_follows {tree : Tree} {cwd : Location} {base : List UInt8} :
    ¬ tree.Follows cwd (join base name) := by
  rintro ⟨last, -⟩
  rw [isName.components_join, List.getLast?_concat, Option.some.injEq] at last
  exact isName.ne_dot last

end IsName

namespace Tree

variable {tree after : Tree} {cwd place : Location} {path : List UInt8} {entry : Entry}

theorem named_eq_some_iff : tree.named cwd path = some (place, entry) ↔
    locate tree maxLinks (start cwd path) (trimmed path) = .ok place ∧
      tree.find place = some entry := by
  unfold named
  cases locate tree maxLinks (start cwd path) (trimmed path) with
  | error errno => simp
  | ok reached =>
      simp only [Option.map_eq_some_iff, Prod.mk.injEq, Except.ok.injEq]
      constructor
      · rintro ⟨found, same, rfl, rfl⟩
        exact ⟨rfl, same⟩
      · rintro ⟨rfl, found⟩
        exact ⟨entry, found, rfl, rfl⟩

theorem walk_of_named (names : tree.named cwd path = some (place, entry))
    (directory : entry.kind = .directory) (count : Nat) : ∃ left,
    walk tree maxLinks (start cwd path) (trimmed path ++ List.replicate count dot) =
      .ok (place, left) := by
  obtain ⟨located, found⟩ := named_eq_some_iff.mp names
  have holds : tree.isDirectory place = true := isDirectory_iff.mpr ⟨entry, found, directory⟩
  obtain ⟨left, walked⟩ := walk_of_locate located (linkAt_of_isDirectory holds)
  exact ⟨left, (walk_dots_iff count).mpr ⟨walked, fun _ => holds⟩⟩

theorem walk_names (named : tree.named cwd path = some (place, entry))
    (directory : entry.kind = .directory) : ∃ left,
    walk tree maxLinks (start cwd path) (names path) = .ok (place, left) := by
  obtain ⟨count, same⟩ := names_trimmed path
  rw [same]
  exact walk_of_named named directory count

theorem walk_components (named : tree.named cwd path = some (place, entry))
    (directory : entry.kind = .directory) : ∃ left,
    walk tree maxLinks (start cwd path) (components path) = .ok (place, left) := by
  obtain ⟨count, same, -⟩ := components_trimmed path
  rw [same]
  exact walk_of_named named directory count

theorem lstat_ok (looked : tree.lstat cwd path = .ok entry) : ∃ place,
    locate tree maxLinks (start cwd path) (components path) = .ok place ∧
      tree.find place = some entry := by
  unfold lstat at looked
  split at looked
  · cases looked
  · split at looked
    · cases looked
    · rename_i place located
      split at looked
      · cases looked
      · rename_i found
        cases looked
        exact ⟨place, located, found⟩

/-- A look that shows a directory shows the one that the path names, unless it followed a link. -/
theorem named_of_lstat (looked : tree.lstat cwd path = .ok entry)
    (directory : entry.kind = .directory) (unfollowed : ¬ tree.Follows cwd path) :
    ∃ place, tree.named cwd path = some (place, entry) := by
  obtain ⟨place, located, found⟩ := lstat_ok looked
  have holds : tree.isDirectory place = true := isDirectory_iff.mpr ⟨entry, found, directory⟩
  obtain ⟨left, walked⟩ := walk_of_locate located (linkAt_of_isDirectory holds)
  obtain ⟨count, same, dotted⟩ := components_trimmed path
  rw [same] at walked
  obtain ⟨named, reached, real⟩ := locate_of_walk ((walk_dots_iff count).mp walked).1
  by_cases dots : count = 0
  · rw [same, dots, List.replicate_zero, List.append_nil] at located
    exact ⟨place, named_eq_some_iff.mpr ⟨located, found⟩⟩
  · cases linked : tree.linkAt named with
    | none =>
        obtain rfl := real linked
        exact ⟨named, named_eq_some_iff.mpr ⟨reached, found⟩⟩
    | some target =>
        obtain ⟨link, there, symlink⟩ := linkAt_eq_some_iff.mp linked
        exact absurd ⟨dotted dots, named, link, target,
          named_eq_some_iff.mpr ⟨reached, there⟩, symlink⟩ unfollowed

end Tree

namespace Tree

variable {tree after : Tree} {cwd place : Location} {path : List UInt8} {entry : Entry}

theorem add_find {name : Name} (holds : tree.isDirectory place = true)
    (absent : tree.find (name :: place) = none) (location : Location) :
    (tree.add place name entry holds absent).find location =
      if location = name :: place then some entry else tree.find location := rfl

theorem setMode_find (mode : UInt32) (location : Location) :
    (tree.setMode place mode).find location =
      if location = place then
        (tree.find location).map fun entry => { entry with mode := mode }
      else tree.find location := rfl

/-- What lies in an absent entry is absent. -/
theorem find_below {name : Name} (absent : tree.find place = none) :
    tree.find (name :: place) = none := by
  by_contra found
  obtain ⟨entry, there, -⟩ := isDirectory_iff.mp (tree.nested name place found)
  rw [absent] at there
  cases there

theorem mkdir_ok {uid umask mode : UInt32}
    (made : tree.mkdir cwd path uid umask mode = .ok after) :
    ∃ front name dir left entry, ∃ (holds : tree.isDirectory dir = true)
      (absent : tree.find (name :: dir) = none),
      names path = front ++ [name] ∧
      walk tree maxLinks (start cwd path) front = .ok (dir, left) ∧
      entry = ⟨.directory, uid, madeMode (tree.modeAt dir) mode umask⟩ ∧
      after = tree.add dir name entry holds absent := by
  unfold mkdir at made
  split at made
  · cases made
  · rename_i name last
    split at made
    · cases made
    · rename_i reached walked
      split at made
      · rename_i holds
        split at made
        · cases made
        · split at made
          · rename_i absent
            cases made
            refine ⟨_, name, reached.1, reached.2, _, holds, absent, ?_, walked, rfl, rfl⟩
            exact (List.dropLast_append_getLast? name last).symm
          · cases made
      · cases made

theorem chmod_ok {mode : UInt32} (changed : tree.chmod cwd path mode = .ok after) :
    ∃ dir left, walk tree maxLinks (start cwd path) (components path) = .ok (dir, left) ∧
      after = tree.setMode dir mode := by
  unfold chmod at changed
  split at changed
  · cases changed
  · split at changed
    · cases changed
    · rename_i reached walked
      split at changed
      · cases changed
      · cases changed
        exact ⟨reached.1, reached.2, walked, rfl⟩

end Tree

/-- Nothing is removed, replaced or linked elsewhere. -/
def Grows (before after : Tree) : Prop :=
  ∀ place entry, before.find place = some entry →
    ∃ later, after.find place = some later ∧ later.kind = entry.kind

section Growth

variable {before after : Tree} (grows : Grows before after)
include grows

theorem Grows.isDirectory {place : Location} (holds : before.isDirectory place = true) :
    after.isDirectory place = true := by
  obtain ⟨entry, found, directory⟩ := Tree.isDirectory_iff.mp holds
  obtain ⟨later, there, kind⟩ := grows place entry found
  exact Tree.isDirectory_iff.mpr ⟨later, there, kind.trans directory⟩

theorem Grows.linkAt {place : Location} {entry : Entry} (found : before.find place = some entry) :
    after.linkAt place = before.linkAt place := by
  obtain ⟨later, there, kind⟩ := grows place entry found
  ext target
  rw [Tree.linkAt_eq_some_iff, Tree.linkAt_eq_some_iff, found, there]
  simp only [Option.some.injEq, exists_eq_left', kind]

theorem Grows.enter {place next : Location} {name : Name}
    (entered : enter before place name = .ok next) : enter after place name = .ok next := by
  obtain ⟨holds, led⟩ := enter_ok_iff.mp entered
  refine enter_ok_iff.mpr ⟨grows.isDirectory holds, led.imp_right (Or.imp_right ?_)⟩
  rintro ⟨notDot, notDotdot, there, same⟩
  obtain ⟨entry, found⟩ := Option.ne_none_iff_exists'.mp there
  obtain ⟨later, still, -⟩ := grows _ entry found
  exact ⟨notDot, notDotdot, by simp [still], same⟩

theorem Grows.descend {links : Nat}
    {first second : Location → List Name → Except Errno (Location × Nat)}
    (followed : ∀ place path reached, first place path = .ok reached →
      second place path = .ok reached)
    {place : Location} {path : List Name} {reached : Location × Nat}
    (walked : descend before links first place path = .ok reached) :
    descend after links second place path = .ok reached := by
  induction path generalizing place with
  | nil => exact walked
  | cons name path ih =>
      simp only [FileTrees.descend] at walked ⊢
      cases entered : FileTrees.enter before place name with
      | error errno => simp [entered] at walked
      | ok next =>
          obtain ⟨entry, found⟩ := enter_found entered
          simp only [entered] at walked
          simp only [grows.enter entered, grows.linkAt found]
          cases linked : before.linkAt next with
          | none =>
              simp only [linked] at walked
              exact ih walked
          | some target =>
              simp only [linked] at walked
              exact followed _ _ _ walked

/-- A path that could be walked still can, to the same place. -/
theorem Grows.walk {links : Nat} {place : Location} {path : List Name} {reached : Location × Nat}
    (walked : walk before links place path = .ok reached) :
    walk after links place path = .ok reached := by
  induction links generalizing place path reached with
  | zero => exact grows.descend (fun _ _ _ followed => followed) walked
  | succ links ih => exact grows.descend (fun _ _ _ followed => ih followed) walked

theorem Grows.locate {links : Nat} {place next : Location} {path : List Name}
    (located : locate before links place path = .ok next) :
    locate after links place path = .ok next := by
  rcases path.eq_nil_or_concat with rfl | ⟨front, name, rfl⟩
  · exact located
  · rw [List.concat_eq_append, locate_concat] at located ⊢
    cases walked : FileTrees.walk before links place front with
    | error errno => simp [walked, Except.bind] at located
    | ok dir =>
        rw [grows.walk walked]
        simp only [walked, Except.bind] at located ⊢
        exact grows.enter located

theorem Grows.named {cwd place : Location} {path : List UInt8} {entry : Entry}
    (names : before.named cwd path = some (place, entry)) :
    ∃ later, after.named cwd path = some (place, later) ∧ after.find place = some later := by
  obtain ⟨located, found⟩ := Tree.named_eq_some_iff.mp names
  obtain ⟨later, there, -⟩ := grows place entry found
  exact ⟨later, Tree.named_eq_some_iff.mpr ⟨grows.locate located, there⟩, there⟩

end Growth

end FileTrees
