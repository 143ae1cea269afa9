import Console.Tool.Tree

/-!
# Walking along ordinary paths

A path of ordinary names, with one slash between two of them, leads from the
working directory down and nowhere else. So all that decides whether a file can
be written there is what stands at the path and above it, and how long it is.
Writing changes what stands at the path, and nothing else.
-/
namespace Console.Tool

/-- A name that leads from a directory to what it has under this name. -/
structure Name where
  string : String
  nonempty : string ≠ ""
  no_dots : string ≠ "." ∧ string ≠ ".."
  no_slash : '/' ∉ string.toList

namespace Name

/-- Names with one slash between two of them. -/
def join (path : List Name) : String := "/".intercalate (path.map Name.string)

/-- The path or a name in it has more bytes than the system takes. -/
def TooLong (path : List Name) : Prop :=
  pathLimit < (utf8 (join path)).length ∨ ∃ name ∈ path, nameLimit < (utf8 name.string).length

end Name

/-- Where names lead from a place, each to something in the directory before. -/
def Place.below (place : Place) (path : List Name) : Place :=
  { place with names := place.names ++ path.map Name.string }

/-- Where names lead from the working directory. -/
def Place.ofNames (path : List Name) : Place := Place.below {} path

/-- Why no file can come to stand at a path of any length: nothing is named, or
a directory, or something above the path is missing or is a file. -/
inductive Tree.Blocks (tree : Tree) (path : List Name) : Prop
  | unnamed (nothing : path = [])
  | directory (found : tree.find? (.ofNames path) = some .directory)
  | missing (above : List Name) (begins : above <+: path) (proper : above ≠ path)
      (absent : tree.find? (.ofNames above) = none)
  | file (above : List Name) (content : Bytes) (begins : above <+: path) (proper : above ≠ path)
      (found : tree.find? (.ofNames above) = some (.file content))

/-! ## Paths and names -/

theorem cut_eq_splitOn (chars : List Char) : cut chars = chars.splitOn '/' := by
  induction chars with
  | nil => rfl
  | cons char rest ih =>
    obtain ⟨name, names, found⟩ := List.exists_cons_of_ne_nil (List.splitOnP_ne_nil (· == '/') rest)
    have split : rest.splitOn '/' = name :: names := found
    rw [cut, ih, List.splitOn_cons_eq_if_modifyHead, split]
    by_cases slash : char = '/'
    · simp [slash]
    · simp [slash]

theorem names_join (path : List Name) (some_name : path ≠ []) :
    names (Name.join path) = path.map Name.string := by
  have clean : ∀ chars ∈ path.map (·.string.toList), '/' ∉ chars := by
    intro chars member
    obtain ⟨name, -, rfl⟩ := List.mem_map.mp member
    exact name.no_slash
  have whole := List.splitOn_intercalate '/' clean (by simpa using some_name)
  have joined : (Name.join path).toList = ['/'].intercalate (path.map (·.string.toList)) := by
    rw [Name.join, String.toList_intercalate, List.map_map]
    rfl
  rw [names, cut_eq_splitOn, joined, whole, List.map_map]
  exact List.map_congr_left fun name _ => String.ofList_toList

theorem join_eq_empty_iff (path : List Name) : Name.join path = "" ↔ path = [] := by
  constructor
  · intro empty
    cases path with
    | nil => rfl
    | cons name rest =>
      have cut := names_join (name :: rest) (List.cons_ne_nil _ _)
      rw [empty] at cut
      exact absurd (List.cons.inj cut).1.symm name.nonempty
  · rintro rfl
    rfl

/-- An ordinary path starts in the working directory. -/
theorem start_join (path : List Name) : Place.start (Name.join path) = {} := by
  have relative : (Name.join path).toList.head? ≠ some '/' := by
    intro slash
    obtain ⟨rest, letters⟩ := List.head?_eq_some_iff.mp slash
    have some_name : path ≠ [] := by
      intro none
      rw [(join_eq_empty_iff path).mpr none] at slash
      exact nomatch slash
    -- a slash in front would leave an empty name before it
    have cuts := names_join path some_name
    obtain ⟨name, others, rfl⟩ := List.exists_cons_of_ne_nil some_name
    rw [names, letters, cut, if_pos rfl] at cuts
    exact name.nonempty (List.cons.inj cuts).1.symm
  simp [Place.start, relative]

/-! ## The walk -/

theorem below_cons (place : Place) (name : Name) (path : List Name) :
    (place.below [name]).below path = place.below (name :: path) := by
  simp [Place.below]

/-- An ordinary name is followed into the directory. -/
theorem follow_eq_below (place : Place) (name : Name) :
    place.follow name.string = place.below [name] := by
  have ordinary : ¬ (name.string = "" ∨ name.string = ".") := by
    rintro (empty | dot)
    · exact name.nonempty empty
    · exact name.no_dots.1 dot
  simp [Place.follow, Place.below, ordinary, name.no_dots.2]

theorem enter_eq_ok_iff (tree : Tree) (place next : Place) (name : Name) :
    tree.enter place name.string = .ok next ↔
      next = place.below [name] ∧ (utf8 name.string).length ≤ nameLimit ∧
        tree.find? (place.below [name]) = some .directory := by
  unfold Tree.enter Tree.look
  rw [follow_eq_below]
  by_cases long : nameLimit < (utf8 name.string).length
  · simp [long, Nat.not_le.mpr long]
  · have short := Nat.le_of_not_lt long
    rcases tree.find? (place.below [name]) with _ | ⟨_⟩ | ⟨content⟩ <;> simp [long, short, eq_comm]

theorem entry_eq_ok_iff (tree : Tree) (place found : Place) (name : Name) :
    tree.entry place name.string = .ok found ↔
      found = place.below [name] ∧ (utf8 name.string).length ≤ nameLimit ∧
        tree.find? (place.below [name]) ≠ some .directory := by
  unfold Tree.entry Tree.look
  rw [follow_eq_below]
  by_cases long : nameLimit < (utf8 name.string).length
  · simp [long, Nat.not_le.mpr long]
  · have short := Nat.le_of_not_lt long
    rcases tree.find? (place.below [name]) with _ | ⟨_⟩ | ⟨content⟩ <;> simp [long, short, eq_comm]

/-- The way to a path is free: there is a directory wherever it passes, and none at its end. -/
structure Tree.Free (tree : Tree) (place : Place) (path : List Name) : Prop where
  above : ∀ above, above <+: path → above ≠ path → above ≠ [] →
    tree.find? (place.below above) = some .directory
  target : tree.find? (place.below path) ≠ some .directory

theorem free_singleton (tree : Tree) (place : Place) (name : Name) :
    tree.Free place [name] ↔ tree.find? (place.below [name]) ≠ some .directory := by
  constructor
  · exact Tree.Free.target
  · intro target
    refine ⟨?_, target⟩
    intro above begins proper named
    rcases List.prefix_cons_iff.mp begins with none | ⟨rest, rfl, short⟩
    · exact absurd none named
    · exact absurd (congrArg (name :: ·) (List.prefix_nil.mp short)) proper

theorem free_cons (tree : Tree) (place : Place) (name : Name) (path : List Name)
    (some_name : path ≠ []) :
    tree.Free place (name :: path) ↔
      tree.find? (place.below [name]) = some .directory ∧ tree.Free (place.below [name]) path := by
  have deeper := below_cons place name
  constructor
  · intro free
    refine ⟨free.above [name] (by simp) (by simpa using some_name.symm) (by simp), ?_, ?_⟩
    · intro above begins proper _
      rw [deeper]
      exact free.above (name :: above) (by simpa using begins) (by simpa using proper) (by simp)
    · rw [deeper]
      exact free.target
  · rintro ⟨first, rest⟩
    refine ⟨?_, ?_⟩
    · intro above begins proper named
      rcases List.prefix_cons_iff.mp begins with none | ⟨later, rfl, shorter⟩
      · exact absurd none named
      · by_cases ends : later = []
        · rw [ends]
          exact first
        · rw [← deeper]
          exact rest.above later shorter (by simpa using proper) ends
    · rw [← deeper]
      exact rest.target

/-- A file is found at the end of a free way of names that are not too long, and nowhere else. -/
theorem locate_eq_ok_iff (tree : Tree) (place found : Place) (path : List Name)
    (some_name : path ≠ []) :
    tree.locate place (path.map Name.string) = .ok found ↔
      found = place.below path ∧ (∀ name ∈ path, (utf8 name.string).length ≤ nameLimit) ∧
        tree.Free place path := by
  induction path generalizing place with
  | nil => exact absurd rfl some_name
  | cons name rest ih =>
    by_cases last : rest = []
    · subst last
      rw [List.map_singleton, Tree.locate, entry_eq_ok_iff, free_singleton]
      simp
    · obtain ⟨next, later, rfl⟩ := List.exists_cons_of_ne_nil last
      have goes_on : ¬ ((next :: later).map Name.string).all (· = "") = true := by
        simp [next.nonempty]
      have step : tree.locate place ((name :: next :: later).map Name.string) =
          (tree.enter place name.string).bind
            (tree.locate · ((next :: later).map Name.string)) := by
        rw [List.map_cons, List.map_cons, Tree.locate, ← List.map_cons, if_neg goes_on]
        · rfl
        · exact nofun
      rw [step, free_cons tree place name _ last]
      have entered (there : Place) := enter_eq_ok_iff tree place there name
      cases went : tree.enter place name.string with
      | error failure =>
        -- what keeps the walk from entering keeps the way from being free
        constructor
        · exact nofun
        · rintro ⟨-, short, first, -⟩
          have enters := (entered _).mpr ⟨rfl, short name List.mem_cons_self, first⟩
          rw [went] at enters
          exact nomatch enters
      | ok there =>
        obtain ⟨rfl, short, first⟩ := (entered there).mp went
        rw [Except.bind, ih (place.below [name]) last, below_cons]
        simp only [List.forall_mem_cons, short, first, true_and]

/-! ## Writing -/

/-- A way that is not blocked is free, and the other way round. -/
theorem free_iff_not_blocks (tree : Tree) (path : List Name) (some_name : path ≠ []) :
    tree.Free {} path ↔ ¬ tree.Blocks path := by
  constructor
  · intro free blocked
    -- the working directory is there itself, so what is above is named
    have way (above : List Name) (begins : above <+: path) (proper : above ≠ path) :
        tree.find? (.ofNames above) = some .directory := by
      by_cases named : above = []
      · rw [named]
        rfl
      · exact free.above above begins proper named
    cases blocked with
    | unnamed nothing => exact some_name nothing
    | directory found => exact free.target found
    | missing above begins proper absent => simp [way above begins proper] at absent
    | file above content begins proper found => simp [way above begins proper] at found
  · intro unblocked
    refine ⟨?_, fun found => unblocked (.directory found)⟩
    intro above begins proper _
    rcases here : tree.find? (.ofNames above) with _ | ⟨_⟩ | ⟨content⟩
    · exact absurd (.missing above begins proper here) unblocked
    · exact here
    · exact absurd (.file above content begins proper here) unblocked

/-- A file is written at a path that is not blocked and not too long, and nothing else is
touched. -/
theorem write_eq_ok_iff (tree after : Tree) (path : List Name) (content : Bytes) :
    tree.write (Name.join path) content = .ok after ↔
      (¬ tree.Blocks path ∧ ¬ Name.TooLong path) ∧
        after = tree.insert (.ofNames path) (.file content) := by
  unfold Tree.write
  by_cases some_name : path = []
  · have blocked : tree.Blocks path := .unnamed some_name
    simp [(join_eq_empty_iff path).mpr some_name, blocked]
  · rw [if_neg (mt (join_eq_empty_iff path).mp some_name)]
    by_cases long : pathLimit < (utf8 (Name.join path)).length
    · have tooLong : Name.TooLong path := .inl long
      simp [long, tooLong]
    · rw [if_neg long, start_join, names_join path some_name]
      have located (found : Place) := locate_eq_ok_iff tree {} found path some_name
      have short : (∀ name ∈ path, (utf8 name.string).length ≤ nameLimit) ↔
          ¬ Name.TooLong path := by
        simp [Name.TooLong, long]
      simp only [short, free_iff_not_blocks tree path some_name] at located
      cases walk : tree.locate {} (path.map Name.string) with
      | error failure =>
        constructor
        · exact nofun
        · rintro ⟨⟨unblocked, fits⟩, -⟩
          have found := (located _).mpr ⟨rfl, fits, unblocked⟩
          rw [walk] at found
          exact nomatch found
      | ok found =>
        obtain ⟨rfl, fits, unblocked⟩ := (located found).mp walk
        simp only [unblocked, fits, not_false_eq_true, and_self, true_and]
        constructor
        · intro written
          exact (Except.ok.inj written).symm
        · rintro rfl
          rfl

namespace Tree

theorem lookup_files_insert_self (tree : Tree) (path : List Name) (content : Bytes) :
    (tree.insert (.ofNames path) (.file content)).files.lookup (Name.join path) = some content := by
  simp [files, insert, Place.ofNames, Place.below, Name.join]

/-- What is listed under one name only is not missed under another. -/
private theorem lookup_filterMap_filter (listing? : Place × Node → Option (String × Bytes))
    (place : Place) (other : String)
    (elsewhere : ∀ node entry, listing? (place, node) = some entry → entry.1 ≠ other)
    (nodes : List (Place × Node)) :
    ((nodes.filter (·.1 ≠ place)).filterMap listing?).lookup other =
      (nodes.filterMap listing?).lookup other := by
  induction nodes with
  | nil => rfl
  | cons first rest ih =>
    obtain ⟨here, node⟩ := first
    by_cases same : here = place
    · subst same
      rw [List.filter_cons_of_neg (by simp), ih, List.filterMap_cons]
      split
      next => rfl
      next entry listed =>
        obtain ⟨name, content⟩ := entry
        have miss : (other == name) = false := beq_false_of_ne (elsewhere node _ listed).symm
        rw [List.lookup_cons, miss]
    · rw [List.filter_cons_of_pos (by simpa using same), List.filterMap_cons, List.filterMap_cons]
      split
      next => exact ih
      next entry _ =>
        obtain ⟨name, content⟩ := entry
        rw [List.lookup_cons, List.lookup_cons, ih]

/-- In the listing, too, all other files stay as they are. -/
theorem lookup_files_insert_of_ne (tree : Tree) (path : List Name) (content : Bytes)
    (other : String) (differ : other ≠ Name.join path) :
    (tree.insert (.ofNames path) (.file content)).files.lookup other =
      tree.files.lookup other := by
  have miss : (other == Name.join path) = false := beq_false_of_ne differ
  have first : (tree.insert (.ofNames path) (.file content)).files.lookup other =
      (Tree.mk (tree.nodes.filter (·.1 ≠ .ofNames path))).files.lookup other := by
    change List.lookup other ((Name.join path, content) :: _) = _
    rw [List.lookup_cons, miss]
    rfl
  rw [first]
  apply lookup_filterMap_filter
  intro node entry listed
  cases node with
  | directory => exact nomatch listed
  | file content =>
    cases listed
    exact differ.symm

/-- A file has been written at a path. It has this content, both where it stands and in the
listing, and all else is as it was. -/
structure Written (before after : Tree) (path : List Name) (content : Bytes) : Prop where
  stands : after.find? (.ofNames path) = some (.file content)
  keeps : ∀ other ≠ Place.ofNames path, after.find? other = before.find? other
  listed : after.files.lookup (Name.join path) = some content
  keeps_listed : ∀ other ≠ Name.join path, after.files.lookup other = before.files.lookup other

theorem written_insert (tree : Tree) (path : List Name) (content : Bytes) (named : path ≠ []) :
    tree.Written (tree.insert (.ofNames path) (.file content)) path content where
  stands := find?_insert_self tree _ _ (by simpa [Place.ofNames, Place.below] using named)
  keeps other differ := find?_insert_of_ne tree _ other _ differ
  listed := lookup_files_insert_self tree path content
  keeps_listed := lookup_files_insert_of_ne tree path content

end Tree

end Console.Tool
