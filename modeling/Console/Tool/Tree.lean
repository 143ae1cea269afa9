import Console.Byte
import Console.Fault

/-!
# Directory trees

A working directory with the directories and files in it, as much of them as
writing a file can show. A path is walked from the working directory, one name
after the other. A dot and an empty name stay where they are, and two dots go
up. Above the working directory lie its surroundings, where a path that begins
with a slash starts and beyond which nothing lies. Nothing is known to be there
until it is written. What the path leads to must not be a directory, and
everything on the way must be one. Names of more than 255 bytes and paths of
more than 4095 lead nowhere.
-/
namespace Console.Tool

/-- Where a way begins: in the working directory or in what it stands in. -/
inductive Region where
  | working
  | surroundings
deriving DecidableEq

/-- Where something stands: the names on the way from where it begins. -/
structure Place where
  region : Region := .working
  names : List String := []
deriving DecidableEq

inductive Node where
  | directory
  | file (content : Bytes)
deriving DecidableEq

/-- What has a name. Where a way begins there is always a directory. -/
structure Tree where
  nodes : List (Place × Node) := []
deriving DecidableEq

/-- Cuts a path at its slashes. -/
def cut : List Char → List (List Char)
  | [] => [[]]
  | char :: rest =>
    if char = '/' then [] :: cut rest
    else
      match cut rest with
      | [] => [[char]]
      | name :: names => (char :: name) :: names

def names (path : String) : List String := (cut path.toList).map String.ofList

def nameLimit : Nat := 255

def pathLimit : Nat := 4095

namespace Place

/-- Where the walk along a path begins. -/
def start (path : String) : Place where
  region := if path.toList.head? = some '/' then .surroundings else .working

/-- The directory that a place is in. The surroundings are their own parent. -/
def parent (place : Place) : Place :=
  if place.names = [] then { region := .surroundings }
  else { place with names := place.names.dropLast }

/-- Where a name leads from a place. -/
def follow (place : Place) (name : String) : Place :=
  if name = "" ∨ name = "." then place
  else if name = ".." then place.parent
  else { place with names := place.names ++ [name] }

end Place

namespace Tree

def find? (tree : Tree) (place : Place) : Option Node :=
  if place.names = [] then some .directory else tree.nodes.lookup place

def insert (tree : Tree) (place : Place) (node : Node) : Tree where
  nodes := (place, node) :: tree.nodes.filter (·.1 ≠ place)

/-- Makes the directories that names lead to from a place, as far as they are
not there, and gives the place of the last one. -/
def makeDirectories (tree : Tree) (place : Place) : List String → Tree × Place
  | [] => (tree, place)
  | name :: rest =>
    let next := place.follow name
    let tree := if (tree.find? next).isSome then tree else tree.insert next .directory
    tree.makeDirectories next rest

def addDirectory (tree : Tree) (path : String) : Tree :=
  (tree.makeDirectories (.start path) (names path)).1

/-- Puts a file in its place, with the directories on the way to it. -/
def addFile (tree : Tree) (path : String) (content : Bytes) : Tree :=
  let names := names path
  let (tree, place) := tree.makeDirectories (.start path) names.dropLast
  tree.insert (place.follow (names.getLastD "")) (.file content)

def look (tree : Tree) (place : Place) (name : String) : Except SystemError (Option Node) :=
  if nameLimit < (utf8 name).length then .error .nameTooLong
  else .ok (tree.find? (place.follow name))

def enter (tree : Tree) (place : Place) (name : String) : Except SystemError Place :=
  match tree.look place name with
  | .error error => .error error
  | .ok none => .error .notFound
  | .ok (some (.file _)) => .error .notDirectory
  | .ok (some .directory) => .ok (place.follow name)

/-- The place of the file that a directory has, or may get, under a name. -/
def entry (tree : Tree) (place : Place) (name : String) : Except SystemError Place :=
  match tree.look place name with
  | .error error => .error error
  | .ok (some .directory) => .error .isDirectory
  | .ok _ => .ok (place.follow name)

/-- The place of the file that names lead to from a directory. A path that ends
in a slash asks for a directory. -/
def locate (tree : Tree) (place : Place) : List String → Except SystemError Place
  | [] => .error .isDirectory
  | [name] => tree.entry place name
  | name :: rest =>
    if rest.all (· = "") then .error .isDirectory
    else do tree.locate (← tree.enter place name) rest

/-- Writes a file, new or replaced. No file has the empty path. -/
def write (tree : Tree) (path : String) (content : Bytes) : Except SystemError Tree :=
  if path = "" then .error .notFound
  else if pathLimit < (utf8 path).length then .error .nameTooLong
  else do return tree.insert (← tree.locate (.start path) (names path)) (.file content)

/-- Every file in the working directory or below it, with the path to it. -/
def files (tree : Tree) : List (String × Bytes) :=
  tree.nodes.filterMap fun
    | (⟨.working, names⟩, .file content) => some ("/".intercalate names, content)
    | _ => none

theorem find?_insert_self (tree : Tree) (place : Place) (node : Node) (named : place.names ≠ []) :
    (tree.insert place node).find? place = some node := by
  simp [find?, insert, named]

private theorem lookup_filter_of_ne (nodes : List (Place × Node)) (place other : Place)
    (differ : other ≠ place) :
    (nodes.filter (·.1 ≠ place)).lookup other = nodes.lookup other := by
  induction nodes with
  | nil => rfl
  | cons first rest ih =>
    obtain ⟨here, node⟩ := first
    by_cases same : here = place
    · have miss : (other == here) = false := by
        rw [same]
        exact beq_false_of_ne differ
      simp [same, ← ih, List.lookup_cons, same ▸ miss]
    · simp [same, List.lookup_cons, ← ih]

theorem find?_insert_of_ne (tree : Tree) (place other : Place) (node : Node)
    (differ : other ≠ place) : (tree.insert place node).find? other = tree.find? other := by
  have miss : (other == place) = false := beq_false_of_ne differ
  simp only [find?, insert, List.lookup_cons, miss]
  rw [lookup_filter_of_ne tree.nodes place other differ]

end Tree
end Console.Tool
