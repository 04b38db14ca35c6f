import PropertyIndex.KeyedList
import PropertyIndex.Storage.Basic
import PropertyIndex.Text.Line

/-!
# Storage as a value

A tree of files, directories and symbolic links, with a working directory from which paths without
a leading slash are followed.

* `Location`, `Tree.Node`, `Tree`: places, what stands at them, and the tree.
* `Tree.locate`: the place that a path leads to.
* `Tree.readText`, `Tree.writeContent`, `Tree.makeDirectories`, `Tree.list`: the operations of
  storage on a tree, gathered in an instance.
* `Tree.createDirectories`, `Tree.makeLink`, `Tree.remove`, `Tree.listing`: further operations.
-/

namespace PropertyIndex

open Text

/-- A place in a tree: the names on the way to it, the last one first. -/
abbrev Location := List String

/-- What a file holds. -/
inductive Content where
  | text (s : String)
  /-- Bytes that are no text. -/
  | binary
  deriving DecidableEq, Repr

/-- What stands at a place. -/
inductive Tree.Node where
  | file (content : Content)
  | directory
  | link (target : String)
  deriving DecidableEq, Repr

/-- A tree of files and directories. -/
structure Tree where
  nodes : List (Location × Tree.Node)
  workingDirectory : Location
  /-- At each place there is one thing at most. -/
  distinct : (nodes.map Prod.fst).Nodup

namespace Tree

/-- An empty working directory. -/
def empty : Tree :=
  ⟨[(["work"], .directory)], ["work"], by decide⟩

/-- What stands at a place, if anything does. -/
def node? (tree : Tree) (location : Location) : Option Node :=
  if location.isEmpty then some .directory else tree.nodes.lookup location

/-- A tree with something else at one place. -/
def put (tree : Tree) (location : Location) (node : Node) : Tree :=
  ⟨putByKey Prod.fst (location, node) tree.nodes, tree.workingDirectory,
    nodup_map_putByKey (location, node) tree.distinct⟩

/-- Whether a place is another one or lies below it. -/
def isBelow (location root : Location) : Bool :=
  root.isSuffixOf location

/-! ## Following paths -/

/-- How many symbolic links may be followed on the way to a place. -/
def linkLimit : Nat := 40

/-- The steps of a path.  A slash at the end asks for a directory, as a single dot would. -/
def steps (path : String) : List String :=
  let parts := (pieces '/' path.toList).map String.ofList
  let names := parts.filter fun part => part != ""
  if parts.getLast? == some "" && !names.isEmpty then names ++ ["."] else names

/-- The place at which the steps of a path begin. -/
def start (path : String) (here : Location) : Location :=
  if path.toList.head? == some '/' then [] else here

/-- Follows steps from a place.  Only the last one may lead to nothing, and all in front of it
have to lead to directories.  The steps of a link are left to `follow`. -/
def walkWith (tree : Tree) (follow : Location → List String → Except Fault Location) :
    Location → List String → Except Fault Location
  | location, [] => .ok location
  | location, name :: names =>
    if name == "." then walkWith tree follow location names
    else if name == ".." then walkWith tree follow location.tail names
    else if 255 < name.utf8ByteSize then .error .nameTooLong
    else
      let target := name :: location
      match tree.node? target with
      | none => if names.isEmpty then .ok target else .error .notFound
      | some .directory => walkWith tree follow target names
      | some (.file _) => if names.isEmpty then .ok target else .error .notDirectory
      | some (.link path) => follow (start path location) (steps path ++ names)

/-- Follows steps from a place, and at most `links` symbolic links on the way. -/
def walk (tree : Tree) : (links : Nat) → Location → List String → Except Fault Location
  | 0 => walkWith tree fun _ _ => .error .tooManyLinks
  | links + 1 => walkWith tree (walk tree links)

/-- Whether a text can be a path at all. -/
def checkPath (path : String) : Except Fault Unit :=
  if path.isEmpty then .error .notFound
  else if path.toList.contains '\x00' then .error .nullInPath
  else if 4096 ≤ path.utf8ByteSize then .error .nameTooLong
  else .ok ()

/-- The place that a path leads to, at which there may be nothing yet. -/
def locate (tree : Tree) (path : String) : Except Fault Location := do
  checkPath path
  tree.walk linkLimit (start path tree.workingDirectory) (steps path)

/-! ## The operations of storage -/

/-- The text of a file. -/
def readText (tree : Tree) (path : String) : Except Fault String := do
  let location ← tree.locate path
  match tree.node? location with
  | some (.file (.text s)) => .ok s
  | some (.file .binary) => .error .notText
  | some .directory => .error .isDirectory
  | some (.link _) => .error .tooManyLinks
  | none => .error .notFound

/-- Puts something into a file.  A path that ends in a slash cannot be that of a file. -/
def writeContent (tree : Tree) (path : String) (content : Content) : Except Fault Tree := do
  let ends := path.toList.getLast? == some '/'
  let name := if ends then (steps path).dropLast else steps path
  checkPath path
  let location ← tree.walk linkLimit (start path tree.workingDirectory) name
  match tree.node? location with
  | some .directory => .error .isDirectory
  | some (.link _) => .error .tooManyLinks
  | _ => if ends then .error .isDirectory else .ok (tree.put location (.file content))

/-- The fault that is told of a step at which something stands in the way.  A whole path is tried
first and then the paths that lead to it, until one of them can be made.  So the fault of the way is
told only while nothing has been made and more steps follow. -/
def obstacle (made : Bool) (names : List String) (fault : Fault) : Fault :=
  if made || names.all fun name => name == "." then .alreadyExists else fault

/-- Makes the directories that steps lead through, behind the steps in `front`, which lead from
`origin` to `location`.  It goes on in the same way whether or not something was `made`, and what
was made stays when a later step fails. -/
def createAlong (tree : Tree) (origin : Location) (made : Bool) (front : List String)
    (location : Location) : List String → Except Fault Unit × Tree
  | [] => (.ok (), tree)
  | name :: names =>
    if name == "." then createAlong tree origin made (front ++ [name]) location names
    else if name == ".." then createAlong tree origin made (front ++ [name]) location.tail names
    else if 255 < name.utf8ByteSize then (.error .nameTooLong, tree)
    else
      let target := name :: location
      match tree.node? target with
      | none => createAlong (tree.put target .directory) origin true (front ++ [name]) target names
      | some .directory => createAlong tree origin made (front ++ [name]) target names
      | some (.file _) => (.error (obstacle made names .notDirectory), tree)
      | some (.link _) =>
        -- A single dot behind the link asks for a directory.
        match tree.walk linkLimit origin (front ++ [name, "."]) with
        | .ok reached => createAlong tree origin made (front ++ [name]) reached names
        | .error .notFound => (.error .alreadyExists, tree)
        | .error fault => (.error (obstacle made names fault), tree)

/-- Makes a directory with those it lies in, as far as that is possible.  The empty path asks for
nothing. -/
def makeDirectories (tree : Tree) (path : String) : Except Fault Unit × Tree :=
  if path.isEmpty then (.ok (), tree)
  else
    match checkPath path with
    | .error fault => (.error fault, tree)
    | .ok () =>
      let origin := start path tree.workingDirectory
      tree.createAlong origin false [] origin (steps path)

/-- The entries of the directory at a place. -/
def entriesAt (tree : Tree) (location : Location) : List Entry :=
  tree.nodes.filterMap fun (place, node) =>
    match place with
    | name :: above =>
      if above == location then
        some ⟨name, match node with
          | .file _ => true
          | _ => false⟩
      else none
    | [] => none

/-- What a directory lists. -/
def list (tree : Tree) (path : String) : Except Fault (List Entry) := do
  let location ← tree.locate path
  match tree.node? location with
  | some .directory => .ok (tree.entriesAt location)
  | some _ => .error .notDirectory
  | none => .error .notFound

/-- An operation that changes the tree unless it fails. -/
def change (operation : Tree → Except Fault Tree) : StateM Tree (Except Fault Unit) :=
  fun tree =>
    match operation tree with
    | .ok changed => (.ok (), changed)
    | .error fault => (.error fault, tree)

instance : Storage (StateM Tree) where
  readText path := fun tree => (tree.readText path, tree)
  writeText path text := change fun tree => tree.writeContent path (.text text)
  createDirectories path := fun tree => tree.makeDirectories path
  list path := fun tree => (tree.list path, tree)

/-! ## Further operations -/

/-- A tree with a directory and those it lies in. -/
def createDirectories (tree : Tree) (path : String) : Except Fault Tree :=
  let (result, made) := tree.makeDirectories path
  result.map fun _ => made

/-- The place of the last step of a path itself, even where that is a link. -/
def locateLink (tree : Tree) (path : String) : Except Fault Location := do
  checkPath path
  match (steps path).reverse with
  | [] => .ok (start path tree.workingDirectory)
  | name :: above => do
    if name == "." || name == ".." then tree.locate path
    else
      let location ← tree.walk linkLimit (start path tree.workingDirectory) above.reverse
      match tree.node? location with
      | some .directory => return name :: location
      | some _ => .error .notDirectory
      | none => .error .notFound

/-- Makes a symbolic link. -/
def makeLink (tree : Tree) (target path : String) : Except Fault Tree := do
  let location ← tree.locateLink path
  match tree.node? location with
  | some _ => .error .alreadyExists
  | none => .ok (tree.put location (.link target))

/-- A tree without what stands at a place and below it. -/
def without (tree : Tree) (location : Location) : Tree :=
  ⟨tree.nodes.filter fun entry => !isBelow entry.1 location, tree.workingDirectory,
    tree.distinct.sublist (List.filter_sublist.map Prod.fst)⟩

/-- Removes what a path leads to, with all below it. -/
def remove (tree : Tree) (path : String) : Except Fault Tree := do
  let location ← tree.locateLink path
  return tree.without location

/-- The paths below the working directory, in ascending order.  Those of directories end in a
slash. -/
def listing (tree : Tree) : List String :=
  let home := tree.workingDirectory
  let below := tree.nodes.filter fun entry => isBelow entry.1 home && entry.1 != home
  let paths := below.map fun (location, node) =>
    let path := joinWith "/" (location.take (location.length - home.length)).reverse
    if node == .directory then path ++ "/" else path
  paths.mergeSort fun a b => a ≤ b

end Tree

end PropertyIndex
