import CmStream.Text.SystemText

/-!
# Files and folders

The files that a program can read and write, as a value. Everything lies below one root, the working
directory too. A path is taken apart at its slashes and followed name by name, from the root if it
begins with a slash and from the working directory if it does not.
-/

namespace CmStream.CommandLine

/-- Why a file cannot be read or written, with the number that the system gives to the reason. -/
structure FileError where
  reason : String
  number : Nat
  deriving DecidableEq, Repr

namespace FileError

def notFound : FileError := ⟨"No such file or directory", 2⟩

def notFolder : FileError := ⟨"Not a directory", 20⟩

def isFolder : FileError := ⟨"Is a directory", 21⟩

def nameTooLong : FileError := ⟨"File name too long", 36⟩

def message (error : FileError) : String :=
  error.reason ++ " (os error " ++ toString error.number ++ ")"

end FileError

/-! ## Paths -/

/-- A name in a folder. -/
abbrev Name := SystemText

namespace Name

def isSelf (name : Name) : Bool := name == [SystemText.dot]

def isParent (name : Name) : Bool := name == [SystemText.dot, SystemText.dot]

/-- The number of bytes that a name may have. -/
def maxLength : Nat := 255

def isTooLong (name : Name) : Bool := decide (maxLength < name.length)

end Name

/-- A path: whether it begins at the root, its names, and whether a slash follows the last. -/
structure Path where
  fromRoot : Bool
  names : List Name
  asksForFolder : Bool
  deriving DecidableEq, Repr

namespace Path

/-- The number of bytes that a path may have. -/
def maxLength : Nat := 4095

/-- Slashes that follow each other count as one. -/
def ofText (text : SystemText) : Path where
  fromRoot := text.head? == some SystemText.slash
  names := (text.splitOn SystemText.slash).filter (· ≠ [])
  asksForFolder := text.getLast? == some SystemText.slash

end Path

/-- Takes a path that is a text apart at its slashes. -/
def components (path : List Char) : List (List Char) := path.splitOn '/'

/-! ## Directories -/

inductive Entry where
  | file (contents : List Byte)
  | folder
  deriving DecidableEq, Repr

/-- The names on the way from the root to an entry. -/
abbrev Location := List Name

/-- The entries below the root, and the folder in which the program works. -/
structure Directory where
  tree : List (Location × Entry)
  working : Location
  deriving DecidableEq, Repr

namespace Directory

/-- The entry at a location; the root is a folder. -/
def find? (d : Directory) : Location → Option Entry
  | [] => some .folder
  | location => d.tree.lookup location

/-- Puts an entry at a location in place of what was there. -/
def put (d : Directory) (location : Location) (entry : Entry) : Directory :=
  { d with tree := (location, entry) :: d.tree.filter (·.1 ≠ location) }

theorem lookup_filter_ne {location other : Location} (h : other ≠ location)
    (tree : List (Location × Entry)) :
    (tree.filter (·.1 ≠ location)).lookup other = tree.lookup other := by
  induction tree with
  | nil => rfl
  | cons first rest ih =>
    obtain ⟨name, entry⟩ := first
    by_cases same : name = location
    · have differs : (other == name) = false := by simpa [same] using h
      rw [List.filter_cons_of_neg (by simpa using same), List.lookup_cons, differs, ih]
    · rw [List.filter_cons_of_pos (by simpa using same), List.lookup_cons, List.lookup_cons, ih]

/-- What is put somewhere shows at its location and nowhere else. -/
theorem find?_put (d : Directory) {location : Location} (h : location ≠ []) (entry : Entry)
    (other : Location) :
    (d.put location entry).find? other =
      if other = location then some entry else d.find? other := by
  cases other with
  | nil => rw [if_neg (Ne.symm h)]; rfl
  | cons name rest =>
    by_cases same : name :: rest = location
    · simp [find?, put, same]
    · have differs : (name :: rest == location) = false := by simpa using same
      simp only [find?, put, List.lookup_cons, differs, if_neg same]
      exact lookup_filter_ne same d.tree

/-! ## Following paths -/

/-- From a folder into the one that a name in it stands for. There is nothing above the root, so its
parent is the root itself. -/
def enter (d : Directory) (place : Location) (name : Name) : Except FileError Location :=
  if name.isSelf then .ok place
  else if name.isParent then .ok place.dropLast
  else if name.isTooLong then .error .nameTooLong
  else
    match d.find? (place ++ [name]) with
    | some .folder => .ok (place ++ [name])
    | some (.file _) => .error .notFolder
    | none => .error .notFound

/-- What a path leads to: a folder, or a name in a folder, under which there may be nothing. -/
inductive Target where
  | folder
  | named (place : Location) (name : Name)
  deriving DecidableEq, Repr

/-- Follows names from a folder on. All but the last one have to stand for folders. -/
def follow (d : Directory) (place : Location) : List Name → Except FileError Target
  | [] => .ok .folder
  | [name] => if name.isSelf || name.isParent then .ok .folder else .ok (.named place name)
  | name :: rest =>
    match d.enter place name with
    | .ok next => follow d next rest
    | .error error => .error error

/-- What a path leads to. The empty path leads nowhere. -/
def resolve (d : Directory) (path : SystemText) : Except FileError Target :=
  if path.isEmpty then .error .notFound
  else if Path.maxLength < path.length then .error .nameTooLong
  else
    let path := Path.ofText path
    d.follow (if path.fromRoot then [] else d.working) path.names

def read (d : Directory) (path : SystemText) : Except FileError (List Byte) :=
  match d.resolve path with
  | .error error => .error error
  | .ok .folder => .error .isFolder
  | .ok (.named place name) =>
    if name.isTooLong then .error .nameTooLong
    else
      match d.find? (place ++ [name]) with
      | none => .error .notFound
      | some .folder => .error .isFolder
      | some (.file contents) =>
        if (Path.ofText path).asksForFolder then .error .notFolder else .ok contents

/-- Makes an empty file, or empties one that is there, and says where it is. A path that asks for a
folder is refused before anything is looked up under its last name. -/
def create (d : Directory) (path : SystemText) : Except FileError (Location × Directory) :=
  match d.resolve path with
  | .error error => .error error
  | .ok .folder => .error .isFolder
  | .ok (.named place name) =>
    if (Path.ofText path).asksForFolder then .error .isFolder
    else if name.isTooLong then .error .nameTooLong
    else
      match d.find? (place ++ [name]) with
      | some .folder => .error .isFolder
      | _ => .ok (place ++ [name], d.put (place ++ [name]) (.file []))

/-- Writes behind what a file holds. -/
def append (d : Directory) (location : Location) (contents : List Byte) : Directory :=
  match d.find? location with
  | some (.file before) => d.put location (.file (before ++ contents))
  | _ => d

/-- Creates a file and writes it. -/
def write (d : Directory) (path : SystemText) (contents : List Byte) : Except FileError Directory :=
  match d.create path with
  | .ok (location, created) => .ok (created.append location contents)
  | .error error => .error error

/-! ## The working directory -/

/-- The location of names that are texts. -/
def location (names : List (List Char)) : Location :=
  names.map fun name => .encode (String.ofList name)

/-- A folder below the root. -/
def home : Location := [.encode "home"]

/-- An empty working directory. -/
def empty : Directory := ⟨[(home, .folder)], home⟩

/-- The entry under some names below the working directory. -/
def get? (d : Directory) (names : List (List Char)) : Option Entry :=
  d.find? (d.working ++ location names)

/-- Puts an entry under some names below the working directory. -/
def insert (d : Directory) (names : List (List Char)) (entry : Entry) : Directory :=
  d.put (d.working ++ location names) entry

/-- Everything below the working directory, with the names from there as they are shown. -/
def entries (d : Directory) : List (List (List Char) × Entry) :=
  (d.tree.filter fun (location, _) => d.working.isPrefixOf location).map
    fun (location, entry) =>
      ((location.drop d.working.length).map fun name => (SystemText.shown name).toList, entry)

/-- Makes a folder below the working directory, with all folders above it. -/
def addFolder (d : Directory) (path : String) : Directory :=
  let names := (components path.toList).filter (· ≠ [])
  (List.range names.length).foldl (fun d above => d.insert (names.take (above + 1)) .folder) d

end Directory

end CmStream.CommandLine
