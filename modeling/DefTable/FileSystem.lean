import DefTable.Text.CodePoint

/-!
# Files

Where a run reads and writes. `Storage` is what a run needs of it, in any monad; `FileSystem` is a tree of files and
directories that provides it as a state. A path leads from the root, or from the current directory, name by name;
each name but the last must be that of a directory. Reading leaves the tree as it is, and writing stores the whole
content at the end of its path.
-/

namespace DefTable

/-- Why a file cannot be read or written. -/
inductive FileError where
  | notFound
  | notDirectory
  | isDirectory
  | nameTooLong
  | nullInName
  /-- The bytes of the file are no text. -/
  | notText
  /-- A reason that only a system of its own knows, in its words. -/
  | other (reason : String)
deriving DecidableEq, Repr

def FileError.message : FileError → String
  | notFound => "No such file or directory (os error 2)"
  | notDirectory => "Not a directory (os error 20)"
  | isDirectory => "Is a directory (os error 21)"
  | nameTooLong => "File name too long (os error 36)"
  | nullInName => "file name contained an unexpected NUL byte"
  | notText => "stream did not contain valid UTF-8"
  | other reason => reason

/-- What a run needs of the files around it. -/
structure Storage (m : Type → Type) where
  read : String → m (Except FileError ByteArray)
  write : String → ByteArray → m (Except FileError Unit)

/-- A place in a tree of files: the names that lead to it from the root, the last one first. -/
abbrev Location := List String

inductive FileEntry where
  | file (content : ByteArray)
  | directory

/-- A tree of files with the current directory. -/
structure FileSystem where
  /-- The places other than the root, of which the first one that is listed counts. -/
  entries : List (Location × FileEntry)
  current : Location

namespace FileSystem

def entry? (fs : FileSystem) (l : Location) : Option FileEntry :=
  if l = [] then some .directory else fs.entries.lookup l

def isDirectory (fs : FileSystem) (l : Location) : Bool :=
  match fs.entry? l with
  | some .directory => true
  | _ => false

def store (fs : FileSystem) (l : Location) (content : ByteArray) : FileSystem :=
  ⟨(l, .file content) :: fs.entries, fs.current⟩

/-- The names of a path, with an empty one for each slash that no name precedes or follows. -/
def names : List Char → List (List Char)
  | [] => [[]]
  | c :: cs =>
    if c = '/' then [] :: names cs
    else
      match names cs with
      | [] => [[c]]
      | name :: more => (c :: name) :: more

/-- Where names lead to from a place. The last name may be new in its directory. -/
def walk (fs : FileSystem) (l : Location) : List (List Char) → Except FileError Location
  | [] => .ok l
  | name :: more =>
    if !fs.isDirectory l then .error .notDirectory
    else if name = [] ∨ name = ['.'] then fs.walk l more
    else if name = ['.', '.'] then fs.walk l.tail more
    else if 255 < Text.byteLength name then .error .nameTooLong
    else if more = [] ∨ (fs.entry? (String.ofList name :: l)).isSome then fs.walk (String.ofList name :: l) more
    else .error .notFound

def start (fs : FileSystem) : List Char → Location
  | '/' :: _ => []
  | _ => fs.current

def checked (path : String) : Except FileError (List Char) :=
  if path.toList.contains '\x00' then .error .nullInName
  else if path.toList = [] then .error .notFound
  else if 4096 ≤ Text.byteLength path.toList then .error .nameTooLong
  else .ok path.toList

def withoutSlashes (path : List Char) : List Char :=
  (path.reverse.dropWhile (· = '/')).reverse

def read (fs : FileSystem) (path : String) : Except FileError ByteArray := do
  let cs ← checked path
  let l ← fs.walk (fs.start cs) (names cs)
  match fs.entry? l with
  | none => .error .notFound
  | some .directory => .error .isDirectory
  | some (.file content) => .ok content

/-- The place of the file at the end of a path that can be written. A slash at the end asks for a directory. -/
def writable (fs : FileSystem) (path : String) : Except FileError Location := do
  let cs ← checked path
  let l ← fs.walk (fs.start cs) (names (withoutSlashes cs))
  if fs.isDirectory l || withoutSlashes cs ≠ cs then .error .isDirectory else .ok l

def storage : Storage (StateM FileSystem) where
  read path := do
    let fs ← get
    return fs.read path
  write path content := do
    let fs ← get
    match fs.writable path with
    | .error e => return .error e
    | .ok l => do
      set (fs.store l content)
      return .ok ()

end FileSystem

end DefTable
