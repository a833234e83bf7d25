set_option autoImplicit false

namespace FsmWorkbench

inductive ReadError where
  | notFound
  | notDirectory
  | isDirectory
  | nameTooLong
  | nulInName
  | notUnicode
  deriving DecidableEq, Repr, Inhabited

def ReadError.message : ReadError → String
  | .notFound => "No such file or directory (os error 2)"
  | .notDirectory => "Not a directory (os error 20)"
  | .isDirectory => "Is a directory (os error 21)"
  | .nameTooLong => "File name too long (os error 36)"
  | .nulInName => "file name contained an unexpected NUL byte"
  | .notUnicode => "stream did not contain valid UTF-8"

-- The contents of files under their paths below the working directory. Directories are there for
-- the files in them.
structure FileTree where
  files : List (List String × ByteArray)

namespace FileTree

inductive Entry where
  | file (content : ByteArray)
  | directory

inductive Place where
  | below (path : List String)
  | above
  deriving DecidableEq, Repr, Inhabited

def ofList (files : List (String × ByteArray)) : FileTree :=
  ⟨files.map fun (path, content) =>
    ((path.splitOn "/").filter fun part => part != "" && part != ".", content)⟩

-- Of two files under one path the later one counts.
def entry? (tree : FileTree) : Place → Option Entry
  | .above => some .directory
  | .below path =>
    match tree.files.reverse.lookup path with
    | some content => some (.file content)
    | none =>
      if path.isEmpty || tree.files.any fun file => path.isPrefixOf file.1 then some .directory
      else none

def child : Place → String → Place
  | .below path, name => .below (path ++ [name])
  | .above, _ => .above

def parent : Place → Place
  | .below path => if path.isEmpty then .above else .below path.dropLast
  | .above => .above

def maxNameSize : Nat := 255

def maxPathSize : Nat := 4095

-- The place one step further. Only a directory has places in it; nothing is known of those above
-- the working directory.
def enter (tree : FileTree) (place : Place) (part : String) : Except ReadError Place :=
  match tree.entry? place with
  | some .directory =>
    if part = "" || part = "." then .ok place
    else if part = ".." then .ok (parent place)
    else if maxNameSize < part.utf8ByteSize then .error .nameTooLong
    else if place = .above || (tree.entry? (child place part)).isNone then .error .notFound
    else .ok (child place part)
  | some (.file _) => .error .notDirectory
  | none => .error .notFound

def start (path : String) : Place :=
  if path.toList.head? = some '/' then .above else .below []

def read (tree : FileTree) (path : String) : Except ReadError String :=
  if path.toList.contains '\x00' then .error .nulInName
  else if path = "" then .error .notFound
  else if maxPathSize < path.utf8ByteSize then .error .nameTooLong
  else
    match (path.splitOn "/").foldlM tree.enter (start path) with
    | .error error => .error error
    | .ok place =>
      match tree.entry? place with
      | some (.file content) =>
        match String.fromUTF8? content with
        | some text => .ok text
        | none => .error .notUnicode
      | some .directory => .error .isDirectory
      | none => .error .notFound

end FileTree

end FsmWorkbench
