import ArcSelection.Fault

/-!
# Files by path

A path is kept in a normal form: single slashes, and no components that stay in place.
Files lie below a working directory of which nothing else is known.
-/

namespace ArcSelection.CommandLine

/-- The slashes that a path begins with: exactly two are kept, more count as one. -/
def pathRoot (path : String) : String :=
  match (path.toList.takeWhile (· == '/')).length with
  | 0 => ""
  | 2 => "//"
  | _ => "/"

/-- The components of a path that lead somewhere. -/
def pathParts (path : String) : List String :=
  (path.splitOn "/").filter fun part => part != "" && part != "."

/-- The normal form of a path. -/
def normalPath (path : String) : String :=
  let text := pathRoot path ++ String.intercalate "/" (pathParts path)
  if text.isEmpty then "." else text

/-- Texts of files by path. -/
abbrev Files := List (String × String)

namespace Files

/-- The text of the file at a place below the working directory. -/
def file? (files : Files) (place : List String) : Option String :=
  (files.find? fun f => pathParts f.1 == place).map (·.2)

/-- Whether a place below the working directory is a directory. -/
def isDirectory (files : Files) (place : List String) : Bool :=
  files.any fun f => place.isPrefixOf (pathParts f.1) && place != pathParts f.1

/-- The longest name of a file, in bytes. -/
def maxNameSize : Nat := 255

/-- Goes on from a directory along components and reads the file there. -/
def walk (files : Files) (path : String) :
    (directory : List String) -> List String -> Except Fault String
  | _, [] => .error (.isDirectory path)
  | directory, part :: rest =>
      if part == ".." then
        if directory.isEmpty then
          .error (if rest.all (· == "..") then .isDirectory path else .fileNotFound path)
        else walk files path directory.dropLast rest
      else
        let place := directory ++ [part]
        match files.file? place with
        | some text => if rest.isEmpty then .ok text else .error (.notDirectory path)
        | none =>
            if files.isDirectory place then walk files path place rest
            else if part.utf8ByteSize > maxNameSize then .error (.nameTooLong path)
            else .error (.fileNotFound path)

/-- Reads the file at a path in normal form. -/
def read (files : Files) (path : String) : Except Fault String :=
  if path.contains '\x00' then .error .nullInPath
  else if (pathRoot path).isEmpty then files.walk path [] (pathParts path)
  else if (pathParts path).isEmpty then .error (.isDirectory path)
  else .error (.fileNotFound path)

end Files

end ArcSelection.CommandLine
