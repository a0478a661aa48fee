import Retrocore.Word

/-!
# Files

Where a path leads. A path is followed from the folder in which a program runs,
or from the outermost folder if it starts with a slash, and names one folder
inside the other; a dot stays, and two dots go back out.
-/

namespace Retrocore.CommandLine

/-- Why there is nothing to be read at the end of a path. -/
inductive ReadFault where
  | missing
  /-- The path leads to a folder. -/
  | folder
  /-- The path goes on behind a file. -/
  | notFolder
  | longName
  | other (reason : String)
  deriving DecidableEq, Repr

def ReadFault.message : ReadFault → String
  | missing => "No such file or directory (os error 2)"
  | folder => "Is a directory (os error 21)"
  | notFolder => "Not a directory (os error 20)"
  | longName => "File name too long (os error 36)"
  | other reason => reason

/-- What a folder can hold under a name. -/
inductive Entry where
  | file (bytes : List Byte)
  | folder (entries : List (String × Entry))

/-- How long a name can be, in bytes. -/
def longestName : Nat := 255

/-- How long a path can be, in bytes. -/
def longestPath : Nat := 4095

/-- Follows names from an entry, which is in the given folders, the nearest
first. The folder in which the outermost folder is, is that folder itself. -/
def Entry.follow (e : Entry) (outer : List Entry) : List String → Except ReadFault Entry
  | [] => .ok e
  | name :: names =>
    match e with
    | .file _ => .error .notFolder
    | .folder entries =>
      if name = "" || name = "." then e.follow outer names
      else if name = ".." then
        match outer with
        | [] => e.follow [] names
        | o :: outer => o.follow outer names
      else if longestName < name.utf8ByteSize then .error .longName
      else
        match entries.lookup name with
        | none => .error .missing
        | some inner => inner.follow (e :: outer) names

/-- The folder in which a program runs, and the folders it is in, the nearest
first. -/
structure Whereabouts where
  here : Entry
  outer : List Entry := []

namespace Whereabouts

/-- The entry to which a path leads. -/
def find (w : Whereabouts) (path : String) : Except ReadFault Entry :=
  if path = "" then .error .missing
  else if longestPath < path.utf8ByteSize then .error .longName
  else
    let names := path.splitOn "/"
    if path.startsWith "/" then (w.outer.getLast?.getD w.here).follow [] names
    else w.here.follow w.outer names

/-- The bytes of the file to which a path leads. -/
def read (w : Whereabouts) (path : String) : Except ReadFault (List Byte) :=
  match w.find path with
  | .error fault => .error fault
  | .ok (.folder _) => .error .folder
  | .ok (.file bytes) => .ok bytes

end Whereabouts

end Retrocore.CommandLine
