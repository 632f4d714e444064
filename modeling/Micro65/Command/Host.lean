set_option autoImplicit false

/-!
What a command needs from its surroundings: files, and a terminal to print on. `Folder` is a host made
of a folder of files in memory.
-/

namespace Micro65.Command

/-- How writing a file went. -/
inductive Written where
  | written
  | notCreated
  | notWritten
  deriving DecidableEq, Repr

class Host (m : Type → Type) where
  readFile : String → m (Option ByteArray)
  writeFile : String → ByteArray → m Written
  print : String → m Unit

def Host.printLine {m : Type → Type} [Host m] (line : String) : m Unit := Host.print (line ++ "\n")

/-- Files by their paths, and what has been printed. -/
structure Folder where
  files : List (String × ByteArray) := []
  printed : String := ""

namespace Folder

/-- The components of a path inside the folder. -/
def components? (path : String) : Option (List String) :=
  let parts := path.splitOn "/"
  if path.startsWith "/" || parts.contains ".." then none
  else some (parts.filter fun part => part != "" && part != ".")

/-- The path of a file under its shortest name. -/
def filePath? (path : String) : Option String :=
  if path.endsWith "/" || path.endsWith "/." then none
  else
    match components? path with
    | none | some [] => none
    | some parts => some ("/".intercalate parts)

def isDirectory (folder : Folder) (path : String) : Bool :=
  path == "" || folder.files.any fun file => file.1.startsWith (path ++ "/")

def read? (folder : Folder) (path : String) : Option ByteArray := do
  folder.files.lookup (← filePath? path)

/-- The directory that a path lies in. -/
def parent (path : String) : String := "/".intercalate (path.splitOn "/").dropLast

/-- A file can be created in a directory that is there. -/
def write? (folder : Folder) (path : String) (content : ByteArray) : Option Folder := do
  let path ← filePath? path
  if folder.isDirectory path || !folder.isDirectory (parent path) then none
  else some { folder with files := (path, content) :: folder.files.filter (·.1 != path) }

instance : Host (StateM Folder) where
  readFile path := return (← get).read? path
  writeFile path content := do
    match (← get).write? path content with
    | some folder => set folder; return .written
    | none => return .notCreated
  print text := modify fun folder => { folder with printed := folder.printed ++ text }

end Folder
end Micro65.Command
