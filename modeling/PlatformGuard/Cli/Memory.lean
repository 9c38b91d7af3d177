import PlatformGuard.Cli

/-!
# A console in memory

Files and streams as values, to run the commands without an operating system.
-/

namespace PlatformGuard.Cli

/-- Files by their paths, directories, and the standard streams. -/
structure Memory where
  files : List (String × Bytes)
  directories : List String
  input : Bytes
  output : Bytes := []
  /-- The lines that were reported, first line first. -/
  reports : List String := []
  deriving Repr

namespace Memory

/-- The name of standard input among the files. -/
def inputName : String := "/dev/stdin"

/-- The name of standard output among the files. -/
def outputName : String := "/dev/stdout"

/-- A console with the given files and standard input, and the usual devices. -/
def ofFiles (files : List (String × Bytes)) (input : Bytes) : Memory :=
  { files := files ++ [("/dev/null", []), (inputName, input), (outputName, [])]
    directories := ["/", "/dev", "/tmp", ".", ".."]
    input }

/-- The directory that a path names an entry of. -/
def directoryOf (path : String) : String :=
  match path.toList.reverse.dropWhile (· != '/') with
  | [] => "."
  | ['/'] => "/"
  | _ :: cs => String.ofList cs.reverse

def open? (path : String) : StateM Memory (Except String Unit) := fun s =>
  if (s.files.lookup path).isSome || s.directories.contains path then (.ok (), s)
  else (.error "no such file", s)

/-- Makes an empty file, if there is a directory for it. -/
def create (path : String) : StateM Memory (Except String Unit) := fun s =>
  if path.isEmpty || s.directories.contains path || path.toList.getLast? == some '/'
      || !s.directories.contains (directoryOf path) then
    (.error "no such directory", s)
  else
    (.ok (), { s with files := (path, []) :: s.files })

def read (path : String) : StateM Memory (Except String Bytes) := fun s =>
  match s.files.lookup path with
  | some bytes => (.ok bytes, s)
  | none => (.error "no such file", s)

def write (path : String) (bytes : Bytes) : StateM Memory (Except String Unit) := fun s =>
  if path == outputName then (.ok (), { s with output := s.output ++ bytes })
  else (.ok (), { s with files := (path, bytes) :: s.files })

instance : Console (StateM Memory) where
  openFile := open?
  createFile := create
  readFile := read
  writeFile := write
  readInput := fun s => (.ok s.input, s)
  writeOutput bytes := fun s => (.ok (), { s with output := s.output ++ bytes })
  report line := fun s => ((), { s with reports := s.reports ++ [line] })

end Memory

end PlatformGuard.Cli
