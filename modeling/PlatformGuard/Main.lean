import PlatformGuard.Cli

/-!
# The program

The console of the operating system, and the entry point.
-/

namespace PlatformGuard.Cli

/-- The result of an operation, or the reason why it failed. -/
def attempt {α : Type} (operation : IO α) : IO (Except String α) := do
  try
    let a ← operation
    return .ok a
  catch e => return .error (toString e)

/-- The bytes of a stream up to its end. -/
def drain (stream : IO.FS.Stream) : IO Bytes := do
  let mut all := #[]
  let mut more := true
  while more do
    let chunk ← stream.read 65536
    more := !chunk.isEmpty
    all := all ++ chunk.data
  return all.toList

instance : Console IO where
  openFile path := attempt do
    let _ ← IO.FS.Handle.mk path .read
  createFile path := attempt do
    let _ ← IO.FS.Handle.mk path .write
  readFile path := attempt do
    let bytes ← IO.FS.readBinFile path
    return bytes.data.toList
  writeFile path bytes := attempt do
    IO.FS.writeBinFile path ⟨bytes.toArray⟩
  readInput := attempt do
    let stream ← IO.getStdin
    drain stream
  writeOutput bytes := attempt do
    let stream ← IO.getStdout
    stream.write ⟨bytes.toArray⟩
    stream.flush
  report text := do
    let stream ← IO.getStderr
    stream.putStrLn text

end PlatformGuard.Cli

def main (arguments : List String) : IO UInt32 := PlatformGuard.Cli.run arguments
