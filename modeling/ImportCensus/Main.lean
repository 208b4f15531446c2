import ImportCensus.FileSystem.Listing
import ImportCensus.Session

/-!
# `ImportCensus.Main`: the program

The program takes a listing of the working directory from its standard input, as
`find . -printf '%y\t%P\t%l\n'` writes it, and loads the files that it names. Everything else is one
call of `FileSystem.session`, whose outcome is printed and written back.
-/

set_option autoImplicit false

namespace ImportCensus

/-- The lines of a stream, without their endings. -/
partial def readLines (stream : IO.FS.Stream) (lines : Array Text) : IO (Array Text) := do
  let line ← stream.getLine
  if line.isEmpty then return lines
  readLines stream (lines.push (Text.dropEndWhile Text.isLineBreak line.toList))

/-- The content of a file, or why it cannot be read. -/
def loadContent (path : String) : IO Content := do
  try
    return .ok (← IO.FS.readBinFile path)
  catch cause =>
    match cause with
    | .permissionDenied .. => return .error .permissionDenied
    | _ => return .error .notFound

/-- The file system that a listing describes. -/
def loadFiles (home : Text) (listing : Array Text) : IO FileSystem := do
  let mut fs := FileSystem.bare home
  for line in listing do
    match ListedNode.ofLine? line with
    | some (.file path) =>
      fs := fs.addListed (.file path) (← loadContent (String.ofList path))
    | some node => fs := fs.addListed node (.error .notFound)
    | none => pure ()
  return fs

end ImportCensus

open ImportCensus in
/-- Runs the program on a command line. -/
def main (arguments : List String) : IO UInt32 := do
  let start ← IO.monoMsNow
  let home := ((← IO.getEnv "PWD").getD "/").toList
  let files ← loadFiles home (← readLines (← IO.getStdin) #[])
  let elapsed := Decimal.ofMilliseconds ((← IO.monoMsNow) - start)
  let colored := (← IO.getEnv "NO_COLOR").isNone
  let session := files.session (arguments.map String.toList) elapsed elapsed colored
  for (path, bytes) in files.filesToWrite session.files do
    IO.FS.writeBinFile (String.ofList path) bytes
  IO.print (String.ofList session.output)
  IO.eprint (String.ofList session.errors)
  return session.exitCode
