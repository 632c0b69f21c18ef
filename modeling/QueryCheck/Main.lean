import QueryCheck.Command.Run
import QueryCheck.Text.Utf8

/-! # The program

Gives a run the files, the environment and the standard input of the process, writes what it leaves
and reports by the exit code whether all is well. -/

namespace QueryCheck.Main

open QueryCheck.Command
open QueryCheck.Settings (ReadError Disk)

/-- The number of the operating system for a directory that is read like a file. -/
def directoryCode : UInt32 := 21

/-- The cause of a failed reading. -/
def readError : IO.Error → ReadError
  | .noFileOrDirectory .. => .missing
  | .inappropriateType _ code _ => if code = directoryCode then .isDirectory else .notDirectory
  | _ => .isDirectory

/-- Reads a file. -/
def readFile (path : String) : IO (Except ReadError String) := do
  match ← (IO.FS.readBinFile path).toBaseIO with
  | .ok bytes => return .ok (Text.decode bytes)
  | .error e => return .error (readError e)

/-- Whether there is anything at a path. -/
def present (path : String) : IO Bool := do
  match ← (IO.FS.Handle.mk path .read).toBaseIO with
  | .ok _ => return true
  | .error _ => return false

/-- The variables of the environment. -/
def environment : IO (List (String × String)) := do
  match ← readFile "/proc/self/environ" with
  | .ok text =>
    return (text.splitOn "\x00").map fun entry =>
      let (name, value) := Flags.cutEquals entry
      (name, value.getD "")
  | .error _ => return []

/-- What is left of a stream, behind the bytes that have been read. -/
partial def readRest (input : IO.FS.Stream) (bytes : ByteArray) : IO ByteArray := do
  let more ← input.read 65536
  if more.isEmpty then return bytes else readRest input (bytes ++ more)

/-- The surroundings of the process. Documents are validated one at a time. -/
def world : IO (World IO) := do
  let directory ← IO.currentDir
  let input ← IO.getStdin
  return {
    disk := { directory := directory.toString, read := readFile, present }
    environment := ← environment
    processors := 1
    terminal := ← (← IO.getStdout).isTty
    input := return Text.decode (← readRest input .empty) }

/-- Writes an output. -/
def write (output : Report.Output) : IO Unit := do
  let out ← IO.getStdout
  match output with
  | .text s => out.putStr s
  | .bytes bs => out.write ⟨bs.toArray⟩
  out.flush

/-- Whether the failures of a command line are not reported: those of validation are told by the
exit code. -/
def isQuiet (arguments : List String) : Bool :=
  match Name.find arguments with
  | .ok (some .validate, _) => true
  | _ => false

/-- Runs the program and tells the exit code. -/
def execute (arguments : List String) : IO UInt32 := do
  match ← (← world).run arguments with
  | .ok o =>
    write o.output
    IO.eprint o.notes
    return if o.valid then 0 else 1
  | .error e =>
    unless isQuiet arguments do IO.eprintln ("Error: " ++ e.message)
    return 1

end QueryCheck.Main

/-- The program. -/
def main (arguments : List String) : IO UInt32 := QueryCheck.Main.execute arguments
