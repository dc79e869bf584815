import BraceLisp.Command
import BraceLisp.Files.Mentioned
import BraceLisp.Repl.Basic

/-!
# The command line

Reads arguments, variables, standard input and files, and writes what the program prints. The files that a
program can ask for are read before it runs.
-/

namespace BraceLisp.Main

def toByteArray (s : Bytes) : ByteArray := ⟨s.toArray⟩

def write (stream : IO.FS.Stream) (s : Bytes) : IO Unit := do
  stream.write (toByteArray s)
  stream.flush

/-- All that is left on a stream. -/
partial def readAll (stream : IO.FS.Stream) (done : Bytes) : IO Bytes := do
  let chunk ← stream.read 65536
  if chunk.isEmpty then return done
  readAll stream (done ++ chunk.data.toList)

/-- What is found at a path. A file that has changed counts as changed at another time. -/
def look (path : Bytes) : IO FileView := do
  if path.contains 0 then return .badPath
  let name := String.ofList (Utf8.decode path)
  try
    let content ← IO.FS.readBinFile name
    return .file content.data.toList (hash content.data.toList).toNat
  catch e =>
    match e with
    | .inappropriateType _ code _ => return if code == 20 then .notDirectory else .directory
    | .invalidArgument _ code _ => return if code == 36 then .tooLong else .missing
    | _ => return .missing

/-- Looks at some paths and at those mentioned in the files found there. -/
partial def snapshot (known : List (Bytes × FileView)) : List Bytes → IO (List (Bytes × FileView))
  | [] => return known
  | path :: rest => do
      if (Bindings.get? path known).isSome then snapshot known rest
      else
        let view ← look path
        let more := match view with
          | .file content _ => Source.mentionedStrings (Utf8.decode content)
          | _ => []
        snapshot ((path, view) :: known) (more ++ rest)

def filesOf (known : List (Bytes × FileView)) : Files := fun path =>
  (Bindings.get? path known).getD .missing

/-- Takes lines at the prompt until the last; `paths` are those mentioned so far. -/
partial def prompt (input output : IO.FS.Stream) (paths : List Bytes) (r : Repl) : IO Unit := do
  write output (Bytes.of "sneed> ")
  let line ← input.getLine
  if line.isEmpty then return
  let paths := paths ++ Source.mentionedStrings line.toList
  let files := filesOf (← snapshot [] paths)
  match { r with session := r.session.clearOutput }.line files defaultDepth (Bytes.of line) with
  | none => return
  | some (quit, r) =>
      write output r.session.printed
      if quit then return else prompt input output paths r

def proceed (config : Config) : IO UInt32 := do
  let input ← IO.getStdin
  let output ← IO.getStdout
  let terminal ← output.isTty
  if config.files.isEmpty && (← input.isTty) then
    match Command.startSession defaultDepth config with
    | none => return 1
    | some (started, s) =>
        write (← IO.getStderr) started
        let colours := Command.usesColours config terminal
        write output (Banner.logo colours)
        prompt input output [] (Repl.ofSession s colours)
        return 0
  else
    let text ← if config.files.isEmpty then readAll input [] else pure []
    let known ← snapshot [] (config.files ++ Source.mentionedStrings (Utf8.decode text))
    match Command.runConfig (filesOf known) defaultDepth config terminal text with
    | none => return 1
    | some outcome =>
        write output outcome.output
        write (← IO.getStderr) outcome.errors
        return UInt32.ofNat outcome.code

end BraceLisp.Main

open BraceLisp in
def main (arguments : List String) : IO UInt32 := do
  let driver := Bytes.of ((← IO.getEnv "SNEED_HISTORY_DRIVER").getD "")
  let dsn := Bytes.of ((← IO.getEnv "SNEED_HISTORY_DSN").getD "")
  let valueOf (name : Bytes) : Bytes :=
    if name = Bytes.of "SNEED_HISTORY_DRIVER" then driver
    else if name = Bytes.of "SNEED_HISTORY_DSN" then dsn
    else []
  match Command.plan (arguments.map Bytes.of) valueOf with
  | .finished outcome =>
      Main.write (← IO.getStdout) outcome.output
      Main.write (← IO.getStderr) outcome.errors
      return UInt32.ofNat outcome.code
  | .proceed config => Main.proceed config
