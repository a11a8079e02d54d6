-- The program: arguments and files in, text and an exit code out.
import SeededStreams.CommandLine.Command

open SeededStreams CommandLine

/-- The text of a file, or why there is none. -/
def contentOf (path : String) : IO (Except FileFault (List Char)) := do
  try
    return textOfBytes (← IO.FS.readBinFile path)
  catch
    | .noFileOrDirectory .. => return .error .notFound
    | e => return .error (.other (toString e))

/-- Does what the arguments say. The exit code is 1 if that fails. -/
def main (args : List String) : IO UInt32 := do
  let content ←
    match fileOf? args with
    | some path => contentOf path
    | none => pure (.ok [])
  let outcome := outcomeOf args content
  (← IO.getStdout).putStr (String.ofList outcome.output)
  match outcome.fault with
  | none => return 0
  | some e =>
    (← IO.getStderr).putStrLn ("Error: " ++ e.message)
    return 1
