import DancingLinks.Viewer.Script

/-!
# The viewer as a program

Plays a session without a window. The argument, if there is one, is a file with a sudoku; the
standard input holds the frames, one per line; the calls that draw them are printed, with an empty
line after each frame.
-/

open DancingLinks Viewer

/-- The lines of a stream, up to its end. -/
partial def readLines (input : IO.FS.Stream) : IO (List String) := do
  let line ← input.getLine
  if line.isEmpty then return []
  return line :: (← readLines input)

def main (arguments : List String) : IO UInt32 := do
  let values ← Settings.variableNames.filterMapM fun name => do
    return (← IO.getEnv name).map ((name, ·))
  match Settings.ofEnvironment fun name => values.lookup name with
  | .error fault =>
    IO.eprintln fault.message
    return 1
  | .ok settings =>
    let file ← match arguments with
      | path :: _ => some <$> (·.toList) <$> IO.FS.readBinFile path
      | [] => pure none
    let frames := (← readLines (← IO.getStdin)).map frameOfLine
    let recording := Viewer.run settings ⟨0, 0⟩ file frames
    for calls in recording.calls do
      for call in calls do
        IO.println call.line
      IO.println ""
    match recording.ending with
    | .fault fault =>
      IO.eprintln fault.message
      return 1
    | _ => return 0
