/-
# The program

Reads the command line and the files it names, and prints the answer or what is wrong.
-/
import Typeahead.CommandLine.Reading
import Typeahead.CommandLine.Run

namespace Typeahead

/-- A value, or none if it cannot be had. -/
def attempt {α : Type} (action : IO α) : IO (Option α) := do
  try return some (← action) catch _ => return none

/-- The files of the machine. -/
def machineFiles : Files IO where
  isFile path := return (← attempt (IO.FS.readBinFile path)).isSome
  read? path := attempt (IO.FS.readFile path)
  standardInput? := attempt do
    let input ← IO.getStdin
    let bytes ← input.readBinToEnd
    match String.fromUTF8? bytes with
    | some text => return text
    | none => throw (IO.userError "stream did not contain valid text")

end Typeahead

open Typeahead

/-- Runs a command line, and answers with the exit code. -/
def main (words : List String) : IO UInt32 := do
  match Arguments.ofWords words with
  | .error error =>
    if error.isAnswer then
      IO.print error.message
      return 0
    else
      IO.eprint error.message
      return 2
  | .ok arguments =>
    let colored := arguments.color.isColored (← (← IO.getStdout).isTty)
    match ← (arguments.run machineFiles colored).run with
    | .ok output =>
      IO.print output
      return 0
    | .error error =>
      IO.eprint error.report
      return 1
