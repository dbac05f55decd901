/-
Module: ParameterLog.Main
Purpose: the inspection program for parameter logs.
Main exports: main
-/
import ParameterLog.Inspect.Report

/-!
The program reads its arguments and the file they name, and prints the report about it. Warnings
about records that cannot be used go to the standard error.
-/

namespace ParameterLog

/-- An event as a line. -/
def eventLine (event : Event) : String :=
  let fields := event.fields.map fun (name, value) => " " ++ name ++ "=" ++ value.compactText
  event.level.name ++ " " ++ event.message ++ String.join fields

/-- The content of the file under a path, if there is a file. -/
def readLog (path : String) : IO (Option Bytes) := do
  try
    let content ← IO.FS.readBinFile path
    return some content.toList
  catch _ => return none

/-- Prints a report. -/
def Report.print (report : Report) : IO UInt32 := do
  for event in report.events do
    if event.level = .warn then IO.eprintln (eventLine event)
  for line in report.errors do
    IO.eprintln line
  IO.print report.output
  return UInt32.ofNat report.exitCode

end ParameterLog

open ParameterLog

/-- Inspects a log. -/
def main (arguments : List String) : IO UInt32 := do
  match Request.ofArguments arguments with
  | none =>
    IO.eprintln Request.usage
    return 2
  | some request =>
    let home := (← IO.getEnv "HOME").getD ""
    let content ← match request.path? home with
      | some path => readLog path
      | none => pure none
    (request.report home content).print
