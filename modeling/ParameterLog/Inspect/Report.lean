/-
Module: ParameterLog.Inspect.Report
Purpose: what the inspection program says about a log.
Main exports: Report, Invocation.path, Invocation.report, Request.path?, Request.report
-/
import ParameterLog.Inspect.Request
import ParameterLog.Path
import ParameterLog.FileStore

/-!
The program only reads. It says how far a log can be read and what entries it holds, prints the
entries or the objects in it one to a line, or looks one object up. A frame that is cut off at the
end of the log is worth a warning; other damage is an error. The members of what it prints are in
the order of their names. A log that is no file is a wrong usage.
-/

namespace ParameterLog

open Json

/-- What a run of the program comes to. -/
structure Report where
  exitCode : Nat
  output : String
  /-- The lines that go with it on the side. -/
  errors : List String
  /-- What happened on the way. -/
  events : List Event
deriving Repr

namespace Report

/-- Lines of output. -/
def success (lines : List String) (errors : List String) (events : List Event) : Report :=
  ⟨0, String.join (lines.map (· ++ "\n")), errors, events⟩

/-- A failure for which there is a line. -/
def failure (exitCode : Nat) (error : String) (events : List Event) : Report :=
  ⟨exitCode, "", [error], events⟩

/-- A record with named fields as the program shows errors. -/
def showFields (name : String) (fields : List (String × String)) : String :=
  let shown := fields.map fun (field, text) => field ++ ": " ++ text
  name ++ " \x7b " ++ ", ".intercalate shown ++ " \x7d"

/-- An error that ends the program. -/
def showError : StoreError → String
  | .invalidConfig fault => showFields "InvalidConfig" [("reason", Text.quote fault.message)]
  | .unsupportedVersion context found expected =>
    showFields "UnsupportedVersion"
      [("context", Text.quote context), ("found", toString found), ("expected", toString expected)]
  | other => other.message

/-- An identifier that is no hexadecimal text. -/
def showHexError : HexError → String
  | .oddLength => "OddLength"
  | .invalidCharacter byte position =>
    showFields "InvalidHexCharacter"
      [("c", Text.quoteChar (HexError.character byte)), ("index", toString position)]

/-- An error that ends the program, as a line. -/
def fatal (shown : String) (events : List Event) : Report :=
  failure 1 ("Error: " ++ shown) events

end Report

namespace Invocation

/-- The path of the log. -/
def path (home : String) (invocation : Invocation) : String := Path.expandHome home invocation.log

/-- The log of an invocation, open for reading. -/
def openLog (invocation : Invocation) (path : String) : Except StoreError Log :=
  (Frame.capacity invocation.frameSize).map fun _ => .opened path invocation.frameSize false

/-- Goes on with what an operation answers, unless it fails. -/
def answering {σ α : Type} (outcome : Outcome σ α) (report : α → σ → List Event → Report) :
    Report :=
  match outcome.result with
  | .ok answer => report answer outcome.state outcome.events
  | .error e => .fatal (Report.showError e) outcome.events

/-- How often each kind of entry occurs. -/
def countKinds (entries : List Entry) : Members :=
  let names := entries.map fun entry => entry.kind.name
  Members.ofList (names.eraseDups.map fun name => (name, Value.ofNat (names.count name)))

/-- The summary of a log of a size. -/
def summary (path : String) (size : Nat) (log : Log) (entries : List Entry) : Value :=
  Value.map [("path", path), ("bytes", .ofNat size), ("read_offset", .ofNat log.cursor.offset),
    ("pending_frames", .ofNat log.cursor.pending.length),
    ("truncated_at", .ofOption (log.cursor.truncatedAt.map .ofNat)),
    ("entries", .ofNat entries.length), ("by_type", .object (countKinds entries))]

/-- The warning about a frame that is cut off. -/
def warnings (reading : Reading) : List String :=
  (reading.truncated.map fun e => "Warning: " ++ e.message).toList

/-- An entry as a line: its data as JSON, or in hexadecimal if it is none. -/
def entryLine (entry : Entry) : String :=
  let data := match Value.ofBytes entry.data with
    | .ok value => value
    | .error _ => .text entry.data.hex
  (Value.map [("type", entry.kind.name), ("id", entry.id.hex), ("data", data)]).compactText

/-- An object as a line. -/
def objectLine (kind : Entry.Kind) (document : Value) : String :=
  (Value.map [("type", kind.name), ("data", document.arranged)]).compactText

/-- All objects of a store, one to a line. -/
def objectLines (parameters : List Parameters) (sets : List ParameterSet) : List String :=
  parameters.map (fun p => objectLine .parameters p.document) ++
    sets.map fun set => objectLine .parameterSet set.document

/-- Prints an object that was looked up. -/
def found (document : Option Value) (events : List Event) : Report :=
  match document with
  | some document => .success [document.arranged.pretty] [] events
  | none => .failure 1 "Not found" events

/-- Looks for an object. -/
def look (target : Target) (content : Bytes) (store : FileStore) (events : List Event) : Report :=
  match target with
  | .parameters id =>
    match Bytes.ofHex id with
    | .error e => .fatal (Report.showHexError e) events
    | .ok id =>
      answering ((store.get id content).reporting events) fun p _ events =>
        found (p.map (·.document)) events
  | .set hash =>
    match Bytes.ofHex hash with
    | .error e => .fatal (Report.showHexError e) events
    | .ok hash =>
      answering ((store.getSet hash content).reporting events) fun set _ events =>
        found (set.map (·.document)) events

/-- A store on a log of which nothing is asked but lookups. -/
def load (log : Log) (content : Bytes) : Outcome FileStore Unit :=
  FileStore.load ⟨[]⟩ [] log content

/-- What a command says about a log and its content. -/
def run (command : Command) (log : Log) (content : Bytes) : Report :=
  match command with
  | .stats =>
    answering (log.read content) fun reading log events =>
      let summary := summary log.path content.length log reading.entries
      .success [summary.pretty] (warnings reading) events
  | .dump true =>
    answering (log.read content) fun reading _ events =>
      .success (reading.entries.map entryLine) (warnings reading) events
  | .dump false =>
    let objects := (load log content).andThen fun _ store =>
      (store.allParameters content).andThen fun parameters store =>
        (store.allSets content).map fun sets => objectLines parameters sets
    answering objects fun lines _ events => .success lines [] events
  | .get target =>
    answering (load log content) fun _ store events => look target content store events

/-- What an invocation says about the content of the file under its path, if there is a file. -/
def report (invocation : Invocation) (path : String) (content : Option Bytes) : Report :=
  match content with
  | none => .failure 2 ("Log does not exist: " ++ path) []
  | some content =>
    match invocation.openLog path with
    | .error e => .fatal (Report.showError e) []
    | .ok log => run invocation.command log content

end Invocation

namespace Request

/-- The name and the version of the program. -/
def versionLine : String := "paramstore 0.1.0"

/-- How the program is used. -/
def usage : String :=
  "Inspect parameter store log files\n\nUsage: paramstore [--frame-size N] LOG COMMAND\n\n" ++
  "Commands:\n  stats              Summarize the entries stored in the log\n" ++
  "  dump [--raw]       Print stored objects as JSON lines\n" ++
  "  get parameters ID  Look up parameters by their identifier\n" ++
  "  get set HASH       Look up a parameter set by its hash"

/-- The path of the file that a request is about. -/
def path? (home : String) : Request → Option String
  | .run invocation => some (invocation.path home)
  | _ => none

/-- What the program says to a request, given the content of the file that it is about if there is
such a file. -/
def report (home : String) (content : Option Bytes) : Request → Report
  | .help => .success [usage] [] []
  | .version => .success [versionLine] [] []
  | .run invocation => invocation.report (invocation.path home) content

end Request
end ParameterLog
