/-
Module: ParameterLog.Catalog.Replay
Purpose: taking the entries of a log into a catalog.
Main exports: Catalog.applyParameters, Catalog.applySet, Catalog.apply, Catalog.replay
-/
import ParameterLog.Catalog
import ParameterLog.Outcome

/-!
Entries are taken in the order of the log. The first record for a lookup key wins and later ones for
the same key, or with an identifier that is already there, change nothing. A record is passed over,
with a warning, if it cannot be read, if it names itself otherwise than its entry does, if it has no
key, or if it is a set with members that are not there. No record can keep later ones from being
taken.
-/

namespace ParameterLog

namespace Catalog

/-- Whether parameters have a place: neither their identifier nor their key is taken. -/
def hasRoom (catalog : Catalog) (id : Bytes) (key : LookupKey) : Bool :=
  (catalog.get? id).isNone && (catalog.ofKey? key).isNone

/-- Takes the record of some parameters in. -/
def applyParameters (entry : Entry) (catalog : Catalog) : Outcome Catalog Unit :=
  match Parameters.ofBytes entry.data with
  | .error e => ⟨.ok (), catalog, [.unreadableParameters entry.id e]⟩
  | .ok p =>
    if p.id ≠ entry.id then ⟨.ok (), catalog, [.mismatchedId entry.id p.id]⟩
    else
      match p.key with
      | .error e => ⟨.ok (), catalog, [.unusableParameters entry.id e]⟩
      | .ok key =>
        if catalog.hasRoom p.id key then
          let (result, catalog) := catalog.save p
          ⟨result.map fun _ => (), catalog, []⟩
        else ⟨.ok (), catalog, [.parametersKnown entry.id]⟩

/-- Takes the record of a set in. -/
def applySet (entry : Entry) (catalog : Catalog) : Outcome Catalog Unit :=
  match SetRecord.ofBytes entry.data with
  | .error e => ⟨.ok (), catalog, [.unreadableSet entry.id e]⟩
  | .ok record =>
    if record.hash ≠ entry.id then ⟨.ok (), catalog, [.mismatchedHash entry.id record.hash]⟩
    else if (catalog.set? record.hash).isSome then ⟨.ok (), catalog, [.setKnown record.hash]⟩
    else
      match ParameterSet.restore record catalog.get? with
      | .error e => ⟨.ok (), catalog, [.unusableSet entry.id e]⟩
      | .ok set => .done (catalog.saveSet set).2 ()

/-- Takes an entry in. -/
def apply (entry : Entry) (catalog : Catalog) : Outcome Catalog Unit :=
  match entry.kind with
  | .parameters => catalog.applyParameters entry
  | .parameterSet => catalog.applySet entry
  | .untyped => ⟨.ok (), catalog, [.untypedEntry entry.id]⟩

/-- Takes entries in, one after the other, as long as none fails. -/
def replay : List Entry → Catalog → Outcome Catalog Unit
  | [], catalog => .done catalog ()
  | entry :: rest, catalog => (catalog.apply entry).andThen fun _ catalog => catalog.replay rest

end Catalog
end ParameterLog
