import DefTable.FileSystem
import DefTable.Generation

/-!
# Runs

A run reads a source, generates the file and writes it, or yields its text when there is no place to write it to. It
writes only once the text is complete, so a run that fails has changed nothing.

A text that is yielded is for the standard output, which is taken to accept it: the failure to write there is left out.
-/

namespace DefTable

/-- The text of the file at a path. -/
def Storage.readText {m : Type → Type} [Monad m] (storage : Storage m) (path : String) :
    m (Except FileError String) := do
  match ← storage.read path with
  | .error e => return .error e
  | .ok content =>
    match String.fromUTF8? content with
    | some text => return .ok text
    | none => return .error .notText

/-- Generates the file of the source at a path. The result is what a run without an output shows. -/
def Settings.run {m : Type → Type} [Monad m] (s : Settings) (rules : Rules) (storage : Storage m) (input : String)
    (output : Option String) : m (Except GenerationError String) := do
  match ← storage.readText input with
  | .error e => return .error (.unreadable input e.message)
  | .ok source =>
    match s.generate rules source with
    | .error e => return .error e
    | .ok text =>
      match output with
      | none => return .ok text
      | some path =>
        match ← storage.write path text.toUTF8 with
        | .error e => return .error (.unwritable path e.message)
        | .ok () => return .ok ""

end DefTable
