import DefTable.CommandLine
import DefTable.Target.Grammar

/-!
# The program

The command line over the files of the system, with the rules that it has for the generated file.
-/

namespace DefTable

/-- The error with a number, which some calls give as a negative one, and the words of the system for it. -/
def FileError.ofCode (code : UInt32) (reason : String) : FileError :=
  match min code (0 - code) with
  | 2 => .notFound
  | 20 => .notDirectory
  | 21 => .isDirectory
  | 36 => .nameTooLong
  | n => .other (reason ++ " (os error " ++ toString n ++ ")")

def FileError.ofSystem (e : IO.Error) : FileError :=
  match e with
  | .noFileOrDirectory _ code reason => FileError.ofCode code reason
  | .inappropriateType _ code reason => FileError.ofCode code reason
  | .permissionDenied _ code reason => FileError.ofCode code reason
  | .invalidArgument _ code reason => FileError.ofCode code reason
  | .resourceExhausted _ code reason => FileError.ofCode code reason
  | e => .other (toString e)

def systemStorage : Storage IO where
  read path := do
    try
      let content ← IO.FS.readBinFile path
      return .ok content
    catch e => return .error (FileError.ofSystem e)
  write path content := do
    try
      IO.FS.writeBinFile path content
      return .ok ()
    catch e => return .error (FileError.ofSystem e)

end DefTable

def main (arguments : List String) : IO UInt32 := do
  let answer ←
    DefTable.CommandLine.execute DefTable.CommandLine.read DefTable.Target.rules DefTable.systemStorage arguments
  IO.print answer.output
  IO.eprint answer.errors
  return answer.status.toUInt32
