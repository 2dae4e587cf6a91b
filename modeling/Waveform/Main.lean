import Waveform.CommandLine.Tool

/-!
# The program

The inputs that a request names are opened, and the answer is written to the standard streams.
-/

namespace Waveform.CommandLine

/-- The code with which a system refuses to read a folder. -/
def folderCode : UInt32 := 21

/-- Open what there is at a path. -/
def openInput (path : String) : IO (Except OpenFault Place) :=
  try
    return .ok (.file (← IO.FS.readBinFile path).toList)
  catch
    | .inappropriateType _ code _ =>
        return if code = folderCode then .ok .folder else .error .notFolder
    | .invalidArgument _ _ _ => return .error .nameTooLong
    | _ => return .error .missing

end Waveform.CommandLine

open Waveform.CommandLine in
/-- Answer the words of the command line and end with the answer's code. -/
def main (words : List String) : IO UInt32 := do
  let inputs := ((Request.ofWords? words).map Request.inputs).getD []
  let opened ← inputs.mapM fun path => return (path, ← openInput path)
  let outcome := run (fun path => (opened.lookup path).getD (.error .missing)) words
  (← IO.getStdout).putStr outcome.output
  (← IO.getStderr).putStr outcome.complaint
  return UInt32.ofNat outcome.code
