import Caret.Demo

/-!
The demonstration as a program: file access and printing around `Demo.session`.
-/

namespace Caret.Demo

def readText (path : String) : IO Content := do
  try
    return Content.ofBytes (← IO.FS.readBinFile path)
  catch failure =>
    return .error (match failure with
      | .noFileOrDirectory .. => .missing
      | .inappropriateType none .. => .directory
      | .inappropriateType .. => .notDirectory
      | .invalidArgument .. => .nameTooLong
      | other => .other (toString other))

def print : Output → IO Unit
  | .standard text => IO.print text
  | .error text => IO.eprint text

end Caret.Demo

open Caret Demo in
def main (arguments : List String) : IO UInt32 := do
  let texts ← (pathsOf arguments).mapM readText
  let session := session arguments texts
  session.outputs.forM print
  return session.code
