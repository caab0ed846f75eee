import Caret.Folder
import Caret.Json.Document

/-!
The demonstration on the command line. It reads the files that it is given, or samples of its own, and reports for each
the value or what is wrong; `--strict` anywhere makes repeated names an error.
-/

namespace Caret.Demo

inductive Output where
  | standard (text : String)
  | error (text : String)
deriving DecidableEq, Repr

def Output.standard? : Output → Option String
  | standard text => some text
  | error _ => none

def Output.error? : Output → Option String
  | standard _ => none
  | error text => some text

structure Session where
  outputs : List Output
  succeeds : Bool

namespace Session

def stdout (session : Session) : String :=
  String.join (session.outputs.filterMap Output.standard?)

def stderr (session : Session) : String :=
  String.join (session.outputs.filterMap Output.error?)

def code (session : Session) : UInt32 :=
  if session.succeeds then 0 else 1

end Session

def samples : List String :=
  ["\x7b
    \"name\" : \"Scott\",
    \"isMale\" : true,
    \"bday\" : \x7b\"year\":2001, \"month\":12, \"day\":25 \x7d,
    \"favouriteColors\" : [\"blue\", \"green\"],
    \"emptyArray\" : [],
    \"emptyObject\" : \x7b\x7d
\x7d",
    "\x7b\"widget\": \x7b\"debug\": \"on\", \"window\": \x7b\"title\": \"Sample ☺ Widget\", \"width\": 500\x7d\x7d\x7d",
    "[ 1, 2, ]",
    "\x7b \"a\": 1, \"a\": 2 \x7d",
    "-123.45e2"]

def report (name : String) (result : Except Json.Error Json) : String :=
  let body := match result with
    | .ok value => value.text
    | .error error => error.message
  s!"输入: {name}\n{body}\n" ++ String.ofList (List.replicate 50 '=') ++ "\n"

def isOk (result : Except Json.Error Json) : Bool :=
  match result with
  | .ok _ => true
  | .error _ => false

def visit (options : Json.Options) (path : String) : Content → Output × Bool
  | .ok text =>
    let result := Json.parse text options
    (.standard (report path result), isOk result)
  | .error error => (.error s!"无法读取 {path}: {error.message}\n", false)

def showSamples (options : Json.Options) : List Output :=
  .standard "=== JSON 解析示例 ===\n\n"
    :: samples.map fun sample => .standard (report (shown sample) (Json.parse sample options))

def optionsOf (arguments : List String) : Json.Options :=
  if "--strict" ∈ arguments then { duplicateKeys := .reject } else {}

def pathsOf (arguments : List String) : List String :=
  arguments.filter (· != "--strict")

def session (arguments : List String) (texts : List (Content)) : Session :=
  let options := optionsOf arguments
  match pathsOf arguments with
  | [] => ⟨showSamples options, true⟩
  | paths =>
    let visits := (paths.zip texts).map fun (path, text) => visit options path text
    ⟨visits.map Prod.fst, visits.all Prod.snd⟩

def sessionIn (folder : Folder) (arguments : List String) : Session :=
  session arguments ((pathsOf arguments).map folder.read)

end Caret.Demo
