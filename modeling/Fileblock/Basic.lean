import Fileblock.Go.Strings

/-! Errors as the driver sees them: failed commands with their exit status,
sentinels that callers test for, and the gRPC statuses an RPC answers with. -/
namespace Fileblock
open Go

def showPath (p : Str) : String := String.ofList p

/-- A failed command: exit status and combined output. -/
structure ExecError where
  exitCode : Int
  output : Str
  deriving DecidableEq

inductive Err where
  | cmd (e : ExecError)
  | sys (text : String)
  | wrongKey
  | notBlank
  | poolExhausted
  | wrap (context : String) (e : Err)
  | join (a b : Err)
  deriving DecidableEq

namespace Err

/-- `errors.Is`. -/
def is (e t : Err) : Bool :=
  e = t || match e with
    | wrap _ e => e.is t
    | join a b => a.is t || b.is t
    | _ => false

def text : Err → String
  | cmd e => "exit " ++ toString e.exitCode ++ ": " ++ String.ofList e.output
  | sys t => t
  | wrongKey => "no supplied key opens the volume"
  | notBlank => "not a LUKS volume and not blank; refusing to format"
  | poolExhausted => "loop device pool exhausted; raise max_loop"
  | wrap c e => c ++ ": " ++ e.text
  | join a b => a.text ++ "\n" ++ b.text

end Err

inductive Code where
  | unknown
  | invalidArgument
  | notFound
  | alreadyExists
  | permissionDenied
  | resourceExhausted
  | failedPrecondition
  | aborted
  | outOfRange
  | internal
  | unavailable
  deriving DecidableEq

structure Status where
  code : Code
  message : String
  deriving DecidableEq

end Fileblock
