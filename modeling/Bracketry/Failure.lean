import Bracketry.Fault
import Bracketry.FileTree

/-!
# Failures

Why no answer could be given about a source: it was refused, it could not be read, or something else
went wrong, which is said in words.
-/

namespace Bracketry

/-- Why there is no answer. -/
inductive Failure
  | refused (fault : Fault)
  | unreadable (error : ReadError)
  | other (message : String)

namespace Failure

/-- What is said of a failure. -/
def message : Failure → String
  | refused fault => "Parse error: " ++ fault.message
  | unreadable error => "IO error: " ++ error.message
  | other message => "Generic error: " ++ message

/-- The class of the fault, if a source was refused. -/
def code? : Failure → Option Fault.Code
  | refused fault => some fault.cause.code
  | _ => none

end Failure

end Bracketry
