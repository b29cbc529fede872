import FrameLink.Frame
import FrameLink.IoError

/-!
# Why a connection loop ends
-/

namespace FrameLink

/-- The failures that end the loops of a connection. -/
inductive TaskError
  | io (error : IoError)
  | frame (error : FrameError)
  | verifyTimeout
deriving DecidableEq, Repr

namespace TaskError

def message : TaskError → String
  | .io e => "I/O error: " ++ e.message
  | .frame e => "protocol violation: " ++ e.message
  | .verifyTimeout => "verification timed out"

def source? : TaskError → Option String
  | .io e => some e.message
  | .frame e => some e.message
  | .verifyTimeout => none

end TaskError

end FrameLink
