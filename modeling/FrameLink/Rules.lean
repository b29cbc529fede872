import FrameLink.Session

/-!
# Handlers by rules

A rule answers the frames of one flag with fixed actions. Frames without a rule are taken notice
of and nothing else.
-/

namespace FrameLink

structure Rule where
  flag : UInt8
  actions : List Action
deriving DecidableEq, Repr

structure Rules where
  rules : List Rule
  onClose : List Action
deriving DecidableEq, Repr

namespace Rules

def actionsFor (r : Rules) (frame : Bytes) : List Action :=
  match frame with
  | _ :: _ :: _ :: flag :: _ => ((r.rules.find? (·.flag == flag)).map Rule.actions).getD []
  | _ => []

def handler (r : Rules) : Handler Unit where
  onFrame _ _ frame := ((), r.actionsFor frame)
  onClose _ _ := ((), r.onClose)

end Rules

end FrameLink
