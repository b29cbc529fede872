import FrameLink.Frame

/-!
# Commands of the echo protocol

A frame of flag 0 asks for its payload back, one of flag 1 says hello with a token, and one of
flag 2 says goodbye.
-/

namespace FrameLink.Echo

inductive Command
  | echo (payload : Bytes)
  | hello (token : Bytes)
  | quit
deriving DecidableEq, Repr

inductive Parsed
  | command (command : Command)
  /-- No frame. -/
  | malformed
  | unknown (flag : UInt8)
deriving DecidableEq, Repr

def echoFlag : UInt8 := 0

def helloFlag : UInt8 := 1

def quitFlag : UInt8 := 2

def parse (bytes : Bytes) : Parsed :=
  match Frame.ofBytes? bytes with
  | none => .malformed
  | some ⟨flag, payload⟩ =>
    if flag = echoFlag then .command (.echo payload)
    else if flag = helloFlag then .command (.hello payload)
    else if flag = quitFlag then .command .quit
    else .unknown flag

def payloadLength (bytes : Bytes) : Nat :=
  bytes.length - headerSize

/-- The reply to a hello whose token is accepted. -/
def welcome : Frame := ⟨helloFlag, "ok".toUTF8.toList⟩

/-- The reply to a hello whose token is not. -/
def denial : Frame := ⟨helloFlag, "denied".toUTF8.toList⟩

end FrameLink.Echo
