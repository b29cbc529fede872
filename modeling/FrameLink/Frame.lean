import FrameLink.Bytes

/-!
# Frames

A frame on the wire is its own total length in three bytes, most significant first, then one flag
byte, then the payload. Lengths below the header size or above the limit of the receiver are
violations of the protocol.

`Frame.toBytes` and `Frame.ofBytes?` go between frames and their bytes, `encode` is the first of
them under a limit, and `scan` looks for a frame at the front of bytes still arriving.
-/

namespace FrameLink

/-- Three length bytes and one flag byte. -/
def headerSize : Nat := 4

/-- The limit on the total length of a frame where no other is set. -/
def defaultFrameLimit : Nat := 131072

def largestLength : Nat := 0xffffff

inductive FrameError
  | tooLarge (length limit : Nat)
  | tooSmall (length : Nat)
deriving DecidableEq, Repr

def FrameError.message : FrameError → String
  | .tooLarge length limit =>
    "frame length " ++ toString length ++ " exceeds maximum " ++ toString limit
  | .tooSmall length =>
    "frame length " ++ toString length ++ " is below header size " ++ toString headerSize

structure Frame where
  flag : UInt8
  payload : Bytes
deriving DecidableEq, Repr

namespace Frame

/-- The total length of a frame, header included. -/
def length (f : Frame) : Nat :=
  headerSize + f.payload.length

def announcedLength? (bytes : Bytes) : Option Nat :=
  match bytes with
  | a :: b :: c :: _ => some (Bytes.value [a, b, c])
  | _ => none

/-- Accepts the lengths from the header size to the limit. -/
def admitLength (length limit : Nat) : Except FrameError Unit :=
  if limit < length then .error (.tooLarge length limit)
  else if length < headerSize then .error (.tooSmall length)
  else .ok ()

def toBytes (f : Frame) : Bytes :=
  Bytes.digits 3 f.length ++ f.flag :: f.payload

def encode (f : Frame) (limit : Nat) : Except FrameError Bytes :=
  (admitLength f.length (min limit largestLength)).map fun _ => f.toBytes

def ofBytes? (bytes : Bytes) : Option Frame :=
  match bytes with
  | a :: b :: c :: flag :: payload =>
    if Bytes.value [a, b, c] = bytes.length then some ⟨flag, payload⟩ else none
  | _ => none

inductive Scan
  /-- A whole frame of this length. -/
  | complete (length : Nat)
  /-- Less than a frame, or than a header, by this many bytes. -/
  | missing (count : Nat)
deriving DecidableEq, Repr

def scan (bytes : Bytes) (limit : Nat) : Except FrameError Scan :=
  match bytes with
  | a :: b :: c :: _ :: _ =>
    let length := Bytes.value [a, b, c]
    match admitLength length limit with
    | .error e => .error e
    | .ok _ =>
      let present := bytes.length
      .ok (if present < length then .missing (length - present) else .complete length)
  | _ => .ok (.missing (headerSize - bytes.length))

theorem scan_complete_bounds {bytes : Bytes} {limit n : Nat}
    (h : scan bytes limit = .ok (.complete n)) : 0 < n ∧ n ≤ bytes.length := by
  unfold scan at h
  split at h
  · dsimp only at h
    split at h
    · simp at h
    · rename_i hcheck
      unfold admitLength at hcheck
      split at hcheck
      · simp at hcheck
      · split at hcheck
        · simp at hcheck
        · simp only [headerSize] at *
          split at h <;> simp_all
          omega
  · simp at h

theorem scan_missing_pos {bytes : Bytes} {limit n : Nat}
    (h : scan bytes limit = .ok (.missing n)) : 0 < n := by
  unfold scan at h
  split at h
  · dsimp only at h
    split at h
    · simp at h
    · split at h <;> simp_all
      omega
  · rename_i hshort
    simp only [headerSize, Except.ok.injEq, Scan.missing.injEq] at h
    match bytes, hshort with
    | [], _ => simp at h; omega
    | [_], _ => simp at h; omega
    | [_, _], _ => simp at h; omega
    | [_, _, _], _ => simp at h; omega
    | a :: b :: c :: d :: rest, hshort => exact absurd rfl (hshort a b c d rest)

end Frame

end FrameLink
