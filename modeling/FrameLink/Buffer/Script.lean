import FrameLink.Buffer

/-!
# Buffer scripts

The operations of a buffer as data, the reply each of them gives, and the run of a list of them.
A faulty operation replies with its fault and leaves the buffer as it was.
-/

namespace FrameLink.Buffer

inductive Step
  | append (bytes : Bytes)
  | fill (bytes : Bytes)
  | advanceWriter (n : Nat)
  | grow (n : Nat)
  | freeBytes
  | freeSize
  | unreadBytes
  | peek (n : Nat)
  | hasUnread
  | unreadSize
  | consume (n : Nat)
  | reset
  | prepend (bytes : Bytes)
  | storeSize
  | describe
  | readBytes (n : Nat)
  | readUnsigned (n : Nat)
  | readSigned (n : Nat)
  | readReversed (n : Nat)
  /-- Keeps a copy of the buffer as the spare one. -/
  | save
  /-- Exchanges the buffer with the spare one, if there is one. -/
  | swap
deriving DecidableEq, Repr

inductive Reply
  | done
  | flag (value : Bool)
  | number (value : Int)
  | bytes (value : Bytes)
  | missing
  | text (value : String)
  | fault (cause : Fault)
deriving DecidableEq, Repr

/-- A buffer and the copy of one that was put aside. -/
structure Bench where
  buffer : Buffer
  spare : Option Buffer
deriving DecidableEq, Repr

namespace Bench

def settle (w : Bench) (outcome : Except Fault (Reply × Buffer)) : Reply × Bench :=
  match outcome with
  | .ok (reply, b) => (reply, { w with buffer := b })
  | .error cause => (.fault cause, w)

def step (w : Bench) : Step → Reply × Bench
  | .append bytes => w.settle ((w.buffer.appendBy bytes).map (.done, ·))
  | .fill bytes => w.settle ((w.buffer.fillFree bytes).map (.done, ·))
  | .advanceWriter n => w.settle ((w.buffer.advanceWriter n).map (.done, ·))
  | .grow n => w.settle ((w.buffer.growBy n).map (.done, ·))
  | .freeBytes => (.bytes w.buffer.free, w)
  | .freeSize => (.number w.buffer.freeSize, w)
  | .unreadBytes => (.bytes w.buffer.unread, w)
  | .peek n =>
    w.settle ((w.buffer.peek n).map fun found => (found.elim .missing .bytes, w.buffer))
  | .hasUnread => (.flag (decide (w.buffer.readCursor < w.buffer.writeCursor)), w)
  | .unreadSize => (.number w.buffer.unreadSize, w)
  | .consume n => (.done, { w with buffer := w.buffer.consume n })
  | .reset => (.done, { w with buffer := w.buffer.reset })
  | .prepend bytes =>
    match w.buffer.prepend? bytes with
    | some b => (.flag true, { w with buffer := b })
    | none => (.flag false, w)
  | .storeSize => (.number w.buffer.size, w)
  | .describe => (.text w.buffer.describe, w)
  | .readBytes n => w.settle ((w.buffer.read n).map fun (bytes, b) => (.bytes bytes, b))
  | .readUnsigned n => w.settle ((w.buffer.readUnsigned n).map fun (v, b) => (.number v, b))
  | .readSigned n => w.settle ((w.buffer.readSigned n).map fun (v, b) => (.number v, b))
  | .readReversed n => w.settle ((w.buffer.readReversed n).map fun (v, b) => (.number v, b))
  | .save => (.done, { w with spare := some w.buffer })
  | .swap =>
    match w.spare with
    | some b => (.done, ⟨b, some w.buffer⟩)
    | none => (.done, w)

end Bench

end FrameLink.Buffer
