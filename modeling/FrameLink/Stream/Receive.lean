import FrameLink.Stream.Reader
import FrameLink.TaskError

/-!
# Receiving frames

`receive` hands the frames of a stream to a callback, one after the other, until the callback
wants no more, the stream fails or breaks the protocol, or there is nothing to read for now. What
was read ahead stays in the buffer, so a later call goes on where this one ended.
-/

namespace FrameLink

inductive Receiving.Ending
  | stopped
  | failed (error : TaskError)
  /-- There is nothing to read for now. -/
  | waiting
deriving DecidableEq, Repr

structure Receiving (σ : Type) where
  state : σ
  buffer : Buffer
  reader : Reader
  ending : Receiving.Ending

/-- Hands every frame within the limit to `onFrame` until that answers `false`. -/
def receive {σ : Type} (limit : Nat) (onFrame : σ → Bytes → σ × Bool) (state : σ) (b : Buffer)
    (r : Reader) : Receiving σ :=
  match _h : Frame.scan b.unread limit with
  | .error e => ⟨state, b, r, .failed (.frame e)⟩
  | .ok (.complete length) =>
    match onFrame state (b.unread.take length) with
    | (state, true) => receive limit onFrame state (b.consume length) r
    | (state, false) => ⟨state, b.consume length, r, .stopped⟩
  | .ok (.missing count) =>
    match _hr : r.collect count b with
    | (.enough _, b, r) => receive limit onFrame state b r
    | (.failed e, b, r) => ⟨state, b, r, .failed (.io e)⟩
    | (.waiting, b, r) => ⟨state, b, r, .waiting⟩
termination_by 2 * r.weight + b.unread.length
decreasing_by
  · have hbounds := Frame.scan_complete_bounds _h
    rw [Buffer.length_unread_consume]
    omega
  · have hweight := Reader.collect_weight (Frame.scan_missing_pos _h) _hr
    omega

end FrameLink
