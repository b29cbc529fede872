import FrameLink.Proofs.Frame.Codec
import Mathlib.Data.List.Infix

/-!
# The frames of a byte string

`parse` cuts a whole byte string into frames, greedily and without a buffer. It is the reference
for everything that receives: bytes may arrive in any pieces, the frames are those of `parse`. A
receiver that waits for the bytes that `Frame.scan` misses, and for no more, overlooks no frame and
waits for none in vain: this is `scan_incremental`.
-/

namespace FrameLink

structure Parse where
  frames : List Bytes
  violation : Option FrameError
  rest : Bytes
deriving DecidableEq, Repr

/-- Splits off frames of the length that they announce, up to a length outside the limits or a
frame that is not complete. -/
def parse (limit : Nat) (bytes : Bytes) : Parse :=
  if bytes.length < headerSize then ⟨[], none, bytes⟩
  else
    let length := Bytes.value (bytes.take 3)
    if limit < length then ⟨[], some (.tooLarge length limit), bytes⟩
    else if length < headerSize then ⟨[], some (.tooSmall length), bytes⟩
    else if bytes.length < length then ⟨[], none, bytes⟩
    else
      let behind := parse limit (bytes.drop length)
      { behind with frames := bytes.take length :: behind.frames }
termination_by bytes.length
decreasing_by
  simp only [headerSize, List.length_drop] at *
  omega

example : parse 8 [0, 0, 5, 1, 7, 0, 0, 9, 0] =
    ⟨[[0, 0, 5, 1, 7]], some (.tooLarge 9 8), [0, 0, 9, 0]⟩ := by
  decide +kernel

/-- One whole frame within the limit, and nothing else. -/
def Whole (limit : Nat) (frame : Bytes) : Prop :=
  headerSize ≤ frame.length ∧ frame.length ≤ limit ∧ Frame.announced frame = frame.length

/-! ## One step of a parse -/

theorem parse_missing {bytes : Bytes} {limit n : Nat}
    (h : Frame.scan bytes limit = .ok (.missing n)) : parse limit bytes = ⟨[], none, bytes⟩ := by
  rcases Frame.scan_cases bytes limit with ⟨hshort, _⟩ | ⟨_, _, _, hs⟩ | ⟨hlong, hok, hwait, _⟩ |
    ⟨_, _, _, hs⟩
  · rw [parse, if_pos hshort]
  · rw [hs] at h
    cases h
  · have hbounds := Frame.admitLength_ok hok
    simp only [Frame.announced] at hbounds hwait
    rw [parse, if_neg (by omega)]
    dsimp only
    rw [if_neg (by omega), if_neg (by omega), if_pos hwait]
  · rw [hs] at h
    cases h

theorem parse_error {bytes : Bytes} {limit : Nat} {e : FrameError}
    (h : Frame.scan bytes limit = .error e) : parse limit bytes = ⟨[], some e, bytes⟩ := by
  obtain ⟨hlong, he⟩ := Frame.scan_error h
  rw [parse, if_neg (by omega)]
  dsimp only
  unfold Frame.admitLength Frame.announced at he
  split_ifs at he with hlarge hsmall <;> cases he
  · rw [if_pos hlarge]
  · rw [if_neg hlarge, if_pos hsmall]

theorem parse_complete {bytes : Bytes} {limit n : Nat}
    (h : Frame.scan bytes limit = .ok (.complete n)) :
    parse limit bytes = { parse limit (bytes.drop n) with
      frames := bytes.take n :: (parse limit (bytes.drop n)).frames } := by
  obtain ⟨hlow, hhigh, hpresent, hn⟩ := Frame.scan_complete h
  unfold Frame.announced at hn
  rw [parse, if_neg (by omega)]
  dsimp only
  rw [hn, if_neg (by omega), if_neg (by omega), if_neg (by omega)]

/-! ## Whole frames -/

theorem scan_whole {limit : Nat} {frame : Bytes} (h : Whole limit frame) :
    Frame.scan frame limit = .ok (.complete frame.length) := by
  obtain ⟨hlow, hhigh, hlength⟩ := h
  rw [Frame.scan_long limit hlow, hlength, Frame.admitLength_of_le hlow hhigh]
  simp [Except.map]

theorem take_whole {bytes : Bytes} {limit n : Nat}
    (h : Frame.scan bytes limit = .ok (.complete n)) : Whole limit (bytes.take n) := by
  obtain ⟨hlow, hhigh, hpresent, hn⟩ := Frame.scan_complete h
  have hlength : (bytes.take n).length = n := by
    rw [List.length_take, Nat.min_eq_left hpresent]
  have hannounced : Frame.announced (bytes.take n ++ bytes.drop n) =
      Frame.announced (bytes.take n) := Frame.announced_append _ (by omega)
  rw [List.take_append_drop] at hannounced
  exact ⟨by omega, by omega, by rw [hlength, ← hannounced, hn]⟩

theorem Whole.mono {limit larger : Nat} {frame : Bytes} (h : Whole limit frame)
    (hle : limit ≤ larger) : Whole larger frame :=
  ⟨h.1, h.2.1.trans hle, h.2.2⟩

theorem whole_toBytes {f : Frame} {limit : Nat} (h : f.length ≤ min limit largestLength) :
    Whole limit f.toBytes := by
  have hlow : headerSize ≤ f.length := Nat.le_add_right _ _
  rw [Whole, Frame.length_toBytes, Frame.announced_toBytes (by omega)]
  exact ⟨hlow, by omega, rfl⟩

theorem parse_whole_append {limit : Nat} {frame : Bytes} (h : Whole limit frame)
    (bytes : Bytes) :
    parse limit (frame ++ bytes) =
      { parse limit bytes with frames := frame :: (parse limit bytes).frames } := by
  have hscan : Frame.scan (frame ++ bytes) limit = .ok (.complete frame.length) := by
    rw [Frame.scan_append bytes (by simp [scan_whole h]), scan_whole h]
  rw [parse_complete hscan, List.drop_left, List.take_left]

theorem parse_flatten_append {limit : Nat} {frames : List Bytes}
    (h : ∀ f ∈ frames, Whole limit f) (bytes : Bytes) :
    parse limit (frames.flatten ++ bytes) =
      { parse limit bytes with frames := frames ++ (parse limit bytes).frames } := by
  induction frames with
  | nil => rfl
  | cons frame frames ih =>
    have hframes : ∀ f ∈ frames, Whole limit f := fun f hf => h f (by simp [hf])
    rw [List.flatten_cons, List.append_assoc, parse_whole_append (h frame (by simp)), ih hframes]
    rfl

theorem parse_nil (limit : Nat) : parse limit [] = ⟨[], none, []⟩ :=
  parse_missing (Frame.scan_short limit (by simp [headerSize]))

theorem prefix_parse {limit : Nat} {frames : List Bytes} {bytes : Bytes}
    (h : ∀ f ∈ frames, Whole limit f) (hbytes : frames.flatten <+: bytes) :
    frames <+: (parse limit bytes).frames := by
  obtain ⟨rest, rfl⟩ := hbytes
  rw [parse_flatten_append h]
  exact List.prefix_append _ _

/-! ## Frames that are still arriving -/

section

variable {bytes more frame : Bytes} {limit n : Nat}

theorem Whole.le_length_of_prefix (hwhole : Whole limit frame) (hfront : bytes <+: frame)
    (hscan : Frame.scan bytes limit = .ok (.missing n)) : bytes.length + n ≤ frame.length := by
  obtain ⟨more, rfl⟩ := hfront
  rw [List.length_append]
  by_contra hshort
  have hstill := Frame.scan_append_missing more hscan (by omega)
  rw [scan_whole hwhole] at hstill
  cases hstill

theorem Whole.not_prefix (hwhole : Whole limit frame)
    (hscan : Frame.scan bytes limit = .ok (.missing n)) : ¬frame <+: bytes := by
  rintro ⟨rest, rfl⟩
  have hfound : Frame.scan (frame ++ rest) limit = Frame.scan frame limit :=
    Frame.scan_append rest (by simp [scan_whole hwhole])
  rw [hscan, scan_whole hwhole] at hfound
  cases hfound

/-- What is missing ends the header, or else the frame. -/
theorem scan_append_of_missing (hscan : Frame.scan bytes limit = .ok (.missing n))
    (hmore : more.length = n) :
    bytes.length + n = headerSize ∨
      Frame.scan (bytes ++ more) limit = .ok (.complete (bytes.length + n)) := by
  rcases Frame.scan_cases bytes limit with ⟨hshort, hs⟩ | ⟨_, _, _, hs⟩ | ⟨hlong, hok, hwait, hs⟩ |
    ⟨_, _, _, hs⟩ <;> rw [hs] at hscan <;> cases hscan
  · exact .inl (by omega)
  · have hlength : bytes.length + (Frame.announced bytes - bytes.length) =
        Frame.announced bytes := by omega
    have hwhole : (bytes ++ more).length = Frame.announced bytes := by
      rw [List.length_append, hmore, hlength]
    refine .inr ?_
    rw [hlength, Frame.scan_long limit (by omega), Frame.announced_append more hlong, hok, hwhole]
    simp [Except.map]

end

/-- A scan is incremental. A frame that is complete, or in error, is so whatever comes behind it.
What is missing is missing until all of it is there, and it is never more than the frame needs: no
whole frame has been overlooked by then, the header or the frame is complete with it, and each whole
frame that begins with these bytes has it. -/
theorem scan_incremental (bytes : Bytes) (limit : Nat) :
    match Frame.scan bytes limit with
    | .ok (.missing n) =>
      1 ≤ n ∧ bytes.length + n ≤ max headerSize limit ∧
        (∀ more, more.length < n →
          Frame.scan (bytes ++ more) limit = .ok (.missing (n - more.length)) ∧
            ∀ frame, Whole limit frame → ¬frame <+: bytes ++ more) ∧
        (∀ more, more.length = n → bytes.length + n = headerSize ∨
          Frame.scan (bytes ++ more) limit = .ok (.complete (bytes.length + n))) ∧
        ∀ frame, Whole limit frame → bytes <+: frame → bytes.length + n ≤ frame.length
    | found => ∀ more, Frame.scan (bytes ++ more) limit = found := by
  split
  · rename_i n hscan
    refine ⟨Frame.scan_missing_pos hscan, Frame.scan_missing_le hscan, fun more hmore => ?_,
      fun more hmore => scan_append_of_missing hscan hmore,
      fun frame hwhole hfront => hwhole.le_length_of_prefix hfront hscan⟩
    have hstill := Frame.scan_append_missing more hscan hmore
    exact ⟨hstill, fun frame hwhole => hwhole.not_prefix hstill⟩
  · rename_i found hfound
    intro more
    exact Frame.scan_append more hfound

end FrameLink
