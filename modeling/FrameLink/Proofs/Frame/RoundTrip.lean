import FrameLink.Proofs.Frame.Parse

/-!
# Frames and byte strings, one to one

The bytes of a frame within the length field are read back as that frame, and a byte string that is
read as a frame is what the frame is written as. `ofBytes?_eq_some_iff` says both, and
`codec_bijective` what that means for the encoder, the scan of arriving bytes and whole streams.
-/

namespace FrameLink.Bytes

theorem foldl_value (bytes : Bytes) (m : Nat) :
    bytes.foldl (fun n b => 256 * n + b.toNat) m = m * 256 ^ bytes.length + value bytes := by
  induction bytes generalizing m with
  | nil => simp [value]
  | cons b bytes ih =>
    rw [value, List.foldl_cons, List.foldl_cons, ih, ih (256 * 0 + b.toNat), List.length_cons,
      pow_succ]
    ring

theorem value_cons (b : UInt8) (bytes : Bytes) :
    value (b :: bytes) = b.toNat * 256 ^ bytes.length + value bytes := by
  rw [value, List.foldl_cons, foldl_value, Nat.mul_zero, Nat.zero_add]

theorem value_lt (bytes : Bytes) : value bytes < 256 ^ bytes.length := by
  induction bytes with
  | nil => simp [value]
  | cons b bytes ih =>
    have hb := b.toNat_lt
    rw [value_cons, List.length_cons, pow_succ]
    calc b.toNat * 256 ^ bytes.length + value bytes
        < b.toNat * 256 ^ bytes.length + 256 ^ bytes.length := Nat.add_lt_add_left ih _
      _ = (b.toNat + 1) * 256 ^ bytes.length := by ring
      _ ≤ 256 * 256 ^ bytes.length := Nat.mul_le_mul_right _ hb
      _ = 256 ^ bytes.length * 256 := Nat.mul_comm _ _

theorem digits_add_mul (width n front : Nat) :
    digits width (front * 256 ^ width + n) = digits width n := by
  induction width generalizing front with
  | zero => rfl
  | succ width ih =>
    have hfront : front * 256 ^ (width + 1) = front * 256 * 256 ^ width := by ring
    have hdiv : (front * 256 * 256 ^ width + n) / 256 ^ width = n / 256 ^ width + 256 * front := by
      rw [Nat.mul_comm (front * 256), Nat.mul_add_div (Nat.pow_pos (by decide))]
      ring
    rw [digits, digits, span_eq, hfront, ih, hdiv, UInt8.ofNat_add, UInt8.ofNat_mul]
    simp

theorem digits_value (bytes : Bytes) : digits bytes.length (value bytes) = bytes := by
  induction bytes with
  | nil => rfl
  | cons b bytes ih =>
    have hdiv : (b.toNat * 256 ^ bytes.length + value bytes) / 256 ^ bytes.length = b.toNat := by
      rw [Nat.mul_comm, Nat.mul_add_div (Nat.pow_pos (by decide)),
        Nat.div_eq_of_lt (value_lt bytes), Nat.add_zero]
    rw [List.length_cons, digits, span_eq, value_cons, hdiv, digits_add_mul, ih, UInt8.ofNat_toNat]

end FrameLink.Bytes

namespace FrameLink.Frame

theorem announcedLength?_eq {bytes : Bytes} (h : headerSize ≤ bytes.length) :
    announcedLength? bytes = some (announced bytes) := by
  match bytes with
  | [] | [_] | [_, _] => simp [headerSize] at h
  | _ :: _ :: _ :: _ => rfl

theorem ofBytes?_eq_some_iff {bytes : Bytes} {f : Frame} :
    ofBytes? bytes = some f ↔ f.length ≤ largestLength ∧ bytes = f.toBytes := by
  constructor
  · intro h
    rcases bytes with _ | ⟨a, _ | ⟨b, _ | ⟨c, _ | ⟨flag, payload⟩⟩⟩⟩
    · cases h
    · cases h
    · cases h
    · cases h
    · obtain ⟨hvalue, hf⟩ := Option.ite_none_right_eq_some.mp h
      cases hf
      have hlength : (⟨flag, payload⟩ : Frame).length = Bytes.value [a, b, c] := by
        rw [hvalue]
        simp only [length, headerSize, List.length_cons]
        omega
      have hlt : Bytes.value [a, b, c] < 256 ^ 3 := Bytes.value_lt [a, b, c]
      have hdigits : Bytes.digits 3 (Bytes.value [a, b, c]) = [a, b, c] :=
        Bytes.digits_value [a, b, c]
      refine ⟨?_, ?_⟩
      · simp only [largestLength]
        omega
      · rw [toBytes, hlength, hdigits]
        rfl
  · rintro ⟨hhigh, rfl⟩
    have hvalue : announced f.toBytes = f.toBytes.length :=
      (announced_toBytes hhigh).trans (length_toBytes f).symm
    exact if_pos hvalue

end FrameLink.Frame

namespace FrameLink

/-- A whole frame has a flag and a payload, and could be sent as it came. -/
theorem Whole.ofBytes? {limit : Nat} {frame : Bytes} (hwhole : Whole limit frame) :
    ∃ f : Frame, (∃ a b c, frame = a :: b :: c :: f.flag :: f.payload) ∧
      Frame.ofBytes? frame = some f ∧ f.length ≤ min limit largestLength := by
  obtain ⟨hlow, hhigh, hlength⟩ := hwhole
  match frame with
  | [] | [_] | [_, _] | [_, _, _] => simp [headerSize] at hlow
  | a :: b :: c :: flag :: payload =>
    have hvalue : Bytes.value [a, b, c] = (a :: b :: c :: flag :: payload).length := hlength
    have hread : Frame.ofBytes? (a :: b :: c :: flag :: payload) = some ⟨flag, payload⟩ :=
      if_pos hvalue
    obtain ⟨hfield, hbytes⟩ := Frame.ofBytes?_eq_some_iff.mp hread
    rw [hbytes, Frame.length_toBytes] at hhigh
    exact ⟨⟨flag, payload⟩, ⟨a, b, c, rfl⟩, hread, Nat.le_min.mpr ⟨hhigh, hfield⟩⟩

theorem whole_of_isSome {bytes : Bytes} (h : (Frame.ofBytes? bytes).isSome = true) :
    Whole largestLength bytes := by
  obtain ⟨f, hf⟩ := Option.isSome_iff_exists.mp h
  obtain ⟨hlength, rfl⟩ := Frame.ofBytes?_eq_some_iff.mp hf
  exact whole_toBytes (Nat.le_min.mpr ⟨hlength, hlength⟩)

theorem parse_flatten {limit : Nat} {frames : List Bytes} (h : ∀ b ∈ frames, Whole limit b) :
    parse limit frames.flatten = ⟨frames, none, []⟩ := by
  have hflat := parse_flatten_append h []
  rwa [parse_nil, List.append_nil, List.append_nil] at hflat

theorem frames_eq_of_flatten_eq {frames others : List Bytes}
    (hframes : ∀ b ∈ frames, (Frame.ofBytes? b).isSome = true)
    (hothers : ∀ b ∈ others, (Frame.ofBytes? b).isSome = true)
    (hflat : frames.flatten = others.flatten) : frames = others := by
  -- the length field bounds the frames of both, so one parse finds them all
  have hparse := parse_flatten fun b hb => whole_of_isSome (hframes b hb)
  rw [hflat, parse_flatten fun b hb => whole_of_isSome (hothers b hb)] at hparse
  exact (congrArg Parse.frames hparse).symm

namespace Frame

theorem encode_of_lt {f : Frame} {limit : Nat} (h : min limit largestLength < f.length) :
    f.encode limit = .error (.tooLarge f.length (min limit largestLength)) := by
  rw [encode, admitLength, if_pos h]
  rfl

theorem scan_toBytes_append {f : Frame} {larger : Nat} (hlength : f.length ≤ largestLength)
    (hlarger : f.length ≤ larger) (rest : Bytes) :
    scan (f.toBytes ++ rest) larger = .ok (.complete f.length) := by
  have hscan := scan_whole (whole_toBytes (Nat.le_min.mpr ⟨hlarger, hlength⟩))
  rw [length_toBytes] at hscan
  rw [scan_append rest (by simp [hscan]), hscan]

/-- Frames within the limits, and the byte strings that are read as frames, are one to one: what the
encoder writes is announced, scanned and read as the frame it was, whatever comes behind it, and
nothing else is read as a frame. So a stream is the concatenation of only one list of frames. -/
theorem codec_bijective :
    (∀ (f : Frame) (limit : Nat),
      if headerSize + f.payload.length ≤ min limit largestLength then
        ∃ bytes, f.encode limit = .ok bytes ∧ ofBytes? bytes = some f ∧
          announcedLength? bytes = some bytes.length ∧
          ∀ rest larger, bytes.length ≤ larger →
            scan (bytes ++ rest) larger = .ok (.complete bytes.length)
      else
        f.encode limit =
          .error (.tooLarge (headerSize + f.payload.length) (min limit largestLength))) ∧
    (∀ (bytes : Bytes) (f : Frame) (limit : Nat),
      ofBytes? bytes = some f → bytes.length ≤ limit → f.encode limit = .ok bytes) ∧
    (∀ (bytes : Bytes) (limit n : Nat),
      scan bytes limit = .ok (.complete n) → (ofBytes? (bytes.take n)).isSome = true) ∧
    ∀ frames others : List Bytes,
      (∀ b ∈ frames, (ofBytes? b).isSome = true) → (∀ b ∈ others, (ofBytes? b).isSome = true) →
        frames.flatten = others.flatten → frames = others := by
  refine ⟨fun f limit => ?_, fun bytes f limit hread hlimit => ?_, fun bytes limit n hscan => ?_,
    fun frames others => frames_eq_of_flatten_eq⟩
  · show if f.length ≤ _ then _ else f.encode limit = .error (.tooLarge f.length _)
    split_ifs with hfits
    · have hlength : f.length ≤ largestLength := hfits.trans (Nat.min_le_right ..)
      have hlow : headerSize ≤ f.toBytes.length := by
        rw [length_toBytes]
        exact Nat.le_add_right _ _
      refine ⟨f.toBytes, encode_eq_ok_iff.mpr ⟨hfits, rfl⟩,
        ofBytes?_eq_some_iff.mpr ⟨hlength, rfl⟩, ?_, fun rest larger hlarger => ?_⟩
      · rw [announcedLength?_eq hlow, announced_toBytes hlength, length_toBytes]
      · rw [length_toBytes] at hlarger ⊢
        exact scan_toBytes_append hlength hlarger rest
    · exact encode_of_lt (Nat.lt_of_not_le hfits)
  · obtain ⟨hlength, rfl⟩ := ofBytes?_eq_some_iff.mp hread
    rw [length_toBytes] at hlimit
    exact encode_eq_ok_iff.mpr ⟨Nat.le_min.mpr ⟨hlimit, hlength⟩, rfl⟩
  · obtain ⟨f, _, hread, _⟩ := (take_whole hscan).ofBytes?
    rw [hread]
    rfl

end Frame

end FrameLink
