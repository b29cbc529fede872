import FrameLink.Frame
import Mathlib.Data.Nat.Basic
import Mathlib.Tactic.Ring

/-!
# Frames and their bytes

Digits spell the number they were made from, so the bytes of a frame announce their own length.
`scan_cases` says all that `scan` can find, and the laws below it say how that changes when more
bytes arrive.
-/

namespace FrameLink.Bytes

theorem length_digits (width n : Nat) : (digits width n).length = width := by
  induction width with
  | zero => rfl
  | succ width ih => simp [digits, ih]

theorem span_eq (width : Nat) : span width = 256 ^ width := by
  rw [span, Nat.shiftLeft_eq, Nat.one_mul, Nat.pow_mul]

theorem foldl_digits (width n m : Nat) :
    (digits width n).foldl (fun n b => 256 * n + b.toNat) m =
      256 ^ width * m + n % 256 ^ width := by
  -- each digit multiplies what is in front of it, so the number in front has to be general
  induction width generalizing m with
  | zero => simp [digits, Nat.mod_one]
  | succ width ih =>
    have hdigit : (UInt8.ofNat (n / 256 ^ width)).toNat = n / 256 ^ width % 256 := by
      simp [UInt8.toNat_ofNat']
    simp only [digits, span_eq, List.foldl_cons, ih, hdigit]
    rw [pow_succ, Nat.mod_mul]
    ring

theorem value_digits {width n : Nat} (h : n < 256 ^ width) : value (digits width n) = n := by
  rw [value, foldl_digits, Nat.mul_zero, Nat.zero_add, Nat.mod_eq_of_lt h]

end FrameLink.Bytes

namespace FrameLink.Frame

def announced (bytes : Bytes) : Nat :=
  Bytes.value (bytes.take 3)

theorem announced_append {bytes : Bytes} (more : Bytes) (h : headerSize ≤ bytes.length) :
    announced (bytes ++ more) = announced bytes := by
  have h3 : 3 ≤ bytes.length := by
    simp only [headerSize] at h
    omega
  rw [announced, List.take_append_of_le_length h3, announced]

/-! ## Scanning -/

theorem scan_short {bytes : Bytes} (limit : Nat) (h : bytes.length < headerSize) :
    scan bytes limit = .ok (.missing (headerSize - bytes.length)) := by
  match bytes with
  | [] | [_] | [_, _] | [_, _, _] => rfl
  | _ :: _ :: _ :: _ :: rest =>
    simp only [List.length_cons, headerSize] at h
    omega

theorem scan_long {bytes : Bytes} (limit : Nat) (h : headerSize ≤ bytes.length) :
    scan bytes limit = (admitLength (announced bytes) limit).map fun _ =>
      if bytes.length < announced bytes then .missing (announced bytes - bytes.length)
      else .complete (announced bytes) := by
  match bytes with
  | [] | [_] | [_, _] | [_, _, _] => simp [headerSize] at h
  | a :: b :: c :: d :: rest =>
    simp only [scan, announced, List.take_succ_cons, List.take_zero]
    cases admitLength (Bytes.value [a, b, c]) limit <;> rfl

theorem admitLength_ok {length limit : Nat} {u : Unit} (h : admitLength length limit = .ok u) :
    headerSize ≤ length ∧ length ≤ limit := by
  unfold admitLength at h
  split_ifs at h
  omega

theorem admitLength_of_le {length limit : Nat} (hlow : headerSize ≤ length)
    (hhigh : length ≤ limit) : admitLength length limit = .ok () := by
  rw [admitLength, if_neg (by omega), if_neg (by omega)]

theorem scan_cases (bytes : Bytes) (limit : Nat) :
    (bytes.length < headerSize ∧ scan bytes limit = .ok (.missing (headerSize - bytes.length))) ∨
    (headerSize ≤ bytes.length ∧ ∃ e, admitLength (announced bytes) limit = .error e ∧
      scan bytes limit = .error e) ∨
    (headerSize ≤ bytes.length ∧ admitLength (announced bytes) limit = .ok () ∧
      bytes.length < announced bytes ∧
      scan bytes limit = .ok (.missing (announced bytes - bytes.length))) ∨
    (headerSize ≤ bytes.length ∧ admitLength (announced bytes) limit = .ok () ∧
      announced bytes ≤ bytes.length ∧ scan bytes limit = .ok (.complete (announced bytes))) := by
  rcases Nat.lt_or_ge bytes.length headerSize with hshort | hlong
  · exact Or.inl ⟨hshort, scan_short limit hshort⟩
  · rw [scan_long limit hlong]
    cases hadmit : admitLength (announced bytes) limit with
    | error e => exact Or.inr (Or.inl ⟨hlong, e, rfl, rfl⟩)
    | ok u =>
      rcases Nat.lt_or_ge bytes.length (announced bytes) with hwait | hwhole
      · refine Or.inr (Or.inr (Or.inl ⟨hlong, rfl, hwait, ?_⟩))
        simp only [Except.map, if_pos hwait]
      · refine Or.inr (Or.inr (Or.inr ⟨hlong, rfl, hwhole, ?_⟩))
        simp only [Except.map, if_neg (Nat.not_lt.mpr hwhole)]

theorem scan_error {bytes : Bytes} {limit : Nat} {e : FrameError}
    (h : scan bytes limit = .error e) :
    headerSize ≤ bytes.length ∧ admitLength (announced bytes) limit = .error e := by
  rcases scan_cases bytes limit with
    ⟨_, hs⟩ | ⟨hlong, e', he, hs⟩ | ⟨_, _, _, hs⟩ | ⟨_, _, _, hs⟩ <;>
    rw [hs] at h <;> cases h
  exact ⟨hlong, he⟩

theorem scan_complete {bytes : Bytes} {limit n : Nat}
    (h : scan bytes limit = .ok (.complete n)) :
    headerSize ≤ n ∧ n ≤ limit ∧ n ≤ bytes.length ∧ announced bytes = n := by
  rcases scan_cases bytes limit with ⟨_, hs⟩ | ⟨_, _, _, hs⟩ | ⟨_, _, _, hs⟩ | ⟨_, hok, hle, hs⟩ <;>
    rw [hs] at h <;> cases h
  exact ⟨(admitLength_ok hok).1, (admitLength_ok hok).2, hle, rfl⟩

theorem scan_missing_le {bytes : Bytes} {limit n : Nat}
    (h : scan bytes limit = .ok (.missing n)) : bytes.length + n ≤ max headerSize limit := by
  rcases scan_cases bytes limit with ⟨hshort, hs⟩ | ⟨_, _, _, hs⟩ | ⟨_, hok, hwait, hs⟩ |
    ⟨_, _, _, hs⟩ <;> rw [hs] at h <;> cases h
  · omega
  · have hbounds := admitLength_ok hok
    omega

theorem scan_append {bytes : Bytes} {limit : Nat} (more : Bytes)
    (h : ∀ n, scan bytes limit ≠ .ok (.missing n)) :
    scan (bytes ++ more) limit = scan bytes limit := by
  have hlength : (bytes ++ more).length = bytes.length + more.length := List.length_append
  rcases scan_cases bytes limit with ⟨_, hs⟩ | ⟨hlong, e, he, hs⟩ | ⟨_, _, _, hs⟩ |
    ⟨hlong, hok, hle, hs⟩
  · exact absurd hs (h _)
  · rw [scan_long limit (by omega), announced_append more hlong, he, hs]
    rfl
  · exact absurd hs (h _)
  · rw [scan_long limit (by omega), announced_append more hlong, hok, hs]
    simp only [Except.map, if_neg (show ¬(bytes ++ more).length < announced bytes by omega)]

theorem scan_append_missing {bytes : Bytes} {limit n : Nat} (more : Bytes)
    (h : scan bytes limit = .ok (.missing n)) (hmore : more.length < n) :
    scan (bytes ++ more) limit = .ok (.missing (n - more.length)) := by
  have hlength : (bytes ++ more).length = bytes.length + more.length := List.length_append
  rcases scan_cases bytes limit with ⟨hshort, hs⟩ | ⟨_, _, _, hs⟩ | ⟨hlong, hok, hwait, hs⟩ |
    ⟨_, _, _, hs⟩ <;> rw [hs] at h <;> cases h
  · rw [scan_short limit (by omega), hlength, Nat.sub_sub]
  · rw [scan_long limit (by omega), announced_append more hlong, hok]
    simp only [Except.map, hlength, Nat.sub_sub,
      if_pos (show bytes.length + more.length < announced bytes by omega)]

/-! ## Encoding -/

theorem length_toBytes (f : Frame) : f.toBytes.length = f.length := by
  simp only [toBytes, List.length_append, Bytes.length_digits, List.length_cons, length,
    headerSize]
  omega

theorem announced_toBytes {f : Frame} (h : f.length ≤ largestLength) :
    announced f.toBytes = f.length := by
  have htake : f.toBytes.take 3 = Bytes.digits 3 f.length := by
    rw [toBytes, List.take_left' (Bytes.length_digits 3 f.length)]
  have hlt : f.length < 256 ^ 3 := by
    simp only [largestLength] at h
    omega
  rw [announced, htake, Bytes.value_digits hlt]

theorem encode_eq_ok_iff {f : Frame} {limit : Nat} {bytes : Bytes} :
    f.encode limit = .ok bytes ↔ f.length ≤ min limit largestLength ∧ bytes = f.toBytes := by
  have hlow : headerSize ≤ f.length := Nat.le_add_right _ _
  constructor
  · intro h
    cases hadmit : admitLength f.length (min limit largestLength) with
    | error e =>
      rw [encode, hadmit] at h
      cases h
    | ok u =>
      rw [encode, hadmit] at h
      cases h
      exact ⟨(admitLength_ok hadmit).2, rfl⟩
  · rintro ⟨hhigh, rfl⟩
    rw [encode, admitLength_of_le hlow hhigh]
    rfl

end FrameLink.Frame
