import FrameLink.Proofs.Stream.Receiving

/-!
# Receiving again

A call of `receive` leaves what it read and did not hand over in the buffer, however it ends. So the
next call on the same buffer and stream goes on where it ended: calls in a row hand over the frames
that a single one would have, had nothing failed and nobody stopped in between. Only a violation of
the protocol is final.
-/

namespace FrameLink

variable {σ : Type} {limit : Nat} {b b' b'' : Buffer} {r r' r'' : Reader}
  {frames more : List Bytes}

instance : DecidablePred Arrival.Flows
  | .chunk _ => inferInstanceAs (Decidable (_ ≠ _))
  | .pending => .isTrue trivial
  | .failure _ => .isFalse id

/-- Keeps the frames it gets, and wants no more behind the one of this number. -/
def keepUpTo (stop : Option Nat) (kept : List Bytes) (frame : Bytes) : List Bytes × Bool :=
  (kept ++ [frame], decide (stop ≠ some (kept.length + 1)))

/-- What calls in a row on one buffer and one stream have come to. -/
structure Reception where
  /-- The frames of all calls, first one first. -/
  frames : List Bytes
  buffer : Buffer
  reader : Reader
deriving DecidableEq, Repr

namespace Reception

def call (limit : Nat) (c : Reception) (stop : Option Nat) : Receiving (List Bytes) :=
  receive limit (keepUpTo stop) [] c.buffer c.reader

def next (limit : Nat) (c : Reception) (stop : Option Nat) : Reception :=
  ⟨c.frames ++ (c.call limit stop).state, (c.call limit stop).buffer, (c.call limit stop).reader⟩

def calls (limit : Nat) (c : Reception) (stops : List (Option Nat)) : Reception :=
  stops.foldl (next limit) c

end Reception

/-! ## What one call leaves -/

/-- Between two states of a buffer and its stream these frames came out of them, and no byte got
lost. -/
structure Yields (limit : Nat) (b : Buffer) (r : Reader) (frames : List Bytes) (b' : Buffer)
    (r' : Reader) : Prop where
  whole : ∀ f ∈ frames, Whole limit f
  split : ∃ read, r.content = read ++ r'.content ∧
    b.unread ++ read = frames.flatten ++ b'.unread

theorem Yields.refl (limit : Nat) (b : Buffer) (r : Reader) : Yields limit b r [] b r :=
  ⟨by simp, [], rfl, by simp⟩

theorem Yields.trans (h : Yields limit b r frames b' r') (h' : Yields limit b' r' more b'' r'') :
    Yields limit b r (frames ++ more) b'' r'' where
  whole f hf := (List.mem_append.mp hf).elim (h.whole f) (h'.whole f)
  split := by
    obtain ⟨first, hcontent, hfirst⟩ := h.split
    obtain ⟨second, hcontent', hsecond⟩ := h'.split
    refine ⟨first ++ second, ?_, ?_⟩
    · rw [hcontent, hcontent', List.append_assoc]
    · rw [← List.append_assoc, hfirst, List.append_assoc, hsecond, List.flatten_append,
        List.append_assoc]

theorem Receives.yields {onFrame : σ → Bytes → σ × Bool} {s : σ} {out : Receiving σ}
    (h : Receives limit onFrame s b r out) :
    ∃ frames wants, Handed onFrame s frames out.state wants ∧
      Yields limit b r frames out.buffer out.reader ∧ (out.ending = .stopped → wants = false) := by
  cases h with
  | @stopped bytes frames _ _ _ hands hgives =>
    exact ⟨frames, false, hands.handed, ⟨hands.whole, bytes, hgives.content, hands.split⟩,
      fun _ => rfl⟩
  | @violated bytes frames _ _ _ _ hands hgives =>
    exact ⟨frames, true, hands.handed, ⟨hands.whole, bytes, hgives.content, hands.split⟩, nofun⟩
  | @failed frames _ _ _ _ _ _ _ hands hcontent =>
    exact ⟨frames, true, hands.handed, ⟨hands.whole, r.served, hcontent, hands.split⟩, nofun⟩
  | @waiting frames _ _ _ _ hands hcontent =>
    exact ⟨frames, true, hands.handed, ⟨hands.whole, r.served, hcontent, hands.split⟩, nofun⟩

theorem Handed.kept {stop : Option Nat} {kept kept' : List Bytes} {wants : Bool}
    (h : Handed (keepUpTo stop) kept frames kept' wants) :
    kept' = kept ++ frames ∧ (wants = false → stop = some kept'.length) := by
  induction h with
  | done kept => exact ⟨(List.append_nil kept).symm, nofun⟩
  | more hanswer _ ih =>
    obtain ⟨rfl, -⟩ := Prod.mk.inj hanswer
    exact ⟨by simp [ih.1], ih.2⟩
  | last hanswer =>
    obtain ⟨rfl, hstop⟩ := Prod.mk.inj hanswer
    exact ⟨rfl, fun _ => by simpa using hstop⟩

namespace Reception

variable {c : Reception} {stop : Option Nat}

theorem yields_call (limit : Nat) (c : Reception) (stop : Option Nat) :
    Yields limit c.buffer c.reader (c.call limit stop).state (c.call limit stop).buffer
        (c.call limit stop).reader ∧
      ((c.call limit stop).ending = .stopped → stop = some (c.call limit stop).state.length) := by
  obtain ⟨frames, wants, hhanded, hyields, hstopped⟩ :=
    (receives limit (keepUpTo stop) [] c.buffer c.reader).yields
  obtain ⟨hkept, hlast⟩ := hhanded.kept
  rw [List.nil_append] at hkept
  rw [← hkept] at hyields
  exact ⟨hyields, fun hending => hlast (hstopped hending)⟩

theorem scan_of_violated {e : FrameError} (h : (c.call limit stop).ending = .failed (.frame e)) :
    Frame.scan (c.call limit stop).buffer.unread limit = .error e := by
  have hreceives := receives limit (keepUpTo stop) [] c.buffer c.reader
  unfold call at h ⊢
  generalize receive limit (keepUpTo stop) [] c.buffer c.reader = out at h hreceives
  cases hreceives with
  | violated _ _ hscan =>
    cases h
    exact hscan
  | stopped | failed | waiting => cases h

theorem scan_of_failed {e : IoError} (h : (c.call limit stop).ending = .failed (.io e)) :
    ∃ n, Frame.scan (c.call limit stop).buffer.unread limit = .ok (.missing n) := by
  have hreceives := receives limit (keepUpTo stop) [] c.buffer c.reader
  unfold call at h ⊢
  generalize receive limit (keepUpTo stop) [] c.buffer c.reader = out at h hreceives
  cases hreceives with
  | failed _ _ hscan => exact ⟨_, hscan⟩
  | stopped | violated | waiting => cases h

/-! ## Calls in a row -/

theorem yields_calls (hc : Yields limit b r c.frames c.buffer c.reader)
    (stops : List (Option Nat)) :
    Yields limit b r (c.calls limit stops).frames (c.calls limit stops).buffer
      (c.calls limit stops).reader := by
  induction stops generalizing c with
  | nil => exact hc
  | cons stop stops ih => exact ih (c := c.next limit stop) (hc.trans (yields_call limit c stop).1)

theorem frames_prefix_calls (c : Reception) (stops : List (Option Nat)) :
    c.frames <+: (c.calls limit stops).frames := by
  induction stops generalizing c with
  | nil => exact List.prefix_rfl
  | cons stop stops ih => exact (List.prefix_append _ _).trans (ih (c.next limit stop))

/-- Behind a violation of the protocol no call does anything. -/
theorem call_of_scan_error {e : FrameError} (hscan : Frame.scan c.buffer.unread limit = .error e)
    (stops : List (Option Nat)) (stop : Option Nat) :
    (c.calls limit stops).call limit stop = ⟨[], c.buffer, c.reader, .failed (.frame e)⟩ := by
  have hcall (stop : Option Nat) :
      c.call limit stop = ⟨[], c.buffer, c.reader, .failed (.frame e)⟩ :=
    receive_error (keepUpTo stop) [] c.reader hscan
  induction stops with
  | nil => exact hcall stop
  | cons first stops ih =>
    have hnext : c.next limit first = c := by
      unfold next
      rw [hcall, List.append_nil]
    rw [calls, List.foldl_cons, hnext]
    exact ih

end Reception

/-! ## The same bytes without failures -/

theorem flatMap_bytes_filter (arrivals : List Arrival) :
    (arrivals.filter Arrival.Flows).flatMap Arrival.bytes = arrivals.flatMap Arrival.bytes := by
  induction arrivals with
  | nil => rfl
  | cons a arrivals ih =>
    rw [List.filter_cons, List.flatMap_cons, ← ih]
    split_ifs with hflows
    · rw [List.flatMap_cons]
    · have hstuck : ¬a.Flows := by simpa using hflows
      have hnone : a.bytes = [] := by
        cases a with
        | chunk bytes => exact not_not.mp hstuck
        | pending | failure => rfl
      rw [hnone, List.nil_append]

theorem state_receive_flowing (limit : Nat) (b : Buffer) (r : Reader) :
    (receive limit (keepUpTo none) [] b ⟨r.arrivals.filter Arrival.Flows, .ended, 0⟩).state =
      (parse limit (b.unread ++ r.content)).frames := by
  have hkeep : keepUpTo none = fun kept frame => (kept ++ [frame], true) := by
    funext kept frame
    simp [keepUpTo]
  have hflows : ∀ a ∈ r.arrivals.filter Arrival.Flows, a.Flows :=
    fun a ha => of_decide_eq_true (List.mem_filter.mp ha).2
  have hserved : (⟨r.arrivals.filter Arrival.Flows, .ended, 0⟩ : Reader).served = r.content :=
    (Reader.servedFrom_flows hflows).1.trans (flatMap_bytes_filter r.arrivals)
  have hreceives := receives limit (fun kept frame => (kept ++ [frame], true)) [] b
    ⟨r.arrivals.filter Arrival.Flows, .ended, 0⟩
  obtain ⟨frames, _, hstate, _, _, hend⟩ := hreceives.exhausts (Reader.stop_ended _ _)
  have hparse : (parse limit (b.unread ++ r.content)).frames = frames := by
    rw [hserved] at hend
    rcases hend with ⟨e, rest, hparse, _⟩ | ⟨e, total, need, hparse, _⟩ <;> rw [hparse]
  rw [hkeep, hstate, hparse, List.foldl_append_eq_append, ← List.flatMap_def,
    List.flatMap_singleton', List.nil_append]

theorem Yields.prefix_parse (h : Yields limit b r frames b' r') :
    frames <+: (parse limit (b.unread ++ r.content)).frames := by
  obtain ⟨read, hcontent, hsplit⟩ := h.split
  refine FrameLink.prefix_parse h.whole ⟨b'.unread ++ r'.content, ?_⟩
  rw [← List.append_assoc, ← hsplit, hcontent, List.append_assoc]

theorem Yields.parse_eq {n : Nat} (h : Yields limit b r frames b' r') (hcontent : r'.content = [])
    (hscan : Frame.scan b'.unread limit = .ok (.missing n)) :
    (parse limit (b.unread ++ r.content)).frames = frames := by
  obtain ⟨read, hread, hsplit⟩ := h.split
  rw [hread, hcontent, List.append_nil, hsplit, parse_flatten_append h.whole, parse_missing hscan,
    List.append_nil]

/-- One more call behind any number of calls on the same buffer and stream. With what was unread at
first, the bytes read so far are the frames so far and what is unread now. A call that is stopped
has handed over as many frames as it was asked to, and used up nothing else. All frames so far come
first among those that one call gets from the same bytes if nothing fails, and they are all of them
once a call finds the end of the stream. After a violation every call finds that same violation and
does nothing. -/
theorem calls_resume (limit : Nat) (b : Buffer) (r : Reader) (stops later : List (Option Nat))
    (stop : Option Nat) :
    let before := (⟨[], b, r⟩ : Reception).calls limit stops
    let out := before.call limit stop
    let frames := before.frames ++ out.state
    let whole := receive limit (keepUpTo none) [] b ⟨r.arrivals.filter Arrival.Flows, .ended, 0⟩
    (∃ read, r.content = read ++ out.reader.content ∧
        b.unread ++ read = frames.flatten ++ out.buffer.unread) ∧
      (out.ending = .stopped → stop = some out.state.length ∧
        ∃ read, before.reader.content = read ++ out.reader.content ∧
          before.buffer.unread ++ read = out.state.flatten ++ out.buffer.unread) ∧
      frames <+: whole.state ∧
      (∀ e, out.ending = .failed (.io e) → out.reader.arrivals = [] →
        frames = whole.state ∧
          ((before.next limit stop).calls limit later).frames = whole.state) ∧
      ∀ e, out.ending = .failed (.frame e) → ∀ another,
        ((before.next limit stop).calls limit later).call limit another =
          ⟨[], out.buffer, out.reader, .failed (.frame e)⟩ := by
  intro before out frames whole
  have hwhole : whole.state = (parse limit (b.unread ++ r.content)).frames :=
    state_receive_flowing limit b r
  have hbefore : Yields limit b r before.frames before.buffer before.reader :=
    Reception.yields_calls (Yields.refl limit b r) stops
  obtain ⟨hcall, hstopped⟩ := Reception.yields_call limit before stop
  have hnow : Yields limit b r frames out.buffer out.reader := hbefore.trans hcall
  have hprefix : frames <+: whole.state := by
    rw [hwhole]
    exact hnow.prefix_parse
  refine ⟨hnow.split, fun hending => ⟨hstopped hending, hcall.split⟩, hprefix,
    fun e hending hend => ?_, fun e hending another => ?_⟩
  · obtain ⟨n, hscan⟩ := Reception.scan_of_failed hending
    have hcontent : out.reader.content = [] := by
      rw [Reader.content, hend, List.flatMap_nil]
    have hall : frames = whole.state := by
      rw [hwhole, hnow.parse_eq hcontent hscan]
    refine ⟨hall, ?_⟩
    -- the frames of later calls stand between these and all
    have hgrows : frames <+: ((before.next limit stop).calls limit later).frames :=
      Reception.frames_prefix_calls (before.next limit stop) later
    have hlater := (Reception.yields_calls (c := before.next limit stop) hnow later).prefix_parse
    rw [← hwhole, ← hall] at hlater
    rw [← hall]
    exact hlater.eq_of_length_le hgrows.length_le
  · have hscan := Reception.scan_of_violated hending
    exact Reception.call_of_scan_error (c := before.next limit stop) hscan later another

end FrameLink
