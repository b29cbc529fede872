import FrameLink.Stream.Receive
import FrameLink.Proofs.Frame.Parse
import FrameLink.Proofs.Stream.Reading

/-!
# What receiving hands over

Whatever the callback answers and however the stream is cut, `receive` hands over whole frames from
the front of the bytes it was given, and keeps what it read beyond them. A callback that wants all
frames gets exactly the frames of the parse.
-/

namespace FrameLink

variable {σ : Type}

/-- A callback got these frames, one after the other; the flag tells whether it wants more. -/
inductive Handed (onFrame : σ → Bytes → σ × Bool) : σ → List Bytes → σ → Bool → Prop
  | done (s : σ) : Handed onFrame s [] s true
  | more {s s' t : σ} {frame : Bytes} {frames : List Bytes} {wants : Bool}
      (hanswer : onFrame s frame = (s', true)) (hrest : Handed onFrame s' frames t wants) :
      Handed onFrame s (frame :: frames) t wants
  | last {s t : σ} {frame : Bytes} (hanswer : onFrame s frame = (t, false)) :
      Handed onFrame s [frame] t false

theorem Handed.eq_foldl {take : σ → Bytes → σ} {s t : σ} {frames : List Bytes} {wants : Bool}
    (h : Handed (fun s f => (take s f, true)) s frames t wants) :
    t = frames.foldl take s ∧ wants = true := by
  induction h with
  | done => exact ⟨rfl, rfl⟩
  | more hanswer _ ih =>
    cases hanswer
    exact ih
  | last hanswer => cases hanswer

/-- Whole frames from the front of `bytes` were handed over, and `rest` is what follows them. -/
structure Hands (limit : Nat) (onFrame : σ → Bytes → σ × Bool) (s : σ) (bytes : Bytes)
    (frames : List Bytes) (t : σ) (rest : Bytes) (wants : Bool) : Prop where
  handed : Handed onFrame s frames t wants
  whole : ∀ f ∈ frames, Whole limit f
  split : bytes = frames.flatten ++ rest

variable {limit : Nat} {onFrame : σ → Bytes → σ × Bool} {s t : σ} {b b' : Buffer} {r r' : Reader}
  {bytes rest : Bytes} {frames : List Bytes} {wants : Bool}

theorem Hands.nil (bytes : Bytes) : Hands limit onFrame s bytes [] s bytes true :=
  ⟨.done s, by simp, rfl⟩

theorem Hands.more {n : Nat} {s' : σ} (hscan : Frame.scan bytes limit = .ok (.complete n))
    (hanswer : onFrame s (bytes.take n) = (s', true)) {more : Bytes}
    (h : Hands limit onFrame s' (bytes.drop n ++ more) frames t rest wants) :
    Hands limit onFrame s (bytes ++ more) (bytes.take n :: frames) t rest wants where
  handed := .more hanswer h.handed
  whole := by
    intro f hf
    rcases List.mem_cons.mp hf with rfl | hf
    · exact take_whole hscan
    · exact h.whole f hf
  split := by
    rw [List.flatten_cons, List.append_assoc, ← h.split, ← List.append_assoc,
      List.take_append_drop]

theorem Hands.last {n : Nat} (hscan : Frame.scan bytes limit = .ok (.complete n))
    (hanswer : onFrame s (bytes.take n) = (t, false)) :
    Hands limit onFrame s bytes [bytes.take n] t (bytes.drop n) false where
  handed := .last hanswer
  whole := by simpa using take_whole hscan
  split := by simp

theorem Hands.parse_eq (h : Hands limit onFrame s bytes frames t rest wants) (more : Bytes) :
    parse limit (bytes ++ more) =
      { parse limit (rest ++ more) with
        frames := frames ++ (parse limit (rest ++ more)).frames } := by
  rw [h.split, List.append_assoc, parse_flatten_append h.whole]

inductive Receives (limit : Nat) (onFrame : σ → Bytes → σ × Bool) (s : σ) (b : Buffer)
    (r : Reader) : Receiving σ → Prop
  | stopped {bytes : Bytes} {frames : List Bytes} {t : σ} {b' : Buffer} {r' : Reader}
      (hands : Hands limit onFrame s (b.unread ++ bytes) frames t b'.unread false)
      (hgives : r.Gives bytes r') : Receives limit onFrame s b r ⟨t, b', r', .stopped⟩
  | violated {bytes : Bytes} {frames : List Bytes} {t : σ} {b' : Buffer} {r' : Reader}
      {e : FrameError}
      (hands : Hands limit onFrame s (b.unread ++ bytes) frames t b'.unread true)
      (hgives : r.Gives bytes r') (hscan : Frame.scan b'.unread limit = .error e) :
      Receives limit onFrame s b r ⟨t, b', r', .failed (.frame e)⟩
  | failed {frames : List Bytes} {t : σ} {b' : Buffer} {r' : Reader} {n total need : Nat}
      {e : IoError}
      (hands : Hands limit onFrame s (b.unread ++ r.served) frames t b'.unread true)
      (hcontent : r.content = r.served ++ r'.content)
      (hscan : Frame.scan b'.unread limit = .ok (.missing n))
      (herror : r.stop.error? total need = some e) :
      Receives limit onFrame s b r ⟨t, b', r', .failed (.io e)⟩
  | waiting {frames : List Bytes} {t : σ} {b' : Buffer} {r' : Reader} {n : Nat}
      (hands : Hands limit onFrame s (b.unread ++ r.served) frames t b'.unread true)
      (hcontent : r.content = r.served ++ r'.content)
      (hscan : Frame.scan b'.unread limit = .ok (.missing n)) (hstop : r.stop = .silent) :
      Receives limit onFrame s b r ⟨t, b', r', .waiting⟩

theorem Receives.more {n : Nat} {s' : σ} {out : Receiving σ}
    (hscan : Frame.scan b.unread limit = .ok (.complete n))
    (hanswer : onFrame s (b.unread.take n) = (s', true))
    (h : Receives limit onFrame s' (b.consume n) r out) : Receives limit onFrame s b r out := by
  cases h with
  | stopped hands hgives =>
    rw [Buffer.unread_consume] at hands
    exact .stopped (.more hscan hanswer hands) hgives
  | violated hands hgives herror =>
    rw [Buffer.unread_consume] at hands
    exact .violated (.more hscan hanswer hands) hgives herror
  | failed hands hcontent hmissing herror =>
    rw [Buffer.unread_consume] at hands
    exact .failed (.more hscan hanswer hands) hcontent hmissing herror
  | waiting hands hcontent hmissing hstop =>
    rw [Buffer.unread_consume] at hands
    exact .waiting (.more hscan hanswer hands) hcontent hmissing hstop

theorem Receives.read {out : Receiving σ} (hunread : b'.unread = b.unread ++ bytes)
    (hgives : r.Gives bytes r') (h : Receives limit onFrame s b' r' out) :
    Receives limit onFrame s b r out := by
  have hserved : b'.unread ++ r'.served = b.unread ++ r.served := by
    rw [hunread, hgives.served, List.append_assoc]
  cases h with
  | stopped hands hmore =>
    rw [hunread, List.append_assoc] at hands
    exact .stopped hands (hgives.trans hmore)
  | violated hands hmore herror =>
    rw [hunread, List.append_assoc] at hands
    exact .violated hands (hgives.trans hmore) herror
  | failed hands hcontent hmissing herror =>
    rw [hserved] at hands
    refine .failed hands ?_ hmissing (hgives.stop ▸ herror)
    rw [hgives.content, hcontent, hgives.served, List.append_assoc]
  | waiting hands hcontent hmissing hstop =>
    rw [hserved] at hands
    refine .waiting hands ?_ hmissing (hgives.stop ▸ hstop)
    rw [hgives.content, hcontent, hgives.served, List.append_assoc]

theorem receives (limit : Nat) (onFrame : σ → Bytes → σ × Bool) (s : σ) (b : Buffer)
    (r : Reader) : Receives limit onFrame s b r (receive limit onFrame s b r) := by
  -- a frame in the buffer and bytes read for the next one each go in front of what follows
  fun_induction receive limit onFrame s b r with
  | case1 s b r e hscan =>
    exact .violated (by rw [List.append_nil]; exact .nil b.unread) (.refl r) hscan
  | case2 s b r n hscan s' hanswer ih => exact ih.more hscan hanswer
  | case3 s b r n hscan s' hanswer =>
    have hands := Hands.last hscan hanswer
    rw [← Buffer.unread_consume, ← List.append_nil b.unread] at hands
    exact .stopped hands (.refl r)
  | case4 s b r n hscan m b' r' hcollect ih =>
    have h := Reader.collects n b r
    rw [hcollect] at h
    cases h with
    | enough _ hunread hgives => exact ih.read hunread hgives
  | case5 s b r n hscan e b' r' hcollect =>
    have h := Reader.collects n b r
    rw [hcollect] at h
    cases h with
    | failed hshort hunread hcontent herror =>
      have hmissing := Frame.scan_append_missing r.served hscan (by omega)
      rw [← hunread] at hmissing
      exact .failed (by rw [hunread]; exact Hands.nil _) hcontent hmissing herror
  | case6 s b r n hscan b' r' hcollect =>
    have h := Reader.collects n b r
    rw [hcollect] at h
    cases h with
    | waiting hshort hunread hcontent hstop =>
      have hmissing := Frame.scan_append_missing r.served hscan (by omega)
      rw [← hunread] at hmissing
      exact .waiting (by rw [hunread]; exact Hands.nil _) hcontent hmissing hstop

theorem receive_keeps {P : σ → Prop} (hkeep : ∀ s frame, P s → P (onFrame s frame).1) (hs : P s)
    (b : Buffer) (r : Reader) : P (receive limit onFrame s b r).state := by
  fun_induction receive limit onFrame s b r with
  | case2 s b r n hscan s' hanswer ih =>
    have hnext := hkeep s (b.unread.take n) hs
    rw [hanswer] at hnext
    exact ih hnext
  | case3 s b r n hscan s' hanswer =>
    have hnext := hkeep s (b.unread.take n) hs
    rwa [hanswer] at hnext
  | case4 s b r n hscan m b' r' hcollect ih => exact ih hs
  | case1 | case5 | case6 => exact hs

theorem Reader.stop_ended (arrivals : List Arrival) (polls : Nat) :
    (⟨arrivals, .ended, polls⟩ : Reader).stop ≠ .silent := by
  simp only [stop]
  fun_induction stopFrom Horizon.ended arrivals <;> simp_all

theorem Hands.parse_violation {e : FrameError}
    (h : Hands limit onFrame s bytes frames t rest wants)
    (hscan : Frame.scan rest limit = .error e) (more : Bytes) :
    parse limit (bytes ++ more) = ⟨frames, some e, rest ++ more⟩ := by
  have hmore : Frame.scan (rest ++ more) limit = .error e := by
    rw [Frame.scan_append more (by simp [hscan]), hscan]
  rw [h.parse_eq more, parse_error hmore, List.append_nil]

theorem Hands.parse_missing {n : Nat} (h : Hands limit onFrame s bytes frames t rest wants)
    (hscan : Frame.scan rest limit = .ok (.missing n)) :
    parse limit bytes = ⟨frames, none, rest⟩ := by
  have hparse := h.parse_eq []
  rwa [List.append_nil, List.append_nil, FrameLink.parse_missing hscan, List.append_nil] at hparse

theorem Reader.Stop.cases_error {stop : Reader.Stop} {total need : Nat} {e : IoError}
    (h : stop.error? total need = some e) :
    stop = .failed e ∨ stop = .closed ∧ e = Reader.closedEarly total need := by
  cases stop with
  | closed => exact .inr ⟨rfl, (Option.some.inj h).symm⟩
  | failed e' => exact .inl (congrArg Reader.Stop.failed (Option.some.inj h))
  | silent => cases h

/-- Where a callback always wants more and the stream is not silent, receiving goes through the
whole parse. -/
theorem Receives.exhausts {take : σ → Bytes → σ} {out : Receiving σ}
    (h : Receives limit (fun s frame => (take s frame, true)) s b r out)
    (hstop : r.stop ≠ .silent) :
    ∃ frames bytes, out.state = frames.foldl take s ∧ r.content = bytes ++ out.reader.content ∧
      frames.flatten ++ out.buffer.unread = b.unread ++ bytes ∧
      ((∃ e more, parse limit (b.unread ++ r.served) =
          ⟨frames, some e, out.buffer.unread ++ more⟩ ∧ out.ending = .failed (.frame e)) ∨
        (∃ e total need, parse limit (b.unread ++ r.served) =
          ⟨frames, none, out.buffer.unread⟩ ∧ out.ending = .failed (.io e) ∧
            r.stop.error? total need = some e)) := by
  cases h with
  | stopped hands => cases hands.handed.eq_foldl.2
  | @violated bytes frames t b' r' e hands hgives hscan =>
    refine ⟨frames, bytes, hands.handed.eq_foldl.1, hgives.content, hands.split.symm,
      .inl ⟨e, r'.served, ?_, rfl⟩⟩
    rw [hgives.served, ← List.append_assoc]
    exact hands.parse_violation hscan r'.served
  | @failed frames t b' r' n total need e hands hcontent hscan herror =>
    exact ⟨frames, r.served, hands.handed.eq_foldl.1, hcontent, hands.split.symm,
      .inr ⟨e, total, need, hands.parse_missing hscan, rfl, herror⟩⟩
  | waiting _ _ _ hsilent => exact absurd hsilent hstop

/-- A stream that flows brings whole frames, which end what was unread: they are all handed over,
and then the stream is found closed. -/
theorem receive_flatten (take : σ → Bytes → σ) (s : σ) {arrivals : List Arrival}
    (hwhole : ∀ f ∈ frames, Whole limit f) (hflows : ∀ a ∈ arrivals, a.Flows)
    (hbytes : b.unread ++ arrivals.flatMap Arrival.bytes = frames.flatten) (polls : Nat) :
    let out := receive limit (fun s frame => (take s frame, true)) s b ⟨arrivals, .ended, polls⟩
    out.state = frames.foldl take s ∧
      (∃ total need, out.ending = .failed (.io (Reader.closedEarly total need))) ∧
      out.buffer.unread = [] := by
  intro out
  obtain ⟨hserved, hstop⟩ := Reader.servedFrom_flows hflows
  have hparse : parse limit (b.unread ++ (⟨arrivals, .ended, polls⟩ : Reader).served) =
      ⟨frames, none, []⟩ := by
    have h := parse_flatten_append hwhole []
    rw [Reader.served, hserved, hbytes, ← List.append_nil (List.flatten _), h, parse_nil]
    simp only [List.append_nil]
  have h : Receives limit _ s b _ out := receives limit (fun s frame => (take s frame, true)) s b
    ⟨arrivals, .ended, polls⟩
  obtain ⟨_, bytes, hstate, _, _, hend⟩ := h.exhausts (Reader.stop_ended arrivals polls)
  rw [hparse] at hend
  rcases hend with ⟨e, more, hcut, _⟩ | ⟨e, total, need, hcut, hending, herror⟩
  · cases hcut
  · obtain ⟨rfl, _, hrest⟩ := Parse.mk.inj hcut
    rw [Reader.stop, hstop] at herror
    rw [← Option.some.inj herror] at hending
    exact ⟨hstate, ⟨total, need, hending⟩, hrest.symm⟩

/-- A callback that always wants more gets the frames of the parse of what was unread and what the
stream serves before its first read without data. Receiving ends with the violation of that parse,
or else with the failure of that read, and the frames and the buffer make up what was unread and
what was taken from the stream. -/
theorem receive_eq_parse (limit : Nat) (take : σ → Bytes → σ) (s : σ) (b : Buffer)
    (arrivals : List Arrival) (polls : Nat) :
    let r : Reader := ⟨arrivals, .ended, polls⟩
    let cut := parse limit (b.unread ++ r.served)
    let out := receive limit (fun s frame => (take s frame, true)) s b r
    out.state = cut.frames.foldl take s ∧
      (∀ e, cut.violation = some e → out.ending = .failed (.frame e)) ∧
      (cut.violation = none → ∃ e, out.ending = .failed (.io e) ∧
        (r.stop = .failed e ∨
          r.stop = .closed ∧ ∃ total need, e = Reader.closedEarly total need)) ∧
      ∃ bytes, r.content = bytes ++ out.reader.content ∧
        cut.frames.flatten ++ out.buffer.unread = b.unread ++ bytes := by
  intro r cut out
  have h : Receives limit _ s b r out := receives limit (fun s frame => (take s frame, true)) s b r
  obtain ⟨frames, bytes, hstate, hcontent, hsplit, hend⟩ :=
    h.exhausts (Reader.stop_ended arrivals polls)
  rcases hend with ⟨e, more, hparse, hending⟩ | ⟨e, total, need, hparse, hending, herror⟩
  · have hcut : cut = ⟨frames, some e, out.buffer.unread ++ more⟩ := hparse
    rw [hcut]
    refine ⟨hstate, fun e' he => ?_, fun hnone => (nomatch hnone), bytes, hcontent, hsplit⟩
    rw [hending, Option.some.inj he]
  · have hcut : cut = ⟨frames, none, out.buffer.unread⟩ := hparse
    rw [hcut]
    refine ⟨hstate, fun e' he => (nomatch he), fun _ => ⟨e, hending, ?_⟩, bytes, hcontent, hsplit⟩
    rcases Reader.Stop.cases_error herror with hfailed | ⟨hclosed, he⟩
    · exact .inl hfailed
    · exact .inr ⟨hclosed, total, need, he⟩

/-! ## Callbacks that answer alike -/

section

variable {limit : Nat} {b : Buffer} (onFrame : σ → Bytes → σ × Bool) (s : σ) (r : Reader)

theorem receive_error {e : FrameError} (hscan : Frame.scan b.unread limit = .error e) :
    receive limit onFrame s b r = ⟨s, b, r, .failed (.frame e)⟩ := by
  rw [receive]
  split <;> simp_all

theorem receive_complete {n : Nat} (hscan : Frame.scan b.unread limit = .ok (.complete n)) :
    receive limit onFrame s b r =
      if (onFrame s (b.unread.take n)).2 then
        receive limit onFrame (onFrame s (b.unread.take n)).1 (b.consume n) r
      else ⟨(onFrame s (b.unread.take n)).1, b.consume n, r, .stopped⟩ := by
  rw [receive]
  split
  · simp_all
  · rename_i m hm
    rw [hscan] at hm
    cases hm
    obtain ⟨s', wants⟩ := onFrame s (b.unread.take n)
    cases wants <;> rfl
  · simp_all

theorem receive_missing {n : Nat} (hscan : Frame.scan b.unread limit = .ok (.missing n)) :
    receive limit onFrame s b r =
      match r.collect n b with
      | (.enough _, b, r) => receive limit onFrame s b r
      | (.failed e, b, r) => ⟨s, b, r, .failed (.io e)⟩
      | (.waiting, b, r) => ⟨s, b, r, .waiting⟩ := by
  rw [receive]
  split
  · simp_all
  · simp_all
  · rename_i m hm
    rw [hscan] at hm
    cases hm
    obtain ⟨c, b', r'⟩ := r.collect n b
    cases c <;> rfl

end

theorem receive_alike {τ : Type} (limit : Nat) {R : σ → τ → Prop} {onFrame : σ → Bytes → σ × Bool}
    {onFrame' : τ → Bytes → τ × Bool}
    (hframe : ∀ s t frame, R s t → R (onFrame s frame).1 (onFrame' t frame).1 ∧
      (onFrame s frame).2 = (onFrame' t frame).2)
    {s : σ} {t : τ} (hst : R s t) (b : Buffer) (r : Reader) :
    let out := receive limit onFrame s b r
    let out' := receive limit onFrame' t b r
    R out.state out'.state ∧ out.buffer = out'.buffer ∧ out.ending = out'.ending := by
  fun_induction receive limit onFrame s b r generalizing t with
  | case1 s b r e hscan =>
    rw [receive_error _ _ _ hscan]
    exact ⟨hst, rfl, rfl⟩
  | case2 s b r n hscan s' hanswer ih =>
    obtain ⟨hnext, hwants⟩ := hframe s t (b.unread.take n) hst
    rw [hanswer] at hnext hwants
    rw [receive_complete _ _ _ hscan, ← hwants]
    exact ih hnext
  | case3 s b r n hscan s' hanswer =>
    obtain ⟨hnext, hwants⟩ := hframe s t (b.unread.take n) hst
    rw [hanswer] at hnext hwants
    rw [receive_complete _ _ _ hscan, ← hwants]
    exact ⟨hnext, rfl, rfl⟩
  | case4 s b r n hscan m b' r' hcollect ih =>
    rw [receive_missing _ _ _ hscan, hcollect]
    exact ih hst
  | case5 s b r n hscan e b' r' hcollect =>
    rw [receive_missing _ _ _ hscan, hcollect]
    exact ⟨hst, rfl, rfl⟩
  | case6 s b r n hscan b' r' hcollect =>
    rw [receive_missing _ _ _ hscan, hcollect]
    exact ⟨hst, rfl, rfl⟩

end FrameLink
