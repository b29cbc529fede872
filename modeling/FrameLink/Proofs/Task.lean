import FrameLink.Proofs.Frame.Codec
import FrameLink.Proofs.Stream.Sending
import FrameLink.Task

/-!
# What each operation does to a task

One lemma for each operation: what callers and the send loop can rely on. A run of the send loop
that does not fail writes everything queued, so it can take a stop or the deadline only behind it.
-/

namespace FrameLink.Task

variable {t : Task}

theorem isOpen_iff : t.isOpen = true ↔ t.phase = .opened := by
  simp [isOpen]

theorem isOpen_eq_false_iff : t.isOpen = false ↔ t.phase ≠ .opened := by
  simp [isOpen]

def push (t : Task) (bytes : Bytes) : Task :=
  { t with queue := t.queue.append bytes, sendSignal := true }

theorem unread_push (t : Task) (bytes : Bytes) :
    (t.push bytes).queue.unread = t.queue.unread ++ bytes :=
  Buffer.unread_append t.queue bytes

theorem sendBytes_of_isOpen (h : t.isOpen = true) (bytes : Bytes) :
    t.sendBytes bytes = (true, t.push bytes) := by
  simp only [sendBytes, h, if_true]
  rfl

theorem sendBytes_of_not_isOpen (h : t.isOpen = false) (bytes : Bytes) :
    t.sendBytes bytes = (false, t) := by
  simp [sendBytes, h]

theorem sendFrame_of_isOpen (h : t.isOpen = true) (f : Frame) :
    t.sendFrame f =
      if f.length ≤ min t.settings.frameLimit largestLength then (true, t.push f.toBytes)
      else (false, t) := by
  unfold sendFrame
  cases hencode : f.encode t.settings.frameLimit with
  | ok bytes =>
    obtain ⟨hlength, rfl⟩ := Frame.encode_eq_ok_iff.mp hencode
    rw [if_pos hlength]
    exact sendBytes_of_isOpen h f.toBytes
  | error e =>
    split_ifs with hlength
    · have hok := Frame.encode_eq_ok_iff.mpr ⟨hlength, rfl⟩
      rw [hencode] at hok
      cases hok
    · rfl

theorem sendFrame_of_not_isOpen (h : t.isOpen = false) (f : Frame) :
    t.sendFrame f = (false, t) := by
  unfold sendFrame
  cases f.encode t.settings.frameLimit with
  | ok bytes => exact sendBytes_of_not_isOpen h bytes
  | error e => rfl

theorem stop_cases (t : Task) :
    (t.isOpen = true ∧ t.stop = (true, { t with stopSignal := true })) ∨ t.stop = (false, t) := by
  unfold stop
  split_ifs with h
  · exact .inl ⟨h.1, rfl⟩
  · exact .inr rfl

theorem phase_stop (t : Task) : t.stop.2.phase = t.phase := by
  unfold stop
  split <;> rfl

theorem phase_sendBytes (t : Task) (bytes : Bytes) : (t.sendBytes bytes).2.phase = t.phase := by
  unfold sendBytes
  split <;> rfl

theorem phase_sendFrame (t : Task) (f : Frame) : (t.sendFrame f).2.phase = t.phase := by
  unfold sendFrame
  split
  · exact phase_sendBytes t _
  · rfl

/-! ## The send loop -/

/-- What the send loop leaves alone in a task that it runs for. -/
structure Ran (t t' : Task) : Prop where
  settings : t'.settings = t.settings
  phase : t'.phase = t.phase
  verified : t'.verified = t.verified
  stream : t'.stream = t.stream
  stopSignal : t'.stopSignal = t.stopSignal
  inbound : t'.loops.map Loops.inbound = t.loops.map Loops.inbound

theorem Ran.refl (t : Task) : t.Ran t :=
  ⟨rfl, rfl, rfl, rfl, rfl, rfl⟩

theorem Ran.trans {t' t'' : Task} (h : t.Ran t') (h' : t'.Ran t'') : t.Ran t'' where
  settings := h'.settings.trans h.settings
  phase := h'.phase.trans h.phase
  verified := h'.verified.trans h.verified
  stream := h'.stream.trans h.stream
  stopSignal := h'.stopSignal.trans h.stopSignal
  inbound := h'.inbound.trans h.inbound

theorem Ran.loops {t' : Task} (h : t.Ran t') : t'.loops.isSome = t.loops.isSome := by
  have hinbound := congrArg Option.isSome h.inbound
  simpa only [Option.isSome_map] using hinbound

theorem ran_disarm (t : Task) : t.Ran t.disarm where
  settings := rfl
  phase := rfl
  verified := rfl
  stream := rfl
  stopSignal := rfl
  inbound := by rw [Task.disarm, Option.map_map]; rfl

/-- The deadline of the send loop, and whether it is still to fire. -/
def timer (t : Task) : Option (Instant × Bool) :=
  t.loops.map fun loops => (loops.deadline, loops.armed)

theorem loops_of_timer {t : Task} {timer : Instant × Bool} (htimer : t.timer = some timer) :
    t.loops.isSome = true := by
  obtain ⟨loops, hloops, _⟩ := Option.map_eq_some_iff.mp htimer
  rw [hloops]
  rfl

theorem due_eq (now : Instant) (t : Task) :
    t.due now = t.timer.any fun timer => timer.2 && decide (timer.1 ≤ now) := by
  rw [timer, due, Option.any_map]

def outgoing (t : Task) : Bytes :=
  (t.loops.elim [] fun loops => loops.scratch.unread) ++ t.queue.unread

theorem outgoing_of_loops {loops : Loops} (hloops : t.loops = some loops) :
    t.outgoing = Outbox.waiting ⟨t.queue, loops.scratch⟩ := by
  rw [outgoing, hloops]
  rfl

theorem outgoing_push (t : Task) (bytes : Bytes) :
    (t.push bytes).outgoing = t.outgoing ++ bytes := by
  simp only [outgoing, push, Buffer.unread_append, List.append_assoc]

/-- The send loop is sure to see queued bytes, and what is in its scratch buffer keeps it writing.
-/
structure Wakeful (t : Task) : Prop where
  queued : t.queue.unread ≠ [] → t.sendSignal = true ∨ t.isWriting = true
  standing : ∀ loops, t.loops = some loops → (loops.writing = true ↔ loops.scratch.unread ≠ [])

theorem isWriting_of_loops {loops : Loops} (hloops : t.loops = some loops) :
    t.isWriting = loops.writing := by
  rw [isWriting, hloops]
  rfl

theorem Wakeful.scratch (h : t.Wakeful) (hidle : t.isWriting = false) :
    t.outgoing = t.queue.unread := by
  cases hloops : t.loops with
  | none =>
    rw [outgoing, hloops]
    rfl
  | some loops =>
    have hempty : loops.scratch.unread = [] := by
      rw [isWriting_of_loops hloops] at hidle
      by_contra hne
      rw [(h.standing loops hloops).mpr hne] at hidle
      cases hidle
    rw [outgoing_of_loops hloops, Outbox.waiting, hempty]
    rfl

/-- How writing moves bytes from the task to its stream. -/
structure Wrote (t : Task) (w : Writer) (t' : Task) (w' : Writer) : Prop where
  calls : ∃ used, w.calls = used ++ w'.calls
  flush : w'.flushFailure = w.flushFailure
  shrinks : w.Shrinks w'
  bytes : w'.taken ++ t'.outgoing = w.taken ++ t.outgoing

theorem Wrote.refl (t : Task) (w : Writer) : t.Wrote w t w :=
  ⟨⟨[], rfl⟩, rfl, .refl w, rfl⟩

theorem Wrote.trans {t' t'' : Task} {w w' w'' : Writer} (h : t.Wrote w t' w')
    (h' : t'.Wrote w' t'' w'') : t.Wrote w t'' w'' := by
  obtain ⟨used, hcalls⟩ := h.calls
  obtain ⟨more, hcalls'⟩ := h'.calls
  refine ⟨⟨used ++ more, ?_⟩, h'.flush.trans h.flush,
    h.shrinks.trans h'.shrinks fun hnone => ?_, h'.bytes.trans h.bytes⟩
  · rw [hcalls, hcalls', List.append_assoc]
  · exact (List.append_eq_nil_iff.mp (hcalls.symm.trans hnone)).2

theorem Wrote.calm {t' : Task} {w w' : Writer} (h : t.Wrote w t' w')
    (hcalm : incoming w.calls = []) : incoming w'.calls = [] := by
  obtain ⟨used, hcalls⟩ := h.calls
  rw [hcalls, incoming_append] at hcalm
  exact (List.append_eq_nil_iff.mp hcalm).2

theorem Wrote.takesAll {t' : Task} {w w' : Writer} (h : t.Wrote w t' w') (hw : w.TakesAll) :
    w'.TakesAll := by
  obtain ⟨used, hcalls⟩ := h.calls
  have hbounded := h.shrinks.bounded
  rw [hw.room, Option.isSome_none, Option.isSome_eq_false_iff, Option.isNone_iff_eq_none]
    at hbounded
  exact ⟨(List.append_eq_nil_iff.mp (hcalls.symm.trans hw.calls)).2, hbounded,
    h.flush.trans hw.flush⟩

/-- Where writing stops: everything is written, or there is no more room. -/
structure Stops (result : Except IoError Outbox.Progress) (t : Task) (w : Writer) : Prop where
  done : result = .ok .done → t.outgoing = [] ∧ t.isWriting = false
  waits : result = .ok .waiting → t.isWriting = true ∧ w.room = some 0
  wakeful : (∀ e, result ≠ .error e) → t.Wakeful

variable {w : Writer}
  {write : Outbox → Writer → Except IoError Outbox.Progress × Outbox × Writer}

theorem ran_writeBy (t : Task) : t.Ran (t.writeBy write w).2.1 := by
  unfold writeBy
  cases hloops : t.loops with
  | none => exact .refl t
  | some loops => exact ⟨rfl, rfl, rfl, rfl, rfl, by rw [hloops]; rfl⟩

theorem timer_writeBy (t : Task) : (t.writeBy write w).2.1.timer = t.timer := by
  unfold writeBy timer
  cases hloops : t.loops with
  | none => exact congrArg _ hloops
  | some loops => rfl

theorem wrote_writeBy {loops : Loops} (hloops : t.loops = some loops)
    (hcalm : incoming w.calls = [])
    (hcomes : ∃ used,
      Outbox.Comes ⟨t.queue, loops.scratch⟩ w used (write ⟨t.queue, loops.scratch⟩ w)) :
    t.Wrote w (t.writeBy write w).2.1 (t.writeBy write w).2.2 ∧
      Stops (t.writeBy write w).1 (t.writeBy write w).2.1 (t.writeBy write w).2.2 ∧
      (w.TakesAll → (t.writeBy write w).1 = .ok .done) := by
  obtain ⟨used, hcomes⟩ := hcomes
  have hpasses := hcomes.passes
  have hincoming : incoming used = [] := by
    rw [hpasses.calls] at hcalm
    exact incoming_eq_nil_of_append hcalm
  have hbytes := hpasses.bytes
  rw [hincoming, List.append_nil, ← outgoing_of_loops hloops] at hbytes
  simp only [writeBy, hloops]
  generalize write ⟨t.queue, loops.scratch⟩ w = out at hcomes hpasses hbytes ⊢
  obtain ⟨result, q, w'⟩ := out
  refine ⟨⟨⟨used, hpasses.calls⟩, hpasses.flush, hpasses.shrinks, hbytes⟩,
    ⟨?_, ?_, fun hok => ⟨fun hne => ?_, ?_⟩⟩, fun hw => ?_⟩
  · rintro rfl
    exact ⟨hcomes.done rfl, rfl⟩
  · rintro rfl
    exact ⟨rfl, (hcomes.waits rfl).1⟩
  · match result with
    | .error e => exact absurd rfl (hok e)
    | .ok .done => exact absurd (List.append_eq_nil_iff.mp (hcomes.done rfl)).2 hne
    | .ok .waiting => exact .inr rfl
  · rintro _ ⟨⟩
    match result with
    | .error e => exact absurd rfl (hok e)
    | .ok .done =>
      exact iff_of_false nofun (not_not_intro (List.append_eq_nil_iff.mp (hcomes.done rfl)).1)
    | .ok .waiting => exact iff_of_true rfl (hcomes.waits rfl).2
  · have hused : used = [] := (List.append_eq_nil_iff.mp (hpasses.calls.symm.trans hw.calls)).1
    exact hcomes.succeeds hw.flush hw.room (by simp [hused])

theorem wrote_resumeWrite (ht : t.Wakeful) (hwriting : t.isWriting = true)
    (hcalm : incoming w.calls = []) :
    t.Wrote w (t.resumeWrite w).2.1 (t.resumeWrite w).2.2 ∧
      Stops (t.resumeWrite w).1 (t.resumeWrite w).2.1 (t.resumeWrite w).2.2 ∧
      (w.TakesAll → (t.resumeWrite w).1 = .ok .done) := by
  cases hloops : t.loops with
  | none =>
    rw [isWriting, hloops] at hwriting
    cases hwriting
  | some loops =>
    have hoffered : loops.scratch.unread ≠ [] :=
      (ht.standing loops hloops).mp ((isWriting_of_loops hloops).symm.trans hwriting)
    rw [resumeWrite, if_pos hwriting]
    exact wrote_writeBy hloops hcalm
      (Outbox.comes_resume_of_writing (q := ⟨t.queue, loops.scratch⟩) hoffered w)

theorem wrote_writeQueued (ht : t.Wakeful) (hidle : t.isWriting = false)
    (hloops : t.loops.isSome = true) (hcalm : incoming w.calls = []) :
    t.Wrote w (t.writeQueued w).2.1 (t.writeQueued w).2.2 ∧
      Stops (t.writeQueued w).1 (t.writeQueued w).2.1 (t.writeQueued w).2.2 ∧
      (w.TakesAll → (t.writeQueued w).1 = .ok .done) := by
  obtain ⟨loops, hloops⟩ := Option.isSome_iff_exists.mp hloops
  unfold writeQueued
  split_ifs with hsignal
  · have hwoken : Task.loops { t with sendSignal := false } = some loops := hloops
    obtain ⟨hwrote, hstops⟩ := wrote_writeBy hwoken hcalm
      (Outbox.comes_writeOut ⟨t.queue, loops.scratch⟩ w)
    exact ⟨⟨hwrote.calls, hwrote.flush, hwrote.shrinks, hwrote.bytes⟩, hstops⟩
  · have hempty : t.queue.unread = [] := by
      by_contra hne
      exact (ht.queued hne).elim hsignal (by simp [hidle])
    exact ⟨.refl t w, ⟨fun _ => ⟨(ht.scratch hidle).trans hempty, hidle⟩, nofun, fun _ => ht⟩,
      fun _ => rfl⟩

theorem ran_resumeWrite (t : Task) (w : Writer) : t.Ran (t.resumeWrite w).2.1 := by
  unfold resumeWrite
  split_ifs
  · exact ran_writeBy t
  · exact .refl t

theorem ran_writeQueued (t : Task) (w : Writer) : t.Ran (t.writeQueued w).2.1 := by
  unfold writeQueued
  split_ifs
  · have hran : Ran { t with sendSignal := false }
        ({ t with sendSignal := false }.writeBy Outbox.writeOut w).2.1 := ran_writeBy _
    exact ⟨hran.settings, hran.phase, hran.verified, hran.stream, hran.stopSignal, hran.inbound⟩
  · exact .refl t

theorem timer_resumeWrite (t : Task) (w : Writer) : (t.resumeWrite w).2.1.timer = t.timer := by
  unfold resumeWrite
  split_ifs
  · exact timer_writeBy t
  · rfl

theorem timer_writeQueued (t : Task) (w : Writer) : (t.writeQueued w).2.1.timer = t.timer := by
  unfold writeQueued
  split_ifs
  · exact timer_writeBy { t with sendSignal := false }
  · rfl

theorem writeAll_eq (w : Writer) (t : Task) :
    t.writeAll w =
      if (t.resumeWrite w).1 = .ok .done then
        (t.resumeWrite w).2.1.writeQueued (t.resumeWrite w).2.2
      else t.resumeWrite w := by
  unfold writeAll
  generalize t.resumeWrite w = out
  obtain ⟨result, t', w'⟩ := out
  match result with
  | .error e | .ok .done | .ok .waiting => simp

theorem writeAll_of_idle (hidle : t.isWriting = false) (w : Writer) :
    t.writeAll w = t.writeQueued w := by
  rw [writeAll, resumeWrite, if_neg (by simp [hidle])]

theorem ran_writeAll (t : Task) (w : Writer) : t.Ran (t.writeAll w).2.1 := by
  rw [writeAll_eq]
  split_ifs
  · exact (ran_resumeWrite t w).trans (ran_writeQueued _ _)
  · exact ran_resumeWrite t w

theorem timer_writeAll (t : Task) (w : Writer) : (t.writeAll w).2.1.timer = t.timer := by
  rw [writeAll_eq]
  split_ifs
  · exact (timer_writeQueued _ _).trans (timer_resumeWrite t w)
  · exact timer_resumeWrite t w

theorem wrote_writeAll (ht : t.Wakeful) (hloops : t.loops.isSome = true)
    (hcalm : incoming w.calls = []) :
    t.Wrote w (t.writeAll w).2.1 (t.writeAll w).2.2 ∧
      Stops (t.writeAll w).1 (t.writeAll w).2.1 (t.writeAll w).2.2 ∧
      (w.TakesAll → (t.writeAll w).1 = .ok .done) := by
  cases hwriting : t.isWriting with
  | false =>
    rw [writeAll_of_idle hwriting]
    exact wrote_writeQueued ht hwriting hloops hcalm
  | true =>
    obtain ⟨hresumed, hstops, htakes⟩ := wrote_resumeWrite ht hwriting hcalm
    rw [writeAll_eq]
    split_ifs with hdone
    · -- behind the write that it stood in, the loop looks for its signal as if it had just waited
      obtain ⟨hwrote, hstops', htakes'⟩ := wrote_writeQueued (hstops.wakeful (by simp [hdone]))
        (hstops.done hdone).2 ((ran_resumeWrite t w).loops.trans hloops) (hresumed.calm hcalm)
      exact ⟨hresumed.trans hwrote, hstops', fun hw => htakes' (hresumed.takesAll hw)⟩
    · exact ⟨hresumed, hstops, fun hw => absurd (htakes hw) hdone⟩

theorem runSendLoop_of_error {e : IoError} (hwrote : (t.writeAll w).1 = .error e)
    (now : Instant) : t.runSendLoop now w = (some (.failed (.io e)), (t.writeAll w).2) := by
  unfold runSendLoop
  generalize t.writeAll w = out at hwrote ⊢
  obtain ⟨result, t', w'⟩ := out
  cases hwrote
  rfl

theorem runSendLoop_of_waiting (hwrote : (t.writeAll w).1 = .ok .waiting) (now : Instant) :
    t.runSendLoop now w = (none, (t.writeAll w).2) := by
  unfold runSendLoop
  generalize t.writeAll w = out at hwrote ⊢
  obtain ⟨result, t', w'⟩ := out
  cases hwrote
  rfl

/-- What the send loop does behind its writing depends on the task as it was before. -/
theorem runSendLoop_of_done (hwrote : (t.writeAll w).1 = .ok .done) (now : Instant) :
    t.runSendLoop now w =
      if t.stopSignal then (some .stopped, (t.writeAll w).2)
      else if t.due now then
        if t.verified then (none, (t.writeAll w).2.1.disarm, (t.writeAll w).2.2)
        else (some (.failed .verifyTimeout), (t.writeAll w).2)
      else (none, (t.writeAll w).2) := by
  have hran := ran_writeAll t w
  have hdue : (t.writeAll w).2.1.due now = t.due now := by
    rw [due_eq, due_eq, timer_writeAll]
  unfold runSendLoop
  rw [← hran.stopSignal, ← hdue, ← hran.verified]
  generalize t.writeAll w = out at hwrote ⊢
  obtain ⟨result, t', w'⟩ := out
  cases hwrote
  rfl

theorem ran_runSendLoop (now : Instant) (w : Writer) (t : Task) :
    t.Ran (t.runSendLoop now w).2.1 := by
  have hran := ran_writeAll t w
  match hwrote : (t.writeAll w).1 with
  | .error e => rwa [runSendLoop_of_error hwrote]
  | .ok .waiting => rwa [runSendLoop_of_waiting hwrote]
  | .ok .done =>
    rw [runSendLoop_of_done hwrote]
    split_ifs
    · exact hran
    · exact hran.trans (ran_disarm _)
    · exact hran
    · exact hran

/-- Where the send loop has come to, if its stream has not failed: it waits with nothing left to
write, it has ended there, or it stands in a write for want of room. -/
structure Rests (ending : Option Exit) (t : Task) (w : Writer) : Prop where
  wakeful : t.Wakeful
  idle : t.isWriting = false → t.outgoing = []
  held : t.isWriting = true → ending = none ∧ w.room = some 0

theorem Rests.written {ending : Option Exit} (h : Rests ending t w) (hends : ending ≠ none) :
    t.outgoing = [] := by
  refine h.idle ?_
  by_contra hwriting
  exact hends (h.held (by simpa using hwriting)).1

theorem isWriting_disarm (t : Task) : t.disarm.isWriting = t.isWriting := by
  cases hloops : t.loops <;> simp [isWriting, disarm, hloops]

theorem outgoing_disarm (t : Task) : t.disarm.outgoing = t.outgoing := by
  cases hloops : t.loops <;> simp [outgoing, disarm, hloops]

theorem outgoing_setInbound (t : Task) (b : Buffer) : (t.setInbound b).outgoing = t.outgoing := by
  cases hloops : t.loops <;> simp [outgoing, setInbound, hloops]

theorem isWriting_setInbound (t : Task) (b : Buffer) :
    (t.setInbound b).isWriting = t.isWriting := by
  cases hloops : t.loops <;> simp [isWriting, setInbound, hloops]

theorem Wakeful.setInbound (ht : t.Wakeful) (b : Buffer) : (t.setInbound b).Wakeful where
  queued := by
    rw [isWriting_setInbound]
    exact ht.queued
  standing := by
    intro loops hloops
    obtain ⟨loops', hloops', rfl⟩ := Option.map_eq_some_iff.mp hloops
    exact ht.standing loops' hloops'

theorem timer_disarm (t : Task) : t.disarm.timer = t.timer.map fun timer => (timer.1, false) := by
  cases hloops : t.loops <;> simp [timer, disarm, hloops]

theorem Wakeful.disarm (ht : t.Wakeful) : t.disarm.Wakeful where
  queued := by
    rw [isWriting_disarm]
    exact ht.queued
  standing := by
    intro loops hloops
    obtain ⟨loops', hloops', rfl⟩ := Option.map_eq_some_iff.mp hloops
    exact ht.standing loops' hloops'

theorem wrote_runSendLoop (ht : t.Wakeful) (hloops : t.loops.isSome = true)
    (hcalm : incoming w.calls = []) (now : Instant) :
    t.Wrote w (t.runSendLoop now w).2.1 (t.runSendLoop now w).2.2 ∧
      ((∀ e, (t.runSendLoop now w).1 ≠ some (.failed (.io e))) →
        Rests (t.runSendLoop now w).1 (t.runSendLoop now w).2.1 (t.runSendLoop now w).2.2) := by
  obtain ⟨hwrote, hstops, _⟩ := wrote_writeAll ht hloops hcalm
  match hresult : (t.writeAll w).1 with
  | .error e =>
    rw [runSendLoop_of_error hresult]
    exact ⟨hwrote, fun hio => absurd rfl (hio e)⟩
  | .ok .waiting =>
    obtain ⟨hwriting, hroom⟩ := hstops.waits hresult
    rw [runSendLoop_of_waiting hresult]
    exact ⟨hwrote, fun _ => ⟨hstops.wakeful (by simp [hresult]),
      fun hidle => by simp [hwriting] at hidle, fun _ => ⟨rfl, hroom⟩⟩⟩
  | .ok .done =>
    obtain ⟨hempty, hidle⟩ := hstops.done hresult
    have hwakeful := hstops.wakeful (by simp [hresult])
    have hrests (ending : Option Exit) : Rests ending (t.writeAll w).2.1 (t.writeAll w).2.2 :=
      ⟨hwakeful, fun _ => hempty, fun hwriting => by simp [hidle] at hwriting⟩
    rw [runSendLoop_of_done hresult]
    split_ifs
    · exact ⟨hwrote, fun _ => hrests _⟩
    · refine ⟨⟨hwrote.calls, hwrote.flush, hwrote.shrinks, ?_⟩, fun _ => ⟨hwakeful.disarm, ?_, ?_⟩⟩
      · rw [outgoing_disarm]
        exact hwrote.bytes
      · rw [outgoing_disarm]
        exact fun _ => hempty
      · rw [isWriting_disarm, hidle]
        exact nofun
    · exact ⟨hwrote, fun _ => hrests _⟩
    · exact ⟨hwrote, fun _ => hrests _⟩

/-- A send loop that is not held up has written everything before it looks for a stop. -/
theorem outgoing_runSendLoop_of_done (ht : t.Wakeful) (hloops : t.loops.isSome = true)
    (hcalm : incoming w.calls = []) (hdone : (t.writeAll w).1 = .ok .done) (now : Instant) :
    (t.runSendLoop now w).2.1.outgoing = [] := by
  obtain ⟨-, hstops, -⟩ := wrote_writeAll ht hloops hcalm
  obtain ⟨hempty, _⟩ := hstops.done hdone
  rw [runSendLoop_of_done hdone]
  split_ifs
  · exact hempty
  · rw [outgoing_disarm, hempty]
  · exact hempty
  · exact hempty

theorem writeAll_takesAll (ht : t.Wakeful) (hloops : t.loops.isSome = true) (hw : w.TakesAll) :
    (t.writeAll w).1 = .ok .done :=
  (wrote_writeAll ht hloops (by rw [hw.calls]; rfl)).2.2 hw

/-! ## The deadline -/

theorem runSendLoop_of_verified (hverified : t.verified = true) (now : Instant) (w : Writer) :
    (t.runSendLoop now w).1 ≠ some (.failed .verifyTimeout) := by
  match hresult : (t.writeAll w).1 with
  | .error e => simp [runSendLoop_of_error hresult]
  | .ok .waiting => simp [runSendLoop_of_waiting hresult]
  | .ok .done =>
    rw [runSendLoop_of_done hresult, if_pos hverified]
    split_ifs <;> simp

/-- A send loop that finds a stop or a deadline without verification comes to an end, unless it
stands in a write. -/
theorem isSome_runSendLoop (now : Instant) (w : Writer)
    (hends : t.stopSignal = true ∨ t.verified = false ∧ t.due now = true)
    (hwrote : (t.writeAll w).1 ≠ .ok .waiting) : (t.runSendLoop now w).1.isSome = true := by
  match hresult : (t.writeAll w).1 with
  | .error e => rw [runSendLoop_of_error hresult]; rfl
  | .ok .waiting => exact absurd hresult hwrote
  | .ok .done =>
    rw [runSendLoop_of_done hresult]
    rcases hends with hstop | ⟨hunverified, hdue⟩
    · rw [if_pos hstop]
      rfl
    · simp only [hdue, hunverified, if_true, Bool.false_eq_true, if_false]
      split_ifs <;> rfl

/-- The send loop gets as far as its deadline, and finds it over. -/
def fires (now : Instant) (w : Writer) (t : Task) : Bool :=
  ((t.writeAll w).1 matches .ok .done) && !t.stopSignal && t.due now

theorem fires_iff (now : Instant) (w : Writer) (t : Task) :
    t.fires now w = true ↔
      (t.writeAll w).1 = .ok .done ∧ t.stopSignal = false ∧ t.due now = true := by
  unfold fires
  match (t.writeAll w).1 with
  | .error e | .ok .waiting | .ok .done => simp

theorem runSendLoop_of_fires {now : Instant} (hfires : t.fires now w = true) :
    (t.runSendLoop now w).1 = if t.verified then none else some (.failed .verifyTimeout) := by
  obtain ⟨hdone, hstop, hdue⟩ := (fires_iff now w t).mp hfires
  rw [runSendLoop_of_done hdone, hstop, if_neg nofun, if_pos hdue]
  split_ifs <;> rfl

theorem fires_of_timeout {now : Instant}
    (hends : (t.runSendLoop now w).1 = some (.failed .verifyTimeout)) :
    t.fires now w = true ∧ t.verified = false := by
  match hresult : (t.writeAll w).1 with
  | .error e =>
    rw [runSendLoop_of_error hresult] at hends
    cases hends
  | .ok .waiting =>
    rw [runSendLoop_of_waiting hresult] at hends
    cases hends
  | .ok .done =>
    rw [runSendLoop_of_done hresult] at hends
    split_ifs at hends with hstop hdue hverified
    · cases hends
    · exact ⟨(fires_iff now w t).mpr ⟨hresult, by simpa using hstop, hdue⟩,
        by simpa using hverified⟩

theorem timer_runSendLoop (now : Instant) (w : Writer) (t : Task) :
    (t.runSendLoop now w).2.1.timer =
      if t.fires now w ∧ t.verified then t.disarm.timer else t.timer := by
  have htimer := timer_writeAll t w
  match hresult : (t.writeAll w).1 with
  | .error e =>
    rw [runSendLoop_of_error hresult, htimer, if_neg]
    simp [fires_iff, hresult]
  | .ok .waiting =>
    rw [runSendLoop_of_waiting hresult, htimer, if_neg]
    simp [fires_iff, hresult]
  | .ok .done =>
    have hfires : t.fires now w = true ↔ t.stopSignal = false ∧ t.due now = true := by
      rw [fires_iff, and_iff_right hresult]
    have hdisarm : (t.writeAll w).2.1.disarm.timer = t.disarm.timer := by
      rw [timer_disarm, timer_disarm, htimer]
    rw [runSendLoop_of_done hresult]
    simp only [hfires]
    split_ifs <;> simp_all

end FrameLink.Task
