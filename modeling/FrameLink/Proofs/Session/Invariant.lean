import FrameLink.Proofs.Session.Loops

/-!
# The invariant of a session

In every session that was made by steps, the phase fits the loops and the counts of openings, closes
and resets, and the ledger fits the buffers: while the loops run, what was accepted is what was
written and then what is on its way out, and bytes on their way out keep the send loop going.
-/

namespace FrameLink.Session

variable {σ : Type}

/-- The endings of a send loop that wrote all it had. -/
def Orderly (ending : Option Task.Exit) : Prop :=
  ending = some .stopped ∨ ending = some (.failed .verifyTimeout)

/-- What the ledger of a session tells. -/
structure Booked (s : Session σ) : Prop where
  idle : s.task.isOpen = false → s.task.queue.unread = []
  running : s.task.phase = .opened → s.ledger.ending = none
  queued : s.task.loops.isSome = true → s.ledger.accepted = s.ledger.written ++ s.task.outgoing
  wakeful : s.task.loops.isSome = true → s.task.Wakeful
  front : s.ledger.written <+: s.ledger.accepted
  orderly : Orderly s.ledger.ending → s.ledger.written = s.ledger.accepted

structure Sound (s : Session σ) : Prop where
  placed : s.Placed
  booked : s.Booked

variable {h : Handler σ} {now : Instant} {s s' : Session σ}

theorem sound_ofTask (state : σ) (settings : Task.Settings) :
    (ofTask state (Task.ofSettings settings)).Sound where
  placed := ⟨nofun, fun _ => rfl, nofun, rfl⟩
  booked := ⟨fun _ => rfl, nofun, nofun, nofun, List.prefix_rfl, fun _ => rfl⟩

/-! ## The ledger -/

theorem not_orderly_none : ¬Orderly none := by
  rintro (hstopped | hfailed)
  · cases hstopped
  · cases hfailed

theorem Booked.push (hs : s.Booked) (hopen : s.task.isOpen = true) (bytes : Bytes) :
    (s.push bytes).Booked where
  idle hclosed := by
    have hstill : (s.push bytes).task.isOpen = true := hopen
    rw [hclosed] at hstill
    cases hstill
  running := hs.running
  queued hloops := by
    have hqueued := hs.queued hloops
    simp only [Session.push, Ledger.offer, Task.outgoing_push, if_true]
    rw [hqueued, List.append_assoc]
  wakeful hloops := ⟨fun _ => .inl rfl, (hs.wakeful hloops).standing⟩
  front := hs.front.trans (List.prefix_append _ _)
  orderly hending := by
    have hrunning : (s.push bytes).ledger.ending = none := hs.running (Task.isOpen_iff.mp hopen)
    rw [hrunning] at hending
    exact absurd hending not_orderly_none

theorem Booked.shut (hs : s.Booked) : (s.shut h).Booked :=
  ⟨fun _ => s.task.queue.unread_reset, nofun, nofun, nofun, hs.front, hs.orderly⟩

theorem Booked.launch (hs : s.Booked) (hplaced : s.Placed)
    (hunstarted : s.task.phase = .unstarted) : (s.launch now).2.Booked := by
  have hempty := hs.idle (Task.isOpen_eq_false_iff.mpr (by rw [hunstarted]; exact nofun))
  have hloops := hplaced.no_loops (by rw [hunstarted]; exact nofun)
  have hlaunches := launches now s
  generalize (s.launch now).1 = outcome, (s.launch now).2 = s' at hlaunches
  cases hlaunches with
  | refused => exact hs
  | unconnected _ hstream =>
    rw [hplaced.connected hunstarted] at hstream
    cases hstream
  | started =>
    refine ⟨nofun, fun _ => rfl, fun _ => hempty.symm, fun _ => ⟨fun hne => absurd hempty hne, ?_⟩,
      List.prefix_rfl, fun _ => rfl⟩
    rintro loops ⟨⟩
    exact iff_of_false nofun (not_not_intro rfl)
  | overflow =>
    have hno : ¬s.task.loops.isSome = true := by simp [hloops]
    exact ⟨nofun, fun _ => rfl, fun hsome => absurd hsome hno, fun hsome => absurd hsome hno,
      List.prefix_rfl, fun _ => rfl⟩

theorem Booked.effect (hs : s.Booked) (hplaced : s.Placed) (heffect : Effect h now s s') :
    s'.Booked := by
  cases heffect with
  | verify | stop | report | discard =>
    refine ⟨hs.idle, hs.running, hs.queued, fun hloops => ?_, hs.front, hs.orderly⟩
    exact ⟨(hs.wakeful hloops).queued, (hs.wakeful hloops).standing⟩
  | signal =>
    refine ⟨hs.idle, hs.running, hs.queued, fun hloops => ?_, hs.front, hs.orderly⟩
    exact ⟨fun _ => .inl rfl, (hs.wakeful hloops).standing⟩
  | push bytes hopen => exact hs.push hopen bytes
  | shut => exact hs.shut
  | launch hunstarted => exact hs.launch hplaced hunstarted
  | renew _ hclosed =>
    have hno : ¬s.task.loops.isSome = true := by
      simp [hplaced.no_loops (by rw [hclosed]; exact nofun)]
    exact ⟨fun _ => s.task.queue.unread_reset, nofun, fun hsome => absurd hsome hno,
      fun hsome => absurd hsome hno, hs.front, hs.orderly⟩

/-- What a turn of the send loop writes is the front of what was on its way out. It is all of it
where the loop has ended, unless the stream failed, and where it waits outside a write. -/
theorem Booked.wrote (hs : s.Booked) {w : Writer} (hfresh : w.Fresh)
    (hloops : s.task.loops.isSome = true) (now : Instant) :
    (s.wrote now w).ledger.accepted =
        (s.wrote now w).ledger.written ++ (s.wrote now w).task.outgoing ∧
      ((∀ e, (s.task.runSendLoop now w).1 ≠ some (.failed (.io e))) →
        Task.Rests (s.task.runSendLoop now w).1 (s.wrote now w).task
          (s.task.runSendLoop now w).2.2) := by
  obtain ⟨hwrote, hrests⟩ :=
    Task.wrote_runSendLoop (hs.wakeful hloops) hloops hfresh.incoming now
  refine ⟨?_, hrests⟩
  have hbytes := hwrote.bytes
  rw [hfresh.taken, List.nil_append] at hbytes
  simp only [Session.wrote, Ledger.write]
  rw [hs.queued hloops, ← hbytes, List.append_assoc]

theorem Booked.step (hs : s.Booked) (hplaced : s.Placed) (hstep : Step h now s s') :
    s'.Booked := by
  cases hstep with
  | effect heffect => exact hs.effect hplaced heffect
  | enter | stray => exact ⟨hs.idle, hs.running, hs.queued, hs.wakeful, hs.front, hs.orderly⟩
  | inbound b =>
    have hloops : (s.task.setInbound b).loops.isSome = s.task.loops.isSome := Option.isSome_map ..
    refine ⟨hs.idle, hs.running, ?_, ?_, hs.front, hs.orderly⟩
    · rw [hloops, Task.outgoing_setInbound]
      exact hs.queued
    · rw [hloops]
      exact fun hsome => (hs.wakeful hsome).setInbound b
  | @write w hfresh hloops hopen hgoes =>
    obtain ⟨hqueued, hrests⟩ := hs.wrote hfresh hloops now
    have hrests := hrests (by rw [hgoes]; exact nofun)
    have hstill := (isOpen_wrote now w s).trans hopen
    refine ⟨fun hclosed => ?_, fun _ => hgoes, fun _ => hqueued, fun _ => hrests.wakeful,
      ⟨_, hqueued.symm⟩, fun horderly => ?_⟩
    · rw [hstill] at hclosed
      cases hclosed
    · have hending : (s.wrote now w).ledger.ending = none := hgoes
      rw [hending] at horderly
      exact absurd horderly not_orderly_none
  | @exit w ending hfresh hloops _ hends =>
    obtain ⟨hqueued, hrests⟩ := hs.wrote hfresh hloops now
    -- an orderly ending is no failure of the stream
    refine ⟨fun _ => (s.wrote now w).task.queue.unread_reset, nofun, nofun, nofun,
      ⟨_, hqueued.symm⟩, fun horderly => ?_⟩
    have hending : (s.wrote now w).ledger.ending = some ending := hends
    have horderly' : Orderly (s.wrote now w).ledger.ending := horderly
    have hio : ∀ e, (s.task.runSendLoop now w).1 ≠ some (.failed (.io e)) := by
      intro e he
      rw [hends] at he
      rw [hending, he] at horderly'
      exact horderly'.elim nofun nofun
    have hempty := (hrests hio).written (by rw [hends]; exact nofun)
    rw [hempty, List.append_nil] at hqueued
    exact hqueued.symm

theorem Sound.steps (hs : s.Sound) (hsteps : Steps h now s s') : s'.Sound := by
  induction hsteps with
  | refl => exact hs
  | tail _ hstep ih => exact ⟨ih.placed.step hstep, ih.booked.step ih.placed hstep⟩

theorem Sound.stock (hs : s.Sound) (spares : Nat) : Sound { s with spares } where
  placed := hs.placed.stock spares
  booked := ⟨hs.booked.idle, hs.booked.running, hs.booked.queued, hs.booked.wakeful,
    hs.booked.front, hs.booked.orderly⟩

/-- A send loop that is not held up writes all that was accepted. -/
theorem Sound.wrote_done (hs : s.Sound) {w : Writer} (hfresh : w.Fresh)
    (hloops : s.task.loops.isSome = true) (hdone : (s.task.writeAll w).1 = .ok .done)
    (now : Instant) : (s.wrote now w).ledger.written = s.ledger.accepted := by
  have hempty := Task.outgoing_runSendLoop_of_done (hs.booked.wakeful hloops) hloops
    hfresh.incoming hdone now
  have hqueued : s.ledger.accepted =
      (s.wrote now w).ledger.written ++ (s.task.runSendLoop now w).2.1.outgoing :=
    (hs.booked.wrote hfresh hloops now).1
  rw [hempty, List.append_nil] at hqueued
  exact hqueued.symm

theorem Sound.wrote_willing (hs : s.Sound) (hloops : s.task.loops.isSome = true) (now : Instant) :
    (s.wrote now .willing).ledger.written = s.ledger.accepted :=
  hs.wrote_done (Writer.fresh_ofRoom none) hloops
    (Task.writeAll_takesAll (hs.booked.wakeful hloops) hloops Writer.takesAll_willing) now

/-- A turn of the send loop that leaves the task open on its stream has written all there was, or
stands in a write for want of room. -/
theorem Sound.rests_of_flush (hs : s.Sound) {w : Writer} (hfresh : w.Fresh)
    (hresets : (s.flush h now w).1.resets = s.resets)
    (hloops : (s.flush h now w).1.task.loops.isSome = true) :
    (s.flush h now w).1 = s.wrote now w ∧
      Task.Rests none (s.wrote now w).task (s.task.runSendLoop now w).2.2 := by
  cases hsome : s.task.loops.isSome with
  | false =>
    rw [flush_of_no_loops (by simpa using hsome), hsome] at hloops
    cases hloops
  | true =>
    cases hends : (s.task.runSendLoop now w).1 with
    | none =>
      have hrests := (hs.booked.wrote hfresh hsome now).2 (by rw [hends]; exact nofun)
      rw [hends] at hrests
      exact ⟨flush_of_goes hsome hends, hrests⟩
    | some ending =>
      have hopen := (hs.placed.steps (steps_flush (h := h) hfresh hs.placed)).isOpen hloops
      rw [flush_of_ends hsome hends] at hopen hresets
      rw [isOpen_close hresets] at hopen
      cases hopen

theorem Sound.accepted_flush_willing (hs : s.Sound)
    (hresets : (s.flush h now .willing).1.resets = s.resets)
    (hloops : (s.flush h now .willing).1.task.loops.isSome = true) :
    (s.flush h now .willing).1.ledger.written = (s.flush h now .willing).1.ledger.accepted := by
  have hfresh : Writer.willing.Fresh := Writer.fresh_ofRoom none
  obtain ⟨hflush, _⟩ := hs.rests_of_flush hfresh hresets hloops
  cases hsome : s.task.loops.isSome with
  | false =>
    rw [flush_of_no_loops (by simpa using hsome), hsome] at hloops
    cases hloops
  | true =>
    rw [hflush]
    exact hs.wrote_willing hsome now

end FrameLink.Session
