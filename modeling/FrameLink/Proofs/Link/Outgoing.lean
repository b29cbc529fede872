import FrameLink.Proofs.Link.Stranding

/-!
# What a link sends

The bytes that a task accepted since it was opened reach the peer in their order, from the first
one on. None is missing where the link has settled and the peer reads, or where the send loop ended
on its own.
-/

namespace FrameLink

def Peer.Unspoken (p : Peer) : Prop :=
  p.deaf = false → p.gone = false → p.received ++ p.arriving = []

theorem Peer.unspoken_fresh : Peer.fresh.Unspoken :=
  fun _ _ => rfl

namespace Link

variable {σ : Type} {h : Handler σ} {now : Instant} {l : Link σ}

/-- A peer that has not stopped reading has what the task has written, or has it on its way. -/
def Heard (l : Link σ) : Prop :=
  l.peer.deaf = false → l.peer.gone = false → l.peer.received ++ l.peer.arriving =
    if l.session.task.phase = .unstarted then [] else l.session.ledger.written

theorem Heard.unspoken (hl : l.Heard) (hphase : l.session.task.phase = .unstarted) :
    l.peer.Unspoken := by
  intro hdeaf hgone
  rw [hl hdeaf hgone, if_pos hphase]

theorem heard_of_untouched {s : Session σ} {p : Peer} (hs : s.Untouched) (hp : p.Unspoken) :
    Heard ⟨s, p⟩ := by
  intro hdeaf hgone
  rw [hp hdeaf hgone]
  split_ifs with hphase
  · rfl
  · exact (hs.ledger hphase).2.symm

theorem Heard.of_goesOn (hl : l.Heard) {s : Session σ} {p : Peer} (hgoes : l.session.GoesOn s)
    (hwritten : s.ledger.written = l.session.ledger.written)
    (hpeer : p.deaf = false → p.gone = false → l.peer.deaf = false ∧ l.peer.gone = false ∧
      p.received ++ p.arriving = l.peer.received ++ l.peer.arriving) : Heard ⟨s, p⟩ := by
  intro hdeaf hgone
  obtain ⟨hdeaf', hgone', hbytes⟩ := hpeer hdeaf hgone
  dsimp only
  rw [hbytes, hl hdeaf' hgone', hwritten]
  simp only [hgoes.unstarted_iff]

/-- A session without its peer stands for a link whose new connection has a fresh one. -/
theorem heard_of_left {s : Session σ} {p : Peer} (hresets : s.resets ≠ l.session.resets)
    (hs : s.Untouched) : (l.after s p).Heard := by
  rw [after_of_left hresets]
  exact heard_of_untouched hs Peer.unspoken_fresh

theorem Heard.after (hl : l.Heard) (hs : l.session.Placed) {spares : Nat} {s : Session σ}
    (heffects : Session.Effects h now { l.session with spares } s) :
    (l.after s l.peer).Heard := by
  rcases heffects.kept_or_untouched hs with hkept | ⟨huntouched, hunstarted⟩
  · rw [after_of_resets hkept.goesOn.resets]
    exact hl.of_goesOn hkept.goesOn (by rw [hkept.ledger]) fun hdeaf hgone => ⟨hdeaf, hgone, rfl⟩
  · by_cases hresets : s.resets = l.session.resets
    · rw [after_of_resets hresets]
      exact heard_of_untouched huntouched (hl.unspoken (hunstarted hresets))
    · exact heard_of_left hresets huntouched

theorem Heard.turn (hl : l.Heard) (hs : l.session.Placed) (now : Instant) :
    (l.turn h now).Heard := by
  unfold Link.turn
  dsimp only
  by_cases hresets : (l.session.flush h now l.peer.writer).1.resets = l.session.resets
  · have hwritten := Session.written_flush hs hresets
    rw [after_of_resets hresets]
    intro hdeaf hgone
    have hbytes : (l.peer.hear (l.session.flush h now l.peer.writer).2).received ++
        (l.peer.hear (l.session.flush h now l.peer.writer).2).arriving =
          (l.peer.received ++ l.peer.arriving) ++ (l.session.flush h now l.peer.writer).2 :=
      (List.append_assoc _ _ _).symm
    dsimp only
    rw [hbytes, hl hdeaf hgone, hwritten]
    by_cases hphase : l.session.task.phase = .unstarted
    · have hnone := hs.no_loops (by rw [hphase]; exact nofun)
      rw [Session.flush_of_no_loops hnone, if_pos hphase, if_pos hphase, List.append_nil]
    · have hsteps : Session.Steps h now l.session (l.session.flush h now l.peer.writer).1 :=
        Session.steps_flush l.peer.fresh_writer hs
      have hgoes := hsteps.follows.goesOn_of_resets hphase hresets
      rw [if_neg hphase, if_neg (mt hgoes.unstarted_iff.mp hphase)]
  · exact heard_of_left hresets (Session.untouched_flush hs hresets)

theorem Heard.deliver (hl : l.Heard) (hs : l.session.Placed) (now : Instant) :
    (l.deliver h now).Heard := by
  unfold Link.deliver
  cases hphase : l.session.task.phase with
  | unstarted => exact hl.of_goesOn (.refl _) rfl fun hdeaf hgone => ⟨hdeaf, hgone, rfl⟩
  | closed => exact hl.of_goesOn (.refl _) rfl fun hdeaf hgone => ⟨hdeaf, hgone, rfl⟩
  | opened =>
    dsimp only
    by_cases hresets : (l.session.deliver h now l.peer.post.inFlight
        (if l.peer.post.ended then .ended else .silent)).resets = l.session.resets
    · obtain ⟨frames, accepted, hledger⟩ := Session.ledger_deliver hs hresets
      have hgoes := (Session.steps_deliver (h := h) hs l.peer.post.inFlight
        (if l.peer.post.ended then .ended else .silent)).follows.goesOn_of_resets
        (by rw [hphase]; exact nofun) hresets
      rw [after_of_resets hresets]
      exact hl.of_goesOn hgoes (by rw [hledger]) fun hdeaf hgone => ⟨hdeaf, hgone, rfl⟩
    · exact heard_of_left hresets (Session.untouched_deliver hs hresets)

theorem arriving_read (hreads : l.read.peer.Reads) : l.read.peer.arriving = [] := by
  obtain ⟨_, hgone, hroom⟩ := read_flags l
  have hgone := hgone.symm.trans hreads.stays
  have hroom := hroom.symm.trans hreads.goesOn
  unfold read Peer.read
  rw [if_neg (by simp [hgone, hroom])]

namespace Run

theorem heard_move {r : Run σ} (hl : r.link.Heard) (hs : r.link.session.Placed) (m : Move) :
    (r.move h m).2.link.Heard := by
  have hsame {p : Peer} (hpeer : p.deaf = false → p.gone = false → r.link.peer.deaf = false ∧
      r.link.peer.gone = false ∧
      p.received ++ p.arriving = r.link.peer.received ++ r.link.peer.arriving) :
      (⟨r.link.session, p⟩ : Link σ).Heard := hl.of_goesOn (.refl _) rfl hpeer
  cases m with
  | act a =>
    have hact := hl.after hs (Session.effects_act h r.now r.link.session a)
    cases a with
    | reset => exact hl.after hs (Session.effects_reset h r.now r.link.session)
    | start | verify | close | terminate | stop | sendSignal | sendBytes | sendFrame => exact hact
  | peer e =>
    cases e with
    | send | shutdown | stall | resume => exact hsame fun hdeaf hgone => ⟨hdeaf, hgone, rfl⟩
    | close => exact fun _ hgone => nomatch hgone
    | shutdownRead => exact fun hdeaf _ => nomatch hdeaf
  | wait | supply => exact hl
  | turn => exact hl.turn hs r.now
  | deliver => exact hl.deliver hs r.now
  | read =>
    refine hsame fun hdeaf hgone => ?_
    unfold Peer.read at hdeaf hgone ⊢
    split_ifs at hdeaf hgone ⊢
    · exact ⟨hdeaf, hgone, rfl⟩
    · exact ⟨hdeaf, hgone, List.append_nil _⟩

structure Sound (r : Run σ) : Prop where
  session : r.link.session.Sound
  heard : r.link.Heard

theorem sound_init (state : σ) (settings : Task.Settings) : (init state settings).Sound where
  session := Session.sound_ofTask state settings
  heard _ _ := rfl

theorem Sound.moves {r : Run σ} (hr : r.Sound) (list : List Move) : (r.moves h list).Sound := by
  refine moves_keep (fun r m hr => ?_) hr list
  exact ⟨sound_move hr.session m, heard_move hr.heard hr.session.placed m⟩

theorem Sound.reaches {l m : Link σ} (hl : (⟨now, l⟩ : Run σ).Sound)
    (hreaches : Reaches h now l m) :
    (⟨now, m⟩ : Run σ).Sound := by
  obtain ⟨list, hlist⟩ := hreaches
  exact hlist ▸ hl.moves list

end Run

/-- The last turn in which a link settles: the task stays on its stream in it, and what it leaves is
read. -/
theorem settle_last_turn {r : Run σ} (hr : r.Sound) :
    ∃ l : Link σ, (⟨r.now, l⟩ : Run σ).Sound ∧ (r.settle h).link = (l.turn h r.now).read ∧
      (l.turn h r.now).session.resets = l.session.resets :=
  settle_last h r.now (P := fun l => (⟨r.now, l⟩ : Run σ).Sound) (fun _ hl => hl.session.placed)
    (fun l hl => hl.reaches (Run.reaches_turn h r.now l))
    (fun _ hl => hl.reaches ⟨[.deliver], rfl⟩) hr

theorem Run.Sound.moves_settle {r : Run σ} (hr : r.Sound) : (r.settle h).Sound :=
  Run.Sound.reaches (l := r.link) hr (Run.reaches_settle h r.now r.link)

theorem peer_turn (hresets : (l.turn h now).session.resets = l.session.resets) :
    (l.turn h now).peer = l.peer.hear (l.session.flush h now l.peer.writer).2 :=
  if_pos hresets

theorem reads_before_turn (hresets : (l.turn h now).session.resets = l.session.resets)
    (hreads : (l.turn h now).read.peer.Reads) : l.peer.Reads := by
  obtain ⟨hdeaf, hgone, hroom⟩ := read_flags (l.turn h now)
  rw [hreads.hears, peer_turn hresets] at hdeaf
  rw [hreads.stays, peer_turn hresets] at hgone
  rw [hreads.goesOn, peer_turn hresets] at hroom
  exact ⟨hdeaf.symm, hgone.symm, Option.map_eq_none_iff.mp hroom.symm⟩

namespace Run

theorem Sound.settle {r : Run σ} (hr : r.Sound)
    (hloops : (r.settle h).link.session.task.loops.isSome = true)
    (hreads : (r.settle h).link.peer.Reads) :
    (r.settle h).link.session.ledger.written = (r.settle h).link.session.ledger.accepted ∧
      (r.settle h).link.peer.received = (r.settle h).link.session.ledger.accepted := by
  obtain ⟨l, hl, hlink, hkept⟩ := settle_last_turn (h := h) hr
  have hsettled : (⟨r.now, (l.turn h r.now).read⟩ : Run σ).Sound := hlink ▸ hr.moves_settle
  rw [hlink] at hloops hreads ⊢
  have hheard := hsettled.heard hreads.hears hreads.stays
  have hwritten : (l.turn h r.now).session.ledger.written =
      (l.turn h r.now).session.ledger.accepted := by
    -- the last turn of the send loop writes to a peer that reads
    have hwriter := (reads_before_turn hkept hreads).writer
    have hturn : (l.turn h r.now).session = (l.session.flush h r.now .willing).1 := by
      rw [← hwriter]
      rfl
    have hloops : (l.turn h r.now).session.task.loops.isSome = true := hloops
    rw [hturn] at hkept hloops ⊢
    exact hl.session.accepted_flush_willing hkept hloops
  rw [hsettled.session.placed.opened hloops, if_neg nofun, arriving_read hreads,
    List.append_nil] at hheard
  exact ⟨hwritten, hheard.trans hwritten⟩

/-- The bytes written to the peer of a task are, in order and from the first one on, those that the
task has accepted since it was opened. They are all of them in every settled state where the task is
open and its peer reads, unless the start has stranded the task for want of an instant, and also
where the send loop ended because it took a stop or found the deadline over. -/
theorem written_accepted (h : Handler σ) (state : σ) (settings : Task.Settings)
    (list : List Move) :
    let r := (init state settings).moves h list
    let books := r.link.session.ledger
    let settled := (r.settle h).link
    books.written <+: books.accepted ∧
      (Session.Orderly books.ending → books.written = books.accepted) ∧
      (r.link.session.task.phase ≠ .unstarted → r.link.peer.deaf = false →
        r.link.peer.gone = false → r.link.peer.received ++ r.link.peer.arriving = books.written) ∧
      (settled.session.task.phase = .opened → settled.peer.Reads →
        (settled.session.ledger.written = settled.session.ledger.accepted ∧
            settled.peer.received = settled.session.ledger.accepted) ∨
          (settled.session.task.Stranded ∧ timeBound ≤ r.now + settings.verifyTimeout)) := by
  intro r books settled
  have hr : r.Sound := (sound_init state settings).moves list
  refine ⟨hr.session.booked.front, hr.session.booked.orderly, ?_, ?_⟩
  · intro hphase hdeaf hgone
    have hheard := hr.heard hdeaf hgone
    rwa [if_neg hphase] at hheard
  · intro hopened hreads
    cases hloops : settled.session.task.loops with
    | some loops => exact .inl (hr.settle (by rw [hloops]; rfl) hreads)
    | none =>
      obtain ⟨rest, hrest⟩ := reaches_settle h r.now r.link
      have hsettled : (init state settings).moves h (list ++ rest) = ⟨r.now, settled⟩ := by
        rw [moves_append]
        exact hrest
      have hstranded := stranded_of_no_loops h state settings (list ++ rest)
      rw [hsettled] at hstranded
      exact .inr (hstranded hopened hloops)

example :
    let r := (init () ⟨100, 5, 0⟩).moves ⟨fun s _ _ => (s, []), fun s _ => (s, [])⟩
      [.act .start, .act (.sendBytes [1, 2]), .act .stop, .act (.sendBytes [3]), .turn]
    r.link.session.ledger = ⟨[], [], [1, 2, 3], [1, 2, 3], some .stopped⟩ := by
  decide +kernel

end Run

end Link

end FrameLink
