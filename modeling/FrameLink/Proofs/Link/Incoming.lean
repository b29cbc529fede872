import FrameLink.Proofs.Link.Moves

/-!
# What a link handles

All that a peer has sent is, in order, what was handled, what was read ahead, what is under way and
what got lost behind the end of sending. So the frames that a task handles between a start and the
next reset are the first frames of what its peer has sent.
-/

namespace FrameLink

namespace Session

variable {σ : Type} {h : Handler σ} {now : Instant} {s s' t : Session σ}

/-- The receiving side of a session is left alone, or ended. -/
structure Unread (s s' : Session σ) : Prop where
  frames : s'.ledger.frames = s.ledger.frames
  inbound : ∀ loops', s'.task.loops = some loops' →
    ∃ loops, s.task.loops = some loops ∧ loops.inbound = loops'.inbound

theorem Unread.refl (s : Session σ) : s.Unread s :=
  ⟨rfl, fun loops hloops => ⟨loops, hloops, rfl⟩⟩

theorem Unread.trans (hfirst : s.Unread s') (hsecond : s'.Unread t) : s.Unread t where
  frames := hsecond.frames.trans hfirst.frames
  inbound loops hloops := by
    obtain ⟨loops', hloops', hinbound'⟩ := hsecond.inbound loops hloops
    obtain ⟨loops'', hloops'', hinbound''⟩ := hfirst.inbound loops' hloops'
    exact ⟨loops'', hloops'', hinbound''.trans hinbound'⟩

theorem Kept.unread (hkept : s.Kept s') : s.Unread s' where
  frames := by rw [hkept.ledger]
  inbound loops' hloops' := by
    rcases hkept.loops with hsame | hnone
    · exact ⟨loops', hsame.symm.trans hloops', rfl⟩
    · rw [hnone] at hloops'
      cases hloops'

theorem unread_wrote (now : Instant) (w : Writer) (s : Session σ) :
    s.Unread (s.wrote now w) := by
  have hinbound := (Task.ran_runSendLoop now w s.task).inbound
  refine ⟨rfl, fun loops' hloops' => ?_⟩
  have hloops : (s.task.runSendLoop now w).2.1.loops = some loops' := hloops'
  rw [hloops] at hinbound
  obtain ⟨loops, hloops, heq⟩ := Option.map_eq_some_iff.mp hinbound.symm
  exact ⟨loops, hloops, heq⟩

theorem unread_flush {w : Writer} (hs : s.Placed)
    (hresets : (s.flush h now w).1.resets = s.resets) : s.Unread (s.flush h now w).1 := by
  cases hloops : s.task.loops.isSome with
  | false =>
    rw [flush_of_no_loops (by simpa using hloops)]
    exact .refl s
  | true =>
    have hwrote := unread_wrote now w s
    have hopened : (s.wrote now w).task.phase = .opened :=
      (Task.ran_runSendLoop now w s.task).phase.trans (hs.opened hloops)
    rw [flush_of_loops h now w hloops] at hresets ⊢
    split_ifs at hresets ⊢
    · have hclosed : Effects h now (s.wrote now w) ((s.wrote now w).close h now) := effects_close _
      exact hwrote.trans (hclosed.kept (by rw [hopened]; exact nofun) hresets).unread
    · exact hwrote

end Session

def Peer.coming (p : Peer) : Bytes :=
  if p.ended then [] else p.unsent

/-- All that a peer has sent, if the task got these bytes of it. -/
def Peer.Said (p : Peer) (got : Bytes) : Prop :=
  ∃ lost, p.said = got ++ p.inFlight ++ p.coming ++ lost ∧ (p.ended = false → lost = [])

namespace Peer

variable {p : Peer} {got : Bytes}

theorem Said.step (hp : p.Said got) (e : Event) : (p.step e).Said got := by
  obtain ⟨lost, hsaid, hlost⟩ := hp
  cases e with
  | send bytes =>
    refine ⟨if p.ended then lost ++ bytes else [], ?_, ?_⟩
    · cases hended : p.ended with
      | false =>
        rw [hlost hended] at hsaid
        simp [Peer.step, hsaid, coming, hended]
      | true => simp [Peer.step, hsaid, coming, hended]
    · intro hended
      exact if_neg (Bool.eq_false_iff.mp hended)
  | shutdown | close =>
    exact ⟨p.coming ++ lost, by simp [Peer.step, hsaid, coming], by simp [Peer.step]⟩
  | shutdownRead | stall | resume => exact ⟨lost, hsaid, hlost⟩

theorem Said.post (hp : p.Said got) : p.post.Said got := by
  obtain ⟨lost, hsaid, hlost⟩ := hp
  refine ⟨lost, ?_, hlost⟩
  cases hended : p.ended <;> simp [Peer.post, coming, hsaid, hended]

theorem Said.front (hp : p.Said got) : got <+: p.said := by
  obtain ⟨lost, hsaid, _⟩ := hp
  refine ⟨p.inFlight ++ p.coming ++ lost, ?_⟩
  rw [hsaid]
  simp only [List.append_assoc]

end Peer

namespace Link

variable {σ : Type} {h : Handler σ} {now : Instant} {l : Link σ}

/-- What the session has got of its peer is the front of what the peer has said. -/
structure Follows (l : Link σ) : Prop where
  waiting : l.session.task.phase = .unstarted → l.peer.Said []
  running : ∀ loops, l.session.task.loops = some loops →
    l.peer.Said (l.session.ledger.frames.flatten ++ loops.inbound.unread)
  handled : l.session.task.phase ≠ .unstarted →
    (∀ f ∈ l.session.ledger.frames, Whole l.session.task.settings.frameLimit f) ∧
      l.session.ledger.frames.flatten <+: l.peer.said

theorem said_fresh : Peer.fresh.Said [] :=
  ⟨[], rfl, fun _ => rfl⟩

theorem follows_ofSettings (state : σ) (settings : Task.Settings) :
    (ofSettings state settings).Follows where
  waiting _ := said_fresh
  running _ hloops := by cases hloops
  handled hphase := absurd rfl hphase

theorem follows_of_untouched {s : Session σ} {p : Peer} (hs : s.Untouched) (hplaced : s.Placed)
    (hp : p.Said []) : Follows ⟨s, p⟩ where
  waiting _ := hp
  running loops hloops := by
    have hopened := hplaced.opened (by rw [hloops]; rfl)
    obtain ⟨hframes, _⟩ := hs.ledger (by rw [hopened]; exact nofun)
    dsimp only
    rw [hframes, hs.loops loops hloops]
    exact hp
  handled hphase := by
    obtain ⟨hframes, _⟩ := hs.ledger hphase
    dsimp only
    rw [hframes]
    exact ⟨nofun, List.nil_prefix⟩

theorem follows_of_left {s : Session σ} {p : Peer} (hresets : s.resets ≠ l.session.resets)
    (hs : s.Untouched) (hplaced : s.Placed) : (l.after s p).Follows := by
  rw [after_of_left hresets]
  exact follows_of_untouched hs hplaced said_fresh

theorem Follows.unread (hl : l.Follows) {s : Session σ} {p : Peer} (hgoes : l.session.GoesOn s)
    (hunread : l.session.Unread s) (hsaid : l.peer.said <+: p.said)
    (hpeer : ∀ got, l.peer.Said got → p.Said got) : Follows ⟨s, p⟩ where
  waiting hphase := hpeer [] (hl.waiting (hgoes.unstarted_iff.mp hphase))
  running loops' hloops' := by
    obtain ⟨loops, hloops, hinbound⟩ := hunread.inbound loops' hloops'
    dsimp only
    rw [hunread.frames, ← hinbound]
    exact hpeer _ (hl.running loops hloops)
  handled hphase := by
    rw [Ne, hgoes.unstarted_iff] at hphase
    obtain ⟨hwhole, hfront⟩ := hl.handled hphase
    dsimp only
    rw [hunread.frames, hgoes.settings]
    exact ⟨hwhole, hfront.trans hsaid⟩

theorem said_step (p : Peer) (e : Peer.Event) : p.said <+: (p.step e).said := by
  cases e with
  | send bytes => exact List.prefix_append _ _
  | shutdown | close | shutdownRead | stall | resume => exact List.prefix_rfl

theorem Follows.after (hl : l.Follows) (hs : l.session.Placed) {spares : Nat} {s : Session σ}
    (heffects : Session.Effects h now { l.session with spares } s) :
    (l.after s l.peer).Follows := by
  rcases heffects.kept_or_untouched hs with hkept | ⟨huntouched, hunstarted⟩
  · rw [after_of_resets hkept.goesOn.resets]
    exact hl.unread hkept.goesOn hkept.unread List.prefix_rfl fun _ hsaid => hsaid
  · have hplaced := (hs.stock spares).steps heffects.steps
    by_cases hresets : s.resets = l.session.resets
    · rw [after_of_resets hresets]
      exact follows_of_untouched huntouched hplaced (hl.waiting (hunstarted hresets))
    · exact follows_of_left hresets huntouched hplaced

theorem Follows.turn (hl : l.Follows) (hs : l.session.Placed) (now : Instant) :
    (l.turn h now).Follows := by
  have hsteps : Session.Steps h now l.session (l.session.flush h now l.peer.writer).1 :=
    Session.steps_flush l.peer.fresh_writer hs
  unfold Link.turn
  dsimp only
  by_cases hresets : (l.session.flush h now l.peer.writer).1.resets = l.session.resets
  · have hunread := Session.unread_flush hs hresets
    rw [after_of_resets hresets]
    by_cases hphase : l.session.task.phase = .unstarted
    · have hnone := hs.no_loops (by rw [hphase]; exact nofun)
      rw [Session.flush_of_no_loops hnone]
      exact hl.unread (.refl _) (.refl _) List.prefix_rfl fun _ hsaid => hsaid
    · exact hl.unread (hsteps.follows.goesOn_of_resets hphase hresets) hunread List.prefix_rfl
        fun _ hsaid => hsaid
  · exact follows_of_left hresets (Session.untouched_flush hs hresets) (hs.steps hsteps)

theorem Follows.deliver_of_no_loops (hl : l.Follows) (hloops : l.session.task.loops = none) :
    (l.deliver h now).Follows := by
  have hsession : (l.deliver h now).session = l.session := by
    rw [session_deliver, Session.deliver_of_no_loops hloops, ite_self]
  have hpeer := peer_deliver h now l
  rw [if_pos (by rw [hsession])] at hpeer
  refine ⟨fun hphase => ?_, fun loops hsome => ?_, fun hphase => ?_⟩
  · rw [hsession] at hphase
    rw [if_pos hphase] at hpeer
    rw [hpeer]
    exact (hl.waiting hphase).post
  · rw [hsession, hloops] at hsome
    cases hsome
  · rw [hsession] at hphase ⊢
    rw [hpeer]
    exact hl.handled hphase

/-- What a task handled before a delivery and in it, and what it has read ahead behind that, is the
front of what its peer has said. -/
theorem Follows.deliver_kept (hl : l.Follows) (hs : l.session.Placed) {loops : Task.Loops}
    (hloops : l.session.task.loops = some loops)
    (hresets : (l.deliver h now).session.resets = l.session.resets) :
    (l.deliver h now).Follows := by
  have hsome : l.session.task.loops.isSome = true := by rw [hloops]; rfl
  have hphase := hs.opened hsome
  have hbegun := hs.begun hsome
  have hgoes := (steps_deliver (h := h) hs now).follows.goesOn_of_resets hbegun hresets
  have hsession := session_deliver h now l
  have hpeer := peer_deliver h now l
  rw [if_pos hphase] at hsession
  rw [if_pos hresets, if_neg hbegun] at hpeer
  obtain ⟨frames, rest, accepted, hframes, hsplit, hledger, hrest⟩ :=
    Session.deliver_kept hs hloops (hsession ▸ hresets)
  rw [← hsession] at hledger hrest
  obtain ⟨hwhole, -⟩ := hl.handled hbegun
  have hsaid : (l.deliver h now).peer.Said
      ((l.session.ledger.frames ++ frames).flatten ++ rest) := by
    obtain ⟨lost, hpost, hlost⟩ := (hl.running loops hloops).post
    rw [hpeer]
    refine ⟨lost, ?_, hlost⟩
    rw [List.append_assoc _ loops.inbound.unread, hsplit] at hpost
    simp only [List.flatten_append, List.append_assoc, List.nil_append] at hpost ⊢
    exact hpost
  refine ⟨fun hunstarted => ?_, fun loops' hloops' => ?_, fun _ => ?_⟩
  · exact absurd (hgoes.unstarted_iff.mp hunstarted) hbegun
  · rw [hledger, hrest loops' hloops']
    exact hsaid
  · rw [hledger, hgoes.settings]
    refine ⟨fun f hf => ?_, (List.prefix_append _ rest).trans hsaid.front⟩
    exact (List.mem_append.mp hf).elim (hwhole f) (hframes f)

theorem Follows.deliver (hl : l.Follows) (hs : l.session.Placed) (now : Instant) :
    (l.deliver h now).Follows := by
  cases hloops : l.session.task.loops with
  | none => exact hl.deliver_of_no_loops hloops
  | some loops =>
    by_cases hresets : (l.deliver h now).session.resets = l.session.resets
    · exact hl.deliver_kept hs hloops hresets
    · have hphase := hs.opened (by rw [hloops]; rfl)
      have hplaced : (l.deliver h now).session.Placed := hs.steps (steps_deliver hs now)
      have hfresh := peer_deliver h now l
      rw [if_neg hresets] at hfresh
      have huntouched : (l.deliver h now).session.Untouched := by
        rw [session_deliver, if_pos hphase] at hresets ⊢
        exact Session.untouched_deliver hs hresets
      exact follows_of_untouched huntouched hplaced (hfresh ▸ said_fresh)

namespace Run

theorem tracks_move {r : Run σ} (hl : r.link.Follows) (hs : r.link.session.Sound) (m : Move) :
    (r.move h m).2.link.Follows := by
  cases m with
  | act a =>
    have hact := hl.after hs.placed (Session.effects_act h r.now r.link.session a)
    cases a with
    | reset => exact hl.after hs.placed (Session.effects_reset h r.now r.link.session)
    | start | verify | close | terminate | stop | sendSignal | sendBytes | sendFrame => exact hact
  | peer e => exact hl.unread (.refl _) (.refl _) (said_step _ e) fun _ hsaid => hsaid.step e
  | wait => exact hl
  | supply => exact ⟨hl.waiting, hl.running, hl.handled⟩
  | turn => exact hl.turn hs.placed r.now
  | deliver => exact hl.deliver hs.placed r.now
  | read =>
    have hread : (r.link.read).peer.said = r.link.peer.said ∧
        ∀ got, r.link.peer.Said got → r.link.read.peer.Said got := by
      unfold Link.read Peer.read
      split_ifs
      · exact ⟨rfl, fun _ hsaid => hsaid⟩
      · exact ⟨rfl, fun _ hsaid => hsaid⟩
    exact hl.unread (.refl _) (.refl _) (hread.1 ▸ List.prefix_rfl) hread.2

/-- In every state of a run, the frames handled since the start are the first ones of the parse of
all that the peer has sent. -/
theorem frames_prefix_parse (h : Handler σ) (state : σ) (settings : Task.Settings)
    (list : List Move) :
    let l := ((init state settings).moves h list).link
    l.session.task.phase ≠ .unstarted → l.session.ledger.frames <+:
      (parse l.session.task.settings.frameLimit l.peer.said).frames := by
  have hinit : (init state settings).link.session.Sound ∧ (init state settings).link.Follows :=
    ⟨Session.sound_ofTask state settings, follows_ofSettings state settings⟩
  have hkeep := moves_keep (h := h)
    (P := fun r => r.link.session.Sound ∧ r.link.Follows)
    (fun r m hr => ⟨sound_move hr.1 m, tracks_move hr.2 hr.1 m⟩) hinit list
  intro l hphase
  obtain ⟨hwhole, hfront⟩ := hkeep.2.handled hphase
  exact prefix_parse hwhole hfront

end Run

end Link

end FrameLink
