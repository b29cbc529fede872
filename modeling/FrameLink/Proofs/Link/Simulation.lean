import FrameLink.Proofs.Link.Moves
import FrameLink.Proofs.Session.Simulation

/-!
# Links that go on alike

A simulation between sessions, with a relation between peers that nothing breaks either, makes links
go on alike: every move and every event returns the same on both sides and leaves them related.
-/

namespace FrameLink

/-- A relation between peers that differ in nothing that shows. -/
structure Peer.Simulation (P : Peer → Peer → Prop) : Prop where
  writer {p q} (hpq : P p q) : q.writer = p.writer
  ended {p q} (hpq : P p q) : q.ended = p.ended
  inFlight {p q} (hpq : P p q) : q.inFlight = p.inFlight
  step {p q} (hpq : P p q) (e : Event) : P (p.step e) (q.step e)
  hear {p q} (hpq : P p q) (written : Bytes) : P (p.hear written) (q.hear written)
  post {p q} (hpq : P p q) : P p.post q.post
  take {p q} (hpq : P p q) : P { p with inFlight := [] } { q with inFlight := [] }
  read {p q} (hpq : P p q) (ended : Bool) : P (p.read ended) (q.read ended)
  fresh : P .fresh .fresh

theorem Peer.simulation_eq : Peer.Simulation Eq where
  writer := by rintro p q rfl; rfl
  ended := by rintro p q rfl; rfl
  inFlight := by rintro p q rfl; rfl
  step := by rintro p q rfl e; rfl
  hear := by rintro p q rfl written; rfl
  post := by rintro p q rfl; rfl
  take := by rintro p q rfl; rfl
  read := by rintro p q rfl ended; rfl
  fresh := rfl

variable {σ τ : Type} {h : Handler σ} {h' : Handler τ} {past : Nat}
  {R : Session σ → Session τ → Prop} {P : Peer → Peer → Prop}

namespace Link

structure Related (R : Session σ → Session τ → Prop) (P : Peer → Peer → Prop) (l : Link σ)
    (l' : Link τ) : Prop where
  session : R l.session l'.session
  peer : P l.peer l'.peer

variable {l : Link σ} {l' : Link τ}

theorem Related.phase (hl : Related R P l l') (hR : Session.Simulation h h' past R) :
    l'.session.task.phase = l.session.task.phase :=
  (hR.task hl.session).same fun _ _ => rfl

theorem Related.after (hl : Related R P l l') (hR : Session.Simulation h h' past R)
    (hP : Peer.Simulation P) {s : Session σ} {s' : Session τ} (hst : R s s') {p p' : Peer}
    (hpeer : P p p') : Related R P (l.after s p) (l'.after s' p') := by
  refine ⟨hst, ?_⟩
  unfold Link.after
  dsimp only
  rw [if_congr (hR.resets_iff hl.session hst) rfl rfl]
  split_ifs
  · exact hpeer
  · exact hP.fresh

theorem Related.turn (hl : Related R P l l') (hR : Session.Simulation h h' past R)
    (hP : Peer.Simulation P) (now : Instant) :
    Related R P (l.turn h now) (l'.turn h' now) := by
  obtain ⟨hflush, hbytes⟩ := hR.flush hl.session now l.peer.writer
  unfold Link.turn
  rw [hP.writer hl.peer]
  dsimp only
  rw [hbytes]
  exact hl.after hR hP hflush (hP.hear hl.peer _)

theorem Related.deliver (hl : Related R P l l') (hR : Session.Simulation h h' past R)
    (hP : Peer.Simulation P) (now : Instant) :
    Related R P (l.deliver h now) (l'.deliver h' now) := by
  have hpost := hP.post hl.peer
  have htake := hP.take hpost
  unfold Link.deliver
  rw [hl.phase hR]
  cases l.session.task.phase with
  | unstarted => exact ⟨hl.session, hpost⟩
  | closed => exact ⟨hl.session, htake⟩
  | opened =>
    rw [hP.ended hpost] at htake
    dsimp only
    rw [hP.ended hpost, hP.inFlight hpost]
    exact hl.after hR hP (hR.deliver hl.session now _ _) htake

theorem Related.round (hl : Related R P l l') (hR : Session.Simulation h h' past R)
    (hP : Peer.Simulation P) (now : Instant) :
    Related R P (l.round h now) (l'.round h' now) :=
  ((hl.turn hR hP now).deliver hR hP now).turn hR hP now

theorem Related.exhaust (hl : Related R P l l') (hR : Session.Simulation h h' past R)
    {f : Link σ → Link σ} {f' : Link τ → Link τ}
    (hf : ∀ {l l'}, Related R P l l' → Related R P (f l) (f' l')) :
    Related R P (l.exhaust f) (l'.exhaust f') := by
  have huntil (n : Nat) : Related R P (untilKept f n l) (untilKept f' n l') := by
    induction n generalizing l l' with
    | zero => exact hl
    | succ n ih =>
      rw [untilKept, untilKept, if_congr (hR.resets_iff hl.session (hf hl).session) rfl rfl]
      split_ifs
      · exact hf hl
      · exact ih (hf hl)
  unfold Link.exhaust
  rw [hR.spares hl.session]
  exact huntil _

theorem Related.read (hl : Related R P l l') (hR : Session.Simulation h h' past R)
    (hP : Peer.Simulation P) : Related R P l.read l'.read := by
  unfold Link.read
  rw [hl.phase hR]
  exact ⟨hl.session, hP.read hl.peer _⟩

theorem Related.settle (hl : Related R P l l') (hR : Session.Simulation h h' past R)
    (hP : Peer.Simulation P) (now : Instant) : Related R P (l.settle h now) (l'.settle h' now) :=
  (hl.exhaust hR fun hl => hl.round hR hP now).read hR hP

theorem Related.advance (hl : Related R P l l') (hR : Session.Simulation h h' past R)
    (hP : Peer.Simulation P) (now next : Instant) :
    Related R P (l.advance h now next) (l'.advance h' now next) :=
  (hl.exhaust hR fun hl => hl.turn hR hP now).exhaust hR fun hl => hl.turn hR hP next

theorem Related.start (hl : Related R P l l') (hR : Session.Simulation h h' past R)
    (hP : Peer.Simulation P) (now : Instant) :
    (l'.start h' now).1 = (l.start h now).1 ∧
      Related R P (l.start h now).2 (l'.start h' now).2 := by
  obtain ⟨houtcome, hstart⟩ := hR.start hl.session now
  refine ⟨?_, hl.after hR hP hstart hl.peer⟩
  simp only [Link.start, houtcome]

theorem Related.reset (hl : Related R P l l') (hR : Session.Simulation h h' past R)
    (hP : Peer.Simulation P) : l'.reset.1 = l.reset.1 ∧ Related R P l.reset.2 l'.reset.2 :=
  ⟨congrArg Outcome.returned (hR.task hl.session).reset.1,
    hl.after hR hP (hR.reset hl.session) hl.peer⟩

theorem Related.act (hl : Related R P l l') (hR : Session.Simulation h h' past R)
    (hP : Peer.Simulation P) (now : Instant) (a : Action) :
    (l'.act h' now a).1 = (l.act h now a).1 ∧
      Related R P (l.act h now a).2 (l'.act h' now a).2 := by
  obtain ⟨hresult, hact⟩ := hR.act hl.session now a
  have hnext := hl.after hR hP hact hl.peer
  cases a with
  | start => exact hl.start hR hP now
  | reset => exact hl.reset hR hP
  | verify | close | terminate | stop | sendSignal | sendBytes | sendFrame =>
    exact ⟨congrArg (·.elim Outcome.silent Outcome.returned) hresult, hnext⟩

theorem Related.supply (hl : Related R P l l') (hR : Session.Simulation h h' past R) :
    Related R P l.supply l'.supply := by
  refine ⟨?_, hl.peer⟩
  unfold Link.supply
  rw [hR.spares hl.session]
  exact hR.stock hl.session _

namespace Run

structure Related (R : Session σ → Session τ → Prop) (P : Peer → Peer → Prop) (r : Run σ)
    (r' : Run τ) : Prop where
  now : r'.now = r.now
  link : Link.Related R P r.link r'.link

variable {r : Run σ} {r' : Run τ}

theorem Related.move (hr : Related R P r r') (hR : Session.Simulation h h' past R)
    (hP : Peer.Simulation P) (m : Move) :
    (r'.move h' m).1 = (r.move h m).1 ∧ Related R P (r.move h m).2 (r'.move h' m).2 := by
  obtain ⟨now, l⟩ := r
  obtain ⟨now', l'⟩ := r'
  obtain ⟨hnow, hl⟩ := hr
  cases (hnow : now' = now)
  cases m with
  | act a =>
    obtain ⟨houtcome, hact⟩ := hl.act hR hP now a
    exact ⟨houtcome, rfl, hact⟩
  | peer e => exact ⟨rfl, rfl, hl.session, hP.step hl.peer e⟩
  | wait time => exact ⟨rfl, rfl, hl⟩
  | turn => exact ⟨rfl, rfl, hl.turn hR hP now⟩
  | deliver => exact ⟨rfl, rfl, hl.deliver hR hP now⟩
  | read => exact ⟨rfl, rfl, hl.read hR hP⟩
  | supply => exact ⟨rfl, rfl, hl.supply hR⟩

def outcomes (h : Handler σ) (r : Run σ) : List Move → List Outcome
  | [] => []
  | m :: list => (r.move h m).1 :: outcomes h (r.move h m).2 list

theorem Related.moves (hr : Related R P r r') (hR : Session.Simulation h h' past R)
    (hP : Peer.Simulation P) (list : List Move) :
    outcomes h' r' list = outcomes h r list ∧
      Related R P (r.moves h list) (r'.moves h' list) := by
  induction list generalizing r r' with
  | nil => exact ⟨rfl, hr⟩
  | cons m list ih =>
    obtain ⟨houtcome, hnext⟩ := hr.move hR hP m
    obtain ⟨houtcomes, hrest⟩ := ih hnext
    exact ⟨congrArg₂ List.cons houtcome houtcomes, hrest⟩

theorem Related.settle (hr : Related R P r r') (hR : Session.Simulation h h' past R)
    (hP : Peer.Simulation P) : Related R P (r.settle h) (r'.settle h') := by
  refine ⟨hr.now, ?_⟩
  unfold Run.settle
  rw [hr.now]
  exact hr.link.settle hR hP r.now

theorem Related.happen (hr : Related R P r r') (hR : Session.Simulation h h' past R)
    (hP : Peer.Simulation P) (settles : Bool) (e : Event) :
    (r'.happen h' settles e).1 = (r.happen h settles e).1 ∧
      Related R P (r.happen h settles e).2 (r'.happen h' settles e).2 := by
  obtain ⟨now, l⟩ := r
  obtain ⟨now', l'⟩ := r'
  obtain ⟨hnow, hl⟩ := hr
  cases (hnow : now' = now)
  have happly : (Run.apply h' ⟨now, l'⟩ e).1 = (Run.apply h ⟨now, l⟩ e).1 ∧
      Related R P (Run.apply h ⟨now, l⟩ e).2 (Run.apply h' ⟨now, l'⟩ e).2 := by
    cases e with
    | start =>
      obtain ⟨houtcome, hstart⟩ := hl.start hR hP now
      exact ⟨houtcome, rfl, hstart⟩
    | reset =>
      obtain ⟨houtcome, hreset⟩ := hl.reset hR hP
      exact ⟨houtcome, rfl, hreset⟩
    | advance time => exact ⟨rfl, rfl, hl.advance hR hP now (now + time)⟩
    | rest => exact ⟨rfl, rfl, hl⟩
    | peer e => exact ⟨rfl, rfl, hl.session, hP.step hl.peer e⟩
    | act a =>
      obtain ⟨houtcome, hact⟩ := hl.act hR hP now a
      exact ⟨houtcome, rfl, hact⟩
    | supply => exact ⟨rfl, rfl, hl.supply hR⟩
  obtain ⟨houtcome, hnext⟩ := happly
  refine ⟨houtcome, ?_⟩
  cases settles with
  | false => exact hnext
  | true => exact hnext.settle hR hP

end Run

end Link

end FrameLink
