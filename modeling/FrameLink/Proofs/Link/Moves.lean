import FrameLink.Link.Run
import FrameLink.Proofs.Session.Invariant

/-!
# The moves of a link

A move is the least that can happen to a link: one call from outside, one doing of the peer, time
that passes, one turn of the send loop, one delivery, one read of the peer, one stream more in
reserve. Events, and the settling between them, are moves in a row, so what holds after every list
of moves holds whatever happens and however often the link settles.
-/

namespace FrameLink

variable {σ : Type}

namespace Peer

structure Reads (p : Peer) : Prop where
  hears : p.deaf = false
  stays : p.gone = false
  goesOn : p.room = none

instance (p : Peer) : Decidable p.Reads :=
  decidable_of_iff (p.deaf = false ∧ p.gone = false ∧ p.room = none)
    ⟨fun ⟨hears, stays, goesOn⟩ => ⟨hears, stays, goesOn⟩,
      fun h => ⟨h.hears, h.stays, h.goesOn⟩⟩

theorem fresh_writer (p : Peer) : p.writer.Fresh := by
  unfold writer
  split_ifs
  · exact Writer.fresh_broken
  · exact Writer.fresh_ofRoom p.room

theorem Reads.writer {p : Peer} (h : p.Reads) : p.writer = .willing := by
  simp [Peer.writer, h.hears, h.stays, h.goesOn, Writer.willing]

end Peer

namespace Link

inductive Move
  | act (action : Action)
  | peer (event : Peer.Event)
  | wait (time : Nat)
  | turn
  | deliver
  | read
  | supply
deriving DecidableEq, Repr

def read (l : Link σ) : Link σ :=
  { l with peer := l.peer.read (l.session.task.phase == .closed) }

namespace Run

def init (state : σ) (settings : Task.Settings) : Run σ :=
  ⟨0, ofSettings state settings⟩

def move (h : Handler σ) (r : Run σ) : Move → Outcome × Run σ
  | .act a => ((r.link.act h r.now a).1, { r with link := (r.link.act h r.now a).2 })
  | .peer e => (.silent, { r with link := { r.link with peer := r.link.peer.step e } })
  | .wait time => (.silent, { r with now := r.now + time })
  | .turn => (.silent, { r with link := r.link.turn h r.now })
  | .deliver => (.silent, { r with link := r.link.deliver h r.now })
  | .read => (.silent, { r with link := r.link.read })
  | .supply => (.silent, { r with link := r.link.supply })

def moves (h : Handler σ) (r : Run σ) (list : List Move) : Run σ :=
  list.foldl (fun r m => (r.move h m).2) r

end Run

variable {h : Handler σ} {now : Instant} {l m : Link σ} {r : Run σ}

/-! ## What a move does to the session -/

theorem after_of_resets {s : Session σ} {p : Peer} (hkept : s.resets = l.session.resets) :
    l.after s p = ⟨s, p⟩ :=
  congrArg (Link.mk s) (if_pos hkept)

theorem after_of_left {s : Session σ} {p : Peer} (hleft : s.resets ≠ l.session.resets) :
    l.after s p = ⟨s, .fresh⟩ :=
  congrArg (Link.mk s) (if_neg hleft)

open Session (Steps Follows)

theorem session_deliver (h : Handler σ) (now : Instant) (l : Link σ) :
    (l.deliver h now).session =
      if l.session.task.phase = .opened then
        l.session.deliver h now l.peer.post.inFlight (if l.peer.ended then .ended else .silent)
      else l.session := by
  cases hphase : l.session.task.phase <;> simp only [deliver, hphase] <;> rfl

theorem peer_deliver (h : Handler σ) (now : Instant) (l : Link σ) :
    (l.deliver h now).peer =
      if (l.deliver h now).session.resets = l.session.resets then
        { l.peer.post with
          inFlight := if l.session.task.phase = .unstarted then l.peer.post.inFlight else [] }
      else .fresh := by
  cases hphase : l.session.task.phase with
  | unstarted | closed => simp [deliver, hphase]
  | opened => simp [deliver, hphase, after]

theorem turn_of_no_loops (h : Handler σ) (now : Instant) (hloops : l.session.task.loops = none) :
    l.turn h now = l := by
  simp [turn, Session.flush_of_no_loops hloops, after, Peer.hear]

theorem steps_turn (hs : l.session.Placed) (now : Instant) :
    Steps h now l.session (l.turn h now).session :=
  Session.steps_flush l.peer.fresh_writer hs

theorem steps_deliver (hs : l.session.Placed) (now : Instant) :
    Steps h now l.session (l.deliver h now).session := by
  rw [session_deliver]
  split
  · exact Session.steps_deliver hs _ _
  · exact .refl

theorem steps_round (hs : l.session.Placed) (now : Instant) :
    Steps h now l.session (l.round h now).session := by
  have hfirst := steps_turn (h := h) hs now
  have hsecond := steps_deliver (h := h) (hs.steps hfirst) now
  exact (hfirst.trans hsecond).trans (steps_turn ((hs.steps hfirst).steps hsecond) now)

/-- The send loop stands in a write, for want of room on the way to the peer. -/
structure Held (l : Link σ) : Prop where
  writing : l.session.task.isWriting = true
  full : l.peer.room = some 0

instance (l : Link σ) : Decidable l.Held :=
  decidable_of_iff (l.session.task.isWriting = true ∧ l.peer.room = some 0)
    ⟨fun ⟨writing, full⟩ => ⟨writing, full⟩, fun h => ⟨h.writing, h.full⟩⟩

theorem room_hear (p : Peer) {w : Writer} (hshrinks : p.writer.Shrinks w)
    (hroom : w.room = some 0) :
    (p.hear w.taken).room = some 0 := by
  have hbounded := hshrinks.bounded
  rw [hroom] at hbounded
  unfold Peer.writer at hshrinks hbounded
  split_ifs at hshrinks hbounded
  · cases hbounded
  · have hspent := hshrinks.room rfl
    rw [hroom] at hspent
    obtain ⟨room, hroom, htaken⟩ := Option.map_eq_some_iff.mp hspent.symm
    have hroom : p.room = some room := hroom
    have htaken : room = w.taken.length := by simpa [Writer.ofRoom, Writer.taken] using htaken
    simp [Peer.hear, hroom, htaken]

theorem held_turn (hs : l.session.Sound) (hloops : l.session.task.loops.isSome = true)
    (hwaits : (l.session.task.writeAll l.peer.writer).1 = .ok .waiting) :
    (l.turn h now).Held ∧ (l.turn h now).session = l.session.wrote now l.peer.writer := by
  have hfresh := l.peer.fresh_writer
  have hran := Task.runSendLoop_of_waiting hwaits now
  obtain ⟨hwrote, hstops, _⟩ :=
    Task.wrote_writeAll (hs.booked.wakeful hloops) hloops hfresh.incoming
  obtain ⟨hwriting, hroom⟩ := hstops.waits hwaits
  have hflush : l.session.flush h now l.peer.writer =
      (l.session.wrote now l.peer.writer, (l.session.task.writeAll l.peer.writer).2.2.taken) := by
    rw [Session.flush_of_loops h now _ hloops, hran]
    rfl
  have hturn : l.turn h now = ⟨l.session.wrote now l.peer.writer,
      l.peer.hear (l.session.task.writeAll l.peer.writer).2.2.taken⟩ := by
    simp only [turn, hflush]
    exact after_of_resets rfl
  rw [hturn]
  refine ⟨⟨?_, room_hear l.peer hwrote.shrinks hroom⟩, rfl⟩
  simp only [Session.wrote, hran]
  exact hwriting

/-- A turn of the send loop that finds a stop, or the deadline over without verification, closes the
task, unless it is held up in a write. -/
theorem held_or_closes_turn (hs : l.session.Sound) (hloops : l.session.task.loops.isSome = true)
    (hends : l.session.task.stopSignal = true ∨
      l.session.task.verified = false ∧ l.session.task.due now = true) :
    (l.turn h now).Held ∨ l.session.Closes (l.turn h now).session := by
  by_cases hwaits : (l.session.task.writeAll l.peer.writer).1 = .ok .waiting
  · exact .inl (held_turn hs hloops hwaits).1
  · have hsome := Task.isSome_runSendLoop now l.peer.writer hends hwaits
    obtain ⟨ending, hending⟩ := Option.isSome_iff_exists.mp hsome
    exact .inr (Session.closes_flush hs.placed hloops hending).1

theorem act_of_isQuiet (h : Handler σ) (now : Instant) (l : Link σ) {a : Action}
    (hquiet : a.isQuiet = true) :
    l.act h now a = ((l.session.actQuietly a).1.elim .silent .returned,
      { l with session := (l.session.actQuietly a).2 }) := by
  have hact := Session.act_of_isQuiet h now l.session hquiet
  cases a with
  | start | reset | close | terminate => cases hquiet
  | verify | stop | sendSignal | sendBytes | sendFrame =>
    exact Prod.ext (by simp only [act, hact]) (by simp only [act, hact]; exact after_of_resets rfl)

/-- The peer when it goes on reading. -/
def caughtUp (l : Link σ) : Peer :=
  (l.peer.step .resume).read (l.session.task.phase == .closed)

theorem sawEof_caughtUp (hclosed : l.session.task.phase = .closed) (hstays : l.peer.gone = false) :
    l.caughtUp.sawEof = true := by
  simp [caughtUp, Peer.read, Peer.step, hstays, hclosed]

theorem read_flags (l : Link σ) :
    l.read.peer.deaf = l.peer.deaf ∧ l.read.peer.gone = l.peer.gone ∧
      l.read.peer.room = l.peer.room := by
  unfold read Peer.read
  split_ifs <;> exact ⟨rfl, rfl, rfl⟩

/-! ## Settling -/

/-- What is done until the task stays on its stream ends with one time that keeps it there, for
every time before it has used up a stream of the reserve. -/
theorem exhaust_last {f : Link σ → Link σ} {P : Link σ → Prop} (hkeep : ∀ l, P l → P (f l))
    (hspend : ∀ l, P l → l.session.resets ≤ (f l).session.resets ∧
      (f l).session.resets + (f l).session.spares ≤ l.session.resets + l.session.spares)
    (hl : P l) :
    ∃ m, P m ∧ l.exhaust f = f m ∧ (f m).session.resets = m.session.resets := by
  have huntil (n : Nat) (hn : l.session.spares < n) :
      ∃ m, P m ∧ untilKept f n l = f m ∧ (f m).session.resets = m.session.resets := by
    induction n generalizing l with
    | zero => exact absurd hn (Nat.not_lt_zero _)
    | succ n ih =>
      by_cases hkept : (f l).session.resets = l.session.resets
      · exact ⟨l, hl, if_pos hkept, hkept⟩
      · obtain ⟨hmore, hbudget⟩ := hspend l hl
        obtain ⟨m, hm, hlast, hsame⟩ := ih (hkeep l hl) (by omega)
        exact ⟨m, hm, (if_neg hkept).trans hlast, hsame⟩
  exact huntil _ (Nat.lt_succ_self _)

theorem spend_of_steps {s s' : Session σ} (hsteps : Steps h now s s') :
    s.resets ≤ s'.resets ∧ s'.resets + s'.spares ≤ s.resets + s.spares :=
  ⟨hsteps.follows.resets, hsteps.spares⟩

theorem exhaust_of_resets {f : Link σ → Link σ}
    (hkept : (f l).session.resets = l.session.resets) : l.exhaust f = f l :=
  if_pos hkept

/-- A link settles with a turn that keeps its task on its stream, and a read. -/
theorem settle_last (h : Handler σ) (now : Instant) {P : Link σ → Prop}
    (hplaced : ∀ l, P l → l.session.Placed)
    (hturn : ∀ l, P l → P (l.turn h now)) (hdeliver : ∀ l, P l → P (l.deliver h now)) (hl : P l) :
    ∃ m, P m ∧ l.settle h now = (m.turn h now).read ∧
      (m.turn h now).session.resets = m.session.resets := by
  obtain ⟨m, hm, hlast, hkept⟩ := exhaust_last (f := round h now)
    (fun l hl => hturn _ (hdeliver _ (hturn l hl)))
    (fun l hl => spend_of_steps (steps_round (h := h) (hplaced l hl) now)) hl
  have hfirst := hturn m hm
  refine ⟨_, hdeliver _ hfirst, congrArg read hlast, ?_⟩
  -- the resets of the round can only grow from turn to turn
  have hturned := (steps_turn (h := h) (hplaced m hm) now).follows.resets
  have hdelivered := (steps_deliver (h := h) (hplaced _ hfirst) now).follows.resets
  have hagain := (steps_turn (h := h) (hplaced _ (hdeliver _ hfirst)) now).follows.resets
  exact le_antisymm (hkept.le.trans (hturned.trans hdelivered)) hagain

theorem resets_le_untilKept (h : Handler σ) (now : Instant) (hs : l.session.Placed) (n : Nat) :
    l.session.resets ≤ (untilKept (round h now) n l).session.resets := by
  induction n generalizing l with
  | zero => exact Nat.le_refl _
  | succ n ih =>
    have hround := steps_round (h := h) hs now
    have hfirst := hround.follows.resets
    rw [untilKept]
    split_ifs
    · exact hfirst
    · exact hfirst.trans (ih (hs.steps hround))

theorem settle_of_resets (hs : l.session.Placed)
    (hkept : (l.settle h now).session.resets = l.session.resets) :
    (l.round h now).session.resets = l.session.resets ∧ l.settle h now = (l.round h now).read := by
  have hround := steps_round (h := h) hs now
  suffices hsame : (l.round h now).session.resets = l.session.resets from
    ⟨hsame, congrArg read (exhaust_of_resets hsame)⟩
  by_contra hleft
  have hmore : l.exhaust (round h now) = untilKept (round h now) l.session.spares (l.round h now) :=
    if_neg hleft
  have hkept : (l.exhaust (round h now)).session.resets = l.session.resets := hkept
  rw [hmore] at hkept
  have hlast := resets_le_untilKept h now (hs.steps hround) l.session.spares
  exact hleft (le_antisymm (hlast.trans hkept.le) hround.follows.resets)

theorem settle_of_no_spares (hs : l.session.Placed) (hspares : l.session.spares = 0) :
    l.settle h now = (l.round h now).read :=
  congrArg read (exhaust_of_resets ((steps_round hs now).resets_of_no_spares hspares).1)

namespace Run

/-! ## Lists of moves -/

theorem moves_append (r : Run σ) (first second : List Move) :
    r.moves h (first ++ second) = (r.moves h first).moves h second :=
  List.foldl_append

theorem moves_concat (r : Run σ) (list : List Move) (m : Move) :
    r.moves h (list ++ [m]) = ((r.moves h list).move h m).2 :=
  moves_append r list [m]

/-- What happens to a link while the time stands still. -/
def Reaches (h : Handler σ) (now : Instant) (l m : Link σ) : Prop :=
  ∃ list : List Move, moves h ⟨now, l⟩ list = ⟨now, m⟩

theorem Reaches.trans {l m n : Link σ} (hfirst : Reaches h now l m) (hsecond : Reaches h now m n) :
    Reaches h now l n := by
  obtain ⟨first, hfirst⟩ := hfirst
  obtain ⟨second, hsecond⟩ := hsecond
  exact ⟨first ++ second, by rw [moves_append, hfirst, hsecond]⟩

theorem reaches_exhaust {f : Link σ → Link σ} (hf : ∀ l, Reaches h now l (f l)) (l : Link σ) :
    Reaches h now l (l.exhaust f) := by
  have huntil (n : Nat) : Reaches h now l (untilKept f n l) := by
    induction n generalizing l with
    | zero => exact ⟨[], rfl⟩
    | succ n ih =>
      rw [untilKept]
      split_ifs
      · exact hf l
      · exact (hf l).trans (ih (f l))
  exact huntil _

theorem reaches_turn (h : Handler σ) (now : Instant) (l : Link σ) :
    Reaches h now l (l.turn h now) :=
  ⟨[.turn], rfl⟩

theorem reaches_round (h : Handler σ) (now : Instant) (l : Link σ) :
    Reaches h now l (l.round h now) :=
  ⟨[.turn, .deliver, .turn], rfl⟩

theorem reaches_settle (h : Handler σ) (now : Instant) (l : Link σ) :
    Reaches h now l (l.settle h now) :=
  (reaches_exhaust (reaches_round h now) l).trans ⟨[.read], rfl⟩

theorem exists_moves_apply (r : Run σ) (e : Event) :
    ∃ list, r.moves h list = (r.apply h e).2 := by
  cases e with
  | start => exact ⟨[.act .start], rfl⟩
  | reset => exact ⟨[.act .reset], rfl⟩
  | advance time =>
    obtain ⟨first, hfirst⟩ := reaches_exhaust (reaches_turn h r.now) r.link
    obtain ⟨second, hsecond⟩ := reaches_exhaust (reaches_turn h (r.now + time))
      (r.link.exhaust (Link.turn h r.now))
    refine ⟨first ++ [.wait time] ++ second, ?_⟩
    rw [moves_append, moves_append]
    exact (congrArg (fun r => moves h (move h r (.wait time)).2 second) hfirst).trans hsecond
  | rest => exact ⟨[], rfl⟩
  | peer e => exact ⟨[.peer e], rfl⟩
  | act a => exact ⟨[.act a], rfl⟩
  | supply => exact ⟨[.supply], rfl⟩

theorem exists_moves_happen (settles : Bool) (r : Run σ) (e : Event) :
    ∃ list, r.moves h list = (r.happen h settles e).2 := by
  obtain ⟨list, hlist⟩ := exists_moves_apply (h := h) r e
  cases settles with
  | false => exact ⟨list, hlist⟩
  | true =>
    obtain ⟨rest, hrest⟩ := reaches_settle h ((r.apply h e).2.now) (r.apply h e).2.link
    exact ⟨list ++ rest, by rw [moves_append, hlist]; exact hrest⟩

/-- Whatever happens, with or without settling, is a list of moves. -/
theorem exists_moves_events (r : Run σ) (events : List (Bool × Event)) :
    ∃ list, r.moves h list = events.foldl (fun r e => (r.happen h e.1 e.2).2) r := by
  induction events generalizing r with
  | nil => exact ⟨[], rfl⟩
  | cons e events ih =>
    obtain ⟨first, hfirst⟩ := exists_moves_happen (h := h) e.1 r e.2
    obtain ⟨rest, hrest⟩ := ih (r.happen h e.1 e.2).2
    exact ⟨first ++ rest, by rw [moves_append, hfirst, hrest, List.foldl_cons]⟩

/-! ## What moves keep up -/

/-- Every move but a change of the reserve is steps of the session. -/
theorem steps_move (hs : r.link.session.Placed) (m : Move) :
    ∃ spares, Steps h r.now { r.link.session with spares } (r.move h m).2.link.session := by
  have hsame {s : Session σ} (hsteps : Steps h r.now r.link.session s) :
      ∃ spares, Steps h r.now { r.link.session with spares } s :=
    ⟨r.link.session.spares, hsteps⟩
  cases m with
  | act a =>
    have hact := (Session.effects_act h r.now r.link.session a).steps
    cases a with
    | reset =>
      exact ⟨r.link.session.spares + 1, (Session.effects_reset h r.now r.link.session).steps⟩
    | start | verify | close | terminate | stop | sendSignal | sendBytes | sendFrame =>
      exact hsame hact
  | turn => exact hsame (steps_turn hs r.now)
  | deliver => exact hsame (steps_deliver hs r.now)
  | supply => exact ⟨r.link.session.spares + 1, .refl⟩
  | peer | wait | read => exact hsame .refl

theorem follows_move (hs : r.link.session.Placed) (m : Move) :
    r.link.session.Follows (r.move h m).2.link.session := by
  obtain ⟨spares, hsteps⟩ := steps_move (h := h) hs m
  exact hsteps.follows.of_stock

theorem now_le_move (r : Run σ) (m : Move) : r.now ≤ (r.move h m).2.now := by
  cases m with
  | wait time => exact Nat.le_add_right r.now time
  | act | peer | turn | deliver | read | supply => exact Nat.le_refl r.now

theorem sound_move (hs : r.link.session.Sound) (m : Move) :
    (r.move h m).2.link.session.Sound := by
  obtain ⟨spares, hsteps⟩ := steps_move (h := h) hs.placed m
  exact (hs.stock spares).steps hsteps

theorem moves_keep {P : Run σ → Prop} (hmove : ∀ r m, P r → P (r.move h m).2)
    (hr : P r) (list : List Move) : P (r.moves h list) := by
  induction list generalizing r with
  | nil => exact hr
  | cons m list ih => exact ih (hmove r m hr)

theorem sound_moves (h : Handler σ) (state : σ) (settings : Task.Settings) (list : List Move) :
    ((init state settings).moves h list).link.session.Sound :=
  moves_keep (P := fun r => r.link.session.Sound) (fun _ m hs => sound_move hs m)
    (Session.sound_ofTask state settings) list

/-- What steps keep up whatever is in reserve holds after every list of moves. -/
theorem session_moves {P : Session σ → Prop}
    (hsteps : ∀ now s s', P s → Steps h now s s' → P s')
    (hstock : ∀ s spares, P s → P { s with spares }) (hs : r.link.session.Sound)
    (hr : P r.link.session) (list : List Move) :
    (r.moves h list).link.session.Sound ∧ P (r.moves h list).link.session := by
  refine moves_keep (P := fun r => r.link.session.Sound ∧ P r.link.session) ?_ ⟨hs, hr⟩ list
  intro r m ⟨hs, hr⟩
  obtain ⟨spares, hmove⟩ := steps_move (h := h) hs.placed m
  exact ⟨sound_move hs m, hsteps r.now _ _ (hstock _ spares hr) hmove⟩

theorem settings_moves (h : Handler σ) (state : σ) (settings : Task.Settings)
    (list : List Move) :
    ((init state settings).moves h list).link.session.task.settings = settings :=
  (session_moves (P := fun s => s.task.settings = settings)
    (fun _ _ _ hs hsteps => hsteps.settings.trans hs) (fun _ _ hs => hs)
    (Session.sound_ofTask state settings) rfl list).2

end Run

end Link

end FrameLink
