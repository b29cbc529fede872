import FrameLink.Proofs.Link.Stranding
import FrameLink.Proofs.Link.Verification

/-!
# The deadline of a start

A start sets a deadline for its task to be verified. The send loop comes to it last, behind the data
and behind a stop, and only once: the deadline stays where it was set, and what has fired stays so
until the next start. What was accepted until then has been written, and a task that is verified
goes on as before. While the send loop stands in a write, it comes to nothing: a peer that stays and
does not read keeps its task open past the deadline.
-/

namespace FrameLink

variable {σ : Type}

def Task.armed (t : Task) : Bool :=
  t.timer.any Prod.snd

namespace Session

variable {h : Handler σ} {now : Instant} {s s' : Session σ}

/-! ## Where the deadline is -/

theorem timer_wrote (now : Instant) (w : Writer) (s : Session σ) {time : Instant} {armed : Bool}
    (htimer : (s.wrote now w).task.timer = some (time, armed)) :
    ∃ armed', s.task.timer = some (time, armed') ∧ (armed = true → armed' = true) := by
  have hran : (s.wrote now w).task.timer =
      if s.task.fires now w ∧ s.task.verified then s.task.disarm.timer else s.task.timer :=
    Task.timer_runSendLoop now w s.task
  rw [hran] at htimer
  split_ifs at htimer
  · rw [Task.timer_disarm] at htimer
    obtain ⟨⟨time', armed'⟩, hbefore, heq⟩ := Option.map_eq_some_iff.mp htimer
    cases heq
    exact ⟨armed', hbefore, nofun⟩
  · exact ⟨armed, htimer, id⟩

/-- Until the next opening the deadline stays where it is, and does not get armed again. -/
theorem Step.timer (hstep : Step h now s s') (hopenings : s'.openings = s.openings)
    {time : Instant} {armed : Bool} (htimer : s'.task.timer = some (time, armed)) :
    ∃ armed', s.task.timer = some (time, armed') ∧ (armed = true → armed' = true) := by
  cases hstep with
  | effect heffect =>
    cases heffect with
    | verify | stop | signal | push | report | discard | renew => exact ⟨armed, htimer, id⟩
    | shut => cases htimer
    | launch hunstarted =>
      rw [(phase_launch now hunstarted).2.1] at hopenings
      exact absurd hopenings (Nat.succ_ne_self _)
  | enter | stray => exact ⟨armed, htimer, id⟩
  | inbound b =>
    have hsame : (s.task.setInbound b).timer = s.task.timer := by
      cases hloops : s.task.loops <;> simp [Task.timer, Task.setInbound, hloops]
    exact ⟨armed, hsame ▸ htimer, id⟩
  | @write w => exact timer_wrote now w s htimer
  | exit => cases htimer

theorem Steps.timer (hsteps : Steps h now s s') (hopenings : s'.openings = s.openings)
    {time : Instant} {armed : Bool} (htimer : s'.task.timer = some (time, armed)) :
    ∃ armed', s.task.timer = some (time, armed') ∧ (armed = true → armed' = true) := by
  induction hsteps generalizing armed with
  | refl => exact ⟨armed, htimer, id⟩
  | @tail t t' hsteps hstep ih =>
    have hsame : t'.openings = t.openings :=
      le_antisymm (hopenings.le.trans (Steps.follows hsteps).openings) hstep.follows.openings
    obtain ⟨armed', htimer', hbefore⟩ := hstep.timer hsame htimer
    obtain ⟨armed'', htimer'', hfirst⟩ := ih (hsame.symm.trans hopenings) htimer'
    exact ⟨armed'', htimer'', fun hon => hfirst (hbefore hon)⟩

theorem Steps.armed (hsteps : Steps h now s s') (hopenings : s'.openings = s.openings)
    (harmed : s'.task.armed = true) : s.task.armed = true := by
  obtain ⟨⟨time, armed⟩, htimer, hon⟩ := (Option.any_eq_true ..).mp harmed
  obtain ⟨armed', htimer', hbefore⟩ := hsteps.timer hopenings htimer
  exact (Option.any_eq_true ..).mpr ⟨_, htimer', hbefore hon⟩

theorem Step.timer_of_goesOn (hstep : Step h now s s') (hgoes : s.GoesOn s')
    (hopened : s'.task.phase = .opened) {time : Instant}
    (htimer : ∃ armed, s.task.timer = some (time, armed)) :
    ∃ armed, s'.task.timer = some (time, armed) := by
  obtain ⟨armed, htimer⟩ := htimer
  have hbefore := congrArg Option.isSome htimer
  have hsome : s'.task.timer.isSome = true := by
    rw [Task.timer, Option.isSome_map] at hbefore ⊢
    rcases hgoes.phase with ⟨_, hloops, _⟩ | ⟨_, hclosed, _⟩
    · exact hloops.trans hbefore
    · rw [hclosed] at hopened
      cases hopened
  obtain ⟨⟨time', armed'⟩, htimer'⟩ := Option.isSome_iff_exists.mp hsome
  obtain ⟨armed'', hsame, _⟩ := hstep.timer hgoes.openings htimer'
  rw [htimer] at hsame
  cases hsame
  exact ⟨armed', htimer'⟩

/-- What the `k`th opening of a session leaves behind until the next one. -/
structure Timed (k : Nat) (time : Instant) (s : Session σ) : Prop where
  opened : k ≤ s.openings
  timer : s.openings = k → s.task.phase = .opened → ∃ armed, s.task.timer = some (time, armed)

variable {k : Nat} {time : Instant}

theorem Timed.stock (hs : s.Timed k time) (spares : Nat) : Timed k time { s with spares } :=
  ⟨hs.opened, hs.timer⟩

theorem Timed.step (hs : s.Timed k time) (hstep : Step h now s s') : s'.Timed k time := by
  refine ⟨hs.opened.trans hstep.follows.openings, fun hk hopened => ?_⟩
  rcases hstep.goesOn_or with hgoes | ⟨hunstarted, rfl⟩ | ⟨_, rfl⟩
  · exact hstep.timer_of_goesOn hgoes hopened
      (hs.timer (hgoes.openings.symm.trans hk) (hgoes.opened_before hopened))
  · have hopened := hs.opened
    rw [(phase_launch now hunstarted).2.1] at hk
    omega
  · cases hopened

theorem Timed.steps (hs : s.Timed k time) (hsteps : Steps h now s s') : s'.Timed k time := by
  induction hsteps with
  | refl => exact hs
  | tail _ hstep ih => exact ih.step hstep

theorem Steps.openings_of_starts (hsteps : Steps h now s s') (hstarts : s.starts < s'.starts) :
    s.openings < s'.openings := by
  suffices hcounts : s'.starts + s.openings ≤ s.starts + s'.openings by omega
  clear hstarts
  induction hsteps with
  | refl => exact Nat.le_refl _
  | @tail t t' _ hstep ih =>
    rcases hstep.goesOn_or with hgoes | ⟨_, rfl⟩ | ⟨_, rfl⟩
    · rwa [hgoes.starts, hgoes.openings]
    · have hlaunches := launches now t
      generalize (t.launch now).1 = outcome, (t.launch now).2 = t' at hlaunches
      cases hlaunches with
      | refused => exact ih
      | unconnected | overflow => exact ih.trans (Nat.le_succ _)
      | started =>
        dsimp only
        omega
    · exact ih

/-- A start succeeds only where its deadline is an instant. -/
theorem Steps.time_of_starts (hsteps : Steps h now s s') (hstarts : s.starts < s'.starts) :
    now + s.task.settings.verifyTimeout < timeBound := by
  by_contra hlate
  suffices hsame : s'.starts = s.starts from absurd hsame hstarts.ne'
  clear hstarts
  induction hsteps with
  | refl => rfl
  | @tail t t' hsteps hstep ih =>
    rcases hstep.goesOn_or with hgoes | ⟨hunstarted, rfl⟩ | ⟨_, rfl⟩
    · exact hgoes.starts.trans ih
    · have hlaunches := launches now t
      rw [← Steps.settings hsteps] at hlate
      generalize (t.launch now).1 = outcome, (t.launch now).2 = t' at hlaunches
      cases hlaunches with
      | started _ htime => exact absurd htime hlate
      | refused | unconnected | overflow => exact ih
    · exact ih

theorem Steps.timed (hsteps : Steps h now s s') (hs : s.Placed)
    (htime : now + s.task.settings.verifyTimeout < timeBound)
    (hopenings : s.openings < s'.openings) :
    s'.Timed s'.openings (now + s.task.settings.verifyTimeout) := by
  suffices htimer : s'.task.phase = .opened → ∃ armed,
      s'.task.timer = some (now + s.task.settings.verifyTimeout, armed) from
    ⟨Nat.le_refl _, fun _ => htimer⟩
  induction hsteps with
  | refl => exact absurd hopenings (Nat.lt_irrefl _)
  | @tail t t' hsteps hstep ih =>
    intro hopened
    have ht := hs.steps hsteps
    rcases hstep.goesOn_or with hgoes | ⟨hunstarted, rfl⟩ | ⟨_, rfl⟩
    · exact hstep.timer_of_goesOn hgoes hopened
        (ih (hopenings.trans_eq hgoes.openings) (hgoes.opened_before hopened))
    · have hlaunches := launches now t
      rw [← Steps.settings hsteps] at htime ⊢
      generalize (t.launch now).1 = outcome, (t.launch now).2 = t' at hlaunches
      cases hlaunches with
      | refused hphase => exact absurd hunstarted hphase
      | unconnected _ hstream =>
        rw [ht.connected hunstarted] at hstream
        cases hstream
      | started => exact ⟨true, rfl⟩
      | overflow _ hlate => exact absurd htime (Nat.not_lt.mpr hlate)
    · cases hopened

/-! ## What a turn of the send loop does -/

theorem timeout_flush {w : Writer} (hrunning : s.ledger.ending = none)
    (hending : (s.flush h now w).1.ledger.ending = some (.failed .verifyTimeout)) :
    s.task.fires now w = true ∧ s.task.verified = false := by
  cases hloops : s.task.loops.isSome with
  | false =>
    rw [flush_of_no_loops (by simpa using hloops), hrunning] at hending
    cases hending
  | true =>
    -- the actions behind the end of the send loop leave its ending, or a new ledger
    have hwrote : (s.wrote now w).ledger.ending = (s.task.runSendLoop now w).1 := rfl
    have hends : (s.task.runSendLoop now w).1 = some (.failed .verifyTimeout) := by
      by_contra hno
      refine absurd hending ?_
      rw [flush_of_loops h now w hloops]
      split_ifs
      · exact Effects.ledger_keeps (P := fun l => l.ending ≠ some (.failed .verifyTimeout))
          (effects_close _) nofun (fun _ _ hl => hl) (hwrote ▸ hno)
      · exact hno
    exact Task.fires_of_timeout hends

/-- A verified task stays so, and no deadline ends its send loop any more. -/
theorem Steps.ending (hsteps : Steps h now s s') (hverified : s.task.verified = true)
    (hending : s.ledger.ending ≠ some (.failed .verifyTimeout)) :
    s'.task.verified = true ∧ s'.ledger.ending ≠ some (.failed .verifyTimeout) := by
  induction hsteps with
  | refl => exact ⟨hverified, hending⟩
  | @tail t t' _ hstep ih =>
    obtain ⟨hverified, hending⟩ := ih
    cases hstep with
    | effect heffect =>
      cases heffect with
      | verify => exact ⟨rfl, hending⟩
      | stop | signal | push | report | shut | discard | renew => exact ⟨hverified, hending⟩
      | launch hunstarted =>
        have hlaunches := launches now t
        have hledger := (phase_launch now hunstarted).2.2.2.2.2
        refine ⟨?_, by rw [hledger]; exact nofun⟩
        generalize (t.launch now).1 = outcome, (t.launch now).2 = t' at hlaunches
        cases hlaunches <;> exact hverified
    | enter | inbound => exact ⟨hverified, hending⟩
    | @stray frame => exact ⟨hverified, hending⟩
    | @write w _ _ _ hgoes =>
      have hnone : (t.wrote now w).ledger.ending = none := hgoes
      exact ⟨(Task.ran_runSendLoop now w t.task).verified.trans hverified,
        by rw [hnone]; exact nofun⟩
    | @exit w =>
      exact ⟨(Task.ran_runSendLoop now w t.task).verified.trans hverified,
        Task.runSendLoop_of_verified hverified now w⟩

/-! ## A peer that reads -/

theorem flush_willing (h : Handler σ) (hs : s.Sound) (hloops : s.task.loops.isSome = true)
    (now : Instant) :
    s.ledger.written ++ (s.flush h now .willing).2 = s.ledger.accepted ∧
      (s.task.stopSignal = true → s.Closes (s.flush h now .willing).1 ∧
        ((s.flush h now .willing).1.resets = s.resets →
          (s.flush h now .willing).1.ledger.ending = some .stopped ∧
            (s.flush h now .willing).1.ledger.written = s.ledger.accepted)) ∧
      (s.task.stopSignal = false → s.task.verified = true →
        (s.flush h now .willing).1.task.phase = .opened ∧
          (s.flush h now .willing).1.resets = s.resets ∧
          (s.flush h now .willing).1.ledger.written = s.ledger.accepted) := by
  have hwritten := hs.wrote_willing hloops now
  have hdone := Task.writeAll_takesAll (hs.booked.wakeful hloops) hloops Writer.takesAll_willing
  have hran := Task.runSendLoop_of_done hdone now
  refine ⟨?_, fun hstop => ?_, fun hstop hverified => ?_⟩
  · rw [flush_of_loops h now .willing hloops]
    exact hwritten
  · rw [if_pos hstop] at hran
    obtain ⟨hcloses, hledger⟩ := closes_flush (h := h) hs.placed hloops
      (congrArg Prod.fst hran)
    refine ⟨hcloses, fun hkept => ?_⟩
    obtain ⟨hending, hbytes⟩ := hledger hkept
    exact ⟨hending, hbytes.trans hwritten⟩
  · have hgoes : (s.task.runSendLoop now .willing).1 = none := by
      rw [hran]
      simp only [hstop, hverified, if_true, Bool.false_eq_true, if_false]
      split_ifs <;> rfl
    have hphase := (Task.ran_runSendLoop now .willing s.task).phase
    rw [flush_of_goes hloops hgoes]
    exact ⟨hphase.trans (hs.placed.opened hloops), rfl, hwritten⟩

theorem actQuietly_sendBytes (hopen : s.task.isOpen = true) (bytes : Bytes) :
    s.actQuietly (.sendBytes bytes) = (some true, s.push bytes) := by
  simp only [actQuietly, Task.sendBytes_of_isOpen hopen]
  rfl

theorem actQuietly_stop (hopen : s.task.isOpen = true) (hloops : s.task.loops.isSome = true) :
    s.actQuietly .stop = (some (!s.task.stopSignal),
      { s with task := { s.task with stopSignal := true } }) := by
  cases hpending : s.task.stopSignal with
  | true =>
    have hstop : s.task.stop = (false, s.task) := by simp [Task.stop, hpending]
    have hsame : { s.task with stopSignal := true } = s.task := by rw [← hpending]
    simp only [actQuietly, hstop, hsame]
    rfl
  | false =>
    have hstop : s.task.stop = (true, { s.task with stopSignal := true }) := by
      simp [Task.stop, hpending, hopen, hloops]
    simp only [actQuietly, hstop]
    rfl

end Session

namespace Link

variable {h : Handler σ}

/-- What a link is like whose deadline fires in the next turn of the send loop: the turn writes all
that was accepted. -/
structure Fired (h : Handler σ) (now : Instant) (l : Link σ) : Prop where
  written : l.session.ledger.written ++ (l.session.flush h now l.peer.writer).2 =
    l.session.ledger.accepted
  spent : (l.turn h now).session.openings = l.session.openings →
    (l.turn h now).session.task.armed = false
  stays : l.session.task.verified = true → (l.turn h now).session.task.phase = .opened ∧
    (l.turn h now).session.resets = l.session.resets ∧
    (l.turn h now).session.ledger.ending = none
  closes : l.session.task.verified = false → l.session.Closes (l.turn h now).session ∧
    ((l.turn h now).session.resets = l.session.resets →
      (l.turn h now).session.ledger.ending = some (.failed .verifyTimeout))

theorem fired_turn (h : Handler σ) {now : Instant} {l : Link σ} (hs : l.session.Sound)
    (hfires : l.session.task.fires now l.peer.writer = true) : l.Fired h now := by
  have hfresh := l.peer.fresh_writer
  obtain ⟨hdone, _, hdue⟩ := (Task.fires_iff ..).mp hfires
  have hends := Task.runSendLoop_of_fires hfires
  have hloops : l.session.task.loops.isSome = true := by
    obtain ⟨loops, hloops, _⟩ := (Option.any_eq_true ..).mp hdue
    rw [hloops]
    rfl
  have hwritten : l.session.ledger.written ++ (l.session.flush h now l.peer.writer).2 =
      l.session.ledger.accepted := by
    rw [Session.flush_of_loops h now _ hloops]
    exact hs.wrote_done hfresh hloops hdone now
  cases hverified : l.session.task.verified with
  | true =>
    rw [hverified, if_pos rfl] at hends
    have hturn : (l.turn h now).session = l.session.wrote now l.peer.writer :=
      Session.flush_of_goes hloops hends
    have hphase := (Task.ran_runSendLoop now l.peer.writer l.session.task).phase
    have hspent : (l.session.wrote now l.peer.writer).task.timer = l.session.task.disarm.timer :=
      (Task.timer_runSendLoop now l.peer.writer l.session.task).trans (if_pos ⟨hfires, hverified⟩)
    refine ⟨hwritten, fun _ => ?_, fun _ => ?_, fun hno => absurd hverified (by simp [hno])⟩
    · rw [hturn, Task.armed, hspent, Task.timer_disarm]
      cases l.session.task.timer <;> rfl
    · rw [hturn]
      exact ⟨hphase.trans (hs.placed.opened hloops), rfl, hends⟩
  | false =>
    rw [hverified, if_neg Bool.false_ne_true] at hends
    obtain ⟨hcloses, hledger⟩ := Session.closes_flush (h := h) hs.placed hloops hends
    refine ⟨hwritten, fun hopenings => ?_, fun hno => absurd hno (by simp [hverified]),
      fun _ => ⟨hcloses, fun hkept => (hledger hkept).1⟩⟩
    -- an open task would have been opened meanwhile
    have hafter := hs.placed.steps (steps_turn (h := h) hs.placed now)
    have hbalance := hs.placed.balance
    have hbalance' := hafter.balance
    have hless : l.session.closes < (l.turn h now).session.closes := hcloses.closes
    have hphase : (l.turn h now).session.task.phase ≠ .opened := by
      intro hopened
      rw [hs.placed.opened hloops, if_pos rfl] at hbalance
      rw [hopened, if_pos rfl] at hbalance'
      omega
    rw [Task.armed, Task.timer, hafter.no_loops hphase]
    rfl

namespace Run

variable {r : Run σ}

theorem openings_le_moves (hs : r.link.session.Sound) (list : List Move) :
    r.link.session.openings ≤ (r.moves h list).link.session.openings :=
  (session_moves (P := fun s => r.link.session.openings ≤ s.openings)
    (fun _ _ _ hle hsteps => hle.trans hsteps.follows.openings) (fun _ _ hle => hle) hs
    (Nat.le_refl _) list).2

theorem armed_move (hs : r.link.session.Placed) (m : Move)
    (hopenings : (r.move h m).2.link.session.openings = r.link.session.openings)
    (harmed : (r.move h m).2.link.session.task.armed = true) :
    r.link.session.task.armed = true := by
  obtain ⟨spares, hsteps⟩ := steps_move (h := h) hs m
  exact hsteps.armed hopenings harmed

/-- The next turn of the send loop finds the deadline over. -/
def fires (r : Run σ) : Bool :=
  r.link.session.task.fires r.now r.link.peer.writer

def firings (h : Handler σ) (r : Run σ) : List Move → Nat
  | [] => 0
  | m :: list => (if m = .turn ∧ r.fires then 1 else 0) + firings h (r.move h m).2 list

theorem timer_of_fires (hfires : r.fires = true) :
    ∃ time, r.link.session.task.timer = some (time, true) ∧ time ≤ r.now := by
  obtain ⟨_, _, hdue⟩ := (Task.fires_iff ..).mp hfires
  rw [Task.due_eq] at hdue
  obtain ⟨⟨time, armed⟩, htimer, hover⟩ := (Option.any_eq_true ..).mp hdue
  obtain ⟨rfl, hover⟩ := Bool.and_eq_true_iff.mp hover
  exact ⟨time, htimer, of_decide_eq_true hover⟩

theorem armed_of_fires (hfires : r.fires = true) : r.link.session.task.armed = true := by
  obtain ⟨time, htimer, _⟩ := timer_of_fires hfires
  exact (Option.any_eq_true ..).mpr ⟨(time, true), htimer, rfl⟩

theorem firing_move (hs : r.link.session.Sound) (m : Move)
    (hopenings : (r.move h m).2.link.session.openings = r.link.session.openings) :
    (if m = .turn ∧ r.fires then 1 else 0) + (r.move h m).2.link.session.task.armed.toNat ≤
      r.link.session.task.armed.toNat := by
  split_ifs with hfires
  · obtain ⟨rfl, hfires⟩ := hfires
    have hspent := (fired_turn h hs hfires).spent hopenings
    rw [armed_of_fires hfires]
    simp only [move, hspent]
    exact Nat.le_refl 1
  · rw [Nat.zero_add]
    cases harmed : (r.move h m).2.link.session.task.armed with
    | false => exact Nat.zero_le _
    | true => rw [armed_move hs.placed m hopenings harmed]

theorem firings_moves (hs : r.link.session.Sound) (list : List Move)
    (hopenings : (r.moves h list).link.session.openings = r.link.session.openings) :
    firings h r list + (r.moves h list).link.session.task.armed.toNat ≤
      r.link.session.task.armed.toNat := by
  induction list generalizing r with
  | nil => exact (Nat.zero_add _).le
  | cons m list ih =>
    have hnext : (r.move h m).2.link.session.Sound := sound_move hs m
    have hfirst := (follows_move (h := h) hs.placed m).openings
    have hrest := openings_le_moves (h := h) hnext list
    have hsame : (r.move h m).2.link.session.openings = r.link.session.openings :=
      Nat.le_antisymm (hopenings ▸ hrest) hfirst
    have hmove := firing_move hs m hsame
    have hmoves := ih hnext (hopenings.trans hsame.symm)
    simp only [firings, moves, List.foldl_cons] at hmoves ⊢
    omega

/-- No move but a turn of the send loop closes a task on account of its deadline. -/
theorem timeout_move (hs : r.link.session.Sound) (hopened : r.link.session.task.phase = .opened)
    {m : Move}
    (hending : (r.move h m).2.link.session.ledger.ending = some (.failed .verifyTimeout)) :
    m = .turn ∧ r.fires = true ∧ r.link.session.task.verified = false := by
  have hrunning := hs.booked.running hopened
  have hother (hnone : (r.move h m).2.link.session.ledger.ending = none) :
      m = .turn ∧ r.fires = true ∧ r.link.session.task.verified = false := by
    rw [hnone] at hending
    cases hending
  cases m with
  | act a =>
    have hact := (Session.effects_act h r.now r.link.session a).ending hrunning
    cases a with
    | reset =>
      exact hother ((Session.effects_reset h r.now r.link.session).ending hrunning)
    | start | verify | close | terminate | stop | sendSignal | sendBytes | sendFrame =>
      exact hother hact
  | peer | wait | read | supply => exact hother hrunning
  | deliver =>
    refine hother ?_
    simp only [move]
    rw [session_deliver, if_pos hopened]
    exact Session.ending_deliver hrunning _ _
  | turn => exact ⟨rfl, Session.timeout_flush hrunning hending⟩

theorem ending_moves (hs : r.link.session.Sound) (hverified : r.link.session.task.verified = true)
    (hending : r.link.session.ledger.ending ≠ some (.failed .verifyTimeout)) (list : List Move) :
    (r.moves h list).link.session.ledger.ending ≠ some (.failed .verifyTimeout) :=
  (session_moves (P := fun s => s.task.verified = true ∧
      s.ledger.ending ≠ some (.failed .verifyTimeout))
    (fun _ _ _ hs hsteps => hsteps.ending hs.1 hs.2) (fun _ _ hs => hs) hs
    ⟨hverified, hending⟩ list).2.2

/-- A link that serves its task: the next turn of the send loop writes what is sent, and takes a
stop. -/
structure Serves (h : Handler σ) (r : Run σ) : Prop where
  accepts (bytes : Bytes) : (r.move h (.act (.sendBytes bytes))).1 = .returned true
  writes (bytes : Bytes) :
    let l := (r.move h (.act (.sendBytes bytes))).2.link
    l.session.ledger.written ++ (l.session.flush h r.now l.peer.writer).2 =
      r.link.session.ledger.accepted ++ bytes
  stays (bytes : Bytes) : r.link.session.task.stopSignal = false →
    r.link.session.task.verified = true →
    let s := (r.moves h [.act (.sendBytes bytes), .turn]).link.session
    s.task.phase = .opened ∧ s.resets = r.link.session.resets ∧
      s.ledger.written = r.link.session.ledger.accepted ++ bytes
  admits : (r.move h (.act .stop)).1 = .returned (!r.link.session.task.stopSignal)
  stops :
    let s := (r.moves h [.act .stop, .turn]).link.session
    r.link.session.Closes s ∧ (s.resets = r.link.session.resets →
      s.ledger.ending = some .stopped ∧ s.ledger.written = r.link.session.ledger.accepted)

theorem serves (hs : r.link.session.Sound) (hloops : r.link.session.task.loops.isSome = true)
    (hreads : r.link.peer.Reads) : r.Serves h := by
  have hopen := hs.placed.isOpen hloops
  have hwriter := hreads.writer
  have hsends (bytes : Bytes) : r.link.act h r.now (.sendBytes bytes) =
      (.returned true, { r.link with session := r.link.session.push bytes }) := by
    rw [act_of_isQuiet h r.now r.link rfl, Session.actQuietly_sendBytes hopen]
    rfl
  have hstops : r.link.act h r.now .stop = (.returned (!r.link.session.task.stopSignal),
      { r.link with session :=
        { r.link.session with task := { r.link.session.task with stopSignal := true } } }) := by
    rw [act_of_isQuiet h r.now r.link rfl, Session.actQuietly_stop hopen hloops]
    rfl
  have hpush (bytes : Bytes) : Session.Step h r.now r.link.session (r.link.session.push bytes) :=
    .effect (.push bytes hopen)
  have hstop : Session.Step h r.now r.link.session { r.link.session with
      task := { r.link.session.task with stopSignal := true } } := .effect (.stop hopen)
  have hpushed (bytes : Bytes) :=
    Session.flush_willing h (hs.steps (.single (hpush bytes))) hloops r.now
  obtain ⟨-, hstopped, -⟩ := Session.flush_willing h (hs.steps (.single hstop)) hloops r.now
  constructor
  · intro bytes
    simp only [move, hsends]
  · intro bytes
    simp only [move, hsends, hwriter]
    exact (hpushed bytes).1
  · intro bytes hgoes hverified
    simp only [moves, List.foldl_cons, List.foldl_nil, move, Link.turn, hsends, hwriter]
    exact (hpushed bytes).2.2 hgoes hverified
  · simp only [move, hstops]
  · simp only [moves, List.foldl_cons, List.foldl_nil, move, Link.turn, hstops, hwriter]
    exact ⟨⟨(hstopped rfl).1.closes, (hstopped rfl).1.closed⟩, (hstopped rfl).2⟩

/-- It is the last turn of the send loop that no unverified task outlives, unless it is held up. -/
theorem verified_settle {k : Nat} {time : Instant} (hs : r.link.session.Sound)
    (htimed : r.link.session.Timed k time) (hvetted : r.link.session.Vetted)
    (hk : (r.settle h).link.session.openings = k) (htime : time ≤ r.now)
    (hopened : (r.settle h).link.session.task.phase = .opened) :
    (r.settle h).link.session.task.verified = true ∨ (r.settle h).link.Held := by
  obtain ⟨l, ⟨hl, hltimed, hlvetted⟩, hsettled, hkept⟩ :=
    settle_last h r.now (l := r.link)
      (P := fun l => l.session.Sound ∧ l.session.Timed k time ∧ l.session.Vetted)
      (fun _ hl => hl.1.placed)
      (fun l hl => have hsteps := steps_turn (h := h) hl.1.placed r.now
        ⟨hl.1.steps hsteps, hl.2.1.steps hsteps, hl.2.2.steps hsteps⟩)
      (fun l hl => have hsteps := steps_deliver (h := h) hl.1.placed r.now
        ⟨hl.1.steps hsteps, hl.2.1.steps hsteps, hl.2.2.steps hsteps⟩)
      ⟨hs, htimed, hvetted⟩
  have hsettled : (r.settle h).link = (l.turn h r.now).read := hsettled
  have hsteps := steps_turn (h := h) hl.placed r.now
  rw [hsettled] at hk hopened ⊢
  have hgoes := hsteps.follows.goesOn_of_openings
    (le_antisymm (hk.le.trans hltimed.opened) hsteps.follows.openings) hkept
  obtain ⟨armed, htimer⟩ :=
    hltimed.timer (hgoes.openings.symm.trans hk) (hgoes.opened_before hopened)
  obtain ⟨loops, hloops, heq⟩ := Option.map_eq_some_iff.mp htimer
  cases hverified : l.session.task.verified with
  | true =>
    have hnever : l.session.ledger.ending ≠ some (.failed .verifyTimeout) := by
      rw [hl.booked.running (hgoes.opened_before hopened)]
      exact nofun
    exact .inl (hsteps.ending hverified hnever).1
  | false =>
    have hdue : l.session.task.due r.now = true := by
      have hdeadline : loops.deadline = time := congrArg Prod.fst heq
      simp [Task.due, hloops, hlvetted.armed loops hloops hverified, hdeadline, htime]
    rcases held_or_closes_turn (h := h) hl (by rw [hloops]; rfl) (.inr ⟨hverified, hdue⟩) with
      hheld | hcloses
    · exact .inr ⟨hheld.writing, (read_flags _).2.2.trans hheld.full⟩
    · have hclosed : (l.turn h r.now).session.task.phase = .closed := hcloses.closed hkept
      have hopened : (l.turn h r.now).session.task.phase = .opened := hopened
      rw [hclosed] at hopened
      cases hopened

/-- Until the next opening, whatever happens: a task that a settled link leaves open at or behind
the deadline is verified, or its send loop stands in a write that its peer leaves no room for. The
deadline closes the task only where it fires, in a turn of the send loop, and finds the task
unverified. It fires once at most, never early, with all that was accepted written, and a task that
is verified goes on: it serves what is sent to it and takes a stop as before. -/
theorem deadline_of_start (h : Handler σ) (state : σ) (settings : Task.Settings)
    (before list : List Move) (m : Move)
    (hstart : ((init state settings).moves h before).link.session.starts <
      (((init state settings).moves h before).move h m).2.link.session.starts) :
    let began := (init state settings).moves h before
    let opened := (began.move h m).2
    let r := opened.moves h list
    let s := r.link.session
    let settled := (r.settle h).link
    let time := began.now + settings.verifyTimeout
    (settled.session.openings = opened.link.session.openings →
      settled.session.task.phase = .opened → time ≤ r.now →
        settled.session.task.verified = true ∨ settled.Held) ∧
      (s.task.phase = .opened → ∀ m,
        (r.move h m).2.link.session.ledger.ending = some (.failed .verifyTimeout) →
          m = .turn ∧ r.fires = true ∧ s.task.verified = false) ∧
      (s.task.phase = .opened → s.task.verified = true → ∀ more,
        (r.moves h more).link.session.ledger.ending ≠ some (.failed .verifyTimeout)) ∧
      (s.openings = opened.link.session.openings →
        firings h opened list ≤ 1 ∧
          (r.fires = true → time ≤ r.now ∧ firings h opened list = 0 ∧ r.link.Fired h r.now) ∧
          (s.task.phase = .opened → r.link.peer.Reads → r.Serves h)) := by
  intro began opened r s settled time
  have hbegan : began.link.session.Sound := sound_moves h state settings before
  have hopened : opened.link.session.Sound := sound_move hbegan m
  have hvetted : opened.link.session.Vetted := by
    have hlist := vetted_moves h state settings (before ++ [m])
    rwa [moves_concat] at hlist
  have htimed : opened.link.session.Timed opened.link.session.openings time := by
    obtain ⟨spares, hsteps⟩ := steps_move (h := h) hbegan.placed m
    have hinstant := hsteps.time_of_starts hstart
    have htimed := hsteps.timed (hbegan.placed.stock spares) hinstant
      (hsteps.openings_of_starts hstart)
    rwa [settings_moves] at htimed
  obtain ⟨hs, hrtimed, hrvetted⟩ :
      s.Sound ∧ s.Timed opened.link.session.openings time ∧ s.Vetted :=
    session_moves (P := fun s => s.Timed opened.link.session.openings time ∧ s.Vetted)
      (fun _ _ _ hs hsteps => ⟨hs.1.steps hsteps, hs.2.steps hsteps⟩)
      (fun _ spares hs => ⟨hs.1.stock spares, hs.2.stock spares⟩) hopened ⟨htimed, hvetted⟩ list
  refine ⟨fun hk hphase htime => verified_settle hs hrtimed hrvetted hk htime hphase,
    fun hphase m => timeout_move hs hphase, fun hphase hverified more => ?_, fun hsame => ?_⟩
  · refine ending_moves hs hverified ?_ more
    rw [hs.booked.running hphase]
    exact nofun
  · have hfirings := firings_moves hopened list hsame
    have honce := Bool.toNat_le opened.link.session.task.armed
    refine ⟨by omega, fun hfires => ⟨?_, ?_, fired_turn h hs hfires⟩, fun hphase => serves hs ?_⟩
    · obtain ⟨time', htimer, hover⟩ := timer_of_fires hfires
      obtain ⟨armed, htimer'⟩ :=
        hrtimed.timer hsame (hs.placed.opened (Task.loops_of_timer htimer))
      rw [htimer] at htimer'
      cases htimer'
      exact hover
    · have hspent := armed_of_fires hfires
      rw [hspent] at hfirings
      simp only [Bool.toNat_true] at hfirings
      omega
    · obtain ⟨armed, htimer⟩ := hrtimed.timer hsame hphase
      exact Task.loops_of_timer htimer

theorem deadline_of_start_verified :
    let opened := ((init () ⟨100, 5, 0⟩).move .idle (.act .start)).2
    let list : List Move := [.act .verify, .act (.sendBytes [1, 2]), .wait 5]
    let r := opened.moves .idle list
    r.fires = true ∧ firings .idle opened list = 0 ∧ r.link.Fired .idle r.now ∧
      r.Serves .idle := by
  obtain ⟨-, -, -, hsame⟩ := deadline_of_start .idle () ⟨100, 5, 0⟩ []
    [.act .verify, .act (.sendBytes [1, 2]), .wait 5] (.act .start) (by decide +kernel)
  obtain ⟨-, hfired, hserves⟩ := hsame (by decide +kernel)
  have hfires : (((init () ⟨100, 5, 0⟩).move .idle (.act .start)).2.moves .idle
      [.act .verify, .act (.sendBytes [1, 2]), .wait 5]).fires = true := by decide +kernel
  obtain ⟨-, hnone, hfired⟩ := hfired hfires
  exact ⟨hfires, hnone, hfired, hserves (by decide +kernel) (by decide +kernel)⟩

/-- The peer stays and does not read. Its task is neither verified nor closed when the deadline is
long over, and does not take a stop either. -/
theorem deadline_starved :
    let r := (init () ⟨100, 5, 0⟩).moves .idle [.act .start, .peer (.stall 2),
      .act (.sendBytes [1, 2, 3]), .turn, .act .stop, .wait 1000]
    let settled := (r.settle .idle).link
    5 ≤ r.now ∧ settled.session.task.phase = .opened ∧ settled.session.task.verified = false ∧
      settled.session.task.stopSignal = true ∧ settled.Held := by
  decide +kernel

end Run

end Link

end FrameLink
