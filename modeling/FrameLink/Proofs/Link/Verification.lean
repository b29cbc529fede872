import FrameLink.Proofs.Link.Moves

/-!
# What makes a task verified

A task is verified as soon as somebody says so, and nothing takes that back: not a close, and not a
reset either, which only a verified task passes. So the peers that a task gets with its resets are
taken for verified ones as they come, and the deadline is for its first peer only.
-/

namespace FrameLink

variable {σ : Type}

def Handler.idle : Handler Unit where
  onFrame state _ _ := (state, [])
  onClose state _ := (state, [])

namespace Session

variable {h : Handler σ} {now : Instant} {s s' : Session σ}

/-- The deadline of a task that is not verified is still to fire. -/
def Armed (s : Session σ) : Prop :=
  ∀ loops, s.task.loops = some loops → s.task.verified = false → loops.armed = true

/-- What the verifications and the resets of a session tell. -/
structure Vetted (s : Session σ) : Prop where
  armed : s.Armed
  verified : s.task.verified = true ↔ s.resets ≠ 0 ∨ s.verifications ≠ 0
  ending : s.resets ≠ 0 → s.task.phase ≠ .unstarted →
    s.ledger.ending ≠ some (.failed .verifyTimeout)

theorem Vetted.stock (hs : s.Vetted) (spares : Nat) : Vetted { s with spares } :=
  ⟨hs.armed, hs.verified, hs.ending⟩

theorem Armed.launch (hs : s.Armed) : (s.launch now).2.Armed := by
  have hlaunches := launches now s
  generalize (s.launch now).1 = outcome, (s.launch now).2 = s' at hlaunches
  cases hlaunches with
  | refused | unconnected | overflow => exact hs
  | started =>
    rintro loops ⟨⟩ _
    rfl

theorem Armed.wrote (hs : s.Armed) (now : Instant) (w : Writer) : (s.wrote now w).Armed := by
  intro loops hloops hverified
  have hverified' : s.task.verified = false :=
    (Task.ran_runSendLoop now w s.task).verified.symm.trans hverified
  have htimer := Task.timer_runSendLoop now w s.task
  rw [if_neg (by simp [hverified'])] at htimer
  have hbefore : s.task.timer = some (loops.deadline, loops.armed) := by
    rw [← htimer]
    exact congrArg (Option.map _) hloops
  obtain ⟨loops', hloops', heq⟩ := Option.map_eq_some_iff.mp hbefore
  rw [← (Prod.mk.inj heq).2]
  exact hs loops' hloops' hverified'

theorem Vetted.effect (hs : s.Vetted) (heffect : Effect h now s s') : s'.Vetted := by
  cases heffect with
  | verify =>
    refine ⟨fun _ _ hno => ?_, iff_of_true rfl (.inr (Nat.succ_ne_zero _)), hs.ending⟩
    cases hno
  | stop | signal | push | report | discard => exact ⟨hs.armed, hs.verified, hs.ending⟩
  | shut hopen =>
    have hphase : s.task.phase ≠ .unstarted := by
      rw [Task.isOpen_iff.mp hopen]
      exact nofun
    exact ⟨nofun, hs.verified, fun hresets _ => hs.ending hresets hphase⟩
  | launch hunstarted =>
    have hlaunches := launches now s
    have harmed : (s.launch now).2.Armed := hs.armed.launch
    obtain ⟨_, _, _, hresets, _, hledger⟩ := phase_launch now hunstarted
    refine ⟨harmed, ?_, fun _ _ => by rw [hledger]; exact nofun⟩
    generalize (s.launch now).1 = outcome, (s.launch now).2 = s' at hlaunches
    cases hlaunches <;> exact hs.verified
  | renew _ _ hverified =>
    exact ⟨hs.armed, iff_of_true hverified (.inl (Nat.succ_ne_zero _)),
      fun _ hphase => absurd rfl hphase⟩

theorem Vetted.step (hs : s.Vetted) (hstep : Step h now s s') : s'.Vetted := by
  cases hstep with
  | effect heffect => exact hs.effect heffect
  | enter => exact ⟨hs.armed, hs.verified, hs.ending⟩
  | @stray frame => exact ⟨hs.armed, hs.verified, hs.ending⟩
  | inbound b =>
    refine ⟨fun loops hloops hverified => ?_, hs.verified, hs.ending⟩
    obtain ⟨loops', hloops', rfl⟩ := Option.map_eq_some_iff.mp hloops
    exact hs.armed loops' hloops' hverified
  | @write w _ _ _ hgoes =>
    have hran := Task.ran_runSendLoop now w s.task
    have hnone : (s.wrote now w).ledger.ending = none := hgoes
    refine ⟨hs.armed.wrote now w, ?_, fun _ _ => by rw [hnone]; exact nofun⟩
    exact hran.verified ▸ hs.verified
  | @exit w ending _ _ _ hends =>
    have hran := Task.ran_runSendLoop now w s.task
    refine ⟨nofun, hran.verified ▸ hs.verified, fun hresets _ htimeout => ?_⟩
    exact Task.runSendLoop_of_verified (hs.verified.mpr (.inl hresets)) now w htimeout

theorem Vetted.steps (hs : s.Vetted) (hsteps : Steps h now s s') : s'.Vetted := by
  induction hsteps with
  | refl => exact hs
  | tail _ hstep ih => exact ih.step hstep

end Session

namespace Link.Run

theorem vetted_moves (h : Handler σ) (state : σ) (settings : Task.Settings) (list : List Move) :
    ((init state settings).moves h list).link.session.Vetted :=
  (session_moves (fun _ _ _ hs hsteps => hs.steps hsteps) (fun _ spares hs => hs.stock spares)
    (Session.sound_ofTask state settings)
    ⟨nofun, iff_of_false nofun (by rintro (hno | hno) <;> exact hno rfl),
      fun hresets => absurd rfl hresets⟩ list).2

/-- A task is verified if and only if it was ever reset, or was verified since it was made: a reset
passes on that an earlier peer was verified. Once a task was reset its deadline closes it no more. A
task that is not verified is closed by the first turn of its send loop at or behind the deadline
that is not held up in a write. -/
theorem verified_iff_reset_or_called (h : Handler σ) (state : σ) (settings : Task.Settings)
    (list : List Move) :
    let r := (init state settings).moves h list
    let s := r.link.session
    (s.task.verified = true ↔ s.resets ≠ 0 ∨ s.verifications ≠ 0) ∧
      (s.resets ≠ 0 → s.task.phase ≠ .unstarted →
        s.ledger.ending ≠ some (.failed .verifyTimeout)) ∧
      (s.resets = 0 → s.verifications = 0 → ∀ loops, s.task.loops = some loops →
        ∀ now, loops.deadline ≤ now →
          (r.link.turn h now).Held ∨ s.Closes (r.link.turn h now).session) := by
  intro r s
  have hs := sound_moves h state settings list
  have hvetted := vetted_moves h state settings list
  refine ⟨hvetted.verified, hvetted.ending, fun hresets hcalls loops hloops now hdeadline => ?_⟩
  have hunverified : s.task.verified = false :=
    Bool.eq_false_iff.mpr fun hverified =>
      (hvetted.verified.mp hverified).elim (absurd hresets) (absurd hcalls)
  have hdue : s.task.due now = true := by
    simp [Task.due, hloops, hvetted.armed loops hloops hunverified, hdeadline]
  exact held_or_closes_turn hs (by rw [hloops]; rfl) (.inr ⟨hunverified, hdue⟩)

/-- The second peer of a task counts as verified, and outstays the deadline, though nobody has
verified it. -/
theorem reset_keeps_verified :
    let r := (init () .default).moves .idle [.act .start, .act .verify, .act .close, .act .reset,
      .act .start, .wait 30000, .turn]
    r.link.session.task.verified = true ∧ r.link.session.task.phase = .opened ∧
      r.link.session.resets = 1 ∧ r.link.session.verifications = 0 := by
  decide +kernel

end Link.Run

end FrameLink
