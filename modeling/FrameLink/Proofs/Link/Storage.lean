import FrameLink.Proofs.Link.Moves
import FrameLink.Proofs.Stream.Course

/-!
# What a link stores for its peer

The buffer that a start makes for arriving bytes has the size that the settings name. From then on
only the receive loop touches it, and that asks for room for one frame within the limit at a time.
So the settings bound the store of an open task, whatever lengths the peer declares and however much
is read ahead.
-/

namespace FrameLink

open Receiving (Point)
open Receiving.Point (Leads leads_receive)

/-- The largest store for arriving bytes that a task with these settings comes to. -/
def Task.Settings.inboundBound (settings : Task.Settings) : Nat :=
  max settings.bufferSize (max headerSize settings.frameLimit)

namespace Session

variable {σ : Type} {h : Handler σ} {now : Instant} {s s' : Session σ}

def Stored (s : Session σ) : Prop :=
  ∀ loops, s.task.loops = some loops → loops.inbound.Fits 0 s.task.settings.inboundBound

theorem Stored.effects (hs : s.Stored) (heffects : Effects h now s s') : s'.Stored := by
  induction heffects with
  | refl => exact hs
  | @tail t t' _ heffect ih =>
    cases heffect with
    | verify | stop | signal | push | report | discard | renew => exact ih
    | shut => exact nofun
    | launch =>
      have hlaunches := launches now t
      generalize (t.launch now).1 = outcome, (t.launch now).2 = t' at hlaunches
      cases hlaunches with
      | refused | unconnected | overflow => exact ih
      | started =>
        rintro loops ⟨⟩
        have hfits := Buffer.fits_withCapacity t.task.settings.bufferSize
        exact ⟨hfits.reserve, hfits.size.trans (Nat.le_max_left _ _)⟩

theorem Stored.flush (hs : s.Stored) (now : Instant) (w : Writer) :
    (s.flush h now w).1.Stored := by
  have hwrote : (s.wrote now w).Stored := by
    intro loops' hloops'
    have hran := Task.ran_runSendLoop now w s.task
    have hloops' : (s.task.runSendLoop now w).2.1.loops = some loops' := hloops'
    have hinbound := hran.inbound
    rw [hloops'] at hinbound
    obtain ⟨loops, hloops, heq⟩ := Option.map_eq_some_iff.mp hinbound.symm
    have hsettings : (s.wrote now w).task.settings = s.task.settings := hran.settings
    rw [hsettings, ← heq]
    exact hs loops hloops
  cases hloops : s.task.loops.isSome with
  | false =>
    rw [flush_of_no_loops (by simpa using hloops)]
    exact hs
  | true =>
    rw [flush_of_loops h now w hloops]
    split_ifs
    · exact hwrote.effects (effects_close _)
    · exact hwrote

/-- Wherever a call on the buffer of the receive loop stands, it keeps to the bound. -/
theorem Stored.leads (hs : s.Stored) {loops : Task.Loops} (hloops : s.task.loops = some loops)
    {onFrame : Session σ → Bytes → Session σ × Bool} {state : Session σ} {r : Reader}
    {p : Point (Session σ)}
    (hleads : Leads s.task.settings.frameLimit onFrame (.looking state loops.inbound r) p) :
    p.buffer.Fits 0 s.task.settings.inboundBound :=
  hleads.fits ((Nat.zero_add _).trans_le (Nat.le_max_right _ _)) (hs loops hloops)

theorem Stored.deliver (hs : s.Stored) (arrived : Bytes) (horizon : Horizon) :
    (s.deliver h now arrived horizon).Stored := by
  suffices hkeeps : (s.deliver h now arrived horizon).task.settings = s.task.settings ∧
      (s.deliver h now arrived horizon).Stored from hkeeps.2
  refine deliver_keeps (P := fun t => t.task.settings = s.task.settings ∧ t.Stored)
    (fun _ _ _ ht => ht) (fun _ _ ht heffects =>
      ⟨heffects.steps.settings.trans ht.1, ht.2.effects heffects⟩)
    (fun loops hloops t r ht => ⟨ht.1, fun loops' hloops' => ?_⟩) ⟨rfl, hs⟩ arrived horizon
  have hend := hs.leads hloops (leads_receive _ (handle h now s.resets) s loops.inbound r)
  obtain ⟨_, _, rfl⟩ := Option.map_eq_some_iff.mp hloops'
  have hsettings : t.task.settings = s.task.settings := ht.1
  simp only [Task.setInbound, hsettings]
  exact hend

end Session

namespace Link.Run

variable {σ : Type} {h : Handler σ}

theorem stored_move {r : Run σ} (hl : r.link.session.Stored) (m : Move) :
    (r.move h m).2.link.session.Stored := by
  cases m with
  | act a =>
    have hact := hl.effects (Session.effects_act h r.now r.link.session a)
    cases a with
    | reset =>
      have hstock : Session.Stored { r.link.session with spares := r.link.session.spares + 1 } := hl
      exact hstock.effects (Session.effects_reset h r.now r.link.session)
    | start | verify | close | terminate | stop | sendSignal | sendBytes | sendFrame => exact hact
  | peer | wait | read | supply => exact hl
  | turn => exact hl.flush r.now _
  | deliver =>
    simp only [move, session_deliver]
    split
    · exact hl.deliver _ _
    · exact hl

theorem stored_moves (h : Handler σ) (state : σ) (settings : Task.Settings) (list : List Move) :
    ((init state settings).moves h list).link.session.Stored :=
  moves_keep (P := fun r => r.link.session.Stored) (fun _ m hr => stored_move hr m)
    (by rintro loops ⟨⟩) list

/-- A call comes to what it returns, and nowhere on the way the store is larger than it was or than
the reserve and one frame within the limit ask for. So at every point of every call on the buffer of
a task, in whatever state of whatever run, the settings of the task bound the store. -/
theorem store_bounded (h : Handler σ) (state : σ) (settings : Task.Settings) (list : List Move) :
    (∀ (limit : Nat) (onFrame : σ → Bytes → σ × Bool) (s : σ) (b : Buffer) (r : Reader),
      Leads limit onFrame (.looking s b r) (.ended (receive limit onFrame s b r)) ∧
        ∀ p, Leads limit onFrame (.looking s b r) p →
          p.buffer.size ≤ max b.size (b.reserve + max headerSize limit)) ∧
      let session := ((init state settings).moves h list).link.session
      ∀ loops, session.task.loops = some loops →
        ∀ (now : Instant) (k : Nat) (r : Reader) (p : Point (Session σ)),
          Leads settings.frameLimit (Session.handle h now k) (.looking session loops.inbound r) p →
            p.buffer.size ≤ max settings.bufferSize (max headerSize settings.frameLimit) := by
  refine ⟨fun limit onFrame s b r => ⟨leads_receive limit onFrame s b r, fun p hleads => ?_⟩, ?_⟩
  · have hfits : b.Fits b.reserve (max b.size (b.reserve + max headerSize limit)) :=
      ⟨rfl, Nat.le_max_left _ _⟩
    exact (hleads.fits (Nat.le_max_right _ _) hfits).size
  · intro session loops hloops now k r p hleads
    have hstored : session.Stored := stored_moves h state settings list
    have hsettings : session.task.settings = settings := settings_moves h state settings list
    rw [← hsettings] at hleads ⊢
    exact (hstored.leads hloops hleads).size

end Link.Run

end FrameLink
