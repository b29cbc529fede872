import FrameLink.Proofs.Echo.Moves
import FrameLink.Proofs.Link.Incoming
import FrameLink.Proofs.Link.Stranding
import FrameLink.Proofs.Registry

/-!
# The clients of the echo service

A move lets in or turns away one more client, or moves the link of one client, or leaves all clients
alone. The links of the clients are sound whatever the service does. No client has a stream in
reserve, so each stays on its stream, and settles in one round.
-/

namespace FrameLink

variable {σ τ : Type}

theorem Session.Sound.over {l : Link σ} (hs : l.session.Sound) (state : τ) :
    (l.over state).session.Sound :=
  ⟨⟨hs.placed.opened, hs.placed.connected, hs.placed.taken, hs.placed.balance⟩,
    ⟨hs.booked.idle, hs.booked.running, hs.booked.queued, hs.booked.wakeful, hs.booked.front,
      hs.booked.orderly⟩⟩

theorem Link.Follows.over {l : Link σ} (hl : l.Follows) (state : τ) : (l.over state).Follows :=
  ⟨hl.waiting, hl.running, hl.handled⟩

namespace Echo

namespace Client

structure Sound (c : Client) : Prop where
  session : c.link.session.Sound
  follows : c.link.Follows
  started : c.link.session.task.phase ≠ .unstarted
  spares : c.link.session.spares = 0
  refused : c.slot = none → c.link.session.task.phase = .closed

/-- A client that was let in, and has done nothing. -/
structure Entered (slot : Nat) (settings : Task.Settings) (c : Client) : Prop where
  sound : c.Sound
  slot : c.slot = some slot
  phase : c.link.session.task.phase = .opened
  settings : c.link.session.task.settings = settings
  verified : c.link.session.task.verified = false
  ledger : c.link.session.ledger = .blank

variable {c : Client}

theorem sound_refused (name : String) (settings : Task.Settings) :
    (refused name settings).Sound where
  session := ⟨⟨nofun, nofun, nofun, rfl⟩,
    ⟨fun _ => rfl, nofun, nofun, nofun, List.prefix_rfl, fun _ => rfl⟩⟩
  follows := ⟨nofun, nofun, fun _ => ⟨nofun, List.nil_prefix⟩⟩
  started := nofun
  spares := rfl
  refused _ := rfl

theorem entered_start (now : Instant) (name : String) (slot : Nat) (settings : Task.Settings)
    (s : Service) :
    let out := (ofSettings name slot settings).run (fun h l => (l.start h now).2) s
    out.1 = s ∧ out.2.Entered slot settings := by
  intro out
  have hinit : (Link.ofSettings () settings).session.Sound := Session.sound_ofTask () settings
  have hfollows := Link.follows_ofSettings () settings
  obtain ⟨l, hl⟩ : ∃ l, (Link.ofSettings () settings).over s = l := ⟨_, rfl⟩
  have hsound : l.session.Sound := hl ▸ hinit.over s
  have hphase : l.session.task.phase = .unstarted := hl ▸ rfl
  have hlaunch : Session.Effects (Service.handler slot) now l.session (l.session.launch now).2 :=
    Session.effects_launch (Service.handler slot) now l.session
  obtain ⟨hopened, _, _, hresets, hspares, hledger⟩ := Session.phase_launch now hphase
  have hstart : (l.start (Service.handler slot) now).2 = ⟨(l.session.launch now).2, l.peer⟩ := by
    rw [Link.start, Session.start_of_startable _ (hsound.placed.startable hphase)]
    exact Link.after_of_resets hresets
  have hstarted : (⟨(l.session.launch now).2, l.peer⟩ : Link Service).Follows := by
    rw [← Link.after_of_resets (p := l.peer) hresets]
    exact (hl ▸ hfollows.over s : l.Follows).after hsound.placed hlaunch
  have hout : out = ((l.start (Service.handler slot) now).2.session.state,
      ⟨name, some slot, (l.start (Service.handler slot) now).2.over ()⟩) := by
    rw [← hl]
    rfl
  rw [hstart] at hout
  have hnew : (l.session.launch now).2.state = s ∧
      (l.session.launch now).2.task.verified = false := by
    have hlaunches := Session.launches now l.session
    generalize (l.session.launch now).1 = outcome, (l.session.launch now).2 = t at hlaunches
    subst hl
    cases hlaunches with
    | refused | unconnected | started | overflow => exact ⟨rfl, rfl⟩
  have hbegun : (l.session.launch now).2.task.phase ≠ .unstarted := by simp [hopened]
  rw [hout]
  refine ⟨hnew.1, ⟨(hsound.steps hlaunch.steps).over (), hstarted.over (), hbegun, ?_, by simp⟩,
    rfl, hopened, ?_, hnew.2, hledger⟩
  · exact hspares.trans (hl ▸ rfl)
  · exact hlaunch.steps.settings.trans (hl ▸ rfl)

/-- The link of a client after one move, over the service. -/
def moved (now : Instant) (m : Move) (s : Service) (c : Client) : Link Service :=
  ((⟨now + m.ahead, c.link.over s⟩ : Link.Run Service).move c.handler m.link).2.link

theorem move_eq (now : Instant) (m : Move) (s : Service) (c : Client) :
    c.move now m s =
      ((c.moved now m s).session.state, { c with link := (c.moved now m s).over () }) :=
  rfl

theorem session_moved_of_no_loops (hloops : c.link.session.task.loops = none) (now : Instant)
    (m : Move) (s : Service) : (c.moved now m s).session = (c.link.over s).session := by
  have hnone : (c.link.over s).session.task.loops = none := hloops
  cases m with
  | peer | read => rfl
  | stop =>
    have hact := Link.act_of_isQuiet c.handler now (c.link.over s) (a := .stop) rfl
    have hstop : (c.link.over s).session.task.stop = (false, (c.link.over s).session.task) := by
      simp [Task.stop, hnone]
    simp only [Session.actQuietly, hstop] at hact
    exact congrArg (fun out => out.2.session) hact
  | turn time =>
    exact congrArg Link.session (Link.turn_of_no_loops c.handler (now + time) hnone)
  | deliver =>
    refine (Link.session_deliver c.handler now (c.link.over s)).trans ?_
    rw [Session.deliver_of_no_loops hnone, ite_self]

theorem session_move_of_no_loops (hloops : c.link.session.task.loops = none) (now : Instant)
    (m : Move) (s : Service) : (c.move now m s).2.link.session = c.link.session :=
  congrArg (fun t : Session Service => { t with state := () })
    (session_moved_of_no_loops hloops now m s)

theorem Sound.steps_moved (hc : c.Sound) (now : Instant) (m : Move) (s : Service) :
    Session.Steps c.handler (now + m.ahead) (c.link.over s).session (c.moved now m s).session := by
  have hplaced := (hc.session.over s).placed
  cases m with
  | stop => exact (Session.effects_act c.handler now (c.link.over s).session .stop).steps
  | turn time => exact Link.steps_turn hplaced (now + time)
  | deliver => exact Link.steps_deliver hplaced now
  | peer | read => exact .refl

theorem Sound.resets_moved (hc : c.Sound) (now : Instant) (m : Move) (s : Service) :
    (c.moved now m s).session.resets = c.link.session.resets ∧
      (c.moved now m s).session.spares = 0 :=
  (hc.steps_moved now m s).resets_of_no_spares hc.spares

theorem Sound.goesOn_moved (hc : c.Sound) (now : Instant) (m : Move) (s : Service) :
    (c.link.over s).session.GoesOn (c.moved now m s).session :=
  (hc.steps_moved now m s).follows.goesOn_of_resets hc.started (hc.resets_moved now m s).1

theorem Sound.move (hc : c.Sound) (now : Instant) (m : Move) (s : Service) :
    (c.move now m s).2.Sound := by
  have hsound := hc.session.over s
  have hgoes := hc.goesOn_moved now m s
  have hmoved : (c.moved now m s).session.Sound := Link.Run.sound_move hsound m.link
  have hfollows : (c.moved now m s).Follows :=
    Link.Run.tracks_move (hc.follows.over s) hsound m.link
  rw [move_eq]
  exact ⟨hmoved.over (), hfollows.over (), fun hphase => hc.started (hgoes.unstarted_iff.mp hphase),
    (hc.resets_moved now m s).2, fun hslot => hgoes.closed (hc.refused hslot)⟩

/-- A client settles in one round, and a read. -/
theorem Sound.moves_settle (hc : c.Sound) (now : Instant) (s : Service) :
    c.moves now [.turn 0, .deliver, .turn 0, .read] s = c.run (fun h l => l.settle h now) s := by
  have hround : c.moves now ([.turn 0, .deliver, .turn 0] ++ [.read]) s =
      c.run (fun h l => (l.round h now).read) s := by
    rw [moves_append, moves_round]
    rfl
  exact hround.trans
    (run_congr (Link.settle_of_no_spares (hc.session.over s).placed hc.spares).symm)

theorem Sound.moves_advance (hc : c.Sound) (now : Instant) (time : Nat) (s : Service) :
    c.moves now [.turn 0, .turn time] s = c.run (fun h l => l.advance h now (now + time)) s := by
  have hplaced := (hc.session.over s).placed
  have hfirst := Link.steps_turn (h := c.handler) hplaced now
  obtain ⟨hresets, hspares⟩ := hfirst.resets_of_no_spares hc.spares
  have hsecond := Link.steps_turn (h := c.handler) (hplaced.steps hfirst) (now + time)
  have hturns : c.moves now ([.turn 0] ++ [.turn time]) s =
      c.run (fun h l => (l.turn h now).turn h (now + time)) s := by
    rw [moves_append, moves_turn, moves_turn, run_run]
    rfl
  refine hturns.trans (run_congr ?_)
  rw [Link.advance, Link.exhaust_of_resets hresets,
    Link.exhaust_of_resets (hsecond.resets_of_no_spares hspares).1]

end Client

namespace World

inductive Moved (w : World) : Move → World → Prop
  | refused {name : String} (hfull : w.service.registry.isFull = true) :
      Moved w (.accept name)
        { w with clients := w.clients ++ [.refused name w.service.settings.task] }
  | taken {name : String} {slot : Nat} {registry : Registry Nat} {c : Client}
      (hroom : w.service.registry.isFull = false)
      (hplaces : w.service.registry.Places slot w.clients.length registry)
      (hentered : c.Entered slot w.service.settings.task) :
      Moved w (.accept name)
        { w with service := { w.service with registry }, clients := w.clients ++ [c] }
  | applied (settings : Settings) : Moved w (.apply settings) (w.apply settings)
  | waited (time : Nat) : Moved w (.wait time) { w with now := w.now + time }
  | nobody {n : Nat} (m : Client.Move) (hnone : w.clients[n]? = none) : Moved w (.client n m) w
  | stirred {n : Nat} {c : Client} (m : Client.Move) (hc : w.clients[n]? = some c) :
      Moved w (.client n m) { w with
        service := (c.move w.now m w.service).1
        clients := w.clients.set n (c.move w.now m w.service).2 }

theorem moved_move {w : World} (hr : w.service.registry.Sound) (m : Move) :
    Moved w m (w.move m) := by
  cases m with
  | apply settings => exact .applied settings
  | wait time => exact .waited time
  | client n m =>
    cases hc : w.clients[n]? with
    | none =>
      rw [move, atClient_of_none hc]
      exact .nobody m hc
    | some c =>
      rw [move, atClient_of_some hc]
      exact .stirred m hc
  | accept name =>
    simp only [move, accept]
    cases hfull : w.service.registry.isFull with
    | true =>
      rw [Registry.place?_of_isFull hfull]
      exact .refused hfull
    | false =>
      obtain ⟨slot, registry, hplace, hplaces⟩ := hr.place hfull fun _ => w.clients.length
      obtain ⟨hservice, hentered⟩ := Client.entered_start w.now name slot w.service.settings.task
        { w.service with registry }
      rw [hplace]
      dsimp only
      rw [hservice]
      exact .taken hfull hplaces hentered

end World

end Echo

end FrameLink
