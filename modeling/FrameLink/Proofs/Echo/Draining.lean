import FrameLink.Proofs.Echo.Dismissal
import FrameLink.Proofs.Echo.Links
import FrameLink.Proofs.Link.Draining

/-!
# The service is stopped

To stop all asks every open client to stop, and whatever happens to a client then, it stays asked
until its send loop takes the stop or something else closes it. So when the service settles, no
client is left but those whose send loop stands in a write to a peer that does not read, and one
whose send loop ended in order has been sent all that was queued to it.
-/

namespace FrameLink.Echo

namespace Client

variable {c : Client}

/-- What is known of the books of a client: what its peer has read, and how its send loop ended. -/
structure Booked (c : Client) : Prop where
  heard : c.link.Heard
  ends : c.link.session.Ends

theorem booked_refused (name : String) (settings : Task.Settings) :
    (refused name settings).Booked :=
  ⟨fun _ _ => rfl, nofun⟩

theorem Booked.move (hc : c.Booked) (hsound : c.Sound) (now : Instant) (m : Move) (s : Service) :
    (c.move now m s).2.Booked := by
  have hheard : (c.moved now m s).Heard :=
    Link.Run.heard_move (r := ⟨now + m.ahead, c.link.over s⟩) hc.heard
      (hsound.session.over s).placed m.link
  have hends : (c.moved now m s).session.Ends :=
    Session.Steps.ends (hsound.steps_moved now m s) hc.ends
  exact ⟨hheard, hends⟩

theorem Entered.booked {slot : Nat} {settings : Settings} (hc : c.Entered slot settings.task)
    {now : Instant}
    (hlink : c.link = settings.move now (.act .start) (Link.ofSettings () settings.task)) :
    c.Booked := by
  have hunheard : ((Link.ofSettings () settings.task).over settings).Heard := fun _ _ => rfl
  have hunstarted : (Link.ofSettings () settings.task).session.Sound :=
    Session.sound_ofTask () settings.task
  have hheard := Link.Run.heard_move (h := Settings.handler)
    (r := ⟨now, (Link.ofSettings () settings.task).over settings⟩) hunheard
    (hunstarted.over settings).placed (.act .start)
  refine ⟨hlink ▸ hheard, ?_⟩
  simp [Session.Ends, hc.ledger, Ledger.blank]

/-- What settling makes of a client that is closed or was asked to stop, unless it is held up. -/
structure Finished (c c' : Client) : Prop where
  closed : c'.isOpen = false
  sawEof : c.link.peer.gone = false → c'.link.caughtUp.sawEof = true
  caughtUp : c.link.peer.room = none → c'.link.caughtUp = c'.link.peer
  /-- If the client is open still and reads, it is the stop that closes it. -/
  stopped : c.isOpen = true → c.link.peer.Reads →
    c'.link.session.ledger.ending = some .stopped
  /-- Neither the receive loop nor a failing stream has cut off what was queued. -/
  received : c.link.peer.deaf = false → c.link.peer.gone = false →
    c'.link.session.ledger.ending ≠ none →
    (∀ e, c'.link.session.ledger.ending ≠ some (.failed (.io e))) →
    c'.link.caughtUp.received = c'.link.session.ledger.accepted

/-- What is known of a client that is closed or was asked to stop. -/
structure Closing (c : Client) : Prop where
  sound : c.Sound
  booked : c.Booked
  leaving : c.link.session.Leaving

theorem Closing.move (hc : c.Closing) (now : Instant) (m : Move) (s : Service) :
    (c.move now m s).2.Closing where
  sound := hc.sound.move now m s
  booked := hc.booked.move hc.sound now m s
  leaving := by
    have hleaving : (c.link.over s).session.Leaving → (c.moved now m s).session.Leaving :=
      Session.Steps.leaving (hc.sound.steps_moved now m s) hc.sound.started
        (hc.sound.resets_moved now m s).1
    exact hleaving hc.leaving

/-- The first turn takes the stop of a client that reads. -/
theorem Closing.stopped_turn (hc : c.Closing) (hopen : c.isOpen = true)
    (hreads : c.link.peer.Reads) (now : Instant) (s : Service) :
    (c.move now (.turn 0) s).2.link.session.task.phase = .closed ∧
      (c.move now (.turn 0) s).2.link.session.ledger.ending = some .stopped := by
  obtain ⟨hloops, hstop⟩ := hc.leaving.resolve_left (by rw [← Client.isOpen, hopen]; exact nofun)
  have hkept := (hc.sound.resets_moved now (.turn 0) s).1
  obtain ⟨_, hstopped, _⟩ :=
    Session.flush_willing c.handler (hc.sound.session.over s) hloops now
  obtain ⟨hcloses, hledger⟩ := hstopped hstop
  have hturn : (c.moved now (.turn 0) s).session =
      ((c.link.over s).session.flush c.handler now .willing).1 := by
    rw [← hreads.writer]
    rfl
  rw [hturn] at hkept
  rw [move_eq]
  exact ⟨congrArg (fun s : Session Service => s.task.phase) hturn |>.trans (hcloses.closed hkept),
    congrArg (fun s : Session Service => s.ledger.ending) hturn |>.trans (hledger hkept).1⟩

theorem Sound.stays_move (hc : c.Sound) (now : Instant) {m : Move} (hm : m ≠ .stop)
    (hpeer : ∀ e, m ≠ .peer e) (s : Service) :
    c.link.peer.Stays (c.move now m s).2.link.peer := by
  have hkept := (hc.resets_moved now m s).1
  cases m with
  | peer e => exact absurd rfl (hpeer e)
  | stop => exact absurd rfl hm
  | turn time => exact Link.stays_turn (l := c.link.over s) hkept
  | deliver => exact Link.stays_deliver (l := c.link.over s) hkept
  | read => exact Link.stays_read (c.link.over s)

theorem Closing.moves (hc : c.Closing) (now : Instant) (list : List Move) (s : Service) :
    (c.moves now list s).2.Closing := by
  induction list generalizing c s with
  | nil => exact hc
  | cons m list ih => exact ih (hc.move now m s) (c.move now m s).1

theorem Sound.stays_moves (hc : c.Sound) (now : Instant) {list : List Move}
    (hlist : ∀ m ∈ list, m ≠ .stop ∧ ∀ e, m ≠ .peer e) (s : Service) :
    c.link.peer.Stays (c.moves now list s).2.link.peer := by
  induction list generalizing c s with
  | nil => exact ⟨rfl, rfl, rfl⟩
  | cons m list ih =>
    obtain ⟨⟨hstop, hpeer⟩, hrest⟩ := List.forall_mem_cons.mp hlist
    exact (hc.stays_move now hstop hpeer s).trans (ih (hc.move now m s) hrest _)

theorem Sound.session_moves (hc : c.Sound) (hclosed : c.link.session.task.phase = .closed)
    (now : Instant) (list : List Move) (s : Service) :
    (c.moves now list s).2.link.session = c.link.session := by
  induction list generalizing c s with
  | nil => rfl
  | cons m list ih =>
    have hsame := hc.session_move hclosed now m s
    exact (ih (hc.move now m s) (hsame ▸ hclosed) _).trans hsame

/-- A client that is closed behind some moves, the first of them a turn, has finished when its peer
has read. -/
theorem Closing.finished (hc : c.Closing) (now : Instant) {list : List Move}
    (hlist : ∀ m ∈ list, m ≠ .stop ∧ ∀ e, m ≠ .peer e) (s : Service) {c' : Client}
    (hmoves : (c.moves now (.turn 0 :: list) s).2 = c')
    (hclosed : c'.link.session.task.phase = .closed) (s' : Service) :
    c.Finished (c'.move now .read s').2 := by
  have hc' : c'.Closing := hmoves ▸ hc.moves now (.turn 0 :: list) s
  have hread := hc'.move now .read s'
  have hstays : c.link.peer.Stays c'.link.peer := by
    rw [← hmoves]
    exact hc.sound.stays_moves now (List.forall_mem_cons.mpr ⟨by simp, hlist⟩) s
  have hstays' := hstays.trans (Link.stays_read c'.link)
  refine ⟨Task.isOpen_eq_false_iff.mpr ?_, fun hgone => ?_, fun hroom => ?_,
    fun hopen hreads => ?_, fun hdeaf hgone hending hio => ?_⟩
  · show c'.link.session.task.phase ≠ .opened
    simp [hclosed]
  · exact Link.sawEof_caughtUp hclosed (hstays'.gone.trans hgone)
  · have hsome := hstays.room
    rw [hroom, Option.isSome_none, Option.isSome_eq_false_iff, Option.isNone_iff_eq_none] at hsome
    exact Link.caughtUp_read hsome
  · -- behind the turn that took the stop, nothing moves the session
    obtain ⟨hclosed', hending⟩ := hc.stopped_turn hopen hreads now s
    have hsame := (hc.sound.move now (.turn 0) s).session_moves hclosed' now list
      (c.move now (.turn 0) s).1
    have hsame' : c'.link.session = (c.move now (.turn 0) s).2.link.session := hmoves ▸ hsame
    exact hsame' ▸ hending
  · have horderly := hread.booked.ends.orderly hending hio
    refine (Link.received_caughtUp hread.booked.heard hread.sound.started
      (hstays'.deaf.trans hdeaf) (hstays'.gone.trans hgone)).trans ?_
    exact hread.sound.session.booked.orderly horderly

/-- A client that is closed or was asked to stop is closed when it has settled, or held up in a
write. -/
theorem Closing.settled (hc : c.Closing) (now : Instant) (s : Service) :
    c.Finished (c.moves now [.turn 0, .deliver, .turn 0, .read] s).2 ∨
      c.link.peer.room ≠ none ∧
        (c.moves now [.turn 0, .deliver, .turn 0, .read] s).2.isOpen = true ∧
        (c.moves now [.turn 0, .deliver, .turn 0, .read] s).2.link.Held := by
  obtain ⟨s', c', hmoves⟩ : ∃ s' c', c.moves now [.turn 0, .deliver, .turn 0] s = (s', c') :=
    ⟨_, _, rfl⟩
  have hlast : (c.moves now [.turn 0, .deliver, .turn 0, .read] s).2 =
      (c'.move now .read s').2 := by
    have happend := moves_append now [.turn 0, .deliver, .turn 0] [.read] s c
    rw [hmoves] at happend
    exact congrArg Prod.snd happend
  have hclient : (c.moves now [.turn 0, .deliver, .turn 0] s).2 = c' := congrArg Prod.snd hmoves
  have hbefore := hc.moves now [.turn 0, .deliver] s
  have hends : c'.link.Held ∨ c'.link.session.task.phase = .closed := by
    rw [← hclient]
    exact hbefore.sound.held_or_closed_turn hbefore.leaving now 0 _
  rw [hlast]
  rcases hends with ⟨hwriting, hfull⟩ | hclosed
  · have hc' : c'.Closing := hclient ▸ hc.moves now [.turn 0, .deliver, .turn 0] s
    have hloops : c'.link.session.task.loops.isSome = true := by
      obtain ⟨loops, hloops, _⟩ := (Option.any_eq_true ..).mp hwriting
      rw [hloops]
      rfl
    have hstays : c.link.peer.Stays c'.link.peer :=
      hclient ▸ hc.sound.stays_moves now (by simp) s
    refine .inr ⟨fun hroom => ?_, hc'.sound.session.placed.isOpen hloops, hwriting,
      (Link.read_flags c'.link).2.2.trans hfull⟩
    have hsome := hstays.room
    rw [hroom, hfull] at hsome
    cases hsome
  · exact .inl (hc.finished now (by simp) s hclient hclosed s')

end Client

namespace World

variable {w : World}

theorem leaving_stopLink {l : Link Unit}
    (hloops : l.session.task.isOpen = true → l.session.task.loops.isSome = true) :
    (stopLink l).session.Leaving := by
  cases hopen : l.session.task.isOpen with
  | false =>
    rw [stopLink_of_not_isOpen hopen]
    exact .inl hopen
  | true =>
    have hsome := hloops hopen
    refine .inr ?_
    simp only [stopLink, Link.setTask, Task.stop]
    split_ifs with hstop
    · exact ⟨hsome, rfl⟩
    · exact ⟨hsome, by simpa [hopen, hsome] using hstop⟩

theorem isOpen_stopLink (l : Link Unit) :
    (stopLink l).session.task.isOpen = l.session.task.isOpen := by
  have hphase : l.session.task.stop.2.phase = l.session.task.phase := by
    rcases l.session.task.stop_cases with ⟨_, hstop⟩ | hstop
    · rw [hstop]
    · rw [hstop]
  exact congrArg (· == Phase.opened) hphase

theorem booked_accept (hr : w.service.registry.Sound) (name : String) :
    ∃ newcomer : Client, (w.accept name).2.clients = w.clients ++ [newcomer] ∧ newcomer.Booked := by
  obtain ⟨_, _, newcomer, hclients, _, _, hlink⟩ := accept_links hr name
  refine ⟨newcomer, hclients, ?_⟩
  have hmoved := moved_move hr (.accept name)
  rw [World.move] at hmoved
  generalize (w.accept name).2 = w' at hmoved hclients
  cases hmoved with
  | refused =>
    have hlast := List.append_cancel_left hclients
    cases hlast
    exact Client.booked_refused name w.service.settings.task
  | taken _ _ hentered =>
    have hlast := List.append_cancel_left hclients
    cases hlast
    have hlet : newcomer.slot ≠ none := by
      rw [hentered.slot]
      exact Option.some_ne_none _
    exact hentered.booked (hlink hlet)

theorem Housed.booked_move (hw : w.Housed) (hbooked : ∀ c ∈ w.clients, c.Booked) (m : Move) :
    ∀ c ∈ (w.move m).clients, c.Booked := by
  cases m with
  | apply | wait => exact hbooked
  | accept name =>
    obtain ⟨newcomer, hclients, hnewcomer⟩ := booked_accept hw.registry name
    intro c hc
    rw [World.move, hclients] at hc
    rcases List.mem_append.mp hc with hc | hc
    · exact hbooked c hc
    · rw [List.mem_singleton.mp hc]
      exact hnewcomer
  | client n m =>
    cases hmover : w.clients[n]? with
    | none =>
      rw [World.move, atClient_of_none hmover]
      exact hbooked
    | some mover =>
      have hmem := List.mem_of_getElem? hmover
      rw [World.move, atClient_of_some hmover]
      intro c hc
      rcases List.mem_or_eq_of_mem_set hc with hc | rfl
      · exact hbooked c hc
      · exact (hbooked mover hmem).move (hw.clients mover hmem) w.now m w.service

theorem Housed.booked_moves (hw : w.Housed) (hbooked : ∀ c ∈ w.clients, c.Booked)
    (list : List Move) : (w.moves list).Housed ∧ ∀ c ∈ (w.moves list).clients, c.Booked :=
  moves_keep (P := fun w => w.Housed ∧ ∀ c ∈ w.clients, c.Booked)
    (fun _ m ⟨hw, hbooked⟩ => ⟨hw.move m, hw.booked_move hbooked m⟩) ⟨hw, hbooked⟩ list

/-! ## Clients that are asked to leave -/

structure Closing (w : World) : Prop where
  housed : w.Housed
  clients : ∀ c ∈ w.clients, c.Closing

theorem length_move (hr : w.service.registry.Sound) {m : Move} (hstays : ∀ name, m ≠ .accept name) :
    (w.move m).clients.length = w.clients.length := by
  have hmoved := moved_move hr m
  generalize w.move m = w' at hmoved
  cases hmoved with
  | refused | taken => exact absurd rfl (hstays _)
  | applied | waited | nobody => rfl
  | stirred => exact List.length_set

theorem Closing.move (hw : w.Closing) {m : Move} (hstays : ∀ name, m ≠ .accept name) :
    (w.move m).Closing := by
  refine ⟨hw.housed.move m, ?_⟩
  have hmoved := moved_move hw.housed.registry m
  generalize w.move m = w' at hmoved
  cases hmoved with
  | refused | taken => exact absurd rfl (hstays _)
  | applied | waited | nobody => exact hw.clients
  | @stirred n mover m hmover =>
    intro c hc
    rcases List.mem_or_eq_of_mem_set hc with hc | rfl
    · exact hw.clients c hc
    · exact (hw.clients mover (List.mem_of_getElem? hmover)).move w.now m w.service

theorem Closing.moves (hw : w.Closing) {list : List Move} (hstays : ∀ name, .accept name ∉ list) :
    (w.moves list).Closing ∧ (w.moves list).clients.length = w.clients.length := by
  induction list generalizing w with
  | nil => exact ⟨hw, rfl⟩
  | cons m list ih =>
    have hfirst : ∀ name, m ≠ .accept name :=
      fun name hm => hstays name (hm ▸ List.mem_cons_self ..)
    obtain ⟨hlast, hlength⟩ := ih (hw.move hfirst) fun name hm =>
      hstays name (List.mem_cons_of_mem _ hm)
    exact ⟨hlast, hlength.trans (length_move hw.housed.registry hfirst)⟩

/-- Once all are asked to stop, every client is closed or asked to, unless its start had failed. -/
theorem Housed.closing_stopAll (hw : w.Housed) (hbooked : ∀ c ∈ w.clients, c.Booked)
    (hloops : ∀ c ∈ w.clients, c.isOpen = true → c.link.session.task.loops.isSome = true) :
    w.stopAll.Closing := by
  obtain ⟨list, hlist⟩ := exists_moves_stopAll w
  obtain ⟨hhoused, hbooked'⟩ := hw.booked_moves hbooked list
  rw [hlist] at hhoused hbooked'
  refine ⟨hhoused, fun c hc => ⟨hhoused.clients c hc, hbooked' c hc, ?_⟩⟩
  rw [hw.stopAll_links] at hc
  obtain ⟨asked, hasked, rfl⟩ := List.mem_map.mp hc
  exact leaving_stopLink (hloops asked hasked)

/-! ## Settling -/

theorem Housed.settle_links (hw : w.Housed) :
    w.settle.clients = w.clients.map fun c => { c with
      link := w.service.settings.moves w.now [.turn 0, .deliver, .turn 0, .read] c.link } :=
  (runAll_links hw.clients fun s _ hc => hc.moves_settle w.now s).2

/-- What becomes of one client when the service settles is up to its own link. -/
theorem Housed.getElem?_settle (hw : w.Housed) {n : Nat} {c : Client}
    (hc : w.clients[n]? = some c) :
    w.settle.clients[n]? =
      some (c.moves w.now [.turn 0, .deliver, .turn 0, .read] w.service).2 := by
  have hone := ((hw.clients c (List.mem_of_getElem? hc)).moves_eq w.now
    [.turn 0, .deliver, .turn 0, .read] w.service).2
  rw [hw.settle_links, List.getElem?_map, hc, Option.map_some, ← hone]

theorem Closing.settle (hw : w.Closing) {n : Nat} {c : Client} (hc : w.clients[n]? = some c) :
    ∃ c', w.settle.clients[n]? = some c' ∧ c'.slot = c.slot ∧
      (c.Finished c' ∨ c.link.peer.room ≠ none ∧ c'.isOpen = true ∧ c'.link.Held) :=
  ⟨_, hw.housed.getElem?_settle hc, rfl,
    (hw.clients c (List.mem_of_getElem? hc)).settled w.now w.service⟩

theorem not_held_of_closed {c : Client} (hc : c.Sound) (hclosed : c.isOpen = false) :
    ¬c.link.Held := by
  rintro ⟨hwriting, _⟩
  obtain ⟨loops, hloops, _⟩ := (Option.any_eq_true ..).mp hwriting
  have hopen : c.isOpen = true := hc.session.placed.isOpen (by rw [hloops]; rfl)
  rw [hclosed] at hopen
  cases hopen

theorem Closing.size_settle (hw : w.Closing) :
    w.settle.clients.length = w.clients.length ∧
      w.settle.service.registry.size = w.settle.clients.countP (·.link.Held) := by
  have hlength : w.settle.clients.length = w.clients.length := by
    rw [hw.housed.settle_links, List.length_map]
  have hsettled : w.settle.Housed := by
    obtain ⟨list, hlist⟩ := exists_moves_settle w
    exact hlist ▸ moves_keep (fun _ m hw => hw.move m) hw.housed list
  refine ⟨hlength, ?_⟩
  rw [hsettled.size]
  refine List.countP_congr fun c' hc' => ?_
  obtain ⟨n, hn, hget⟩ := List.mem_iff_getElem.mp hc'
  obtain ⟨c'', hc'', _, hends⟩ := hw.settle (List.getElem?_eq_getElem (hlength ▸ hn))
  rw [List.getElem?_eq_getElem hn, hget] at hc''
  cases hc''
  rw [decide_eq_true_iff]
  rcases hends with hfinished | ⟨_, hopen, hheld⟩
  · have hnot := not_held_of_closed (hsettled.clients c' hc') hfinished.closed
    exact iff_of_false (by simp [hfinished.closed]) hnot
  · exact iff_of_true hopen hheld

/-- Where the start of every registered client had been completed, the service that is stopped and
settles has no client registered any more but those whose send loop stands in a write, for want of
room on the way to a peer that does not read, whatever happened to its clients in between. Each of
the others is closed and, unless its peer is gone, sees the end of the stream as soon as it reads.
One that still reads has got every reply that was ever queued to it, unless the end of its stream, a
violation of the protocol or a failed write closed it first; none of these does once the service
settles. -/
theorem stopAll_drains (now : Instant) (settings : Settings) (capacity : Nat)
    (list between : List Move)
    (hstarted : let w := (init now settings capacity).moves list
      ∀ slot n c, w.service.registry.get? slot = some n → w.clients[n]? = some c →
        c.link.session.task.loops.isSome = true)
    (hbetween : ∀ name, .accept name ∉ between) :
    let w := (init now settings capacity).moves list
    let u := w.stopAll.moves between
    let v := u.settle
    v.clients.length = w.clients.length ∧
      v.service.registry.size = v.clients.countP (·.link.Held) ∧
      ∀ (n : Nat) (c : Client), w.clients[n]? = some c →
        ∃ c' c'', u.clients[n]? = some c' ∧ v.clients[n]? = some c'' ∧
          c'.slot = c.slot ∧ c''.slot = c.slot ∧
          (between = [] → c'.isOpen = c.isOpen ∧ c'.link.peer = c.link.peer) ∧
          (c'.Finished c'' ∨ c'.link.peer.room ≠ none ∧ c''.isOpen = true ∧ c''.link.Held) := by
  intro w u v
  obtain ⟨hw, hbooked⟩ : w.Housed ∧ ∀ c ∈ w.clients, c.Booked :=
    (housed_init now settings capacity).booked_moves (by simp [init, ofService]) list
  have hloops : ∀ c ∈ w.clients, c.isOpen = true → c.link.session.task.loops.isSome = true := by
    intro c hc hopen
    obtain ⟨n, hnumber⟩ := List.getElem?_of_mem hc
    obtain ⟨slot, hslot⟩ := (hw.clients c hc).slot_of_isOpen hopen
    exact hstarted slot n c ((hw.holds_iff hnumber slot).mpr ⟨hslot, hopen⟩) hnumber
  have hasking := hw.closing_stopAll hbooked hloops
  obtain ⟨hclosing, hlength⟩ := hasking.moves hbetween
  obtain ⟨hlength', hsize⟩ := hclosing.size_settle
  have hstopped : w.stopAll.clients.length = w.clients.length := by
    rw [hw.stopAll_links, List.length_map]
  refine ⟨hlength'.trans (hlength.trans hstopped), hsize, fun n c hc => ?_⟩
  have hasked : w.stopAll.clients[n]? = some { c with link := stopLink c.link } := by
    rw [hw.stopAll_links, List.getElem?_map, hc]
    rfl
  obtain ⟨c', hc', hslot⟩ := hasking.housed.related_moves
    (R := fun c c' => c'.slot = c.slot) (fun _ => rfl)
    (fun _ _ _ hfirst hsecond => hsecond.trans hfirst) (fun _ _ _ _ _ => rfl) between hasked
  obtain ⟨c'', hc'', hslot', hends⟩ := hclosing.settle hc'
  refine ⟨c', c'', hc', hc'', hslot, hslot'.trans hslot, fun hnothing => ?_, hends⟩
  subst hnothing
  obtain rfl : { c with link := stopLink c.link } = c' := Option.some.inj (hasked.symm.trans hc')
  exact ⟨isOpen_stopLink c.link, rfl⟩

/-- A client whose hello is on its way, one that was asked to stop before, and one that is gone. -/
theorem stopAll_drains_threeClients :
    let list : List Move := [.accept "a", .client 0 (.peer (.send [0, 0, 4, 1])), .accept "b",
      .client 1 .stop, .accept "c", .client 2 (.peer .close)]
    let w := (init 0 ⟨none, .default⟩ 3).moves list
    let v := w.stopAll.settle
    w.service.registry.size = 3 ∧ v.service.registry.size = v.clients.countP (·.link.Held) ∧
      v.clients.length = 3 ∧
      (∃ c, v.clients[0]? = some c ∧ c.link.peer.sawEof = true ∧
        c.link.session.ledger.ending = some .stopped ∧
        c.link.peer.received = c.link.session.ledger.accepted) ∧
      ∃ c, v.clients[2]? = some c ∧ c.isOpen = false := by
  intro list w v
  have hloops : ∀ c ∈ w.clients, c.link.session.task.loops.isSome = true := by decide +kernel
  obtain ⟨hlength, hsize, hfinished⟩ := stopAll_drains 0 ⟨none, .default⟩ 3 list []
    (fun _ _ c _ hc => hloops c (List.mem_of_getElem? hc)) (by simp)
  have hclients : w.clients.map (fun c => (c.isOpen, decide c.link.peer.Reads, c.link.peer.room)) =
      [(true, true, none), (true, true, none), (true, false, none)] := by decide +kernel
  obtain ⟨first, rest, hw, hfirst, hrest⟩ := List.map_eq_cons_iff.mp hclients
  obtain ⟨second, rest, rfl, _, hrest⟩ := List.map_eq_cons_iff.mp hrest
  obtain ⟨third, rfl, hthird⟩ := List.map_eq_singleton_iff.mp hrest
  obtain ⟨hopen, hreads, _⟩ : first.isOpen = true ∧ first.link.peer.Reads ∧
      first.link.peer.room = none := by simpa using hfirst
  have hroom : third.link.peer.room = none := (Prod.mk.inj (Prod.mk.inj hthird).2).2
  obtain ⟨c, c', _, hc', _, _, hsame, hends⟩ := hfinished 0 first (by rw [hw]; rfl)
  obtain ⟨d, d', _, hd', _, _, hsame', hends'⟩ := hfinished 2 third (by rw [hw]; rfl)
  obtain ⟨hopen', hpeer⟩ := hsame rfl
  rw [← hopen'] at hopen
  rw [← hpeer] at hreads
  rw [← (hsame' rfl).2] at hroom
  have hdone := hends.resolve_right fun hheld => hheld.1 hreads.goesOn
  have hdone' := hends'.resolve_right fun hheld => hheld.1 hroom
  have hstopped := hdone.stopped hopen hreads
  have hcaught := hdone.caughtUp hreads.goesOn
  refine ⟨by decide +kernel, hsize, hlength.trans (by rw [hw]; rfl), ⟨c', hc', ?_, hstopped, ?_⟩,
    d', hd', hdone'.closed⟩
  · rw [← hcaught]
    exact hdone.sawEof hreads.stays
  · rw [← hcaught]
    refine hdone.received hreads.hears hreads.stays ?_ ?_
    · rw [hstopped]
      exact nofun
    · rw [hstopped]
      exact nofun

/-- A client that stays and does not read is registered still when the service was stopped and has
settled, and sees no end. Its reply does not fit in the room on the way to it. -/
theorem stopAll_heldUp :
    let list : List Move := [.accept "a", .client 0 (.peer (.stall 5)),
      .client 0 (.peer (.send [0, 0, 4, 1])), .client 0 .deliver]
    let w := (init 0 ⟨none, .default⟩ 1).moves list
    let v := w.stopAll.settle
    (∀ c ∈ w.clients, c.link.session.task.loops.isSome = true) ∧ v.service.registry.size = 1 ∧
      v.clients.map (fun c => (c.isOpen, c.link.session.task.stopSignal)) = [(true, true)] ∧
      v.clients.map (fun c => (c.link.peer.gone, c.link.caughtUp.sawEof)) = [(false, false)] := by
  decide +kernel

end World

end FrameLink.Echo
