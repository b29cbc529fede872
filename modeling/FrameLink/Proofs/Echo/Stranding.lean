import FrameLink.Config.Resolve
import FrameLink.Proofs.Echo.Dismissal
import FrameLink.Proofs.Link.Stranding

/-!
# Clients that are stranded as they come

A client is registered before its task is started, and settings may ask for a deadline that is no
instant. A client that comes under such settings is stranded: it stays open and keeps its slot for
good, and nothing ever moves its session.
-/

namespace FrameLink.Echo

namespace Client

variable {c : Client}

theorem task_start (now : Instant) (name : String) (slot : Nat) (settings : Task.Settings)
    (s : Service) :
    ((ofSettings name slot settings).run (fun h l => (l.start h now).2) s).2.link.session.task =
      ((Task.ofSettings settings).start now).2 := by
  have hs := Task.startable_ofSettings settings
  have hlaunch := Session.task_launch (s := Session.ofTask s (Task.ofSettings settings)) hs now
  have hstart := Session.start_of_startable (Service.handler slot)
    (s := Session.ofTask s (Task.ofSettings settings)) hs now
  exact (congrArg (fun out => out.2.task) hstart).trans hlaunch

/-- What becomes of a client: it is stranded if and only if it was before, and then its session is
the same. -/
structure Strands (c c' : Client) : Prop where
  stranded : c'.link.session.task.Stranded ↔ c.link.session.task.Stranded
  session : c.link.session.task.Stranded → c'.link.session = c.link.session
  slot : c'.slot = c.slot

theorem Strands.refl (c : Client) : c.Strands c :=
  ⟨Iff.rfl, fun _ => rfl, rfl⟩

theorem Strands.trans {c' c'' : Client} (hfirst : c.Strands c') (hsecond : c'.Strands c'') :
    c.Strands c'' :=
  ⟨hsecond.stranded.trans hfirst.stranded,
    fun hstranded => (hsecond.session (hfirst.stranded.mpr hstranded)).trans
      (hfirst.session hstranded),
    hsecond.slot.trans hfirst.slot⟩

theorem Sound.strands_move (hc : c.Sound) (now : Instant) (m : Move) (s : Service) :
    c.Strands (c.move now m s).2 := by
  have hsession (hstranded : c.link.session.task.Stranded) :=
    session_move_of_no_loops hstranded.loops now m s
  refine ⟨⟨fun hstranded => ?_, fun hstranded => ?_⟩, hsession, rfl⟩
  · exact ((hc.goesOn_moved now m s).stranded_iff hstranded.phase).mp hstranded
  · rw [hsession hstranded]
    exact hstranded

end Client

namespace World

variable {w : World}

theorem Housed.start_accept (hw : w.Housed) (name : String) :
    let time := w.now + w.service.settings.task.verifyTimeout
    let out := w.accept name
    ∃ c, out.2.clients = w.clients ++ [c] ∧
      ((c.slot = none ∧ out.1 = true ∧ c.link.session.task.phase = .closed) ∨
        ∃ slot, c.slot = some slot ∧ out.2.service.registry.get? slot = some w.clients.length ∧
          ((time < timeBound ∧ out.1 = true ∧ c.link.session.task.Launched time) ∨
            (timeBound ≤ time ∧ out.1 = false ∧ c.link.session.task.Stranded))) := by
  intro time out
  cases hfull : w.service.registry.isFull with
  | true =>
    have hout : out = (true, { w with
        clients := w.clients ++ [.refused name w.service.settings.task] }) := by
      simp only [out, World.accept, Registry.place?_of_isFull hfull]
    rw [hout]
    exact ⟨_, rfl, .inl ⟨rfl, rfl, rfl⟩⟩
  | false =>
    obtain ⟨slot, registry, hplace, hplaces⟩ := hw.registry.place hfull fun _ => w.clients.length
    obtain ⟨hservice, hentered⟩ := Client.entered_start w.now name slot w.service.settings.task
      { w.service with registry }
    have htask := Client.task_start w.now name slot w.service.settings.task
      { w.service with registry }
    have hstart := (Task.startable_ofSettings w.service.settings.task).start w.now
    simp only [out, World.accept, hplace]
    refine ⟨_, rfl, .inr ⟨slot, hentered.slot, ?_, ?_⟩⟩
    · rw [hservice]
      simp [hplaces.get?]
    · rw [htask]
      rcases hstart with ⟨htime, hstarted, ht⟩ | ⟨htime, hoverflow, ht⟩
      · exact .inl ⟨htime, congrArg (· != Task.Start.overflow) hstarted, ht⟩
      · exact .inr ⟨htime, congrArg (· != Task.Start.overflow) hoverflow, ht⟩

theorem Housed.strands_moves (hw : w.Housed) (list : List Move) {n : Nat} {c : Client}
    (hc : w.clients[n]? = some c) : ∃ c', (w.moves list).clients[n]? = some c' ∧ c.Strands c' :=
  hw.related_moves .refl (fun _ _ _ => .trans)
    (fun _ hsound now m s => hsound.strands_move now m s) list hc

/-- A start of an unstarted task, in every state of a run, brings it its loops and its deadline if
this deadline is an instant. If it is none, the start breaks off and strands the task. Nothing else
strands a task: an open one was opened last in one of the moves, by a call from outside or in a
callback, and it is stranded if and only if the deadline was no instant then. So it is with the
clients of the service, in every one of its states: one that is let in is started or is stranded,
and whatever happens then, it is stranded if and only if it was at first, with its session as it was
and its slot its own. -/
theorem started_or_stranded {σ : Type} (h : Handler σ) (state : σ) (calls : List Link.Move)
    (now : Instant) (settings : Settings) (capacity : Nat) (list : List Move) :
    (let r := (Link.Run.init state settings.task).moves h calls
      let time := r.now + settings.task.verifyTimeout
      let out := r.move h (.act .start)
      (r.link.session.task.phase = .unstarted →
        (time < timeBound ∧ out.1 = .returned true ∧ out.2.link.session.task.Launched time) ∨
          (timeBound ≤ time ∧ out.1 = .overflow ∧ out.2.link.session.task.Stranded)) ∧
        (r.link.session.task.phase = .opened → ∃ before m after, calls = before ++ m :: after ∧
          let began := (Link.Run.init state settings.task).moves h before
          began.link.session.openings < r.link.session.openings ∧
            r.link.session.openings = (began.move h m).2.link.session.openings ∧
            (r.link.session.task.Stranded ↔
              timeBound ≤ began.now + settings.task.verifyTimeout))) ∧
      let w := (init now settings capacity).moves list
      let time := w.now + w.service.settings.task.verifyTimeout
      (∀ name, let out := w.accept name
        ∃ c, out.2.clients = w.clients ++ [c] ∧
          ((c.slot = none ∧ out.1 = true ∧ c.link.session.task.phase = .closed) ∨
            ∃ slot, c.slot = some slot ∧ out.2.service.registry.get? slot = some w.clients.length ∧
              ((time < timeBound ∧ out.1 = true ∧ c.link.session.task.Launched time) ∨
                (timeBound ≤ time ∧ out.1 = false ∧ c.link.session.task.Stranded)))) ∧
        ∀ (n : Nat) (c : Client) (later : List Move), w.clients[n]? = some c →
          ∃ c', (w.moves later).clients[n]? = some c' ∧
            (c'.link.session.task.Stranded ↔ c.link.session.task.Stranded) ∧
            (c.link.session.task.Stranded → c'.link.session = c.link.session ∧
              ∃ slot, c.slot = some slot ∧
                (w.moves later).service.registry.get? slot = some n) := by
  refine ⟨?_, ?_⟩
  · intro r time out
    have hs : r.link.session.Placed :=
      (Link.Run.sound_moves h state settings.task calls).placed
    have hsettings (calls : List Link.Move) := Link.Run.settings_moves h state settings.task calls
    refine ⟨fun hphase => ?_, fun hopened => ?_⟩
    · have hstart := Link.Run.start_cases (h := h) hs hphase
      rwa [hsettings] at hstart
    · obtain ⟨before, m, after, hcalls, hlast, hopens⟩ :=
        Link.Run.exists_opens h state settings.task calls hopened
      refine ⟨before, m, after, hcalls, hopens.openings, hlast, ?_⟩
      have hstranded := hopens.stranded
      rwa [hsettings] at hstranded
  · intro w time
    obtain ⟨hw, _⟩ := housed_moves now settings capacity list
    refine ⟨fun name => hw.start_accept name, fun n c later hc => ?_⟩
    obtain ⟨c', hc', hstrands⟩ := hw.strands_moves later hc
    refine ⟨c', hc', hstrands.stranded, fun hstranded => ⟨hstrands.session hstranded, ?_⟩⟩
    have hlater : (w.moves later).Housed := moves_keep (fun _ m hw => hw.move m) hw later
    have hopen : c'.isOpen = true := Task.isOpen_iff.mpr (hstrands.stranded.mpr hstranded).phase
    obtain ⟨slot, hslot⟩ :=
      (hlater.clients c' (List.mem_of_getElem? hc')).slot_of_isOpen hopen
    exact ⟨slot, hstrands.slot.symm.trans hslot, (hlater.holds_iff hc' slot).mpr ⟨hslot, hopen⟩⟩

/-- A configuration may have a timeout under which every client is stranded, registered and open. -/
theorem stranded_longestTimeout :
    let line := { Arguments.empty with verifyTimeout := some 18446744073709551615 }
    ∃ config, Config.resolve (Files.read []) line = .ok config ∧
      let out := (init 0 config.echoSettings config.maxConnections).accept "a"
      out.1 = false ∧ out.2.service.registry.size = 1 ∧
        ∃ c, out.2.clients = [c] ∧ c.link.session.task.Stranded := by
  intro line
  have hresolve : Config.resolve (Files.read []) line = .ok (Config.merge line .default) := by
    decide +kernel
  refine ⟨_, hresolve, ?_⟩
  intro out
  have hclients : out.2.clients.map (fun c => (c.link.session.task.phase,
      c.link.session.task.loops, c.link.session.task.stream)) = [(.opened, none, false)] := by
    decide +kernel
  obtain ⟨c, hc, htask⟩ := List.map_eq_singleton_iff.mp hclients
  obtain ⟨hphase, hrest⟩ := Prod.mk.inj htask
  obtain ⟨hloops, hstream⟩ := Prod.mk.inj hrest
  exact ⟨by decide +kernel, by decide +kernel, c, hc, hphase, hloops, hstream⟩

end World

end FrameLink.Echo
