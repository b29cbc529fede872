import FrameLink.Proofs.Echo.Clients

/-!
# The clients that are registered

A client has a slot of the registry for as long as its task is open. Its close gives back this slot
and no other one, and a client that is turned away never had one.
-/

namespace FrameLink

namespace Echo

theorem Service.leaves_respond (s : Service) (t : Task) (c : Command) :
    (s.respond t c).1.registry = s.registry ∧ (s.respond t c).1.settings = s.settings := by
  cases c with
  | hello | quit => exact ⟨rfl, rfl⟩
  | echo payload =>
    simp only [respond]
    split_ifs <;> exact ⟨rfl, rfl⟩

theorem Service.leaves_onFrame (slot : Nat) (s : Service) (t : Task) (frame : Bytes) :
    ((handler slot).onFrame s t frame).1.registry = s.registry ∧
      ((handler slot).onFrame s t frame).1.settings = s.settings := by
  simp only [handler]
  split
  · exact s.leaves_respond t _
  · exact ⟨rfl, rfl⟩
  · exact ⟨rfl, rfl⟩

end Echo

namespace Session

/-- From one session of the service to the other the task stays in its phase, or is closed and gives
back its slot. -/
structure Vacates (slot : Nat) (s s' : Session Echo.Service) : Prop where
  settings : s'.state.settings = s.state.settings
  registry : (s'.task.phase = s.task.phase ∧ s'.state.registry = s.state.registry) ∨
    (s.task.phase = .opened ∧ s'.task.phase = .closed ∧
      s'.state.registry = s.state.registry.erase slot)

variable {slot : Nat} {s s' t : Session Echo.Service}

theorem Vacates.refl (slot : Nat) (s : Session Echo.Service) : Vacates slot s s :=
  ⟨rfl, .inl ⟨rfl, rfl⟩⟩

theorem Vacates.trans (hfirst : Vacates slot s s') (hsecond : Vacates slot s' t) :
    Vacates slot s t := by
  refine ⟨hsecond.settings.trans hfirst.settings, ?_⟩
  rcases hfirst.registry with ⟨hphase, hregistry⟩ | ⟨hopened, hclosed, hregistry⟩
  · rw [← hphase, ← hregistry]
    exact hsecond.registry
  · rcases hsecond.registry with ⟨hphase', hregistry'⟩ | ⟨hopened', _⟩
    · exact .inr ⟨hopened, hphase'.trans hclosed, hregistry'.trans hregistry⟩
    · rw [hclosed] at hopened'
      cases hopened'

theorem vacates_shut (hopen : s.task.isOpen = true) :
    Vacates slot s (s.shut (Echo.Service.handler slot)) :=
  ⟨rfl, .inr ⟨Task.isOpen_iff.mp hopen, rfl, rfl⟩⟩

theorem vacates_wrote (now : Instant) (w : Writer) (s : Session Echo.Service) :
    Vacates slot s (s.wrote now w) :=
  ⟨rfl, .inl ⟨(Task.ran_runSendLoop now w s.task).phase, rfl⟩⟩

theorem Step.vacates {now : Instant} (hstep : Step (Echo.Service.handler slot) now s s')
    (hbegun : s.task.phase ≠ .unstarted) (hresets : s'.resets = s.resets) : Vacates slot s s' := by
  cases hstep with
  | effect heffect =>
    cases heffect with
    | verify | stop | signal | push | report | discard => exact ⟨rfl, .inl ⟨rfl, rfl⟩⟩
    | shut hopen => exact vacates_shut hopen
    | launch hunstarted => exact absurd hunstarted hbegun
    | renew => exact absurd hresets (Nat.succ_ne_self _)
  | enter frame | stray frame =>
    obtain ⟨hregistry, hsettings⟩ := Echo.Service.leaves_onFrame slot s.state s.task frame
    exact ⟨hsettings, .inl ⟨rfl, hregistry⟩⟩
  | inbound => exact ⟨rfl, .inl ⟨rfl, rfl⟩⟩
  | write => exact vacates_wrote now _ s
  | exit _ _ hopen =>
    exact (vacates_wrote now _ s).trans (vacates_shut ((isOpen_wrote now _ s).trans hopen))

theorem Steps.vacates {now : Instant} (hsteps : Steps (Echo.Service.handler slot) now s s')
    (hbegun : s.task.phase ≠ .unstarted) (hresets : s'.resets = s.resets) : Vacates slot s s' :=
  hsteps.related (Vacates.refl slot) (fun _ _ _ hfirst hsecond => hfirst.trans hsecond)
    (fun _ _ hbegun hkept hstep => hstep.vacates hbegun hkept) hbegun hresets

end Session

namespace Echo

namespace Client

variable {c : Client}

def isOpen (c : Client) : Bool :=
  c.link.session.task.isOpen

theorem Sound.slot_of_isOpen (hc : c.Sound) (hopen : c.isOpen = true) :
    ∃ slot, c.slot = some slot := by
  cases hslot : c.slot with
  | some slot => exact ⟨slot, rfl⟩
  | none =>
    have hopened := Task.isOpen_iff.mp hopen
    rw [hc.refused hslot] at hopened
    cases hopened

theorem Entered.isOpen {slot : Nat} {settings : Task.Settings} (hc : c.Entered slot settings) :
    c.isOpen = true :=
  Task.isOpen_iff.mpr hc.phase

theorem Sound.vacates (hc : c.Sound) (now : Instant) (m : Move) (s : Service) :
    (c.move now m s).1.settings = s.settings ∧
      (((c.move now m s).2.isOpen = c.isOpen ∧ (c.move now m s).1.registry = s.registry) ∨
        ∃ slot, c.slot = some slot ∧ c.isOpen = true ∧ (c.move now m s).2.isOpen = false ∧
          (c.move now m s).1.registry = s.registry.erase slot) := by
  have hvacates : Session.Vacates (c.slot.getD 0) (c.link.over s).session
      (c.moved now m s).session :=
    (hc.steps_moved now m s).vacates hc.started (hc.resets_moved now m s).1
  rw [move_eq]
  refine ⟨hvacates.settings, ?_⟩
  rcases hvacates.registry with ⟨hphase, hregistry⟩ | ⟨hopened, hclosed, hregistry⟩
  · exact .inl ⟨congrArg (· == Phase.opened) hphase, hregistry⟩
  · have hopen : c.isOpen = true := Task.isOpen_iff.mpr hopened
    obtain ⟨slot, hslot⟩ := hc.slot_of_isOpen hopen
    rw [hslot] at hregistry
    exact .inr ⟨slot, hslot, hopen, congrArg (· == Phase.opened) hclosed, hregistry⟩

/-- A client to which nothing comes but the end. -/
structure TurnedAway (c : Client) : Prop where
  phase : c.link.session.task.phase = .closed
  arriving : c.link.peer.arriving = []
  received : c.link.peer.received = []

theorem turnedAway_refused (name : String) (settings : Task.Settings) :
    (refused name settings).TurnedAway :=
  ⟨rfl, rfl, rfl⟩

theorem TurnedAway.move (hc : c.TurnedAway) (hsound : c.Sound) (now : Instant) (m : Move)
    (s : Service) : (c.move now m s).2.TurnedAway := by
  have hphase := (hsound.goesOn_moved now m s).closed hc.phase
  have hclosed : (c.link.over s).session.task.phase = .closed := hc.phase
  have hloops := (hsound.session.over s).placed.no_loops (by rw [hclosed]; exact nofun)
  suffices hpeer : (c.moved now m s).peer.arriving = [] ∧ (c.moved now m s).peer.received = [] from
    ⟨hphase, hpeer.1, hpeer.2⟩
  have hgot : (c.link.over s).peer.arriving = [] ∧ (c.link.over s).peer.received = [] :=
    ⟨hc.arriving, hc.received⟩
  cases m with
  | peer e =>
    cases e with
    | send | shutdown | stall | resume => exact hgot
    | close | shutdownRead => exact ⟨rfl, hgot.2⟩
  | stop =>
    have hact := Link.act_of_isQuiet c.handler now (c.link.over s) (a := .stop) rfl
    have hpeer : (c.moved now .stop s).peer = (c.link.over s).peer :=
      congrArg (fun out => out.2.peer) hact
    rwa [hpeer]
  | turn time =>
    have hturn : c.moved now (.turn time) s = c.link.over s :=
      Link.turn_of_no_loops c.handler (now + time) hloops
    rwa [hturn]
  | deliver =>
    have hresets : ((c.link.over s).deliver c.handler now).session.resets =
        (c.link.over s).session.resets := (hsound.resets_moved now .deliver s).1
    have hpeer := Link.peer_deliver c.handler now (c.link.over s)
    rw [if_pos hresets] at hpeer
    simp only [moved, Move.link, Link.Run.move, Move.ahead, Nat.add_zero]
    rw [hpeer]
    exact hgot
  | read =>
    simp only [moved, Move.link, Link.Run.move, Link.read, Peer.read]
    split_ifs
    · exact hgot
    · simp [hgot.1, hgot.2]

end Client

namespace World

/-- Client `n` is open and was let in to the slot. -/
def Occupies (clients : List Client) (slot n : Nat) : Prop :=
  ∃ c, clients[n]? = some c ∧ c.slot = some slot ∧ c.isOpen = true

theorem occupies_append (clients : List Client) (c : Client) (slot n : Nat) :
    Occupies (clients ++ [c]) slot n ↔
      Occupies clients slot n ∨ n = clients.length ∧ c.slot = some slot ∧ c.isOpen = true := by
  unfold Occupies
  rcases Nat.lt_trichotomy n clients.length with hlt | rfl | hlt
  · rw [List.getElem?_append_left hlt]
    simp [Nat.ne_of_lt hlt]
  · simp
  · have hout : (clients ++ [c]).length ≤ n := by
      rw [List.length_append, List.length_singleton]
      omega
    rw [List.getElem?_eq_none hout, List.getElem?_eq_none (Nat.le_of_lt hlt)]
    simp [Nat.ne_of_gt hlt]

theorem occupies_set {clients : List Client} {c : Client} {n : Nat} (hc : clients[n]? = some c)
    (c' : Client) (slot k : Nat) :
    Occupies (clients.set n c') slot k ↔
      if k = n then c'.slot = some slot ∧ c'.isOpen = true else Occupies clients slot k := by
  obtain ⟨hlt, _⟩ := List.getElem?_eq_some_iff.mp hc
  unfold Occupies
  split_ifs with hk
  · subst hk
    simp [hlt]
  · rw [List.getElem?_set_ne (Ne.symm hk)]

/-- The registry holds the clients that are open, each in the slot that it was let in to. -/
structure Housed (w : World) : Prop where
  registry : w.service.registry.Sound
  clients : ∀ c ∈ w.clients, c.Sound
  occupied : ∀ slot n, w.service.registry.get? slot = some n ↔ Occupies w.clients slot n
  size : w.service.registry.size = w.clients.countP Client.isOpen
  turnedAway : ∀ c ∈ w.clients, c.slot = none → c.TurnedAway

variable {w w' : World}

theorem housed_init (now : Instant) (settings : Settings) (capacity : Nat) :
    (init now settings capacity).Housed := by
  refine ⟨Registry.sound_ofCapacity capacity, ?_, fun slot n => ?_, rfl, ?_⟩
  · simp [init, ofService]
  · simp [init, ofService, Occupies, Registry.get?, Registry.ofCapacity]
  · simp [init, ofService]

theorem Housed.refused (hw : w.Housed) (name : String) (settings : Task.Settings) :
    Housed { w with clients := w.clients ++ [.refused name settings] } where
  registry := hw.registry
  clients c hc := by
    rcases List.mem_append.mp hc with hc | hc
    · exact hw.clients c hc
    · rw [List.mem_singleton.mp hc]
      exact Client.sound_refused name settings
  occupied slot n := by
    rw [occupies_append, hw.occupied]
    have hslot : (Client.refused name settings).slot ≠ some slot := nofun
    simp [hslot]
  size := by
    have hopen : (Client.refused name settings).isOpen = false := rfl
    simp [hw.size, hopen]
  turnedAway c hc hslot := by
    rcases List.mem_append.mp hc with hc | hc
    · exact hw.turnedAway c hc hslot
    · rw [List.mem_singleton.mp hc]
      exact Client.turnedAway_refused name settings

theorem Housed.taken (hw : w.Housed) {slot : Nat} {registry : Registry Nat} {c : Client}
    (hplaces : w.service.registry.Places slot w.clients.length registry)
    (hc : c.Entered slot w.service.settings.task) :
    Housed { w with service := { w.service with registry }, clients := w.clients ++ [c] } where
  registry := hplaces.sound
  clients c' hc' := by
    rcases List.mem_append.mp hc' with hc' | hc'
    · exact hw.clients c' hc'
    · rw [List.mem_singleton.mp hc']
      exact hc.sound
  occupied slot' n := by
    rw [occupies_append, hplaces.get?, ← hw.occupied, hc.slot]
    split_ifs with hslot
    · simp [hslot, hplaces.vacant, hc.isOpen, eq_comm]
    · simp [Ne.symm hslot]
  size := by
    simp [hplaces.size, hw.size, hc.isOpen]
  turnedAway c' hc' hslot := by
    rcases List.mem_append.mp hc' with hc' | hc'
    · exact hw.turnedAway c' hc' hslot
    · rw [List.mem_singleton.mp hc', hc.slot] at hslot
      cases hslot

theorem Housed.holds_iff (hw : w.Housed) {n : Nat} {c : Client} (hc : w.clients[n]? = some c)
    (slot : Nat) :
    w.service.registry.get? slot = some n ↔ c.slot = some slot ∧ c.isOpen = true := by
  rw [hw.occupied]
  simp [Occupies, hc]

theorem Housed.get?_stirred (hw : w.Housed) {n : Nat} {c : Client} (hc : w.clients[n]? = some c)
    (m : Client.Move) (slot : Nat) :
    (c.move w.now m w.service).1.registry.get? slot =
      if c.slot = some slot ∧ c.isOpen = true ∧ (c.move w.now m w.service).2.isOpen = false
      then none else w.service.registry.get? slot := by
  have hsound := hw.clients c (List.mem_of_getElem? hc)
  rcases (hsound.vacates w.now m w.service).2 with
    ⟨hsame, hregistry⟩ | ⟨own, hown, hopen, hclosed, hregistry⟩
  · rw [hregistry, hsame]
    simp
  · rw [hregistry, Registry.get?_erase, hown]
    simp [hopen, hclosed, eq_comm]

theorem Housed.occupied_stirred (hw : w.Housed) {n : Nat} {c : Client}
    (hc : w.clients[n]? = some c) (m : Client.Move) (slot k : Nat) :
    (c.move w.now m w.service).1.registry.get? slot = some k ↔
      Occupies (w.clients.set n (c.move w.now m w.service).2) slot k := by
  have hsound := hw.clients c (List.mem_of_getElem? hc)
  have hholds := hw.holds_iff hc slot
  have hslot : (c.move w.now m w.service).2.slot = c.slot := rfl
  have hopen : (c.move w.now m w.service).2.isOpen = true → c.isOpen = true := by
    rcases (hsound.vacates w.now m w.service).2 with ⟨hsame, _⟩ | ⟨_, _, hopen, _, _⟩
    · rw [hsame]
      exact id
    · exact fun _ => hopen
  rw [occupies_set hc, hw.get?_stirred hc, hslot, ← hw.occupied]
  by_cases hk : k = n
  · subst hk
    rw [if_pos rfl]
    split_ifs with hleaves
    · simp [hleaves.2.2]
    · rw [hholds]
      constructor
      · intro hheld
        have hstays : (c.move w.now m w.service).2.isOpen ≠ false :=
          fun hclosed => hleaves ⟨hheld.1, hheld.2, hclosed⟩
        exact ⟨hheld.1, by simpa using hstays⟩
      · intro hheld
        exact ⟨hheld.1, hopen hheld.2⟩
  · rw [if_neg hk]
    split_ifs with hleaves
    · have hheld := hholds.mpr ⟨hleaves.1, hleaves.2.1⟩
      simp [hheld, Ne.symm hk]
    · rfl

theorem Housed.size_stirred (hw : w.Housed) {n : Nat} {c : Client} (hc : w.clients[n]? = some c)
    (m : Client.Move) :
    (c.move w.now m w.service).1.registry.size =
      (w.clients.set n (c.move w.now m w.service).2).countP Client.isOpen := by
  obtain ⟨hlt, hget⟩ := List.getElem?_eq_some_iff.mp hc
  have hsound := hw.clients c (List.mem_of_getElem? hc)
  rw [List.countP_set hlt, hget, ← hw.size]
  rcases (hsound.vacates w.now m w.service).2 with
    ⟨hsame, hregistry⟩ | ⟨own, hown, hopen, hclosed, hregistry⟩
  · rw [hregistry, hsame]
    split_ifs with hopen
    · have hpos : 0 < w.clients.countP Client.isOpen :=
        List.countP_pos_iff.mpr ⟨c, List.mem_of_getElem? hc, hopen⟩
      rw [← hw.size] at hpos
      omega
    · rfl
  · have hheld := (hw.holds_iff hc own).mpr ⟨hown, hopen⟩
    have hsize := hw.registry.size_erase hheld
    rw [hregistry, hopen, hclosed]
    simp only [if_true, Bool.false_eq_true, if_false]
    omega

theorem Housed.stirred (hw : w.Housed) {n : Nat} {c : Client} (hc : w.clients[n]? = some c)
    (m : Client.Move) :
    Housed { w with
      service := (c.move w.now m w.service).1
      clients := w.clients.set n (c.move w.now m w.service).2 } := by
  have hmem := List.mem_of_getElem? hc
  have hsound := hw.clients c hmem
  refine ⟨?_, fun c' hc' => ?_, hw.occupied_stirred hc m, hw.size_stirred hc m,
    fun c' hc' hslot => ?_⟩
  · rcases (hsound.vacates w.now m w.service).2 with ⟨_, hregistry⟩ | ⟨own, _, _, _, hregistry⟩
    · exact hregistry ▸ hw.registry
    · exact hregistry ▸ hw.registry.erase own
  · rcases List.mem_or_eq_of_mem_set hc' with hc' | rfl
    · exact hw.clients c' hc'
    · exact hsound.move w.now m w.service
  · rcases List.mem_or_eq_of_mem_set hc' with hc' | rfl
    · exact hw.turnedAway c' hc' hslot
    · exact (hw.turnedAway c hmem hslot).move hsound w.now m w.service

theorem Housed.move (hw : w.Housed) (m : Move) : (w.move m).Housed := by
  have hmoved := moved_move hw.registry m
  generalize w.move m = w' at hmoved
  cases hmoved with
  | refused => exact hw.refused _ _
  | taken _ hplaces hentered => exact hw.taken hplaces hentered
  | applied | waited =>
    exact ⟨hw.registry, hw.clients, hw.occupied, hw.size, hw.turnedAway⟩
  | nobody => exact hw
  | stirred m hc => exact hw.stirred hc m

theorem Housed.capacity_move (hw : w.Housed) (m : Move) :
    (w.move m).service.registry.capacity = w.service.registry.capacity := by
  have hmoved := moved_move hw.registry m
  generalize w.move m = w' at hmoved
  cases hmoved with
  | refused | applied | waited | nobody => rfl
  | taken _ hplaces => exact hplaces.capacity
  | @stirred n c m hc =>
    have hsound := hw.clients c (List.mem_of_getElem? hc)
    rcases (hsound.vacates w.now m w.service).2 with ⟨_, hregistry⟩ | ⟨own, _, _, _, hregistry⟩
    · simp only [hregistry]
    · simp only [hregistry, Registry.capacity_erase]

theorem housed_moves (now : Instant) (settings : Settings) (capacity : Nat) (list : List Move) :
    ((init now settings capacity).moves list).Housed ∧
      ((init now settings capacity).moves list).service.registry.capacity = capacity := by
  refine moves_keep (P := fun w => w.Housed ∧ w.service.registry.capacity = capacity) ?_
    ⟨housed_init now settings capacity, rfl⟩ list
  intro w m ⟨hw, hcapacity⟩
  exact ⟨hw.move m, (hw.capacity_move m).trans hcapacity⟩

/-- What every move of a client keeps up between the client that it was and the one that it becomes,
every move of the service keeps up. -/
theorem Housed.related_move {R : Client → Client → Prop} (hrefl : ∀ c, R c c)
    (hmove : ∀ c : Client, c.Sound → ∀ now m s, R c (c.move now m s).2) (hw : w.Housed) (m : Move)
    {n : Nat} {c : Client} (hc : w.clients[n]? = some c) :
    ∃ c', (w.move m).clients[n]? = some c' ∧ R c c' := by
  obtain ⟨hlt, _⟩ := List.getElem?_eq_some_iff.mp hc
  have hmoved := moved_move hw.registry m
  generalize w.move m = w' at hmoved
  cases hmoved with
  | refused | taken => exact ⟨c, (List.getElem?_append_left hlt).trans hc, hrefl c⟩
  | applied | waited | nobody => exact ⟨c, hc, hrefl c⟩
  | @stirred k mover m hmover =>
    by_cases hk : k = n
    · subst hk
      obtain rfl : mover = c := Option.some.inj (hmover.symm.trans hc)
      have hsound := hw.clients mover (List.mem_of_getElem? hc)
      exact ⟨_, List.getElem?_set_self hlt, hmove mover hsound w.now m w.service⟩
    · exact ⟨c, (List.getElem?_set_ne hk).trans hc, hrefl c⟩

theorem Housed.related_moves {R : Client → Client → Prop} (hrefl : ∀ c, R c c)
    (htrans : ∀ c c' c'', R c c' → R c' c'' → R c c'')
    (hmove : ∀ c : Client, c.Sound → ∀ now m s, R c (c.move now m s).2) (hw : w.Housed)
    (list : List Move) {n : Nat} {c : Client} (hc : w.clients[n]? = some c) :
    ∃ c', (w.moves list).clients[n]? = some c' ∧ R c c' := by
  induction list generalizing w c with
  | nil => exact ⟨c, hc, hrefl c⟩
  | cons m list ih =>
    obtain ⟨next, hnext, hfirst⟩ := hw.related_move hrefl hmove m hc
    obtain ⟨last, hlast, hrest⟩ := ih (hw.move m) hnext
    exact ⟨last, hlast, htrans c next last hfirst hrest⟩

theorem Housed.isFull_iff (hw : w.Housed) :
    w.service.registry.isFull = true ↔
      w.clients.countP Client.isOpen = w.service.registry.capacity := by
  have hle := hw.registry.size_le_capacity
  rw [Registry.isFull, decide_eq_true_iff, ← hw.size]
  omega

/-! ## What a connect and a move of a client do -/

/-- A connection that comes is turned away, without a trace in the service, if and only if as many
clients are open as the registry has room for. Otherwise it gets a vacant slot. -/
theorem Housed.accept (hw : w.Housed) (name : String) :
    ∃ c, (w.accept name).2.clients = w.clients ++ [c] ∧
      (c.slot = none ↔ w.clients.countP Client.isOpen = w.service.registry.capacity) ∧
      (c.slot = none → (w.accept name).2.service = w.service) ∧
      ∀ slot, c.slot = some slot → w.service.registry.get? slot = none ∧
        ∀ other, (w.accept name).2.service.registry.get? other =
          if other = slot then some w.clients.length else w.service.registry.get? other := by
  have hmoved := moved_move hw.registry (.accept name)
  have hfull := hw.isFull_iff
  simp only [World.move] at hmoved
  generalize (w.accept name).2 = w' at hmoved
  cases hmoved with
  | refused hisFull =>
    exact ⟨_, rfl, ⟨fun _ => hfull.mp hisFull, fun _ => rfl⟩, fun _ => rfl,
      by simp [Client.refused]⟩
  | @taken _ slot registry c hroom hplaces hentered =>
    have hnot : w.clients.countP Client.isOpen ≠ w.service.registry.capacity := by
      rw [Ne, ← hfull, hroom]
      exact Bool.false_ne_true
    have hslot := hentered.slot
    refine ⟨c, rfl, by simp [hslot, hnot], fun hnone => ?_, fun slot' hslot' => ?_⟩
    · rw [hslot] at hnone
      cases hnone
    · rw [hslot] at hslot'
      cases hslot'
      exact ⟨hplaces.vacant, hplaces.get?⟩

/-- A move of one client is none of the others, and vacates at most the slot of that client, which
it closes then. -/
theorem Housed.client (hw : w.Housed) {n : Nat} {c : Client} (hc : w.clients[n]? = some c)
    (m : Client.Move) :
    ∃ c', (w.move (.client n m)).clients = w.clients.set n c' ∧ c'.slot = c.slot ∧
      ∀ slot, (w.move (.client n m)).service.registry.get? slot =
        if c.slot = some slot ∧ c.isOpen = true ∧ c'.isOpen = false then none
        else w.service.registry.get? slot := by
  refine ⟨(c.move w.now m w.service).2, ?_, rfl, fun slot => ?_⟩
  · rw [World.move, atClient_of_some hc]
  · rw [World.move, atClient_of_some hc]
    exact hw.get?_stirred hc m slot

/-- Between any two moves the registered clients are the open ones, each in the slot that its
handler was made for, and there are never more of them than the service was made for. A connection
is turned away if and only if there are as many, which changes nothing else and brings that client
nothing but the end, as soon as it reads. The close of a client vacates its own slot and no other.
-/
theorem registered_iff_isOpen (now : Instant) (settings : Settings) (capacity : Nat)
    (list : List Move) :
    let w := (init now settings capacity).moves list
    let held := w.service.registry.get?
    (∀ n c, w.clients[n]? = some c → ((∃ slot, held slot = some n) ↔ c.isOpen = true)) ∧
      (∀ slot n, held slot = some n →
        ∃ c, w.clients[n]? = some c ∧ c.slot = some slot ∧ c.handler = Service.handler slot) ∧
      (w.service.registry.size = w.clients.countP Client.isOpen ∧
        w.clients.countP Client.isOpen ≤ capacity) ∧
      (∀ c ∈ w.clients, c.slot = none →
        c.TurnedAway ∧ (c.link.peer.gone = false → c.link.caughtUp.sawEof = true)) ∧
      (∀ name, ∃ c, (w.accept name).2.clients = w.clients ++ [c] ∧
        (c.slot = none ↔ w.clients.countP Client.isOpen = capacity) ∧
        (c.slot = none → (w.accept name).2.service = w.service) ∧
        ∀ slot, c.slot = some slot → held slot = none ∧
          ∀ other, (w.accept name).2.service.registry.get? other =
            if other = slot then some w.clients.length else held other) ∧
      ∀ n c m, w.clients[n]? = some c →
        ∃ c', (w.move (.client n m)).clients = w.clients.set n c' ∧ c'.slot = c.slot ∧
          ∀ slot, (w.move (.client n m)).service.registry.get? slot =
            if c.slot = some slot ∧ c.isOpen = true ∧ c'.isOpen = false then none
            else held slot := by
  intro w held
  obtain ⟨hw, hcapacity⟩ := housed_moves now settings capacity list
  have hsize := hw.registry.size_le_capacity
  rw [hw.size, hcapacity] at hsize
  refine ⟨fun n c hc => ?_, fun slot n hslot => ?_, ⟨hw.size, hsize⟩, fun c hc hslot => ?_,
    fun name => ?_, fun n c m hc => hw.client hc m⟩
  · constructor
    · rintro ⟨slot, hslot⟩
      exact ((hw.holds_iff hc slot).mp hslot).2
    · intro hopen
      obtain ⟨slot, hslot⟩ := (hw.clients c (List.mem_of_getElem? hc)).slot_of_isOpen hopen
      exact ⟨slot, (hw.holds_iff hc slot).mpr ⟨hslot, hopen⟩⟩
  · obtain ⟨c, hc, hown, _⟩ := (hw.occupied slot n).mp hslot
    exact ⟨c, hc, hown, by rw [Client.handler, hown, Option.getD_some]⟩
  · have hturned := hw.turnedAway c hc hslot
    exact ⟨hturned, Link.sawEof_caughtUp hturned.phase⟩
  · have haccept := hw.accept name
    rwa [hcapacity] at haccept

end World

end Echo

end FrameLink
