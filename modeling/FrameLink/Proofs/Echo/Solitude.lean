import FrameLink.Proofs.Echo.Links

/-!
# Clients do not influence each other

Two runs of the service are compared. In one of them everything that clients of other names do is
left out, and the service settles just as often. As long as the clients of the name are let in,
which only the number of open connections decides, their links are the same in both runs. The slots,
the counter and the order of the turns are not.
-/

namespace FrameLink.Echo.World

/-- What is left of an event if there are no clients of other names. -/
def Event.alone (name : String) : Event → Event
  | .connect other => if other = name then .connect other else .rest
  | .peer other e => if other = name then .peer other e else .rest
  | e => e

def run (w : World) (events : List (Bool × Event)) : World :=
  events.foldl (fun w e => w.happen e.1 e.2) w

/-- The clients of this name find the same in both worlds, and are alone in the second one. -/
structure Alike (name : String) (w w' : World) : Prop where
  now : w'.now = w.now
  settings : w'.service.settings = w.service.settings
  links : linksOf name w'.clients = linksOf name w.clients
  alone : ∀ c ∈ w'.clients, c.name = name ∧ c.slot ≠ none

variable {name : String} {w w' : World}

theorem Alike.map (h : Alike name w w') (f : Link Unit → Link Unit) {v v' : World}
    (hnow : v'.now = v.now) (hsettings : v'.service.settings = v.service.settings)
    (hv : v.clients = w.clients.map fun c => { c with link := f c.link })
    (hv' : v'.clients = w'.clients.map fun c => { c with link := f c.link }) :
    Alike name v v' where
  now := hnow
  settings := hsettings
  links := by rw [hv, hv', linksOf_map, linksOf_map, h.links]
  alone c hc := by
    rw [hv'] at hc
    obtain ⟨c', hc', rfl⟩ := List.mem_map.mp hc
    exact h.alone c' hc'

theorem Alike.runAll (h : Alike name w w') (hw : w.Housed) (hw' : w'.Housed)
    {f f' : Handler Service → Link Service → Link Service} {turns : List Client.Move}
    (hturns : ∀ s (c : Client), c.Sound → c.moves w.now turns s = c.run f s)
    (hturns' : ∀ s (c : Client), c.Sound → c.moves w'.now turns s = c.run f' s) :
    Alike name (w.runAll f) (w'.runAll f') := by
  obtain ⟨hsettings, hclients⟩ := runAll_links hw.clients hturns
  obtain ⟨hsettings', hclients'⟩ := runAll_links hw'.clients hturns'
  rw [h.settings, h.now] at hclients'
  exact h.map _ h.now (hsettings'.trans (h.settings.trans hsettings.symm)) hclients hclients'

theorem Alike.settle (h : Alike name w w') (hw : w.Housed) (hw' : w'.Housed) :
    Alike name w.settle w'.settle :=
  h.runAll hw hw' (fun s _ hc => hc.moves_settle w.now s) fun s _ hc => hc.moves_settle w'.now s

theorem Alike.advance (h : Alike name w w') (hw : w.Housed) (hw' : w'.Housed) (time : Nat) :
    Alike name (w.advance time) (w'.advance time) := by
  have hall := h.runAll hw hw' (fun s _ hc => hc.moves_advance w.now time s)
    fun s _ hc => hc.moves_advance w'.now time s
  exact ⟨congrArg (· + time) h.now, hall.settings, hall.links, hall.alone⟩

theorem Alike.stopAll (h : Alike name w w') (hw : w.Housed) (hw' : w'.Housed) :
    Alike name w.stopAll w'.stopAll :=
  h.map _ h.now h.settings hw.stopAll_links hw'.stopAll_links

theorem Alike.apply (h : Alike name w w') (settings : Settings) :
    Alike name (w.apply settings) (w'.apply settings) :=
  ⟨h.now, rfl, h.links, h.alone⟩

/-! ## What clients of this name do -/

theorem now_peerStep (w : World) (other : String) (e : Peer.Event) :
    (w.peerStep other e).now = w.now := by
  unfold peerStep
  split <;> rfl

theorem service_peerStep (w : World) (other : String) (e : Peer.Event) :
    (w.peerStep other e).service = w.service := by
  unfold peerStep
  split <;> rfl

theorem Alike.peerStep (h : Alike name w w') (e : Peer.Event) :
    Alike name (w.peerStep name e) (w'.peerStep name e) where
  now := by rw [now_peerStep, now_peerStep, h.now]
  settings := by rw [service_peerStep, service_peerStep, h.settings]
  links := by rw [linksOf_peerStep, linksOf_peerStep, h.links]
  alone c hc := by
    have hroll : (w'.peerStep name e).roll <+: w'.roll := by rw [roll_peerStep]
    obtain ⟨c', hc', hname, hslot⟩ := exists_of_roll hroll hc
    rw [← hname, ← hslot]
    exact h.alone c' hc'

theorem Alike.countP_le (h : Alike name w w') :
    w'.clients.countP Client.isOpen ≤ w.clients.countP Client.isOpen := by
  have hcount (clients : List Client) :
      (linksOf name clients).countP (·.session.task.isOpen) =
        (clients.filter (·.name == name)).countP Client.isOpen := by
    rw [linksOf, List.countP_map]
    rfl
  have hall : w'.clients.filter (·.name == name) = w'.clients :=
    List.filter_eq_self.mpr fun c hc => beq_iff_eq.mpr (h.alone c hc).1
  calc w'.clients.countP Client.isOpen
      = (linksOf name w'.clients).countP (·.session.task.isOpen) := by rw [hcount, hall]
    _ = (linksOf name w.clients).countP (·.session.task.isOpen) := by rw [h.links]
    _ ≤ w.clients.countP Client.isOpen := by
      rw [hcount]
      exact List.Sublist.countP_le List.filter_sublist

theorem Alike.accept (h : Alike name w w') (hw : w.Housed) (hw' : w'.Housed)
    (hcapacity : w'.service.registry.capacity = w.service.registry.capacity)
    (hadmits : (w.accept name).2.Admits name) :
    Alike name (w.accept name).2 (w'.accept name).2 := by
  obtain ⟨hnow, hsettings, c, hclients, hname, hslot, hlink⟩ := accept_links hw.registry name
  obtain ⟨hnow', hsettings', c', hclients', hname', hslot', hlink'⟩ :=
    accept_links hw'.registry name
  have hlet : c.slot ≠ none := hadmits c (by simp [hclients]) hname
  -- there is room where fewer connections are open
  have hlet' : c'.slot ≠ none := by
    rw [Ne, hslot', hw'.isFull_iff, hcapacity]
    rw [Ne, hslot, hw.isFull_iff] at hlet
    have hle := h.countP_le
    have hbound := hw.registry.size_le_capacity
    rw [hw.size] at hbound
    omega
  refine ⟨?_, ?_, ?_, ?_⟩
  · rw [hnow, hnow', h.now]
  · rw [hsettings, hsettings', h.settings]
  · rw [hclients, hclients', linksOf_append, linksOf_append, h.links, linksOf_cons, linksOf_cons,
      if_pos hname, if_pos hname', hlink hlet, hlink' hlet', h.settings, h.now]
  · rw [hclients']
    intro d hd
    rcases List.mem_append.mp hd with hd | hd
    · exact h.alone d hd
    · rw [List.mem_singleton.mp hd]
      exact ⟨hname', hlet'⟩

/-! ## What clients of other names do -/

theorem Alike.other_peerStep (h : Alike name w w') {other : String} (hother : other ≠ name)
    (e : Peer.Event) : Alike name (w.peerStep other e) w' where
  now := by rw [now_peerStep, h.now]
  settings := by rw [service_peerStep, h.settings]
  links := by rw [linksOf_peerStep, if_neg hother, h.links]
  alone := h.alone

theorem Alike.other_accept (h : Alike name w w') (hw : w.Housed) {other : String}
    (hother : other ≠ name) : Alike name (w.accept other).2 w' := by
  obtain ⟨hnow, hsettings, c, hclients, hname, _⟩ := accept_links hw.registry other
  refine ⟨h.now.trans hnow.symm, h.settings.trans hsettings.symm, ?_, h.alone⟩
  rw [hclients, linksOf_append, linksOf_cons, if_neg (hname ▸ hother), h.links]
  exact (List.append_nil _).symm

/-! ## Runs -/

theorem Housed.of_moves (hw : w.Housed) {v : World} (hmoves : ∃ list, w.moves list = v) :
    v.Housed ∧ v.service.registry.capacity = w.service.registry.capacity ∧ w.roll <+: v.roll := by
  obtain ⟨list, rfl⟩ := hmoves
  have hkeep := moves_keep
    (P := fun v => v.Housed ∧ v.service.registry.capacity = w.service.registry.capacity)
    (fun v m hv => ⟨hv.1.move m, (hv.1.capacity_move m).trans hv.2⟩) ⟨hw, rfl⟩ list
  exact ⟨hkeep.1, hkeep.2, hw.roll_moves list⟩

theorem Housed.happen (hw : w.Housed) (settles : Bool) (e : Event) :
    (w.happen settles e).Housed ∧
      (w.happen settles e).service.registry.capacity = w.service.registry.capacity ∧
      w.roll <+: (w.happen settles e).roll :=
  hw.of_moves (exists_moves_happen w settles e)

theorem Housed.run (hw : w.Housed) (events : List (Bool × Event)) :
    (w.run events).Housed ∧
      (w.run events).service.registry.capacity = w.service.registry.capacity ∧
      w.roll <+: (w.run events).roll :=
  hw.of_moves (exists_moves_events w events)

theorem Alike.event (h : Alike name w w') (hw : w.Housed) (hw' : w'.Housed)
    (hcapacity : w'.service.registry.capacity = w.service.registry.capacity) (e : Event)
    (hadmits : (w.happen false e).Admits name) :
    Alike name (w.happen false e) (w'.happen false (e.alone name)) := by
  cases e with
  | connect other =>
    obtain ⟨hclosed, hcap, _⟩ := hw.of_moves (exists_moves_peerStep w other .close)
    rw [Event.alone]
    split_ifs with hother
    · subst hother
      obtain ⟨hclosed', hcap', _⟩ := hw'.of_moves (exists_moves_peerStep w' other .close)
      refine (h.peerStep .close).accept hclosed hclosed' ?_ hadmits
      rw [hcap, hcap', hcapacity]
    · exact (h.other_peerStep hother .close).other_accept hclosed hother
  | peer other e =>
    rw [Event.alone]
    split_ifs with hother
    · subst hother
      exact h.peerStep e
    · exact h.other_peerStep hother e
  | apply settings => exact h.apply settings
  | stopAll => exact h.stopAll hw hw'
  | advance time => exact h.advance hw hw' time
  | rest => exact h

theorem Alike.happen (h : Alike name w w') (hw : w.Housed) (hw' : w'.Housed)
    (hcapacity : w'.service.registry.capacity = w.service.registry.capacity) (settles : Bool)
    (e : Event) (hadmits : (w.happen settles e).Admits name) :
    Alike name (w.happen settles e) (w'.happen settles (e.alone name)) := by
  cases settles with
  | false => exact h.event hw hw' hcapacity e hadmits
  | true =>
    have hbefore := (hw.happen false e).1
    have hbefore' := (hw'.happen false (e.alone name)).1
    have hroll := (hbefore.of_moves (exists_moves_settle _)).2.2
    exact (h.event hw hw' hcapacity e (hadmits.of_prefix hroll)).settle hbefore hbefore'

theorem run_append (w : World) (first second : List (Bool × Event)) :
    w.run (first ++ second) = (w.run first).run second :=
  List.foldl_append

theorem run_concat (w : World) (events : List (Bool × Event)) (e : Bool × Event) :
    w.run (events ++ [e]) = (w.run events).happen e.1 e.2 :=
  run_append w events [e]

theorem Alike.run (h : Alike name w w') (hw : w.Housed) (hw' : w'.Housed)
    (hcapacity : w'.service.registry.capacity = w.service.registry.capacity)
    (events : List (Bool × Event)) (hadmits : (w.run events).Admits name) :
    Alike name (w.run events) (w'.run (events.map fun e => (e.1, e.2.alone name))) := by
  induction events using List.reverseRecOn with
  | nil => exact h
  | append_singleton events e ih =>
    obtain ⟨hbefore, hcap, _⟩ := hw.run events
    obtain ⟨hbefore', hcap', _⟩ := hw'.run (events.map fun e => (e.1, e.2.alone name))
    rw [run_concat] at hadmits
    have hroll := (hbefore.happen e.1 e.2).2.2
    rw [List.map_append, List.map_singleton, run_concat, run_concat]
    refine (ih (hadmits.of_prefix hroll)).happen hbefore hbefore' ?_ e.1 e.2 hadmits
    exact hcap'.trans (hcapacity.trans hcap.symm)

/-- What clients of other names do shows a client in one way only: they may fill the service up. If
all connections of a name are let in, then after each event its links, with all that their peers
have received and whether they saw the end, are what they are in the run in which nobody else ever
comes, and there they are let in as well. -/
theorem links_alone (now : Instant) (settings : Settings) (capacity : Nat) (name : String)
    (events : List (Bool × Event))
    (hadmits : ((init now settings capacity).run events).Admits name) (k : Nat) :
    let together := (init now settings capacity).run (events.take k)
    let alone := (init now settings capacity).run
      ((events.map fun e => (e.1, e.2.alone name)).take k)
    linksOf name alone.clients = linksOf name together.clients ∧
      ∀ c ∈ alone.clients, c.name = name ∧ c.slot ≠ none := by
  have hinit := housed_init now settings capacity
  have halike : Alike name (init now settings capacity) (init now settings capacity) :=
    ⟨rfl, rfl, rfl, fun c hc => absurd hc List.not_mem_nil⟩
  have hbefore := (hinit.run (events.take k)).1
  rw [← List.take_append_drop k events, run_append] at hadmits
  have hroll := (hbefore.run (events.drop k)).2.2
  have hrun := halike.run hinit hinit rfl (events.take k) (hadmits.of_prefix hroll)
  rw [← List.map_take]
  exact ⟨hrun.links, hrun.alone⟩

def twoClients : List (Bool × Event) :=
  let hello : Frame := ⟨helloFlag, []⟩
  [(false, .connect "first"), (false, .connect "second"),
    (false, .peer "first" (.send hello.toBytes)),
    (false, .peer "second" (.send hello.toBytes)), (false, .connect "second"),
    (false, .peer "second" .shutdown), (true, .rest)]

theorem links_alone_twoClients :
    let settings : Settings := ⟨none, .default⟩
    let both := (init 0 settings 3).run twoClients
    let alone := (init 0 settings 3).run
      [(false, .connect "first"), (false, .rest),
        (false, .peer "first" (.send (⟨helloFlag, []⟩ : Frame).toBytes)), (false, .rest),
        (false, .rest), (false, .rest), (true, .rest)]
    both.Admits "first" ∧ linksOf "first" alone.clients = linksOf "first" both.clients := by
  have hadmits : ((init 0 ⟨none, .default⟩ 3).run twoClients).Admits "first" := by decide +kernel
  exact ⟨hadmits, (links_alone 0 ⟨none, .default⟩ 3 "first" twoClients hadmits 7).1⟩

end FrameLink.Echo.World
