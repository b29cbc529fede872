import FrameLink.Proofs.Echo.Registration
import FrameLink.Proofs.Link.Watching
import Mathlib.Data.List.ModifyLast

/-!
# The links of the clients of one name

What the service does to a link depends on that link, the clock and the settings, and on nothing
that clients share: neither the registry nor the counter shows in an answer. So every operation of
the service changes the links of one name in a way that these links, the clock and the settings
determine.
-/

namespace FrameLink.Echo

/-- The service as its settings alone answer for it. -/
def Settings.handler : Handler Settings where
  onFrame settings task frame :=
    (settings, ((Service.handler 0).onFrame ⟨.ofCapacity 0, settings, 0⟩ task frame).2)
  onClose settings _ := (settings, [])

theorem Service.watches_settings (slot : Nat) :
    (handler slot).Watches Service.settings Settings.handler where
  onFrame s task frame := by
    have hsettings := (leaves_onFrame slot s task frame).2
    refine Prod.ext hsettings.symm ?_
    simp only [Settings.handler, handler]
    cases parse frame with
    | malformed | unknown => rfl
    | command c =>
      cases c with
      | hello | quit => rfl
      | echo payload =>
        simp only [respond]
        split_ifs <;> rfl
  onClose _ _ := rfl

namespace Settings

def move (settings : Settings) (now : Instant) (m : Link.Move) (l : Link Unit) : Link Unit :=
  ((⟨now, l.over settings⟩ : Link.Run Settings).move handler m).2.link.over ()

def moves (settings : Settings) (now : Instant) (list : List Client.Move) (l : Link Unit) :
    Link Unit :=
  list.foldl (fun l m => settings.move (now + m.ahead) m.link l) l

end Settings

namespace Client

/-- What a move does to the link of a client is none of the other clients. -/
theorem run_move (now : Instant) (m : Link.Move) (s : Service) (c : Client) :
    (c.run (fun h l => ((⟨now, l⟩ : Link.Run Service).move h m).2.link) s).2 =
      { c with link := s.settings.move now m c.link } := by
  have hseen := Link.Run.move_seen (Service.watches_settings (c.slot.getD 0))
    ⟨now, c.link.over s⟩ m
  have hlink := congrArg (fun out => out.2.link.over ()) hseen
  exact congrArg (Client.mk c.name c.slot) hlink.symm

theorem Sound.moves_eq {c : Client} (hc : c.Sound) (now : Instant) (list : List Move)
    (s : Service) :
    (c.moves now list s).1.settings = s.settings ∧
      (c.moves now list s).2 = { c with link := s.settings.moves now list c.link } := by
  induction list generalizing s c with
  | nil => exact ⟨rfl, rfl⟩
  | cons m list ih =>
    have hsettings := (hc.vacates now m s).1
    have hlink : (c.move now m s).2 =
        { c with link := s.settings.move (now + m.ahead) m.link c.link } :=
      run_move (now + m.ahead) m.link s c
    obtain ⟨hrest, hrestLink⟩ := ih (hc.move now m s) (c.move now m s).1
    have hcons : c.moves now (m :: list) s =
        (c.move now m s).2.moves now list (c.move now m s).1 := rfl
    rw [hcons, hrest, hrestLink, hsettings, hlink]
    exact ⟨rfl, rfl⟩

end Client

/-! ## All links of a name -/

/-- The links of the clients of this name, oldest first. -/
def linksOf (name : String) (clients : List Client) : List (Link Unit) :=
  (clients.filter (·.name == name)).map Client.link

variable {name : String}

theorem linksOf_append (clients more : List Client) :
    linksOf name (clients ++ more) = linksOf name clients ++ linksOf name more := by
  rw [linksOf, List.filter_append, List.map_append]
  rfl

theorem linksOf_cons (c : Client) (clients : List Client) :
    linksOf name (c :: clients) =
      if c.name = name then c.link :: linksOf name clients else linksOf name clients := by
  by_cases hc : c.name = name <;> simp [linksOf, hc]

theorem linksOf_map (f : Link Unit → Link Unit) (clients : List Client) :
    linksOf name (clients.map fun c => { c with link := f c.link }) =
      (linksOf name clients).map f := by
  induction clients with
  | nil => rfl
  | cons c clients ih =>
    rw [List.map_cons, linksOf_cons, linksOf_cons, ih]
    split_ifs <;> rfl

namespace World

variable {w : World}

/-! ## What all clients do at once -/

theorem runAll_links (hw : ∀ c ∈ w.clients, c.Sound)
    {f : Handler Service → Link Service → Link Service} {turns : List Client.Move}
    (hturns : ∀ s (c : Client), c.Sound → c.moves w.now turns s = c.run f s) :
    (w.runAll f).service.settings = w.service.settings ∧
      (w.runAll f).clients =
        w.clients.map fun c => { c with link := w.service.settings.moves w.now turns c.link } := by
  -- those that had their turn stand in front, latest first
  have hfold (rest : List Client) (hrest : ∀ c ∈ rest, c.Sound) (s : Service)
      (hs : s.settings = w.service.settings) (done : List Client) :
      let out := rest.foldl (fun before c =>
        ((c.run f before.1).1, (c.run f before.1).2 :: before.2)) (s, done)
      out.1.settings = w.service.settings ∧ out.2.reverse = done.reverse ++
        rest.map fun c => { c with link := w.service.settings.moves w.now turns c.link } := by
    induction rest generalizing s done with
    | nil => exact ⟨hs, (List.append_nil _).symm⟩
    | cons c rest ih =>
      have hc := hrest c (List.mem_cons_self ..)
      obtain ⟨hsettings, hlink⟩ := hc.moves_eq w.now turns s
      rw [hturns s c hc, hs] at hsettings hlink
      obtain ⟨hout, hclients⟩ := ih (fun c hc => hrest c (List.mem_cons_of_mem _ hc))
        (c.run f s).1 hsettings ((c.run f s).2 :: done)
      refine ⟨hout, ?_⟩
      rw [List.foldl_cons, hclients, hlink, List.reverse_cons, List.append_assoc, List.map_cons]
      rfl
  exact hfold w.clients hw w.service rfl []

def stopLink (l : Link Unit) : Link Unit :=
  l.setTask l.session.task.stop.2

theorem stopLink_of_not_isOpen {l : Link Unit} (hopen : l.session.task.isOpen = false) :
    stopLink l = l := by
  have hstop : l.session.task.stop = (false, l.session.task) := by simp [Task.stop, hopen]
  rw [stopLink, hstop]
  rfl

theorem stopLink_stopLink (l : Link Unit) : stopLink (stopLink l) = stopLink l := by
  have hstop : l.session.task.stop.2.stop.2 = l.session.task.stop.2 := by
    unfold Task.stop
    split_ifs <;> rfl
  exact congrArg (Link.setTask l) hstop

theorem getElem?_foldl_modify {f : Client → Client} (hf : ∀ c, f (f c) = f c)
    (numbers : List Nat) (clients : List Client) (n : Nat) :
    (numbers.foldl (fun clients n => clients.modify n f) clients)[n]? =
      if n ∈ numbers then clients[n]?.map f else clients[n]? := by
  induction numbers generalizing clients with
  | nil => rfl
  | cons k numbers ih =>
    rw [List.foldl_cons, ih, List.getElem?_modify]
    by_cases hk : k = n
    · subst hk
      cases clients[k]? <;> simp [hf]
    · cases clients[n]? <;> simp [hk, Ne.symm hk]

/-- To stop all that are registered is to stop all: the others are closed. -/
theorem Housed.stopAll_links (hw : w.Housed) :
    w.stopAll.clients = w.clients.map fun c => { c with link := stopLink c.link } := by
  apply List.ext_getElem?
  intro n
  have hfold := getElem?_foldl_modify (f := fun c => { c with link := stopLink c.link })
    (fun c => congrArg (Client.mk c.name c.slot) (stopLink_stopLink c.link))
    (w.service.registry.toList.map Prod.snd) w.clients n
  rw [List.getElem?_map]
  refine hfold.trans ?_
  split_ifs with hregistered
  · rfl
  · cases hc : w.clients[n]? with
    | none => rfl
    | some c =>
      have hopen : c.isOpen = false := by
        by_contra hopen
        obtain ⟨slot, hslot⟩ := (hw.clients c (List.mem_of_getElem? hc)).slot_of_isOpen
          (by simpa using hopen)
        have hheld := (hw.holds_iff hc slot).mpr ⟨hslot, by simpa using hopen⟩
        exact hregistered (List.mem_map.mpr ⟨(slot, n), Registry.mem_toList.mpr hheld, rfl⟩)
      rw [Option.map_some, stopLink_of_not_isOpen hopen]

/-! ## What one client does -/

theorem number?_concat (w : World) (c : Client) (name : String) :
    number? { w with clients := w.clients ++ [c] } name =
      if c.name = name then some w.clients.length else w.number? name := by
  by_cases hc : c.name = name <;> simp [number?, List.zipIdx_append, hc]

theorem number?_cases (w : World) (name : String) :
    (w.number? name = none ∧ linksOf name w.clients = []) ∨
      ∃ before c after, w.clients = before ++ c :: after ∧ w.number? name = some before.length ∧
        c.name = name ∧ linksOf name after = [] := by
  obtain ⟨now, service, clients⟩ := w
  induction clients using List.reverseRecOn with
  | nil => exact .inl ⟨rfl, rfl⟩
  | append_singleton clients c ih =>
    have hnumber := number?_concat ⟨now, service, clients⟩ c name
    dsimp only at hnumber ih ⊢
    rw [hnumber]
    by_cases hc : c.name = name
    · rw [if_pos hc]
      exact .inr ⟨clients, c, [], rfl, rfl, hc, rfl⟩
    · rw [if_neg hc, linksOf_append, linksOf_cons, if_neg hc]
      rcases ih with ⟨hnone, hlinks⟩ | ⟨before, latest, after, hclients, hlatest, hname, hafter⟩
      · exact .inl ⟨hnone, by rw [hlinks]; rfl⟩
      · refine .inr ⟨before, latest, after ++ [c], ?_, hlatest, hname, ?_⟩
        · rw [hclients, List.append_assoc, List.cons_append]
        · rw [linksOf_append, hafter, linksOf_cons, if_neg hc]
          rfl

theorem linksOf_peerStep (w : World) (other : String) (e : Peer.Event) :
    linksOf name (w.peerStep other e).clients =
      if other = name then
        (linksOf name w.clients).modifyLast fun l => { l with peer := l.peer.step e }
      else linksOf name w.clients := by
  unfold peerStep
  rcases w.number?_cases other with
    ⟨hnone, hlinks⟩ | ⟨before, c, after, hclients, hnumber, hname, hafter⟩
  · rw [hnone]
    split_ifs with hother
    · rw [hother] at hlinks
      rw [hlinks]
      rfl
    · rfl
  · rw [hnumber]
    have hmodify (f : Client → Client) :
        w.clients.modify before.length f = before ++ f c :: after := by
      rw [hclients, List.modify_eq_set_getElem?]
      simp
    dsimp only
    rw [hmodify, hclients]
    simp only [linksOf_append, linksOf_cons, hname]
    split_ifs with hother
    · rw [hother] at hafter
      rw [hafter, List.modifyLast_concat]
    · rfl

/-- A connection that comes is turned away just if the registry is full. Otherwise its link is
started under the settings. -/
theorem accept_links (hr : w.service.registry.Sound) (name : String) :
    (w.accept name).2.now = w.now ∧ (w.accept name).2.service.settings = w.service.settings ∧
      ∃ c, (w.accept name).2.clients = w.clients ++ [c] ∧ c.name = name ∧
        (c.slot = none ↔ w.service.registry.isFull = true) ∧
        (c.slot ≠ none → c.link =
          w.service.settings.move w.now (.act .start)
            (Link.ofSettings () w.service.settings.task)) := by
  simp only [accept]
  cases hfull : w.service.registry.isFull with
  | true =>
    rw [Registry.place?_of_isFull hfull]
    exact ⟨rfl, rfl, _, rfl, rfl, ⟨fun _ => rfl, fun _ => rfl⟩, fun hslot => absurd rfl hslot⟩
  | false =>
    obtain ⟨slot, registry, hplace, _⟩ := hr.place hfull fun _ => w.clients.length
    have hstart := Client.run_move w.now (.act .start) { w.service with registry }
      (Client.ofSettings name slot w.service.settings.task)
    have hservice := (Client.entered_start w.now name slot w.service.settings.task
      { w.service with registry }).1
    rw [hplace]
    dsimp only
    rw [hservice]
    have hslot : some slot = none ↔ false = true :=
      iff_of_false (Option.some_ne_none slot) Bool.false_ne_true
    exact ⟨rfl, rfl, _, rfl, rfl, hslot, fun _ => congrArg Client.link hstart⟩

/-! ## Who is let in -/

/-- The clients that ever came, with the slots they were let in to. -/
def roll (w : World) : List (String × Option Nat) :=
  w.clients.map fun c => (c.name, c.slot)

theorem roll_set {n : Nat} {c : Client} (hc : w.clients[n]? = some c) (link : Link Unit)
    (service : Service) :
    roll { w with service, clients := w.clients.set n { c with link } } = w.roll := by
  obtain ⟨hlt, _⟩ := List.getElem?_eq_some_iff.mp hc
  apply List.ext_getElem?
  intro k
  rw [roll, roll, List.getElem?_map, List.getElem?_map]
  by_cases hk : n = k
  · subst hk
    rw [List.getElem?_set_self hlt, hc]
    rfl
  · rw [List.getElem?_set_ne hk]

theorem roll_move (hr : w.service.registry.Sound) (m : Move) : w.roll <+: (w.move m).roll := by
  have hmoved := moved_move hr m
  generalize w.move m = w' at hmoved
  cases hmoved with
  | refused | taken =>
    simp only [roll, List.map_append]
    exact List.prefix_append _ _
  | applied | waited | nobody => exact List.prefix_rfl
  | stirred m hc => exact (roll_set hc _ _).symm ▸ List.prefix_rfl

theorem Housed.roll_moves (hw : w.Housed) (list : List Move) : w.roll <+: (w.moves list).roll := by
  induction list generalizing w with
  | nil => exact List.prefix_rfl
  | cons m list ih => exact (roll_move hw.registry m).trans (ih (hw.move m))

theorem roll_peerStep (w : World) (other : String) (e : Peer.Event) :
    (w.peerStep other e).roll = w.roll := by
  unfold peerStep
  cases w.number? other with
  | none => rfl
  | some n =>
    dsimp only
    rw [List.modify_eq_set_getElem?]
    cases hc : w.clients[n]? with
    | none => rfl
    | some c => exact roll_set hc { c.link with peer := c.link.peer.step e } w.service

theorem exists_of_roll {w' : World} (hroll : w.roll <+: w'.roll) {c : Client}
    (hc : c ∈ w.clients) : ∃ c' ∈ w'.clients, c'.name = c.name ∧ c'.slot = c.slot := by
  have hentry : (c.name, c.slot) ∈ w'.roll := hroll.subset (List.mem_map_of_mem hc)
  obtain ⟨c', hc', heq⟩ := List.mem_map.mp hentry
  exact ⟨c', hc', Prod.mk.inj heq⟩

def Admits (name : String) (w : World) : Prop :=
  ∀ c ∈ w.clients, c.name = name → c.slot ≠ none

instance (name : String) (w : World) : Decidable (w.Admits name) :=
  inferInstanceAs (Decidable (∀ c ∈ w.clients, _ → _))

theorem Admits.of_prefix {w' : World} (h : w'.Admits name) (hroll : w.roll <+: w'.roll) :
    w.Admits name := by
  intro c hc hname
  obtain ⟨c', hc', hname', hslot⟩ := exists_of_roll hroll hc
  exact hslot ▸ h c' hc' (hname'.trans hname)

end World

end FrameLink.Echo
