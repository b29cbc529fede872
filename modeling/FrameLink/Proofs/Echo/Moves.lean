import FrameLink.Echo.Service
import FrameLink.Proofs.Link.Moves

/-!
# The moves of the echo service

The least that can happen to the service is that it lets a client in, that new settings are applied,
that time passes, or that the link of one client moves. Its events, and the settling after them, are
moves in a row. So what holds after every list of moves holds whatever happens, however often the
service settles, and in whatever order the loops of its connections get their turns.
-/

namespace FrameLink

/-- The same link, whose callbacks work on another state. -/
def Link.over {σ τ : Type} (l : Link σ) (state : τ) : Link τ :=
  ⟨{ l.session with state }, l.peer⟩

namespace Echo

inductive Client.Move
  | peer (event : Peer.Event)
  /-- The service asks the connection to stop. -/
  | stop
  /-- A turn of the send loop, with a clock that is this far ahead. -/
  | turn (ahead : Nat)
  | deliver
  | read
deriving DecidableEq, Repr

namespace Client

namespace Move

def link : Move → Link.Move
  | .peer e => .peer e
  | .stop => .act .stop
  | .turn _ => .turn
  | .deliver => .deliver
  | .read => .read

def ahead : Move → Nat
  | .turn ahead => ahead
  | .peer _ | .stop | .deliver | .read => 0

end Move

def handler (c : Client) : Handler Service :=
  Service.handler (c.slot.getD 0)

def move (now : Instant) (m : Move) (s : Service) (c : Client) : Service × Client :=
  c.run (fun h l => ((⟨now + m.ahead, l⟩ : Link.Run Service).move h m.link).2.link) s

def moves (now : Instant) (list : List Move) (s : Service) (c : Client) : Service × Client :=
  list.foldl (fun (s, c) m => c.move now m s) (s, c)

theorem move_stop (now : Instant) (s : Service) (c : Client) :
    c.move now .stop s = (s, { c with link := c.link.setTask c.link.session.task.stop.2 }) := by
  have hact := Link.act_of_isQuiet c.handler now (c.link.over s) (a := .stop) rfl
  exact congrArg (fun out => (out.2.session.state, { c with link := out.2.over () })) hact

theorem moves_append (now : Instant) (first second : List Move) (s : Service) (c : Client) :
    c.moves now (first ++ second) s =
      (c.moves now first s).2.moves now second (c.moves now first s).1 :=
  List.foldl_append

/-- What an operation does to a client depends on what it makes of this one link. -/
theorem run_congr {f g : Handler Service → Link Service → Link Service} {s : Service} {c : Client}
    (hsame : f c.handler (c.link.over s) = g c.handler (c.link.over s)) : c.run f s = c.run g s :=
  congrArg (fun l : Link Service => (l.session.state, { c with link := l.over () })) hsame

theorem run_run (f g : Handler Service → Link Service → Link Service) (s : Service) (c : Client) :
    (c.run f s).2.run g (c.run f s).1 = c.run (fun h l => g h (f h l)) s :=
  rfl

theorem moves_round (now : Instant) (s : Service) (c : Client) :
    c.moves now [.turn 0, .deliver, .turn 0] s = c.run (fun h l => l.round h now) s :=
  rfl

theorem moves_turn (now : Instant) (time : Nat) (s : Service) (c : Client) :
    c.moves now [.turn time] s = c.run (fun h l => l.turn h (now + time)) s :=
  rfl

theorem exists_moves_exhaust (now : Instant) {f : Handler Service → Link Service → Link Service}
    (hf : ∀ s c, ∃ list, Client.moves now list s c = Client.run f s c) (s : Service) (c : Client) :
    ∃ list, c.moves now list s = c.run (fun h l => l.exhaust (f h)) s := by
  have huntil (n : Nat) (s : Service) (c : Client) :
      ∃ list, c.moves now list s = c.run (fun h l => Link.untilKept (f h) n l) s := by
    induction n generalizing s c with
    | zero => exact ⟨[], rfl⟩
    | succ n ih =>
      obtain ⟨first, hfirst⟩ := hf s c
      by_cases hkept : (f c.handler (c.link.over s)).session.resets = c.link.session.resets
      · have hlast : Link.untilKept (f c.handler) (n + 1) (c.link.over s) =
            f c.handler (c.link.over s) := if_pos hkept
        exact ⟨first, hfirst.trans (run_congr hlast).symm⟩
      · obtain ⟨rest, hrest⟩ := ih (c.run f s).1 (c.run f s).2
        have hmore : Link.untilKept (f c.handler) (n + 1) (c.link.over s) =
            Link.untilKept (f c.handler) n (f c.handler (c.link.over s)) := if_neg hkept
        refine ⟨first ++ rest, ?_⟩
        rw [moves_append, hfirst, hrest, run_run]
        exact (run_congr hmore).symm
  exact huntil _ s c

theorem exists_moves_settle (now : Instant) (s : Service) (c : Client) :
    ∃ list, c.moves now list s = c.run (fun h l => l.settle h now) s := by
  obtain ⟨list, hlist⟩ := exists_moves_exhaust now (f := fun h l => l.round h now)
    (fun s c => ⟨_, moves_round now s c⟩) s c
  exact ⟨list ++ [.read], by rw [moves_append, hlist]; rfl⟩

theorem exists_moves_advance (now : Instant) (time : Nat) (s : Service) (c : Client) :
    ∃ list, c.moves now list s = c.run (fun h l => l.advance h now (now + time)) s := by
  have hturns (time : Nat) := exists_moves_exhaust now
    (f := fun h l => l.turn h (now + time)) fun s c => ⟨_, moves_turn now time s c⟩
  obtain ⟨first, hfirst⟩ := hturns 0 s c
  obtain ⟨second, hsecond⟩ := hturns time
    (c.run (fun h l => l.exhaust (Link.turn h now)) s).1
    (c.run (fun h l => l.exhaust (Link.turn h now)) s).2
  refine ⟨first ++ second, ?_⟩
  rw [moves_append, hfirst]
  exact hsecond

end Client

namespace World

inductive Move
  | accept (name : String)
  | apply (settings : Settings)
  | wait (time : Nat)
  | client (number : Nat) (move : Client.Move)
deriving DecidableEq, Repr

def atClient (w : World) (n : Nat) (f : Service → Client → Service × Client) : World :=
  match w.clients[n]? with
  | none => w
  | some c => { w with service := (f w.service c).1, clients := w.clients.set n (f w.service c).2 }

def move (w : World) : Move → World
  | .accept name => (w.accept name).2
  | .apply settings => w.apply settings
  | .wait time => { w with now := w.now + time }
  | .client n m => w.atClient n (Client.move w.now m)

def moves (w : World) (list : List Move) : World :=
  list.foldl move w

def init (now : Instant) (settings : Settings) (capacity : Nat) : World :=
  ofService now ⟨.ofCapacity capacity, settings, 0⟩

theorem moves_append (w : World) (first second : List Move) :
    w.moves (first ++ second) = (w.moves first).moves second :=
  List.foldl_append

theorem moves_keep {P : World → Prop} (hmove : ∀ w m, P w → P (w.move m)) {w : World} (hw : P w)
    (list : List Move) : P (w.moves list) := by
  induction list generalizing w with
  | nil => exact hw
  | cons m list ih => exact ih (hmove w m hw)

/-! ## Events as moves -/

theorem atClient_of_none {w : World} {n : Nat} (hnone : w.clients[n]? = none)
    (f : Service → Client → Service × Client) : w.atClient n f = w := by
  simp [atClient, hnone]

theorem atClient_of_some {w : World} {n : Nat} {c : Client} (hc : w.clients[n]? = some c)
    (f : Service → Client → Service × Client) :
    w.atClient n f =
      { w with service := (f w.service c).1, clients := w.clients.set n (f w.service c).2 } := by
  simp [atClient, hc]

theorem now_atClient (w : World) (n : Nat) (f : Service → Client → Service × Client) :
    (w.atClient n f).now = w.now := by
  unfold atClient
  split <;> rfl

theorem atClient_atClient (w : World) (n : Nat) (f g : Service → Client → Service × Client) :
    (w.atClient n f).atClient n g = w.atClient n fun s c => g (f s c).1 (f s c).2 := by
  cases hc : w.clients[n]? with
  | none => rw [atClient_of_none hc, atClient_of_none hc, atClient_of_none hc]
  | some c =>
    obtain ⟨hlt, _⟩ := List.getElem?_eq_some_iff.mp hc
    have hc' : (w.clients.set n (f w.service c).2)[n]? = some (f w.service c).2 :=
      List.getElem?_set_self hlt
    rw [atClient_of_some hc, atClient_of_some hc, atClient_of_some hc', List.set_set]

theorem moves_client (w : World) (n : Nat) (list : List Client.Move) :
    w.moves (list.map (.client n)) = w.atClient n (Client.moves w.now list) := by
  induction list generalizing w with
  | nil =>
    cases hc : w.clients[n]? with
    | none => rw [atClient_of_none hc]; rfl
    | some c =>
      obtain ⟨hlt, hget⟩ := List.getElem?_eq_some_iff.mp hc
      rw [atClient_of_some hc]
      simp [moves, Client.moves, ← hget]
  | cons m list ih =>
    have hrest := ih (w.atClient n (Client.move w.now m))
    rw [now_atClient, atClient_atClient] at hrest
    exact hrest

/-- What happens to all clients happens to one after the other. -/
theorem runAll_eq (f : Handler Service → Link Service → Link Service) (w : World) :
    w.runAll f =
      (List.range w.clients.length).foldl (fun w n => w.atClient n fun s c => c.run f s) w := by
  -- those that had their turn stand in front, latest first
  have hfold (rest : List Client) (service : Service) (done : List Client) :
      (List.range' done.length rest.length).foldl (fun w n => w.atClient n fun s c => c.run f s)
          { w with service, clients := done.reverse ++ rest } =
        let out := rest.foldl (fun before c =>
          ((c.run f before.1).1, (c.run f before.1).2 :: before.2)) (service, done)
        { w with service := out.1, clients := out.2.reverse } := by
    induction rest generalizing service done with
    | nil => simp
    | cons c rest ih =>
      have hc : (done.reverse ++ c :: rest)[done.length]? = some c := by simp
      have hset : (done.reverse ++ c :: rest).set done.length (c.run f service).2 =
          ((c.run f service).2 :: done).reverse ++ rest := by simp
      have hrest := ih (c.run f service).1 ((c.run f service).2 :: done)
      rw [List.length_cons, List.range'_succ, List.foldl_cons, atClient_of_some hc, hset]
      exact hrest
  have hall := hfold w.clients w.service []
  rw [List.length_nil, ← List.range_eq_range', List.reverse_nil, List.nil_append] at hall
  exact hall.symm

theorem exists_moves_runAll {f : Handler Service → Link Service → Link Service} (w : World)
    (hturns : ∀ s c, ∃ turns, Client.moves w.now turns s c = Client.run f s c) :
    ∃ list, w.moves list = w.runAll f := by
  have hclient (n : Nat) (w' : World) (hnow : w'.now = w.now) :
      ∃ list, w'.moves list = w'.atClient n fun s c => c.run f s := by
    cases hc : w'.clients[n]? with
    | none => exact ⟨[], (atClient_of_none hc _).symm⟩
    | some c =>
      obtain ⟨turns, hrun⟩ := hturns w'.service c
      refine ⟨turns.map (.client n), ?_⟩
      rw [moves_client, atClient_of_some hc, atClient_of_some hc, hnow, hrun]
  have hall (numbers : List Nat) (w' : World) (hnow : w'.now = w.now) :
      ∃ list, w'.moves list =
        numbers.foldl (fun w n => w.atClient n fun s c => c.run f s) w' := by
    induction numbers generalizing w' with
    | nil => exact ⟨[], rfl⟩
    | cons n numbers ih =>
      obtain ⟨first, hfirst⟩ := hclient n w' hnow
      obtain ⟨rest, hrest⟩ := ih (w'.atClient n fun s c => c.run f s)
        ((now_atClient _ _ _).trans hnow)
      refine ⟨first ++ rest, ?_⟩
      rw [moves_append, hfirst, hrest, List.foldl_cons]
  rw [runAll_eq]
  exact hall _ w rfl

theorem exists_moves_settle (w : World) : ∃ list, w.moves list = w.settle :=
  exists_moves_runAll w (Client.exists_moves_settle w.now)

theorem exists_moves_advance (w : World) (time : Nat) : ∃ list, w.moves list = w.advance time := by
  obtain ⟨list, hlist⟩ := exists_moves_runAll w (Client.exists_moves_advance w.now time)
  refine ⟨list ++ [.wait time], ?_⟩
  rw [moves_append, hlist]
  rfl

theorem modify_eq_atClient (w : World) (n : Nat) (m : Client.Move) (f : Client → Client)
    (hf : ∀ s c, Client.move w.now m s c = (s, f c)) :
    { w with clients := w.clients.modify n f } = w.move (.client n m) := by
  show _ = w.atClient n (Client.move w.now m)
  cases hc : w.clients[n]? with
  | none =>
    rw [atClient_of_none hc, List.modify_eq_set_getElem?, hc]
    rfl
  | some c =>
    rw [atClient_of_some hc, List.modify_eq_set_getElem?, hc, hf]
    rfl

theorem exists_moves_peerStep (w : World) (name : String) (e : Peer.Event) :
    ∃ list, w.moves list = w.peerStep name e := by
  unfold peerStep
  cases w.number? name with
  | none => exact ⟨[], rfl⟩
  | some n =>
    have hmodify := modify_eq_atClient w n (.peer e)
      (fun c => { c with link := { c.link with peer := c.link.peer.step e } }) fun _ _ => rfl
    exact ⟨[.client n (.peer e)], hmodify.symm⟩

theorem exists_moves_stopAll (w : World) : ∃ list, w.moves list = w.stopAll := by
  have hstop (numbers : List Nat) (w : World) :
      w.moves (numbers.map (.client · .stop)) = { w with
        clients := numbers.foldl (fun clients n => clients.modify n fun c =>
          { c with link := c.link.setTask c.link.session.task.stop.2 }) w.clients } := by
    induction numbers generalizing w with
    | nil => rfl
    | cons n numbers ih =>
      have hmove := modify_eq_atClient w n .stop
        (fun c => { c with link := c.link.setTask c.link.session.task.stop.2 })
        (Client.move_stop w.now)
      rw [List.map_cons, moves, List.foldl_cons, ← hmove]
      exact ih _
  exact ⟨_, hstop (w.service.registry.toList.map Prod.snd) w⟩

inductive Event
  | connect (name : String)
  | peer (name : String) (event : Peer.Event)
  | apply (settings : Settings)
  | stopAll
  | advance (time : Nat)
  | rest
deriving DecidableEq, Repr

def happen (w : World) (settles : Bool) (e : Event) : World :=
  let w := match e with
    | .connect name => (w.connect name).2
    | .peer name e => w.peerStep name e
    | .apply settings => w.apply settings
    | .stopAll => w.stopAll
    | .advance time => w.advance time
    | .rest => w
  if settles then w.settle else w

theorem exists_moves_happen (w : World) (settles : Bool) (e : Event) :
    ∃ list, w.moves list = w.happen settles e := by
  have hevent : ∃ list, w.moves list = w.happen false e := by
    cases e with
    | connect name =>
      obtain ⟨list, hlist⟩ := exists_moves_peerStep w name .close
      refine ⟨list ++ [.accept name], ?_⟩
      rw [moves_append, hlist]
      rfl
    | peer name e => exact exists_moves_peerStep w name e
    | apply settings => exact ⟨[.apply settings], rfl⟩
    | stopAll => exact exists_moves_stopAll w
    | advance time => exact exists_moves_advance w time
    | rest => exact ⟨[], rfl⟩
  cases settles with
  | false => exact hevent
  | true =>
    obtain ⟨first, hfirst⟩ := hevent
    obtain ⟨second, hsecond⟩ := exists_moves_settle (w.happen false e)
    exact ⟨first ++ second, by rw [moves_append, hfirst, hsecond]; rfl⟩

/-- Whatever happens to the service, with or without settling, is a list of moves. -/
theorem exists_moves_events (w : World) (events : List (Bool × Event)) :
    ∃ list, w.moves list = events.foldl (fun w e => w.happen e.1 e.2) w := by
  induction events generalizing w with
  | nil => exact ⟨[], rfl⟩
  | cons e events ih =>
    obtain ⟨first, hfirst⟩ := exists_moves_happen w e.1 e.2
    obtain ⟨rest, hrest⟩ := ih (w.happen e.1 e.2)
    exact ⟨first ++ rest, by rw [moves_append, hfirst, hrest, List.foldl_cons]⟩

end World

end Echo

end FrameLink
