import FrameLink.Proofs.Echo.Registration
import FrameLink.Proofs.Frame.RoundTrip

/-!
# The replies to a client

An account is what a client has coming to it: it is kept from the frames of the client and the token
alone. The session of a client goes by this account, frame by frame, until it gets closed.
-/

namespace FrameLink

namespace Session

variable {σ : Type} {h : Handler σ} {now : Instant} {s s' : Session σ}

def Leaving (s : Session σ) : Prop :=
  s.task.isOpen = false ∨ s.task.loops.isSome = true ∧ s.task.stopSignal = true

theorem leaving_wrote (now : Instant) (w : Writer) (hs : s.Leaving) : (s.wrote now w).Leaving := by
  have hran := Task.ran_runSendLoop now w s.task
  rcases hs with hclosed | ⟨hloops, hstop⟩
  · exact .inl ((isOpen_wrote now w s).trans hclosed)
  · exact .inr ⟨hran.loops.trans hloops, hran.stopSignal.trans hstop⟩

theorem Step.leaving (hstep : Step h now s s') (hbegun : s.task.phase ≠ .unstarted)
    (hresets : s'.resets = s.resets) (hs : s.Leaving) : s'.Leaving := by
  cases hstep with
  | effect heffect =>
    cases heffect with
    | verify | signal | report | push | discard => exact hs
    | stop hopen =>
      rcases hs with hclosed | ⟨hloops, _⟩
      · exact .inl hclosed
      · exact .inr ⟨hloops, rfl⟩
    | shut => exact .inl rfl
    | launch hunstarted => exact absurd hunstarted hbegun
    | renew => exact absurd hresets (Nat.succ_ne_self _)
  | enter | stray => exact hs
  | inbound b =>
    rcases hs with hclosed | ⟨hloops, hstop⟩
    · exact .inl hclosed
    · exact .inr ⟨(Option.isSome_map ..).trans hloops, hstop⟩
  | write => exact leaving_wrote now _ hs
  | exit => exact .inl rfl

theorem Steps.leaving (hsteps : Steps h now s s') (hbegun : s.task.phase ≠ .unstarted)
    (hresets : s'.resets = s.resets) (hs : s.Leaving) : s'.Leaving :=
  hsteps.related (R := fun s t => s.Leaving → t.Leaving) (fun _ hs => hs)
    (fun _ _ _ hfirst hsecond hs => hsecond (hfirst hs))
    (fun _ _ hbegun hkept hstep => hstep.leaving hbegun hkept) hbegun hresets hs

end Session

namespace Echo

/-- What a client has coming to it. -/
structure Account where
  verified : Bool
  replies : Bytes
  /-- How many of the replies are echoes. -/
  echoes : Nat
deriving DecidableEq, Repr

def Account.blank : Account :=
  ⟨false, [], 0⟩

/-- The account with as many echoes as the counter of the service shows. -/
def Account.shown (a : Account) : Account :=
  { a with echoes := a.echoes % wordBound }

/-- Whether a hello is accepted while this token is in force. -/
def Admits (token : Option Bytes) (payload : Bytes) : Prop :=
  token = none ∨ token = some payload

instance (token : Option Bytes) (payload : Bytes) : Decidable (Admits token payload) :=
  inferInstanceAs (Decidable (_ ∨ _))

/-- The account behind one more frame of the client. An echo is answered once the client is
verified, whatever its length; a hello is answered unless the limit forbids that. -/
def Account.hear (limit : Nat) (token : Option Bytes) (a : Account) : Bytes → Account
  | _ :: _ :: _ :: flag :: payload =>
    let fitting (f : Frame) : Bytes := if f.length ≤ limit then f.toBytes else []
    if flag = 0 then
      if a.verified then
        { a with replies := a.replies ++ (⟨0, payload⟩ : Frame).toBytes, echoes := a.echoes + 1 }
      else a
    else if flag = 1 then
      if Admits token payload then
        { a with verified := true, replies := a.replies ++ fitting welcome }
      else { a with replies := a.replies ++ fitting denial }
    else a
  | _ => a

/-- A hello with another token than the one in force, or a goodbye. -/
def dismisses (token : Option Bytes) : Bytes → Bool
  | _ :: _ :: _ :: flag :: payload => flag = 1 ∧ ¬Admits token payload ∨ flag = 2
  | _ => false

theorem welcome_small : welcome.length ≤ largestLength := by
  decide +kernel

theorem denial_small : denial.length ≤ largestLength := by
  decide +kernel

inductive Parses (limit : Nat) : Bytes → Parsed → Prop
  | echo {a b c : UInt8} {payload : Bytes}
      (hfits : (⟨0, payload⟩ : Frame).length ≤ min limit largestLength) :
      Parses limit (a :: b :: c :: 0 :: payload) (.command (.echo payload))
  | hello {a b c : UInt8} {payload : Bytes} :
      Parses limit (a :: b :: c :: 1 :: payload) (.command (.hello payload))
  | quit {a b c : UInt8} {payload : Bytes} :
      Parses limit (a :: b :: c :: 2 :: payload) (.command .quit)
  | unknown {a b c flag : UInt8} {payload : Bytes}
      (hother : flag ≠ 0 ∧ flag ≠ 1 ∧ flag ≠ 2) :
      Parses limit (a :: b :: c :: flag :: payload) (.unknown flag)

theorem parses_parse {limit : Nat} {frame : Bytes} (hwhole : Whole limit frame) :
    Parses limit frame (parse frame) := by
  obtain ⟨⟨flag, payload⟩, ⟨a, b, c, rfl⟩, hframe, hfits⟩ := hwhole.ofBytes?
  rw [parse, hframe]
  dsimp only
  split_ifs with hecho hhello hquit
  · subst hecho
    exact .echo hfits
  · subst hhello
    exact .hello
  · subst hquit
    exact .quit
  · exact .unknown ⟨hecho, hhello, hquit⟩

theorem parse_ne_malformed {limit : Nat} {frame : Bytes} (hwhole : Whole limit frame) :
    parse frame ≠ .malformed := by
  intro hmalformed
  have hparses := parses_parse hwhole
  rw [hmalformed] at hparses
  cases hparses

theorem Service.accepts_iff (s : Service) (payload : Bytes) :
    s.accepts payload = true ↔ Admits s.settings.token payload := by
  unfold accepts Admits
  cases s.settings.token <;> simp

/-- The actions that the service answers a frame with. -/
inductive Mild : Action → Prop
  | verify : Mild .verify
  | sendFrame (f : Frame) : Mild (.sendFrame f)
  | stop : Mild .stop

def Account.credit (limit : Nat) (a : Account) : Action → Account
  | .verify => { a with verified := true }
  | .sendFrame f =>
    { a with
      replies := a.replies ++ if f.length ≤ min limit largestLength then f.toBytes else [] }
  | _ => a

/-- The service answers a frame as the account of the client asks for. -/
structure Answers (limit : Nat) (s : Service) (verified : Bool) (frame : Bytes) (s' : Service)
    (actions : List Action) : Prop where
  mild : ∀ action ∈ actions, Mild action
  account : ∀ a : Account, a.verified = verified → a.shown.echoes = s.echoed →
    actions.foldl (Account.credit limit) { a with echoes := s'.echoed } =
      (a.hear limit s.settings.token frame).shown
  stop : .stop ∈ actions ↔ dismisses s.settings.token frame = true

theorem answers_respond {limit : Nat} {frame : Bytes} (hwhole : Whole limit frame) (slot : Nat)
    (s : Service) (t : Task) :
    Answers limit s t.verified frame ((Service.handler slot).onFrame s t frame).1
      ((Service.handler slot).onFrame s t frame).2 := by
  have hparses := parses_parse hwhole
  simp only [Service.handler]
  generalize parse frame = parsed at hparses
  cases hparses with
  | @echo _ _ _ payload hfits =>
    simp only [Service.respond]
    cases hverified : t.verified with
    | false =>
      refine ⟨by simp, fun a ha hechoed => ?_, by simp [dismisses]⟩
      simp [Account.hear, ha, ← hechoed, Account.shown]
    | true =>
      refine ⟨by simp [Mild.sendFrame], fun a ha hechoed => ?_, by simp [dismisses]⟩
      simp only [if_true, List.foldl_cons, List.foldl_nil, Account.credit, echoFlag, if_pos hfits,
        Account.hear, Account.shown, ha, ← hechoed, Nat.mod_add_mod]
  | @hello _ _ _ payload =>
    have haccepts := s.accepts_iff payload
    simp only [Service.respond]
    by_cases hadmits : Admits s.settings.token payload
    · rw [if_pos (haccepts.mpr hadmits)]
      refine ⟨by simp [Mild.verify, Mild.sendFrame], fun a _ hechoed => ?_,
        by simp [dismisses, hadmits]⟩
      simp [Account.credit, Account.hear, hadmits, welcome_small, ← hechoed, Account.shown]
    · rw [if_neg (mt haccepts.mp hadmits)]
      refine ⟨by simp [Mild.sendFrame, Mild.stop], fun a _ hechoed => ?_,
        by simp [dismisses, hadmits]⟩
      simp [Account.credit, Account.hear, hadmits, denial_small, ← hechoed, Account.shown]
  | quit =>
    refine ⟨by simp [Service.respond, Mild.stop], fun a _ hechoed => ?_,
      by simp [Service.respond, dismisses]⟩
    simp [Service.respond, Account.credit, Account.hear, ← hechoed, Account.shown]
  | unknown hother =>
    refine ⟨by simp, fun a _ hechoed => ?_, by simp [dismisses, hother]⟩
    simp [Account.hear, hother, ← hechoed, Account.shown]

end Echo

namespace Session

open Echo (Account Service Mild)

variable {slot : Nat} {s s' t : Session Service}

/-- The account that a session keeps, with the counter of the service. -/
def account (s : Session Service) : Account :=
  ⟨s.task.verified, s.ledger.accepted, s.state.echoed⟩

structure Acts (s : Session Service) (actions : List Action) (t : Session Service) : Prop where
  isOpen : t.task.isOpen = s.task.isOpen
  loops : t.task.loops = s.task.loops
  settings : t.task.settings = s.task.settings
  resets : t.resets = s.resets
  state : t.state = s.state
  account : t.account = actions.foldl (Account.credit s.task.settings.frameLimit) s.account
  stopSignal : t.task.stopSignal = true ↔ s.task.stopSignal = true ∨ .stop ∈ actions

theorem acts_actQuietly (hopen : s.task.isOpen = true) (hloops : s.task.loops.isSome = true)
    {a : Action} (hmild : Mild a) : s.Acts [a] (s.actQuietly a).2 := by
  cases hmild with
  | verify => exact ⟨rfl, rfl, rfl, rfl, rfl, rfl, by simp [actQuietly, Task.verify]⟩
  | sendFrame f =>
    simp only [actQuietly, Task.sendFrame_of_isOpen hopen]
    split_ifs with hfits
    · refine ⟨rfl, rfl, rfl, rfl, rfl, ?_, by simp [Task.push]⟩
      simp [account, Account.credit, hfits, Ledger.offer, Task.push]
    · exact ⟨rfl, rfl, rfl, rfl, rfl, by simp [account, Account.credit, hfits, Ledger.offer],
        by simp⟩
  | stop =>
    simp only [actQuietly, Task.stop, hopen, hloops, true_and, and_true]
    split_ifs with hstop
    · exact ⟨rfl, rfl, rfl, rfl, rfl, rfl, by simp [hstop]⟩
    · exact ⟨rfl, rfl, rfl, rfl, rfl, rfl, by simp⟩

theorem isStranded_of_loops {t : Task} (hloops : t.loops.isSome = true) : t.isStranded = false := by
  simp [Task.isStranded, Option.isNone_eq_false_iff.mpr hloops]

theorem acts_actAll (h : Handler Service) (now : Instant) (hopen : s.task.isOpen = true)
    (hloops : s.task.loops.isSome = true) {actions : List Action}
    (hmild : ∀ a ∈ actions, Mild a) : s.Acts actions (s.actAll h now actions).2 := by
  induction actions generalizing s with
  | nil => exact ⟨rfl, rfl, rfl, rfl, rfl, rfl, by simp [actAll]⟩
  | cons a actions ih =>
    have hquiet : a.isQuiet = true := by
      cases hmild a (by simp) <;> rfl
    have hfirst := acts_actQuietly hopen hloops (hmild a (by simp))
    have hloops' : (s.actQuietly a).2.task.loops.isSome = true := by rw [hfirst.loops, hloops]
    have hrest := ih (hfirst.isOpen.trans hopen) hloops' fun b hb => hmild b (by simp [hb])
    rw [actAll, act_of_isQuiet h now s hquiet]
    dsimp only
    rw [if_neg (by simp [isStranded_of_loops hloops'])]
    refine ⟨hrest.isOpen.trans hfirst.isOpen, hrest.loops.trans hfirst.loops,
      hrest.settings.trans hfirst.settings, hrest.resets.trans hfirst.resets,
      hrest.state.trans hfirst.state, ?_, ?_⟩
    · have haccount := hrest.account
      rwa [hfirst.account, hfirst.settings] at haccount
    · have hstop := hrest.stopSignal
      rw [hfirst.stopSignal, List.mem_singleton] at hstop
      rw [List.mem_cons, ← or_assoc]
      exact hstop

structure Hears (s : Session Service) (frames : List Bytes) (t : Session Service) : Prop where
  isOpen : t.task.isOpen = s.task.isOpen
  loops : t.task.loops = s.task.loops
  settings : t.task.settings = s.task.settings
  resets : t.resets = s.resets
  service : t.state.settings = s.state.settings
  account : ∀ a, s.account = a.shown → t.account =
    (frames.foldl (Account.hear s.task.settings.frameLimit s.state.settings.token) a).shown
  stopSignal : t.task.stopSignal = true ↔
    s.task.stopSignal = true ∨ ∃ f ∈ frames, Echo.dismisses s.state.settings.token f = true

theorem hears_handle (slot : Nat) (now : Instant) (hopen : s.task.isOpen = true)
    (hloops : s.task.loops.isSome = true) (resets : Nat) {frame : Bytes}
    (hwhole : Whole s.task.settings.frameLimit frame) :
    (s.handle (Service.handler slot) now resets frame).2 = true ∧
      s.Hears [frame] (s.handle (Service.handler slot) now resets frame).1 := by
  have hanswers := Echo.answers_respond hwhole slot s.state s.task
  have hservice := (Service.leaves_onFrame slot s.state s.task frame).2
  -- whose connection the frame is of, no account tells
  have hacts := acts_actAll (s := s.enter (Service.handler slot) (s.resets == resets) frame)
    (Service.handler slot) now hopen hloops hanswers.mild
  have haccount : (s.enter (Service.handler slot) (s.resets == resets) frame).account =
      ⟨s.task.verified, s.ledger.accepted,
        ((Service.handler slot).onFrame s.state s.task frame).1.echoed⟩ := by
    cases hsame : s.resets == resets <;> rfl
  have hloops' := (congrArg Option.isSome hacts.loops).trans hloops
  rw [handle_of_isOpen hopen]
  dsimp only
  rw [if_neg (by simp [isStranded_of_loops hloops'])]
  refine ⟨hacts.isOpen.trans hopen, hacts.isOpen, hacts.loops, hacts.settings, hacts.resets, ?_, ?_,
    ?_⟩
  · exact (congrArg Service.settings hacts.state).trans hservice
  · intro a ha
    have hcredit := hacts.account
    have hverified := congrArg Account.verified ha
    have hreplies := congrArg Account.replies ha
    rw [haccount, show s.task.verified = a.verified from hverified,
      show s.ledger.accepted = a.replies from hreplies] at hcredit
    exact hcredit.trans (hanswers.account a hverified.symm (congrArg Account.echoes ha).symm)
  · have hone : (∃ f ∈ [frame], Echo.dismisses s.state.settings.token f = true) ↔
        Echo.dismisses s.state.settings.token frame = true := by simp
    rw [hone, ← hanswers.stop]
    exact hacts.stopSignal

/-- The service wants all frames, whatever it answers to those in front. -/
theorem hears_handed {frames : List Bytes} {wants : Bool} {now : Instant} {resets : Nat}
    (hhanded : Handed (handle (Service.handler slot) now resets) s frames t wants)
    (hopen : s.task.isOpen = true) (hloops : s.task.loops.isSome = true)
    (hwhole : ∀ f ∈ frames, Whole s.task.settings.frameLimit f) :
    wants = true ∧ s.Hears frames t := by
  induction hhanded with
  | done s => exact ⟨rfl, rfl, rfl, rfl, rfl, rfl, fun _ ha => ha, by simp⟩
  | @more s s' t frame frames wants hanswer _ ih =>
    obtain ⟨_, hfirst⟩ := hears_handle slot now hopen hloops resets (hwhole frame (by simp))
    rw [hanswer] at hfirst
    obtain ⟨hwants, hrest⟩ := ih (hfirst.isOpen.trans hopen) (by rw [hfirst.loops, hloops])
      fun f hf => by
        rw [hfirst.settings]
        exact hwhole f (by simp [hf])
    refine ⟨hwants, hrest.isOpen.trans hfirst.isOpen, hrest.loops.trans hfirst.loops,
      hrest.settings.trans hfirst.settings, hrest.resets.trans hfirst.resets,
      hrest.service.trans hfirst.service, ?_, ?_⟩
    · intro a ha
      have haccount := hrest.account _ (hfirst.account a ha)
      rwa [hfirst.settings, hfirst.service] at haccount
    · rw [hrest.stopSignal, hfirst.stopSignal, hfirst.service]
      simp [or_assoc]
  | @last s t frame hanswer =>
    obtain ⟨hwants, _⟩ := hears_handle slot now hopen hloops resets (hwhole frame (by simp))
    rw [hanswer] at hwants
    cases hwants

/-- What a move does to the session of a client: it hears these frames. -/
structure Heeds (s : Session Service) (frames : List Bytes) (t : Session Service) : Prop where
  ledger : t.ledger.frames = s.ledger.frames ++ frames
  account : ∀ a, s.account = a.shown → t.account =
    (frames.foldl (Account.hear s.task.settings.frameLimit s.state.settings.token) a).shown
  leaving : s.Leaving ∨ (∃ f ∈ frames, Echo.dismisses s.state.settings.token f = true) → t.Leaving

theorem heeds_nothing (hframes : t.ledger.frames = s.ledger.frames)
    (haccount : t.account = s.account) (hleaving : s.Leaving → t.Leaving) : s.Heeds [] t :=
  ⟨by rw [hframes, List.append_nil], fun _ ha => haccount.trans ha, by simpa using hleaving⟩

/-- The service does nothing about a close but give back the slot. -/
theorem close_eq_shut (slot : Nat) (now : Instant) (hopen : s.task.isOpen = true) :
    s.close (Service.handler slot) now = s.shut (Service.handler slot) :=
  close_of_isOpen (Service.handler slot) now hopen

theorem Heeds.close {frames : List Bytes} (hheeds : s.Heeds frames t) (slot : Nat)
    (now : Instant) : s.Heeds frames (t.close (Service.handler slot) now) := by
  cases hopen : t.task.isOpen with
  | true =>
    rw [close_eq_shut slot now hopen]
    exact ⟨hheeds.ledger, hheeds.account, fun _ => .inl rfl⟩
  | false =>
    rw [close_of_not_isOpen _ hopen]
    exact hheeds

theorem heeds_deliver (hs : s.Placed) {loops : Task.Loops} (hloops : s.task.loops = some loops)
    (slot : Nat) (now : Instant) (arrived : Bytes) (horizon : Horizon) :
    s.Heeds (parse s.task.settings.frameLimit (loops.inbound.unread ++ arrived)).frames
      (s.deliver (Service.handler slot) now arrived horizon) := by
  have hsome : s.task.loops.isSome = true := by rw [hloops]; rfl
  have hopen := hs.isOpen hsome
  obtain ⟨frames, rest, t, wants, hhanded, hall, hwhole, _, hdeliver⟩ :=
    deliver_handed (Service.handler slot) now hloops arrived horizon
  obtain ⟨hwants, hhears⟩ := hears_handed hhanded hopen hsome hwhole
  have hledger : t.ledger.frames = s.ledger.frames ++ frames := by
    rw [((Handles.of_handed hhanded hs hsome).kept hhears.resets).2]
  have hloops' : t.task.loops.isSome = true := by rw [hhears.loops, hsome]
  have hheeds : s.Heeds frames t := by
    refine ⟨hledger, hhears.account, fun hleaves => .inr ⟨hloops', ?_⟩⟩
    rw [hhears.stopSignal]
    rcases hleaves with (hclosed | ⟨_, hstop⟩) | hdismissed
    · rw [hopen] at hclosed
      cases hclosed
    · exact .inl hstop
    · exact .inr hdismissed
  rw [← hall hwants]
  rcases hdeliver with ⟨b, _, hdeliver⟩ | hdeliver
  · rw [hdeliver, if_pos hhears.resets]
    refine ⟨hheeds.ledger, hheeds.account, fun hleaves => ?_⟩
    rcases hheeds.leaving hleaves with hclosed | ⟨_, hstop⟩
    · exact .inl hclosed
    · exact .inr ⟨(Option.isSome_map ..).trans hloops', hstop⟩
  · rw [hdeliver, if_neg (by simp [isStranded_of_loops hloops'])]
    exact hheeds.close slot now

theorem heeds_flush (slot : Nat) (now : Instant) (w : Writer) (s : Session Service) :
    s.Heeds [] (s.flush (Service.handler slot) now w).1 := by
  cases hloops : s.task.loops.isSome with
  | false =>
    rw [flush_of_no_loops (by simpa using hloops)]
    exact heeds_nothing rfl rfl id
  | true =>
    have hverified := (Task.ran_runSendLoop now w s.task).verified
    have haccount : (s.wrote now w).account = s.account :=
      congrArg (Account.mk · s.ledger.accepted s.state.echoed) hverified
    have hwrote : s.Heeds [] (s.wrote now w) :=
      heeds_nothing rfl haccount (leaving_wrote now w)
    rw [flush_of_loops _ now w hloops]
    split
    · exact hwrote.close slot now
    · exact hwrote

theorem heeds_stop (s : Session Service) : s.Heeds [] (s.actQuietly .stop).2 := by
  rcases s.task.stop_cases with ⟨_, hstop⟩ | hstop
  · simp only [actQuietly, hstop]
    exact heeds_nothing rfl rfl fun hs => hs.imp_right fun hleaving => ⟨hleaving.1, rfl⟩
  · simp only [actQuietly, hstop]
    exact heeds_nothing rfl rfl id

end Session

namespace Echo.Client

variable {c : Client}

theorem Sound.heeds_deliver (hc : c.Sound) {loops : Task.Loops}
    (hloops : c.link.session.task.loops = some loops) (now : Instant) (s : Service) :
    (c.link.over s).session.Heeds
      (FrameLink.parse c.link.session.task.settings.frameLimit
        (loops.inbound.unread ++ c.link.peer.post.inFlight)).frames
      (c.moved now .deliver s).session := by
  have hopened := hc.session.placed.opened (by rw [hloops]; rfl)
  have hsession : (c.moved now .deliver s).session =
      (c.link.over s).session.deliver c.handler now c.link.peer.post.inFlight
        (if c.link.peer.ended then .ended else .silent) :=
    (Link.session_deliver c.handler now (c.link.over s)).trans (if_pos hopened)
  rw [hsession]
  exact Session.heeds_deliver (hc.session.over s).placed hloops _ now _ _

theorem Sound.heeds (hc : c.Sound) (now : Instant) (m : Move) (s : Service) :
    ∃ frames, (c.link.over s).session.Heeds frames (c.moved now m s).session := by
  cases m with
  | peer | read => exact ⟨[], Session.heeds_nothing rfl rfl id⟩
  | stop =>
    have hact := Link.act_of_isQuiet c.handler now (c.link.over s) (a := .stop) rfl
    have hsession : (c.moved now .stop s).session = ((c.link.over s).session.actQuietly .stop).2 :=
      congrArg (fun out => out.2.session) hact
    exact ⟨[], hsession ▸ Session.heeds_stop _⟩
  | turn time => exact ⟨[], Session.heeds_flush (c.slot.getD 0) (now + time) _ _⟩
  | deliver =>
    cases hloops : c.link.session.task.loops with
    | some loops => exact ⟨_, hc.heeds_deliver hloops now s⟩
    | none =>
      rw [session_moved_of_no_loops hloops]
      exact ⟨[], Session.heeds_nothing rfl rfl id⟩

end Echo.Client

end FrameLink
