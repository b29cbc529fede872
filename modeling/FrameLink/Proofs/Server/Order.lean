import FrameLink.Proofs.Server.History

/-!
# The order of hooks

Every run has a history, whose marks are its trace and which leads to its flags. It is orderly:
`init` comes first, then rounds of an optional reload and one call of the loop, then `finalize`.

What the hooks of a service do in one run is a script, whatever they decide it by. So what holds of
every script holds of every service.
-/

namespace FrameLink.Server

/-- What a hook requests before it ends. -/
def Hook.requests : List Effect → List Request
  | [] | .panic :: _ => []
  | .request r :: effects => r :: requests effects
  | .signal s :: effects => s.request?.toList ++ requests effects

theorem Signal.request?_eq_reload {s : Signal} : s.request? = some .reload ↔ s = .hangup := by
  cases s <;> simp [Signal.request?]

theorem Signal.request?_eq_close {s : Signal} :
    s.request? = some .close ↔ s ≠ .hangup ∧ s ≠ .pipe := by
  cases s <;> simp [Signal.request?]

/-! ## The history of a run -/

namespace State

def passing (arrivals : Arrivals) (s : State) : List Event :=
  ((arrivals s.moment).filterMap Arrival.request?).map .asked

theorem asked_mem_passing {arrivals : Arrivals} {s : State} {r : Request} :
    .asked r ∈ s.passing arrivals ↔ .request r ∈ arrivals s.moment ∨
      ∃ signal, .signal signal ∈ arrivals s.moment ∧ signal.request? = some r := by
  simp only [passing, List.mem_map, List.mem_filterMap, Event.asked.injEq, exists_eq_right]
  constructor
  · rintro ⟨r' | signal, harrived, hrequest⟩
    · cases hrequest
      exact .inl harrived
    · exact .inr ⟨signal, harrived, hrequest⟩
  · rintro (hcalled | ⟨signal, hraised, hrequest⟩)
    · exact ⟨.request r, hcalled, rfl⟩
    · exact ⟨.signal signal, hraised, hrequest⟩

/-- Between hooks, a reload is asked for by a call of the handle or by a hangup, and the close by a
call or by any signal but a hangup and a broken pipe. -/
theorem asked_passing (arrivals : Arrivals) (s : State) :
    (.asked .reload ∈ s.passing arrivals ↔
        .request .reload ∈ arrivals s.moment ∨ .signal .hangup ∈ arrivals s.moment) ∧
      (.asked .close ∈ s.passing arrivals ↔ .request .close ∈ arrivals s.moment ∨
        ∃ signal, .signal signal ∈ arrivals s.moment ∧ signal ≠ .hangup ∧ signal ≠ .pipe) := by
  simp [asked_mem_passing, Signal.request?_eq_reload, Signal.request?_eq_close]

def calling (arrivals : Arrivals) (name : HookName) (hook : Hook) (s : State) : List Event :=
  s.passing arrivals ++ .called (.started name (s.pass arrivals).flags) ::
    ((Hook.requests hook.effects).map .asked ++ [.ended name (s.call arrivals name hook).2])

/-- A request to reload has been taken. -/
def served (s : State) : State :=
  { s with flags := { s.flags with reload := false } }

def serving (arrivals : Arrivals) (reloads : List Hook) (s : State) : List Event :=
  s.passing arrivals ++ .took (s.pass arrivals).flags.reload ::
    if (s.pass arrivals).flags.reload then
      (s.pass arrivals).served.calling arrivals .reload (reloads.headD ⟨[], true⟩)
    else []

/-- The loop was called with no hook left for it. -/
def exhaust (arrivals : Arrivals) (s : State) : State :=
  let s := s.pass arrivals
  { s with flags := s.flags.note .close, trace := .exhausted :: s.trace }

def iterating (arrivals : Arrivals) (loops reloads : List Hook) (s : State) : List Event :=
  s.passing arrivals ++ .looked (s.pass arrivals).flags.closed ::
    if (s.pass arrivals).flags.closed then []
    else (s.pass arrivals).serving arrivals reloads ++
      match (s.pass arrivals).serveReload arrivals reloads with
      | (_, none) => []
      | (s, some reloads) =>
        match loops with
        | [] =>
          s.passing arrivals ++
            [.called .exhausted, .asked .close, .ended .loop (some true), .looked true]
        | hook :: loops =>
          s.calling arrivals .loop hook ++
            match s.call arrivals .loop hook with
            | (_, none) => []
            | (s, some _) => iterating arrivals loops reloads s

end State

/-- All events of `run`, in the order of time. -/
def history (arrivals : Arrivals) (script : Script) (flags : Flags) : List Event :=
  let begun : State := ⟨flags, 0, []⟩
  let s := (begun.call arrivals .init script.init).1
  begun.calling arrivals .init script.init ++
    if (begun.call arrivals .init script.init).2 = some true then
      s.iterating arrivals script.loops script.reloads ++
        (s.iterate arrivals script.loops script.reloads).1.calling arrivals .finalize
          script.finalize
    else s.calling arrivals .finalize script.finalize

/-! ## Every history is orderly -/

/-- An orderly past has led to this state, and this comes next. -/
structure Reached (f : Flags) (past : List Event) (s : State) (d : Due) : Prop where
  flags : s.flags = f.after past
  trace : s.trace.reverse = past.filterMap Event.mark?
  due : due (latest past) = d
  orderly : Orderly f past

variable {f : Flags} {past : List Event} {s t : State} {d : Due} {arrivals : Arrivals}

theorem Reached.event (h : Reached f past s d) {e : Event} (he : Follows f past e)
    (hrequest : e.isRequest = false) (hflags : t.flags = s.flags.record e)
    (htrace : t.trace.reverse = s.trace.reverse ++ [e].filterMap Event.mark?) :
    Reached f (past ++ [e]) t (Server.due (some e)) where
  flags := by rw [hflags, h.flags, Flags.after_concat]
  trace := by rw [htrace, h.trace, List.filterMap_append]
  due := by rw [latest_concat past hrequest]
  orderly := h.orderly.concat he

theorem Reached.requests (h : Reached f past s d) (requests : List Request) (moment : Nat) :
    Reached f (past ++ requests.map .asked)
      { s with flags := requests.foldl Flags.note s.flags, moment } d := by
  induction requests generalizing past s with
  | nil =>
    rw [List.map_nil, List.append_nil]
    exact ⟨h.flags, h.trace, h.due, h.orderly⟩
  | cons r requests ih =>
    have hnext : Reached f (past ++ [.asked r]) { s with flags := s.flags.note r } d :=
      ⟨by rw [Flags.after_concat, ← h.flags]; rfl,
        by rw [List.filterMap_append]; exact h.trace.trans (List.append_nil _).symm,
        by rw [latest_concat_asked, h.due], h.orderly.concat trivial⟩
    simpa using ih hnext

theorem Reached.pass (h : Reached f past s d) (arrivals : Arrivals) :
    Reached f (past ++ s.passing arrivals) (s.pass arrivals) d :=
  h.requests ((arrivals s.moment).filterMap Arrival.request?) (s.moment + 1)

theorem Hook.run_fst (result : Bool) (f : Flags) (effects : List Effect) :
    (Hook.run result f effects).1 = (Hook.requests effects).foldl Flags.note f := by
  induction effects generalizing f with
  | nil => rfl
  | cons effect effects ih =>
    match effect with
    | .panic => rfl
    | .request r => exact ih _
    | .signal s =>
      rw [Hook.run, ih, Hook.requests, List.foldl_append]
      cases s <;> rfl

theorem Reached.call {name : HookName} (h : Reached f past s (.call name)) (arrivals : Arrivals)
    (hook : Hook) :
    Reached f (past ++ s.calling arrivals name hook) (s.call arrivals name hook).1
      (Server.due (some (.ended name (s.call arrivals name hook).2))) := by
  have hpass := h.pass arrivals
  have hcalled : Reached f (past ++ s.passing arrivals ++
      [.called (.started name (s.pass arrivals).flags)])
      { s.pass arrivals with
        trace := .started name (s.pass arrivals).flags :: (s.pass arrivals).trace }
      (.finish name) :=
    hpass.event ⟨hpass.due, .inl (by rw [hpass.flags]; rfl)⟩ rfl rfl (by simp [Event.mark?])
  have hasked := hcalled.requests (Hook.requests hook.effects) (s.pass arrivals).moment
  have hended := hasked.event (e := .ended name (s.call arrivals name hook).2)
    (t := (s.call arrivals name hook).1) hasked.due rfl (Hook.run_fst ..)
    (List.append_nil _).symm
  simpa [State.calling] using hended

theorem serveReload_eq (arrivals : Arrivals) (reloads : List Hook) (s : State) :
    s.serveReload arrivals reloads =
      if (s.pass arrivals).flags.reload then
        let out := (s.pass arrivals).served.call arrivals .reload (reloads.headD ⟨[], true⟩)
        (out.1, out.2.map fun _ => reloads.tail)
      else (s.pass arrivals, some reloads) := by
  cases reloads <;> rfl

/-- Where the reload panicked, `finalize` is next, and else the loop. -/
theorem Reached.serveReload (h : Reached f past s .take) {reloads : List Hook}
    {left : Option (List Hook)} (hserve : s.serveReload arrivals reloads = (t, left)) :
    Reached f (past ++ s.serving arrivals reloads) t
      (if left.isSome then .call .loop else .call .finalize) := by
  have hpass := h.pass arrivals
  have hfound : Follows f (past ++ s.passing arrivals) (.took (s.pass arrivals).flags.reload) :=
    ⟨hpass.due, by rw [hpass.flags, reload_after]⟩
  rw [serveReload_eq] at hserve
  rw [State.serving]
  cases hreload : (s.pass arrivals).flags.reload with
  | false =>
    rw [hreload] at hserve hfound
    cases hserve
    have htook : Reached f (past ++ s.passing arrivals ++ [.took false]) (s.pass arrivals)
        (.call .loop) := hpass.event hfound rfl rfl (List.append_nil _).symm
    simpa using htook
  | true =>
    rw [hreload] at hserve hfound
    have htook : Reached f (past ++ s.passing arrivals ++ [.took true]) (s.pass arrivals).served
        (.call .reload) := hpass.event hfound rfl rfl (List.append_nil _).symm
    have hcall := htook.call arrivals (reloads.headD ⟨[], true⟩)
    generalize (s.pass arrivals).served.call arrivals .reload (reloads.headD ⟨[], true⟩) = out
      at hcall hserve
    obtain ⟨u, _ | result⟩ := out <;> cases hserve <;> simpa [Server.due] using hcall

theorem Reached.look (h : Reached f past s .look) (arrivals : Arrivals) {closed : Bool}
    (hclosed : (s.pass arrivals).flags.closed = closed) :
    Reached f (past ++ s.passing arrivals ++ [.looked closed]) (s.pass arrivals)
      (if closed then .call .finalize else .take) := by
  have hpass := h.pass arrivals
  have hfollows : Follows f (past ++ s.passing arrivals) (.looked closed) :=
    ⟨hpass.due, by rw [← hclosed, hpass.flags, closed_after]⟩
  have hlooked := hpass.event (t := s.pass arrivals) hfollows rfl rfl (List.append_nil _).symm
  cases closed <;> exact hlooked

theorem Reached.exhaust (h : Reached f past s (.call .loop)) (arrivals : Arrivals) :
    Reached f (past ++ s.passing arrivals ++
        [.called .exhausted, .asked .close, .ended .loop (some true), .looked true])
      (s.exhaust arrivals) (.call .finalize) := by
  have hpass := h.pass arrivals
  have hcalled : Reached f (past ++ s.passing arrivals ++ [.called .exhausted])
      { s.pass arrivals with trace := .exhausted :: (s.pass arrivals).trace } (.finish .loop) :=
    hpass.event ⟨hpass.due, .inr rfl⟩ rfl rfl (by simp [Event.mark?])
  have hasked := hcalled.requests [.close] (s.pass arrivals).moment
  have hended := hasked.event (e := .ended .loop (some true)) (t := s.exhaust arrivals) hasked.due
    rfl rfl (List.append_nil _).symm
  have hlooked := hended.event (e := .looked true) (t := s.exhaust arrivals)
    ⟨hended.due, iff_of_true rfl (.inr (by simp))⟩ rfl rfl (List.append_nil _).symm
  simpa [Server.due] using hlooked

def names (events : List Event) : List HookName :=
  (events.filterMap Event.mark?).map Mark.name

/-- A reload that closes the server is still followed by the loop, and one that is requested by the
last loop is never served. -/
example : (run (fun _ => [])
    ⟨⟨[], true⟩, [⟨[.signal .hangup], true⟩, ⟨[], true⟩], [⟨[.request .close], true⟩], ⟨[], true⟩⟩
    ⟨false, true⟩).2 =
      ⟨⟨true, true⟩, 7, [.started .finalize ⟨true, true⟩, .started .loop ⟨true, false⟩,
        .started .reload ⟨false, false⟩, .started .init ⟨false, true⟩]⟩ := by
  decide +kernel

end FrameLink.Server
