import FrameLink.Proofs.Waking

/-!
# Stopping the send loop

The send loop looks for a send signal first. Only if there is none it looks for a stop, in a step of
its own. A stop that it finds then is behind all that was posted before it looked for a send signal.
What is posted between the two looks comes too late: a stop behind it overtakes it.

The signals and the queue are synchronized, so the steps of the loop and of its callers are in one
order that all of them see. When the loop gets its turns is left open.
-/

namespace FrameLink

def Pump.Step.isTurn : Pump.Step → Bool
  | .push _ _ | .post _ => false
  | .take | .drain | .write _ | .flush => true

namespace Select

inductive Step
  | pump (step : Pump.Step)
  /-- A caller asks the loop to stop. -/
  | stop
  /-- The loop looks for a send signal, and finds none. -/
  | pass
  /-- The loop looks for a stop. -/
  | look
deriving DecidableEq, Repr

def Step.isCall : Step → Bool
  | .pump e => !e.isTurn
  | .stop => true
  | .pass | .look => false

def pushed (trace : List Step) : Bytes :=
  trace.flatMap fun
    | .pump e => e.bytes
    | .stop | .pass | .look => []

end Select

/-- The send loop of a task that can be stopped. -/
structure Select where
  pump : Pump
  /-- Whether the loop has found no send signal, and has not looked for a stop since. -/
  passed : Bool
  ended : Bool
deriving DecidableEq, Repr

namespace Select

def ofTask (t : Task) : Select :=
  ⟨.ofTask t, false, false⟩

def Admits (s : Select) : Step → Prop
  | .pump e => (e.isTurn = true → s.passed = false ∧ s.ended = false) ∧ s.pump.Admits e
  | .stop => s.pump.task.stop.1 = true
  | .pass => s.passed = false ∧ s.ended = false ∧ s.pump.stage = .waiting ∧
      s.pump.task.sendSignal = false
  | .look => s.passed = true

instance (s : Select) : DecidablePred s.Admits
  | .pump _ | .pass => inferInstanceAs (Decidable (_ ∧ _))
  | .stop | .look => inferInstanceAs (Decidable (_ = true))

def act (s : Select) : Step → Select
  | .pump e => { s with pump := s.pump.act e }
  | .stop => { s with pump := { s.pump with task := s.pump.task.stop.2 } }
  | .pass => { s with passed := true }
  | .look => { s with passed := false, ended := s.pump.task.stopSignal }

def step? (s : Select) (e : Step) : Option Select :=
  if s.Admits e then some (s.act e) else none

def run? (s : Select) (trace : List Step) : Option Select :=
  trace.foldlM step? s

variable {s s' : Select} {bytes : Bytes} {trace : List Step}

theorem run?_cons_eq_some {e : Step} :
    s.run? (e :: trace) = some s' ↔ s.Admits e ∧ (s.act e).run? trace = some s' := by
  rw [run?, List.foldlM_cons, step?]
  split_ifs with hadmits
  · exact ⟨fun hrun => ⟨hadmits, hrun⟩, And.right⟩
  · exact ⟨nofun, fun hrun => absurd hrun.1 hadmits⟩

theorem run?_append_eq_some {first second : List Step} :
    s.run? (first ++ second) = some s' ↔
      ∃ r, s.run? first = some r ∧ r.run? second = some s' := by
  rw [run?, List.foldlM_append]
  exact Option.bind_eq_some_iff

theorem run?_concat_eq_some {e : Step} :
    s.run? (trace ++ [e]) = some s' ↔
      ∃ r, s.run? trace = some r ∧ r.Admits e ∧ r.act e = s' := by
  rw [run?_append_eq_some]
  refine exists_congr fun r => and_congr_right fun _ => ?_
  rw [run?_cons_eq_some]
  exact and_congr_right fun _ => Option.some_inj

theorem pushed_append (first second : List Step) :
    pushed (first ++ second) = pushed first ++ pushed second :=
  List.flatMap_append

/-! ## What the loop has heard of -/

theorem sound_act (hs : s.pump.Sound bytes) {e : Step} (hadmits : s.Admits e) :
    (s.act e).pump.Sound (bytes ++ pushed [e]) := by
  have hnothing {r : Pump} (hr : r.Sound bytes) : r.Sound (bytes ++ []) := by
    rwa [List.append_nil]
  cases e with
  | pump e =>
    rw [pushed, List.flatMap_singleton]
    exact hs.act hadmits.2
  | pass | look => exact hnothing hs
  | stop =>
    refine hnothing ?_
    rw [act]
    rcases s.pump.task.stop_cases with ⟨_, hstop⟩ | hstop
    · rw [hstop]
      exact ⟨hs.account, hs.empty, hs.wakeful⟩
    · rw [hstop]
      exact hs

theorem sound_run (hs : s.pump.Sound bytes) (hrun : s.run? trace = some s') :
    s'.pump.Sound (bytes ++ pushed trace) := by
  induction trace generalizing s bytes with
  | nil =>
    cases hrun
    rwa [pushed, List.flatMap_nil, List.append_nil]
  | cons e trace ih =>
    obtain ⟨hadmits, hrest⟩ := run?_cons_eq_some.mp hrun
    have hsound := ih (sound_act hs hadmits) hrest
    rwa [List.append_assoc, ← pushed_append] at hsound

/-- The loop has drained these bytes, or will before it waits again. -/
def Told (s : Pump) (heard : Bytes) : Prop :=
  s.task.sendSignal = true ∨ s.stage = .draining ∨ heard <+: s.written ++ s.scratch.unread

theorem Told.pump {s : Pump} {heard : Bytes} (htold : Told s heard) (hs : s.Sound bytes)
    (hheard : heard <+: bytes) {e : Pump.Step} (hadmits : s.Admits e) : Told (s.act e) heard := by
  cases e with
  | push => exact htold
  | post => exact .inl rfl
  | take | write => exact .inr (.inl rfl)
  | drain =>
    -- nothing that was pushed is in the queue any more
    have hdrained := hs.drain
    have hqueue : (s.act .drain).task.queue.unread = [] := Outbox.unread_drain _
    have haccount := hdrained.account
    rw [hqueue, List.append_nil] at haccount
    exact .inr (.inr (haccount ▸ hheard))
  | flush =>
    rcases htold with hsignal | hdraining | hheard
    · exact .inl hsignal
    · have hflushing : s.stage = .flushing := hadmits
      rw [hdraining] at hflushing
      cases hflushing
    · exact .inr (.inr hheard)

theorem Told.run {heard : Bytes} (htold : Told s.pump heard) (hs : s.pump.Sound bytes)
    (hheard : heard <+: bytes) (hrun : s.run? trace = some s') : Told s'.pump heard := by
  induction trace generalizing s bytes with
  | nil =>
    cases hrun
    exact htold
  | cons e trace ih =>
    obtain ⟨hadmits, hrest⟩ := run?_cons_eq_some.mp hrun
    have hnext : Told (s.act e).pump heard := by
      cases e with
      | pump e => exact htold.pump hs hheard hadmits.2
      | pass | look => exact htold
      | stop =>
        rw [act]
        rcases s.pump.task.stop_cases with ⟨_, hstop⟩ | hstop
        · rw [hstop]
          exact htold
        · rwa [hstop]
    exact ih hnext (sound_act hs hadmits) (hheard.trans (List.prefix_append ..)) hrest

/-- Where the loop finds no send signal, all that was queued before any post is written. -/
theorem written_of_pass {t : Task} (ht : t.queue.unread = [])
    {first rest : List Step} {producer : Nat}
    (hrun : (ofTask t).run? (first ++ .pump (.post producer) :: rest) = some s)
    (hpass : s.Admits .pass) : pushed first <+: s.pump.written := by
  obtain ⟨_, _, hwaits, hsignal⟩ := hpass
  obtain ⟨r, hfirst, hlater⟩ := run?_append_eq_some.mp hrun
  obtain ⟨hpost, hrest⟩ := run?_cons_eq_some.mp hlater
  have hr : r.pump.Sound (pushed first) := sound_run (Pump.sound_ofTask ht) hfirst
  have hposted := sound_act hr hpost
  have htold : Told s.pump (pushed first) :=
    Told.run (.inl rfl) hposted (List.prefix_append ..) hrest
  have hscratch := (sound_run hposted hrest).empty (.inl hwaits)
  rcases htold with hpending | hdraining | hheard
  · rw [hsignal] at hpending
    cases hpending
  · rw [hwaits] at hdraining
    cases hdraining
  · rwa [hscratch, List.append_nil] at hheard

/-! ## Where the loop ends -/

theorem written_of_isCall {e : Step} (hcall : e.isCall = true) :
    (s.act e).pump.written = s.pump.written := by
  cases e with
  | pump e =>
    cases e with
    | push | post => rfl
    | take | drain | write | flush => cases hcall
  | stop => rfl
  | pass | look => cases hcall

theorem isCall_of_admits_pump {e : Pump.Step} (hadmits : s.Admits (.pump e))
    (haway : s.passed = true ∨ s.ended = true) : (Step.pump e).isCall = true := by
  cases hturn : e.isTurn with
  | false => simp [Step.isCall, hturn]
  | true =>
    obtain ⟨hpassed, hended⟩ := hadmits.1 hturn
    rw [hpassed, hended] at haway
    exact haway.elim nofun nofun

/-- A loop that has found no send signal found none where it looked last. Since then there were only
calls. -/
theorem exists_pass {start : Select} (hstart : start.passed = false)
    (hrun : start.run? trace = some s) (hpassed : s.passed = true) :
    ∃ before between r, trace = before ++ .pass :: between ∧
      (∀ e ∈ between, e.isCall = true) ∧ start.run? before = some r ∧ r.Admits .pass ∧
      s.pump.written = r.pump.written := by
  induction trace using List.reverseRecOn generalizing s with
  | nil =>
    cases hrun
    rw [hstart] at hpassed
    cases hpassed
  | append_singleton trace e ih =>
    obtain ⟨q, hq, hadmits, rfl⟩ := run?_concat_eq_some.mp hrun
    -- a call goes behind what is there already
    have hbehind (hcall : e.isCall = true) (hbefore : q.passed = true) :
        ∃ before between r, trace ++ [e] = before ++ .pass :: between ∧
          (∀ e ∈ between, e.isCall = true) ∧ start.run? before = some r ∧ r.Admits .pass ∧
          (q.act e).pump.written = r.pump.written := by
      obtain ⟨before, between, r, rfl, hcalls, hr, hpass, hwritten⟩ := ih hq hbefore
      refine ⟨before, between ++ [e], r, by simp, ?_, hr, hpass,
        (written_of_isCall hcall).trans hwritten⟩
      simpa [or_imp, forall_and, hcall] using hcalls
    cases e with
    | pump e => exact hbehind (isCall_of_admits_pump hadmits (.inl hpassed)) hpassed
    | stop => exact hbehind rfl hpassed
    | pass => exact ⟨trace, [], q, rfl, nofun, hq, hadmits, rfl⟩
    | look => cases hpassed

/-- A loop that has ended found no send signal where it looked last, and then a stop. Apart from the
two looks there were only calls from there on. -/
theorem exists_look {start : Select} (hpassed : start.passed = false)
    (hstart : start.ended = false) (hrun : start.run? trace = some s) (hended : s.ended = true) :
    ∃ before between after r, trace = before ++ .pass :: (between ++ .look :: after) ∧
      (∀ e ∈ between ++ after, e.isCall = true) ∧ start.run? before = some r ∧ r.Admits .pass ∧
      s.pump.written = r.pump.written := by
  induction trace using List.reverseRecOn generalizing s with
  | nil =>
    cases hrun
    rw [hstart] at hended
    cases hended
  | append_singleton trace e ih =>
    obtain ⟨q, hq, hadmits, rfl⟩ := run?_concat_eq_some.mp hrun
    have hbehind (hcall : e.isCall = true) (hbefore : q.ended = true) :
        ∃ before between after r, trace ++ [e] = before ++ .pass :: (between ++ .look :: after) ∧
          (∀ e ∈ between ++ after, e.isCall = true) ∧ start.run? before = some r ∧
          r.Admits .pass ∧ (q.act e).pump.written = r.pump.written := by
      obtain ⟨before, between, after, r, rfl, hcalls, hr, hpass, hwritten⟩ := ih hq hbefore
      refine ⟨before, between, after ++ [e], r, by simp, ?_, hr, hpass,
        (written_of_isCall hcall).trans hwritten⟩
      rw [← List.append_assoc]
      exact List.forall_mem_append.mpr ⟨hcalls, by simpa using hcall⟩
    cases e with
    | pump e => exact hbehind (isCall_of_admits_pump hadmits (.inr hended)) hended
    | stop => exact hbehind rfl hended
    | pass =>
      have hbefore : q.ended = false := hadmits.2.1
      have hsame : q.ended = true := hended
      rw [hbefore] at hsame
      cases hsame
    | look =>
      obtain ⟨before, between, r, rfl, hcalls, hr, hpass, hwritten⟩ :=
        exists_pass hpassed hq hadmits
      exact ⟨before, between, [], r, by simp, by simpa using hcalls, hr, hpass, hwritten⟩

/-- A loop that is not disturbed between its looks does in them what a turn of the send loop does
that finds nothing to write. -/
theorem run_pass_look {t : Task} (hsignal : t.sendSignal = false) (hidle : t.isWriting = false)
    (now : Instant) (w : Writer) :
    ∃ s, (ofTask t).run? [.pass, .look] = some s ∧ s.pump = .ofTask t ∧
      (s.ended = true ↔ (t.runSendLoop now w).1 = some .stopped) := by
  refine ⟨⟨.ofTask t, false, t.stopSignal⟩, ?_, rfl, ?_⟩
  · have hpass : (ofTask t).Admits .pass := ⟨rfl, rfl, rfl, hsignal⟩
    exact run?_cons_eq_some.mpr ⟨hpass, run?_cons_eq_some.mpr ⟨rfl, rfl⟩⟩
  · have hnothing : t.writeAll w = (.ok .done, t, w) := by
      rw [Task.writeAll_of_idle hidle, Task.writeQueued, if_neg (by simp [hsignal])]
    rw [Task.runSendLoop_of_done (congrArg Prod.fst hnothing)]
    split_ifs with hstop hdue hverified <;> simp [hstop]

/-- A stop does not overtake what was posted before the loop looked for a send signal the last time:
all that was queued before such a post is written when the loop has ended. So bytes can be left
behind only if their post fell between the two looks of the loop, or came after its end. -/
theorem written_of_ended {t : Task} (ht : t.queue.unread = [])
    (hrun : (ofTask t).run? trace = some s) (hended : s.ended = true) :
    ∃ before between after, trace = before ++ .pass :: (between ++ .look :: after) ∧
      (∀ e ∈ between ++ after, e.isCall = true) ∧
      ∀ first producer rest, before = first ++ .pump (.post producer) :: rest →
        pushed first <+: s.pump.written := by
  obtain ⟨before, between, after, r, htrace, hcalls, hr, hpass, hwritten⟩ :=
    exists_look rfl rfl hrun hended
  refine ⟨before, between, after, htrace, hcalls, fun first producer rest hsplit => ?_⟩
  rw [hwritten]
  exact written_of_pass ht (hsplit ▸ hr) hpass

/-- A task that was started, with chunks of two bytes. -/
def started : Task :=
  ((Task.ofSettings ⟨64, 1000, 2⟩).start 0).2

/-- A caller queues a byte, posts and asks for a stop before the loop looks for the first time. -/
def inTime : List Step :=
  [.pump (.push 1 [7]), .pump (.post 1), .stop, .pump .take, .pump .drain, .pump (.write 1),
    .pump .drain, .pump .flush, .pass, .look]

theorem written_inTime :
    ∃ s, (ofTask started).run? inTime = some s ∧ s.ended = true ∧
      ∃ before between after, inTime = before ++ .pass :: (between ++ .look :: after) ∧
        ∀ first producer rest, before = first ++ .pump (.post producer) :: rest →
          pushed first <+: s.pump.written := by
  have hend : ((ofTask started).run? inTime).any Select.ended = true := by decide
  obtain ⟨s, hrun, hended⟩ := Option.any_eq_true .. |>.mp hend
  obtain ⟨before, between, after, htrace, _, hwritten⟩ :=
    written_of_ended (t := started) rfl hrun hended
  exact ⟨s, hrun, hended, before, between, after, htrace, hwritten⟩

/-- A caller does the same between the two looks of the loop. -/
def betweenLooks : List Step :=
  [.pass, .pump (.push 1 [7]), .pump (.post 1), .stop, .look]

/-- The byte was accepted and so was the stop, yet the loop has ended and the byte is still queued:
the stop has overtaken it. -/
theorem overtaken_betweenLooks :
    ∃ s, (ofTask started).run? betweenLooks = some s ∧ s.ended = true ∧
      s.pump.task.isOpen = true ∧ s.pump.posting = [] ∧ s.pump.task.queue.unread = [7] ∧
      s.pump.written = [] := by
  refine ⟨_, rfl, ?_⟩
  decide

end Select

end FrameLink
