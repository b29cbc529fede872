import FrameLink.Proofs.Task

/-!
# Waking the send loop

A producer queues its bytes and then, in a step of its own, posts the send signal, which a pending
signal absorbs. The send loop takes the signal, drains and writes until there is nothing left,
flushes and waits again. The steps of all of them come in any order. Still no bytes are left behind:
a loop that has flushed finds bytes in the queue only if a signal is pending or is still to be
posted.
-/

namespace FrameLink

/-- Queues bytes, without the signal that `sendBytes` posts behind them. -/
def Task.enqueue (t : Task) (bytes : Bytes) : Task :=
  { t with queue := t.queue.append bytes }

namespace Pump

/-- Where the send loop stands: in front of its next signal, drain, write or flush. -/
inductive Stage
  | waiting
  | draining
  | writing
  | flushing
deriving DecidableEq, Repr

inductive Step
  | push (producer : Nat) (bytes : Bytes)
  | post (producer : Nat)
  | take
  | drain
  | write (count : Nat)
  | flush
deriving DecidableEq, Repr

def Step.bytes : Step → Bytes
  | .push _ bytes => bytes
  | .post _ | .take | .drain | .write _ | .flush => []

end Pump

/-- The send loop of a task among the producers. -/
structure Pump where
  task : Task
  scratch : Buffer
  stage : Pump.Stage
  /-- The producers between their push and their post. -/
  posting : List Nat
  written : Bytes
deriving DecidableEq, Repr

namespace Pump

def ofTask (t : Task) : Pump :=
  ⟨t, Buffer.withCapacity t.settings.bufferSize, .waiting, [], []⟩

def Admits (s : Pump) : Step → Prop
  | .push producer _ => producer ∉ s.posting
  | .post producer => producer ∈ s.posting
  | .take => s.stage = .waiting ∧ s.task.sendSignal = true
  | .drain => s.stage = .draining
  | .write count => s.stage = .writing ∧ 0 < count ∧ count ≤ s.scratch.unread.length
  | .flush => s.stage = .flushing

instance (s : Pump) : DecidablePred s.Admits
  | .push producer _ => inferInstanceAs (Decidable (producer ∉ s.posting))
  | .post producer => inferInstanceAs (Decidable (producer ∈ s.posting))
  | .take => inferInstanceAs (Decidable (_ ∧ _))
  | .drain | .flush => inferInstanceAs (Decidable (s.stage = _))
  | .write _ => inferInstanceAs (Decidable (_ ∧ _))

def act (s : Pump) : Step → Pump
  | .push producer bytes =>
    { s with task := s.task.enqueue bytes, posting := producer :: s.posting }
  | .post producer =>
    { s with task := s.task.signalSend, posting := s.posting.erase producer }
  | .take => { s with task := { s.task with sendSignal := false }, stage := .draining }
  | .drain =>
    let drained := Outbox.drain ⟨s.task.queue, s.scratch⟩
    { s with
      task := { s.task with queue := drained.queue }, scratch := drained.scratch
      stage := if drained.scratch.unread = [] then .flushing else .writing }
  | .write count =>
    { s with
      scratch := s.scratch.consume count, stage := .draining
      written := s.written ++ s.scratch.unread.take count }
  | .flush => { s with stage := .waiting }

def step? (s : Pump) (e : Step) : Option Pump :=
  if s.Admits e then some (s.act e) else none

def run? (s : Pump) (trace : List Step) : Option Pump :=
  trace.foldlM step? s

def pushed (trace : List Step) : Bytes :=
  trace.flatMap Step.bytes

variable {s s' : Pump} {bytes : Bytes}

theorem run?_cons {e : Step} (hadmits : s.Admits e) (trace : List Step) :
    s.run? (e :: trace) = (s.act e).run? trace := by
  rw [run?, List.foldlM_cons, step?, if_pos hadmits]
  rfl

theorem pushed_append (first second : List Step) :
    pushed (first ++ second) = pushed first ++ pushed second :=
  List.flatMap_append

/-! ## What every step keeps -/

/-- What holds of a pump when these bytes have been pushed. -/
structure Sound (s : Pump) (bytes : Bytes) : Prop where
  account : s.written ++ (s.scratch.unread ++ s.task.queue.unread) = bytes
  empty : s.stage = .waiting ∨ s.stage = .flushing → s.scratch.unread = []
  /-- A loop that is done with draining will hear of all that has been queued since. -/
  wakeful : s.stage = .waiting ∨ s.stage = .flushing → s.task.queue.unread ≠ [] →
    s.task.sendSignal = true ∨ s.posting ≠ []

theorem sound_ofTask {t : Task} (ht : t.queue.unread = []) : (ofTask t).Sound [] where
  account := ht
  empty _ := rfl
  wakeful _ hqueue := absurd ht hqueue

theorem Sound.push (hs : s.Sound bytes) (producer : Nat) (more : Bytes) :
    (s.act (.push producer more)).Sound (bytes ++ more) where
  account := by
    simp only [act, Task.enqueue, Buffer.unread_append]
    rw [← hs.account]
    simp only [List.append_assoc]
  empty := hs.empty
  wakeful _ _ := .inr (List.cons_ne_nil producer s.posting)

theorem Sound.drain (hs : s.Sound bytes) : (s.act .drain).Sound bytes := by
  have hqueue : (s.act .drain).task.queue.unread = [] := Outbox.unread_drain _
  have hwaiting : (s.act .drain).scratch.unread ++ (s.act .drain).task.queue.unread =
      s.scratch.unread ++ s.task.queue.unread := Outbox.waiting_drain _
  refine ⟨?_, fun hstage => ?_, fun _ hne => absurd hqueue hne⟩
  · rw [hwaiting]
    exact hs.account
  · -- a scratch buffer with bytes in it is to be written
    by_cases hscratch : (s.act .drain).scratch.unread = []
    · exact hscratch
    · have hwriting : (s.act .drain).stage = .writing := if_neg hscratch
      rw [hwriting] at hstage
      exact hstage.elim nofun nofun

theorem Sound.write (hs : s.Sound bytes) (count : Nat) : (s.act (.write count)).Sound bytes where
  account := by
    simp only [act, Buffer.unread_consume]
    rw [← hs.account]
    conv_rhs => rw [← List.take_append_drop count s.scratch.unread]
    simp only [List.append_assoc]
  empty hstage := hstage.elim nofun nofun
  wakeful hstage := hstage.elim nofun nofun

theorem Sound.act (hs : s.Sound bytes) {e : Step} (hadmits : s.Admits e) :
    (s.act e).Sound (bytes ++ e.bytes) := by
  have hnothing {t : Pump} (ht : t.Sound bytes) : t.Sound (bytes ++ []) := by
    rwa [List.append_nil]
  cases e with
  | push producer more => exact hs.push producer more
  | post => exact hnothing ⟨hs.account, hs.empty, fun _ _ => .inl rfl⟩
  | take =>
    exact hnothing ⟨hs.account, fun hstage => hstage.elim nofun nofun,
      fun hstage => hstage.elim nofun nofun⟩
  | drain => exact hnothing hs.drain
  | write count => exact hnothing (hs.write count)
  | flush =>
    exact hnothing
      ⟨hs.account, fun _ => hs.empty (.inr hadmits), fun _ => hs.wakeful (.inr hadmits)⟩

theorem Sound.run (hs : s.Sound bytes) {trace : List Step} (hrun : s.run? trace = some s') :
    s'.Sound (bytes ++ pushed trace) := by
  induction trace generalizing s bytes with
  | nil =>
    cases hrun
    rw [pushed, List.flatMap_nil, List.append_nil]
    exact hs
  | cons e trace ih =>
    obtain ⟨t, hstep, hrest⟩ := Option.bind_eq_some_iff.mp hrun
    obtain ⟨hadmits, hact⟩ := Option.ite_none_right_eq_some.mp hstep
    cases hact
    rw [pushed, List.flatMap_cons, ← List.append_assoc]
    exact ih (hs.act hadmits) hrest

/-! ## The steps of a task

What `sendBytes` and `writeQueued` do in one go is what the steps of a producer and of the loop do
in a row, with the producers that a write lets in between.
-/

theorem run_push_post {producer : Nat} (hproducer : producer ∉ s.posting) (bytes : Bytes)
    (trace : List Step) :
    s.run? (.push producer bytes :: .post producer :: trace) =
      run? { s with task := s.task.push bytes } trace := by
  have hpush : s.Admits (.push producer bytes) := hproducer
  have hpost : (s.act (.push producer bytes)).Admits (.post producer) := List.mem_cons_self ..
  rw [run?_cons hpush, run?_cons hpost]
  simp [act, Task.enqueue, Task.signalSend, Task.push]

theorem run_sendBytes {producer : Nat} (hproducer : producer ∉ s.posting)
    (hopen : s.task.isOpen = true) (bytes : Bytes) :
    s.run? [.push producer bytes, .post producer] =
      some { s with task := (s.task.sendBytes bytes).2 } := by
  rw [run_push_post hproducer, Task.sendBytes_of_isOpen hopen]
  rfl

/-- A producer sends what these calls queue. -/
def sends (calls : List WriteCall) : List Step :=
  calls.flatMap fun call =>
    if call.queued = [] then [] else [.push 0 call.queued, .post 0]

def sent (t : Task) (calls : List WriteCall) : Task :=
  calls.foldl (fun t call => if call.queued = [] then t else t.push call.queued) t

theorem pushed_sends (calls : List WriteCall) : pushed (sends calls) = incoming calls := by
  induction calls with
  | nil => rfl
  | cons call calls ih =>
    rw [sends, List.flatMap_cons, pushed_append, ← sends, ih, incoming, incoming,
      List.flatMap_cons]
    split_ifs with hnone
    · rw [hnone]
      rfl
    · simp [pushed, Step.bytes]

theorem run_sends (hposting : s.posting = []) (calls : List WriteCall) (trace : List Step) :
    s.run? (sends calls ++ trace) = run? { s with task := sent s.task calls } trace := by
  induction calls generalizing s with
  | nil => rfl
  | cons call calls ih =>
    have hfree : 0 ∉ s.posting := by
      rw [hposting]
      exact List.not_mem_nil
    rw [sends, List.flatMap_cons, ← sends, sent, List.foldl_cons, ← sent]
    split_ifs with hnone
    · exact ih hposting
    · exact (run_push_post hfree call.queued _).trans (ih hposting)

theorem sent_eq (t : Task) (calls : List WriteCall) :
    sent t calls = { t with
      queue := (sent t calls).queue, sendSignal := t.sendSignal || !(incoming calls).isEmpty } := by
  induction calls generalizing t with
  | nil => simp [sent, incoming]
  | cons call calls ih =>
    rw [sent, List.foldl_cons, ← sent, incoming, List.flatMap_cons, ← incoming]
    split_ifs with hnone
    · rw [hnone, List.nil_append]
      exact ih t
    · rw [ih]
      simp [Task.push, hnone]

/-- Before a write takes some of what it is offered, producers send what its calls queue. -/
theorem write_sent {offered taken : Bytes} {t : Task} {w w' : Writer} {queue : Buffer}
    (hwrite : w.write offered t.queue = (.taken taken, queue, w')) :
    ∃ used, w.calls = used ++ w'.calls ∧ (sent t used).queue = queue ∧ taken <+: offered ∧
      w'.taken = w.taken ++ taken := by
  have hqueue (t : Task) (queued : Bytes) :
      (if queued = [] then t else t.push queued).queue = t.queue.append queued := by
    split_ifs with hnone
    · rw [hnone]
      rfl
    · rfl
  obtain ⟨calls, room, flushFailure, writes, flushes⟩ := w
  induction calls generalizing t with
  | nil =>
    match room with
    | none =>
      rw [Writer.write] at hwrite
      cases hwrite
      exact ⟨[], rfl, rfl, List.prefix_rfl, Writer.taken_cons ..⟩
    | some 0 =>
      rw [Writer.write] at hwrite
      cases hwrite
    | some (n + 1) =>
      rw [Writer.write] at hwrite
      cases hwrite
      exact ⟨[], rfl, rfl, List.take_prefix .., Writer.taken_cons ..⟩
  | cons call calls ih =>
    obtain ⟨queued, answer⟩ := call
    rw [Writer.write.eq_def] at hwrite
    cases answer with dsimp only at hwrite
    | failure e => cases hwrite
    | upTo count =>
      cases hwrite
      exact ⟨[⟨queued, .upTo count⟩], rfl, hqueue t queued, List.take_prefix ..,
        Writer.taken_cons ..⟩
    | pending =>
      rw [← hqueue] at hwrite
      obtain ⟨used, hcalls, hsent, hrest⟩ := ih hwrite
      exact ⟨⟨queued, .pending⟩ :: used, congrArg _ hcalls, hsent, hrest⟩

/-- The loop of this task at work on these bytes, with no producer between its push and its post. -/
def working (t : Task) (q : Outbox) (stage : Stage) (written : Bytes) : Pump :=
  ⟨{ t with queue := q.queue }, q.scratch, stage, [], written⟩

theorem run_drain (t : Task) (q : Outbox) (written : Bytes) (trace : List Step) :
    (working t q .draining written).run? (.drain :: trace) =
      (working t q.drain (if q.drain.scratch.unread = [] then .flushing else .writing)
        written).run? trace := by
  have hturn : (working t q .draining written).Admits .drain := rfl
  exact run?_cons hturn trace

/-- Writing everything out is a run of the loop, from its first drain to the flush. -/
theorem run_writeOut (q : Outbox) (w : Writer) (hok : (q.writeOut w).1 = .ok .done) (t : Task)
    (written : Bytes) :
    ∃ used trace taken, w.calls = used ++ (q.writeOut w).2.2.calls ∧ pushed trace = incoming used ∧
      (q.writeOut w).2.2.taken = w.taken ++ taken ∧
      (working t q .draining written).run? trace =
        some (working { t with sendSignal := t.sendSignal || !(incoming used).isEmpty }
          (q.writeOut w).2.1 .waiting (written ++ taken)) := by
  fun_induction Outbox.writeOut q w generalizing t written with
  | case1 q w drained hempty result w' hflush =>
    obtain rfl : w.flush.2 = w' := congrArg Prod.snd hflush
    have hscratch : drained.scratch.unread = [] := List.isEmpty_iff.mp hempty
    have hturn : (working t drained .flushing written).Admits .flush := rfl
    refine ⟨[], [.drain, .flush], [], rfl, rfl, (List.append_nil _).symm, ?_⟩
    rw [run_drain, if_pos hscratch, run?_cons hturn]
    simp [act, working, run?, incoming, drained]
  | case2 q w drained hscratch e queue w' hwrite => cases hok
  | case3 q w drained hscratch queue w' hwrite => cases hok
  | case4 q w drained hscratch queue w' hwrite => cases hok
  | case5 q w drained hscratch x bytes queue w' hwrite ih =>
    have hne : drained.scratch.unread ≠ [] := by simpa using hscratch
    obtain ⟨first, hcalls, hsent, hfront, htaken⟩ :=
      write_sent (t := { t with queue := drained.queue }) hwrite
    have hlength : (x :: bytes).length ≤ drained.scratch.unread.length := hfront.length_le
    have htake : drained.scratch.unread.take (x :: bytes).length = x :: bytes :=
      (List.prefix_iff_eq_take.mp hfront).symm
    let t' : Task := { t with sendSignal := t.sendSignal || !(incoming first).isEmpty }
    have hsends (trace : List Step) :
        (working t drained .writing written).run? (sends first ++ trace) =
          (working t' ⟨queue, drained.scratch⟩ .writing written).run? trace := by
      rw [run_sends rfl, working, sent_eq, hsent]
      rfl
    have hwrites : (working t' ⟨queue, drained.scratch⟩ .writing written).act
        (.write (x :: bytes).length) =
          working t' ⟨queue, drained.scratch.consume (x :: bytes).length⟩ .draining
            (written ++ (x :: bytes)) := by
      simp only [act, working]
      rw [htake]
    obtain ⟨more, rest, taken, hcalls', hpushed, htaken', hrun⟩ :=
      ih hok t' (written ++ (x :: bytes))
    refine ⟨first ++ more, .drain :: (sends first ++ .write (x :: bytes).length :: rest),
      (x :: bytes) ++ taken, ?_, ?_, ?_, ?_⟩
    · rw [hcalls, hcalls', List.append_assoc]
    · rw [incoming_append, ← hpushed, ← pushed_sends]
      simp [pushed, Step.bytes]
    · rw [htaken', htaken, List.append_assoc]
    · have hturn : (working t' ⟨queue, drained.scratch⟩ .writing written).Admits
          (.write (x :: bytes).length) := ⟨rfl, Nat.succ_pos _, hlength⟩
      rw [run_drain, if_neg hne, hsends, run?_cons hturn, hwrites, hrun, List.append_assoc]
      cases hfirst : incoming first <;> simp [working, t', incoming_append, hfirst]

/-- A woken send loop that neither fails nor has to wait for its stream takes its signal and runs
till it waits again. A signal is pending then just if a producer has come in between. -/
theorem run_writeQueued {t : Task} {loops : Task.Loops} {w : Writer}
    (hloops : t.loops = some loops) (hsignal : t.sendSignal = true)
    (hdone : (t.writeQueued w).1 = .ok .done) :
    ∃ used trace loops' written, w.calls = used ++ (t.writeQueued w).2.2.calls ∧
      pushed trace = incoming used ∧ (t.writeQueued w).2.2.taken = w.taken ++ written ∧
      (t.writeQueued w).2.1.loops = some loops' ∧
      run? { ofTask t with scratch := loops.scratch } (.take :: trace) =
        some ⟨{ (t.writeQueued w).2.1 with
          sendSignal := !(incoming used).isEmpty, loops := some loops }, loops'.scratch,
          .waiting, [], written⟩ := by
  have hturn : Admits { ofTask t with scratch := loops.scratch } .take := ⟨rfl, hsignal⟩
  have hwoken : Task.loops { t with sendSignal := false } = some loops := hloops
  rw [Task.writeQueued, if_pos hsignal, Task.writeBy, hwoken] at hdone ⊢
  obtain ⟨used, trace, taken, hcalls, hpushed, htaken, hrun⟩ :=
    run_writeOut ⟨t.queue, loops.scratch⟩ w hdone { t with sendSignal := false } []
  refine ⟨used, trace, _, taken, hcalls, hpushed, htaken, rfl, ?_⟩
  rw [run?_cons hturn]
  simp only [working, hloops] at hrun
  simp only [act, ofTask, hloops]
  exact hrun

/-- No wake-up is lost: where the loop waits and neither a signal nor a producer can wake it any
more, every byte that was ever pushed has been written, in the order of the pushes. -/
theorem written_of_waiting {t : Task} (ht : t.queue.unread = []) {trace : List Step}
    (hrun : (ofTask t).run? trace = some s) (hwaits : s.stage = .waiting)
    (hsignal : s.task.sendSignal = false) (hposting : s.posting = []) :
    s.task.queue.unread = [] ∧ s.scratch.unread = [] ∧ s.written = pushed trace := by
  have hs : s.Sound (pushed trace) := (sound_ofTask ht).run hrun
  have hscratch := hs.empty (.inl hwaits)
  have hqueue : s.task.queue.unread = [] := by
    by_contra hne
    rcases hs.wakeful (.inl hwaits) hne with hpending | hlater
    · rw [hsignal] at hpending
      cases hpending
    · exact hlater hposting
  have haccount := hs.account
  rw [hscratch, hqueue, List.append_nil, List.append_nil] at haccount
  exact ⟨hqueue, hscratch, haccount⟩

/-- Three producers between two waits: the second posts for the first, and the signal of the first
absorbs that of the third. -/
def threeProducers : List Step :=
  [.push 1 [1, 2, 3], .push 2 [4], .post 2, .take, .drain, .write 1, .push 3 [5], .post 1, .drain,
    .write 4, .post 3, .drain, .flush, .take, .drain, .flush]

theorem written_threeProducers :
    ∃ s, (ofTask (.ofSettings ⟨64, 1000, 2⟩)).run? threeProducers = some s ∧
      s.task.queue.unread = [] ∧ s.scratch.unread = [] ∧ s.written = [1, 2, 3, 4, 5] := by
  have hend : ((ofTask (.ofSettings ⟨64, 1000, 2⟩)).run? threeProducers).any (fun s =>
      s.stage = .waiting ∧ s.task.sendSignal = false ∧ s.posting = []) = true := by decide
  obtain ⟨s, hrun, hs⟩ := Option.any_eq_true .. |>.mp hend
  obtain ⟨hwaits, hsignal, hposting⟩ := of_decide_eq_true hs
  exact ⟨s, hrun, written_of_waiting rfl hrun hwaits hsignal hposting⟩

end Pump

end FrameLink
