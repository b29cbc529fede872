import FrameLink.Proofs.Task
import FrameLink.Proofs.Stream.Receiving

/-!
# Frames from one task to the other

A sender is an open task whose send loop is run by hand: frames are offered to it, also while the
loop waits for the stream, and what the loop writes is collected. The bytes written and the bytes
waiting are at all times those of the frames accepted. So whoever receives all of them, in whatever
pieces, gets the accepted frames.
-/

namespace FrameLink

inductive Dispatch
  | offer (frame : Frame)
  /-- The send loop writes to a stream that gives these answers. Some frames are offered while the
  loop waits for each of them. -/
  | write (answers : List (List Frame × Acceptance))
deriving DecidableEq, Repr

def Dispatch.frames : Dispatch → List Frame
  | .offer frame => [frame]
  | .write answers => answers.flatMap Prod.fst

structure Sender where
  task : Task
  scratch : Buffer
  wire : Bytes
  /-- The frames offered, and whether each was accepted, in order. -/
  offers : List (Frame × Bool)
deriving DecidableEq, Repr

namespace Sender

def ofTask (task : Task) (scratch : Buffer) : Sender :=
  ⟨task, scratch, [], []⟩

def accepted (offers : List (Frame × Bool)) : List Bytes :=
  (offers.filter Prod.snd).map fun o => o.1.toBytes

def offer (s : Sender) (frame : Frame) : Sender :=
  let (accepted, task) := s.task.sendFrame frame
  { s with task, offers := s.offers ++ [(frame, accepted)] }

/-- What a task answers to frames that are offered while its send loop is running. -/
def answered (t : Task) (frames : List Frame) : List (Frame × Bool) :=
  frames.map fun frame => (frame, (t.sendFrame frame).1)

def call (t : Task) (answer : List Frame × Acceptance) : WriteCall :=
  ⟨(accepted (answered t answer.1)).flatten, answer.2⟩

/-- Runs the send loop until nothing is left to write. It may not need all answers, and the frames
that belong to the others are returned. -/
def writeOut (s : Sender) (answers : List (List Frame × Acceptance)) : Sender × List Frame :=
  let (_, q, w) :=
    Outbox.writeOut ⟨s.task.queue, s.scratch⟩ (.ofCalls (answers.map (call s.task)) none)
  let heard := answers.length - w.calls.length
  ({ task := { s.task with queue := q.queue }
     scratch := q.scratch
     wire := s.wire ++ w.taken
     offers := s.offers ++ answered s.task ((answers.take heard).flatMap Prod.fst) },
    (answers.drop heard).flatMap Prod.fst)

def step (s : Sender) : Dispatch → Sender
  | .offer frame => s.offer frame
  | .write answers => (s.writeOut answers).2.foldl offer (s.writeOut answers).1

def run (s : Sender) (dispatches : List Dispatch) : Sender :=
  dispatches.foldl step s

def finish (s : Sender) (answers : List Acceptance) : Sender :=
  s.step (.write (answers.map fun a => ([], a)))

theorem accepted_append (offers more : List (Frame × Bool)) :
    accepted (offers ++ more) = accepted offers ++ accepted more := by
  simp [accepted]

theorem incoming_calls (t : Task) (answers : List (List Frame × Acceptance)) :
    incoming (answers.map (call t)) =
      (accepted (answered t (answers.flatMap Prod.fst))).flatten := by
  induction answers with
  | nil => rfl
  | cons answer answers ih =>
    have hcons : incoming ((answer :: answers).map (call t)) =
        (call t answer).queued ++ incoming (answers.map (call t)) := rfl
    rw [hcons, ih, List.flatMap_cons]
    simp only [call, answered, List.map_append, accepted_append, List.flatten_append]

/-- What is written and what waits are the accepted frames, and those are the frames within the
limit. -/
structure Sound (limit : Nat) (s : Sender) : Prop where
  opened : s.task.isOpen = true
  settings : s.task.settings.frameLimit = limit
  offers : ∀ o ∈ s.offers, o.2 = decide (o.1.length ≤ min limit largestLength)
  bytes : s.wire ++ s.scratch.unread ++ s.task.queue.unread = (accepted s.offers).flatten

variable {s : Sender} {limit : Nat}

theorem Sound.answer (h : s.Sound limit) (f : Frame) :
    (s.task.sendFrame f).1 = decide (f.length ≤ min limit largestLength) := by
  rw [Task.sendFrame_of_isOpen h.opened, h.settings]
  split_ifs with hlength <;> simp [hlength]

theorem Sound.offers_answered (h : s.Sound limit) (frames : List Frame) :
    ∀ o ∈ s.offers ++ answered s.task frames,
      o.2 = decide (o.1.length ≤ min limit largestLength) := by
  intro o ho
  rcases List.mem_append.mp ho with ho | ho
  · exact h.offers o ho
  · obtain ⟨f, _, rfl⟩ := List.mem_map.mp ho
    exact h.answer f

theorem Sound.offer (h : s.Sound limit) (f : Frame) : (s.offer f).Sound limit := by
  have hoffers := h.offers_answered [f]
  have hsend := Task.sendFrame_of_isOpen h.opened f
  rw [h.settings] at hsend
  simp only [answered, List.map_cons, List.map_nil, hsend] at hoffers
  unfold Sender.offer
  rw [hsend]
  split_ifs at hoffers ⊢ with hlength
  · refine ⟨h.opened, h.settings, hoffers, ?_⟩
    simp only [Task.unread_push, accepted_append, List.flatten_append]
    rw [← h.bytes]
    simp [accepted]
  · refine ⟨h.opened, h.settings, hoffers, ?_⟩
    simp only [accepted_append, List.flatten_append]
    rw [← h.bytes]
    simp [accepted]

theorem Sound.foldl_offer (h : s.Sound limit) (frames : List Frame) :
    (frames.foldl Sender.offer s).Sound limit := by
  induction frames generalizing s with
  | nil => exact h
  | cons frame frames ih => exact ih (h.offer frame)

theorem Sound.writeOut (h : s.Sound limit) (answers : List (List Frame × Acceptance)) :
    (s.writeOut answers).1.Sound limit ∧
      ((∀ a ∈ answers, a.2.Progresses) →
        (s.writeOut answers).1.scratch.unread ++ (s.writeOut answers).1.task.queue.unread =
          []) := by
  obtain ⟨used, hpasses, hdone, -, hsucceeds⟩ := Outbox.comes_writeOut ⟨s.task.queue, s.scratch⟩
    (.ofCalls (answers.map (call s.task)) none)
  unfold Sender.writeOut
  generalize Outbox.writeOut ⟨s.task.queue, s.scratch⟩
    (.ofCalls (answers.map (call s.task)) none) = out at hpasses hdone hsucceeds ⊢
  obtain ⟨result, q, w⟩ := out
  -- the answers used are the first ones, so their frames are the ones that were heard
  have hcalls : answers.map (call s.task) = used ++ w.calls := hpasses.calls
  have hheard : answers.length - w.calls.length = used.length := by
    have hlength := congrArg List.length hcalls
    rw [List.length_map, List.length_append] at hlength
    omega
  have hused : used = (answers.take used.length).map (call s.task) := by
    rw [List.map_take, hcalls, List.take_left]
  have hincoming : incoming used =
      (accepted (answered s.task ((answers.take used.length).flatMap Prod.fst))).flatten := by
    conv_lhs => rw [hused, incoming_calls]
  dsimp only
  rw [hheard]
  constructor
  · refine ⟨h.opened, h.settings, h.offers_answered _, ?_⟩
    have hbytes := hpasses.bytes
    simp only [Outbox.waiting, Writer.ofCalls, Writer.taken, List.foldl_nil,
      List.nil_append] at hbytes
    rw [accepted_append, List.flatten_append, ← h.bytes, ← hincoming]
    simp only [List.append_assoc] at hbytes ⊢
    rw [← hbytes]
    rfl
  · intro hanswers
    refine hdone (hsucceeds rfl rfl ?_)
    rw [hused]
    intro c hc
    obtain ⟨a, ha, rfl⟩ := List.mem_map.mp hc
    exact hanswers a (List.mem_of_mem_take ha)

theorem Sound.step (h : s.Sound limit) (d : Dispatch) : (s.step d).Sound limit := by
  cases d with
  | offer frame => exact h.offer frame
  | write answers => exact (h.writeOut answers).1.foldl_offer _

theorem Sound.run (h : s.Sound limit) (dispatches : List Dispatch) :
    (s.run dispatches).Sound limit := by
  induction dispatches generalizing s with
  | nil => exact h
  | cons d dispatches ih => exact ih (h.step d)

theorem Sound.finish (h : s.Sound limit) {answers : List Acceptance}
    (hanswers : ∀ a ∈ answers, a.Progresses) :
    (s.finish answers).Sound limit ∧
      (s.finish answers).wire = (accepted (s.finish answers).offers).flatten := by
  obtain ⟨hsound, hdone⟩ := h.writeOut (answers.map fun a => ([], a))
  have hlate : (s.writeOut (answers.map fun a => ([], a))).2 = [] := by
    refine List.flatMap_eq_nil_iff.mpr fun a ha => ?_
    obtain ⟨answer, _, rfl⟩ := List.mem_map.mp (List.mem_of_mem_drop ha)
    rfl
  have hfinish : s.finish answers = (s.writeOut (answers.map fun a => ([], a))).1 := by
    rw [Sender.finish, Sender.step, hlate, List.foldl_nil]
  rw [hfinish]
  refine ⟨hsound, ?_⟩
  rw [← hsound.bytes, List.append_assoc, hdone ?_, List.append_nil]
  intro a ha
  obtain ⟨answer, hmem, rfl⟩ := List.mem_map.mp ha
  exact hanswers answer hmem

theorem Sound.whole (h : s.Sound limit) {larger : Nat} (hle : limit ≤ larger) :
    ∀ f ∈ accepted s.offers, Whole larger f := by
  intro f hf
  obtain ⟨o, ho, rfl⟩ := List.mem_map.mp hf
  obtain ⟨hmem, haccepted⟩ := List.mem_filter.mp ho
  rw [h.offers o hmem] at haccepted
  exact (whole_toBytes (of_decide_eq_true haccepted)).mono hle

theorem offers_foldl_offer (s : Sender) (frames : List Frame) :
    (frames.foldl offer s).offers.map Prod.fst = s.offers.map Prod.fst ++ frames := by
  induction frames generalizing s with
  | nil => exact (List.append_nil _).symm
  | cons frame frames ih =>
    rw [List.foldl_cons, ih]
    simp [offer]

theorem offers_step (s : Sender) (d : Dispatch) :
    (s.step d).offers.map Prod.fst = s.offers.map Prod.fst ++ d.frames := by
  cases d with
  | offer frame => exact offers_foldl_offer s [frame]
  | write answers =>
    have hfst (frames : List Frame) : (answered s.task frames).map Prod.fst = frames := by
      simp [answered, Function.comp_def]
    rw [step, offers_foldl_offer]
    simp only [writeOut, List.map_append, hfst, List.append_assoc]
    rw [← List.flatMap_append, List.take_append_drop]
    rfl

theorem offers_run (s : Sender) (dispatches : List Dispatch) :
    (s.run dispatches).offers.map Prod.fst =
      s.offers.map Prod.fst ++ dispatches.flatMap Dispatch.frames := by
  induction dispatches generalizing s with
  | nil => exact (List.append_nil _).symm
  | cons d dispatches ih =>
    have hrun : s.run (d :: dispatches) = (s.step d).run dispatches := rfl
    rw [hrun, ih, offers_step, List.append_assoc, List.flatMap_cons]

theorem offers_finish (s : Sender) (answers : List Acceptance) :
    (s.finish answers).offers.map Prod.fst = s.offers.map Prod.fst := by
  have hframes : (Dispatch.write (answers.map fun a => ([], a))).frames = [] := by
    simp [Dispatch.frames]
  rw [finish, offers_step, hframes, List.append_nil]

end Sender

/-- Frames are offered to an open task in any order with runs of its send loop, and the loop
finally writes what is left to a stream that takes something with every write. Whoever receives the
bytes written, in whatever pieces and under no smaller limit, gets the accepted frames, encoded,
once each and in order, and then finds the stream closed with nothing left over. -/
theorem received_eq_accepted (t : Task) (scratch inbound : Buffer) (dispatches : List Dispatch)
    (answers : List Acceptance) (arrivals : List Arrival) (polls limit : Nat)
    (hopen : t.isOpen = true) (hqueue : t.queue.unread = []) (hscratch : scratch.unread = [])
    (hinbound : inbound.unread = []) (hanswers : ∀ a ∈ answers, a.Progresses)
    (hflows : ∀ a ∈ arrivals, a.Flows)
    (hwire : arrivals.flatMap Arrival.bytes =
      (((Sender.ofTask t scratch).run dispatches).finish answers).wire)
    (hlimit : t.settings.frameLimit ≤ limit) :
    let offers := (((Sender.ofTask t scratch).run dispatches).finish answers).offers
    let out := receive limit (fun got frame => (got ++ [frame], true)) [] inbound
      ⟨arrivals, .ended, polls⟩
    offers.map Prod.fst = dispatches.flatMap Dispatch.frames ∧
      (∀ o ∈ offers, o.2 =
        decide (4 + o.1.payload.length ≤ min t.settings.frameLimit (2 ^ 24 - 1))) ∧
      (∀ o ∈ offers, o.2 = true → o.1.encode t.settings.frameLimit = .ok o.1.toBytes) ∧
      out.state = (offers.filter Prod.snd).map (fun o => o.1.toBytes) ∧
      (∃ total need, out.ending = .failed (.io (Reader.closedEarly total need))) ∧
      out.buffer.unread = [] := by
  intro offers out
  have hstart : (Sender.ofTask t scratch).Sound t.settings.frameLimit := by
    refine ⟨hopen, rfl, by simp [Sender.ofTask], ?_⟩
    simp [Sender.ofTask, Sender.accepted, hqueue, hscratch]
  obtain ⟨hsound, hwritten⟩ := (hstart.run dispatches).finish hanswers
  have hbytes : inbound.unread ++ arrivals.flatMap Arrival.bytes =
      (Sender.accepted offers).flatten := by
    rw [hinbound, List.nil_append, hwire, hwritten]
  obtain ⟨hstate, hending, hrest⟩ := receive_flatten (fun got frame => got ++ [frame]) []
    (hsound.whole hlimit) hflows hbytes polls
  refine ⟨?_, hsound.offers, ?_, hstate.trans ?_, hending, hrest⟩
  · rw [Sender.offers_finish, Sender.offers_run]
    rfl
  · intro o ho haccepted
    rw [hsound.offers o ho] at haccepted
    exact Frame.encode_eq_ok_iff.mpr ⟨of_decide_eq_true haccepted, rfl⟩
  · rw [List.foldl_append_eq_append, ← List.flatMap_def, List.flatMap_singleton', List.nil_append]
    rfl

/-- Two of three frames are within the limit, one of them offered while the loop waits. -/
theorem received_eq_accepted_two_of_three :
    let dispatches : List Dispatch :=
      [.offer ⟨1, [104, 105]⟩, .write [([⟨2, [33]⟩], .upTo 1), ([], .pending), ([], .upTo 2)],
        .offer ⟨3, [1, 2, 3, 4, 5]⟩]
    let arrivals : List Arrival :=
      [.chunk [0, 0], .pending, .chunk [6, 1, 104, 105, 0, 0, 5], .chunk [2, 33]]
    let t := ((Task.ofSettings ⟨8, 10, 0⟩).start 0).2
    let sent := ((Sender.ofTask t (.withCapacity 0)).run dispatches).finish [.upTo 3, .pending]
    let out := receive 9 (fun got frame => (got ++ [frame], true)) [] (.withCapacity 0)
      ⟨arrivals, .ended, 0⟩
    sent.offers = [(⟨1, [104, 105]⟩, true), (⟨2, [33]⟩, true), (⟨3, [1, 2, 3, 4, 5]⟩, false)] ∧
      out.state = [[0, 0, 6, 1, 104, 105], [0, 0, 5, 2, 33]] := by
  intro dispatches arrivals t sent out
  have hoffers : sent.offers =
      [(⟨1, [104, 105]⟩, true), (⟨2, [33]⟩, true), (⟨3, [1, 2, 3, 4, 5]⟩, false)] := by
    decide +kernel
  have h := received_eq_accepted t (.withCapacity 0) (.withCapacity 0) dispatches
    [.upTo 3, .pending] arrivals 0 9 rfl rfl rfl rfl (by simp [Acceptance.Progresses])
    (by simp [arrivals, Arrival.Flows]) (by decide +kernel) (by decide)
  refine ⟨hoffers, h.2.2.2.1.trans ?_⟩
  rw [hoffers]
  decide

end FrameLink
