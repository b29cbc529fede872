import FrameLink.Buffer.Script
import FrameLink.Proofs.Buffer.Store

/-!
# Buffers as queues

A plain queue of bytes has neither a store nor cursors. Whatever the owner of a buffer does with it,
the unread bytes are those of a plain queue that is treated alike, and both reply the same. The
store shows through in one reply only: whether there is room in front for bytes to prepend.
-/

namespace FrameLink

/-! ## Queues -/

open Buffer (Step Reply Bench)

/-- A plain queue, and the copy of one that was put aside. -/
structure Queue where
  bytes : Bytes
  spare : Option Bytes
deriving DecidableEq, Repr

namespace Queue

def put (q : Queue) (bytes : Bytes) : Option Reply × Queue :=
  (some .done, { q with bytes := q.bytes ++ bytes })

def take (q : Queue) (n : Nat) (answer : Bytes → Reply) : Option Reply × Queue :=
  if n ≤ q.bytes.length then (some (answer (q.bytes.take n)), { q with bytes := q.bytes.drop n })
  else (some (.fault .shortRead), q)

/-- What a step on a buffer means to a queue. Of the buffer it takes as much room as there is in
front, and free bytes that are declared written. It has no reply to a question about the store. -/
def step (room : Nat) (free : Bytes) (q : Queue) : Step → Option Reply × Queue
  | .append bytes | .fill bytes => q.put bytes
  | .advanceWriter n => q.put (free.take n)
  | .grow _ => (some .done, q)
  | .consume n => (some .done, { q with bytes := q.bytes.drop n })
  | .reset => (some .done, { q with bytes := [] })
  | .prepend bytes =>
    if bytes.length ≤ room then (some (.flag true), { q with bytes := bytes ++ q.bytes })
    else (some (.flag false), q)
  | .readBytes n => q.take n .bytes
  | .readUnsigned n => q.take n fun bytes => .number (Bytes.value bytes)
  | .readSigned n => q.take n fun bytes => .number (Bytes.signedValue bytes)
  | .readReversed n => q.take n fun bytes => .number (Bytes.value bytes.reverse)
  | .unreadBytes => (some (.bytes q.bytes), q)
  | .peek n => (some (if n ≤ q.bytes.length then .bytes (q.bytes.take n) else .missing), q)
  | .hasUnread => (some (.flag !q.bytes.isEmpty), q)
  | .unreadSize => (some (.number q.bytes.length), q)
  | .save => (some .done, { q with spare := some q.bytes })
  | .swap =>
    match q.spare with
    | some bytes => (some .done, ⟨bytes, some q.bytes⟩)
    | none => (some .done, q)
  | .freeBytes | .freeSize | .storeSize | .describe => (none, q)

end Queue

namespace Buffer

/-- What a step asks of its caller. -/
def Step.Proper (b : Buffer) : Step → Prop
  | .append bytes => b.Affords bytes.length
  | .grow n => b.Affords n
  | .fill bytes => bytes.length ≤ b.freeSize
  | .advanceWriter n => n ≤ b.freeSize
  | .readUnsigned n | .readSigned n => n ≤ 8
  | .peek n => b.readCursor + n < wordBound
  | _ => True

instance (b : Buffer) : DecidablePred (Step.Proper b) := fun s => by
  cases s <;> unfold Step.Proper <;> infer_instance

namespace Bench

def queue (w : Bench) : Queue :=
  ⟨w.buffer.unread, w.spare.map Buffer.unread⟩

structure Sound (w : Bench) : Prop where
  buffer : w.buffer.Sound
  spare : ∀ b ∈ w.spare, b.Sound

/-- A step that goes as it goes on a queue. If it is refused nothing changes. -/
structure Agrees (w : Bench) (s : Step) (r : Reply) (w' : Bench) : Prop where
  sound : w'.Sound
  queue : w'.queue = (w.queue.step w.buffer.readCursor w.buffer.free s).2
  reply : ∀ r' ∈ (w.queue.step w.buffer.readCursor w.buffer.free s).1, r = r'
  fault : ∀ cause, r = .fault cause → cause = .shortRead
  refused : (∃ cause, r = .fault cause) ∨ r = .flag false → w' = w

variable {w : Bench} {s : Step}

theorem Agrees.changed {b : Buffer} {r : Reply} (hw : w.Sound) (hb : b.Sound)
    (hr : r = .done ∨ r = .flag true)
    (hqueue : w.queue.step w.buffer.readCursor w.buffer.free s =
      (some r, { w.queue with bytes := b.unread })) :
    w.Agrees s r { w with buffer := b } := by
  refine ⟨⟨hb, hw.spare⟩, ?_, ?_, ?_, ?_⟩
  · rw [hqueue]
    rfl
  · rw [hqueue]
    exact fun r' hr' => Option.some.inj hr'
  · rcases hr with rfl | rfl <;> exact nofun
  · rcases hr with rfl | rfl <;> simp

theorem Agrees.asked {r : Reply} (hw : w.Sound) (hfault : ∀ cause, r ≠ .fault cause)
    (hqueue : (w.queue.step w.buffer.readCursor w.buffer.free s).2 = w.queue)
    (hreply : ∀ r' ∈ (w.queue.step w.buffer.readCursor w.buffer.free s).1, r = r') :
    w.Agrees s r w :=
  ⟨hw, hqueue.symm, hreply, fun cause hcause => absurd hcause (hfault cause), fun _ => rfl⟩

theorem Agrees.read {n : Nat} (hw : w.Sound) (answer : Bytes → Reply)
    (hanswer : ∀ bytes, (∀ cause, answer bytes ≠ .fault cause) ∧ answer bytes ≠ .flag false)
    (hqueue : w.queue.step w.buffer.readCursor w.buffer.free s = w.queue.take n answer)
    (hstep : w.step s = w.settle ((w.buffer.read n).map fun out => (answer out.1, out.2))) :
    w.Agrees s (w.step s).1 (w.step s).2 := by
  rw [hstep]
  by_cases hn : n ≤ w.buffer.unread.length
  · have hread := read_of_le hn
    have htake : w.queue.take n answer =
        (some (answer (w.buffer.unread.take n)),
          { w.queue with bytes := (w.buffer.consume n).unread }) := by
      rw [unread_consume]
      exact if_pos hn
    obtain ⟨hfault, hflag⟩ := hanswer (w.buffer.unread.take n)
    rw [htake] at hqueue
    rw [hread]
    refine ⟨⟨hw.buffer.of_size (size_consume ..), hw.spare⟩, ?_, ?_, ?_, ?_⟩
    · rw [hqueue]
      rfl
    · rw [hqueue]
      exact fun r' hr' => Option.some.inj hr'
    · exact fun cause hcause => absurd hcause (hfault cause)
    · rintro (⟨cause, hcause⟩ | hcause)
      · exact absurd hcause (hfault cause)
      · exact absurd hcause hflag
  · have hread := read_of_not_le hn
    have htake : w.queue.take n answer = (some (.fault .shortRead), w.queue) := if_neg hn
    rw [htake] at hqueue
    rw [hread]
    refine ⟨hw, ?_, ?_, ?_, fun _ => rfl⟩
    · rw [hqueue]
      rfl
    · rw [hqueue]
      exact fun r' hr' => Option.some.inj hr'
    · exact fun cause hcause => (Reply.fault.inj hcause).symm

theorem step_readUnsigned {n : Nat} (hn : n ≤ 8) :
    w.step (.readUnsigned n) =
      w.settle ((w.buffer.read n).map fun out => (.number (Bytes.value out.1), out.2)) := by
  simp only [step, readUnsigned, if_neg (Nat.not_lt.mpr hn)]
  cases w.buffer.read n <;> rfl

theorem step_readSigned {n : Nat} (hn : n ≤ 8) :
    w.step (.readSigned n) =
      w.settle ((w.buffer.read n).map fun out => (.number (Bytes.signedValue out.1), out.2)) := by
  simp only [step, readSigned, if_neg (Nat.not_lt.mpr hn)]
  cases w.buffer.read n <;> rfl

theorem step_readReversed (w : Bench) (n : Nat) :
    w.step (.readReversed n) =
      w.settle ((w.buffer.read n).map fun out =>
        (.number (Bytes.value out.1.reverse), out.2)) := by
  simp only [step, readReversed]
  cases w.buffer.read n <;> rfl

theorem step_peek {n : Nat} (hn : w.buffer.readCursor + n < wordBound) :
    w.step (.peek n) = ((w.buffer.peek? n).elim .missing .bytes, w) := by
  have hpeek : w.buffer.peek n = .ok (w.buffer.peek? n) := if_neg (Nat.not_le.mpr hn)
  simp only [step, hpeek]
  rfl

theorem Agrees.peek (hw : w.Sound) {n : Nat} (hn : w.buffer.readCursor + n < wordBound) :
    w.Agrees (.peek n) (w.step (.peek n)).1 (w.step (.peek n)).2 := by
  rw [step_peek hn, peek?_eq]
  split_ifs with hfound
  · refine .asked hw nofun rfl fun r' hr' => ?_
    exact (if_pos hfound).symm.trans (Option.some.inj hr')
  · refine .asked hw nofun rfl fun r' hr' => ?_
    exact (if_neg hfound).symm.trans (Option.some.inj hr')

theorem step_prepend (w : Bench) (bytes : Bytes) :
    (bytes.length ≤ w.buffer.readCursor ∧ ∃ b : Buffer,
        w.buffer.prepend? bytes = some b ∧ b.unread = bytes ++ w.buffer.unread ∧
        w.step (.prepend bytes) = (.flag true, { w with buffer := b })) ∨
      w.buffer.readCursor < bytes.length ∧ w.step (.prepend bytes) = (.flag false, w) := by
  rcases Nat.lt_or_ge w.buffer.readCursor bytes.length with hshort | hroom
  · have hprepend : w.buffer.prepend? bytes = none := if_pos hshort
    exact .inr ⟨hshort, by simp only [step, hprepend]⟩
  · obtain ⟨b, hprepend, hunread⟩ := prepend?_of_le hroom
    exact .inl ⟨hroom, b, hprepend, hunread, by simp only [step, hprepend]⟩

theorem Agrees.prepend (hw : w.Sound) (bytes : Bytes) :
    w.Agrees (.prepend bytes) (w.step (.prepend bytes)).1 (w.step (.prepend bytes)).2 := by
  rcases step_prepend w bytes with ⟨hroom, b, hprepend, hunread, hstep⟩ | ⟨hshort, hstep⟩
  · rw [hstep]
    refine .changed hw (hw.buffer.of_size (size_prepend hprepend)) (.inr rfl) ?_
    rw [hunread]
    exact if_pos hroom
  · have hqueue : w.queue.step w.buffer.readCursor w.buffer.free (.prepend bytes) =
        (some (.flag false), w.queue) := if_neg (Nat.not_le.mpr hshort)
    rw [hstep]
    refine .asked hw nofun ?_ ?_
    · rw [hqueue]
    · rw [hqueue]
      exact fun r' hr' => Option.some.inj hr'

theorem Agrees.save (hw : w.Sound) : w.Agrees .save (w.step .save).1 (w.step .save).2 := by
  refine ⟨⟨hw.buffer, ?_⟩, rfl, fun r' hr' => Option.some.inj hr', nofun, ?_⟩
  · rintro b ⟨⟩
    exact hw.buffer
  · rintro (⟨cause, hcause⟩ | hcause) <;> cases hcause

theorem Agrees.swap (hw : w.Sound) : w.Agrees .swap (w.step .swap).1 (w.step .swap).2 := by
  obtain ⟨b, spare⟩ := w
  cases spare with
  | none => exact .asked hw nofun rfl fun r' hr' => Option.some.inj hr'
  | some b' =>
    refine ⟨⟨hw.spare b' rfl, ?_⟩, rfl, fun r' hr' => Option.some.inj hr', nofun, ?_⟩
    · rintro b'' ⟨⟩
      exact hw.buffer
    · rintro (⟨cause, hcause⟩ | hcause) <;> cases hcause

theorem agrees_step (hw : w.Sound) (hs : s.Proper w.buffer) :
    w.Agrees s (w.step s).1 (w.step s).2 := by
  have hb := hw.buffer
  cases s with
  | append bytes =>
    simp only [step, hb.appendBy hs]
    refine .changed hw (hb.append hs) (.inl rfl) ?_
    rw [unread_append]
    rfl
  | fill bytes =>
    simp only [step, fillFree_of_le hs]
    refine .changed hw (hb.of_size (size_fill ..)) (.inl rfl) ?_
    rw [unread_fill hs]
    rfl
  | advanceWriter n =>
    simp only [step, advanceWriter_of_le hs]
    refine .changed hw (hb.of_size rfl) (.inl rfl) ?_
    rw [unread_advance hs]
    rfl
  | grow n =>
    simp only [step, hb.growBy hs]
    refine .changed hw (hb.grow hs) (.inl rfl) ?_
    rw [unread_grow]
    rfl
  | consume n =>
    refine .changed hw (hb.of_size (size_consume ..)) (.inl rfl) ?_
    rw [unread_consume]
    rfl
  | reset =>
    refine .changed hw (hb.of_size rfl) (.inl rfl) ?_
    rw [unread_reset]
    rfl
  | prepend bytes => exact .prepend hw bytes
  | peek n => exact .peek hw hs
  | readBytes n =>
    exact .read hw .bytes (fun _ => ⟨nofun, nofun⟩) rfl rfl
  | readUnsigned n =>
    exact .read hw (fun bytes => .number (Bytes.value bytes)) (fun _ => ⟨nofun, nofun⟩) rfl
      (step_readUnsigned hs)
  | readSigned n =>
    exact .read hw (fun bytes => .number (Bytes.signedValue bytes)) (fun _ => ⟨nofun, nofun⟩) rfl
      (step_readSigned hs)
  | readReversed n =>
    exact .read hw (fun bytes => .number (Bytes.value bytes.reverse)) (fun _ => ⟨nofun, nofun⟩)
      rfl (step_readReversed w n)
  | save => exact .save hw
  | swap => exact .swap hw
  | unreadBytes => exact .asked hw nofun rfl fun r' hr' => Option.some.inj hr'
  | hasUnread =>
    refine .asked hw nofun rfl fun r' hr' => ?_
    rw [step, w.buffer.readCursor_lt_iff]
    exact Option.some.inj hr'
  | unreadSize =>
    refine .asked hw nofun rfl fun r' hr' => ?_
    rw [step, ← w.buffer.length_unread]
    exact Option.some.inj hr'
  | freeBytes | freeSize | storeSize | describe => exact .asked hw nofun rfl nofun

end Bench

/-! ## Scripts -/

/-- What the owner of a buffer does with it: a step, or writing over its free bytes from outside. -/
inductive Use
  | step (s : Step)
  | write (bytes : Bytes)
deriving DecidableEq, Repr

def Use.Proper (b : Buffer) : Use → Prop
  | .step s => s.Proper b
  | .write bytes => bytes.length ≤ b.freeSize

instance (b : Buffer) : DecidablePred (Use.Proper b)
  | .step s => inferInstanceAs (Decidable (s.Proper b))
  | .write bytes => inferInstanceAs (Decidable (bytes.length ≤ b.freeSize))

namespace Bench

def use (w : Bench) : Use → Bench
  | .step s => (w.step s).2
  | .write bytes => { w with buffer := w.buffer.overwrite bytes }

def uses (w : Bench) (list : List Use) : Bench :=
  list.foldl use w

/-- Each use is proper when its turn comes. -/
def Admits (w : Bench) : List Use → Prop
  | [] => True
  | u :: list => u.Proper w.buffer ∧ (w.use u).Admits list

instance decidableAdmits (w : Bench) : (list : List Use) → Decidable (w.Admits list)
  | [] => inferInstanceAs (Decidable True)
  | u :: list =>
    have := decidableAdmits (w.use u) list
    inferInstanceAs (Decidable (u.Proper w.buffer ∧ (w.use u).Admits list))

end Bench

end Buffer

namespace Queue

open Buffer (Use)

/-- A queue that is treated like a buffer beside it. -/
def uses (w : Bench) (q : Queue) : List Use → Queue
  | [] => q
  | .step s :: list =>
    uses (w.use (.step s)) (q.step w.buffer.readCursor w.buffer.free s).2 list
  | .write bytes :: list => uses (w.use (.write bytes)) q list

end Queue

namespace Buffer.Bench

variable {w : Bench}

theorem queue_uses (hw : w.Sound) {list : List Use} (hlist : w.Admits list) :
    (w.uses list).Sound ∧ (w.uses list).queue = w.queue.uses w list := by
  induction list generalizing w with
  | nil => exact ⟨hw, rfl⟩
  | cons u list ih =>
    obtain ⟨hu, hrest⟩ := hlist
    cases u with
    | step s =>
      have hagrees := agrees_step hw hu
      obtain ⟨hsound, hqueue⟩ := ih hagrees.sound hrest
      refine ⟨hsound, hqueue.trans ?_⟩
      rw [Queue.uses, ← hagrees.queue]
      rfl
    | write bytes =>
      have hqueue : queue (w.use (.write bytes)) = w.queue := by
        rw [queue, use, unread_overwrite]
        rfl
      rw [uses, Queue.uses, ← hqueue]
      exact ih ⟨hw.buffer.of_size (size_overwrite ..), hw.spare⟩ hrest

end Buffer.Bench

namespace Buffer

/-- Whatever is done properly with a new buffer, its unread bytes are those of a queue that is
treated alike. They are the stretch of the store between the cursors, which never cross and never
leave the store, and neither does the reserve. Every proper step replies what the queue replies; it
fails only if it reads more than there is, and a step that fails or is refused changes nothing. -/
theorem unread_uses_eq_queue {reserve initial : Nat} {b : Buffer}
    (hcreate : create reserve initial = .ok b) {list : List Use}
    (hlist : Bench.Admits ⟨b, none⟩ list) :
    let w := Bench.uses ⟨b, none⟩ list
    let q := Queue.uses ⟨b, none⟩ ⟨[], none⟩ list
    w.buffer.unread = q.bytes ∧
      (w.buffer.store.take w.buffer.writeCursor).drop w.buffer.readCursor = q.bytes ∧
      w.buffer.readCursor ≤ w.buffer.writeCursor ∧
      w.buffer.writeCursor ≤ w.buffer.store.length ∧
      w.buffer.reserve ≤ w.buffer.store.length ∧
      ∀ s, s.Proper w.buffer →
        (∀ r ∈ (q.step w.buffer.readCursor w.buffer.free s).1, (w.step s).1 = r) ∧
        (∀ cause, (w.step s).1 = .fault cause → cause = .shortRead) ∧
        ((∃ cause, (w.step s).1 = .fault cause) ∨ (w.step s).1 = .flag false →
          (w.step s).2 = w) := by
  intro w q
  have hunread : b.unread = [] := by
    obtain ⟨-, rfl⟩ := eq_withReserve hcreate
    exact unread_withReserve reserve initial
  have hempty : Bench.queue ⟨b, none⟩ = ⟨[], none⟩ := by
    rw [Bench.queue, hunread]
    rfl
  have hinit : Bench.Sound ⟨b, none⟩ := ⟨sound_create hcreate, fun _ hspare => by cases hspare⟩
  obtain ⟨hw, hqueue⟩ := Bench.queue_uses hinit hlist
  rw [hempty] at hqueue
  have hbytes : w.buffer.unread = q.bytes := congrArg Queue.bytes hqueue
  refine ⟨hbytes, ?_, w.buffer.readCursor_le, w.buffer.writeCursor_le, w.buffer.reserve_le,
    fun s hs => ?_⟩
  · rw [← unread_eq_slice, hbytes]
  · have hagrees := Bench.agrees_step hw hs
    have hreply := hagrees.reply
    rw [hqueue] at hreply
    exact ⟨hreply, hagrees.fault, hagrees.refused⟩

/-- A header in front of a body, a read of a part, and a move of the rest into a larger store. -/
theorem unread_uses_eq_queue_header :
    let list : List Use := [.step (.append [1, 2, 3, 4]), .step (.prepend [8, 9]),
      .step (.readUnsigned 3), .step (.grow 6), .write [5, 6, 7], .step (.advanceWriter 2)]
    Bench.Admits ⟨withReserve 2 3, none⟩ list ∧
      Queue.uses ⟨withReserve 2 3, none⟩ ⟨[], none⟩ list = ⟨[2, 3, 4, 5, 6], none⟩ ∧
      (Bench.uses ⟨withReserve 2 3, none⟩ list).buffer.unread = [2, 3, 4, 5, 6] := by
  intro list
  have hlist : Bench.Admits ⟨withReserve 2 3, none⟩ list := by decide
  have hqueue : Queue.uses ⟨withReserve 2 3, none⟩ ⟨[], none⟩ list = ⟨[2, 3, 4, 5, 6], none⟩ := by
    decide
  have hcreate : create 2 3 = .ok (withReserve 2 3) := by decide
  have hunread := (unread_uses_eq_queue hcreate hlist).1
  rw [hqueue] at hunread
  exact ⟨hlist, hqueue, hunread⟩

end Buffer

end FrameLink
