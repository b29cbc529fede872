import FrameLink.Hub
import FrameLink.Proofs.Link.Draining
import FrameLink.Proofs.Link.Stranding
import Mathlib.Logic.Function.Iterate

/-!
# What a broadcast reaches

A broadcast goes through the slots one after the other. At each of them the task either accepts the
frame, for which it has to be open and the frame has to obey its limit, or is left as it is. To
accept one frame makes a task neither more nor less willing to accept the next, so a task accepts it
once for each of its slots or not at all.
-/

namespace FrameLink

variable {σ : Type}

namespace Task

def takes (t : Task) (frame : Frame) : Bool :=
  t.isOpen && decide (frame.length ≤ min t.settings.frameLimit largestLength)

theorem takes_iff {t : Task} {frame : Frame} :
    t.takes frame = true ↔
      t.isOpen = true ∧ frame.encode t.settings.frameLimit = .ok frame.toBytes := by
  rw [Frame.encode_eq_ok_iff]
  simp [takes]

theorem sendFrame_eq (t : Task) (frame : Frame) :
    t.sendFrame frame = if t.takes frame then (true, t.push frame.toBytes) else (false, t) := by
  cases hopen : t.isOpen with
  | true => simp [sendFrame_of_isOpen hopen, takes, hopen]
  | false => simp [sendFrame_of_not_isOpen hopen, takes, hopen]

end Task

namespace Session

def offered (frame : Frame) (s : Session σ) : Session σ :=
  if s.task.takes frame then s.push frame.toBytes else s

theorem actQuietly_sendFrame (s : Session σ) (frame : Frame) :
    s.actQuietly (.sendFrame frame) = (some (s.task.takes frame), s.offered frame) := by
  simp only [actQuietly, Task.sendFrame_eq, offered]
  split_ifs with htakes
  · rw [htakes]
    rfl
  · rw [Bool.not_eq_true] at htakes
    rw [htakes]
    rfl

end Session

namespace Link

variable {l l' l'' : Link σ} {frame : Frame} {bytes more : Bytes}

/-- What becomes of a link whose task is offered a frame. -/
def offered (frame : Frame) (l : Link σ) : Link σ :=
  { l with session := l.session.offered frame }

/-- The task has accepted these bytes, and nothing else has changed. -/
structure Accepts (bytes : Bytes) (l l' : Link σ) : Prop where
  queue : l'.session.task.queue.unread = l.session.task.queue.unread ++ bytes
  accepted : l'.session.ledger.accepted = l.session.ledger.accepted ++ bytes
  rest : l' = { l with session := { l.session with
    task := { l.session.task with
      queue := l'.session.task.queue, sendSignal := l'.session.task.sendSignal }
    ledger := { l.session.ledger with accepted := l'.session.ledger.accepted } } }

theorem Accepts.refl (l : Link σ) : l.Accepts [] l :=
  ⟨(List.append_nil _).symm, (List.append_nil _).symm, rfl⟩

theorem Accepts.trans (hfirst : l.Accepts bytes l') (hsecond : l'.Accepts more l'') :
    l.Accepts (bytes ++ more) l'' := by
  refine ⟨?_, ?_, ?_⟩
  · rw [hsecond.queue, hfirst.queue, List.append_assoc]
  · rw [hsecond.accepted, hfirst.accepted, List.append_assoc]
  · refine hsecond.rest.trans ?_
    rw [hfirst.rest]

theorem accepts_push (l : Link σ) (bytes : Bytes) :
    l.Accepts bytes { l with session := l.session.push bytes } :=
  ⟨Task.unread_push l.session.task bytes, rfl, rfl⟩

theorem takes_offered (frame : Frame) (l : Link σ) :
    (l.offered frame).session.task.takes frame = l.session.task.takes frame := by
  unfold offered Session.offered
  split_ifs <;> rfl

theorem offered_of_not_takes (hnot : l.session.task.takes frame = false) (k : Nat) :
    (offered frame)^[k] l = l := by
  refine Function.iterate_fixed ?_ k
  rw [offered, Session.offered, hnot, if_neg Bool.false_ne_true]

theorem accepts_offered (htakes : l.session.task.takes frame = true) (k : Nat) :
    l.Accepts (List.replicate k frame.toBytes).flatten ((offered frame)^[k] l) := by
  induction k generalizing l with
  | zero => exact .refl l
  | succ k ih =>
    have hfirst : l.Accepts frame.toBytes (l.offered frame) := by
      rw [offered, Session.offered, if_pos htakes]
      exact accepts_push l frame.toBytes
    exact hfirst.trans (ih ((takes_offered frame l).trans htakes))

theorem sendSignal_offered (htakes : l.session.task.takes frame = true) {k : Nat} (hk : 0 < k) :
    ((offered frame)^[k] l).session.task.sendSignal = true := by
  obtain ⟨k, rfl⟩ := Nat.exists_eq_succ_of_ne_zero hk.ne'
  have hstill : ((offered frame)^[k] l).session.task.takes frame = true := by
    rw [(accepts_offered htakes k).rest]
    exact htakes
  rw [Function.iterate_succ_apply', offered, Session.offered, if_pos hstill]
  rfl

theorem moves_offered (h : Handler σ) (now : Instant) (l : Link σ) (frame : Frame) (k : Nat) :
    (⟨now, l⟩ : Run σ).moves h (List.replicate k (.act (.sendFrame frame))) =
      ⟨now, (offered frame)^[k] l⟩ := by
  induction k generalizing l with
  | zero => rfl
  | succ k ih =>
    have hfirst : ((⟨now, l⟩ : Run σ).move h (.act (.sendFrame frame))).2 =
        ⟨now, l.offered frame⟩ := by
      simp only [Run.move, act_of_isQuiet h now l (a := .sendFrame frame) rfl,
        Session.actQuietly_sendFrame, offered]
    rw [List.replicate_succ, Run.moves, List.foldl_cons, hfirst]
    exact ih (l.offered frame)

end Link

namespace Hub

def takes (hub : Hub σ) (frame : Frame) (position : Nat) : Bool :=
  hub.links[position]?.any fun entry => entry.2.session.task.takes frame

def offer (hub : Hub σ) (frame : Frame) (position : Nat) : Hub σ :=
  { hub with links := hub.links.modify position (Prod.map id (Link.offered frame)) }

theorem atLink_offer (hub : Hub σ) (frame : Frame) (position : Nat) :
    (hub.atLink position fun l =>
        (some (l.session.task.takes frame), { l with session := l.session.offered frame })) =
      (hub.links[position]?.map fun entry => some (entry.2.session.task.takes frame),
        hub.offer frame position) := by
  cases hentry : hub.links[position]? with
  | none => simp [atLink, offer, List.modify_eq_set_getElem?, hentry]
  | some entry =>
    simp only [atLink, offer, List.modify_eq_set_getElem?, hentry]
    rfl

theorem broadcast_cons (hub : Hub σ) (frame : Frame) (position : Nat) (positions : List Nat) :
    hub.broadcast frame (position :: positions) =
      let out := (hub.offer frame position).broadcast frame positions
      (if hub.takes frame position then out.1 + 1 else out.1, out.2) := by
  have haccepted : ((hub.links[position]?.map fun entry =>
      some (entry.2.session.task.takes frame)) = some (some true)) ↔
        hub.takes frame position = true := by
    cases hentry : hub.links[position]? <;> simp [takes, hentry]
  simp only [broadcast, Session.actQuietly_sendFrame, atLink_offer, haccepted]

theorem getElem?_offer (hub : Hub σ) (frame : Frame) (position other : Nat) :
    (hub.offer frame position).links[other]? =
      if position = other then hub.links[other]?.map (Prod.map id (Link.offered frame))
      else hub.links[other]? := by
  rw [offer, List.getElem?_modify]
  split_ifs <;> simp

theorem takes_offer (hub : Hub σ) (frame : Frame) (position : Nat) :
    (hub.offer frame position).takes frame = hub.takes frame := by
  funext other
  simp only [takes, getElem?_offer]
  split_ifs
  · cases hub.links[other]? with
    | none => rfl
    | some entry => exact Link.takes_offered frame entry.2
  · rfl

/-- A broadcast is counted where the frame is accepted, and offers it to every link as often as the
position of the link is listed. -/
theorem broadcast_eq (hub : Hub σ) (frame : Frame) (positions : List Nat) :
    let out := hub.broadcast frame positions
    out.1 = positions.countP (hub.takes frame) ∧ out.2.now = hub.now ∧
      out.2.registry = hub.registry ∧ out.2.links.length = hub.links.length ∧
      ∀ position, out.2.links[position]? = hub.links[position]?.map
        (Prod.map id (Link.offered frame)^[positions.count position]) := by
  induction positions generalizing hub with
  | nil => simp [broadcast]
  | cons first positions ih =>
    obtain ⟨hcount, hnow, hregistry, hlength, hlinks⟩ := ih (hub.offer frame first)
    rw [broadcast_cons]
    refine ⟨?_, hnow, hregistry, hlength.trans (List.length_modify ..), fun position => ?_⟩
    · simp only [hcount, takes_offer, List.countP_cons]
      split_ifs <;> rfl
    · rw [hlinks, getElem?_offer]
      split_ifs with hposition
      · subst hposition
        rw [Option.map_map, List.count_cons_self]
        rfl
      · rw [List.count_cons_of_ne hposition]

/-- What a link that was reached by moves has to do with the frames that its task was offered, if
its peer reads. -/
theorem reads_offered (h : Handler σ) {r : Link.Run σ} (hr : r.Sound) {frame : Frame}
    (htakes : r.link.session.task.takes frame = true) (hreads : r.link.peer.Reads)
    (hloops : r.link.session.task.loops.isSome = true) (copies : Nat) :
    let l := (Link.offered frame)^[copies] r.link
    let sent := r.link.session.ledger.accepted ++ (List.replicate copies frame.toBytes).flatten
    l.session.ledger.written ++ (l.session.flush h r.now l.peer.writer).2 = sent ∧
      ((l.settle h r.now).session.resets = r.link.session.resets →
        sent <+: (l.settle h r.now).peer.received) := by
  intro l sent
  have haccepts : r.link.Accepts (List.replicate copies frame.toBytes).flatten l :=
    Link.accepts_offered htakes copies
  have hsent : (⟨r.now, l⟩ : Link.Run σ).Sound := by
    have hmoves := Link.moves_offered h r.now r.link frame copies
    exact hmoves ▸ hr.moves _
  have hloops' : l.session.task.loops.isSome = true := by
    rw [haccepts.rest]
    exact hloops
  have hreads' : l.peer.Reads := by
    rw [haccepts.rest]
    exact hreads
  have hresets : l.session.resets = r.link.session.resets := by
    rw [haccepts.rest]
  have hall : l.session.ledger.accepted = sent := haccepts.accepted
  refine ⟨?_, fun hkept => ?_⟩
  · rw [hreads'.writer, ← hall]
    exact (Session.flush_willing h hsent.session hloops' r.now).1
  · rw [← hall]
    exact Link.prefix_received_settle hsent hloops' hreads' (hkept.trans hresets.symm)

/-- A broadcast is answered with the number of occupied slots whose task is open and whose limit the
frame obeys. Such a task accepts the encoded frame once for each of its slots, and its send loop is
woken. All else stays as it was, the registry and the other links included. To a peer that reads,
the next turn of the send loop writes these frames right behind all that its task had accepted
before, and the peer has got them when the links have settled, if its connection is the same then.
So it is whatever the link had been through, unless the start of the task had failed for want of an
instant and left the peer without a task behind its stream. -/
theorem broadcast_reaches_open [Inhabited σ] (h : Handler σ) (hub : Hub σ) (frame : Frame) :
    let positions := hub.registry.toList.map Prod.snd
    let out := hub.apply h (.broadcast frame)
    let settled := out.2.mapLinks (·.settle h hub.now)
    out.1 = .count (positions.countP (hub.takes frame)) ∧
      out.2.registry = hub.registry ∧ out.2.now = hub.now ∧
      out.2.links.length = hub.links.length ∧
      ∀ position name l, hub.links[position]? = some (name, l) →
        let copies := positions.count position
        let bytes := (List.replicate copies frame.toBytes).flatten
        ∃ l', out.2.links[position]? = some (name, l') ∧
          settled.links[position]? = some (name, l'.settle h hub.now) ∧
          (l.session.task.takes frame = false ∨ copies = 0 → l' = l) ∧
          (l.session.task.takes frame = true → 0 < copies →
            frame.encode l.session.task.settings.frameLimit = .ok frame.toBytes ∧
              l.Accepts bytes l' ∧ l'.session.task.sendSignal = true ∧
              ∀ state settings list, (Link.Run.init state settings).moves h list = ⟨hub.now, l⟩ →
                l.peer.Reads →
                (l'.session.ledger.written ++ (l'.session.flush h hub.now l'.peer.writer).2 =
                    l.session.ledger.accepted ++ bytes ∧
                  ((l'.settle h hub.now).session.resets = l.session.resets →
                    l.session.ledger.accepted ++ bytes <+: (l'.settle h hub.now).peer.received)) ∨
                  (l.session.task.Stranded ∧
                    timeBound ≤ hub.now + l.session.task.settings.verifyTimeout)) := by
  intro positions out settled
  obtain ⟨hcount, hnow, hregistry, hlength, hlinks⟩ := broadcast_eq hub frame positions
  refine ⟨congrArg Outcome.count hcount, hregistry, hnow, hlength, ?_⟩
  intro position name l hl copies bytes
  have hlink : out.2.links[position]? = some (name, (Link.offered frame)^[copies] l) := by
    refine (hlinks position).trans ?_
    rw [hl]
    rfl
  refine ⟨_, hlink, ?_, ?_, fun htakes hcopies => ?_⟩
  · simp [settled, mapLinks, hlink]
  · rintro (hnot | hnone)
    · exact Link.offered_of_not_takes hnot copies
    · rw [hnone]
      rfl
  obtain ⟨hopen, hencode⟩ := Task.takes_iff.mp htakes
  refine ⟨hencode, Link.accepts_offered htakes copies, Link.sendSignal_offered htakes hcopies, ?_⟩
  intro state settings list hreached hreads
  have hsound : (⟨hub.now, l⟩ : Link.Run σ).Sound :=
    hreached ▸ (Link.Run.sound_init state settings).moves list
  cases hloops : l.session.task.loops with
  | none =>
    have hstranded := Link.Run.stranded_of_no_loops h state settings list
    have hsettings := Link.Run.settings_moves h state settings list
    rw [hreached] at hstranded hsettings
    rw [hsettings]
    exact .inr (hstranded (Task.isOpen_iff.mp hopen) hloops)
  | some loops => exact .inl (reads_offered h hsound htakes hreads (by rw [hloops]; rfl) copies)

/-- One task in two slots, one that was not started, and one whose limit is too small. -/
theorem broadcast_reaches_open_threeTasks :
    let link := fun settings list => ((Link.Run.init () settings).moves .idle list).link
    let hub : Hub := ⟨0, [("a", link ⟨100, 5, 0⟩ [.act .start, .act (.sendBytes [1])]),
      ("b", link ⟨100, 5, 0⟩ []), ("c", link ⟨4, 5, 0⟩ [.act .start])],
      ⟨4, [some 0, some 1, some 2, some 0], []⟩⟩
    let out := hub.apply .idle (.broadcast ⟨2, [7]⟩)
    let settled := out.2.mapLinks (·.settle .idle hub.now)
    out.1 = .count 2 ∧ out.2.links[1]? = hub.links[1]? ∧ out.2.links[2]? = hub.links[2]? ∧
      ∃ l, settled.links[0]? = some ("a", l) ∧
        [1, 0, 0, 5, 2, 7, 0, 0, 5, 2, 7] <+: l.peer.received := by
  intro link hub out settled
  obtain ⟨hcount, _, _, _, hlinks⟩ := broadcast_reaches_open .idle hub ⟨2, [7]⟩
  obtain ⟨_, _, hsettled, _, hreached⟩ := hlinks 0 "a" _ rfl
  obtain ⟨b, hb, _, hrefused, _⟩ := hlinks 1 "b" _ rfl
  obtain ⟨c, hc, _, hlimited, _⟩ := hlinks 2 "c" _ rfl
  have htakes : (link ⟨100, 5, 0⟩ [.act .start, .act (.sendBytes [1])]).session.task.takes
      ⟨2, [7]⟩ = true := by decide +kernel
  have hcopies : 0 < (hub.registry.toList.map Prod.snd).count 0 := by decide +kernel
  obtain ⟨_, _, _, hreceived⟩ := hreached htakes hcopies
  have hreads := hreceived () ⟨100, 5, 0⟩ [.act .start, .act (.sendBytes [1])] rfl
    (by decide +kernel)
  rw [hrefused (.inl (by decide +kernel))] at hb
  rw [hlimited (.inl (by decide +kernel))] at hc
  refine ⟨hcount.trans (by decide +kernel), hb, hc, _, hsettled, ?_⟩
  obtain ⟨_, hgot⟩ := hreads.resolve_right fun hstranded =>
    absurd hstranded.1.loops (by decide +kernel)
  have hresets : settled.links[0]?.map (·.2.session.resets) = some 0 := by decide +kernel
  rw [hsettled] at hresets
  exact hgot (Option.some.inj hresets)

end Hub

end FrameLink
