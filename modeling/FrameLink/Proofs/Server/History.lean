import FrameLink.Server.Lifecycle
import Mathlib.Data.List.Induction
import Mathlib.Tactic.Tauto

/-!
# Histories of a server

The trace of a run shows which hooks were called, and with which flags. A history shows the requests
between them too, and where the loop looks at the flags. What may come next in a history is told by
the latest event in it that is no request, and by the requests so far: `Follows` is the order of
life of a server, said without its flags.
-/

namespace FrameLink.Server

def Mark.name : Mark → HookName
  | .started name _ => name
  | .exhausted => .loop

inductive Event
  | asked (request : Request)
  /-- The loop looks whether the server is closed. -/
  | looked (closed : Bool)
  /-- The loop takes the request to reload, if it finds one. -/
  | took (found : Bool)
  | called (mark : Mark)
  /-- A hook comes to its end with a result, or panics. -/
  | ended (name : HookName) (result : Option Bool)
deriving DecidableEq, Repr

namespace Event

def mark? : Event → Option Mark
  | .called mark => some mark
  | .asked _ | .looked _ | .took _ | .ended .. => none

def isRequest : Event → Bool
  | .asked _ => true
  | .looked _ | .took _ | .called _ | .ended .. => false

end Event

variable {f : Flags} {past : List Event} {e : Event}

/-! ## Flags -/

def Flags.record (f : Flags) : Event → Flags
  | .asked r => f.note r
  | .took true => { f with reload := false }
  | .took false | .looked _ | .called _ | .ended .. => f

def Flags.after (f : Flags) (past : List Event) : Flags :=
  past.foldl Flags.record f

theorem Flags.after_concat (f : Flags) (past : List Event) (e : Event) :
    f.after (past ++ [e]) = (f.after past).record e := by
  rw [after, List.foldl_append]
  rfl

/-- Whether the server has been closed. -/
def Closed (f : Flags) (past : List Event) : Prop :=
  f.closed = true ∨ .asked .close ∈ past

/-- Whether a reload has been requested since the last time that a request was taken. -/
def Wanted (f : Flags) (past : List Event) : Prop :=
  (f.reload = true ∧ .took true ∉ past) ∨
    ∃ before behind, past = before ++ .asked .reload :: behind ∧ .took true ∉ behind

theorem concat_eq_append_cons {before behind : List Event} {last : Event}
    (h : past ++ [e] = before ++ last :: behind) :
    (past = before ∧ e = last ∧ behind = []) ∨
      ∃ behind', behind = behind' ++ [e] ∧ past = before ++ last :: behind' := by
  obtain rfl | ⟨behind', last', rfl⟩ := behind.eq_nil_or_concat
  · obtain ⟨hpast, hlast⟩ := List.append_inj' h rfl
    exact .inl ⟨hpast, (List.cons.inj hlast).1, rfl⟩
  · rw [List.concat_eq_append, ← List.cons_append, ← List.append_assoc] at h
    rw [List.concat_eq_append]
    obtain ⟨hpast, hlast⟩ := List.append_inj' h rfl
    exact .inr ⟨behind', by rw [(List.cons.inj hlast).1], hpast⟩

theorem closed_after (f : Flags) (past : List Event) :
    (f.after past).closed = true ↔ Closed f past := by
  induction past using List.reverseRecOn with
  | nil => simp [Flags.after, Closed]
  | append_singleton past e ih =>
    rw [Closed, List.mem_append, ← or_assoc, ← Closed, ← ih, Flags.after_concat]
    match e with
    | .asked .close | .asked .reload | .took true | .took false | .looked _ | .called _
    | .ended .. => simp [Flags.record, Flags.note]

theorem wanted_concat :
    Wanted f (past ++ [e]) ↔ e = .asked .reload ∨ e ≠ .took true ∧ Wanted f past := by
  have hsplit : (∃ before behind, past ++ [e] = before ++ .asked .reload :: behind ∧
      .took true ∉ behind) ↔ e = .asked .reload ∨ e ≠ .took true ∧
        ∃ before behind, past = before ++ .asked .reload :: behind ∧ .took true ∉ behind := by
    constructor
    · rintro ⟨before, behind, hpast, hbehind⟩
      rcases concat_eq_append_cons hpast with ⟨_, he, _⟩ | ⟨behind', rfl, hrest⟩
      · exact .inl he
      · simp only [List.mem_append, List.mem_singleton, not_or] at hbehind
        exact .inr ⟨fun he => hbehind.2 he.symm, before, behind', hrest, hbehind.1⟩
    · rintro (rfl | ⟨he, before, behind, rfl, hbehind⟩)
      · exact ⟨past, [], rfl, List.not_mem_nil⟩
      · exact ⟨before, behind ++ [e], by simp, by simp [hbehind, he.symm]⟩
  simp only [Wanted, hsplit, List.mem_append, List.mem_singleton, not_or]
  tauto

theorem reload_after (f : Flags) (past : List Event) :
    (f.after past).reload = true ↔ Wanted f past := by
  induction past using List.reverseRecOn with
  | nil => simp [Flags.after, Wanted]
  | append_singleton past e ih =>
    rw [wanted_concat, ← ih, Flags.after_concat]
    match e with
    | .asked .close | .asked .reload | .took true | .took false | .looked _ | .called _
    | .ended .. => simp [Flags.record, Flags.note]

/-! ## Order -/

/-- What comes next, requests apart. -/
inductive Due
  | call (name : HookName)
  | finish (name : HookName)
  | look
  | take
  | nothing
deriving DecidableEq, Repr

/-- The latest event that is no request. -/
def latest (past : List Event) : Option Event :=
  (past.filter fun e => !e.isRequest).getLast?

def due : Option Event → Due
  | none => .call .init
  | some (.called mark) => .finish mark.name
  | some (.ended .init (some true)) | some (.ended .loop (some _)) => .look
  | some (.looked false) => .take
  | some (.took true) => .call .reload
  | some (.took false) | some (.ended .reload (some _)) => .call .loop
  | some (.looked true) | some (.ended .init _) | some (.ended .reload none)
  | some (.ended .loop none) => .call .finalize
  | some (.ended .finalize _) | some (.asked _) => .nothing

/-- Whether an event can come behind a past. -/
def Follows (f : Flags) (past : List Event) : Event → Prop
  | .asked _ => True
  | .looked closed => due (latest past) = .look ∧ (closed = true ↔ Closed f past)
  | .took found => due (latest past) = .take ∧ (found = true ↔ Wanted f past)
  | .called mark => due (latest past) = .call mark.name ∧
      (mark = .started mark.name (f.after past) ∨ mark = .exhausted)
  | .ended name _ => due (latest past) = .finish name

def Orderly (f : Flags) (past : List Event) : Prop :=
  ∀ before e behind, past = before ++ e :: behind → Follows f before e

theorem Orderly.concat (h : Orderly f past) (he : Follows f past e) : Orderly f (past ++ [e]) := by
  intro before e' behind hpast
  rcases concat_eq_append_cons hpast with ⟨rfl, rfl, _⟩ | ⟨behind', _, hpast⟩
  · exact he
  · exact h before e' behind' hpast

theorem latest_concat_asked (past : List Event) (r : Request) :
    latest (past ++ [.asked r]) = latest past := by
  simp [latest, Event.isRequest]

theorem latest_concat (past : List Event) (he : e.isRequest = false) :
    latest (past ++ [e]) = some e := by
  simp [latest, he]

theorem latest_append (past : List Event) {requests : List Event}
    (hrequests : ∀ e ∈ requests, e.isRequest = true) :
    latest (past ++ requests) = latest past := by
  have hnone : (requests.filter fun e => !e.isRequest) = [] :=
    List.filter_eq_nil_iff.mpr fun e he => by simp [hrequests e he]
  rw [latest, List.filter_append, hnone, List.append_nil]
  rfl

/-- No request is served twice: between two that are taken there is another one. -/
theorem Orderly.requested {before between behind : List Event}
    (h : Orderly f (before ++ .took true :: between ++ .took true :: behind)) :
    .asked .reload ∈ between := by
  obtain ⟨_, hwanted⟩ := h (before ++ .took true :: between) (.took true) behind rfl
  rcases hwanted.mp rfl with ⟨_, hnone⟩ | ⟨first, rest, hsplit, hrest⟩
  · simp at hnone
  · rcases List.append_eq_append_iff.mp hsplit with ⟨middle, _, hmiddle⟩ | ⟨middle, _, hmiddle⟩
    · cases middle with
      | nil => cases (List.cons.inj hmiddle).1
      | cons e middle =>
        rw [(List.cons.inj hmiddle).2]
        simp
    · -- then the first one would have been taken since the last request
      cases middle with
      | nil => cases (List.cons.inj hmiddle).1
      | cons e middle =>
        rw [(List.cons.inj hmiddle).2] at hrest
        simp at hrest

theorem Follows.took_of_take (h : Follows f past e) (he : e.isRequest = false)
    (hdue : due (latest past) = .take) :
    ∃ found, e = .took found ∧ (found = true ↔ Wanted f past) := by
  cases e with
  | asked => cases he
  | took found => exact ⟨found, rfl, h.2⟩
  | looked | called => exact nomatch hdue.symm.trans h.1
  | ended => exact nomatch hdue.symm.trans h

/-- No request is lost that is made before a look that finds the server open: it has been taken by
then, or it is taken next. -/
theorem Orderly.taken {before between behind : List Event}
    (h : Orderly f (before ++ .asked .reload :: between ++ .looked false :: behind))
    (hover : due (latest (before ++ .asked .reload :: between ++ .looked false :: behind)) =
      .nothing) :
    .took true ∈ between ∨ ∃ requests rest, (∀ e ∈ requests, e.isRequest = true) ∧
      behind = requests ++ .took true :: rest := by
  have hrequests : ∀ e ∈ behind.takeWhile Event.isRequest, e.isRequest = true :=
    List.all_eq_true.mp List.all_takeWhile
  have hbehind := List.takeWhile_append_dropWhile (p := Event.isRequest) (l := behind)
  generalize behind.takeWhile Event.isRequest = requests at hrequests hbehind
  have hlatest (past : List Event) :
      latest (past ++ .looked false :: requests) = some (.looked false) := by
    rw [← List.singleton_append, ← List.append_assoc, latest_append _ hrequests]
    exact latest_concat past rfl
  cases hrest : behind.dropWhile Event.isRequest with
  | nil =>
    -- a run does not end behind such a look
    rw [hrest, List.append_nil] at hbehind
    rw [← hbehind, hlatest] at hover
    cases hover
  | cons e rest =>
    have he : e.isRequest = false := by
      have hhead := List.head?_dropWhile_not Event.isRequest behind
      rw [hrest] at hhead
      simpa using hhead
    rw [hrest] at hbehind
    have hfollows := h (before ++ .asked .reload :: between ++ .looked false :: requests) e rest
      (by rw [← hbehind]; simp)
    have htake : due (latest (before ++ .asked .reload :: between ++ .looked false :: requests)) =
        .take := congrArg due (hlatest _)
    obtain ⟨found, rfl, hfound⟩ := hfollows.took_of_take he htake
    by_cases htaken : .took true ∈ between
    · exact .inl htaken
    · have hnot : .took true ∉ requests := fun hmem => nomatch hrequests _ hmem
      have hwanted : Wanted f (before ++ .asked .reload :: between ++ .looked false :: requests) :=
        .inr ⟨before, between ++ .looked false :: requests, by simp, by simp [htaken, hnot]⟩
      exact .inr ⟨requests, rest, hrequests, by rw [← hbehind, hfound.mpr hwanted]⟩

end FrameLink.Server
