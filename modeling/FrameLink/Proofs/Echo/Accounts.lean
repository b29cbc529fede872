import FrameLink.Proofs.Echo.Replies
import Mathlib.Algebra.Order.BigOperators.Group.List

/-!
# The accounts of all clients

A chronicle tells of each client under which settings it came and which of its frames were handled,
each with the token that was in force then. The replies to all clients, and the count of echoes,
follow from the chronicle.
-/

namespace FrameLink.Echo

/-! ## Accounts -/

/-- What is told of a client. -/
structure Record where
  /-- The settings that were in force when the client came. -/
  settings : Task.Settings
  /-- The frames that were handled, each with the token that was in force then. -/
  heard : List (Option Bytes × Bytes)
deriving DecidableEq, Repr

namespace Account

def plus (a : Account) (more : Nat) : Account :=
  { a with echoes := a.echoes + more }

theorem hear_plus (limit : Nat) (token : Option Bytes) (a : Account) (more : Nat)
    (frame : Bytes) :
    (a.plus more).hear limit token frame = (a.hear limit token frame).plus more := by
  unfold hear plus
  split
  · split_ifs <;> simp
    omega
  · rfl

theorem foldl_hear_plus (limit : Nat) (token : Option Bytes) (a : Account) (more : Nat)
    (frames : List Bytes) :
    frames.foldl (hear limit token) (a.plus more) =
      (frames.foldl (hear limit token) a).plus more := by
  induction frames generalizing a with
  | nil => rfl
  | cons frame frames ih => rw [List.foldl_cons, List.foldl_cons, hear_plus, ih]

end Account

def Welcomed (token : Option Bytes) (frame : Bytes) : Prop :=
  ∃ a b c payload, frame = a :: b :: c :: 1 :: payload ∧ Admits token payload

theorem not_welcomed {token : Option Bytes} {frame : Bytes}
    (hshort : ∀ a b c flag payload, frame = a :: b :: c :: flag :: payload → False) :
    ¬Welcomed token frame := by
  rintro ⟨a, b, c, payload, hframe, _⟩
  exact hshort a b c 1 payload hframe

theorem Account.verified_hear (limit : Nat) (token : Option Bytes) (a : Account) (frame : Bytes) :
    (a.hear limit token frame).verified = true ↔ a.verified = true ∨ Welcomed token frame := by
  unfold hear
  split
  · unfold Welcomed
    split_ifs <;> simp_all
  · rename_i hshort
    simp [not_welcomed hshort]

namespace Record

def account (r : Record) : Account :=
  r.heard.foldl (fun a e => a.hear r.settings.frameLimit e.1 e.2) .blank

def hear (r : Record) (token : Option Bytes) (frames : List Bytes) : Record :=
  { r with heard := r.heard ++ frames.map (token, ·) }

theorem account_hear (r : Record) (token : Option Bytes) (frames : List Bytes) :
    (r.hear token frames).account =
      frames.foldl (Account.hear r.settings.frameLimit token) r.account := by
  simp [account, hear, List.foldl_append, List.foldl_map]

/-- A client is verified by the hellos that were accepted, and by nothing else. -/
theorem verified_account (r : Record) :
    r.account.verified = true ↔ ∃ e ∈ r.heard, Welcomed e.1 e.2 := by
  have hfold (a : Account) (heard : List (Option Bytes × Bytes)) :
      (heard.foldl (fun a e => a.hear r.settings.frameLimit e.1 e.2) a).verified = true ↔
        a.verified = true ∨ ∃ e ∈ heard, Welcomed e.1 e.2 := by
    induction heard generalizing a with
    | nil => simp
    | cons e heard ih =>
      rw [List.foldl_cons, ih, Account.verified_hear]
      simp [or_assoc]
  rw [account, hfold]
  simp [Account.blank]

example : (⟨⟨8, 0, 0⟩, [(none, [0, 0, 4, 0]), (some [8], [0, 0, 5, 1, 7]),
    (some [7], [0, 0, 5, 1, 7]), (some [8], [0, 0, 5, 0, 9])]⟩ : Record).account =
    ⟨true, welcome.toBytes ++ [0, 0, 5, 0, 9], 1⟩ := by
  decide +kernel

end Record

/-! ## Chronicles -/

/-- What is told of a run of the service. -/
structure Chronicle where
  /-- The settings that were applied last. -/
  settings : Settings
  /-- The clients that ever came, oldest first. -/
  records : List Record
deriving DecidableEq, Repr

def World.framesOf (w : World) (n : Nat) : List Bytes :=
  match w.clients[n]? with
  | none => []
  | some c => c.link.session.ledger.frames

namespace Chronicle

def ofSettings (settings : Settings) : Chronicle :=
  ⟨settings, []⟩

def move (w : World) (m : World.Move) (k : Chronicle) : Chronicle :=
  match m with
  | .accept _ => { k with records := k.records ++ [⟨k.settings.task, []⟩] }
  | .apply settings => { k with settings }
  | .wait _ => k
  | .client n _ =>
    let frames := ((w.move m).framesOf n).drop (w.framesOf n).length
    { k with records := k.records.modify n (·.hear k.settings.token frames) }

def moves (w : World) (k : Chronicle) : List World.Move → Chronicle
  | [] => k
  | m :: list => moves (w.move m) (k.move w m) list

end Chronicle

theorem sum_set_add {records : List Record} {r : Record} {n : Nat} (hr : records[n]? = some r)
    (f : Record → Nat) (r' : Record) :
    ((records.set n r').map f).sum + f r = (records.map f).sum + f r' := by
  induction records generalizing n with
  | nil => simp at hr
  | cons first rest ih =>
    cases n with
    | zero =>
      simp only [List.getElem?_cons_zero, Option.some.injEq] at hr
      simp only [List.set_cons_zero, List.map_cons, List.sum_cons, hr]
      omega
    | succ n =>
      have hrest := ih hr
      simp only [List.set_cons_succ, List.map_cons, List.sum_cons]
      omega

structure Client.Keeps (c : Client) (r : Record) : Prop where
  settings : c.link.session.task.settings = r.settings
  frames : c.link.session.ledger.frames = r.heard.map Prod.snd
  verified : c.link.session.task.verified = r.account.verified
  accepted : c.link.session.ledger.accepted = r.account.replies
  leaving : (∃ e ∈ r.heard, dismisses e.1 e.2 = true) → c.link.session.Leaving

namespace Client

variable {c : Client} {r : Record}

theorem keeps_blank {settings : Task.Settings} (hsettings : c.link.session.task.settings = settings)
    (hverified : c.link.session.task.verified = false) (hledger : c.link.session.ledger = .blank) :
    c.Keeps ⟨settings, []⟩ :=
  ⟨hsettings, by rw [hledger]; rfl, hverified, by rw [hledger]; rfl, by simp⟩

/-- A move of a client adds the frames that it hears to its record, and their echoes to those of the
other clients. -/
theorem Keeps.hear (hc : c.Keeps r) (hsound : c.Sound) (now : Instant) (m : Move) {s : Service}
    {others : Nat} (hechoed : s.echoed = (r.account.echoes + others) % wordBound) :
    ∃ frames, (c.move now m s).2.link.session.ledger.frames =
        c.link.session.ledger.frames ++ frames ∧
      (c.move now m s).2.Keeps (r.hear s.settings.token frames) ∧
      (c.move now m s).1.echoed =
        ((r.hear s.settings.token frames).account.echoes + others) % wordBound := by
  obtain ⟨frames, hheeds⟩ := hsound.heeds now m s
  have hledger : (c.moved now m s).session.ledger.frames =
      c.link.session.ledger.frames ++ frames := hheeds.ledger
  have hsettings := (hsound.goesOn_moved now m s).settings
  -- the counter shows the echoes of the other clients too
  have hbefore : (c.link.over s).session.account = (r.account.plus others).shown := by
    simp only [Session.account, Account.shown, Account.plus, ← hechoed]
    rw [← hc.verified, ← hc.accepted]
    rfl
  have haccount : (c.moved now m s).session.account =
      ((r.hear s.settings.token frames).account.plus others).shown := by
    have hlimit : (c.link.over s).session.task.settings = r.settings := hc.settings
    have hheard := hheeds.account _ hbefore
    rw [Account.foldl_hear_plus, hlimit] at hheard
    rw [hheard, r.account_hear]
    rfl
  refine ⟨frames, hledger, ⟨hsettings.trans hc.settings, ?_, ?_, ?_, ?_⟩, ?_⟩
  · refine hledger.trans ?_
    simp [Record.hear, hc.frames]
  · exact congrArg Account.verified haccount
  · exact congrArg Account.replies haccount
  · rintro ⟨e, he, hdismisses⟩
    refine hheeds.leaving ?_
    rcases List.mem_append.mp he with he | he
    · exact .inl (hc.leaving ⟨e, he, hdismisses⟩)
    · obtain ⟨frame, hframe, rfl⟩ := List.mem_map.mp he
      exact .inr ⟨frame, hframe, hdismisses⟩
  · exact congrArg Account.echoes haccount

end Client

structure World.Recorded (w : World) (k : Chronicle) : Prop where
  housed : w.Housed
  settings : w.service.settings = k.settings
  length : k.records.length = w.clients.length
  keeps : ∀ (n : Nat) (c : Client) (r : Record),
    w.clients[n]? = some c → k.records[n]? = some r → c.Keeps r
  echoed : w.service.echoed = (k.records.map fun r => r.account.echoes).sum % wordBound

namespace World

variable {w : World} {k : Chronicle}

theorem recorded_init (now : Instant) (settings : Settings) (capacity : Nat) :
    (init now settings capacity).Recorded (.ofSettings settings) where
  housed := housed_init now settings capacity
  settings := rfl
  length := rfl
  keeps := by simp [init, ofService]
  echoed := rfl

theorem Recorded.append (hw : w.Recorded k) {c : Client} (hc : c.Keeps ⟨k.settings.task, []⟩)
    {w' : World} (hhoused : w'.Housed) (hclients : w'.clients = w.clients ++ [c])
    (hsettings : w'.service.settings = w.service.settings)
    (hechoed : w'.service.echoed = w.service.echoed) :
    w'.Recorded { k with records := k.records ++ [⟨k.settings.task, []⟩] } := by
  refine ⟨hhoused, hsettings.trans hw.settings, ?_, fun n c' r' hc' hr' => ?_, ?_⟩
  · rw [hclients]
    simp [hw.length]
  · rw [hclients] at hc'
    rcases Nat.lt_trichotomy n w.clients.length with hlt | rfl | hlt
    · rw [List.getElem?_append_left hlt] at hc'
      rw [List.getElem?_append_left (hw.length ▸ hlt)] at hr'
      exact hw.keeps n c' r' hc' hr'
    · rw [← hw.length, List.getElem?_concat_length] at hr'
      rw [List.getElem?_concat_length] at hc'
      cases hc'
      cases hr'
      exact hc
    · obtain ⟨hlt', _⟩ := List.getElem?_eq_some_iff.mp hc'
      rw [List.length_append, List.length_singleton] at hlt'
      omega
  · rw [hechoed, hw.echoed]
    simp [Record.account, Account.blank]

theorem Recorded.exists_record (hw : w.Recorded k) {n : Nat} {c : Client}
    (hc : w.clients[n]? = some c) : ∃ r, k.records[n]? = some r := by
  obtain ⟨hlt, _⟩ := List.getElem?_eq_some_iff.mp hc
  rw [← hw.length] at hlt
  exact ⟨_, List.getElem?_eq_getElem hlt⟩

theorem Recorded.no_record (hw : w.Recorded k) {n : Nat} (hnone : w.clients[n]? = none) :
    k.records[n]? = none := by
  rw [List.getElem?_eq_none_iff, hw.length]
  exact List.getElem?_eq_none_iff.mp hnone

theorem chronicle_client {n : Nat} {c : Client} {r : Record} (hc : w.clients[n]? = some c)
    (hr : k.records[n]? = some r) {m : Client.Move} {frames : List Bytes}
    (hframes : (c.move w.now m w.service).2.link.session.ledger.frames =
      c.link.session.ledger.frames ++ frames) :
    k.move w (.client n m) =
      { k with records := k.records.set n (r.hear k.settings.token frames) } := by
  obtain ⟨hlt, _⟩ := List.getElem?_eq_some_iff.mp hc
  have hnew : (w.move (.client n m)).framesOf n = w.framesOf n ++ frames := by
    rw [World.move, atClient_of_some hc]
    simp only [framesOf, hc, List.getElem?_set_self hlt]
    exact hframes
  rw [Chronicle.move, hnew, List.drop_left, List.modify_eq_set_getElem?, hr]
  rfl

theorem chronicle_nobody {n : Nat} (hnone : k.records[n]? = none) (m : Client.Move) :
    k.move w (.client n m) = k := by
  rw [Chronicle.move, List.modify_eq_set_getElem?, hnone]
  rfl

theorem Recorded.stirred (hw : w.Recorded k) {n : Nat} {c : Client}
    (hc : w.clients[n]? = some c) (m : Client.Move) :
    (w.move (.client n m)).Recorded (k.move w (.client n m)) := by
  have hhoused := hw.housed.move (.client n m)
  have hsound := hw.housed.clients c (List.mem_of_getElem? hc)
  obtain ⟨r, hr⟩ := hw.exists_record hc
  obtain ⟨hlt, _⟩ := List.getElem?_eq_some_iff.mp hc
  obtain ⟨hlt', _⟩ := List.getElem?_eq_some_iff.mp hr
  obtain ⟨others, hothers⟩ : ∃ others,
      (k.records.map fun r => r.account.echoes).sum = r.account.echoes + others :=
    Nat.exists_eq_add_of_le (List.le_sum_of_mem (List.mem_map_of_mem (List.mem_of_getElem? hr)))
  have hcount := hw.echoed
  rw [hothers] at hcount
  obtain ⟨frames, hframes, hkeeps, hechoed⟩ :=
    (hw.keeps n c r hc hr).hear hsound w.now m hcount
  have hmove : w.move (.client n m) = { w with
      service := (c.move w.now m w.service).1
      clients := w.clients.set n (c.move w.now m w.service).2 } := atClient_of_some hc _
  rw [hmove] at hhoused ⊢
  rw [chronicle_client hc hr hframes]
  refine ⟨hhoused, ?_, ?_, fun i c' r' hc' hr' => ?_, ?_⟩
  · exact (hsound.vacates w.now m w.service).1.trans hw.settings
  · simp [hw.length]
  · by_cases hi : i = n
    · subst hi
      rw [List.getElem?_set_self hlt] at hc'
      rw [List.getElem?_set_self hlt', ← hw.settings] at hr'
      cases hc'
      cases hr'
      exact hkeeps
    · rw [List.getElem?_set_ne (Ne.symm hi)] at hc' hr'
      exact hw.keeps i c' r' hc' hr'
  · have hsum := sum_set_add hr (fun r => r.account.echoes) (r.hear k.settings.token frames)
    rw [hothers, ← hw.settings] at hsum
    rw [← hw.settings]
    refine hechoed.trans (congrArg (· % wordBound) ?_)
    dsimp only at hsum ⊢
    omega

theorem Recorded.move (hw : w.Recorded k) (m : Move) : (w.move m).Recorded (k.move w m) := by
  have hhoused := hw.housed.move m
  have hmoved := moved_move hw.housed.registry m
  cases m with
  | accept name =>
    simp only [Chronicle.move]
    generalize w.move (.accept name) = w' at hhoused hmoved
    cases hmoved with
    | refused =>
      have hkeeps := Client.keeps_blank (c := .refused name w.service.settings.task) rfl rfl rfl
      rw [hw.settings] at hkeeps
      exact hw.append hkeeps hhoused (by rw [hw.settings]) rfl rfl
    | taken hroom hplaces hentered =>
      have hkeeps := Client.keeps_blank hentered.settings hentered.verified hentered.ledger
      rw [hw.settings] at hkeeps
      exact hw.append hkeeps hhoused rfl rfl rfl
  | apply settings => exact ⟨hhoused, rfl, hw.length, hw.keeps, hw.echoed⟩
  | wait => exact ⟨hhoused, hw.settings, hw.length, hw.keeps, hw.echoed⟩
  | client n m =>
    cases hc : w.clients[n]? with
    | some c => exact hw.stirred hc m
    | none =>
      have hmove : w.move (.client n m) = w := atClient_of_none hc _
      rw [hmove, chronicle_nobody (hw.no_record hc)]
      exact hw

theorem Recorded.moves (hw : w.Recorded k) (list : List Move) :
    (w.moves list).Recorded (k.moves w list) := by
  induction list generalizing w k with
  | nil => exact hw
  | cons m list ih => exact ih (hw.move m)

/-- In every state of the service, of each client the frames are handled that come first among those
that it has sent, and none of them is malformed. Its replies, and whether it is verified, are what
these frames ask for under the tokens that were in force. The counter shows the echoes of all
clients together. -/
theorem replies_eq_account (now : Instant) (settings : Settings) (capacity : Nat)
    (list : List Move) :
    let w := (init now settings capacity).moves list
    let k := (Chronicle.ofSettings settings).moves (init now settings capacity) list
    w.clients.length = k.records.length ∧
      (∀ (n : Nat) (c : Client) (r : Record), w.clients[n]? = some c → k.records[n]? = some r →
        c.link.session.task.settings = r.settings ∧
          c.link.session.ledger.frames = r.heard.map Prod.snd ∧
          r.heard.map Prod.snd <+: (FrameLink.parse r.settings.frameLimit c.link.peer.said).frames ∧
          (∀ e ∈ r.heard, parse e.2 ≠ .malformed) ∧
          c.link.session.ledger.accepted = r.account.replies ∧
          c.link.session.task.verified = r.account.verified ∧
          ∀ heard, heard <+: r.heard →
            (({ r with heard } : Record).account.verified = true ↔
              ∃ e ∈ heard, Welcomed e.1 e.2)) ∧
      w.service.echoed = (k.records.map fun r => r.account.echoes).sum % wordBound := by
  intro w k
  have hw : w.Recorded k := (recorded_init now settings capacity).moves list
  refine ⟨hw.length.symm, fun n c r hc hr => ?_, hw.echoed⟩
  have hkeeps := hw.keeps n c r hc hr
  have hsound := hw.housed.clients c (List.mem_of_getElem? hc)
  obtain ⟨hwhole, hfront⟩ := hsound.follows.handled hsound.started
  rw [hkeeps.frames, hkeeps.settings] at hwhole
  rw [hkeeps.frames] at hfront
  exact ⟨hkeeps.settings, hkeeps.frames, prefix_parse hwhole hfront,
    fun e he => parse_ne_malformed (hwhole e.2 (List.mem_map_of_mem he)), hkeeps.accepted,
    hkeeps.verified, fun heard _ => Record.verified_account { r with heard }⟩

end World

end FrameLink.Echo
