import FrameLink.Proofs.Echo.Accounts

/-!
# Clients that are dismissed

A wrong token, or a goodbye, asks the send loop of the client to stop. The next turn of this loop
closes the client, unless it stands in a write, and a client that is closed is heard no more. Until
then it is heard: what stands behind a wrong token in the same delivery is handled as if nothing had
happened.
-/

namespace FrameLink.Echo

namespace Client

variable {c : Client}

theorem Sound.session_move (hc : c.Sound) (hclosed : c.link.session.task.phase = .closed)
    (now : Instant) (m : Move) (s : Service) :
    (c.move now m s).2.link.session = c.link.session := by
  have hnone := hc.session.placed.no_loops (by rw [hclosed]; exact nofun)
  exact session_move_of_no_loops hnone now m s

theorem Sound.closed_of_not_isOpen (hc : c.Sound) (hopen : c.isOpen = false) :
    c.link.session.task.phase = .closed := by
  have hopened := Task.isOpen_eq_false_iff.mp hopen
  cases hphase : c.link.session.task.phase with
  | unstarted => exact absurd hphase hc.started
  | opened => exact absurd hphase hopened
  | closed => rfl

/-- A client that is leaving is closed by the next turn of its send loop, unless it is held up. -/
theorem Sound.held_or_closed_turn (hc : c.Sound) (hleaving : c.link.session.Leaving)
    (now : Instant) (ahead : Nat) (s : Service) :
    (c.move now (.turn ahead) s).2.link.Held ∨
      (c.move now (.turn ahead) s).2.link.session.task.phase = .closed := by
  rcases hleaving with hopen | ⟨hloops, hstop⟩
  · have hclosed := hc.closed_of_not_isOpen hopen
    exact .inr ((hc.session_move hclosed now _ s) ▸ hclosed)
  · have hends : (c.moved now (.turn ahead) s).Held ∨
        (c.link.over s).session.Closes (c.moved now (.turn ahead) s).session :=
      Link.held_or_closes_turn (hc.session.over s) hloops (.inl hstop)
    rcases hends with ⟨hwriting, hfull⟩ | hcloses
    · exact .inl ⟨hwriting, hfull⟩
    · exact .inr (hcloses.closed (hc.resets_moved now (.turn ahead) s).1)

theorem Sound.frames_turn (hc : c.Sound) (now : Instant) (ahead : Nat) (s : Service) :
    (c.move now (.turn ahead) s).2.link.session.ledger.frames = c.link.session.ledger.frames :=
  (Session.unread_flush (hc.session.over s).placed (hc.resets_moved now (.turn ahead) s).1).frames

end Client

namespace World

variable {w : World} {k : Chronicle} {n : Nat} {r : Record}

/-- The client of this number is closed, and this is its record. -/
structure Gone (w : World) (k : Chronicle) (n : Nat) (r : Record) : Prop where
  record : k.records[n]? = some r
  closed : ∃ c, w.clients[n]? = some c ∧ c.link.session.task.phase = .closed

theorem record_unheard {c : Client} (hc : w.clients[n]? = some c) (hr : k.records[n]? = some r)
    {m : Client.Move} (hframes : (c.move w.now m w.service).2.link.session.ledger.frames =
      c.link.session.ledger.frames) : (k.move w (.client n m)).records[n]? = some r := by
  obtain ⟨hlt, _⟩ := List.getElem?_eq_some_iff.mp hr
  rw [chronicle_client hc hr (hframes.trans (List.append_nil _).symm)]
  simp [Record.hear, hlt]

theorem Recorded.gone_move (hw : w.Recorded k) (hgone : w.Gone k n r) (m : Move) :
    (w.move m).Gone (k.move w m) n r := by
  obtain ⟨hr, c, hc, hclosed⟩ := hgone
  obtain ⟨hlt, _⟩ := List.getElem?_eq_some_iff.mp hc
  obtain ⟨hlt', _⟩ := List.getElem?_eq_some_iff.mp hr
  cases m with
  | apply | wait => exact ⟨hr, c, hc, hclosed⟩
  | accept name =>
    obtain ⟨newcomer, hclients, _⟩ := hw.housed.accept name
    refine ⟨?_, c, ?_, hclosed⟩
    · rw [Chronicle.move, List.getElem?_append_left hlt']
      exact hr
    · rw [World.move, hclients, List.getElem?_append_left hlt]
      exact hc
  | client i m =>
    cases hother : w.clients[i]? with
    | none =>
      have hmove : w.move (.client i m) = w := atClient_of_none hother _
      rw [hmove, chronicle_nobody (hw.no_record hother)]
      exact ⟨hr, c, hc, hclosed⟩
    | some other =>
      by_cases hi : i = n
      · subst hi
        rw [hc] at hother
        cases hother
        have hsession := (hw.housed.clients c (List.mem_of_getElem? hc)).session_move hclosed
          w.now m w.service
        refine ⟨record_unheard hc hr (by rw [hsession]), (c.move w.now m w.service).2, ?_,
          hsession ▸ hclosed⟩
        rw [World.move, atClient_of_some hc]
        exact List.getElem?_set_self hlt
      · refine ⟨?_, c, ?_, hclosed⟩
        · rw [Chronicle.move, List.getElem?_modify]
          simp [hi, hr]
        · rw [World.move, atClient_of_some hother]
          exact (List.getElem?_set_ne hi).trans hc

theorem Recorded.gone_moves (hw : w.Recorded k) (hgone : w.Gone k n r) (list : List Move) :
    (w.moves list).Gone (k.moves w list) n r := by
  induction list generalizing w k with
  | nil => exact hgone
  | cons m list ih => exact ih (hw.move m) (hw.gone_move hgone m)

theorem Recorded.gone_turn (hw : w.Recorded k) {c : Client} (hc : w.clients[n]? = some c)
    (hr : k.records[n]? = some r) (hdismissed : ∃ e ∈ r.heard, dismisses e.1 e.2 = true)
    (ahead : Nat) :
    (∃ c', (w.move (.client n (.turn ahead))).clients[n]? = some c' ∧ c'.link.Held) ∨
      (w.move (.client n (.turn ahead))).Gone (k.move w (.client n (.turn ahead))) n r := by
  have hsound := hw.housed.clients c (List.mem_of_getElem? hc)
  have hleaving := (hw.keeps n c r hc hr).leaving hdismissed
  obtain ⟨hlt, _⟩ := List.getElem?_eq_some_iff.mp hc
  have hturned : (w.move (.client n (.turn ahead))).clients[n]? =
      some (c.move w.now (.turn ahead) w.service).2 := by
    rw [World.move, atClient_of_some hc]
    exact List.getElem?_set_self hlt
  refine (hsound.held_or_closed_turn hleaving w.now ahead w.service).imp (fun hheld => ?_)
    fun hclosed => ?_
  · exact ⟨_, hturned, hheld⟩
  · exact ⟨record_unheard hc hr (hsound.frames_turn w.now ahead w.service), _, hturned, hclosed⟩

theorem Recorded.deliver (hw : w.Recorded k) {c : Client} (hc : w.clients[n]? = some c)
    (hr : k.records[n]? = some r) {loops : Task.Loops}
    (hloops : c.link.session.task.loops = some loops) :
    (k.move w (.client n .deliver)).records[n]? = some (r.hear k.settings.token
      (FrameLink.parse r.settings.frameLimit
        (loops.inbound.unread ++ c.link.peer.post.inFlight)).frames) := by
  have hsound := hw.housed.clients c (List.mem_of_getElem? hc)
  have hledger := (hsound.heeds_deliver hloops w.now w.service).ledger
  obtain ⟨hlt, _⟩ := List.getElem?_eq_some_iff.mp hr
  rw [chronicle_client hc hr hledger, (hw.keeps n c r hc hr).settings]
  exact List.getElem?_set_self hlt

/-- In every state of the service a delivery is heard to the last whole frame in it, whatever is
heard before that frame. Once a client was dismissed, the next turn of its send loop closes it,
unless the loop is held up in a write then, and from then on it is heard no more: it gets no reply,
is not verified and adds nothing to the count. -/
theorem dismissed_until_turn (now : Instant) (settings : Settings) (capacity : Nat)
    (list : List Move) :
    let w := (init now settings capacity).moves list
    let k := (Chronicle.ofSettings settings).moves (init now settings capacity) list
    (∀ (n : Nat) (c : Client) (r : Record) (loops : Task.Loops), w.clients[n]? = some c →
      k.records[n]? = some r → c.link.session.task.loops = some loops →
        (k.move w (.client n .deliver)).records[n]? = some (r.hear k.settings.token
          (FrameLink.parse r.settings.frameLimit
            (loops.inbound.unread ++ c.link.peer.post.inFlight)).frames)) ∧
      ∀ (n : Nat) (c : Client) (r : Record) (ahead : Nat) (later : List Move),
        w.clients[n]? = some c → k.records[n]? = some r →
          (∃ e ∈ r.heard, dismisses e.1 e.2 = true) →
            let turn : Move := .client n (.turn ahead)
            (∃ c', (w.move turn).clients[n]? = some c' ∧ c'.link.Held) ∨
              ((k.moves w (turn :: later)).records[n]? = some r ∧
                ∃ c', (w.moves (turn :: later)).clients[n]? = some c' ∧
                  c'.link.session.task.phase = .closed ∧
                  c'.link.session.ledger.frames = r.heard.map Prod.snd ∧
                  c'.link.session.ledger.accepted = r.account.replies ∧
                  c'.link.session.task.verified = r.account.verified) := by
  intro w k
  have hw : w.Recorded k := (recorded_init now settings capacity).moves list
  refine ⟨fun n c r loops hc hr hloops => hw.deliver hc hr hloops,
    fun n c r ahead later hc hr hdismissed => ?_⟩
  intro turn
  refine (hw.gone_turn hc hr hdismissed ahead).imp_right fun hgone => ?_
  obtain ⟨hrecord, c', hc', hclosed⟩ := (hw.move turn).gone_moves hgone later
  have hkeeps := (hw.moves (turn :: later)).keeps n c' r hc' hrecord
  exact ⟨hrecord, c', hc', hclosed, hkeeps.frames, hkeeps.accepted, hkeeps.verified⟩

/-- Behind a wrong token in the same delivery the right one is accepted, and an echo is answered. -/
theorem verified_behind_denial :
    let settings : Settings := ⟨some "secret".toUTF8.toList, .default⟩
    let said := (⟨helloFlag, "guess".toUTF8.toList⟩ : Frame).toBytes ++
      (⟨helloFlag, "secret".toUTF8.toList⟩ : Frame).toBytes ++
      (⟨echoFlag, "ping".toUTF8.toList⟩ : Frame).toBytes
    let list : List Move := [.accept "a", .client 0 (.peer (.send said)), .client 0 .deliver]
    let w := (init 0 settings 1).moves list
    let k := (Chronicle.ofSettings settings).moves (init 0 settings 1) list
    (∃ c r, w.clients[0]? = some c ∧ k.records[0]? = some r ∧
      r.heard.map (fun e => dismisses e.1 e.2) = [true, false, false] ∧
      c.link.session.ledger.accepted = denial.toBytes ++ welcome.toBytes ++
        (⟨echoFlag, "ping".toUTF8.toList⟩ : Frame).toBytes ∧
      c.link.session.task.verified = true) ∧ w.service.echoed = 1 := by
  intro settings said list w k
  have hclient : (w.clients[0]?.map fun c =>
      (c.link.session.ledger.accepted, c.link.session.task.verified)) =
        some (denial.toBytes ++ welcome.toBytes ++
          (⟨echoFlag, "ping".toUTF8.toList⟩ : Frame).toBytes, true) := by
    decide +kernel
  have hrecord : (k.records[0]?.map fun r => r.heard.map fun e => dismisses e.1 e.2) =
      some [true, false, false] := by
    decide +kernel
  have hechoed : w.service.echoed = 1 := by
    decide +kernel
  obtain ⟨c, hc, hbooks⟩ := Option.map_eq_some_iff.mp hclient
  obtain ⟨r, hr, hheard⟩ := Option.map_eq_some_iff.mp hrecord
  obtain ⟨haccepted, hverified⟩ := Prod.mk.inj hbooks
  exact ⟨⟨c, r, hc, hr, hheard, haccepted, hverified⟩, hechoed⟩

end World

end FrameLink.Echo
