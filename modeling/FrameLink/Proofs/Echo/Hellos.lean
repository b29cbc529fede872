import FrameLink.Config.Resolve
import FrameLink.Proofs.Echo.Dismissal

/-!
# What is answered to a hello

A client has one reply coming to it for each of its hellos that is handled: a welcome for those that
verify it, a denial for the others. It gets those of them that obey its limit on frames, in order,
and no other frame of that flag. A limit that admits a denial admits both replies, but there are
configurations with less.
-/

namespace FrameLink.Echo

/-- Whether a frame has the flag of a hello, which that of the reply is too. -/
def greets : Bytes → Bool
  | _ :: _ :: _ :: flag :: _ => flag == helloFlag
  | _ => false

/-- The reply that a hello has coming to it while this token is in force. -/
def replyTo? (token : Option Bytes) : Bytes → Option Frame
  | _ :: _ :: _ :: flag :: payload =>
    if flag = helloFlag then some (if Admits token payload then welcome else denial) else none
  | _ => none

def fitting (limit : Nat) (frames : List Frame) : List Bytes :=
  (frames.filter (·.length ≤ limit)).map Frame.toBytes

theorem isSome_replyTo? (token : Option Bytes) (frame : Bytes) :
    (replyTo? token frame).isSome = greets frame := by
  unfold replyTo? greets
  split
  · split_ifs <;> simp_all
  · rfl

theorem welcome_ne_denial : welcome ≠ denial := by
  decide +kernel

theorem replyTo?_eq_welcome_iff (token : Option Bytes) (frame : Bytes) :
    replyTo? token frame = some welcome ↔ Welcomed token frame := by
  have hne := welcome_ne_denial.symm
  unfold replyTo?
  split
  · unfold Welcomed
    split_ifs <;> simp_all [helloFlag]
  · rename_i hshort
    simp [not_welcomed hshort]

theorem fitting_append (limit : Nat) (first second : List Frame) :
    fitting limit (first ++ second) = fitting limit first ++ fitting limit second := by
  simp [fitting]

theorem flatten_fitting (limit : Nat) (f : Frame) :
    (fitting limit [f]).flatten = if f.length ≤ limit then f.toBytes else [] := by
  unfold fitting
  split_ifs with hfits <;> simp [hfits]

theorem fitting_of_le {limit : Nat} {frames : List Frame}
    (hfits : ∀ f ∈ frames, f.length ≤ limit) : fitting limit frames = frames.map Frame.toBytes := by
  rw [fitting, List.filter_eq_self.mpr fun f hf => decide_eq_true (hfits f hf)]

theorem whole_of_mem_fitting {limit : Nat} {frames : List Frame}
    (hsmall : ∀ f ∈ frames, f.length ≤ largestLength) :
    ∀ bytes ∈ fitting limit frames, Whole limit bytes := by
  intro bytes hbytes
  obtain ⟨f, hf, rfl⟩ := List.mem_map.mp hbytes
  obtain ⟨hmem, hfits⟩ := List.mem_filter.mp hf
  exact whole_toBytes (Nat.le_min.mpr ⟨of_decide_eq_true hfits, hsmall f hmem⟩)

theorem filter_fitting {limit : Nat} {frames : List Frame}
    (hflag : ∀ f ∈ frames, f.flag = helloFlag) :
    (fitting limit frames).filter greets = fitting limit frames := by
  refine List.filter_eq_self.mpr fun bytes hbytes => ?_
  obtain ⟨f, hf, rfl⟩ := List.mem_map.mp hbytes
  have hgreets : greets f.toBytes = (f.flag == helloFlag) := rfl
  rw [hgreets, hflag f (List.mem_filter.mp hf).1, beq_self_eq_true]

theorem Account.exists_replies {limit : Nat} {frame : Bytes} (hwhole : Whole limit frame)
    (token : Option Bytes) (a : Account) :
    ∃ frames : List Bytes, (a.hear limit token frame).replies = a.replies ++ frames.flatten ∧
      (∀ f ∈ frames, Whole limit f) ∧
      frames.filter greets = fitting limit (replyTo? token frame).toList := by
  obtain ⟨⟨flag, payload⟩, ⟨x, y, z, rfl⟩, _, hfits⟩ := hwhole.ofBytes?
  -- the payload of an echo comes back under a flag that is not that of a hello
  by_cases hecho : flag = 0
  · subst hecho
    have hgreets : greets (⟨0, payload⟩ : Frame).toBytes = false := rfl
    cases hverified : a.verified with
    | true =>
      exact ⟨[(⟨0, payload⟩ : Frame).toBytes], by simp [hear, hverified],
        by simp [whole_toBytes hfits], by simp [hgreets, replyTo?, helloFlag, fitting]⟩
    | false =>
      exact ⟨[], by simp [hear, hverified], by simp, by simp [replyTo?, helloFlag, fitting]⟩
  by_cases hhello : flag = 1
  · subst hhello
    have hreply : replyTo? token (x :: y :: z :: 1 :: payload) =
        some (if Admits token payload then welcome else denial) := rfl
    rw [hreply, Option.toList_some]
    refine ⟨_, ?_, whole_of_mem_fitting ?_, filter_fitting ?_⟩
    · rw [flatten_fitting]
      simp only [hear]
      split_ifs <;> rfl
    · split_ifs <;> simp [welcome_small, denial_small]
    · split_ifs <;> simp [welcome, denial]
  · exact ⟨[], by simp [hear, hecho, hhello], by simp,
      by simp [replyTo?, helloFlag, hhello, fitting]⟩

namespace Record

variable {settings : Task.Settings} {heard : List (Option Bytes × Bytes)}

/-- The replies to some frames are whole frames, and those among them with the flag of a hello are
the ones that the hellos have coming, as far as they obey the limit. -/
theorem exists_replies (hwhole : ∀ e ∈ heard, Whole settings.frameLimit e.2) :
    ∃ frames : List Bytes, (⟨settings, heard⟩ : Record).account.replies = frames.flatten ∧
      (∀ f ∈ frames, Whole settings.frameLimit f) ∧
      frames.filter greets =
        fitting settings.frameLimit (heard.filterMap fun e => replyTo? e.1 e.2) := by
  induction heard using List.reverseRecOn with
  | nil => exact ⟨[], rfl, by simp, rfl⟩
  | append_singleton heard e ih =>
    obtain ⟨frames, hreplies, hframes, hgreets⟩ := ih fun e' he' => hwhole e' (by simp [he'])
    obtain ⟨more, hadded, hmore, hgreets'⟩ := Account.exists_replies
      (hwhole e (by simp)) e.1 (⟨settings, heard⟩ : Record).account
    have hlast : [e].filterMap (fun e => replyTo? e.1 e.2) = (replyTo? e.1 e.2).toList := by
      cases hreply : replyTo? e.1 e.2 <;> simp [hreply]
    refine ⟨frames ++ more, ?_, ?_, ?_⟩
    · rw [List.flatten_append, ← hreplies, ← hadded]
      simp [account]
    · intro f hf
      exact (List.mem_append.mp hf).elim (hframes f) (hmore f)
    · rw [List.filter_append, hgreets, hgreets', List.filterMap_append, hlast, fitting_append]

theorem length_filterMap_replyTo? (heard : List (Option Bytes × Bytes)) :
    (heard.filterMap fun e => replyTo? e.1 e.2).length = heard.countP (greets ·.2) := by
  simp only [List.length_filterMap_eq_countP, isSome_replyTo?]

theorem length_le_denial {f : Frame} (hf : f ∈ heard.filterMap fun e => replyTo? e.1 e.2) :
    f.length ≤ denial.length := by
  have hle : welcome.length ≤ denial.length := by decide +kernel
  obtain ⟨e, _, hreply⟩ := List.mem_filterMap.mp hf
  unfold replyTo? at hreply
  split at hreply
  · split_ifs at hreply <;> cases hreply
    · exact hle
    · exact Nat.le_refl _
  · cases hreply

theorem verified_iff_welcome_mem (settings : Task.Settings) (heard : List (Option Bytes × Bytes)) :
    (⟨settings, heard⟩ : Record).account.verified = true ↔
      welcome ∈ heard.filterMap fun e => replyTo? e.1 e.2 := by
  simp only [verified_account, List.mem_filterMap, replyTo?_eq_welcome_iff]

end Record

namespace World

/-- In every state of the service, each client has had one reply coming to it for each hello of its
own that was handled, a welcome if this hello verified it and a denial otherwise. Among the frames
that were accepted for sending to it, those with this flag are the replies that obey its limit, in
the order of the hellos. So every hello is answered under limits that admit a denial; under those
that do not, denials are withheld, and under those that do not admit a welcome, welcomes too. -/
theorem hellos_answered (now : Instant) (settings : Settings) (capacity : Nat)
    (list : List Move) :
    let w := (init now settings capacity).moves list
    let k := (Chronicle.ofSettings settings).moves (init now settings capacity) list
    ∀ (n : Nat) (c : Client) (r : Record), w.clients[n]? = some c → k.records[n]? = some r →
      c.link.session.task.settings = r.settings ∧
        c.link.session.ledger.frames = r.heard.map Prod.snd ∧
        c.link.session.ledger.accepted = r.account.replies ∧
        ∀ heard, heard <+: r.heard →
          let account := ({ r with heard } : Record).account
          let limit := r.settings.frameLimit
          let replies := heard.filterMap fun e => replyTo? e.1 e.2
          replies.length = heard.countP (greets ·.2) ∧
            (account.verified = true ↔ welcome ∈ replies) ∧
            ∃ frames, FrameLink.parse limit account.replies = ⟨frames, none, []⟩ ∧
              frames.filter greets = (replies.filter (·.length ≤ limit)).map Frame.toBytes ∧
              (denial.length ≤ limit → frames.filter greets = replies.map Frame.toBytes) := by
  intro w k n c r hc hr
  have hw : w.Recorded k := (recorded_init now settings capacity).moves list
  have hkeeps := hw.keeps n c r hc hr
  have hsound := hw.housed.clients c (List.mem_of_getElem? hc)
  obtain ⟨hwhole, _⟩ := hsound.follows.handled hsound.started
  rw [hkeeps.frames, hkeeps.settings] at hwhole
  refine ⟨hkeeps.settings, hkeeps.frames, hkeeps.accepted, fun heard hheard => ?_⟩
  intro account limit replies
  have hheardWhole : ∀ e ∈ heard, Whole r.settings.frameLimit e.2 :=
    fun e he => hwhole e.2 (List.mem_map_of_mem (hheard.subset he))
  obtain ⟨frames, hreplies, hframes, hgreets⟩ := Record.exists_replies hheardWhole
  refine ⟨Record.length_filterMap_replyTo? heard, Record.verified_iff_welcome_mem r.settings heard,
    frames, ?_, hgreets, fun hlimit => ?_⟩
  · rw [show account.replies = _ from hreplies, parse_flatten hframes]
  · rw [hgreets, fitting_of_le fun f hf => (Record.length_le_denial hf).trans hlimit]

/-- Under the limit 5, which a configuration may have, a hello verifies its client and gets no
reply. -/
theorem welcome_withheld :
    let hello := (⟨helloFlag, []⟩ : Frame).toBytes
    ∃ config,
      Config.resolve (Files.read []) { Arguments.empty with frameLimit := some 5 } = .ok config ∧
      ∃ c, ((init 0 config.echoSettings config.maxConnections).moves
          [.accept "a", .client 0 (.peer (.send hello)), .client 0 .deliver]).clients[0]? = some c ∧
        c.link.session.ledger.frames = [hello] ∧ c.link.session.task.verified = true ∧
        c.link.session.ledger.accepted = [] := by
  intro hello
  let config := Config.merge { Arguments.empty with frameLimit := some 5 } .default
  have hresolve : Config.resolve (Files.read [])
      { Arguments.empty with frameLimit := some 5 } = .ok config := by decide +kernel
  have hclient : (((init 0 config.echoSettings config.maxConnections).moves
      [.accept "a", .client 0 (.peer (.send hello)), .client 0 .deliver]).clients[0]?.map fun c =>
        (c.link.session.ledger.frames, c.link.session.task.verified,
          c.link.session.ledger.accepted)) = some ([hello], true, []) := by
    decide +kernel
  obtain ⟨c, hc, hbooks⟩ := Option.map_eq_some_iff.mp hclient
  obtain ⟨hframes, hrest⟩ := Prod.mk.inj hbooks
  obtain ⟨hverified, haccepted⟩ := Prod.mk.inj hrest
  exact ⟨config, hresolve, c, hc, hframes, hverified, haccepted⟩

end World

end FrameLink.Echo
