import FrameLink.Proofs.Echo.Registration
import FrameLink.Proofs.Link.Deadline

/-!
# The limits of a client

A client gets its limit on frames and its deadline from the settings at the time when it is let in,
and has them for as long as it is there. Only new settings change the settings.
-/

namespace FrameLink.Echo

namespace Client

/-- What a client still has of the settings that it was let in with. -/
structure Lasts (c c' : Client) : Prop where
  settings : c'.link.session.task.settings = c.link.session.task.settings
  deadline : ∀ loops', c'.link.session.task.loops = some loops' →
    ∃ loops, c.link.session.task.loops = some loops ∧ loops'.deadline = loops.deadline

theorem Lasts.refl (c : Client) : c.Lasts c :=
  ⟨rfl, fun loops hloops => ⟨loops, hloops, rfl⟩⟩

theorem Lasts.trans {c c' c'' : Client} (hfirst : c.Lasts c') (hsecond : c'.Lasts c'') :
    c.Lasts c'' := by
  refine ⟨hsecond.settings.trans hfirst.settings, fun loops'' hloops'' => ?_⟩
  obtain ⟨loops', hloops', hsame'⟩ := hsecond.deadline loops'' hloops''
  obtain ⟨loops, hloops, hsame⟩ := hfirst.deadline loops' hloops'
  exact ⟨loops, hloops, hsame'.trans hsame⟩

end Client

namespace World

variable {w : World}

theorem Housed.settings_move (hw : w.Housed) {m : Move} (hm : ∀ settings, m ≠ .apply settings) :
    (w.move m).service.settings = w.service.settings := by
  have hmoved := moved_move hw.registry m
  generalize w.move m = w' at hmoved
  cases hmoved with
  | refused | taken | waited | nobody => rfl
  | applied settings => exact absurd rfl (hm settings)
  | stirred m hc => exact ((hw.clients _ (List.mem_of_getElem? hc)).vacates w.now m w.service).1

end World

end FrameLink.Echo
