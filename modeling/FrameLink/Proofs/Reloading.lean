import FrameLink.Program
import FrameLink.Proofs.Config.Layers
import FrameLink.Proofs.Echo.Limits

/-!
# Reloading

The configuration of a program that serves is its command line over the latest files that it could
be resolved over. What earlier files said, and files that it could not be resolved over, show
neither in the configuration nor in the settings of the service. The room of the registry, and the
limits of the clients that are there, stay as they were.
-/

namespace FrameLink.Program

/-- What happens to a program that serves. Settings are applied by hangups only. -/
inductive Incident
  /-- A hangup, with the files as they are then. -/
  | hangup (read : FileReader)
  | accept (name : String)
  | wait (time : Nat)
  | client (number : Nat) (move : Echo.Client.Move)

def Incident.read? : Incident → Option FileReader
  | .hangup read => some read
  | .accept _ | .wait _ | .client _ _ => none

namespace Serving

def ofConfig (network : Network) (filter : LogFilter) (now : Instant) (c : Config) : Serving :=
  ⟨c, filter, ⟨network, .wide, false, .init now c.echoSettings c.maxConnections⟩⟩

def atWorld (s : Serving) (f : Echo.World → Echo.World) : Serving :=
  { s with gateway := { s.gateway with world := f s.gateway.world } }

def step (s : Serving) : Incident → Serving
  | .hangup read => (s.reload read).2.2
  | .accept name => s.atWorld (·.move (.accept name))
  | .wait time => s.atWorld (·.move (.wait time))
  | .client n m => s.atWorld (·.move (.client n m))

def after (s : Serving) (past : List Incident) : Serving :=
  past.foldl step s

variable {s : Serving} {read : FileReader} {a : Arguments} {c next : Config} {e : ConfigError}

theorem eq_ofConfig_of_prepare {network : Network} {environment : Option String} {now : Instant}
    {line : List String} (hprepare : prepare network environment read now line = .ok s) :
    ∃ a c, Arguments.parse line = .ok a ∧ Config.resolve read a = .ok c ∧
      s = ofConfig network (LogFilter.choose environment c.logLevel) now c := by
  unfold prepare at hprepare
  cases hparse : Arguments.parse line with
  | error rejection => cases rejection <;> simp [hparse] at hprepare
  | ok a =>
    cases hresolve : Config.resolve read a with
    | error e => simp [hparse, hresolve] at hprepare
    | ok c =>
      simp only [hparse, hresolve] at hprepare
      cases hworld : c.world? now with
      | none => simp [hworld] at hprepare
      | some world =>
        obtain ⟨service, hservice, rfl⟩ := Option.map_eq_some_iff.mp hworld
        obtain ⟨registry, hregistry, rfl⟩ := Option.map_eq_some_iff.mp hservice
        have hempty : registry = .ofCapacity c.maxConnections := by
          simp only [Registry.create?] at hregistry
          split_ifs at hregistry
          exact (Option.some.inj hregistry).symm
        simp only [hworld, Except.ok.injEq] at hprepare
        exact ⟨a, c, rfl, hresolve, by rw [← hprepare, hempty]; rfl⟩

theorem reload_of_error (hreload : s.config.reload read = .error e) :
    s.reload read = (false, [], s) := by
  simp [reload, hreload]

theorem reload_of_ok (hreload : s.config.reload read = .ok next) :
    (s.reload read).1 = true ∧ (s.reload read).2.2 =
      { s with config := next }.atWorld (·.apply next.echoSettings) := by
  simp [reload, hreload, atWorld, Echo.Gateway.step]

/-- What holds of a program that serves, with the states of the files that it looked at: it is
where the latest of them that was good for its command line has taken it. -/
structure Current (a : Arguments) (capacity : Nat) (states : List FileReader) (s : Serving) :
    Prop where
  resolved : ∃ before good later, states = before ++ good :: later ∧
    Config.resolve good a = .ok s.config ∧
    ∀ read ∈ later, ∃ e, Config.resolve read a = .error e
  settings : s.gateway.world.service.settings = s.config.echoSettings
  housed : s.gateway.world.Housed
  capacity : s.gateway.world.service.registry.capacity = capacity

variable {capacity : Nat} {states : List FileReader}

theorem Current.reload_eq (hs : Current a capacity states s) (read : FileReader) :
    s.config.reload read = Config.resolve read a := by
  obtain ⟨_, _, _, _, hgood, _⟩ := hs.resolved
  rw [Config.reload, Config.arguments_of_resolve hgood]

/-- A reload fails for a reason of the files or of the limit on frames, and then changes nothing.
Otherwise the new configuration takes the place of the old one, and its settings that of the old
settings. -/
theorem Current.reload_cases (hs : Current a capacity states s) (read : FileReader) :
    (∃ e, Config.Fails read a e) ∧ s.reload read = (false, [], s) ∨
      (¬∃ e, Config.Fails read a e) ∧ ∃ next, Config.resolve read a = .ok next ∧
        (s.reload read).1 = true ∧ (s.reload read).2.2 =
          { s with config := next }.atWorld (·.apply next.echoSettings) := by
  have hreload := hs.reload_eq read
  rcases Config.resolve_cases read a with ⟨hok, _⟩ | ⟨e, herror, hfails⟩
  · refine .inr ⟨fun ⟨e, hfails⟩ => ?_, _, hok, reload_of_ok (hreload.trans hok)⟩
    rw [hfails.resolve] at hok
    cases hok
  · exact .inl ⟨⟨e, hfails⟩, reload_of_error (hreload.trans herror)⟩

theorem Current.hangup (hs : Current a capacity states s) (read : FileReader) :
    Current a capacity (states ++ [read]) (s.reload read).2.2 := by
  rcases hs.reload_cases read with ⟨⟨e, hfails⟩, hsame⟩ | ⟨_, next, hresolve, _, hnext⟩
  · -- the files are one more state behind the latest good one
    rw [hsame]
    obtain ⟨before, good, later, hstates, hgood, hlater⟩ := hs.resolved
    refine ⟨⟨before, good, later ++ [read], ?_, hgood, fun bad hbad => ?_⟩, hs.settings,
      hs.housed, hs.capacity⟩
    · rw [hstates, List.append_assoc, List.cons_append]
    · rcases List.mem_append.mp hbad with hbad | hbad
      · exact hlater bad hbad
      · exact ⟨e, List.mem_singleton.mp hbad ▸ hfails.resolve⟩
  · rw [hnext]
    have hcapacity := hs.housed.capacity_move (.apply next.echoSettings)
    exact ⟨⟨states, read, [], rfl, hresolve, nofun⟩, rfl,
      hs.housed.move (.apply next.echoSettings), hcapacity.trans hs.capacity⟩

theorem Current.move (hs : Current a capacity states s) {m : Echo.World.Move}
    (hm : ∀ settings, m ≠ .apply settings) : Current a capacity states (s.atWorld (·.move m)) :=
  ⟨hs.resolved, (hs.housed.settings_move hm).trans hs.settings, hs.housed.move m,
    (hs.housed.capacity_move m).trans hs.capacity⟩

theorem Current.step (hs : Current a capacity states s) (x : Incident) :
    Current a capacity (states ++ x.read?.toList) (s.step x) := by
  cases x with
  | hangup read => exact hs.hangup read
  | accept | wait | client =>
    rw [Incident.read?, Option.toList_none, List.append_nil]
    exact hs.move nofun

theorem Current.after (hs : Current a capacity states s) (past : List Incident) :
    Current a capacity (states ++ past.filterMap Incident.read?) (s.after past) := by
  induction past generalizing states s with
  | nil => exact (List.append_nil states).symm ▸ hs
  | cons x past ih =>
    have hrest := ih (hs.step x)
    have hstates : (x :: past).filterMap Incident.read? =
        x.read?.toList ++ past.filterMap Incident.read? := by
      cases hread : x.read? <;> simp [hread]
    rwa [List.append_assoc, ← hstates] at hrest

-- the limit is the last one in bounds, and the token went with the first file
example :
    let file (text : String) : FileReader := fun _ => .ok text.toUTF8.toList
    let started := prepare .loopback none (file "[echo]\nauth_token = \"old\"") 0
      ["--config", "echo.toml"]
    let past := [.hangup (file "[task]\nmax_frame_size = 64"),
      .hangup (file "[task]\nmax_frame_size = 3")]
    let ended := started.toOption.map fun s => (s.after past).config
    ended.map (fun c => (c.token, c.frameLimit)) = some (none, 64) := by
  decide +kernel

end Serving

end FrameLink.Program
