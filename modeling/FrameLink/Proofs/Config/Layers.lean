import FrameLink.Config.Resolve

/-!
# The layers of a configuration

A configuration that is resolved has each of its fields from the command line if it is there, else
from the file, else from the defaults. It depends on the command line and on what the file says, and
on nothing else. There is none if the file cannot be read, if it is no configuration file, or if the
limit on frames is out of its bounds after the merge.
-/

namespace FrameLink

namespace FileSettings

variable {α : Type} {s : Section} {name : String} {position : Nat} {read : Toml.Item → Option α}

/-- The value that a section itself has for a field. -/
def Section.said? (s : Section) (name : String) (position : Nat) (read : Toml.Item → Option α) :
    Option α :=
  (s.item? name position).bind read

theorem Section.field?_eq_some {default value : α}
    (hfield : s.field? name position read default = some value) :
    (s.said? name position read).getD default = value := by
  simp only [field?, said?] at hfield ⊢
  cases hitem : s.item? name position with
  | none => simpa [hitem] using hfield
  | some item => simp_all

theorem Section.optional?_eq_some {value : Option α}
    (hfield : s.optional? name position read = some value) :
    s.said? name position read = value := by
  simp only [optional?, said?] at hfield ⊢
  cases hitem : s.item? name position with
  | none => cases s <;> simp_all
  | some item =>
    rw [hitem] at hfield
    obtain ⟨read', hread, rfl⟩ := Option.map_eq_some_iff.mp hfield
    exact hread

/-- What a file says itself, without the defaults. -/
structure Stated where
  listen : Option String
  workers : Option Int
  verifyTimeout : Option Nat
  frameLimit : Option Nat
  token : Option String
  maxConnections : Option Nat
  logLevel : Option String
deriving DecidableEq, Repr

namespace Stated

def nothing : Stated :=
  ⟨none, none, none, none, none, none, none⟩

def ofEntries (root : Toml.Entries) : Stated :=
  let said {α : Type} (name field : String) (position : Nat) (read : Toml.Item → Option α) :=
    (Section.find? root name).bind (·.said? field position read)
  { listen := said "server" "listen" 0 text?
    workers := said "server" "workers" 1 word32?
    verifyTimeout := said "task" "verify_timeout_secs" 0 size?
    frameLimit := said "task" "max_frame_size" 1 size?
    token := said "echo" "auth_token" 0 text?
    maxConnections := said "echo" "max_connections" 1 size?
    logLevel := said "logging" "level" 0 text? }

def orDefault (said : Stated) : FileSettings where
  listen := said.listen.getD default.listen
  workers := said.workers
  verifyTimeout := said.verifyTimeout.getD default.verifyTimeout
  frameLimit := said.frameLimit.getD default.frameLimit
  token := said.token
  maxConnections := said.maxConnections.getD default.maxConnections
  logLevel := said.logLevel.getD default.logLevel

end Stated

theorem ofEntries?_eq_some {root : Toml.Entries} {settings : FileSettings}
    (hof : ofEntries? root = some settings) : settings = (Stated.ofEntries root).orDefault := by
  simp only [ofEntries?, Option.bind_eq_bind, Option.bind_eq_some_iff, Option.some.injEq] at hof
  obtain ⟨server, hserver, task, htask, echo, hecho, logging, hlogging, listen, hlisten, workers,
    hworkers, timeout, htimeout, limit, hlimit, token, htoken, connections, hconnections, level,
    hlevel, rfl⟩ := hof
  simp [Stated.ofEntries, Stated.orDefault, hserver, htask, hecho, hlogging,
    Section.field?_eq_some hlisten, Section.optional?_eq_some hworkers,
    Section.field?_eq_some htimeout, Section.field?_eq_some hlimit,
    Section.optional?_eq_some htoken, Section.field?_eq_some hconnections,
    Section.field?_eq_some hlevel]

end FileSettings

namespace Config

open FileSettings (Stated)

variable {read : FileReader} {a : Arguments} {c : Config} {e : ConfigError}

/-- What the configuration file of a command line says, where it can be read and understood. -/
def stated (read : FileReader) (a : Arguments) : Stated :=
  let root? := do
    let path ← a.config
    let text ← ((read path).bind textOfContent).toOption
    Toml.parse? text
  root?.elim .nothing .ofEntries

theorem fileSettings_eq_ok {settings : FileSettings} (hfile : fileSettings read a = .ok settings) :
    settings = (stated read a).orDefault := by
  unfold fileSettings at hfile
  unfold stated
  cases hpath : a.config with
  | none =>
    rw [hpath] at hfile
    exact (Except.ok.inj hfile).symm
  | some path =>
    simp only [hpath] at hfile
    cases htext : (read path).bind textOfContent with
    | error reason => simp [htext] at hfile
    | ok text =>
      cases hparse : FileSettings.parse? text with
      | none => simp [htext, hparse] at hfile
      | some parsed =>
        simp only [htext, hparse] at hfile
        obtain ⟨root, hroot, hof⟩ := Option.bind_eq_some_iff.mp hparse
        rw [← Except.ok.inj hfile]
        simpa [htext, Except.toOption, hroot] using FileSettings.ofEntries?_eq_some hof

/-- Each field from the command line, else from the file, else from the defaults. -/
def layered (a : Arguments) (said : Stated) : Config where
  listen := (a.listen <|> said.listen).getD FileSettings.default.listen
  workers := a.workers <|> said.workers
  token := a.token <|> said.token
  maxConnections := (a.maxConnections <|> said.maxConnections).getD
    FileSettings.default.maxConnections
  logLevel := (a.logLevel <|> said.logLevel).getD FileSettings.default.logLevel
  frameLimit := (a.frameLimit <|> said.frameLimit).getD FileSettings.default.frameLimit
  verifyTimeout := (a.verifyTimeout <|> said.verifyTimeout).getD FileSettings.default.verifyTimeout
  arguments := a

theorem merge_orDefault (a : Arguments) (said : Stated) :
    merge a said.orDefault = layered a said := by
  simp [merge, layered, Stated.orDefault]

/-- The limits on frames that are accepted. -/
def Bounded (c : Config) : Prop :=
  headerSize ≤ c.frameLimit ∧ c.frameLimit ≤ defaultFrameLimit

/-- Why a command line has no configuration. -/
inductive Fails (read : FileReader) (a : Arguments) : ConfigError → Prop
  | unreadable {path : String} {reason : FileError} (hpath : a.config = some path)
      (hread : (read path).bind textOfContent = .error reason) :
      Fails read a (.unreadable path reason)
  | unparsable {path text : String} (hpath : a.config = some path)
      (hread : (read path).bind textOfContent = .ok text)
      (hparse : FileSettings.parse? text = none) : Fails read a (.unparsable path)
  | badFrameLimit {settings : FileSettings} (hfile : fileSettings read a = .ok settings)
      (hlimit : ¬(layered a (stated read a)).Bounded) :
      Fails read a (.badFrameLimit (layered a (stated read a)).frameLimit)

theorem resolve_of_fileSettings {settings : FileSettings}
    (hfile : fileSettings read a = .ok settings) :
    resolve read a = (layered a (stated read a)).check := by
  rw [resolve, hfile, ← merge_orDefault, ← fileSettings_eq_ok hfile]

theorem check_of_bounded (hlimit : c.Bounded) : c.check = .ok c :=
  if_pos hlimit

theorem check_of_not_bounded (hlimit : ¬c.Bounded) :
    c.check = .error (.badFrameLimit c.frameLimit) :=
  if_neg hlimit

theorem fileSettings_cases (read : FileReader) (a : Arguments) :
    (∃ settings, fileSettings read a = .ok settings) ∨ ∃ e, Fails read a e := by
  cases hpath : a.config with
  | none => exact .inl ⟨.default, by simp [fileSettings, hpath]⟩
  | some path =>
    cases htext : (read path).bind textOfContent with
    | error reason => exact .inr ⟨_, .unreadable hpath htext⟩
    | ok text =>
      cases hparse : FileSettings.parse? text with
      | none => exact .inr ⟨_, .unparsable hpath htext hparse⟩
      | some settings => exact .inl ⟨settings, by simp [fileSettings, hpath, htext, hparse]⟩

theorem Fails.resolve (hfails : Fails read a e) : resolve read a = .error e := by
  cases hfails with
  | unreadable hpath hread => simp [Config.resolve, fileSettings, hpath, hread]
  | unparsable hpath hread hparse => simp [Config.resolve, fileSettings, hpath, hread, hparse]
  | badFrameLimit hfile hlimit => rw [resolve_of_fileSettings hfile, check_of_not_bounded hlimit]

theorem resolve_cases (read : FileReader) (a : Arguments) :
    (resolve read a = .ok (layered a (stated read a)) ∧ (layered a (stated read a)).Bounded) ∨
      ∃ e, resolve read a = .error e ∧ Fails read a e := by
  rcases fileSettings_cases read a with ⟨settings, hfile⟩ | ⟨e, hfails⟩
  · by_cases hlimit : (layered a (stated read a)).Bounded
    · exact .inl ⟨(resolve_of_fileSettings hfile).trans (check_of_bounded hlimit), hlimit⟩
    · have hfails := Fails.badFrameLimit hfile hlimit
      exact .inr ⟨_, hfails.resolve, hfails⟩
  · exact .inr ⟨e, hfails.resolve, hfails⟩

theorem eq_layered_of_resolve (hresolve : resolve read a = .ok c) :
    c = layered a (stated read a) := by
  rcases resolve_cases read a with ⟨hok, _⟩ | ⟨e, herror, _⟩
  · exact Except.ok.inj (hresolve.symm.trans hok)
  · rw [herror] at hresolve
    cases hresolve

theorem arguments_of_resolve (hresolve : resolve read a = .ok c) : c.arguments = a := by
  rw [eq_layered_of_resolve hresolve]
  rfl

end Config

end FrameLink
