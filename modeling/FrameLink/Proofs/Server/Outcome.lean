import FrameLink.Proofs.Server.Order

/-!
# How a run ends

A run succeeds if and only if `init` does and no hook panics before `finalize`. What becomes of
`finalize` itself, which is called last, makes no difference to the result.
-/

namespace FrameLink.Server

/-- No hook panics, but for `finalize`. -/
def Unbroken (events : List Event) : Prop :=
  ∀ name, .ended name none ∈ events → name = .finalize

variable {arrivals : Arrivals} {s : State}

@[simp]
theorem unbroken_nil : Unbroken [] :=
  nofun

@[simp]
theorem unbroken_cons {e : Event} {events : List Event} :
    Unbroken (e :: events) ↔
      (∀ name, e = .ended name none → name = .finalize) ∧ Unbroken events := by
  simp only [Unbroken, List.mem_cons, or_imp, forall_and, eq_comm]

@[simp]
theorem unbroken_append {first second : List Event} :
    Unbroken (first ++ second) ↔ Unbroken first ∧ Unbroken second := by
  simp only [Unbroken, List.mem_append, or_imp, forall_and]

@[simp]
theorem unbroken_passing (arrivals : Arrivals) (s : State) : Unbroken (s.passing arrivals) := by
  simp [Unbroken, State.passing]

theorem ended_mem_calling_iff {name called : HookName} {hook : Hook} {result : Option Bool} :
    .ended name result ∈ s.calling arrivals called hook ↔
      name = called ∧ (s.call arrivals called hook).2 = result := by
  simp [State.calling, State.passing, eq_comm]

theorem unbroken_calling {called : HookName} {hook : Hook} :
    Unbroken (s.calling arrivals called hook) ↔
      ((s.call arrivals called hook).2 = none → called = .finalize) := by
  simp only [Unbroken, ended_mem_calling_iff]
  exact ⟨fun h hpanic => h called ⟨rfl, hpanic⟩, fun h name ⟨hname, hpanic⟩ => hname ▸ h hpanic⟩

theorem unbroken_serving {reloads : List Hook} :
    Unbroken (s.serving arrivals reloads) ↔ (s.serveReload arrivals reloads).2 ≠ none := by
  rw [State.serving, serveReload_eq]
  cases (s.pass arrivals).flags.reload with
  | false => simp
  | true => simp [unbroken_calling]

theorem unbroken_iterating (loops reloads : List Hook) (s : State) :
    Unbroken (s.iterating arrivals loops reloads) ↔
      (s.iterate arrivals loops reloads).2 = true := by
  induction loops generalizing reloads s with
  | nil =>
    rw [State.iterating, State.iterate]
    cases hclosed : (s.pass arrivals).flags.closed with
    | true => simp
    | false =>
      rcases hserve : (s.pass arrivals).serveReload arrivals reloads with ⟨t, _ | rest⟩ <;>
        simp [unbroken_serving, hserve]
  | cons hook loops ih =>
    rw [State.iterating, State.iterate]
    cases hclosed : (s.pass arrivals).flags.closed with
    | true => simp
    | false =>
      rcases hserve : (s.pass arrivals).serveReload arrivals reloads with ⟨t, _ | rest⟩
      · simp [unbroken_serving, hserve]
      · rcases hcall : t.call arrivals .loop hook with ⟨u, _ | result⟩ <;>
          simp [unbroken_serving, unbroken_calling, hserve, hcall, ih]

theorem ended_init_mem_history_iff {script : Script} {flags : Flags} :
    .ended .init (some true) ∈ history arrivals script flags ↔
      (State.call arrivals .init script.init ⟨flags, 0, []⟩).2 = some true := by
  rw [history]
  split_ifs with hok
  · simp [ended_mem_calling_iff, hok]
  · simp [ended_mem_calling_iff]

/-- A run succeeds if and only if `init` does and no hook panics but for `finalize`: a panic of
`init`, of a reload or of the loop makes it fail, in whatever round. The hook `finalize` can do and
return what it likes, or panic, and the result stays the same. -/
theorem run_succeeds_iff (arrivals : Arrivals) (script : Script) (flags : Flags) :
    let h := history arrivals script flags
    ((run arrivals script flags).1 = true ↔
      .ended .init (some true) ∈ h ∧ ∀ name, .ended name none ∈ h → name = .finalize) ∧
    ∀ finalize,
      (run arrivals { script with finalize } flags).1 = (run arrivals script flags).1 := by
  intro h
  refine ⟨?_, fun finalize => rfl⟩
  have hinit : .ended .init (some true) ∈ h ↔ _ := ended_init_mem_history_iff
  show _ ↔ _ ∧ Unbroken h
  rw [hinit, run]
  dsimp only
  split_ifs with hok
  · simp [h, history, hok, unbroken_calling, unbroken_iterating]
  · simp [hok]

/-- A reload that panics does make it fail, though the loop before it came to its end. -/
example : (run (fun _ => []) ⟨⟨[], true⟩, [⟨[.signal .hangup], true⟩], [⟨[.panic], true⟩],
    ⟨[], true⟩⟩ ⟨false, false⟩).1 = false := by
  decide +kernel

/-- A panic of `finalize` makes no run fail. -/
theorem run_of_finalize_panic :
    let script : Script := ⟨⟨[], true⟩, [], [], ⟨[.panic], true⟩⟩
    (run (fun _ => []) script ⟨false, false⟩).1 = true ∧
      .ended .finalize none ∈ history (fun _ => []) script ⟨false, false⟩ := by
  decide +kernel

end FrameLink.Server
