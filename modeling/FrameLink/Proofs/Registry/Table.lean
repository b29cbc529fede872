import FrameLink.Proofs.Registry

/-!
# Registries as bounded maps

A bounded map answers requests by its entries alone, except that it chooses the slot of an insert
among those below its capacity that hold nothing. The registry answers every list of requests as a
bounded map can. A value is made when it is sure to be put into a slot, and only then.
-/

namespace FrameLink.Registry

variable {σ α : Type} {r : Registry α} {slot capacity : Nat} {s : σ}

/-! ## Listing -/

/-- The entries of a map by ascending slot, each of them once. -/
structure Lists (m : Nat → Option α) (entries : List (Nat × α)) : Prop where
  mem : ∀ entry, entry ∈ entries ↔ m entry.1 = some entry.2
  ascending : (entries.map Prod.fst).Pairwise (· < ·)

theorem ascending_toList (r : Registry α) : (r.toList.map Prod.fst).Pairwise (· < ·) := by
  have hslots : r.slots.zipIdx.Pairwise fun entry other => entry.2 < other.2 := by
    rw [← List.pairwise_map, List.zipIdx_map_snd]
    exact List.pairwise_lt_range'
  rw [toList, List.pairwise_map, List.pairwise_filterMap]
  refine hslots.imp fun {entry other} hlt a ha b hb => ?_
  obtain ⟨_, _, rfl⟩ := Option.map_eq_some_iff.mp ha
  obtain ⟨_, _, rfl⟩ := Option.map_eq_some_iff.mp hb
  exact hlt

theorem lists_toList (r : Registry α) : Lists r.get? r.toList :=
  ⟨fun _ => mem_toList, r.ascending_toList⟩

theorem Sound.size_eq_length_toList (hr : r.Sound) : r.size = r.toList.length := by
  have hvacant : ((r.slots.zipIdx.filter fun entry => !entry.1.isSome).map Prod.snd).Perm
      r.vacant := by
    refine (List.perm_ext_iff_of_nodup ?_ hr.nodup).mpr fun slot => ?_
    · refine (List.Sublist.map Prod.snd List.filter_sublist).nodup ?_
      rw [List.zipIdx_map_snd]
      exact List.nodup_range'
    · rw [hr.mem_vacant, List.mem_map]
      constructor
      · rintro ⟨⟨value, n⟩, hentry, rfl⟩
        obtain ⟨hmem, hnone⟩ := List.mem_filter.mp hentry
        cases value with
        | none => exact List.mem_zipIdx_iff_getElem?.mp hmem
        | some a => cases hnone
      · intro hslot
        exact ⟨(none, slot), List.mem_filter.mpr ⟨List.mem_zipIdx_iff_getElem?.mpr hslot, rfl⟩, rfl⟩
  have hlisted : r.toList.length = (r.slots.zipIdx.filter fun entry => entry.1.isSome).length := by
    rw [toList, List.length_filterMap_eq_countP, List.countP_eq_length_filter]
    simp only [Option.isSome_map]
  have hlength := hvacant.length_eq
  have hsplit := List.length_eq_length_filter_add (l := r.slots.zipIdx) fun entry => entry.1.isSome
  rw [List.length_map] at hlength
  rw [List.length_zipIdx] at hsplit
  simp only [size]
  omega

theorem Sound.lt_capacity {a : α} (hr : r.Sound) (hslot : r.get? slot = some a) :
    slot < r.capacity := by
  obtain ⟨hlt, _⟩ := List.getElem?_eq_some_iff.mp (get?_eq_some_iff.mp hslot)
  exact Nat.lt_of_lt_of_le hlt hr.bounded

/-! ## Requests -/

/-- What a registry is asked. A value is made for its slot in a state. -/
inductive Request (σ α : Type)
  | insert (build : Nat → σ → α × σ)
  | get (slot : Nat)
  | remove (slot : Nat)
  | contains (slot : Nat)
  | size
  | list

inductive Reply (α : Type)
  | inserted (entry : Option (Nat × α))
  | value (a : Option α)
  | held (holds : Bool)
  | count (n : Nat)
  | entries (entries : List (Nat × α))
deriving DecidableEq, Repr

def answer (r : Registry α) (s : σ) : Request σ α → Reply α × Registry α × σ
  | .insert build =>
    match r.placeWith? build s with
    | (some (slot, a, r), s) => (.inserted (some (slot, a)), r, s)
    | (none, s) => (.inserted none, r, s)
  | .get slot => (.value (r.get? slot), r, s)
  | .remove slot => (.value (r.get? slot), r.erase slot, s)
  | .contains slot => (.held (r.get? slot).isSome, r, s)
  | .size => (.count r.size, r, s)
  | .list => (.entries r.toList, r, s)

def answers (r : Registry α) (s : σ) : List (Request σ α) → List (Reply α) × Registry α × σ
  | [] => ([], r, s)
  | request :: requests =>
    let (reply, r, s) := r.answer s request
    let (replies, r, s) := r.answers s requests
    (reply :: replies, r, s)

/-- One request to a map of so many entries at most: the reply, the map behind it, and the state
that making a value leaves. -/
inductive Serves (capacity : Nat) (m : Nat → Option α) (s : σ) :
    Request σ α → Reply α → (Nat → Option α) → σ → Prop
  | inserted {build : Nat → σ → α × σ} {slot : Nat} {entries : List (Nat × α)}
      (hentries : Lists m entries) (hroom : entries.length < capacity)
      (hslot : slot < capacity) (hvacant : m slot = none) :
      Serves capacity m s (.insert build) (.inserted (some (slot, (build slot s).1)))
        (fun other => if other = slot then some (build slot s).1 else m other) (build slot s).2
  | refused {build : Nat → σ → α × σ} {entries : List (Nat × α)}
      (hentries : Lists m entries) (hfull : entries.length = capacity) :
      Serves capacity m s (.insert build) (.inserted none) m s
  | got (slot : Nat) : Serves capacity m s (.get slot) (.value (m slot)) m s
  | removed (slot : Nat) :
      Serves capacity m s (.remove slot) (.value (m slot))
        (fun other => if other = slot then none else m other) s
  | contained (slot : Nat) : Serves capacity m s (.contains slot) (.held (m slot).isSome) m s
  | counted {entries : List (Nat × α)} (hentries : Lists m entries) :
      Serves capacity m s .size (.count entries.length) m s
  | listed {entries : List (Nat × α)} (hentries : Lists m entries) :
      Serves capacity m s .list (.entries entries) m s

inductive Serving (capacity : Nat) :
    (Nat → Option α) → σ → List (Request σ α) → List (Reply α) → (Nat → Option α) → σ → Prop
  | nil (m : Nat → Option α) (s : σ) : Serving capacity m s [] [] m s
  | cons {m m' m'' : Nat → Option α} {s s' s'' : σ} {request : Request σ α} {reply : Reply α}
      {requests : List (Request σ α)} {replies : List (Reply α)}
      (hfirst : Serves capacity m s request reply m' s')
      (hrest : Serving capacity m' s' requests replies m'' s'') :
      Serving capacity m s (request :: requests) (reply :: replies) m'' s''

/-! ## Answers -/

theorem answer_insert_of_isFull (hfull : r.isFull = true) (build : Nat → σ → α × σ) (s : σ) :
    r.answer s (.insert build) = (.inserted none, r, s) := by
  simp only [answer, placeWith?_of_isFull hfull]

theorem answer_insert_of_not_isFull (hfull : r.isFull = false) (build : Nat → σ → α × σ) (s : σ) :
    r.answer s (.insert build) =
      (.inserted (some (r.nextSlot, (build r.nextSlot s).1)), r.fill (build r.nextSlot s).1,
        (build r.nextSlot s).2) := by
  simp only [answer, placeWith?_of_not_isFull hfull]

theorem Sound.answer (hr : r.Sound) (s : σ) (request : Request σ α) :
    (r.answer s request).2.1.Sound ∧ (r.answer s request).2.1.capacity = r.capacity ∧
      Serves r.capacity r.get? s request (r.answer s request).1 (r.answer s request).2.1.get?
        (r.answer s request).2.2 := by
  cases request with
  | insert build =>
    have hsize := hr.size_eq_length_toList
    cases hfull : r.isFull with
    | true =>
      have hle := hr.size_le_capacity
      have hge : r.capacity ≤ r.size := by simpa [isFull] using hfull
      rw [answer_insert_of_isFull hfull]
      exact ⟨hr, rfl, .refused r.lists_toList (by omega)⟩
    | false =>
      have hlt := isFull_eq_false_iff.mp hfull
      have hfill := hr.fill hfull (build r.nextSlot s).1
      rw [answer_insert_of_not_isFull hfull]
      refine ⟨hfill.sound, hfill.capacity, ?_⟩
      rw [funext hfill.get?]
      exact .inserted r.lists_toList (by omega) hfill.lt hfill.vacant
  | get slot => exact ⟨hr, rfl, .got slot⟩
  | remove slot =>
    refine ⟨hr.erase slot, r.capacity_erase slot, ?_⟩
    rw [Registry.answer, funext (r.get?_erase slot)]
    exact .removed slot
  | contains slot => exact ⟨hr, rfl, .contained slot⟩
  | size =>
    rw [Registry.answer, hr.size_eq_length_toList]
    exact ⟨hr, rfl, .counted r.lists_toList⟩
  | list => exact ⟨hr, rfl, .listed r.lists_toList⟩

theorem Sound.answers (hr : r.Sound) (s : σ) (requests : List (Request σ α)) :
    (r.answers s requests).2.1.Sound ∧ (r.answers s requests).2.1.capacity = r.capacity ∧
      Serving r.capacity r.get? s requests (r.answers s requests).1
        (r.answers s requests).2.1.get? (r.answers s requests).2.2 := by
  induction requests generalizing r s with
  | nil => exact ⟨hr, rfl, .nil _ s⟩
  | cons request requests ih =>
    obtain ⟨hsound, hcapacity, hfirst⟩ := hr.answer s request
    obtain ⟨hsound', hcapacity', hrest⟩ := ih hsound (r.answer s request).2.2
    rw [hcapacity] at hcapacity' hrest
    exact ⟨hsound', hcapacity', .cons hfirst hrest⟩

theorem answer_of_nothing (r : Registry α) (s : σ) {request : Request σ α}
    (hnothing : (r.answer s request).1 = .inserted none ∨ (r.answer s request).1 = .value none) :
    (r.answer s request).2 = (r, s) := by
  cases request with
  | insert build =>
    cases hfull : r.isFull with
    | true => rw [answer_insert_of_isFull hfull]
    | false => simp [answer_insert_of_not_isFull hfull] at hnothing
  | remove slot =>
    have hvacant : r.get? slot = none := by simpa [answer] using hnothing
    simp [answer, erase, hvacant]
  | get | contains | size | list => rfl

/-- A registry of any capacity answers every list of requests as a bounded map does that was empty
at first. It never holds more values than its capacity, nor one in a slot at or above it, and a
request that comes back with nothing leaves the registry as it was. -/
theorem serves_as_bounded_map (capacity : Nat) (s : σ) (requests : List (Request σ α)) :
    let out := (ofCapacity capacity : Registry α).answers s requests
    Serving capacity (fun _ => none) s requests out.1 out.2.1.get? out.2.2 ∧
      out.2.1.size ≤ capacity ∧
      (∀ slot, capacity ≤ slot → out.2.1.get? slot = none) ∧
      ∀ request, let next := out.2.1.answer out.2.2 request
        next.1 = .inserted none ∨ next.1 = .value none → next.2 = out.2 := by
  intro out
  obtain ⟨hsound, hcapacity, hserving⟩ :=
    (sound_ofCapacity (α := α) capacity).answers s requests
  have hempty : (ofCapacity capacity : Registry α).get? = fun _ => none :=
    funext fun slot => by simp [get?, ofCapacity]
  rw [hempty] at hserving
  have hcap : out.2.1.capacity = capacity := hcapacity
  refine ⟨hserving, hcap ▸ hsound.size_le_capacity, fun slot hslot => ?_,
    fun request hnothing => answer_of_nothing _ _ hnothing⟩
  cases hget : out.2.1.get? slot with
  | none => rfl
  | some a =>
    have hlt := hsound.lt_capacity hget
    rw [hcap] at hlt
    omega

theorem serves_as_bounded_map_twoSlots :
    let number := fun (_ made : Nat) => (made, made + 1)
    let requests : List (Request Nat Nat) :=
      [.insert number, .insert number, .insert number, .remove 0, .insert number, .list]
    let out := (ofCapacity 2 : Registry Nat).answers 0 requests
    out.1 = [.inserted (some (0, 0)), .inserted (some (1, 1)), .inserted none, .value (some 0),
      .inserted (some (0, 2)), .entries [(0, 2), (1, 1)]] ∧
    out.2.2 = 3 ∧
    Serving 2 (fun _ => none) 0 requests out.1 out.2.1.get? out.2.2 ∧
    out.2.1.get? 2 = none ∧
    (out.2.1.answer out.2.2 (.insert number)).2 = out.2 := by
  intro number requests out
  obtain ⟨hserving, _, hbeyond, hnothing⟩ := serves_as_bounded_map 2 0 requests
  exact ⟨by decide, rfl, hserving, hbeyond 2 (Nat.le_refl 2), hnothing (.insert number) (.inl rfl)⟩

end FrameLink.Registry
