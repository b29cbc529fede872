import FrameLink.Registry
import Mathlib.Data.List.Perm.Subperm
import Mathlib.Data.List.Range

/-!
# Slots and the values in them

A registry is seen through `get?`. Its vacant slots are told apart and are those that hold nothing,
so that `place?` finds a slot that nobody has and `erase` gives back no slot twice.
-/

namespace FrameLink.Registry

variable {α : Type} {r r' : Registry α} {slot : Nat}

/-- The vacant slots are all those without a value, each of them once. -/
structure Sound (r : Registry α) : Prop where
  nodup : r.vacant.Nodup
  mem_vacant : ∀ slot, slot ∈ r.vacant ↔ r.slots[slot]? = some none
  bounded : r.slots.length ≤ r.capacity

theorem sound_ofCapacity (capacity : Nat) : (ofCapacity capacity : Registry α).Sound where
  nodup := List.nodup_nil
  mem_vacant := by simp [ofCapacity]
  bounded := Nat.zero_le _

theorem get?_eq_some_iff {a : α} : r.get? slot = some a ↔ r.slots[slot]? = some (some a) := by
  simp [get?, Option.join_eq_some_iff]

theorem mem_toList {entry : Nat × α} : entry ∈ r.toList ↔ r.get? entry.1 = some entry.2 := by
  obtain ⟨slot, a⟩ := entry
  rw [toList, List.mem_filterMap, get?_eq_some_iff]
  constructor
  · rintro ⟨⟨value, n⟩, hvalue, hentry⟩
    obtain ⟨b, rfl, hb⟩ := Option.map_eq_some_iff.mp hentry
    cases hb
    exact List.mem_zipIdx_iff_getElem?.mp hvalue
  · intro hslot
    exact ⟨(some a, slot), List.mem_zipIdx_iff_getElem?.mpr hslot, rfl⟩

theorem join_getElem?_set {slots : List (Option α)} (hlt : slot < slots.length) (v : Option α)
    (other : Nat) :
    ((slots.set slot v)[other]?).join = if other = slot then v else (slots[other]?).join := by
  by_cases h : other = slot
  · subst h
    simp [hlt]
  · simp [h, Ne.symm h]

theorem Sound.get?_of_mem_vacant (hr : r.Sound) (hslot : slot ∈ r.vacant) : r.get? slot = none := by
  simp [get?, (hr.mem_vacant slot).mp hslot]

/-! ## Sizes -/

theorem Sound.lt_of_mem_vacant (hr : r.Sound) (hslot : slot ∈ r.vacant) :
    slot < r.slots.length := by
  obtain ⟨hlt, _⟩ := List.getElem?_eq_some_iff.mp ((hr.mem_vacant slot).mp hslot)
  exact hlt

theorem Sound.length_vacant_le (hr : r.Sound) : r.vacant.length ≤ r.slots.length := by
  have hsubset : r.vacant ⊆ List.range r.slots.length :=
    fun slot hslot => List.mem_range.mpr (hr.lt_of_mem_vacant hslot)
  have hle := (List.subperm_of_subset hr.nodup hsubset).length_le
  rwa [List.length_range] at hle

theorem Sound.size_le_capacity (hr : r.Sound) : r.size ≤ r.capacity := by
  have hbounded := hr.bounded
  simp only [size]
  omega

theorem isFull_eq_false_iff : r.isFull = false ↔ r.size < r.capacity := by
  simp [isFull]

/-! ## Erasing -/

theorem get?_erase (r : Registry α) (slot other : Nat) :
    (r.erase slot).get? other = if other = slot then none else r.get? other := by
  unfold erase
  cases hslot : r.get? slot with
  | none =>
    split_ifs with hother
    · rw [hother, hslot]
    · rfl
  | some a =>
    obtain ⟨hlt, _⟩ := List.getElem?_eq_some_iff.mp (get?_eq_some_iff.mp hslot)
    exact join_getElem?_set hlt none other

theorem capacity_erase (r : Registry α) (slot : Nat) : (r.erase slot).capacity = r.capacity := by
  unfold erase
  split <;> rfl

theorem Sound.notMem_vacant {a : α} (hr : r.Sound) (hslot : r.get? slot = some a) :
    slot ∉ r.vacant := by
  intro hvacant
  rw [hr.get?_of_mem_vacant hvacant] at hslot
  cases hslot

theorem Sound.erase (hr : r.Sound) (slot : Nat) : (r.erase slot).Sound := by
  cases hslot : r.get? slot with
  | none => simpa [Registry.erase, hslot] using hr
  | some a =>
    obtain ⟨hlt, _⟩ := List.getElem?_eq_some_iff.mp (get?_eq_some_iff.mp hslot)
    simp only [Registry.erase, hslot]
    refine ⟨List.nodup_cons.mpr ⟨hr.notMem_vacant hslot, hr.nodup⟩, fun other => ?_, ?_⟩
    · rw [List.mem_cons, hr.mem_vacant, List.getElem?_set]
      split_ifs with h <;> simp_all
      omega
    · simpa using hr.bounded

theorem Sound.size_erase {a : α} (hr : r.Sound) (hslot : r.get? slot = some a) :
    (r.erase slot).size + 1 = r.size := by
  have hsound := hr.erase slot
  have hle := hsound.length_vacant_le
  simp only [Registry.erase, hslot, size, List.length_set, List.length_cons] at hle ⊢
  omega

/-! ## Placing -/

/-- What becomes of a registry that takes a value into a slot. -/
structure Places (r : Registry α) (slot : Nat) (a : α) (r' : Registry α) : Prop where
  sound : r'.Sound
  capacity : r'.capacity = r.capacity
  size : r'.size = r.size + 1
  lt : slot < r.capacity
  vacant : r.get? slot = none
  get? : ∀ other, r'.get? other = if other = slot then some a else r.get? other

theorem placeWith?_of_isFull {σ : Type} (hfull : r.isFull = true) (build : Nat → σ → α × σ)
    (s : σ) : r.placeWith? build s = (none, s) := by
  simp [placeWith?, hfull]

theorem place?_of_isFull (hfull : r.isFull = true) (build : Nat → α) : r.place? build = none := by
  rw [place?, placeWith?_of_isFull hfull]
  rfl

theorem Sound.place_vacant (hr : r.Sound) {vacant : List Nat} (hvacant : r.vacant = slot :: vacant)
    (a : α) : r.Places slot a { r with slots := r.slots.set slot (some a), vacant } := by
  have hmem : slot ∈ r.vacant := by simp [hvacant]
  have hlt := hr.lt_of_mem_vacant hmem
  have hle := hr.length_vacant_le
  have hnodup := hr.nodup
  have hbounded := hr.bounded
  rw [hvacant] at hle hnodup
  refine ⟨⟨(List.nodup_cons.mp hnodup).2, fun other => ?_, ?_⟩, rfl, ?_, by omega,
    hr.get?_of_mem_vacant hmem, fun other => ?_⟩
  · have hother := hr.mem_vacant other
    rw [hvacant, List.mem_cons] at hother
    rw [List.getElem?_set]
    split_ifs with h
    · subst h
      simp [(List.nodup_cons.mp hnodup).1]
    · rw [← hother]
      simp [Ne.symm h]
  · simpa using hbounded
  · simp only [size, hvacant, List.length_set, List.length_cons] at hle ⊢
    omega
  · exact join_getElem?_set hlt (some a) other

theorem Sound.place_new (hr : r.Sound) (hvacant : r.vacant = []) (hfull : r.isFull = false)
    (a : α) :
    r.Places r.slots.length a { r with slots := r.slots ++ [some a] } := by
  have hlt := isFull_eq_false_iff.mp hfull
  simp only [size, hvacant, List.length_nil, Nat.sub_zero] at hlt
  refine ⟨⟨hr.nodup, fun other => ?_, ?_⟩, rfl, ?_, hlt, ?_, fun other => ?_⟩
  · rw [hr.mem_vacant, List.getElem?_append]
    split_ifs with h
    · rfl
    · rw [List.getElem?_eq_none (by omega)]
      cases hother : other - r.slots.length <;> simp
  · simp only [List.length_append, List.length_singleton]
    omega
  · simp [size, hvacant]
  · simp [Registry.get?]
  · simp only [Registry.get?, List.getElem?_append]
    split_ifs with h h' h'
    · omega
    · rfl
    · simp [h']
    · have hpos : [some a].length ≤ other - r.slots.length := by
        rw [List.length_singleton]
        omega
      rw [List.getElem?_eq_none hpos, List.getElem?_eq_none (by omega)]

theorem Sound.fill (hr : r.Sound) (hfull : r.isFull = false) (a : α) :
    r.Places r.nextSlot a (r.fill a) := by
  cases hvacant : r.vacant with
  | nil =>
    simp only [nextSlot, Registry.fill, hvacant, List.headD_nil]
    exact hvacant ▸ hr.place_new hvacant hfull a
  | cons slot vacant =>
    simp only [nextSlot, Registry.fill, hvacant, List.headD_cons]
    exact hr.place_vacant hvacant a

theorem placeWith?_of_not_isFull {σ : Type} (hfull : r.isFull = false) (build : Nat → σ → α × σ)
    (s : σ) :
    r.placeWith? build s =
      (some (r.nextSlot, (build r.nextSlot s).1, r.fill (build r.nextSlot s).1),
        (build r.nextSlot s).2) := by
  simp [placeWith?, hfull]

theorem Sound.place (hr : r.Sound) (hfull : r.isFull = false) (build : Nat → α) :
    ∃ slot r', r.place? build = some (slot, r') ∧ r.Places slot (build slot) r' := by
  refine ⟨r.nextSlot, r.fill (build r.nextSlot), ?_, hr.fill hfull _⟩
  rw [place?, placeWith?_of_not_isFull hfull]
  rfl

end FrameLink.Registry
