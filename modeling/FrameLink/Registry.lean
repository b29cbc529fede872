/-!
# Registries

A registry hands out slots for a bounded number of values. The slot freed last is handed out
first, and where none is free the next new one.
-/

namespace FrameLink

structure Registry (α : Type) where
  capacity : Nat
  /-- The slots that were ever handed out, with the values in them. -/
  slots : List (Option α)
  /-- The vacant ones among them, freed last first. -/
  vacant : List Nat
deriving DecidableEq, Repr

/-- No registry reserves room for more values. -/
def registryBound : Nat := 1 <<< 59 - 1

namespace Registry

variable {α : Type}

def ofCapacity (capacity : Nat) : Registry α :=
  ⟨capacity, [], []⟩

def create? (capacity : Nat) : Option (Registry α) :=
  if registryBound < capacity then none else some (ofCapacity capacity)

def size (r : Registry α) : Nat :=
  r.slots.length - r.vacant.length

def isFull (r : Registry α) : Bool :=
  decide (r.capacity ≤ r.size)

def nextSlot (r : Registry α) : Nat :=
  r.vacant.headD r.slots.length

def fill (r : Registry α) (a : α) : Registry α :=
  match r.vacant with
  | slot :: vacant => { r with slots := r.slots.set slot (some a), vacant }
  | [] => { r with slots := r.slots ++ [some a] }

/-- Has a value made for its slot and puts it into that slot, unless the registry is full. Making a
value may change a state. -/
def placeWith? {σ : Type} (r : Registry α) (build : Nat → σ → α × σ) (s : σ) :
    Option (Nat × α × Registry α) × σ :=
  if r.isFull then (none, s)
  else
    let (a, s) := build r.nextSlot s
    (some (r.nextSlot, a, r.fill a), s)

/-- As `placeWith?`, where making a value changes nothing. -/
def place? (r : Registry α) (build : Nat → α) : Option (Nat × Registry α) :=
  (r.placeWith? (fun slot s => (build slot, s)) ()).1.map fun (slot, _, r) => (slot, r)

def get? (r : Registry α) (slot : Nat) : Option α :=
  (r.slots[slot]?).join

def erase (r : Registry α) (slot : Nat) : Registry α :=
  match r.get? slot with
  | some _ => { r with slots := r.slots.set slot none, vacant := slot :: r.vacant }
  | none => r

def toList (r : Registry α) : List (Nat × α) :=
  r.slots.zipIdx.filterMap fun (value, slot) => value.map (slot, ·)

end Registry

end FrameLink
