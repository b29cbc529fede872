import FrameLink.Proofs.Buffer.Sizes
import Mathlib.Data.List.Infix

/-!
# The past of a buffer

What one use does to the cursors and to the size of the store, and what can be said of a whole list
of uses. A buffer does not remember what was done with it, so that is noted beside it. A copy that
is put aside takes its notes along, and what every use keeps between a buffer and its notes holds in
the end.
-/

namespace FrameLink.Buffer

/-! ## Kinds of uses -/

namespace Use

/-- Neither puts a copy of the buffer aside nor fetches one. -/
def Stays : Use → Prop
  | .step .save | .step .swap => False
  | _ => True

def request : Use → Nat
  | .step (.append bytes) => bytes.length
  | .step (.grow n) => n
  | _ => 0

/-- Fewer bytes are free than are asked for, so the unread ones move, inside the store or to a
larger one. -/
def Moves (b : Buffer) (u : Use) : Prop :=
  b.freeSize < u.request

def Empties (b : Buffer) : Use → Prop
  | .step .reset => True
  | .step (.consume n) => b.unread.length ≤ n
  | .step (.readBytes n) | .step (.readUnsigned n) | .step (.readSigned n)
  | .step (.readReversed n) => n = b.unread.length
  | _ => False

/-- After it the buffer starts at its reserve again. -/
def Renews (b : Buffer) (u : Use) : Prop :=
  u.Empties b ∨ u.Moves b

/-- The bytes that a use is to put in front. -/
def header : Use → Bytes
  | .step (.prepend bytes) => bytes
  | _ => []

/-- Puts at least one byte in front of the unread ones. -/
def Fronts (b : Buffer) (u : Use) : Prop :=
  u.header ≠ [] ∧ (b.prepend? u.header).isSome

/-- How many bytes a use takes out. A read of more bytes than there are takes none. -/
def taken (b : Buffer) : Use → Nat
  | .step (.consume n) => n
  | .step (.readBytes n) | .step (.readUnsigned n) | .step (.readSigned n)
  | .step (.readReversed n) => if n ≤ b.unread.length then n else 0
  | _ => 0

/-- Behind it the first bytes are those from before, except for the ones that it takes out. -/
def LeavesFront : Use → Prop
  | .step .reset | .step (.prepend _) | .step .swap => False
  | _ => True

instance (b : Buffer) (u : Use) : Decidable (u.Moves b) :=
  inferInstanceAs (Decidable (_ < _))

instance (b : Buffer) : DecidablePred (Empties b)
  | .step .reset => .isTrue trivial
  | .step (.consume n) => inferInstanceAs (Decidable (b.unread.length ≤ n))
  | .step (.readBytes n) | .step (.readUnsigned n) | .step (.readSigned n)
  | .step (.readReversed n) => inferInstanceAs (Decidable (n = b.unread.length))
  | .step (.append _) | .step (.fill _) | .step (.advanceWriter _) | .step (.grow _)
  | .step (.prepend _) | .step (.peek _) | .step .save | .step .swap | .step .unreadBytes
  | .step .hasUnread | .step .unreadSize | .step .freeBytes | .step .freeSize
  | .step .storeSize | .step .describe | .write _ => .isFalse id

instance (b : Buffer) (u : Use) : Decidable (u.Renews b) :=
  inferInstanceAs (Decidable (_ ∨ _))

instance (b : Buffer) (u : Use) : Decidable (u.Fronts b) :=
  inferInstanceAs (Decidable (_ ∧ _))

variable {b : Buffer} {u : Use}

theorem cases_of_not_stays (hu : ¬u.Stays) : u = .step .save ∨ u = .step .swap := by
  rcases u with s | bytes
  case write => exact absurd trivial hu
  cases s with
  | save => exact .inl rfl
  | swap => exact .inr rfl
  | _ => exact absurd trivial hu

theorem not_moves (hrequest : u.request = 0) : ¬u.Moves b := by
  unfold Moves
  omega

theorem Moves.cases (hu : u.Moves b) : (∃ bytes, u = .step (.append bytes)) ∨
    ∃ n, u = .step (.grow n) := by
  rcases u with s | bytes
  case write => exact absurd hu (not_moves rfl)
  cases s with
  | append bytes => exact .inl ⟨bytes, rfl⟩
  | grow n => exact .inr ⟨n, rfl⟩
  | _ => exact absurd hu (not_moves rfl)

end Use

/-! ## One use -/

theorem grow_zero (b : Buffer) : b.grow 0 = b :=
  if_pos (Nat.zero_le _)

theorem append_eq (b : Buffer) (bytes : Bytes) :
    b.append bytes = (b.grow bytes.length).fill bytes := by
  cases bytes with
  | nil => rw [List.length_nil, grow_zero, fill_nil, append, if_pos List.isEmpty_nil]
  | cons x bytes => rfl

theorem readCursor_grow (b : Buffer) (n : Nat) :
    (b.grow n).readCursor = if b.freeSize < n then b.reserve else b.readCursor := by
  by_cases hfree : n ≤ b.freeSize
  · rw [Buffer.grow, if_pos hfree, if_neg (Nat.not_lt.mpr hfree)]
  · rw [Buffer.grow, if_neg hfree, if_pos (Nat.not_le.mp hfree)]
    split_ifs <;> rfl

/-- What a use does to the cursors, to the store and to the front of the unread bytes. -/
structure Shifts (b : Buffer) (u : Use) (b' : Buffer) : Prop where
  reserve : b'.reserve = b.reserve
  size : b'.size =
    if u.Moves b then max b.size (b.reserve + b.unread.length + u.request) else b.size
  renewed : u.Renews b → b'.readCursor = b.reserve
  onward : ¬u.Fronts b → ¬u.Renews b → b.readCursor ≤ b'.readCursor
  front : u.LeavesFront → b.unread.drop (u.taken b) <+: b'.unread

variable {b b' : Buffer} {u : Use} {w : Bench} {s : Step}

theorem Shifts.kept (hrequest : u.request = 0) (hempties : ¬u.Empties b)
    (hreserve : b'.reserve = b.reserve) (hsize : b'.size = b.size)
    (hreader : ¬u.Fronts b → b'.readCursor = b.readCursor)
    (hfront : u.LeavesFront → b.unread.drop (u.taken b) <+: b'.unread) : Shifts b u b' where
  reserve := hreserve
  size := by rw [hsize, if_neg (Use.not_moves hrequest)]
  renewed := fun hrenews => absurd hrenews (not_or.mpr ⟨hempties, Use.not_moves hrequest⟩)
  onward := fun hfronts _ => Nat.le_of_eq (hreader hfronts).symm
  front := hfront

theorem Shifts.asked (hrequest : u.request = 0) (hempties : ¬u.Empties b)
    (htaken : u.taken b = 0) : Shifts b u b := by
  refine .kept hrequest hempties rfl rfl (fun _ => rfl) fun _ => ?_
  rw [htaken]
  exact List.prefix_rfl

theorem Shifts.grown {bytes : Bytes} (hempties : ¬u.Empties b)
    (htaken : u.taken b = 0) (hfits : bytes.length ≤ (b.grow u.request).freeSize) :
    Shifts b u ((b.grow u.request).fill bytes) where
  reserve := reserve_grow b u.request
  size := by
    rw [size_fill, size_grow]
    by_cases hmoves : b.freeSize < u.request
    · rw [if_neg (Nat.not_le.mpr hmoves), if_pos (c := u.Moves b) hmoves]
    · rw [if_pos (Nat.not_lt.mp hmoves), if_neg (c := u.Moves b) hmoves]
  renewed := fun hrenews => by
    have hmoves : b.freeSize < u.request := hrenews.resolve_left hempties
    exact (b.readCursor_grow u.request).trans (if_pos hmoves)
  onward := fun _ hrenews => by
    have hmoves : ¬b.freeSize < u.request := fun hmoves => hrenews (.inr hmoves)
    exact Nat.le_of_eq ((b.readCursor_grow u.request).trans (if_neg hmoves)).symm
  front := fun _ => by
    rw [htaken, List.drop_zero, unread_fill hfits, unread_grow]
    exact List.prefix_append _ _

theorem Shifts.consumed {n : Nat} (hrequest : u.request = 0)
    (hempties : u.Empties b ↔ b.unread.length ≤ n) (htaken : u.taken b = n) :
    Shifts b u (b.consume n) where
  reserve := reserve_consume b n
  size := by rw [size_consume, if_neg (Use.not_moves hrequest)]
  renewed := fun hrenews => by
    have hall := hempties.mp (hrenews.resolve_right (Use.not_moves hrequest))
    rw [readCursor_consume, if_neg (Nat.not_lt.mpr hall)]
  onward := fun _ hrenews => by
    have hpart : n < b.unread.length :=
      Nat.not_le.mp fun hall => hrenews (.inl (hempties.mpr hall))
    rw [readCursor_consume, if_pos hpart]
    exact Nat.le_add_right _ _
  front := fun _ => by
    rw [htaken, unread_consume]

theorem Shifts.read {n : Nat} (answer : Bytes → Reply)
    (hrequest : (Use.step s).request = 0)
    (hempties : (Use.step s).Empties w.buffer ↔ n = w.buffer.unread.length)
    (htaken : (Use.step s).taken w.buffer = if n ≤ w.buffer.unread.length then n else 0)
    (hstep : w.step s = w.settle ((w.buffer.read n).map fun out => (answer out.1, out.2))) :
    Shifts w.buffer (.step s) (w.step s).2.buffer := by
  rw [hstep]
  by_cases hn : n ≤ w.buffer.unread.length
  · have hall : n = w.buffer.unread.length ↔ w.buffer.unread.length ≤ n :=
      ⟨fun heq => Nat.le_of_eq heq.symm, Nat.le_antisymm hn⟩
    rw [read_of_le hn]
    exact .consumed hrequest (hempties.trans hall) (htaken.trans (if_pos hn))
  · rw [read_of_not_le hn]
    exact .asked hrequest (fun hall => hn (Nat.le_of_eq (hempties.mp hall)))
      (htaken.trans (if_neg hn))

theorem Shifts.prepend (w : Bench) (bytes : Bytes) :
    Shifts w.buffer (.step (.prepend bytes)) (w.step (.prepend bytes)).2.buffer := by
  rcases Bench.step_prepend w bytes with ⟨-, b, hprepend, -, hstep⟩ | ⟨-, hstep⟩
  · rw [hstep]
    refine .kept rfl id (reserve_prepend hprepend) (size_prepend hprepend) (fun hfronts => ?_) nofun
    -- only the prepending of nothing succeeds without putting bytes in front
    have hnothing : bytes = [] := by
      by_contra hbytes
      exact hfronts ⟨hbytes, Option.isSome_of_eq_some hprepend⟩
    rw [readCursor_prepend hprepend, hnothing]
    rfl
  · rw [hstep]
    exact .kept rfl id rfl rfl (fun _ => rfl) nofun

theorem shifts_use (hw : w.Sound) (hu : u.Proper w.buffer) (hstays : u.Stays) :
    Shifts w.buffer u (w.use u).buffer := by
  have hb := hw.buffer
  rcases u with s | bytes
  case write =>
    rw [Bench.use]
    refine .kept rfl id rfl (size_overwrite ..) (fun _ => rfl) fun _ => ?_
    rw [unread_overwrite]
    exact List.prefix_rfl
  cases s with
  | append bytes =>
    have happend : (w.use (.step (.append bytes))).buffer =
        (w.buffer.grow bytes.length).fill bytes := by
      rw [Bench.use, Bench.step, hb.appendBy hu, append_eq]
      rfl
    rw [happend]
    exact .grown id rfl (w.buffer.le_freeSize_grow bytes.length)
  | grow n =>
    have hgrow : (w.use (.step (.grow n))).buffer = (w.buffer.grow n).fill [] := by
      rw [Bench.use, Bench.step, hb.growBy hu, fill_nil]
      rfl
    rw [hgrow]
    exact .grown id rfl (Nat.zero_le _)
  | fill bytes =>
    rw [Bench.use, Bench.step, fillFree_of_le hu]
    refine .kept rfl id rfl (size_fill ..) (fun _ => rfl) fun _ => ?_
    have hunread := unread_fill hu
    exact hunread ▸ List.prefix_append _ _
  | advanceWriter n =>
    rw [Bench.use, Bench.step, advanceWriter_of_le hu]
    refine .kept rfl id rfl rfl (fun _ => rfl) fun _ => ?_
    have hunread := unread_advance hu
    exact hunread ▸ List.prefix_append _ _
  | consume n => exact .consumed rfl Iff.rfl rfl
  | reset =>
    exact ⟨rfl, rfl, fun _ => rfl, fun _ hrenews => absurd (.inl trivial) hrenews, False.elim⟩
  | prepend bytes => exact .prepend w bytes
  | readBytes n => exact .read .bytes rfl Iff.rfl rfl rfl
  | readUnsigned n =>
    exact .read (fun bytes => .number (Bytes.value bytes)) rfl Iff.rfl rfl
      (Bench.step_readUnsigned hu)
  | readSigned n =>
    exact .read (fun bytes => .number (Bytes.signedValue bytes)) rfl Iff.rfl rfl
      (Bench.step_readSigned hu)
  | readReversed n =>
    exact .read (fun bytes => .number (Bytes.value bytes.reverse)) rfl Iff.rfl rfl
      (Bench.step_readReversed w n)
  | peek n =>
    rw [Bench.use, Bench.step_peek hu]
    exact .asked rfl id rfl
  | save | swap => exact hstays.elim
  | unreadBytes | hasUnread | unreadSize | freeBytes | freeSize | storeSize | describe =>
    exact .asked rfl id rfl

/-! ## Lists of uses -/

namespace Bench

theorem Sound.use (hw : w.Sound) (hu : u.Proper w.buffer) : (w.use u).Sound := by
  cases u with
  | step s => exact (agrees_step hw hu).sound
  | write bytes => exact ⟨hw.buffer.of_size (size_overwrite ..), hw.spare⟩

theorem sound_new {reserve initial : Nat} (hcreate : create reserve initial = .ok b) :
    Sound ⟨b, none⟩ :=
  ⟨sound_create hcreate, fun _ hspare => by cases hspare⟩

/-- Proper use leads from a new buffer to sound ones only. -/
theorem sound_uses {reserve initial : Nat} (hcreate : create reserve initial = .ok b)
    {list : List Use} (hlist : Admits ⟨b, none⟩ list) : (uses ⟨b, none⟩ list).Sound :=
  (queue_uses (sound_new hcreate) hlist).1

theorem uses_append (w : Bench) (list more : List Use) :
    w.uses (list ++ more) = (w.uses list).uses more :=
  List.foldl_append

theorem admits_append (w : Bench) (list more : List Use) :
    w.Admits (list ++ more) ↔ w.Admits list ∧ (w.uses list).Admits more := by
  induction list generalizing w with
  | nil => exact (and_iff_right trivial).symm
  | cons u list ih => exact (and_congr_right fun _ => ih _).trans and_assoc.symm

theorem spare_settle (w : Bench) (outcome : Except Fault (Reply × Buffer)) :
    (w.settle outcome).2.spare = w.spare := by
  cases outcome <;> rfl

theorem spare_use (w : Bench) (hstays : u.Stays) : (w.use u).spare = w.spare := by
  rcases u with s | bytes
  case write => rfl
  cases s with
  | append | fill | advanceWriter | grow | peek | readBytes | readUnsigned | readSigned
  | readReversed =>
    exact spare_settle ..
  | prepend bytes =>
    simp only [use, step]
    split <;> rfl
  | save | swap => exact hstays.elim
  | _ => rfl

end Bench

def Bench.taken (w : Bench) : List Use → Nat
  | [] => 0
  | u :: list => u.taken w.buffer + (w.use u).taken list

/-- The first bytes stay the first ones until they are taken out. -/
theorem front_uses (hw : w.Sound) {list : List Use} (hlist : w.Admits list)
    (hfront : ∀ u ∈ list, u.LeavesFront) :
    w.buffer.unread.drop (w.taken list) <+: (w.uses list).buffer.unread := by
  induction list generalizing w with
  | nil => exact List.prefix_rfl
  | cons u list ih =>
    obtain ⟨hu, hrest⟩ := hlist
    obtain ⟨hleaves, hleft⟩ := List.forall_mem_cons.mp hfront
    have hfirst : w.buffer.unread.drop (u.taken w.buffer) <+: (w.use u).buffer.unread := by
      by_cases hstays : u.Stays
      · exact (shifts_use hw hu hstays).front hleaves
      · rcases Use.cases_of_not_stays hstays with rfl | rfl
        · exact List.prefix_rfl
        · exact hleaves.elim
    have hlater := ih (hw.use hu) hrest hleft
    rw [Bench.taken, ← List.drop_drop]
    exact (hfirst.drop _).trans hlater

/-! ## Notes -/

/-- What is noted about a buffer, and about the copy of one that was put aside. -/
structure Notes (α : Type) where
  buffer : α
  spare : α
deriving DecidableEq, Repr

namespace Notes

variable {α : Type}

/-- The notes after one use; `note` says what it adds to those on the buffer that it is made of. -/
def use (note : Buffer → Use → α → α) (w : Bench) (notes : Notes α) : Use → Notes α
  | .step .save => ⟨notes.buffer, notes.buffer⟩
  | .step .swap => if w.spare.isSome then ⟨notes.spare, notes.buffer⟩ else notes
  | u => { notes with buffer := note w.buffer u notes.buffer }

def uses (note : Buffer → Use → α → α) (w : Bench) (notes : Notes α) : List Use → Notes α
  | [] => notes
  | u :: list => uses note (w.use u) (notes.use note w u) list

structure Holds (P : Buffer → α → Prop) (w : Bench) (notes : Notes α) : Prop where
  buffer : P w.buffer notes.buffer
  spare : ∀ b ∈ w.spare, P b notes.spare

variable {note : Buffer → Use → α → α} {P : Buffer → α → Prop} {notes : Notes α}

theorem use_of_stays (w : Bench) (notes : Notes α) (hstays : u.Stays) :
    notes.use note w u = { notes with buffer := note w.buffer u notes.buffer } := by
  rcases u with s | bytes
  case write => rfl
  cases s with
  | save | swap => exact hstays.elim
  | _ => rfl

theorem Holds.uses (hkept : ∀ (w : Bench) (u : Use) (a : α), w.Sound → u.Proper w.buffer →
      u.Stays → P w.buffer a → P (w.use u).buffer (note w.buffer u a))
    (hnotes : notes.Holds P w) (hw : w.Sound) {list : List Use} (hlist : w.Admits list) :
    (notes.uses note w list).Holds P (w.uses list) := by
  induction list generalizing w notes with
  | nil => exact hnotes
  | cons u list ih =>
    obtain ⟨hu, hrest⟩ := hlist
    refine ih ?_ (hw.use hu) hrest
    by_cases hstays : u.Stays
    · rw [use_of_stays w notes hstays]
      refine ⟨hkept w u _ hw hu hstays hnotes.buffer, ?_⟩
      rw [Bench.spare_use w hstays]
      exact hnotes.spare
    rcases Use.cases_of_not_stays hstays with rfl | rfl
    · -- the copy takes the notes along
      refine ⟨hnotes.buffer, ?_⟩
      rintro b ⟨⟩
      exact hnotes.buffer
    · obtain ⟨b, spare⟩ := w
      cases spare with
      | none => exact hnotes
      | some b' =>
        refine ⟨hnotes.spare b' rfl, ?_⟩
        rintro b'' ⟨⟩
        exact hnotes.buffer

/-- What holds of a new buffer, and is kept by each use for the buffer that it is made of, holds
after all of them. -/
theorem holds_uses (hkept : ∀ (w : Bench) (u : Use) (a : α), w.Sound → u.Proper w.buffer →
      u.Stays → P w.buffer a → P (w.use u).buffer (note w.buffer u a))
    {reserve initial : Nat} (hcreate : create reserve initial = .ok b) {first : α}
    (hfirst : P b first) {list : List Use} (hlist : Bench.Admits ⟨b, none⟩ list) :
    P (Bench.uses ⟨b, none⟩ list).buffer
      (Notes.uses note ⟨b, none⟩ ⟨first, first⟩ list).buffer := by
  have hnone : ∀ b' ∈ (none : Option Buffer), P b' first := fun _ hspare => by cases hspare
  exact (Holds.uses hkept ⟨hfirst, hnone⟩ (Bench.sound_new hcreate) hlist).buffer

end Notes

end FrameLink.Buffer
