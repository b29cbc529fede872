import FrameLink.Proofs.Buffer.History
import FrameLink.Proofs.Stream.Receiving

/-!
# The reads of a call

Each read of `gather` is recorded with the space that it is offered and with its answer. No read is
offered an empty space, and none is made once enough has arrived.
-/

namespace FrameLink.Reader

/-- A read: the space that it is offered, and its answer. -/
structure Call where
  space : Nat
  answer : Outcome
deriving DecidableEq, Repr

def Call.bytes (c : Call) : Bytes :=
  match c.answer with
  | .data bytes => bytes
  | _ => []

def servedBy (calls : List Call) : Bytes :=
  calls.flatMap Call.bytes

/-- `gather` with a record of its reads. -/
def record (need total : Nat) (b : Buffer) (r : Reader) :
    List Call × Gathered × Buffer × Reader :=
  if total < need then
    match r.read b.freeSize with
    | (.data [], r) => ([⟨b.freeSize, .data []⟩], .failed (closedEarly total need), b, r)
    | (.data (x :: bytes), r) =>
      let rest := record need (total + (x :: bytes).length) (b.fill (x :: bytes)) r
      (⟨b.freeSize, .data (x :: bytes)⟩ :: rest.1, rest.2)
    | (.failed e, r) => ([⟨b.freeSize, .failed e⟩], .failed e, b, r)
    | (.waiting, r) => ([⟨b.freeSize, .waiting⟩], .waiting, b, r)
  else ([], .enough total, b, r)
termination_by need - total
decreasing_by simp only [List.length_cons]; omega

/-- What a record shows of reads for `need` bytes, of which `total` had arrived before: each is
offered some space and made because bytes are missing, and their bytes go behind the unread ones. -/
structure Shows (need total : Nat) (b : Buffer) (calls : List Call) (b' : Buffer) : Prop where
  offered : ∀ c ∈ calls, 0 < c.space
  missing : ∀ before c later, calls = before ++ c :: later →
    total + (servedBy before).length < need
  length : calls.length ≤ need - total
  unread : b'.unread = b.unread ++ servedBy calls

variable {need total : Nat} {b b' : Buffer} {r : Reader} {c : Call} {calls : List Call}

theorem servedBy_cons (c : Call) (calls : List Call) :
    servedBy (c :: calls) = c.bytes ++ servedBy calls :=
  List.flatMap_cons

theorem Shows.nothing (need total : Nat) (b : Buffer) : Shows need total b [] b where
  offered := List.forall_mem_nil _
  missing := fun _ _ _ hsplit => by simp at hsplit
  length := Nat.zero_le _
  unread := (List.append_nil _).symm

theorem Shows.read (hlt : total < need) (hspace : 0 < c.space)
    (hfits : c.bytes.length ≤ b.freeSize) (hlength : (c :: calls).length ≤ need - total)
    (h : Shows need (total + c.bytes.length) (b.fill c.bytes) calls b') :
    Shows need total b (c :: calls) b' where
  offered := List.forall_mem_cons.mpr ⟨hspace, h.offered⟩
  missing := fun before c' later hsplit => by
    rcases List.cons_eq_append_iff.mp hsplit with ⟨rfl, -⟩ | ⟨before', rfl, hlater⟩
    · exact hlt
    · have hmissing := h.missing before' c' later hlater
      rw [servedBy_cons, List.length_append]
      omega
  length := hlength
  unread := by
    rw [h.unread, Buffer.unread_fill hfits, List.append_assoc, servedBy_cons]

theorem Shows.last (hlt : total < need) (hspace : 0 < c.space) (hbytes : c.bytes = []) :
    Shows need total b [c] b := by
  have hnothing : Shows need (total + c.bytes.length) (b.fill c.bytes) [] b := by
    rw [hbytes, Buffer.fill_nil]
    exact .nothing need _ b
  refine .read hlt hspace ?_ ?_ hnothing
  · rw [hbytes]
    exact Nat.zero_le _
  · rw [List.length_singleton]
    omega

theorem Shows.more (hlt : total < need) (hspace : 0 < c.space)
    (hfits : c.bytes.length ≤ b.freeSize) (hbytes : c.bytes ≠ [])
    (h : Shows need (total + c.bytes.length) (b.fill c.bytes) calls b') :
    Shows need total b (c :: calls) b' := by
  have hpos := List.length_pos_iff.mpr hbytes
  have hlength := h.length
  refine .read hlt hspace hfits ?_ h
  rw [List.length_cons]
  omega

open Buffer (Bench Use)

end FrameLink.Reader
