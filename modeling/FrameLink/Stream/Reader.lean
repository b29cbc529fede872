import FrameLink.Buffer
import FrameLink.IoError

/-!
# Reading from a stream

A reader is the rest of a stream as a list of events: chunks that arrive, polls that find nothing
ready, and failures. Behind the last event the stream is either at its end or silent for now.

`collect` reads into a buffer until a number of bytes has arrived. The room for them is made
once, so that no later read is offered an empty space, which would look like the end of the
stream.
-/

namespace FrameLink

/-- One event of a stream. An empty chunk is an end of the stream for one read. -/
inductive Arrival
  | chunk (bytes : Bytes)
  | pending
  | failure (error : IoError)
deriving DecidableEq, Repr

/-- What lies behind the last event of a stream. -/
inductive Horizon
  | ended
  | silent
deriving DecidableEq, Repr

structure Reader where
  arrivals : List Arrival
  horizon : Horizon
  polls : Nat
deriving DecidableEq, Repr

namespace Reader

def ofArrivals (arrivals : List Arrival) : Reader :=
  ⟨arrivals, .ended, 0⟩

/-- The answer to one read; no data means the end of the stream. -/
inductive Outcome
  | data (bytes : Bytes)
  | failed (error : IoError)
  | waiting
deriving DecidableEq, Repr

/-- What the events that are left amount to: a bound on the reads they serve. -/
def weight (r : Reader) : Nat :=
  r.arrivals.foldr (fun
    | .chunk bytes, n => bytes.length + 1 + n
    | _, n => n + 1) 0

/-- Reads at most `space` bytes, polling on where nothing is ready. -/
def read (space : Nat) (r : Reader) : Outcome × Reader :=
  match r with
  | ⟨[], .ended, polls⟩ => (.data [], ⟨[], .ended, polls + 1⟩)
  | ⟨[], .silent, polls⟩ => (.waiting, ⟨[], .silent, polls⟩)
  | ⟨.pending :: rest, horizon, polls⟩ => read space ⟨rest, horizon, polls + 1⟩
  | ⟨.failure e :: rest, horizon, polls⟩ => (.failed e, ⟨rest, horizon, polls + 1⟩)
  | ⟨.chunk bytes :: rest, horizon, polls⟩ =>
    match bytes.drop space with
    | [] => (.data bytes, ⟨rest, horizon, polls + 1⟩)
    | left => (.data (bytes.take space), ⟨.chunk left :: rest, horizon, polls + 1⟩)
termination_by r.arrivals.length

inductive Gathered
  | enough (total : Nat)
  | failed (error : IoError)
  | waiting
deriving DecidableEq, Repr

def closedEarly (total need : Nat) : IoError :=
  ⟨.unexpectedEof, "connection closed after " ++ toString total ++ " of " ++ toString need
    ++ " bytes"⟩

/-- Reads on until `need` bytes have arrived, of which `total` have. -/
def gather (need total : Nat) (b : Buffer) (r : Reader) : Gathered × Buffer × Reader :=
  if total < need then
    match r.read b.freeSize with
    | (.data [], r) => (.failed (closedEarly total need), b, r)
    | (.data (x :: bytes), r) =>
      gather need (total + (x :: bytes).length) (b.fill (x :: bytes)) r
    | (.failed e, r) => (.failed e, b, r)
    | (.waiting, r) => (.waiting, b, r)
  else (.enough total, b, r)
termination_by need - total
decreasing_by simp only [List.length_cons]; omega

/-- Reads at least `need` bytes into a buffer that has room for them. -/
def collect (need : Nat) (b : Buffer) (r : Reader) : Gathered × Buffer × Reader :=
  gather need 0 (b.grow need) r

def collectWithin (need : Nat) (b : Buffer) (r : Reader) :
    Except Buffer.Fault (Gathered × Buffer × Reader) :=
  (b.growBy need).map fun _ => r.collect need b

/-! ## Progress

A read that serves data uses the stream up, by as much at least as it brings. -/

theorem read_weight (space : Nat) (r : Reader) :
    ∀ x bytes, (r.read space).1 = .data (x :: bytes) →
      (x :: bytes).length + (r.read space).2.weight ≤ r.weight := by
  fun_induction read space r with
  | case1 => simp
  | case2 => simp
  | case3 rest horizon polls ih =>
    intro x bytes h
    have := ih x bytes h
    simp only [weight, List.foldr_cons] at this ⊢
    omega
  | case4 => simp
  | case5 rest horizon polls bytes hleft =>
    intro x taken hx
    simp only [Outcome.data.injEq] at hx
    simp only [weight, List.foldr_cons, hx]
    omega
  | case6 rest horizon polls bytes hleft =>
    intro x taken hx
    simp only [Outcome.data.injEq] at hx
    have htake := congrArg List.length hx
    simp only [List.length_take, List.length_cons] at htake
    simp only [weight, List.foldr_cons, List.length_drop, List.length_cons]
    omega

theorem gather_weight {need total : Nat} {b : Buffer} {r : Reader} :
    ∀ n, (gather need total b r).1 = .enough n →
      (gather need total b r).2.1.unread.length + (gather need total b r).2.2.weight ≤
          b.unread.length + r.weight ∧
        (gather need total b r).2.2.weight ≤ r.weight ∧
        (total < need → (gather need total b r).2.2.weight < r.weight) := by
  fun_induction gather need total b r with
  | case1 => simp
  | case2 total b r hlt x bytes r' hr ih =>
    intro n hn
    have hread := read_weight b.freeSize r x bytes (by rw [hr])
    have hfill := b.length_unread_fill_le (x :: bytes)
    obtain ⟨hunread, hweight, -⟩ := ih n hn
    simp only [hr, List.length_cons] at hread hfill
    omega
  | case3 => simp
  | case4 => simp
  | case5 total b r hge => simp [hge]

theorem collect_weight {need n : Nat} {b b' : Buffer} {r r' : Reader}
    (hneed : 0 < need) (h : r.collect need b = (.enough n, b', r')) :
    b'.unread.length + r'.weight ≤ b.unread.length + r.weight ∧ r'.weight < r.weight := by
  have hgather : r.gather need 0 (b.grow need) = (.enough n, b', r') := h
  have hweight := gather_weight n (congrArg Prod.fst hgather)
  rw [hgather, Buffer.unread_grow] at hweight
  exact ⟨hweight.1, hweight.2.2 hneed⟩

end Reader

end FrameLink
