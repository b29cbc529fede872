import FrameLink.Proofs.Buffer.Store
import FrameLink.Proofs.Frame.Codec
import FrameLink.Proofs.Stream.Reading
import FrameLink.Stream.Receive
import Mathlib.Logic.Function.Iterate

/-!
# The course of a call

A call of `receive` goes through points: it looks at what is unread, hands over a frame or makes
room, and reads until enough has arrived. Taken one after the other the points lead to what the call
returns. So what every point keeps holds all the time, and not only in the end: the store of the
buffer never gets larger than one frame within the limit asks for.
-/

namespace FrameLink

variable {σ : Type}

namespace Receiving

inductive Point (σ : Type)
  /-- In front of the next look at what is unread. -/
  | looking (state : σ) (buffer : Buffer) (reader : Reader)
  /-- In front of the next read for `need` bytes, of which `total` have arrived. -/
  | reading (need total : Nat) (state : σ) (buffer : Buffer) (reader : Reader)
  | ended (out : Receiving σ)

namespace Point

def buffer : Point σ → Buffer
  | .looking _ buffer _ | .reading _ _ _ buffer _ => buffer
  | .ended out => out.buffer

def next (limit : Nat) (onFrame : σ → Bytes → σ × Bool) : Point σ → Point σ
  | .looking state b r =>
    match Frame.scan b.unread limit with
    | .error e => .ended ⟨state, b, r, .failed (.frame e)⟩
    | .ok (.complete length) =>
      match onFrame state (b.unread.take length) with
      | (state, true) => .looking state (b.consume length) r
      | (state, false) => .ended ⟨state, b.consume length, r, .stopped⟩
    | .ok (.missing count) => .reading count 0 state (b.grow count) r
  | .reading need total state b r =>
    if total < need then
      match r.read b.freeSize with
      | (.data [], r) => .ended ⟨state, b, r, .failed (.io (Reader.closedEarly total need))⟩
      | (.data (x :: bytes), r) =>
        .reading need (total + (x :: bytes).length) state (b.fill (x :: bytes)) r
      | (.failed e, r) => .ended ⟨state, b, r, .failed (.io e)⟩
      | (.waiting, r) => .ended ⟨state, b, r, .waiting⟩
    else .looking state b r
  | .ended out => .ended out

def Leads (limit : Nat) (onFrame : σ → Bytes → σ × Bool) (p q : Point σ) : Prop :=
  ∃ n, (next limit onFrame)^[n] p = q

variable {limit : Nat} {onFrame : σ → Bytes → σ × Bool} {p q t : Point σ}

theorem Leads.refl (p : Point σ) : Leads limit onFrame p p :=
  ⟨0, rfl⟩

theorem Leads.head (hnext : next limit onFrame p = q) (h : Leads limit onFrame q t) :
    Leads limit onFrame p t := by
  obtain ⟨n, hn⟩ := h
  exact ⟨n + 1, by rw [Function.iterate_succ_apply, hnext, hn]⟩

theorem Leads.trans (h : Leads limit onFrame p q) (h' : Leads limit onFrame q t) :
    Leads limit onFrame p t := by
  obtain ⟨n, hn⟩ := h
  obtain ⟨m, hm⟩ := h'
  exact ⟨m + n, by rw [Function.iterate_add_apply, hn, hm]⟩

/-- Where the reads of a call come to. -/
def gathered (s : σ) : Reader.Gathered × Buffer × Reader → Point σ
  | (.enough _, b, r) => .looking s b r
  | (.failed e, b, r) => .ended ⟨s, b, r, .failed (.io e)⟩
  | (.waiting, b, r) => .ended ⟨s, b, r, .waiting⟩

theorem leads_gather (need total : Nat) (s : σ) (b : Buffer) (r : Reader) :
    Leads limit onFrame (.reading need total s b r) (gathered s (r.gather need total b)) := by
  fun_induction Reader.gather need total b r with
  | case1 total b r hlt r' hread => exact .head (by simp [next, gathered, hlt, hread]) (.refl _)
  | case2 total b r hlt x bytes r' hread ih => exact .head (by simp [next, hlt, hread]) ih
  | case3 total b r hlt e r' hread => exact .head (by simp [next, gathered, hlt, hread]) (.refl _)
  | case4 total b r hlt r' hread => exact .head (by simp [next, gathered, hlt, hread]) (.refl _)
  | case5 total b r hge => exact .head (by simp [next, gathered, hge]) (.refl _)

theorem leads_receive (limit : Nat) (onFrame : σ → Bytes → σ × Bool) (s : σ) (b : Buffer)
    (r : Reader) :
    Leads limit onFrame (.looking s b r) (.ended (receive limit onFrame s b r)) := by
  have hreads (n : Nat) (s : σ) (b : Buffer) (r : Reader)
      (hscan : Frame.scan b.unread limit = .ok (.missing n)) :
      Leads limit onFrame (.looking s b r) (gathered s (r.collect n b)) :=
    .head (by simp [next, hscan]) (leads_gather n 0 s (b.grow n) r)
  fun_induction receive limit onFrame s b r with
  | case1 s b r e hscan => exact .head (by simp [next, hscan]) (.refl _)
  | case2 s b r n hscan s' hanswer ih => exact .head (by simp [next, hscan, hanswer]) ih
  | case3 s b r n hscan s' hanswer => exact .head (by simp [next, hscan, hanswer]) (.refl _)
  | case4 s b r n hscan m b' r' hcollect ih =>
    have hreads := hreads n s b r hscan
    rw [hcollect] at hreads
    exact hreads.trans ih
  | case5 s b r n hscan e b' r' hcollect =>
    have hreads := hreads n s b r hscan
    rwa [hcollect] at hreads
  | case6 s b r n hscan b' r' hcollect =>
    have hreads := hreads n s b r hscan
    rwa [hcollect] at hreads

/-! ## The store on the way -/

variable {reserve bound : Nat}

/-- What looks and reads do to the buffer keeps it within a bound that leaves room for one frame. -/
theorem fits_next (hbound : reserve + max headerSize limit ≤ bound)
    (hp : p.buffer.Fits reserve bound) : (next limit onFrame p).buffer.Fits reserve bound := by
  cases p with
  | ended out => exact hp
  | looking s b r =>
    have hb : b.Fits reserve bound := hp
    cases hscan : Frame.scan b.unread limit with
    | error e => simpa only [next, hscan, buffer] using hb
    | ok found =>
      cases found with
      | missing n =>
        have hmissing := Frame.scan_missing_le hscan
        have hgrow := hb.grow (n := n) (by omega)
        simpa only [next, hscan, buffer] using hgrow
      | complete n =>
        obtain ⟨s', wants⟩ : σ × Bool := onFrame s (b.unread.take n)
        simp only [next, hscan]
        split <;> exact hb.consume n
  | reading need total s b r =>
    have hb : b.Fits reserve bound := hp
    simp only [next]
    split_ifs with hlt
    · split
      · exact hb
      · exact hb.fill _
      · exact hb
      · exact hb
    · exact hb

theorem Leads.fits (h : Leads limit onFrame p q) (hbound : reserve + max headerSize limit ≤ bound)
    (hp : p.buffer.Fits reserve bound) : q.buffer.Fits reserve bound := by
  obtain ⟨n, rfl⟩ := h
  induction n with
  | zero => exact hp
  | succ n ih =>
    rw [Function.iterate_succ_apply']
    exact fits_next hbound ih

end Point

end Receiving

end FrameLink
