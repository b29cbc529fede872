import FrameLink.Stream.Reader
import FrameLink.Proofs.Buffer.Store
import Mathlib.Data.List.Basic

/-!
# What reading takes from a stream

`served` and `stop` say in advance what a stream gives: the bytes up to the first read that gives
none, and how that read ends. Reading into a buffer moves bytes from the front of `served` behind
the unread ones. There is room for every read, so no read is taken for the end of the stream that
is not.
-/

namespace FrameLink

def Arrival.bytes : Arrival → Bytes
  | .chunk bytes => bytes
  | _ => []

/-- Neither a failure nor an empty chunk. -/
def Arrival.Flows : Arrival → Prop
  | .chunk bytes => bytes ≠ []
  | .pending => True
  | .failure _ => False

namespace Reader

/-- How the first read that gives no data ends. -/
inductive Stop
  | closed
  | failed (error : IoError)
  | silent
deriving DecidableEq, Repr

/-- What a read of at least `need` bytes fails with, if the stream stops after `total` of them. -/
def Stop.error? (total need : Nat) : Stop → Option IoError
  | .closed => some (closedEarly total need)
  | .failed e => some e
  | .silent => none

/-- The bytes up to the first read that gives none. -/
def servedFrom : List Arrival → Bytes
  | [] => []
  | .pending :: rest => servedFrom rest
  | .failure _ :: _ => []
  | .chunk [] :: _ => []
  | .chunk (x :: bytes) :: rest => (x :: bytes) ++ servedFrom rest

def stopFrom (horizon : Horizon) : List Arrival → Stop
  | [] => if horizon = .ended then .closed else .silent
  | .pending :: rest => stopFrom horizon rest
  | .failure e :: _ => .failed e
  | .chunk [] :: _ => .closed
  | .chunk (_ :: _) :: rest => stopFrom horizon rest

def served (r : Reader) : Bytes :=
  servedFrom r.arrivals

def stop (r : Reader) : Stop :=
  stopFrom r.horizon r.arrivals

/-- All bytes that the stream still holds, those behind failures included. -/
def content (r : Reader) : Bytes :=
  r.arrivals.flatMap Arrival.bytes

theorem servedFrom_flows {arrivals : List Arrival} (h : ∀ a ∈ arrivals, a.Flows) :
    servedFrom arrivals = arrivals.flatMap Arrival.bytes ∧ stopFrom .ended arrivals = .closed := by
  induction arrivals with
  | nil => exact ⟨rfl, rfl⟩
  | cons a arrivals ih =>
    obtain ⟨hserved, hstop⟩ := ih fun a ha => h a (List.mem_cons_of_mem _ ha)
    match a, h a List.mem_cons_self with
    | .pending, _ => exact ⟨hserved, hstop⟩
    | .chunk (x :: bytes), _ => exact ⟨congrArg (x :: bytes ++ ·) hserved, hstop⟩
    | .chunk [], hempty => exact absurd rfl hempty

/-- Exactly these bytes were read between two states of a stream, by reads that gave data. -/
structure Gives (r : Reader) (bytes : Bytes) (r' : Reader) : Prop where
  served : r.served = bytes ++ r'.served
  stop : r'.stop = r.stop
  content : r.content = bytes ++ r'.content

theorem Gives.refl (r : Reader) : r.Gives [] r :=
  ⟨rfl, rfl, rfl⟩

theorem Gives.trans {r r' r'' : Reader} {bytes more : Bytes} (h : r.Gives bytes r')
    (h' : r'.Gives more r'') : r.Gives (bytes ++ more) r'' where
  served := by rw [h.served, h'.served, List.append_assoc]
  stop := h'.stop.trans h.stop
  content := by rw [h.content, h'.content, List.append_assoc]

inductive Reads (space : Nat) (r : Reader) : Outcome → Reader → Prop
  | data {x : UInt8} {bytes : Bytes} {r' : Reader} (hfits : (x :: bytes).length ≤ space)
      (hgives : r.Gives (x :: bytes) r') : Reads space r (.data (x :: bytes)) r'
  | closed {r' : Reader} (hserved : r.served = []) (hstop : r.stop = .closed)
      (hcontent : r'.content = r.content) : Reads space r (.data []) r'
  | failed {e : IoError} {r' : Reader} (hserved : r.served = []) (hstop : r.stop = .failed e)
      (hcontent : r'.content = r.content) : Reads space r (.failed e) r'
  | waiting {r' : Reader} (hserved : r.served = []) (hstop : r.stop = .silent)
      (hcontent : r'.content = r.content) : Reads space r .waiting r'

theorem Reads.pending {space polls polls' : Nat} {rest : List Arrival} {horizon : Horizon}
    {outcome : Outcome} {r' : Reader} (h : Reads space ⟨rest, horizon, polls⟩ outcome r') :
    Reads space ⟨.pending :: rest, horizon, polls'⟩ outcome r' := by
  cases h with
  | data hfits hgives => exact .data hfits ⟨hgives.served, hgives.stop, hgives.content⟩
  | closed hserved hstop hcontent => exact .closed hserved hstop hcontent
  | failed hserved hstop hcontent => exact .failed hserved hstop hcontent
  | waiting hserved hstop hcontent => exact .waiting hserved hstop hcontent

theorem gives_take {space : Nat} (hspace : 0 < space) {bytes : Bytes}
    (hlong : bytes.drop space ≠ []) (rest : List Arrival) (horizon : Horizon)
    (polls polls' : Nat) :
    (⟨.chunk bytes :: rest, horizon, polls⟩ : Reader).Gives (bytes.take space)
      ⟨.chunk (bytes.drop space) :: rest, horizon, polls'⟩ := by
  obtain ⟨y, left, hleft⟩ := List.exists_cons_of_ne_nil hlong
  have hsplit := List.take_append_drop space bytes
  rw [hleft] at hsplit ⊢
  obtain ⟨x, taken, htaken⟩ : ∃ x taken, bytes.take space = x :: taken := by
    apply List.exists_cons_of_ne_nil
    intro hnil
    have hlength := congrArg List.length hnil
    have hdrop := congrArg List.length hleft
    simp only [List.length_take, List.length_drop, List.length_nil, List.length_cons] at *
    omega
  rw [htaken] at hsplit ⊢
  subst hsplit
  exact ⟨by simp [served, servedFrom], rfl, by simp [content, Arrival.bytes]⟩

theorem reads {space : Nat} (r : Reader) (hspace : 0 < space) :
    Reads space r (r.read space).1 (r.read space).2 := by
  fun_induction read space r with
  | case1 => exact .closed rfl rfl rfl
  | case2 => exact .waiting rfl rfl rfl
  | case3 rest horizon polls ih => exact ih.pending
  | case4 => exact .failed rfl rfl rfl
  | case5 bytes rest horizon polls hdrop =>
    cases bytes with
    | nil => exact .closed rfl rfl rfl
    | cons x bytes => exact .data (List.drop_eq_nil_iff.mp hdrop) ⟨rfl, rfl, rfl⟩
  | case6 bytes rest horizon polls hdrop =>
    have hgives := gives_take hspace hdrop rest horizon polls (polls + 1)
    have hfits : (bytes.take space).length ≤ space := List.length_take_le space bytes
    cases htaken : bytes.take space with
    | nil =>
      rcases List.take_eq_nil_iff.mp htaken with rfl | rfl
      · exact absurd hspace (Nat.lt_irrefl 0)
      · exact absurd List.drop_nil hdrop
    | cons x taken =>
      rw [htaken] at hgives hfits
      exact .data hfits hgives

inductive Gathers (need total : Nat) (b : Buffer) (r : Reader) : Gathered → Buffer → Reader → Prop
  | enough {bytes : Bytes} {b' : Buffer} {r' : Reader} (hneed : need ≤ total + bytes.length)
      (hunread : b'.unread = b.unread ++ bytes) (hgives : r.Gives bytes r') :
      Gathers need total b r (.enough (total + bytes.length)) b' r'
  | failed {e : IoError} {b' : Buffer} {r' : Reader} (hshort : total + r.served.length < need)
      (hunread : b'.unread = b.unread ++ r.served)
      (hcontent : r.content = r.served ++ r'.content)
      (herror : r.stop.error? (total + r.served.length) need = some e) :
      Gathers need total b r (.failed e) b' r'
  | waiting {b' : Buffer} {r' : Reader} (hshort : total + r.served.length < need)
      (hunread : b'.unread = b.unread ++ r.served)
      (hcontent : r.content = r.served ++ r'.content) (hstop : r.stop = .silent) :
      Gathers need total b r .waiting b' r'

theorem Gathers.cons {need total : Nat} {b b' : Buffer} {r r' r'' : Reader} {bytes : Bytes}
    {result : Gathered} (hfits : bytes.length ≤ b.freeSize) (hgives : r.Gives bytes r')
    (h : Gathers need (total + bytes.length) (b.fill bytes) r' result b' r'') :
    Gathers need total b r result b' r'' := by
  have hserved := hgives.served
  have hlength : r.served.length = bytes.length + r'.served.length := by
    rw [hserved, List.length_append]
  have htotal : total + bytes.length + r'.served.length = total + r.served.length := by omega
  cases h with
  | @enough more _ _ hneed hunread hmore =>
    rw [Buffer.unread_fill hfits, List.append_assoc] at hunread
    rw [Nat.add_assoc, ← List.length_append] at hneed ⊢
    exact .enough hneed hunread (hgives.trans hmore)
  | failed hshort hunread hcontent herror =>
    rw [Buffer.unread_fill hfits, List.append_assoc, ← hserved] at hunread
    rw [htotal, hgives.stop] at herror
    refine .failed (by omega) hunread ?_ herror
    rw [hgives.content, hcontent, hserved, List.append_assoc]
  | waiting hshort hunread hcontent hstop =>
    rw [Buffer.unread_fill hfits, List.append_assoc, ← hserved] at hunread
    refine .waiting (by omega) hunread ?_ (hgives.stop ▸ hstop)
    rw [hgives.content, hcontent, hserved, List.append_assoc]

theorem gathers {need total : Nat} {b : Buffer} {r : Reader}
    (hroom : need - total ≤ b.freeSize) :
    Gathers need total b r (gather need total b r).1 (gather need total b r).2.1
      (gather need total b r).2.2 := by
  -- the room shrinks with what is missing, so every read is offered some
  fun_induction gather need total b r with
  | case1 total b r hlt r' hread =>
    have hspace : 0 < b.freeSize := Nat.lt_of_lt_of_le (Nat.sub_pos_of_lt hlt) hroom
    have h := reads r hspace
    rw [hread] at h
    cases h with
    | closed hserved hstop hcontent =>
      refine .failed ?_ ?_ ?_ ?_ <;> simp [hserved, hstop, hcontent, Stop.error?, hlt]
  | case2 total b r hlt x bytes r' hread ih =>
    have hspace : 0 < b.freeSize := Nat.lt_of_lt_of_le (Nat.sub_pos_of_lt hlt) hroom
    have h := reads r hspace
    rw [hread] at h
    cases h with
    | data hfits hgives =>
      refine Gathers.cons hfits hgives (ih ?_)
      rw [Buffer.freeSize_fill]
      omega
  | case3 total b r hlt e r' hread =>
    have hspace : 0 < b.freeSize := Nat.lt_of_lt_of_le (Nat.sub_pos_of_lt hlt) hroom
    have h := reads r hspace
    rw [hread] at h
    cases h with
    | failed hserved hstop hcontent =>
      refine .failed ?_ ?_ ?_ ?_ <;> simp [hserved, hstop, hcontent, Stop.error?, hlt]
  | case4 total b r hlt r' hread =>
    have hspace : 0 < b.freeSize := Nat.lt_of_lt_of_le (Nat.sub_pos_of_lt hlt) hroom
    have h := reads r hspace
    rw [hread] at h
    cases h with
    | waiting hserved hstop hcontent =>
      refine .waiting ?_ ?_ ?_ hstop <;> simp [hserved, hcontent, hlt]
  | case5 total b r hge =>
    have h : Gathers need total b r (.enough (total + ([] : Bytes).length)) b r :=
      .enough (by simpa using hge) (List.append_nil _).symm (.refl r)
    exact h

theorem collects (need : Nat) (b : Buffer) (r : Reader) :
    Gathers need 0 b r (r.collect need b).1 (r.collect need b).2.1 (r.collect need b).2.2 := by
  have h : Gathers need 0 (b.grow need) r (r.collect need b).1 (r.collect need b).2.1
      (r.collect need b).2.2 := gathers (b.le_freeSize_grow need)
  generalize (r.collect need b).1 = result, (r.collect need b).2.1 = b',
    (r.collect need b).2.2 = r' at h
  cases h with
  | enough hneed hunread hgives => exact .enough hneed (b.unread_grow need ▸ hunread) hgives
  | failed hshort hunread hcontent herror =>
    exact .failed hshort (b.unread_grow need ▸ hunread) hcontent herror
  | waiting hshort hunread hcontent hstop =>
    exact .waiting hshort (b.unread_grow need ▸ hunread) hcontent hstop

end Reader

end FrameLink
