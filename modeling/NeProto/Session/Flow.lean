/-
One direction of a stream: a sender, the cells on their way and a receiver. `Flow` relates the three; the lemmas say what keeps
it when a cell is sent or received and when credit moves.

- Sequence numbers on the way continue the receiver's up to the sender's.
- The sender's credit, the bytes on the way and the credit on its way back make up the receiver's credit.
- What the receiver has, followed by what is on the way, is what the sender has sent.
- Nothing but credit and RESET follows FIN.
-/
import NeProto.Session.Link

namespace NeProto.Session

open List

open Continuity (maxSequence)

/-! ## Cells on the way -/

def Body.bytes : Body → List UInt8
  | .data payload => payload
  | _ => []

def Body.credit : Body → ℕ
  | .openOK credit | .windowUpdate credit => credit
  | _ => 0

/-- DATA and FIN -/
def Body.content : Body → Bool
  | .data _ | .fin => true
  | _ => false

def bytesOf (l : List Cell) : List UInt8 := l.flatMap fun c => c.body.bytes

def creditOf (l : List Cell) : ℕ := (l.map fun c => c.body.credit).sum

@[simp] theorem bytesOf_nil : bytesOf [] = [] := rfl

@[simp] theorem bytesOf_cons (c : Cell) (l : List Cell) : bytesOf (c :: l) = c.body.bytes ++ bytesOf l := rfl

@[simp] theorem bytesOf_append (l l' : List Cell) : bytesOf (l ++ l') = bytesOf l ++ bytesOf l' := by simp [bytesOf]

@[simp] theorem creditOf_nil : creditOf [] = 0 := rfl

@[simp] theorem creditOf_cons (c : Cell) (l : List Cell) : creditOf (c :: l) = c.body.credit + creditOf l := rfl

@[simp] theorem creditOf_append (l l' : List Cell) : creditOf (l ++ l') = creditOf l + creditOf l' := by simp [creditOf]

theorem creditOf_mem {l : List Cell} {c : Cell} (h : c ∈ l) : c.body.credit ≤ creditOf l :=
  le_sum_of_mem (mem_map_of_mem h)

/-- what a live end with this window sends once the stream is accepted -/
def CellOk (window : ℕ) (c : Cell) : Prop :=
  match c.body with
  | .openOK credit => c.sequence = 0 ∧ credit = window
  | .data payload => c.sequence ≠ 0 ∧ payload ≠ []
  | .fin => c.sequence ≠ 0
  | .windowUpdate credit => c.sequence ≠ 0 ∧ 0 < credit
  | .opening _ | .openFail _ | .reset _ => False

/-! ## One direction -/

/-- what a sender has sent; `window` is its own and `limit` the one its peer gave it -/
structure Sends where
  window : ℕ
  limit : ℕ
  sequence : ℕ
  credit : ℕ
  fin : Bool
  bytes : List UInt8

/-- what a receiver has received; `owed` is credit taken by `Read` calls that have not sent it yet -/
structure Recvs where
  sequence : ℕ
  credit : ℕ
  fin : Bool
  bytes : List UInt8
  owed : ℕ

/-- `pipe` is on its way from the sender to the receiver, `back` is the credit on its way back -/
structure Flow (s : Sends) (r : Recvs) (pipe : List Cell) (back : ℕ) : Prop where
  cells : ∀ c ∈ pipe, CellOk s.window c
  sequences : pipe.map Cell.sequence = List.range' r.sequence pipe.length
  sequence : r.sequence + pipe.length = s.sequence
  started : s.sequence ≠ 0
  credit : s.credit + (bytesOf pipe).length + r.owed + back = r.credit
  bytes : r.bytes ++ bytesOf pipe = s.bytes
  ordered : pipe.Pairwise fun c d => c.body = .fin → d.body.content = false
  finished : r.fin = true → ∀ c ∈ pipe, c.body.content = false
  fin : r.fin = true ∨ (∃ c ∈ pipe, c.body = .fin) → s.fin = true

namespace Flow

variable {s : Sends} {r : Recvs} {pipe : List Cell} {back : ℕ}

variable {c : Cell}

/-- the sender takes the next sequence number for a cell -/
theorem send (h : Flow s r pipe back) (b : Body) (credit : ℕ) (fin : Bool) (hok : CellOk s.window ⟨s.sequence, b⟩)
    (hcredit : credit + b.bytes.length = s.credit) (hcontent : b.content = true → s.fin = false)
    (hfin : fin = true ↔ s.fin = true ∨ b = .fin) :
    Flow { s with sequence := s.sequence + 1, credit := credit, fin := fin, bytes := s.bytes ++ b.bytes } r
      (pipe ++ [⟨s.sequence, b⟩]) back where
  cells := by
    intro c hc
    rcases mem_append.1 hc with hc | hc
    · exact h.cells c hc
    · rw [mem_singleton.1 hc]
      exact hok
  sequences := by
    rw [map_append, h.sequences, length_append, length_singleton, List.range'_concat, map_singleton, one_mul,
      h.sequence]
  sequence := by
    rw [length_append, length_singleton, ← add_assoc, h.sequence]
  started := Nat.succ_ne_zero _
  credit := by
    have := h.credit
    simp only [bytesOf_append, bytesOf_cons, bytesOf_nil, append_nil, length_append]
    omega
  bytes := by
    rw [bytesOf_append, ← append_assoc, h.bytes, bytesOf_cons, bytesOf_nil, append_nil]
  ordered := by
    refine pairwise_append.2 ⟨h.ordered, pairwise_singleton _ _, ?_⟩
    intro c hc d hd hcf
    rw [mem_singleton.1 hd]
    by_contra hne
    have := hcontent (by simpa using hne)
    rw [h.fin (.inr ⟨c, hc, hcf⟩)] at this
    cases this
  finished := by
    intro hf c hc
    rcases mem_append.1 hc with hc | hc
    · exact h.finished hf c hc
    rw [mem_singleton.1 hc]
    by_contra hne
    have := hcontent (by simpa using hne)
    rw [h.fin (.inl hf)] at this
    cases this
  fin := by
    rintro (hf | ⟨c, hc, hcf⟩)
    · exact hfin.2 (.inl (h.fin (.inl hf)))
    rcases mem_append.1 hc with hc | hc
    · exact hfin.2 (.inl (h.fin (.inr ⟨c, hc, hcf⟩)))
    · rw [mem_singleton.1 hc] at hcf
      exact hfin.2 (.inr hcf)

/-- the receiver takes the first cell -/
theorem receive (h : Flow s r (c :: pipe) back) (r' : Recvs) (hsequence : r'.sequence = r.sequence + 1)
    (hcredit : r'.credit + c.body.bytes.length = r.credit) (howed : r'.owed = r.owed)
    (hbytes : r'.bytes = r.bytes ++ c.body.bytes) (hfin : r'.fin = true ↔ r.fin = true ∨ c.body = .fin) :
    Flow s r' pipe back where
  cells := fun d hd => h.cells d (mem_cons_of_mem c hd)
  sequences := by
    have := h.sequences
    rw [hsequence]
    exact (List.cons.inj this).2
  sequence := by
    have := h.sequence
    rw [length_cons] at this
    omega
  started := h.started
  credit := by
    have := h.credit
    simp only [bytesOf_cons, length_append] at this
    omega
  bytes := by
    rw [hbytes, append_assoc]
    exact h.bytes
  ordered := (pairwise_cons.1 h.ordered).2
  finished := by
    intro hf d hd
    rcases hfin.1 hf with hf | hcf
    · exact h.finished hf d (mem_cons_of_mem c hd)
    · exact (pairwise_cons.1 h.ordered).1 d hd hcf
  fin := by
    rintro (hf | ⟨d, hd, hdf⟩)
    · rcases hfin.1 hf with hf | hcf
      · exact h.fin (.inl hf)
      · exact h.fin (.inr ⟨c, mem_cons_self, hcf⟩)
    · exact h.fin (.inr ⟨d, mem_cons_of_mem c hd, hdf⟩)

/-- credit moves: the sender has it, the receiver owes it, or it is on its way back -/
theorem move (h : Flow s r pipe back) (credit credit' owed back' : ℕ)
    (hc : credit + owed + back' + r.credit = s.credit + r.owed + back + credit') :
    Flow { s with credit := credit } { r with credit := credit', owed := owed } pipe back' where
  cells := h.cells
  sequences := h.sequences
  sequence := h.sequence
  started := h.started
  credit := by
    have := h.credit
    dsimp only
    omega
  bytes := h.bytes
  ordered := h.ordered
  finished := h.finished
  fin := h.fin

/-- the first cell carries the number the receiver expects -/
theorem head_sequence (h : Flow s r (c :: pipe) back) : c.sequence = r.sequence := by
  have := h.sequences
  exact (List.cons.inj this).1

/-- OPEN_OK is on the way only to an end that has received nothing -/
theorem openOK_first {credit : ℕ} (h : Flow s r pipe back) (hc : c ∈ pipe) (hb : c.body = .openOK credit) :
    r.sequence = 0 := by
  have hok := h.cells c hc
  simp only [CellOk, hb] at hok
  have hm : c.sequence ∈ pipe.map Cell.sequence := mem_map_of_mem hc
  rw [h.sequences, mem_range'_1] at hm
  omega

end Flow

end NeProto.Session
