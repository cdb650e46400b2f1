/-
What one stream keeps by itself: the bytes received and not read, the credit not yet returned and the receive credit fill its
window, whatever is read and whatever arrives.

- `read_spec`: what `Read` does; the bytes it copies are the first of the buffer.
- `handleCell_cases`: what a cell can do; it has passed the check of its kind.
-/
import NeProto.Session.Stream

namespace NeProto.Session

open List

open Continuity (maxSequence)

namespace Stream

/-! ## The buffer -/

/-- the bytes received and not yet read -/
def buffered (s : Stream) : List UInt8 := s.chunks.flatten.drop s.chunkStart

structure Sound (s : Stream) : Prop where
  start : s.chunkStart ≤ (s.chunks.headD []).length
  unread : ∀ c ∈ s.chunks.head?, s.chunkStart < c.length
  chunks : ∀ c ∈ s.chunks, c ≠ []
  credit : s.recvCredit + s.buffered.length + s.pendingCredit = s.window

variable {s : Stream}

theorem new_sound (window sendCredit : ℕ) (opening : Bool) : (new window sendCredit opening).Sound :=
  ⟨le_rfl, nofun, nofun, rfl⟩

/-- taking credit moves it from what is pending to the window -/
theorem takePendingCredit_spec (s : Stream) (force : Bool) :
    ∃ pending, s.takePendingCredit force = ({ s with pendingCredit := pending
                                                     recvCredit := s.recvCredit + (s.pendingCredit - pending) },
        s.pendingCredit - pending) ∧ pending ≤ s.pendingCredit ∧ (force = true → pending = 0) := by
  by_cases hcond : s.pendingCredit = 0 ∨ !force ∧ s.pendingCredit < windowUpdateThreshold s.window
  · refine ⟨s.pendingCredit, ?_, le_rfl, ?_⟩
    · rw [takePendingCredit, if_pos hcond, Nat.sub_self, Nat.add_zero]
    · rintro rfl
      simpa using hcond
  · exact ⟨0, by rw [takePendingCredit, if_neg hcond]; rfl, Nat.zero_le _, fun _ => rfl⟩

theorem consume_buffered (h : s.Sound) (n : ℕ) : s.buffered = s.peek n ++ (s.consume (s.peek n).length).buffered := by
  cases hc : s.chunks with
  | nil =>
    have hz : s.chunkStart = 0 := by simpa [hc] using h.start
    simp [buffered, peek, consume, hc, hz]
  | cons c rest =>
    have hle : s.chunkStart ≤ c.length := by simpa [hc] using h.start
    have hlen : (s.peek n).length = min n (c.length - s.chunkStart) := by simp [peek, hc]
    have hsplit : s.buffered = c.drop s.chunkStart ++ rest.flatten := by
      simp [buffered, hc, drop_append_of_le_length hle]
    have hpeek : s.peek n = (c.drop s.chunkStart).take n := by simp [peek, hc]
    by_cases hall : s.chunkStart + (s.peek n).length = c.length
    · have hrest : (s.consume (s.peek n).length).buffered = rest.flatten := by simp [consume, buffered, hc, hall]
      have htake : (c.drop s.chunkStart).take n = c.drop s.chunkStart := by
        rw [take_eq_self_iff, length_drop]
        omega
      rw [hsplit, hrest, hpeek, htake]
    · have hrest : (s.consume (s.peek n).length).buffered = (c.drop s.chunkStart).drop n ++ rest.flatten := by
        have hn : (s.peek n).length = n := by omega
        rw [hn] at hall ⊢
        simp only [consume, hc, headD_cons, hall, if_false, buffered]
        rw [flatten_cons, drop_append_of_le_length (by omega), drop_drop]
      rw [hsplit, hrest, hpeek, ← append_assoc, take_append_drop]

theorem consume_sound (h : s.Sound) (n : ℕ) :
    ({ s.consume (s.peek n).length with pendingCredit := s.pendingCredit + (s.peek n).length } : Stream).Sound := by
  have hb := consume_buffered h n
  have hcredit : s.recvCredit + (s.consume (s.peek n).length).buffered.length + (s.pendingCredit + (s.peek n).length) =
      s.window := by
    have := h.credit
    rw [hb, length_append] at this
    omega
  by_cases hall : s.chunkStart + (s.peek n).length = (s.chunks.headD []).length
  · have heq : s.consume (s.peek n).length = { s with chunks := s.chunks.tail, chunkStart := 0 } := by
      rw [consume, if_pos hall]
    rw [heq] at hcredit ⊢
    refine ⟨Nat.zero_le _, fun c hc => ?_, fun c hc => h.chunks c (mem_of_mem_tail hc), hcredit⟩
    exact length_pos_iff.2 (h.chunks c (mem_of_mem_tail (mem_of_mem_head? hc)))
  · have heq : s.consume (s.peek n).length = { s with chunkStart := s.chunkStart + (s.peek n).length } := by
      rw [consume, if_neg hall]
    rw [heq] at hcredit ⊢
    have hlt : s.chunkStart + (s.peek n).length ≤ (s.chunks.headD []).length := by
      have := h.start
      simp only [peek, length_take, length_drop]
      omega
    refine ⟨hlt, fun c hc => ?_, h.chunks, hcredit⟩
    have hhead : s.chunks.headD [] = c := by
      rw [headD_eq_head?_getD, Option.mem_def.1 hc]
      rfl
    dsimp only
    rw [hhead] at hlt hall
    omega

/-! ## Reading -/

/-- the bytes `Read` copies -/
def ReadResult.bytes : ReadResult → List UInt8
  | .data bytes => bytes
  | _ => []

/-- the fields `Read` leaves alone -/
def readFrame (s s' : Stream) : Prop :=
  s' = { s with recvCredit := s'.recvCredit, pendingCredit := s'.pendingCredit, chunks := s'.chunks
                chunkStart := s'.chunkStart }

theorem read_spec (h : s.Sound) (n : ℕ) :
    s.readFrame (s.read n).1 ∧ (s.read n).1.Sound ∧ s.buffered = (s.read n).2.1.bytes ++ (s.read n).1.buffered ∧
      (s.read n).1.recvCredit = s.recvCredit + (s.read n).2.2 := by
  simp only [read]
  split
  · have hb := consume_buffered h n
    have hs := consume_sound h n
    have hcons : ∃ cs k, s.consume (s.peek n).length = { s with chunks := cs, chunkStart := k } := by
      simp only [consume]
      split
      · exact ⟨_, _, rfl⟩
      · exact ⟨s.chunks, _, rfl⟩
    obtain ⟨cs, k, heq⟩ := hcons
    rw [heq] at hb hs ⊢
    generalize hforce : (decide (s.recvCredit = 0) || s.peerFIN && cs.isEmpty) = force
    obtain ⟨pending, htake, hle, -⟩ := takePendingCredit_spec
      { s with chunks := cs, chunkStart := k, pendingCredit := s.pendingCredit + (s.peek n).length } force
    rw [htake]
    refine ⟨rfl, { hs with credit := ?_ }, hb, rfl⟩
    have hcredit := hs.credit
    simp only [buffered] at hcredit hle ⊢
    omega
  · split
    · exact ⟨rfl, h, rfl, rfl⟩
    split
    · obtain ⟨pending, htake, hle, -⟩ := takePendingCredit_spec s true
      rw [htake]
      refine ⟨rfl, { h with credit := ?_ }, rfl, rfl⟩
      have hcredit := h.credit
      simp only [buffered] at hcredit ⊢
      omega
    · exact ⟨rfl, h, rfl, rfl⟩

/-- what is not the buffer may change -/
theorem Sound.frame (h : s.Sound) (sendSequence recvSequence sendWindow sendCredit : ℕ) (localFIN peerFIN resetSent : Bool)
    (readErr writeErr : Option StreamErr) (openResult : Option (Option StreamErr)) :
    ({ s with sendSequence := sendSequence, recvSequence := recvSequence, sendWindow := sendWindow, sendCredit := sendCredit
              localFIN := localFIN, peerFIN := peerFIN, resetSent := resetSent, readErr := readErr, writeErr := writeErr
              openResult := openResult } : Stream).Sound :=
  { h with }

theorem Sound.fail (h : s.Sound) (err : StreamErr) : (s.fail err).Sound := { h with }

theorem canRetire_iff (s : Stream) : s.canRetire = true ↔ s.localFIN = true ∧ s.peerFIN = true ∧ s.chunks = [] ∧
    0 < s.sendWindow ∧ s.sendCredit = s.sendWindow ∧ s.recvCredit = s.window ∧ s.pendingCredit = 0 := by
  simp [canRetire, and_assoc]

/-- without buffered bytes and pending credit there is nothing to read and no credit to return -/
theorem read_idle (hc : s.chunks = []) (hp : s.pendingCredit = 0) (n : ℕ) : (s.read n).1 = s ∧ (s.read n).2.2 = 0 := by
  have htake : s.takePendingCredit true = (s, 0) := by simp [takePendingCredit, hp]
  simp only [read, hc, ne_eq, not_true_eq_false, if_false, htake]
  split
  · exact ⟨rfl, rfl⟩
  · split <;> exact ⟨rfl, rfl⟩

theorem read_retired (h : s.canRetire = true) (n : ℕ) : (s.read n).1 = s := by
  obtain ⟨-, -, hc, -, -, -, hp⟩ := (canRetire_iff s).1 h
  exact (read_idle hc hp n).1

/-! ## Receiving -/

/-- what `handleCell` can do -/
inductive Handled (s : Stream) (c : Cell) : Stream × Option CellErr → Prop where
  | failed {n : ℕ} {err : CellErr} : Handled s c ({ s with recvSequence := n }, some err)
  | openOK {credit : ℕ} (hb : c.body = .openOK credit) (h0 : s.recvSequence = 0) (hc : c.sequence = 0) :
    Handled s c ({ s with recvSequence := 1, sendWindow := credit, sendCredit := credit }.completeOpen none, none)
  | openFail {code : UInt8} (hb : c.body = .openFail code) (h0 : s.recvSequence = 0) (hc : c.sequence = 0) :
    Handled s c ({ s with recvSequence := 1 }.completeOpen (some (.rejected code)), none)
  | data {payload : List UInt8} (hb : c.body = .data payload) (hc : c.sequence = s.recvSequence)
    (hfin : s.peerFIN = false) (hlen : payload.length ≤ s.recvCredit) :
    Handled s c ({ s with recvSequence := s.recvSequence + 1, recvCredit := s.recvCredit - payload.length
                          chunks := if payload = [] then s.chunks else s.chunks ++ [payload] }, none)
  | fin (hb : c.body = .fin) (hc : c.sequence = s.recvSequence) (hfin : s.peerFIN = false) :
    Handled s c ({ s with recvSequence := s.recvSequence + 1, peerFIN := true }, none)
  | reset {code : UInt8} (hb : c.body = .reset code) (hc : c.sequence = s.recvSequence) :
    Handled s c ({ s with recvSequence := s.recvSequence + 1, readErr := some .reset, writeErr := some .reset }, none)
  | windowUpdate {credit : ℕ} (hb : c.body = .windowUpdate credit) (hc : c.sequence = s.recvSequence)
    (hle : s.sendCredit + credit ≤ s.sendWindow) :
    Handled s c ({ s with recvSequence := s.recvSequence + 1, sendCredit := s.sendCredit + credit }, none)

theorem handleCell_cases (s : Stream) (c : Cell) : s.Handled c (s.handleCell c) := by
  have hsame : ∀ err, s.Handled c (s, some err) := fun err => .failed (n := s.recvSequence)
  simp only [handleCell]
  split
  · rename_i credit hb
    split
    · exact hsame _
    rename_i hcond
    obtain ⟨h0, hc⟩ : s.recvSequence = 0 ∧ c.sequence = 0 := by simpa using hcond
    split
    · exact .failed
    · exact .openOK hb h0 hc
  · rename_i code hb
    split
    · exact hsame _
    rename_i hcond
    obtain ⟨h0, hc⟩ : s.recvSequence = 0 ∧ c.sequence = 0 := by simpa using hcond
    exact .openFail hb h0 hc
  · split
    · exact hsame _
    rename_i hseq
    have hc : c.sequence = s.recvSequence := by simpa using hseq
    split
    · exact hsame _
    split
    · rename_i payload hb
      split
      · exact .failed
      rename_i hcond
      obtain ⟨hfin, hlen⟩ : s.peerFIN = false ∧ payload.length ≤ s.recvCredit := by simpa using hcond
      exact .data hb hc hfin hlen
    · rename_i hb
      split
      · exact .failed
      rename_i hcond
      exact .fin hb hc (by simpa using hcond)
    · rename_i hb
      exact .reset hb hc
    · rename_i credit hb
      split
      · exact .failed
      rename_i hcond
      exact .windowUpdate hb hc (by simp only [not_or, not_lt] at hcond; exact hcond.2.2.2.2)
    · exact .failed

theorem buffered_append (h : s.Sound) (payload : List UInt8) :
    ({ s with chunks := s.chunks ++ [payload] } : Stream).buffered = s.buffered ++ payload := by
  have hle : s.chunkStart ≤ s.chunks.flatten.length := by
    cases hc : s.chunks with
    | nil => simpa [hc] using h.start
    | cons c rest =>
      have := h.start
      simp only [hc, headD_cons, flatten_cons, length_append] at this ⊢
      omega
  simp only [buffered, flatten_append, flatten_singleton]
  rw [drop_append_of_le_length hle]

/-- the received bytes of a DATA cell go from the receive credit to the buffer -/
theorem data_sound (h : s.Sound) {payload : List UInt8} (hne : payload ≠ []) (hlen : payload.length ≤ s.recvCredit) :
    ({ s with recvCredit := s.recvCredit - payload.length, chunks := s.chunks ++ [payload] } : Stream).Sound := by
  have hb := buffered_append h payload
  refine ⟨?_, fun c hc => ?_, fun c hc => ?_, ?_⟩
  · cases hcs : s.chunks with
    | nil =>
      have hz : s.chunkStart = 0 := by simpa [hcs] using h.start
      simp [hz]
    | cons c rest =>
      have := h.start
      simpa [hcs] using this
  · cases hcs : s.chunks with
    | nil =>
      have hz : s.chunkStart = 0 := by simpa [hcs] using h.start
      obtain rfl : payload = c := by simpa [hcs] using hc
      simpa [hz] using length_pos_iff.2 hne
    | cons d rest =>
      obtain rfl : d = c := by simpa [hcs] using hc
      exact h.unread d (by simp [hcs])
  · rcases mem_append.1 hc with hc | hc
    · exact h.chunks c hc
    · rw [mem_singleton.1 hc]
      exact hne
  · have hcredit := h.credit
    simp only [buffered] at hb hcredit ⊢
    rw [hb, length_append]
    omega

theorem Handled.sound {c : Cell} {x : Stream × Option CellErr} (hx : s.Handled c x) (h : s.Sound) : x.1.Sound := by
  cases hx with
  | @data payload _ _ _ hlen =>
    by_cases hne : payload = []
    · subst hne
      exact { h with }
    · simp only [hne, if_false]
      have hs := data_sound h hne hlen
      exact { hs with }
  | failed | openOK _ _ _ | openFail _ _ _ | fin _ _ _ | reset _ _ | windowUpdate _ _ _ =>
    exact { h with }

/-- a cell that passes -/
theorem Handled.passed {c : Cell} {s' : Stream} (hx : s.Handled c (s', none)) :
    s'.recvSequence ≠ 0 ∧ s'.window = s.window := by
  cases hx with
  | openOK | openFail => exact ⟨Nat.one_ne_zero, rfl⟩
  | _ => exact ⟨Nat.succ_ne_zero _, rfl⟩

end Stream

end NeProto.Session
