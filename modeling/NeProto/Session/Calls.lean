/-
What one step of a link can do, said once. Every later invariant is a case analysis on these two relations.

- `Endpoint.Call`: a call on an end that neither opens, accepts nor retires by itself.
- `Link.Step`, `step_cases`: the outcomes of every operation.
-/
import NeProto.Session.Buffer
import NeProto.Session.Link

namespace NeProto.Session

open Endpoint Function

open Continuity (maxSequence)

def Body.opens : Body → Bool
  | .opening _ => true
  | _ => false

/-- `sendReset` would send a RESET -/
def Stream.canReset (s : Stream) : Prop :=
  s.resetSent = false ∧ (s.writeErr = none ∨ s.writeErr = some .protocol ∨ s.writeErr = some .closed)

instance (s : Stream) : Decidable s.canReset := by
  unfold Stream.canReset
  infer_instance

namespace Endpoint

/-! ## Calls on one end -/

/-- a cancelled `Open` fails its stream before it removes it -/
def removed (e : Endpoint) (i : ℕ) (cause : Cause) : Endpoint :=
  { e with removals := e.removals.eraseIdx i, closed := e.closed || decide (cause = Cause.close)
           stream := if cause = Cause.cancel then e.stream.fail .canceled else e.stream }.remove

inductive Call (e : Endpoint) : Endpoint → Prop where
  | same : Call e e
  | start {payload : List UInt8} (hp : e.phase = .usable) (hw : e.writer = .idle) (hne : payload ≠ []) :
    Call e { e with writer := .writing payload }
  | stop {rest : List UInt8} (hw : e.writer = .writing rest) : Call e { e with writer := .idle }
  | exhausted {rest : List UInt8} {n : ℕ} (hw : e.writer = .writing rest) (herr : e.stream.writeErr = none)
    (hfin : e.stream.localFIN = false) (hx : maxSequence < e.stream.sendSequence) :
    Call e { e with stream := ({ e.stream with sendCredit := n } : Stream).fail .protocol, writer := .idle }
  | data {rest : List UInt8} (hw : e.writer = .writing rest) (ho : e.outgoing = none) (herr : e.stream.writeErr = none)
    (hfin : e.stream.localFIN = false) (hc : e.stream.sendCredit ≠ 0) :
    Call e { e with stream := { e.stream with sendCredit := e.stream.sendCredit - (e.chunk rest).length
                                              sendSequence := e.stream.sendSequence + 1 }
                    outgoing := some (⟨e.stream.sendSequence, .data (e.chunk rest)⟩, .write)
                    writer := .sending (e.chunk rest) (rest.drop (e.chunk rest).length) }
  | count {chunk rest : List UInt8} (hw : e.writer = .sending chunk rest) (ho : e.outgoing = none) :
    Call e { e with reported := e.reported ++ chunk, writer := if rest = [] then .idle else .writing rest }
  /-- a `Read` that took no credit -/
  | read {n : ℕ} (hp : e.phase = .usable) (hz : (e.stream.read n).2.2 = 0) :
    Call e { e with stream := (e.stream.read n).1, returned := e.returned ++ (e.stream.read n).2.1.bytes
                    checks := e.checks + 1 }
  | take {n : ℕ} (hp : e.phase = .usable) (hz : (e.stream.read n).2.2 ≠ 0) :
    Call e { e with stream := (e.stream.read n).1, returned := e.returned ++ (e.stream.read n).2.1.bytes
                    credits := e.credits ++ [(e.stream.read n).2.2] }
  | strand {i credit : ℕ} (hi : e.credits[i]? = some credit) (ho : e.outgoing = none)
    (hx : e.stream.writeErr ≠ none ∨ maxSequence < e.stream.sendSequence) :
    Call e { e with credits := e.credits.eraseIdx i, stranded := e.stranded + credit }
  | update {i credit : ℕ} (hi : e.credits[i]? = some credit) (ho : e.outgoing = none) (herr : e.stream.writeErr = none) :
    Call e { e with credits := e.credits.eraseIdx i
                    stream := { e.stream with sendSequence := e.stream.sendSequence + 1 }
                    outgoing := some (⟨e.stream.sendSequence, .windowUpdate credit⟩, .update) }
  | mute (hp : e.phase = .usable) (herr : e.stream.writeErr = none) (hfin : e.stream.localFIN = false)
    (hx : maxSequence < e.stream.sendSequence) : Call e { e with stream := { e.stream with localFIN := true } }
  | fin (hp : e.phase = .usable) (ho : e.outgoing = none) (herr : e.stream.writeErr = none)
    (hfin : e.stream.localFIN = false) :
    Call e { e with stream := { e.stream with localFIN := true, sendSequence := e.stream.sendSequence + 1 }
                    outgoing := some (⟨e.stream.sendSequence, .fin⟩, .closeWrite) }
  /-- a `Close` that resets -/
  | force (hp : e.phase = .usable) (hg : e.gracefullyClosed = false) :
    Call e { e with stream := { e.stream with readErr := some (e.stream.readErr.getD .closed)
                                              writeErr := some (e.stream.writeErr.getD .closed) }
                    resets := e.resets ++ [.close] }
  | skip {i : ℕ} {cause : Cause} (hi : e.resets[i]? = some cause) (ho : e.outgoing = none) (hx : ¬e.stream.canReset) :
    Call e { e with resets := e.resets.eraseIdx i, removals := e.removals ++ [cause] }
  | resetMute {i : ℕ} {cause : Cause} (hi : e.resets[i]? = some cause) (ho : e.outgoing = none) (hc : e.stream.canReset)
    (hx : maxSequence < e.stream.sendSequence) :
    Call e { e with resets := e.resets.eraseIdx i, removals := e.removals ++ [cause]
                    stream := { e.stream with resetSent := true } }
  | reset {i : ℕ} {cause : Cause} (hi : e.resets[i]? = some cause) (ho : e.outgoing = none) (hc : e.stream.canReset) :
    Call e { e with resets := e.resets.eraseIdx i
                    stream := { e.stream with resetSent := true, sendSequence := e.stream.sendSequence + 1 }
                    outgoing := some (⟨e.stream.sendSequence, .reset cause.code⟩, .reset cause) }
  | remove {i : ℕ} {cause : Cause} (hi : e.removals[i]? = some cause) : Call e (e.removed i cause)
  | check (hpos : 0 < e.checks) : Call e { e with checks := e.checks - 1 }.retireIfComplete

variable {e : Endpoint}

/-- the fields `remove` leaves alone -/
theorem remove_eq (e : Endpoint) : e.remove = { e with registered := e.remove.registered, retired := e.remove.retired } := by
  simp only [remove]
  split <;> rfl

/-- the fields `retireIfComplete` leaves alone -/
theorem retireIfComplete_eq (e : Endpoint) :
    e.retireIfComplete = { e with registered := e.retireIfComplete.registered, retired := e.retireIfComplete.retired } := by
  simp only [retireIfComplete]
  split
  · exact remove_eq e
  · rfl

theorem Call.phase {e' : Endpoint} (h : Call e e') : e'.phase = e.phase := by
  cases h with
  | remove hi => rw [removed, remove_eq]
  | check hpos => rw [retireIfComplete_eq]
  | _ => rfl

theorem write_call (e : Endpoint) (payload : List UInt8) : Call e (e.write payload) := by
  simp only [write]
  split
  · rename_i hcond
    exact .start hcond.1 hcond.2.1 hcond.2.2
  · exact .same

theorem writeChunk_call (e : Endpoint) : Call e e.writeChunk := by
  simp only [writeChunk]
  split
  · rename_i rest hw ho
    split
    · exact .stop hw
    rename_i hcond
    obtain ⟨herr, hfin⟩ : e.stream.writeErr = none ∧ e.stream.localFIN = false := by simpa using hcond
    split
    · exact .same
    rename_i hc
    unfold Stream.nextSendSequence
    split_ifs with hx
    · exact .exhausted hw herr hfin hx
    · exact .data hw ho herr hfin hc
  · exact .same

theorem count_call (e : Endpoint) : Call e e.count := by
  simp only [count]
  split
  · rename_i chunk rest hw ho
    exact .count hw ho
  · exact .same

/-- a `Read` that waits or fails changes nothing -/
theorem read_kept (s : Stream) (n : ℕ) (hdata : ∀ bytes, (s.read n).2.1 ≠ .data bytes) (heof : (s.read n).2.1 ≠ .eof) :
    (s.read n).1 = s := by
  simp only [Stream.read] at hdata heof ⊢
  split_ifs at hdata heof ⊢
  · exact absurd rfl (hdata _)
  · cases hr : s.readErr with
    | some err => rfl
    | none =>
      rw [hr] at heof
      exact absurd rfl heof
  · cases s.readErr <;> rfl

theorem read_call (e : Endpoint) (n : ℕ) : Call e (e.read n) := by
  simp only [read]
  split
  · rename_i hcond
    have hkept := read_kept e.stream n
    have hread := Call.read (n := n) hcond.1
    have htake := Call.take (n := n) hcond.1
    cases hr : (e.stream.read n).2.1 with
    | data bytes | eof =>
      simp only [hr, Stream.ReadResult.bytes, List.append_nil] at hread htake ⊢
      split
      · exact hread ‹_›
      · exact htake ‹_›
    | err _ | blocked =>
      rw [hr] at hkept
      simp only [hkept (by simp) (by simp)]
      exact .same
  · exact .same

theorem sendUpdate_call (e : Endpoint) (i : ℕ) : Call e (e.sendUpdate i) := by
  simp only [sendUpdate]
  split
  · rename_i credit hi ho
    split
    · rename_i herr
      exact .strand hi ho (.inl herr)
    rename_i herr
    unfold Stream.nextSendSequence
    split_ifs with hx
    · exact .strand hi ho (.inr hx)
    · exact .update hi ho (by simpa using herr)
  · exact .same

theorem closeWrite_call (e : Endpoint) : Call e e.closeWrite := by
  simp only [closeWrite]
  split
  · rename_i hcond
    obtain ⟨hp, -, ho⟩ := hcond
    split
    · exact .same
    rename_i herr
    obtain ⟨herr, hfin⟩ : e.stream.writeErr = none ∧ e.stream.localFIN = false := by simpa using herr
    unfold Stream.nextSendSequence
    split_ifs with hx
    · exact .mute hp herr hfin hx
    · exact .fin hp ho herr hfin
  · exact .same

/-- a `Close` resets unless both directions are finished and read -/
theorem close_call (e : Endpoint) :
    Call e e.close ∨ e.phase = .usable ∧ e.gracefullyClosed = true ∧ e.close = { e.retireIfComplete with closed := true } := by
  simp only [close]
  split
  · rename_i hp
    split
    · rename_i hg
      exact .inr ⟨hp, hg, rfl⟩
    · rename_i hg
      exact .inl (.force hp (by simpa using hg))
  · exact .inl .same

theorem sendReset_call (e : Endpoint) (i : ℕ) : Call e (e.sendReset i) := by
  simp only [sendReset]
  split
  · rename_i cause hi ho
    split
    · rename_i hsent
      exact .skip hi ho fun hc => by cases hsent.symm.trans hc.1
    rename_i hsent
    split
    · rename_i herr
      exact .skip hi ho fun hc => hc.2.elim herr.1 (Or.rec herr.2.1 herr.2.2)
    rename_i herr
    have hc : e.stream.canReset := by
      refine ⟨by simpa using hsent, ?_⟩
      by_contra hx
      simp only [not_or] at hx
      exact herr hx
    unfold Stream.nextSendSequence
    split_ifs with hx
    · exact .resetMute hi ho hc hx
    · exact .reset hi ho hc
  · exact .same

theorem removeStream_call (e : Endpoint) (i : ℕ) : Call e (e.removeStream i) := by
  simp only [removeStream]
  split
  · exact .same
  rename_i cause hi
  have hremove := Call.remove hi
  simp only [removed] at hremove
  split_ifs at hremove ⊢ <;> exact hremove

theorem check_call (e : Endpoint) : Call e e.check := by
  simp only [check]
  split
  · exact .check ‹_›
  · exact .same

/-! ## The read loop -/

/-- what the read loop does to a registered end -/
inductive Took (e : Endpoint) (c : Cell) : Endpoint → Prop where
  | failed {n : ℕ} {registered retired : Bool}
    (hk : registered = true ∧ retired = e.retired ∨ registered = false ∧ retired = true) :
    Took e c { e with stream := ({ e.stream with recvSequence := n } : Stream).fail .protocol
                      registered := registered, retired := retired, resets := e.resets ++ [.protocol] }
  | reset {n : ℕ} {code : UInt8} (hb : c.body = .reset code) :
    Took e c { e with stream := { e.stream with recvSequence := n, readErr := some .reset, writeErr := some .reset }
                      registered := false, retired := true }
  | passed {s : Stream} (hs : e.stream.Handled c (s, none)) (hb : ∀ code, c.body ≠ .reset code) (hw : s.writeErr = e.stream.writeErr)
    (hr : s.resetSent = e.stream.resetSent) : Took e c ({ e with stream := s }.retireIfComplete)

theorem remove_gone (e : Endpoint) : e.remove.registered = false := by
  rw [remove]
  split
  · rfl
  · rename_i hx
    simpa using hx

theorem remove_registered (hreg : e.registered = true) :
    e.remove = { e with registered := false, retired := true } := by
  rw [remove, if_pos hreg]

theorem retireIfComplete_registered (h : e.retireIfComplete.registered = true) : e.registered = true := by
  rw [retireIfComplete] at h
  split at h
  · rw [remove_gone] at h
    cases h
  · exact h

/-- an ID leaves the map for the retired set -/
theorem remove_known (hret : e.remove.retired = false) : e.registered = false ∧ e.retired = false := by
  rw [remove] at hret
  split at hret
  · cases hret
  · rename_i hx
    exact ⟨by simpa using hx, hret⟩

theorem retireIfComplete_known (hreg : e.retireIfComplete.registered = false)
    (hret : e.retireIfComplete.retired = false) : e.registered = false ∧ e.retired = false := by
  rw [retireIfComplete] at hreg hret
  split_ifs at hreg hret
  · exact remove_known hret
  · exact ⟨hreg, hret⟩

theorem retireIfComplete_kept (hreg : e.registered = true) :
    e.retireIfComplete.registered = true ∧ e.retireIfComplete.retired = e.retired ∨
      e.retireIfComplete.registered = false ∧ e.retireIfComplete.retired = true := by
  rw [retireIfComplete]
  split
  · rw [remove_registered hreg]
    exact .inr ⟨rfl, rfl⟩
  · exact .inl ⟨hreg, rfl⟩

theorem Call.registered {e' : Endpoint} (h : Call e e') (hreg : e'.registered = true) : e.registered = true := by
  cases h with
  | remove hi =>
    rw [removed, remove_gone] at hreg
    cases hreg
  | check hpos =>
    have hold := retireIfComplete_registered hreg
    exact hold
  | _ => exact hreg

theorem handleCell_took (c : Cell) (hreg : e.registered = true) : Took e c (e.handleCell c) := by
  have hcases := Stream.handleCell_cases e.stream c
  simp only [handleCell]
  generalize e.stream.handleCell c = x at hcases
  cases hcases with
  | @failed n err =>
    have hk := retireIfComplete_kept (e := { e with stream := { e.stream with recvSequence := n } }) hreg
    rw [retireIfComplete_eq]
    exact .failed hk
  | openOK hb h0 hc =>
    simp only [hb]
    exact .passed (.openOK hb h0 hc) (by simp [hb]) rfl rfl
  | openFail hb h0 hc =>
    simp only [hb]
    exact .passed (.openFail hb h0 hc) (by simp [hb]) rfl rfl
  | data hb hc hfin hlen =>
    simp only [hb]
    exact .passed (.data hb hc hfin hlen) (by simp [hb]) rfl rfl
  | fin hb hc hfin =>
    simp only [hb]
    exact .passed (.fin hb hc hfin) (by simp [hb]) rfl rfl
  | windowUpdate hb hc hle =>
    simp only [hb]
    exact .passed (.windowUpdate hb hc hle) (by simp [hb]) rfl rfl
  | @reset code hb hc =>
    simp only [hb]
    have hk := retireIfComplete_kept (e := { e with stream :=
      { e.stream with recvSequence := e.stream.recvSequence + 1, readErr := some .reset, writeErr := some .reset } }) hreg
    rw [retireIfComplete_eq]
    rcases hk with ⟨hr, ht⟩ | ⟨hr, ht⟩
    · rw [hr]
      exact .reset hb
    · rw [hr, ht]
      exact .reset hb

end Endpoint

namespace Link

/-! ## Steps -/

/-- `x` goes on as `e` and sends a cell -/
def posted (w : Link) (x : Side) (e : Endpoint) (c : Cell) : Link := (w.setEnd x e).push x.other c

/-- the first cell toward `x` is taken and `x` goes on as `e` -/
def taken (w : Link) (x : Side) (rest : List Cell) (e : Endpoint) : Link :=
  ({ w with toward := update w.toward x rest } : Link).setEnd x e

theorem taken_same (w : Link) (x : Side) (rest : List Cell) :
    w.taken x rest (w.ends x) = { w with toward := update w.toward x rest } := by
  simp only [taken, setEnd, update_eq_self]

inductive Step (w : Link) : Op → Link → Prop where
  | idle {o : Op} : Step w o w
  | call {o : Op} {x : Side} {e : Endpoint} (h : Endpoint.Call (w.ends x) e) : Step w o (w.setEnd x e)
  | graceful {x : Side} (hp : (w.ends x).phase = .usable) (hg : (w.ends x).gracefullyClosed = true) :
    Step w (.close x) (w.setEnd x { (w.ends x).retireIfComplete with closed := true })
  | evict {x : Side} : Step w (.evict x) (w.setEnd x { w.ends x with retired := false })
  | register (hp : (w.ends .opener).phase = .absent) :
    Step w .openRegister (w.setEnd .opener { w.ends .opener with
      stream := .new (w.ends .opener).stream.window 0 true, registered := true, phase := .opening })
  | request (hp : (w.ends .opener).phase = .opening) :
    Step w .openSend (w.posted .opener { w.ends .opener with phase := .waiting }
      ⟨0, .opening (w.ends .opener).stream.window⟩)
  | opened (hp : (w.ends .opener).phase = .waiting) (hr : (w.ends .opener).stream.openResult = some none) :
    Step w .openReturn (w.setEnd .opener { w.ends .opener with phase := .usable })
  | denied {err : StreamErr} (hp : (w.ends .opener).phase = .waiting)
    (hr : (w.ends .opener).stream.openResult = some (some err)) :
    Step w .openReturn (w.setEnd .opener { w.ends .opener with
      phase := .dropped, removals := (w.ends .opener).removals ++ [.rejected] })
  | cancel (hp : (w.ends .opener).phase = .waiting) :
    Step w .openCancel (w.setEnd .opener { w.ends .opener with
      phase := .cancelled, resets := (w.ends .opener).resets ++ [.cancel] })
  | accept (hp : (w.ends .acceptor).phase = .incoming) :
    Step w .accept (w.posted .acceptor { w.ends .acceptor with phase := .usable }
      ⟨0, .openOK (w.ends .acceptor).stream.window⟩)
  | reject {code : UInt8} (hp : (w.ends .acceptor).phase = .incoming) :
    Step w (.reject code) (w.posted .acceptor { w.ends .acceptor with
      phase := .dropped, stream := (w.ends .acceptor).stream.fail (.rejected code)
      removals := (w.ends .acceptor).removals ++ [.rejected] } ⟨0, .openFail code⟩)
  | transmit {x : Side} {c : Cell} {sender : Sender} (ho : (w.ends x).outgoing = some (c, sender)) :
    Step w (.transmit x) (w.posted x ((w.ends x).sent sender) c)
  | invalid {x : Side} (full : Bool) {c : Cell} {rest : List Cell} (hto : w.toward x = c :: rest)
    (hb : c.body.opens = true)
    (hx : x = .opener ∨ c.sequence ≠ 0 ∨ (w.ends x).registered = true ∨ (w.ends x).retired = true) :
    Step w (.deliver x full) { w.taken x rest (w.ends x) with failed := true }
  | refuse {c : Cell} {rest : List Cell} (hto : w.toward .acceptor = c :: rest) (hb : c.body.opens = true) :
    Step w (.deliver .acceptor true)
      (({ w with toward := update w.toward .acceptor rest, refused := true } : Link).push .opener ⟨0, .openFail 1⟩)
  | offer {c : Cell} {rest : List Cell} {window : ℕ} (hto : w.toward .acceptor = c :: rest)
    (hb : c.body = .opening window) (hc : c.sequence = 0) (hreg : (w.ends .acceptor).registered = false)
    (hret : (w.ends .acceptor).retired = false) :
    Step w (.deliver .acceptor false) (w.taken .acceptor rest ((w.ends .acceptor).openIncoming window))
  | handle {x : Side} (full : Bool) {c : Cell} {rest : List Cell} (hto : w.toward x = c :: rest)
    (hb : c.body.opens = false) (hreg : (w.ends x).registered = true) :
    Step w (.deliver x full) (w.taken x rest ((w.ends x).handleCell c))
  | ignore {x : Side} (full : Bool) {c : Cell} {rest : List Cell} (hto : w.toward x = c :: rest)
    (hb : c.body.opens = false) (hreg : (w.ends x).registered = false) (hret : (w.ends x).retired = true) :
    Step w (.deliver x full) (w.taken x rest (w.ends x))
  | unknown {x : Side} (full : Bool) {c : Cell} {rest : List Cell} (hto : w.toward x = c :: rest)
    (hb : c.body.opens = false) (hreg : (w.ends x).registered = false) (hret : (w.ends x).retired = false) :
    Step w (.deliver x full) { w.taken x rest (w.ends x) with failed := true }

theorem deliver_cases (w : Link) (x : Side) (full : Bool) : Step w (.deliver x full) (w.deliver x full) := by
  simp only [Link.deliver]
  split
  · exact .idle
  rename_i c rest hto
  simp only [Link.handleCell]
  split
  · rename_i window hb
    have hopen : c.body.opens = true := by rw [hb]; rfl
    split
    · rename_i hcond
      have hstep := Step.invalid full hto hopen hcond
      rwa [taken_same] at hstep
    rename_i hcond
    simp only [not_or] at hcond
    obtain ⟨hx, hseq, hreg, hret⟩ := hcond
    cases x with
    | opener => exact absurd rfl hx
    | acceptor =>
      split
      · rename_i hfull
        obtain rfl : full = true := hfull
        exact .refuse hto hopen
      · rename_i hfull
        obtain rfl : full = false := by simpa using hfull
        exact .offer hto hb (by simpa using hseq) (by simpa using hreg) (by simpa using hret)
  · rename_i hb
    have hopen : c.body.opens = false := by
      cases hbody : c.body with
      | opening window => exact absurd hbody (hb window)
      | _ => rfl
    split
    · rename_i hreg
      exact .handle full hto hopen hreg
    rename_i hreg
    split
    · rename_i hret
      have hstep := Step.ignore full hto hopen (by simpa using hreg) hret
      rwa [taken_same] at hstep
    · rename_i hret
      have hstep := Step.unknown full hto hopen (by simpa using hreg) (by simpa using hret)
      rwa [taken_same] at hstep

theorem step_cases (w : Link) (o : Op) : Step w o (w.step o) := by
  cases o with
  | openRegister =>
    simp only [Link.step, Link.onEnd, openRegister]
    split
    · exact .register ‹_›
    · exact .call .same
  | openSend =>
    simp only [Link.step, Link.openSend]
    split
    · exact .request ‹_›
    · exact .idle
  | openReturn =>
    simp only [Link.step, Link.onEnd, openReturn]
    split
    · rename_i hp
      split
      · exact .call .same
      · exact .opened hp ‹_›
      · exact .denied hp ‹_›
    · exact .call .same
  | openCancel =>
    simp only [Link.step, Link.onEnd, openCancel]
    split
    · exact .cancel ‹_›
    · exact .call .same
  | accept =>
    simp only [Link.step, Link.accept]
    split
    · exact .accept ‹_›
    · exact .idle
  | reject code =>
    simp only [Link.step, Link.reject]
    split
    · exact .reject ‹_›
    · exact .idle
  | write x payload => exact .call (write_call _ payload)
  | writeChunk x => exact .call (writeChunk_call _)
  | count x => exact .call (count_call _)
  | read x n => exact .call (read_call _ n)
  | sendUpdate x i => exact .call (sendUpdate_call _ i)
  | closeWrite x => exact .call (closeWrite_call _)
  | close x =>
    simp only [Link.step, Link.onEnd]
    rcases close_call (w.ends x) with h | ⟨hp, hg, heq⟩
    · exact .call h
    · rw [heq]
      exact .graceful hp hg
  | sendReset x i => exact .call (sendReset_call _ i)
  | removeStream x i => exact .call (removeStream_call _ i)
  | check x => exact .call (check_call _)
  | transmit x =>
    simp only [Link.step, Link.transmit]
    split
    · exact .idle
    · exact .transmit ‹_›
  | deliver x full => exact deliver_cases w x full
  | evict x => exact .evict

end Link

end NeProto.Session
