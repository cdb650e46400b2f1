/-
Credit is conserved on an accepted stream, over every run.

- `Established`: both applications have the stream, and it is alive.
- `Established.step`: it stays so until a `Close` or the last sequence number.
- `credit_conserved`: the credit equation, the checks of `handleCell`, and the bytes read as a prefix of the bytes written.
-/
import NeProto.Session.Accepted

namespace NeProto.Session

open Endpoint List

open Continuity (maxSequence)

namespace Link

/-- both applications have the stream, and it has not failed or been reset or closed by force on either side -/
def Established (w : Link) : Prop := ∀ x, (w.ends x).phase = .usable ∧ (w.ends x).stream.writeErr = none

instance (w : Link) : Decidable w.Established := inferInstanceAs (Decidable (∀ _, _))

/-- no end has used up its sequence numbers -/
def Unexhausted (w : Link) : Prop :=
  ∀ x, (w.ends x).stream.sendSequence ≤ maxSequence ∧ (w.ends x).stream.recvSequence < maxSequence

/-- credit in WINDOW_UPDATE cells -/
def updatesOf (l : List Cell) : ℕ :=
  (l.map fun c => match c.body with
    | .windowUpdate credit => credit
    | _ => 0).sum

variable {w : Link} {W : Side → Window}

section

variable (h : w.Established)
include h

theorem Established.live : w.Live :=
  ⟨(h _).1, fun x => ⟨(h x).2, by simp [(h x).1], by simp [(h x).1], by simp [(h x).1]⟩⟩

theorem Established.heard (hi : w.Inv W) (x : Side) : (w.ends x).stream.recvSequence ≠ 0 :=
  (hi.sound x).heard (h.live.alive x) (.inl (h x).1)

/-- once OPEN_OK has been handled all credit on its way is in WINDOW_UPDATE cells -/
theorem updatesOf_pipe (hi : w.Inv W) (x : Side) : creditOf (w.pipe x) = updatesOf (w.pipe x) := by
  have hflow := (hi.joined h.live).flow x
  refine congrArg sum (map_congr_left fun c hc => ?_)
  cases hb : c.body with
  | openOK credit => exact absurd (hflow.openOK_first hc hb) (h.heard hi x.other)
  | _ => rfl

/-- a call on one end -/
theorem Established.setEnd (x : Side) {e : Endpoint} (hp : e.phase = .usable)
    (hw : e.stream.writeErr = none) : (w.setEnd x e).Established :=
  setEnd_all (P := fun _ e => e.phase = .usable ∧ e.stream.writeErr = none) h ⟨hp, hw⟩

theorem Established.same (x : Side) {e : Endpoint} (he : e = w.ends x) : (w.setEnd x e).Established :=
  h.setEnd x (he ▸ (h x).1) (he ▸ (h x).2)

/-- an established stream stays so: every cell passes and nothing but `Close` resets it -/
theorem Established.step (hi : w.Inv W) (hu : w.Unexhausted) (o : Op)
    (ho : ∀ x, o ≠ .close x) : (w.step o).Established := by
  have hopener : ∀ phase : Phase, phase ≠ .usable → (w.ends .opener).phase ≠ phase := fun phase hne hx =>
    hne (hx.symm.trans (h _).1)
  have hinc : (w.ends .acceptor).phase ≠ .incoming := by simp [(h .acceptor).1]
  have hcall : ∀ x {e}, Endpoint.Call (w.ends x) e → e.stream.writeErr = (w.ends x).stream.writeErr →
      (w.setEnd x e).Established := fun x e hc hw => h.setEnd x (hc.phase.trans (h x).1) (hw.trans (h x).2)
  cases o with
  | openRegister => exact h.same .opener (if_neg (hopener .absent (by simp)))
  | openSend =>
    simp only [Link.step, Link.openSend, hopener .opening (by simp), if_false]
    exact h
  | openReturn | openCancel => exact h.same .opener (if_neg (hopener .waiting (by simp)))
  | accept =>
    simp only [Link.step, Link.accept, hinc, if_false]
    exact h
  | reject code =>
    simp only [Link.step, Link.reject, hinc, if_false]
    exact h
  | write x payload =>
    refine hcall x (write_call _ payload) ?_
    simp only [write]
    split <;> rfl
  | writeChunk x =>
    refine hcall x (writeChunk_call _) ?_
    simp only [writeChunk, Stream.nextSendSequence, not_lt.2 (hu x).1, if_false]
    split
    · split
      · rfl
      split <;> rfl
    · rfl
  | count x =>
    refine hcall x (Endpoint.count_call _) ?_
    simp only [Endpoint.count]
    split <;> rfl
  | read x n =>
    refine hcall x (read_call _ n) ?_
    have hw : ((w.ends x).stream.read n).1.writeErr = (w.ends x).stream.writeErr := by
      rw [(Stream.read_spec (hi.sound x).stream n).1]
    simp only [Endpoint.read]
    split
    · split
      · split <;> exact hw
      · split <;> exact hw
      · exact hw
      · exact hw
    · rfl
  | sendUpdate x i =>
    refine hcall x (sendUpdate_call _ i) ?_
    simp only [sendUpdate, Stream.nextSendSequence, not_lt.2 (hu x).1, if_false]
    split
    · split <;> rfl
    · rfl
  | closeWrite x =>
    refine hcall x (closeWrite_call _) ?_
    simp only [closeWrite, Stream.nextSendSequence, not_lt.2 (hu x).1, if_false]
    split
    · split <;> rfl
    · rfl
  | close x => exact absurd rfl (ho x)
  | sendReset x i =>
    refine h.same x ?_
    simp only [sendReset, ((hi.sound x).resets (h.live.alive x)).1, getElem?_nil]
  | removeStream x i =>
    refine h.same x ?_
    simp only [removeStream, ((hi.sound x).resets (h.live.alive x)).2.1, getElem?_nil]
  | check x =>
    refine hcall x (check_call _) ?_
    simp only [check]
    split
    · rw [retireIfComplete_eq]
    · rfl
  | transmit x =>
    simp only [Link.step, Link.transmit]
    split
    · exact h
    rename_i c sender _
    obtain ⟨-, -, -, hstream, hp, -⟩ := sent_views (w.ends x) sender
    exact h.setEnd x (hp.trans (h x).1) ((congrArg Stream.writeErr hstream).trans (h x).2)
  | deliver x full =>
    simp only [Link.step, Link.deliver]
    split
    · exact h
    rename_i c rest hto
    have hj := hi.joined h.live
    have hpass := (hj.passes hi.sound W hi.window x hto).resolve_right fun hx => absurd hx.2 (hu x).2.ne
    have hok := hj.cell x hto
    have hreg := hi.registered h.live hto
    have htake : (w.taken x rest ((w.ends x).handleCell c)).Established := by
      refine Established.setEnd (w := { w with toward := Function.update w.toward x rest }) h x ?_ ?_
      · exact (handleCell_frame c hreg).2.1.trans (h x).1
      have hcases := Stream.handleCell_cases (w.ends x).stream c
      simp only [Endpoint.handleCell]
      generalize (w.ends x).stream.handleCell c = r at hcases hpass ⊢
      cases hcases with
      | failed => cases hpass
      | openOK hb _ _ | openFail hb _ _ | data hb _ _ _ | fin hb _ _ | windowUpdate hb _ _ =>
        simp only [hb]
        rw [retireIfComplete_eq]
        exact (h x).2
      | reset hb _ => simp only [CellOk, hb] at hok
    simp only [Link.handleCell]
    split
    · rename_i hb
      simp only [CellOk, hb] at hok
    · rw [if_pos hreg]
      exact htake
  | evict x => exact h.setEnd x (h x).1 (h x).2

end

/-- the account of a stream that both applications have -/
structure Conserved (W : Side → Window) (w : Link) : Prop where
  credit : ∀ x, (w.ends x).stream.sendCredit + (bytesOf (w.pipe x)).length + (w.ends x.other).stream.buffered.length +
    (w.ends x.other).stream.pendingCredit +
    ((w.ends x.other).credits.sum + (w.ends x.other).stranded + updatesOf (w.pipe x.other)) = (W x.other).value
  window : ∀ x, (w.ends x).stream.sendWindow = (W x.other).value
  received : ∀ x, (w.ends x.other).returned <+: (w.ends x).reported ++ (w.ends x).inProgress
  stays : w.Unexhausted → ∀ o, (∀ x, o ≠ .close x) → (w.step o).Established

/-- **Credit conservation.** In every reachable state in which a stream has been accepted and is alive the next cell fails none
of the checks of `handleCell`, also while `Open` has not returned. In every reachable state of an established stream and for
each direction the credit of the sender, the bytes in flight, the bytes buffered, the pending credit and the credit taken by
`Read` and not yet delivered make up the receiver's window, which is the sender's `sendWindow`; what the receiver has read is a
prefix of what the sender has written and the chunk in progress; and the stream stays established until a `Close` or the last
sequence number. -/
theorem credit_conserved (W : Side → Window) (ops : List Op) (h : ((init W).run ops).Live) :
    (∀ x c rest, ((init W).run ops).toward x = c :: rest →
      ((((init W).run ops).ends x).stream.handleCell c).2 = none ∨
        ((((init W).run ops).ends x).stream.handleCell c).2 = some .exhausted ∧
          (((init W).run ops).ends x).stream.recvSequence = maxSequence) ∧
    (((init W).run ops).Established → Conserved W ((init W).run ops)) := by
  have hi := run_inv W ops
  have hj := hi.joined h
  refine ⟨fun x c rest hto => hj.passes hi.sound W hi.window x hto, fun he => ⟨fun x => ?_, fun x => ?_, fun x => ?_, he.step hi⟩⟩
  · have hcredit := (hj.flow x).credit
    have hlocal := (hi.sound x.other).stream.credit
    rw [updatesOf_pipe he hi] at hcredit
    simp only [Endpoint.sends, Endpoint.recvs] at hcredit
    rw [hi.window] at hlocal
    omega
  · have hlimit := (hj.limit x).resolve_right fun hz => he.heard hi x hz.1
    exact hlimit.2.trans (hi.window _)
  · have hbytes := (hj.flow x).bytes
    simp only [Endpoint.sends, Endpoint.recvs] at hbytes
    rw [← hbytes, append_assoc]
    exact prefix_append ..

/-- windows of 64 bytes -/
def small : Side → Window := fun _ => .short

/-- the opener opens a stream and the acceptor accepts it -/
def opened : List Op :=
  [.openRegister, .openSend, .deliver .acceptor false, .accept, .deliver .opener false, .openReturn]

/-- ten bytes are written and arrive; eight are read, and their credit waits for `sendMu` -/
theorem credit_conserved_reading : ∃ ops : List Op,
    (((init small).run ops).ends .acceptor).returned = [1, 2, 3, 4, 5, 6, 7, 8] ∧
      (((init small).run ops).ends .acceptor).returned <+:
        (((init small).run ops).ends .opener).reported ++ (((init small).run ops).ends .opener).inProgress := by
  refine ⟨opened ++ [.write .opener [1, 2, 3, 4, 5, 6, 7, 8, 9, 10], .writeChunk .opener, .transmit .opener,
    .deliver .acceptor false, .read .acceptor 8], by decide, ?_⟩
  exact ((credit_conserved small _ (by decide)).2 (by decide)).received .opener

end Link

end NeProto.Session
