/-
The sending side of a link: where in the log each physical stream stands.

- `Position a i pos`: `a` believes that pipe `i` has been handed the log up to `pos`. It is the offset of the attempt or
  of the replay that runs on the pipe, or `transmitted` for the current stream at rest.
- `Sending`: every pipe holds a slice of the log, and a pipe that has not failed ends where `a` believes it ends.
- `SameView`: a step that moves no position; `Effect.view`: every step but those of `Moving` is one.
- `stepA_sending`: every step of `a` keeps `Sending`, given that `a` is `Sound`.
-/
import NeProto.Continuity.Sender
import NeProto.Continuity.Link

namespace NeProto.Continuity

open List

/-! ## Positions -/

/-- the candidate of a running `Replace` and the offset its replay has reached -/
def Replacer.target : Replacer → Option (ℕ × ℕ)
  | .ack q peer _ | .state q peer _ => some (q, peer)
  | .loop q _ _ _ off => some (q, off)
  | .write q _ _ _ off chunk put => some (q, off - chunk.length + put)
  | .fin q _ stop | .closeWrite q _ stop | .publish q _ stop _ => some (q, stop)
  | _ => none

inductive Position (a : St) : ℕ → ℕ → Prop where
  | attempt {c : Call} {p t m : ℕ} (h : a.writer.active = some (c, p, t, m)) : Position a p (t + m)
  | replay {q pos : ℕ} (h : a.replacer.target = some (q, pos)) : Position a q pos
  | current {p : ℕ} (h : a.physical = some p) (hn : ∀ c t m, a.writer.active ≠ some (c, p, t, m)) :
    Position a p a.transmitted

/-- what `a` knows of pipe `i` -/
structure PipeOk (a : St) (opened i : ℕ) (P : Pipe) : Prop where
  slice : At a.appended P.start P.sent
  fresh : P.usedA = false → P.sent = []
  owned : ∀ pos, Position a i pos → i < opened ∧ P.usedA = true
  aligned : ∀ pos, Position a i pos → P.broken = false → P.start + P.sent.length = pos

structure Sending (a : St) (pipe : ℕ → Pipe) (opened : ℕ) : Prop where
  pipes : ∀ i, PipeOk a opened i (pipe i)
  /-- no attempt runs on the candidate of a replacement -/
  apart : ∀ q pos, a.replacer.target = some (q, pos) → ∀ c t m, a.writer.active ≠ some (c, q, t, m)
  /-- an attempt on the current stream began at `transmitted` -/
  live : ∀ c p t m, a.writer.active = some (c, p, t, m) → a.physical = some p → a.transmitted = t

variable {a a' : St} {i opened : ℕ} {P : Pipe} {pipe : ℕ → Pipe} {s : Link} {C : Config}

/-- a pipe whose positions were positions before -/
theorem PipeOk.shrink (h : PipeOk a opened i P) (ha : a.appended <+: a'.appended)
    (hp : ∀ pos, Position a' i pos → Position a i pos) : PipeOk a' opened i P where
  slice := by
    obtain ⟨x, hx⟩ := ha
    rw [← hx]
    exact h.slice.grow x
  fresh := h.fresh
  owned := fun pos hx => h.owned pos (hp pos hx)
  aligned := fun pos hx => h.aligned pos (hp pos hx)

/-! ## Steps that move no position -/

structure SameView (a a' : St) : Prop where
  active : a'.writer.active = a.writer.active := by rfl
  target : a'.replacer.target = a.replacer.target ∨ a'.replacer.target = none := by exact .inl rfl
  physical : a'.physical = a.physical ∨ a'.physical = none := by exact .inl rfl
  transmitted : a'.transmitted = a.transmitted := by rfl
  appended : a.appended <+: a'.appended := by exact List.prefix_refl _

theorem SameView.position (v : SameView a a') {pos : ℕ} (h : Position a' i pos) : Position a i pos := by
  cases h with
  | attempt h => exact .attempt (v.active ▸ h)
  | replay h =>
    rcases v.target with ht | ht
    · exact .replay (ht ▸ h)
    · rw [ht] at h; cases h
  | current h hn =>
    rcases v.physical with hp | hp
    · rw [v.transmitted]
      exact .current (hp ▸ h) (v.active ▸ hn)
    · rw [hp] at h; cases h

theorem Sending.same (h : Sending a pipe opened) (v : SameView a a') : Sending a' pipe opened where
  pipes := fun i => (h.pipes i).shrink v.appended fun _ => v.position
  apart := fun q pos hq => by
    rw [v.active]
    rcases v.target with ht | ht
    · exact h.apart q pos (ht ▸ hq)
    · rw [ht] at hq; cases hq
  live := fun c p t m hw hp => by
    rw [v.active] at hw
    rw [v.transmitted]
    rcases v.physical with hp' | hp'
    · exact h.live c p t m hw (hp' ▸ hp)
    · rw [hp'] at hp; cases hp

/-- **Steps that move no position.** -/
theorem Effect.view {o : Op} (he : Effect a o a') (h : a.replacer.Within) : SameView a a' ∨ Moving a o a' := by
  cases he with
  | moves hm => exact .inr hm
  | none | ack | retire | closeJournal | callback => exact .inl {}
  | turn _ hm hp => exact .inl { active := hm.right.trans hm.left.symm, physical := hp.physical }
  | append hw => exact .inl { active := by rw [hw]; rfl, appended := prefix_append _ _ }
  | settle hw _ hx => rcases hx with rfl | rfl | rfl <;> exact .inl { active := by rw [hw]; rfl }
  | reads _ hp => exact .inl { physical := hp.physical }
  | failed => exact .inl { target := .inr rfl }
  | acked hr | captured hr => exact .inl { target := .inl (hr ▸ rfl) }
  | chunk hr _ hj =>
    obtain ⟨-, -, -, rfl, -, -⟩ := Journal.replay_spec hj
    exact .inl { target := .inl (by rw [hr]; simp [Replacer.target]) }
  | drained hr hle =>
    -- the loop ends exactly at the captured end
    rw [hr] at h
    obtain rfl := Nat.le_antisymm h hle
    exact .inl { target := .inl (hr ▸ rfl) }
  | finish _ hr hx =>
    rcases hr with hr | hr <;> rcases hx with rfl | ⟨localFIN, rfl⟩ <;> exact .inl { target := .inl (hr ▸ rfl) }
  | detach _ hr hp =>
    rcases Replacer.rest hr with rfl | ⟨i, rfl⟩ <;> exact .inl { target := .inr rfl, physical := hp.imp_right And.right }
  | close => exact .inl { physical := .inr rfl }

/-! ## The pipes move under the sender -/

/-- one pipe changes -/
theorem Sending.setPipe (hi : PipeOk a s.opened i P) (hother : ∀ j, j ≠ i → PipeOk a s.opened j (s.pipe j))
    (apart : ∀ q x, a.replacer.target = some (q, x) → ∀ c t m, a.writer.active ≠ some (c, q, t, m))
    (live : ∀ c p t m, a.writer.active = some (c, p, t, m) → a.physical = some p → a.transmitted = t) :
    Sending a (s.setPipe i P).pipe (s.setPipe i P).opened :=
  ⟨(Function.forall_update_iff s.pipe fun j P => PipeOk a s.opened j P).2 ⟨hi, hother⟩, apart, live⟩

/-- the pipe in position takes the next bytes of the log -/
theorem PipeOk.push {pos : ℕ} {bytes : List Byte} (h : PipeOk a opened i P)
    (hpos : Position a i pos) (hb : P.broken = false) (hbytes : At a.appended pos bytes)
    (ha : a'.appended = a.appended) (hat : ∀ x, Position a' i x → x = pos + bytes.length) :
    PipeOk a' opened i { P with sent := P.sent ++ bytes } where
  slice := by
    rw [ha]
    exact h.slice.append (h.aligned pos hpos hb ▸ hbytes)
  fresh := fun hu => by
    have := (h.owned pos hpos).2
    rw [show P.usedA = false from hu] at this
    cases this
  owned := fun _ _ => h.owned pos hpos
  aligned := fun x hx _ => by
    rw [hat x hx, length_append, ← Nat.add_assoc, h.aligned pos hpos hb]

/-- the pipe fails: nothing more is known of its end -/
theorem Sending.break (i : ℕ) (h : Sending a s.pipe s.opened) : Sending a (s.break' i).pipe (s.break' i).opened := by
  refine Sending.setPipe ?_ (fun j _ => h.pipes j) h.apart h.live
  have hi := h.pipes i
  exact { hi with aligned := nofun }

/-- the steps that go through a pipe -/
def Op.piped : Op → Bool
  | .writePut _ | .physicalWrite _ _ | .replace _ _ _ | .replayPut _ | .replayWrite _ _ => true
  | _ => false

/-- the steps outside the pipes -/
theorem step_sending (C : Config) (hS : Sound a) (hin : a.replacer.Within) (h : Sending a pipe opened) (o : Op)
    (ho : o.piped = false) : Sending (step C a o) pipe opened := by
  have he := step_effect C a o
  generalize step C a o = a' at he
  rcases he.view hin with v | hm
  · exact h.same v
  cases hm with
  | put | ret | start | replayed | wrote => cases ho
  | @enter c p hw hp =>
    have hl : a.writer.active = none := by rw [hw]; rfl
    have hcurrent : Position a p a.transmitted := .current hp (by rw [hl]; exact nofun)
    refine ⟨fun i => (h.pipes i).shrink (prefix_refl _) fun pos hx => ?_, fun q pos hq => ?_, ?_⟩
    · -- the attempt begins where the stream stood at rest
      cases hx with
      | attempt hx => cases hx; exact hcurrent
      | replay hx => exact .replay hx
      | current hx hn => exact .current hx (by rw [hl]; exact nofun)
    · have hb : a.replacer.busy = true := by
        cases hr : a.replacer <;> simp only [hr, Replacer.target] at hq <;> first | rfl | cases hq
      rw [hS.alone hb] at hp; cases hp
    · intro c' p' t' m hx _
      cases hx; rfl
  | @account c p t n t' e pending done err o hw ht =>
    have hact : a.writer.active = some (c, p, t, n) := by rw [hw]; rfl
    obtain rfl := ht hS
    refine ⟨fun i => (h.pipes i).shrink (prefix_refl _) fun pos hx => ?_, nofun, nofun⟩
    cases hx with
    | attempt hx => cases hx
    | replay hx => exact .replay hx
    | current hx _ =>
      by_cases hip : i = p
      · -- the attempt ran on the current stream: it is accounted in full
        subst hip
        rw [accounted_current hS hx (h.live c i t n hact hx)]
        exact .attempt hact
      · have hkeep : accounted a p t n = a.transmitted := by
          refine if_neg fun hm => ?_
          rw [hx] at hm
          rcases hm.2.1 with h' | h'
          · cases h'; exact hip rfl
          · cases h'
        rw [hkeep]
        refine .current hx fun c' t' m hx' => ?_
        rw [hact] at hx'; cases hx'; exact hip rfl
  | @publish q recv stop localFIN hr =>
    have htar : a.replacer.target = some (q, stop) := by rw [hr]; rfl
    refine ⟨fun i => (h.pipes i).shrink (prefix_refl _) fun pos hx => ?_, nofun, ?_⟩
    · cases hx with
      | attempt hx => exact .attempt hx
      | replay hx => cases hx
      | current hx hn => cases hx; exact .replay htar
    · intro c p t m hact hp
      cases hp
      exact absurd hact (h.apart q stop htar c t m)

/-! ## Attempts -/

section

variable (h : Sending s.a s.pipe s.opened)
include h

/-- the physical stream takes more of the buffer -/
theorem writePut_sending (hS : Sound s.a) (k : ℕ) :
    Sending (s.stepA C (.writePut k)).a (s.stepA C (.writePut k)).pipe (s.stepA C (.writePut k)).opened := by
  simp only [Link.stepA]
  split
  · rename_i c p t put hw
    have hact : s.a.writer.active = some (c, p, t, put) := by rw [hw]; rfl
    obtain ⟨hc, h1, h2, h3, -⟩ := hS.attempt hact
    split_ifs with hk
    · exact h
    rw [not_or, Bool.not_eq_true] at hk
    obtain ⟨hb, hlen⟩ := hk
    have hstep : writePut s.a k = { s.a with writer := .call c p t (put + k) } := by
      unfold writePut
      simp only [hw]
      exact if_pos (by omega)
    have hbytes : At s.a.appended (t + put) (((c.rest t).drop put).take k) := by
      rw [hc.rest_eq h1, drop_drop]
      exact (at_self _ _).take k
    have htake : (((c.rest t).drop put).take k).length = k := by
      rw [length_take, length_drop]; omega
    rw [hstep]
    refine Sending.setPipe ((h.pipes p).push (.attempt hact) hb hbytes rfl fun x hx => ?_) (fun j hj => ?_) ?_ ?_
    · -- nothing else holds the pipe
      cases hx with
      | attempt hx => cases hx; omega
      | replay hx => exact absurd hact (h.apart p x hx c t put)
      | current hx hn => exact absurd rfl (hn c t (put + k))
    · refine (h.pipes j).shrink (prefix_refl _) fun pos hx => ?_
      cases hx with
      | attempt hx => cases hx; exact absurd rfl hj
      | replay hx => exact .replay hx
      | current hx hn =>
        refine .current hx fun c' t' m hx' => ?_
        rw [hact] at hx'; cases hx'; exact hj rfl
    · intro q x hq c' t' m hx
      cases hx
      exact h.apart p x hq c t put hact
    · intro c' p' t' m hx hp
      cases hx
      exact h.live c p t put hact hp
  · exact h

omit h in
/-- what the write reported does not matter on a pipe that failed -/
theorem Sending.reported (h : Sending a pipe opened) {w : Writer} {c : Call}
    {p t m n : ℕ} (hact : a.writer.active = some (c, p, t, m)) (hw : w.active = some (c, p, t, n))
    (hb : (pipe p).broken = true) : Sending { a with writer := w } pipe opened where
  pipes := fun i => by
    by_cases hip : i = p
    · subst hip
      have hi := h.pipes i
      refine ⟨hi.slice, hi.fresh, fun pos _ => hi.owned _ (.attempt hact), fun _ _ hn => ?_⟩
      rw [hb] at hn; cases hn
    · refine (h.pipes i).shrink (prefix_refl _) fun pos hx => ?_
      cases hx with
      | attempt hx => rw [hw] at hx; cases hx; exact absurd rfl hip
      | replay hx => exact .replay hx
      | current hx hn =>
        refine .current hx fun c' t' m hx' => ?_
        rw [hact] at hx'; cases hx'; exact hip rfl
  apart := fun q x hq c' t' m' hx => by
    rw [hw] at hx; cases hx
    exact h.apart _ x hq c t m hact
  live := fun c' p' t' m' hx hp => by
    rw [hw] at hx; cases hx
    exact h.live c p t m hact hp

theorem physicalWrite_sending (hS : Sound s.a) (n : ℕ) (err : Option Err) :
    Sending (s.stepA C (.physicalWrite n err)).a (s.stepA C (.physicalWrite n err)).pipe
      (s.stepA C (.physicalWrite n err)).opened := by
  simp only [Link.stepA]
  split
  · rename_i c p t put hw
    have hact : s.a.writer.active = some (c, p, t, put) := by rw [hw]; rfl
    split_ifs with he hn
    · -- the write failed
      have hb : ((s.break' p).pipe p).broken = true := by simp [Link.break', Link.setPipe]
      unfold physicalWrite
      simp only [hw]
      split_ifs <;> exact (h.break p).reported hact rfl hb
    · -- the write reported what the pipe took
      obtain ⟨hc, h1, h2, h3, -⟩ := hS.attempt hact
      have hlen := hc.rest_length h1
      have hstep : physicalWrite s.a n err = { s.a with writer := .ret c p t n err } := by
        unfold physicalWrite
        simp only [hw]
        exact if_neg (by omega)
      rw [hstep]
      exact h.same { active := by rw [hact, hn]; rfl }
    · exact h
  · exact h

/-! ## Replacements -/

theorem replace_sending (q peer recv : ℕ) :
    Sending (s.stepA C (.replace q peer recv)).a (s.stepA C (.replace q peer recv)).pipe
      (s.stepA C (.replace q peer recv)).opened := by
  simp only [Link.stepA]
  split_ifs with hg
  · obtain ⟨hidle, hq, hu, rfl⟩ := hg
    have hsent := (h.pipes q).fresh hu
    -- nobody holds an unused pipe
    have hfree : ∀ pos, ¬ Position s.a q pos := fun pos hx => by
      have := ((h.pipes q).owned pos hx).2
      rw [hu] at this; cases this
    have hset : ∀ a' : St, a'.writer = s.a.writer → a'.physical = s.a.physical → a'.transmitted = s.a.transmitted →
        a'.appended = s.a.appended →
        (a'.replacer.target = none ∨ a'.replacer.target = some (q, (s.pipe q).start)) →
        Sending a' (s.setPipe q { s.pipe q with usedA := true }).pipe
          (s.setPipe q { s.pipe q with usedA := true }).opened := by
      intro a' hw hp ht hap hr
      have hpos : ∀ i pos, Position a' i pos → Position s.a i pos ∨ i = q ∧ pos = (s.pipe q).start := by
        intro i pos hx
        cases hx with
        | attempt hx => exact .inl (.attempt (hw ▸ hx))
        | replay hx =>
          rcases hr with hr | hr
          · rw [hr] at hx; cases hx
          · rw [hr] at hx; cases hx; exact .inr ⟨rfl, rfl⟩
        | current hx hn => rw [ht]; exact .inl (.current (hp ▸ hx) (hw ▸ hn))
      refine Sending.setPipe ⟨?_, nofun, fun _ _ => ⟨hq, rfl⟩, fun pos hx _ => ?_⟩ (fun j hj => ?_) ?_ ?_
      · rw [hap]; exact (h.pipes q).slice
      · rcases hpos q pos hx with hx | ⟨-, rfl⟩
        · exact absurd hx (hfree pos)
        · simp [hsent]
      · refine (h.pipes j).shrink (hap ▸ prefix_refl _) fun pos hx => ?_
        rcases hpos j pos hx with hx | ⟨rfl, -⟩
        · exact hx
        · exact absurd rfl hj
      · intro q' x hx c t m hact
        rw [hw] at hact
        rcases hr with hr | hr
        · rw [hr] at hx; cases hx
        · rw [hr] at hx; cases hx
          exact hfree _ (.attempt hact)
      · intro c p t m hact hx
        rw [ht]
        exact h.live c p t m (hw ▸ hact) (hp ▸ hx)
    unfold replace
    split
    · exact absurd hidle ‹_›
    split
    · exact hset _ rfl rfl rfl rfl (.inl rfl)
    split
    · exact hset _ rfl rfl rfl rfl (.inl rfl)
    · exact hset _ rfl rfl rfl rfl (.inr rfl)
  · exact h

theorem replayPut_sending (hS : Sound s.a) (k : ℕ) :
    Sending (s.stepA C (.replayPut k)).a (s.stepA C (.replayPut k)).pipe (s.stepA C (.replayPut k)).opened := by
  simp only [Link.stepA]
  split
  · rename_i q recv stop room off chunk put hr
    have htar : s.a.replacer.target = some (q, off - chunk.length + put) := by rw [hr]; rfl
    have hok := hS.replacer
    have halone : s.a.physical = none := hS.alone (hr ▸ rfl)
    rw [hr] at hok
    obtain ⟨-, -, h4, h5, h6⟩ := hok
    split_ifs with hk
    · exact h
    rw [not_or, Bool.not_eq_true] at hk
    obtain ⟨hb, hlen⟩ := hk
    have hstep : replayPut s.a k = { s.a with replacer := .write q recv stop room off chunk (put + k) } := by
      unfold replayPut
      simp only [hr]
      exact if_pos (by omega)
    have hbytes : At s.a.appended (off - chunk.length + put) ((chunk.drop put).take k) := (h6.drop put h4).take k
    have htake : ((chunk.drop put).take k).length = k := by
      rw [length_take, length_drop]; omega
    rw [hstep]
    refine Sending.setPipe ((h.pipes q).push (.replay htar) hb hbytes rfl fun x hx => ?_) (fun j hj => ?_) ?_ ?_
    · cases hx with
      | attempt hx => exact absurd hx (h.apart q _ htar _ _ _)
      | replay hx => cases hx; omega
      | current hx hn =>
        rw [halone] at hx; cases hx
    · refine (h.pipes j).shrink (prefix_refl _) fun pos hx => ?_
      cases hx with
      | attempt hx => exact .attempt hx
      | replay hx => cases hx; exact absurd rfl hj
      | current hx hn => exact .current hx hn
    · intro q' x hx c t m hact
      cases hx
      exact h.apart q _ htar c t m hact
    · exact h.live
  · exact h

theorem replayWrite_sending (hS : Sound s.a) (n : ℕ) (err : Option Err) :
    Sending (s.stepA C (.replayWrite n err)).a (s.stepA C (.replayWrite n err)).pipe
      (s.stepA C (.replayWrite n err)).opened := by
  simp only [Link.stepA]
  split
  · rename_i q recv stop room off chunk put hr
    have hok := hS.replacer
    rw [hr] at hok
    obtain ⟨-, -, h4, h5, -⟩ := hok
    have hfail : ∀ e, SameView s.a (replaceReturn s.a e) := fun e => { target := .inr rfl }
    split_ifs with he hn
    · obtain ⟨e, rfl⟩ := Option.ne_none_iff_exists'.1 he
      unfold replayWrite
      simp only [hr]
      split_ifs <;> exact (h.break q).same (hfail _)
    · obtain rfl : err = none := not_not.1 he
      unfold replayWrite
      simp only [hr]
      split_ifs with h1 h2 h3
      · exact h.same (hfail _)
      · exact h.same (hfail _)
      · refine h.same { target := .inl ?_ }
        simp only [hr, Replacer.target, Option.some.injEq, Prod.mk.injEq, true_and]
        omega
      · refine h.same { target := .inl ?_ }
        simp only [hr, Replacer.target, Option.some.injEq, Prod.mk.injEq, true_and, length_drop]
        omega
    · exact h
  · exact h

/-- **Alignment.** Every step of a sound sending end keeps its pipes aligned. -/
theorem stepA_sending (C : Config) (hS : Sound s.a) (hin : s.a.replacer.Within) (o : Op) :
    Sending (s.stepA C o).a (s.stepA C o).pipe (s.stepA C o).opened := by
  have hout := step_sending C hS hin h o
  cases o with
  | writePut k => exact writePut_sending h hS k
  | physicalWrite n err => exact physicalWrite_sending h hS n err
  | replace q peer recv => exact replace_sending h q peer recv
  | replayPut k => exact replayPut_sending h hS k
  | replayWrite n err => exact replayWrite_sending h hS n err
  | ack offset =>
    simp only [Link.stepA]
    split_ifs
    · exact hout rfl
    · exact h
  | _ => exact hout rfl

end

end NeProto.Continuity
