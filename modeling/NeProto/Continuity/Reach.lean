/-
How far the peer can have got. `reach a` is the largest offset `a` may have handed to a physical stream: `transmitted`, the
end of the attempt in progress, or the place of the replay in progress.

- `step_reach`: no step of an open stream lowers the reach, except a physical `Write` that reports less than was taken
  and a replacement that fails with bytes beyond it. These two are the hypotheses `hrep` and `hend`.
- `Covered`: no pipe holds a byte at or beyond `reach a`, so the peer's receive offset is at most `reach a`.
- `stepA_covered`, `stepB_covered`, `capture_covered`: the steps of a link keep it.
-/
import NeProto.Continuity.Delivery

namespace NeProto.Continuity

open Function List Replacer

variable {s : St}

/-! ## Facts of an open stream -/

/-- the copy buffer of a running replay -/
def Replacer.room? : Replacer → Option ℕ
  | .loop _ _ _ room _ | .write _ _ _ room _ _ _ => some room
  | _ => none

structure Steady (s : St) : Prop where
  /-- a replacement offers an offset that was received -/
  offered : ∀ q recv, s.replacer.candidate = some (q, recv) → recv ≤ s.receiveOffset
  /-- the copy buffer is not empty -/
  roomy : ∀ r, s.replacer.room? = some r → 0 < r

theorem init_steady (C : Config) (p : ℕ) : Steady (init C p) := ⟨nofun, nofun⟩

theorem step_steady (C : Config) (h : Steady s) (o : Op) : Steady (step C s o) := by
  have hmono := Link.step_receiveOffset C s o
  have hold : ∀ q recv, s.replacer.candidate = some (q, recv) → recv ≤ (step C s o).receiveOffset := fun q recv hc =>
    (h.offered q recv hc).trans hmono
  have he := step_effect C s o
  generalize step C s o = s' at he hmono hold
  have hold' : ∀ {r : Replacer}, s'.replacer = r → (r.candidate = s.replacer.candidate ∨ r.candidate = none) →
      (r.room? = s.replacer.room? ∨ r.room? = none) → Steady s' := by
    rintro r rfl hc hr
    refine ⟨fun q recv hx => ?_, fun x hx => ?_⟩
    · rcases hc with hc | hc
      · exact hold q recv (hc ▸ hx)
      · rw [hc] at hx; cases hx
    · rcases hr with hr | hr
      · exact h.roomy x (hr ▸ hx)
      · rw [hr] at hx; cases hx
  cases he with
  | moves hm =>
    cases hm with
    | enter | put | ret | account => exact hold' rfl (.inl rfl) (.inl rfl)
    | start _ _ hv => exact ⟨fun q recv hx => by cases hx; exact hv, nofun⟩
    | replayed hr => exact hold' rfl (.inl (hr ▸ rfl)) (.inl (hr ▸ rfl))
    | wrote r hr _ _ hx => rcases hx with ⟨rfl, -⟩ | rfl <;> exact hold' rfl (.inl (hr ▸ rfl)) (.inl (hr ▸ rfl))
    | publish => exact ⟨nofun, nofun⟩
  | failed => exact ⟨nofun, nofun⟩
  | captured hr =>
    refine ⟨fun q recv hx => hold q recv (hr ▸ hx), fun x hx => ?_⟩
    cases hx
    unfold replayCopyBufferSize
    omega
  | acked hr | drained hr => exact hold' rfl (.inl (hr ▸ rfl)) (.inr rfl)
  | chunk hr => exact hold' rfl (.inl (hr ▸ rfl)) (.inl (hr ▸ rfl))
  | finish _ hr hx =>
    rcases hr with hr | hr <;> rcases hx with rfl | ⟨localFIN, rfl⟩ <;> exact hold' rfl (.inl (hr ▸ rfl)) (.inr rfl)
  | detach _ hr => rcases rest hr with rfl | ⟨i, rfl⟩ <;> exact ⟨nofun, nofun⟩
  | _ => exact hold' rfl (.inl rfl) (.inl rfl)

/-! ## Reach -/

/-- the end of what an attempt may have handed over -/
def Writer.reach (w : Writer) : ℕ :=
  match w.active with
  | some (_, _, t, m) => t + m
  | none => 0

/-- the end of what a replay has handed over -/
def Replacer.reach (r : Replacer) : ℕ :=
  match r.target with
  | some (_, pos) => pos
  | none => 0

def reach (s : St) : ℕ := max s.transmitted (max s.writer.reach s.replacer.reach)

theorem Writer.reach_of_active {w : Writer} {c : Call} {p t m : ℕ} (h : w.active = some (c, p, t, m)) :
    w.reach = t + m := by
  unfold Writer.reach; rw [h]

theorem Writer.reach_of_none {w : Writer} (h : w.active = none) : w.reach = 0 := by
  unfold Writer.reach; rw [h]

theorem Replacer.reach_of_target {r : Replacer} {q pos : ℕ} (h : r.target = some (q, pos)) : r.reach = pos := by
  unfold reach; rw [h]

theorem Replacer.reach_of_none {r : Replacer} (h : r.target = none) : r.reach = 0 := by
  unfold reach; rw [h]

/-- **Reach never falls** on an open stream whose failing writes report all that was taken and whose failing
replacements handed over nothing beyond it. -/
theorem step_reach (C : Config) (hS : Sound s) (hin : s.replacer.Within) (o : Op) (hopen : (step C s o).closed = false)
    (hrep : ∀ n err c p t m, o = .physicalWrite n err → s.writer = .call c p t m → m ≤ n ∧ n ≤ (c.rest t).length)
    (hput : ∀ n q recv stop room off chunk put, o = .replayWrite n none →
      s.replacer = .write q recv stop room off chunk put → put ≤ n)
    (hend : (step C s o).replacer.target = none → s.replacer.reach ≤ max (step C s o).transmitted s.writer.reach) :
    reach s ≤ reach (step C s o) := by
  generalize hs' : step C s o = s' at hopen hend ⊢
  have he := step_effect C s o
  rw [hs'] at he
  unfold reach
  rcases he.view hin with v | hm
  · have hw : s'.writer.reach = s.writer.reach := by unfold Writer.reach; rw [v.active]
    rcases v.target with ht | ht
    · have hr : s'.replacer.reach = s.replacer.reach := by unfold Replacer.reach; rw [ht]
      rw [hw, hr, v.transmitted]
    · have := hend ht
      rw [v.transmitted] at this
      rw [v.transmitted]
      omega
  cases hm with
  | enter hw hp =>
    rw [Writer.reach_of_none (hw ▸ rfl)]
    change _ ≤ max s.transmitted (max (s.transmitted + 0) s.replacer.reach)
    omega
  | @put c p t m k hw hk =>
    rw [Writer.reach_of_active (by rw [hw]; rfl : s.writer.active = some (c, p, t, m))]
    change _ ≤ max s.transmitted (max (t + (m + k)) s.replacer.reach)
    omega
  | @ret c p t m n n' err err' hw _ hn =>
    obtain ⟨h1, h2⟩ := hrep n err c p t m rfl hw
    rw [Writer.reach_of_active (by rw [hw]; rfl : s.writer.active = some (c, p, t, m))]
    change _ ≤ max s.transmitted (max (t + n') s.replacer.reach)
    omega
  | @account c p t n t' e pending done err o hw ht =>
    obtain rfl := ht hS
    have hact : s.writer.active = some (c, p, t, n) := by rw [hw]; rfl
    have hlo := (accounted_bounds hS hact).1
    have hge := accounted_ge hS hopen hact
    rw [Writer.reach_of_active hact]
    change _ ≤ max (accounted s p t n) (max 0 s.replacer.reach)
    omega
  | @start q peer recv hr hp hv ht =>
    rw [hr, reach_of_none rfl]
    change _ ≤ max s.transmitted (max s.writer.reach peer)
    omega
  | @replayed q recv stop room off put k chunk hr hk =>
    rw [hr]
    change max s.transmitted (max s.writer.reach (off - chunk.length + put)) ≤
      max s.transmitted (max s.writer.reach (off - chunk.length + (put + k)))
    omega
  | @wrote q recv stop room off put n chunk r hr hn hle hx =>
    have := hput n q recv stop room off chunk put rfl hr
    have hok := hS.replacer
    rw [hr] at hok
    obtain ⟨-, -, -, h5, -⟩ := hok
    have ht : r.target = some (q, off - chunk.length + n) := by
      rcases hx with ⟨rfl, rfl⟩ | rfl
      · simp only [target, Option.some.injEq, Prod.mk.injEq, true_and]
        omega
      · simp only [target, length_drop, Option.some.injEq, Prod.mk.injEq, true_and]
        omega
    rw [hr, reach_of_target ht]
    change max s.transmitted (max s.writer.reach (off - chunk.length + put)) ≤
      max s.transmitted (max s.writer.reach (off - chunk.length + n))
    omega
  | @publish q recv stop localFIN hr hc hle =>
    have hok := hS.replacer
    rw [hr] at hok
    have hge : s.transmitted ≤ stop := hok.1
    rw [hr]
    change max s.transmitted (max s.writer.reach stop) ≤ max stop (max s.writer.reach 0)
    omega

theorem Position.le_reach {a : St} {i pos : ℕ} (h : Position a i pos) : pos ≤ reach a := by
  unfold reach
  cases h with
  | attempt h => rw [Writer.reach_of_active h]; omega
  | replay h => rw [reach_of_target h]; omega
  | current h hn => exact le_max_left _ _

/-! ## The pipes stay within reach -/

namespace Link

structure Covered (s : Link) : Prop where
  within : s.a.closed = false → ∀ i, (s.pipe i).sent ≠ [] → (s.pipe i).start + (s.pipe i).sent.length ≤ reach s.a
  received : s.b.receiveOffset = 0 ∨
    ∃ i, (s.pipe i).sent ≠ [] ∧ s.b.receiveOffset ≤ (s.pipe i).start + (s.pipe i).sent.length
  blank : ∀ i, s.opened ≤ i → (s.pipe i).sent = []

variable {s : Link}

theorem init_covered (Ca Cb : Config) : (init Ca Cb).Covered := ⟨fun _ _ h => absurd rfl h, .inl rfl, fun _ _ => rfl⟩

/-- **The peer is within reach.** -/
theorem Covered.received_le (h : s.Covered) (hopen : s.a.closed = false) : s.b.receiveOffset ≤ reach s.a := by
  rcases h.received with h0 | ⟨i, hne, hle⟩
  · rw [h0]; exact Nat.zero_le _
  · exact hle.trans (h.within hopen i hne)

/-- one pipe takes bytes; the others keep what they have -/
theorem push_sent (s : Link) (j i : ℕ) (bytes : List Byte) :
    ((s.push j bytes).pipe i).sent = (s.pipe i).sent ∨ i = j ∧ ((s.push j bytes).pipe i).broken = (s.pipe j).broken := by
  unfold push setPipe
  by_cases hij : i = j
  · subst hij
    right
    simp only [update_self, and_self]
  · left
    simp only [update_of_ne hij]

/-- marking a pipe moves no bytes -/
theorem setPipe_sent {j : ℕ} {P : Pipe} (i : ℕ) (h : P.sent = (s.pipe j).sent) :
    ((s.setPipe j P).pipe i).sent = (s.pipe i).sent := by
  unfold setPipe
  by_cases hij : i = j
  · subst hij; simpa only [update_self] using h
  · simp only [update_of_ne hij]

/-- a pipe that took bytes is not broken and `a` holds a position on it -/
theorem stepA_pushed (C : Config) (s : Link) (o : Op) (i : ℕ) :
    ((s.stepA C o).pipe i).sent = (s.pipe i).sent ∨
      ((s.stepA C o).pipe i).broken = false ∧ ∃ pos, Position (s.stepA C o).a i pos := by
  cases o with
  | writePut k =>
    simp only [stepA]
    split
    · rename_i c p t put hw
      split_ifs with hk
      · exact .inl rfl
      rw [not_or, Bool.not_eq_true, not_lt] at hk
      rcases push_sent s p i (((c.rest t).drop put).take k) with h | ⟨rfl, hb⟩
      · exact .inl h
      have hact : (writePut s.a k).writer.active = some (c, i, t, put + k) := by
        unfold writePut
        simp only [hw, if_pos hk.2]
        rfl
      exact .inr ⟨hb.trans hk.1, t + (put + k), .attempt hact⟩
    · exact .inl rfl
  | replayPut k =>
    simp only [stepA]
    split
    · rename_i q recv stop room off chunk put hr
      split_ifs with hk
      · exact .inl rfl
      rw [not_or, Bool.not_eq_true, not_lt] at hk
      rcases push_sent s q i ((chunk.drop put).take k) with h | ⟨rfl, hb⟩
      · exact .inl h
      refine .inr ⟨hb.trans hk.1, off - chunk.length + (put + k), .replay ?_⟩
      unfold replayPut
      simp only [hr, if_pos hk.2]
      rfl
    · exact .inl rfl
  | physicalWrite n err | replayWrite n err =>
    simp only [stepA]
    repeat' split
    all_goals first
      | exact .inl rfl
      | exact .inl (setPipe_sent i (by rfl))
  | ack offset =>
    simp only [stepA]
    split_ifs <;> exact .inl rfl
  | replace q peer recv =>
    simp only [stepA]
    split_ifs
    · exact .inl (setPipe_sent i (by rfl))
    · exact .inl rfl
  | _ => exact .inl rfl

theorem stepA_covered (C : Config) (h : s.Inv) (hc : s.Covered) (o : Op)
    (hopen : (s.stepA C o).a.closed = false → s.a.closed = false)
    (hreach : (s.stepA C o).a.closed = false → reach s.a ≤ reach (s.stepA C o).a) : (s.stepA C o).Covered := by
  obtain ⟨hb, hopened, hg, -⟩ := stepA_frame C s o
  have hnew := stepA_sending h.sending C h.sound h.within o
  refine ⟨fun ho i hne => ?_, ?_, fun i hi => ?_⟩
  · rcases stepA_pushed C s o i with hs | ⟨hbr, pos, hpos⟩
    · rw [hs] at hne ⊢
      rw [(hg i).start]
      exact (hc.within (hopen ho) i hne).trans (hreach ho)
    · exact ((hnew.pipes i).aligned pos hpos hbr).trans_le hpos.le_reach
  · rw [hb]
    rcases hc.received with h0 | ⟨i, hne, hle⟩
    · exact .inl h0
    obtain ⟨hs, -, -, hp⟩ := hg i
    refine .inr ⟨i, fun hnil => hne ?_, ?_⟩
    · rw [hnil] at hp
      exact prefix_nil.1 hp
    · rw [hs]
      exact hle.trans (Nat.add_le_add_left hp.length_le _)
  · rcases stepA_pushed C s o i with hs | ⟨hbr, pos, hpos⟩
    · rw [hs]
      exact hc.blank i (hopened ▸ hi)
    · exact absurd ((hnew.pipes i).owned pos hpos).1 (not_lt.2 hi)

/-- only the accounting of a read moves the receive offset -/
theorem step_receiveOffset_eq (C : Config) (s : St) (o : Op) (ho : o ≠ .readEnd) :
    (Continuity.step C s o).receiveOffset = s.receiveOffset :=
  (step_owned C s o).receiveOffset.resolve_right fun hx => ho hx.1

/-- a read that brings something new ends where the pipe was read to -/
theorem readEnd_receiveOffset (C : Config) {b : St} {l : List Byte} {pipe : ℕ → Pipe} {opened : ℕ}
    (h : Receiving b l pipe opened) :
    (readEnd C b).receiveOffset = b.receiveOffset ∨
      ∃ p, 0 < (pipe p).taken ∧ (readEnd C b).receiveOffset = (pipe p).start + (pipe p).taken := by
  unfold readEnd
  split
  · rename_i len p data err hr
    simp only
    split
    · split
      · exact .inl rfl
      split
      · exact .inl rfl
      rename_i hcur
      rw [not_not] at hcur
      have hplace := h.place_ret hr hcur
      obtain ⟨hle, -⟩ := (h.pipes p).data len data err hr
      split
      · exact .inl rfl
      by_cases hd : data.length ≤ b.discard
      · left
        rw [min_eq_left hd, drop_length]
        rfl
      · right
        refine ⟨p, by omega, ?_⟩
        change b.receiveOffset + (data.drop (min data.length b.discard)).length = _
        rw [length_drop]
        omega
    · split_ifs <;> exact .inl rfl
  · exact .inl rfl

theorem stepB_covered (C : Config) (h : s.Inv) (hc : s.Covered) (o : Op) : (s.stepB C o).Covered := by
  obtain ⟨ha, hopened, hg, hb⟩ := stepB_frame C s o
  have hsent : ∀ i, ((s.stepB C o).pipe i).sent = (s.pipe i).sent := fun i => (hg i).sent
  have hstart : ∀ i, ((s.stepB C o).pipe i).start = (s.pipe i).start := fun i => (hg i).start
  refine ⟨fun ho i => ?_, ?_, fun i hi => by rw [hsent]; exact hc.blank i (hopened ▸ hi)⟩
  · rw [ha] at ho ⊢
    rw [hsent, hstart]
    exact hc.within ho i
  simp only [hsent, hstart]
  by_cases ho : o = .readEnd
  · subst ho
    rcases readEnd_receiveOffset C h.receiving with he | ⟨p, hpos, he⟩
    · rw [show (s.stepB C .readEnd).b.receiveOffset = s.b.receiveOffset from he]
      exact hc.received
    · have htaken := (h.receiving.pipes p).taken
      refine .inr ⟨p, ne_nil_of_length_pos (by omega), ?_⟩
      rw [show (s.stepB C .readEnd).b.receiveOffset = _ from he]
      omega
  · have he : (s.stepB C o).b.receiveOffset = s.b.receiveOffset := by
      rcases hb with hb | hb
      · rw [hb]
      · rw [hb]; exact step_receiveOffset_eq C s.b o ho
    rw [he]
    exact hc.received

theorem open_covered (hc : s.Covered) (start : ℕ) :
    Covered { s.setPipe s.opened ⟨start, [], false, 0, false, false⟩ with opened := s.opened + 1 } := by
  refine ⟨fun ho => ?_, ?_, ?_⟩
  · exact (forall_update_iff s.pipe fun _ P => P.sent ≠ [] → P.start + P.sent.length ≤ reach s.a).2
      ⟨fun h => absurd rfl h, fun j _ => hc.within ho j⟩
  · rcases hc.received with h0 | ⟨i, hne, hle⟩
    · exact .inl h0
    have hio : i ≠ s.opened := fun hio => hne (hc.blank i hio.ge)
    refine .inr ⟨i, ?_, ?_⟩
    · change (update s.pipe s.opened _ i).sent ≠ []
      rw [update_of_ne hio]; exact hne
    · change s.b.receiveOffset ≤ (update s.pipe s.opened _ i).start + (update s.pipe s.opened _ i).sent.length
      rw [update_of_ne hio]; exact hle
  · exact (forall_update_iff s.pipe fun j P => s.opened + 1 ≤ j → P.sent = []).2
      ⟨fun _ => rfl, fun j _ hj => hc.blank j (by omega)⟩

theorem capture_covered (hc : s.Covered) (fromA : Bool) : (s.capture fromA).Covered := by
  unfold capture
  split_ifs
  · exact open_covered hc _
  · exact hc
  · exact open_covered hc _
  · exact hc

end Link

end NeProto.Continuity
