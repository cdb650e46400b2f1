/-
The receiving side of a link: which part of the log `b` has got, and where it stands in its pipe.

- `Receiving`: what `b` has accounted is a prefix of the log of length `receiveOffset`; the place `b` has read up to in
  its current pipe, less what it still has to discard, is `receiveOffset`.
- `SameRecv`: a step outside `Read` that starts and publishes no replacement; `step_recv` lists these.
- `stepB_receiving`: every step of `b` keeps `Receiving`, whatever its own sending side does.
-/
import NeProto.Continuity.Aligned

namespace NeProto.Continuity

open List Reader

/-! ## What the receiving side keeps -/

/-- the physical stream a `Read` is on -/
def Reader.on : Reader → Option ℕ
  | .call _ p | .ret _ p _ _ => some p
  | _ => none

/-- the bytes read from `p` and not yet accounted -/
def Reader.unaccounted (p : ℕ) : Reader → ℕ
  | .ret _ p' data _ => if p' = p then data.length else 0
  | _ => 0

/-- the candidate of a running `Replace` and the offset it starts at -/
def Replacer.candidate : Replacer → Option (ℕ × ℕ)
  | .ack q _ recv | .state q _ recv | .loop q recv _ _ _ | .write q recv _ _ _ _ _ | .fin q recv _ | .closeWrite q recv _
  | .publish q recv _ _ => some (q, recv)
  | _ => none

/-- `b` holds pipe `i` -/
inductive Holds (b : St) : ℕ → Prop where
  | current {p : ℕ} (h : b.physical = some p) : Holds b p
  | reading {p : ℕ} (h : b.reader.on = some p) : Holds b p
  | replacing {q recv : ℕ} (h : b.replacer.candidate = some (q, recv)) : Holds b q

/-- what `b` knows of pipe `i` -/
structure PipeAt (b : St) (opened i : ℕ) (P : Pipe) : Prop where
  taken : P.taken ≤ P.sent.length
  fresh : P.usedB = false → P.taken = 0
  held : Holds b i → i < opened ∧ P.usedB = true
  /-- the place in the current pipe -/
  place : b.physical = some i → P.start + P.taken + b.discard = b.receiveOffset + b.reader.unaccounted i
  /-- what a `Read` has in its hands is the last part taken -/
  data : ∀ len bytes err, b.reader = .ret len i bytes err →
    bytes.length ≤ P.taken ∧ At P.sent (P.taken - bytes.length) bytes
  /-- a candidate is untouched -/
  candidate : ∀ recv, b.replacer.candidate = some (i, recv) → P.taken = 0 ∧ P.start = recv ∧ b.reader.on ≠ some i

structure Receiving (b : St) (l : List Byte) (pipe : ℕ → Pipe) (opened : ℕ) : Prop where
  got : returned b ++ handing b <+: l
  count : (returned b ++ handing b).length = b.receiveOffset
  pipes : ∀ i, PipeAt b opened i (pipe i)
  alone : ∀ q recv, b.replacer.candidate = some (q, recv) → b.physical = none
  shut : b.closed = true → b.physical = none

/-! ## Steps outside `Read` -/

structure SameRecv (b b' : St) : Prop where
  reader : b'.reader = b.reader := by rfl
  receiveOffset : b'.receiveOffset = b.receiveOffset := by rfl
  discard : b'.discard = b.discard := by rfl
  returned : returned b' = returned b := by rfl
  physical : b'.physical = b.physical ∨ b'.physical = none := by exact .inl rfl
  candidate : b'.replacer.candidate = b.replacer.candidate ∨ b'.replacer.candidate = none := by exact .inl rfl
  closed : b'.closed = b.closed ∨ b'.physical = none := by exact .inl rfl

variable {b b' : St} {l : List Byte} {s : Link}

theorem SameRecv.refl (b : St) : SameRecv b b where

/-- a call that returned adds its bytes -/
theorem returned_snoc {r : Result} (h : b'.log = b.log ++ [r]) : returned b' = returned b ++ r.bytes := by
  simp [returned, h]

/-- a call that is no `Read` returns no bytes -/
theorem returned_log {r : Result} (h : b'.log = b.log ++ [r]) (hr : r.bytes = []) : returned b' = returned b := by
  rw [returned_snoc h, hr, append_nil]

theorem returned_logs {role : Role} (h : Logs role b.log b'.log) (hr : role ≠ .reader) : returned b' = returned b := by
  rcases h with h | ⟨r, hrole, h⟩
  · unfold returned; rw [h]
  · refine returned_log h ?_
    cases r with
    | read => exact absurd hrole.symm hr
    | _ => rfl

theorem SameRecv.handing (v : SameRecv b b') : handing b' = handing b := by
  unfold Continuity.handing; rw [v.reader]

theorem Reader.unaccounted_of_on {r : Reader} {p : ℕ} (h : r.on ≠ some p) : r.unaccounted p = 0 := by
  cases r with
  | ret len p' data err => exact if_neg fun hp => h (by rw [hp]; rfl)
  | _ => rfl

theorem some_of_kept {α : Type} {o o' : Option α} {a : α} (h : o' = o ∨ o' = none) (ha : o' = some a) : o = some a := by
  rcases h with rfl | rfl
  · exact ha
  · cases ha

/-- the physical stream and the candidate stay or go, and the reader takes up nothing -/
theorem Receiving.settle {pipe : ℕ → Pipe} {opened : ℕ} (h : Receiving b l pipe opened)
    (bytes : returned b' ++ handing b' = returned b ++ handing b) (receiveOffset : b'.receiveOffset = b.receiveOffset)
    (discard : b'.discard = b.discard) (physical : b'.physical = b.physical ∨ b'.physical = none)
    (candidate : b'.replacer.candidate = b.replacer.candidate ∨ b'.replacer.candidate = none)
    (closed : b'.closed = b.closed ∨ b'.physical = none)
    (reader : b'.reader = b.reader ∨ b'.reader.on = none ∧ ∀ p, b'.physical = some p → b.reader.unaccounted p = 0) :
    Receiving b' l pipe opened := by
  have hon := reader.imp (congrArg on) And.left
  have hnone : b.physical = none → b'.physical = none := fun hx => physical.elim (·.trans hx) id
  refine ⟨bytes ▸ h.got, by rw [bytes, receiveOffset]; exact h.count, fun i => { h.pipes i with
      held := fun hx => ?_, place := fun hx => ?_, data := fun len bytes err hx => ?_, candidate := fun recv hx => ?_ },
    fun q recv hx => hnone (h.alone q recv (some_of_kept candidate hx)), fun hx => closed.elim (fun hc => hnone (h.shut (hc ▸ hx))) id⟩
  · cases hx with
    | current hx => exact (h.pipes i).held (.current (some_of_kept physical hx))
    | reading hx => exact (h.pipes i).held (.reading (some_of_kept hon hx))
    | replacing hx => exact (h.pipes i).held (.replacing (some_of_kept candidate hx))
  · rw [discard, receiveOffset, (h.pipes i).place (some_of_kept physical hx)]
    rcases reader with hr | ⟨hr, hu⟩
    · rw [hr]
    · rw [hu i hx, unaccounted_of_on (by rw [hr]; exact nofun)]
  · rcases reader with hr | ⟨hr, -⟩
    · exact (h.pipes i).data len bytes err (hr ▸ hx)
    · rw [hx] at hr
      cases hr
  · obtain ⟨h1, h2, h3⟩ := (h.pipes i).candidate recv (some_of_kept candidate hx)
    exact ⟨h1, h2, fun ho => h3 (some_of_kept hon ho)⟩

theorem Receiving.same {pipe : ℕ → Pipe} {opened : ℕ} (h : Receiving b l pipe opened) (v : SameRecv b b') :
    Receiving b' l pipe opened :=
  h.settle (by rw [v.returned, v.handing]) v.receiveOffset v.discard v.physical v.candidate v.closed (.inl v.reader)

/-- the steps of `Read`, and those that begin or publish a replacement -/
def Op.receives : Op → Bool
  | .read _ | .readWait | .readWake | .readContext | .physicalRead _ _ | .readEnd | .readNotified _ | .readLost | .readTail
  | .replace _ _ _ | .replacePublish => true
  | _ => false

theorem markUnavailable_recv (s : St) (p : ℕ) : SameRecv s (markUnavailable s p) := by
  unfold markUnavailable
  split_ifs
  · exact .refl s
  · exact { physical := .inr rfl }
  · exact { physical := .inr rfl }

/-- **Steps outside `Read`.** -/
theorem step_recv (C : Config) (s : St) (o : Op) (ho : o.receives = false) : SameRecv s (step C s o) := by
  have hrole : o.role ≠ .reader := by
    intro hx
    cases o <;> first | (cases ho; done) | cases hx
  have hret := returned_logs (step_owned C s o).log hrole
  have he := step_effect C s o
  generalize step C s o = s' at he hret
  cases he with
  | moves hm =>
    cases hm with
    | start | publish => cases ho
    | enter | put | ret | account => exact { returned := hret }
    | replayed hr => exact { returned := hret, candidate := .inl (hr ▸ rfl) }
    | wrote r hr _ _ hx =>
      rcases hx with ⟨rfl, -⟩ | rfl <;> exact { returned := hret, candidate := .inl (hr ▸ rfl) }
  | turn _ _ hp => exact { returned := hret, physical := hp.physical }
  | reads hx => exact absurd hx hrole
  | failed => exact { returned := hret, candidate := .inr rfl }
  | acked hr | captured hr | chunk hr | drained hr => exact { returned := hret, candidate := .inl (hr ▸ rfl) }
  | finish _ hr hx =>
    rcases hr with hr | hr <;> rcases hx with rfl | ⟨localFIN, rfl⟩ <;>
      exact { returned := hret, candidate := .inl (hr ▸ rfl) }
  | detach _ hr hp =>
    rcases Replacer.rest hr with rfl | ⟨i, rfl⟩ <;>
      exact { returned := hret, candidate := .inr rfl, physical := hp.imp_right And.right }
  | close => exact { physical := .inr rfl, closed := .inr rfl }
  | _ => exact { returned := hret }

/-! ## Steps of `Read` -/

/-- the reader leaves its physical stream with nothing of the current pipe in its hands -/
structure Leaves (b b' : St) : Prop where
  reader : b'.reader.on = none := by rfl
  dropped : ∀ p, b'.physical = some p → b.reader.unaccounted p = 0
  bytes : returned b' ++ handing b' = returned b ++ handing b
  receiveOffset : b'.receiveOffset = b.receiveOffset := by rfl
  discard : b'.discard = b.discard := by rfl
  physical : b'.physical = b.physical ∨ b'.physical = none := by exact .inl rfl
  replacer : b'.replacer = b.replacer := by rfl
  closed : b'.closed = b.closed := by rfl

theorem Receiving.leave {pipe : ℕ → Pipe} {opened : ℕ} (h : Receiving b l pipe opened) (v : Leaves b b') :
    Receiving b' l pipe opened :=
  h.settle v.bytes v.receiveOffset v.discard v.physical (.inl (by rw [v.replacer])) (.inl v.closed) (.inr ⟨v.reader, v.dropped⟩)

section steps

variable {b : St} {l : List Byte} {pipe : ℕ → Pipe} {opened : ℕ}

variable {p len : ℕ} {data : List Byte} {err : Option Err}

section

variable (h : Receiving b l pipe opened)

include h

/-- a `Read` that returns `data`, which it had accounted -/
theorem Receiving.readReturn (data : List Byte) (err : Option Err)
    (hh : handing b = data) (hd : ∀ p, b.physical = some p → b.reader.unaccounted p = 0) :
    Receiving (readReturn b data err) l pipe opened :=
  h.leave { dropped := hd, bytes := by rw [returned_snoc rfl, hh]; exact append_nil _ }

theorem readWait_receiving : Receiving (readWait b) l pipe opened := by
  unfold readWait
  split
  · rename_i len hr
    have hu : ∀ p, b.physical = some p → b.reader.unaccounted p = 0 := fun p _ => by rw [hr]; rfl
    have hh : handing b = [] := by unfold handing; rw [hr]
    split
    · exact h.readReturn [] _ hh hu
    split
    · exact h.leave { dropped := hu, bytes := by rw [hh]; rfl }
    rename_i p hp
    refine { h with
      got := by have := h.got; rw [hh] at this; exact this
      count := by have := h.count; rw [hh] at this; exact this
      pipes := fun i => { h.pipes i with
        held := fun hx => ?_
        place := fun hx => ?_
        data := nofun
        candidate := fun recv hx => ?_ } }
    · cases hx with
      | current hx => exact (h.pipes i).held (.current hx)
      | reading hx => cases hx; exact (h.pipes _).held (.current hp)
      | replacing hx => exact (h.pipes i).held (.replacing hx)
    · have := (h.pipes i).place hx
      rw [hu i hx] at this
      exact this
    · rw [h.alone i recv hx] at hp; cases hp
  · exact h

theorem readNotified_receiving (ok : Bool) : Receiving (readNotified b ok) l pipe opened := by
  unfold readNotified
  split
  · rename_i len p data err hr
    have hu : ∀ p, b.physical = some p → b.reader.unaccounted p = 0 := fun p _ => by rw [hr]; rfl
    have hh : handing b = data := by unfold handing; rw [hr]
    cases ok <;> exact h.leave { dropped := hu, bytes := by rw [hh]; rfl }
  · exact h

theorem readLost_receiving : Receiving (readLost b) l pipe opened := by
  unfold readLost
  cases hr : b.reader with
  | unnotified len p | lost len p =>
    have h1 := h.same (markUnavailable_recv b p)
    have hu : ∀ i, (markUnavailable b p).reader.unaccounted i = 0 := fun i => by
      rw [(markUnavailable_recv b p).reader, hr]; rfl
    refine h1.leave { dropped := fun i _ => hu i, bytes := ?_ }
    rw [(markUnavailable_recv b p).handing]
    unfold handing; rw [hr]; rfl
  | _ => exact h

omit h in
theorem readTail_receiving (C : Config) (h : Receiving b l pipe opened) : Receiving (readTail C b) l pipe opened := by
  -- the tail returns what was accounted, or waits again when everything was discarded
  have hend : ∀ (b : St) (len p : ℕ) (data : List Byte) (e err : Option Err), Receiving b l pipe opened →
      b.reader = .tail len p data err →
      Receiving (readReturn b data e) l pipe opened ∧
        (data = [] → Receiving { b with reader := .wait len } l pipe opened) := by
    intro b len p data e err h hr
    have hu : ∀ i, b.physical = some i → b.reader.unaccounted i = 0 := fun i _ => by rw [hr]; rfl
    have hh : handing b = data := by unfold handing; rw [hr]
    refine ⟨h.readReturn data e hh hu, fun hd => h.leave { dropped := hu, bytes := ?_ }⟩
    rw [hh, hd]; rfl
  unfold readTail
  split
  · rename_i len p data err hr
    cases err with
    | none =>
      split_ifs with hd
      · exact (hend b len p data _ _ h hr).1
      · exact (hend b len p data none _ h hr).2 (not_not.1 hd)
    | some e =>
      have h1 := h.same (markUnavailable_recv b p)
      have hr1 : (markUnavailable b p).reader = .tail len p data (some e) := (markUnavailable_recv b p).reader.trans hr
      simp only
      split_ifs with hc hd hd
      · exact (hend _ len p data _ _ h1 hr1).1
      · exact (hend _ len p data none _ h1 hr1).2 (not_not.1 hd)
      · exact (hend b len p data _ _ h hr).1
      have hd' := not_not.1 hd
      subst hd'
      exact (hend b len p [] _ _ h hr).1
  · exact h

/-- the place of a `Read` that came back with bytes of the current pipe -/
theorem Receiving.place_ret (hr : b.reader = .ret len p data err) (hp : b.physical = some p) :
    (pipe p).start + (pipe p).taken + b.discard = b.receiveOffset + data.length := by
  have := (h.pipes p).place hp
  rwa [hr, unaccounted, if_pos rfl] at this

section

variable (hslice : ∀ i, At l (pipe i).start (pipe i).sent)
include hslice

/-- past the bytes to discard, the pipe goes on exactly where `receiveOffset` stands -/
theorem Receiving.fresh_at (hr : b.reader = .ret len p data err) (hp : b.physical = some p) :
    At l b.receiveOffset (data.drop (min data.length b.discard)) := by
  have hplace := h.place_ret hr hp
  obtain ⟨hle, hat⟩ := (h.pipes p).data len data err hr
  by_cases hd : data.length ≤ b.discard
  · rw [min_eq_left hd, drop_length]
    exact at_nil _ _
  · rw [min_eq_right (by omega)]
    have hlog := (hslice p).slice hat (by have := (h.pipes p).taken; omega)
    have hdrop := hlog.drop b.discard (by omega)
    rwa [show (pipe p).start + ((pipe p).taken - data.length) + b.discard = b.receiveOffset by omega] at hdrop

/-- the bytes of a `Read` are accounted -/
theorem Receiving.account (hr : b.reader = .ret len p data err) (hp : b.physical = some p) (r : Reader) (n : ℕ)
    (hon : r.on = none) (hd : ∀ b' : St, b'.reader = r → handing b' = data.drop (min data.length b.discard)) :
    Receiving { b with discard := b.discard - min data.length b.discard
                       receiveOffset := b.receiveOffset + (data.drop (min data.length b.discard)).length
                       lastNotified := n, reader := r } l pipe opened := by
  have hplace := h.place_ret hr hp
  have hfresh := h.fresh_at hslice hr hp
  have hh : handing b = [] := by unfold handing; rw [hr]
  have hgot := h.got
  have hcount := h.count
  rw [hh, append_nil] at hgot hcount
  have hu : ∀ i, r.unaccounted i = 0 := fun i => unaccounted_of_on (by rw [hon]; exact nofun)
  refine { got := ?_, count := ?_, pipes := fun i => { h.pipes i with held := ?_, place := ?_, data := ?_, candidate := ?_ },
           alone := h.alone, shut := h.shut }
  · rw [hd _ rfl]
    have hnext : At l (0 + (returned b).length) (data.drop (min data.length b.discard)) := by
      rw [Nat.zero_add, hcount]; exact hfresh
    exact at_zero.1 ((at_zero.2 hgot).append hnext)
  · rw [hd _ rfl, length_append]
    exact congrArg (· + _) hcount
  · intro hx
    cases hx with
    | current hx => exact (h.pipes i).held (.current hx)
    | reading hx => rw [hon] at hx; cases hx
    | replacing hx => exact (h.pipes i).held (.replacing hx)
  · intro hx
    rw [hp] at hx
    cases hx
    simp only [hu, length_drop]
    omega
  · intro _ _ _ hx
    change r = _ at hx
    rw [hx] at hon; cases hon
  · intro recv hx
    obtain ⟨h1, h2, -⟩ := (h.pipes i).candidate recv hx
    exact ⟨h1, h2, by rw [hon]; exact nofun⟩

omit h in
/-- **Accounting a read.** -/
theorem readEnd_receiving (C : Config) (h : Receiving b l pipe opened) (hl : l.length ≤ maxSequence) :
    Receiving (readEnd C b) l pipe opened := by
  unfold readEnd
  split
  · rename_i len p data err hr
    have hh : handing b = [] := by unfold handing; rw [hr]
    have hother : ∀ i, i ≠ p → b.reader.unaccounted i = 0 := fun i hi => by rw [hr]; exact if_neg (Ne.symm hi)
    simp only
    split
    · split
      · rename_i hcl
        exact h.readReturn [] _ hh fun i hi => by rw [h.shut hcl] at hi; cases hi
      split
      · rename_i hcur
        exact h.readReturn [] _ hh fun i hi => hother i fun hip => hcur (hip ▸ hi)
      rename_i hcur
      rw [not_not] at hcur
      split
      · -- the log is too short for an overflow
        have hfresh := h.fresh_at hslice hr hcur
        have hR : b.receiveOffset ≤ l.length := by
          rw [← h.count]; exact h.got.length_le
        have := hfresh.end_le hR
        omega
      · refine h.account hslice hr hcur _ _ ?_ fun b' hb' => ?_
        · split_ifs <;> rfl
        unfold handing
        rw [hb']
        split_ifs <;> rfl
    · rename_i hne
      rw [not_not] at hne
      subst hne
      have hu : ∀ i, b.reader.unaccounted i = 0 := fun i => by rw [hr]; simp [unaccounted]
      split_ifs
      · exact h.leave { dropped := fun i _ => hu i, bytes := by rw [hh]; rfl }
      · exact h.readReturn [] _ hh fun i _ => hu i
  · exact h

end

theorem replacePublish_receiving : Receiving (replacePublish b) l pipe opened := by
  unfold replacePublish
  split
  · rename_i q recv stop localFIN hr
    have hcand : b.replacer.candidate = some (q, recv) := by rw [hr]; rfl
    split_ifs with hc
    · exact h.same { returned := returned_log rfl rfl, candidate := .inr rfl }
    simp only [not_or, not_lt] at hc
    obtain ⟨hcl, -, hle⟩ := hc
    obtain ⟨htaken, hstart, hon⟩ := (h.pipes q).candidate recv hcand
    have hret : ∀ b' : St, b'.log = b.log ++ [.replace none] → returned b' = returned b := fun _ h => returned_log h rfl
    refine { got := by rw [hret _ rfl]; exact h.got, count := by rw [hret _ rfl]; exact h.count,
             pipes := fun i => { h.pipes i with held := ?_, place := ?_, candidate := fun _ hx => nomatch hx },
             alone := nofun, shut := fun hx => absurd hx hcl }
    · intro hx
      cases hx with
      | current hx => cases hx; exact (h.pipes q).held (.replacing hcand)
      | reading hx => exact (h.pipes i).held (.reading hx)
      | replacing hx => cases hx
    · intro hx
      cases hx
      change (pipe q).start + (pipe q).taken + (b.receiveOffset - recv) = b.receiveOffset + b.reader.unaccounted q
      rw [unaccounted_of_on hon]
      omega
  · exact h

end

end steps

/-! ## Steps through the pipes -/

/-- one pipe changes -/
theorem Receiving.setPipe {i : ℕ} {P : Pipe}
    (got : returned b ++ handing b <+: l) (count : (returned b ++ handing b).length = b.receiveOffset)
    (hi : PipeAt b s.opened i P) (hother : ∀ j, j ≠ i → PipeAt b s.opened j (s.pipe j))
    (alone : ∀ q recv, b.replacer.candidate = some (q, recv) → b.physical = none)
    (shut : b.closed = true → b.physical = none) : Receiving b l (s.setPipe i P).pipe (s.setPipe i P).opened :=
  ⟨got, count, (Function.forall_update_iff s.pipe fun j P => PipeAt b s.opened j P).2 ⟨hi, hother⟩, alone, shut⟩

section

variable (h : Receiving s.b l s.pipe s.opened)
include h

theorem physicalRead_receiving {C : Config} (data : List Byte) (err : Option Err) :
    Receiving (s.stepB C (.physicalRead data err)).b l (s.stepB C (.physicalRead data err)).pipe
      (s.stepB C (.physicalRead data err)).opened := by
  simp only [Link.stepB]
  split
  · rename_i len p hr
    have hon : s.b.reader.on = some p := by rw [hr]; rfl
    have hh : handing s.b = [] := by unfold handing; rw [hr]
    split_ifs with hg
    · obtain ⟨hlen, hdata⟩ := hg
      have hstep : physicalRead s.b data err = { s.b with reader := .ret len p data err } := by
        unfold physicalRead
        simp only [hr]
        exact if_neg (by omega)
      rw [hstep]
      have hroom : data.length ≤ (s.pipe p).sent.length - (s.pipe p).taken := by
        conv_lhs => rw [hdata]
        rw [length_take, length_drop]; omega
      have htaken := (h.pipes p).taken
      have hown := (h.pipes p).held (.reading hon)
      have hholds : ∀ i, Holds { s.b with reader := .ret len p data err } i → Holds s.b i := fun i hx => by
        cases hx with
        | current hx => exact .current hx
        | reading hx => cases hx; exact .reading hon
        | replacing hx => exact .replacing hx
      refine Receiving.setPipe (by have := h.got; rw [hh] at this; exact this)
        (by have := h.count; rw [hh] at this; exact this)
        ⟨?_, fun hu => ?_, fun _ => hown, fun hx => ?_, fun _ _ _ hx => ?_, fun recv hx => ?_⟩ (fun j hj => ?_) h.alone h.shut
      · change (s.pipe p).taken + data.length ≤ (s.pipe p).sent.length
        omega
      · rw [hown.2] at hu; cases hu
      · have := (h.pipes p).place hx
        simp only [hr, unaccounted, if_true] at this ⊢
        omega
      · cases hx
        refine ⟨Nat.le_add_left _ _, ?_⟩
        rw [Nat.add_sub_cancel]
        unfold At
        conv_lhs => rw [hdata]
        exact take_prefix _ _
      · exact absurd hon ((h.pipes p).candidate recv hx).2.2
      · refine { h.pipes j with
          held := fun hx => (h.pipes j).held (hholds j hx)
          place := fun hx => ?_
          data := fun _ _ _ hx => ?_
          candidate := fun recv hx => ?_ }
        · have := (h.pipes j).place hx
          simp only [hr, unaccounted, if_neg (Ne.symm hj)] at this ⊢
          exact this
        · cases hx; exact absurd rfl hj
        · obtain ⟨h1, h2, -⟩ := (h.pipes j).candidate recv hx
          exact ⟨h1, h2, fun hx => hj (by cases hx; rfl)⟩
    · exact h
  · exact h

theorem replace_receiving {C : Config} (q peer recv : ℕ) :
    Receiving (s.stepB C (.replace q peer recv)).b l (s.stepB C (.replace q peer recv)).pipe
      (s.stepB C (.replace q peer recv)).opened := by
  simp only [Link.stepB]
  split_ifs with hg
  · obtain ⟨hidle, hq, hu, rfl⟩ := hg
    have hfree : ¬ Holds s.b q := fun hx => by
      have := ((h.pipes q).held hx).2
      rw [hu] at this; cases this
    -- marking the pipe changes nothing for a `b` that does not hold it
    have hmark : Receiving s.b l (s.setPipe q { s.pipe q with usedB := true }).pipe
        (s.setPipe q { s.pipe q with usedB := true }).opened :=
      Receiving.setPipe h.got h.count
        { h.pipes q with fresh := fun _ => (h.pipes q).fresh hu, held := fun hx => absurd hx hfree }
        (fun j _ => h.pipes j) h.alone h.shut
    have hfail : ∀ e, SameRecv s.b (replaceReturn s.b e) := fun e =>
      { returned := returned_log rfl rfl, candidate := .inr rfl }
    unfold replace
    split
    · exact absurd hidle ‹_›
    split
    · exact hmark.same (hfail _)
    split
    · exact hmark.same (hfail _)
    rename_i hb
    simp only [not_or, not_not] at hb
    have hnot : s.b.reader.on ≠ some q := fun hx => hfree (.reading hx)
    refine Receiving.setPipe h.got h.count
      ⟨(h.pipes q).taken, nofun, fun _ => ⟨hq, rfl⟩, fun hx => ?_, fun len bytes e hx => ?_, fun recv hx => ?_⟩
      (fun j hj => ?_) (fun _ _ _ => hb.1) h.shut
    · exact absurd (.current hx) hfree
    · exact absurd (by rw [hx]; rfl) hnot
    · cases hx
      exact ⟨(h.pipes q).fresh hu, rfl, hnot⟩
    refine { h.pipes j with held := fun hx => ?_, candidate := fun recv hx => ?_ }
    · cases hx with
      | current hx => exact (h.pipes j).held (.current hx)
      | reading hx => exact (h.pipes j).held (.reading hx)
      | replacing hx => cases hx; exact absurd rfl hj
    · cases hx; exact absurd rfl hj
  · exact h

/-- **Receiving.** Every step of the receiving end keeps its place in the log. -/
theorem stepB_receiving (C : Config) (hl : l.length ≤ maxSequence) (hslice : ∀ i, At l (s.pipe i).start (s.pipe i).sent) (o : Op) :
    Receiving (s.stepB C o).b l (s.stepB C o).pipe (s.stepB C o).opened := by
  by_cases ho : o.receives = false
  · have hv := h.same (step_recv C s.b o ho)
    cases o with
    | physicalRead | replace => cases ho
    | _ => exact hv
  cases o with
  | read len =>
    change Receiving (read s.b len) l s.pipe s.opened
    unfold read
    split_ifs with hr
    · exact h
    rw [not_or, not_not] at hr
    refine h.leave { dropped := fun p _ => by rw [hr.1]; rfl, bytes := ?_ }
    unfold handing; rw [hr.1]; rfl
  | readWait => exact readWait_receiving h
  | readWake =>
    change Receiving (readWake s.b) l s.pipe s.opened
    unfold readWake
    split
    · rename_i len hr
      refine h.leave { dropped := fun p _ => by rw [hr]; rfl, bytes := ?_ }
      unfold handing; rw [hr]; rfl
    · exact h
  | readContext =>
    change Receiving (readContext s.b) l s.pipe s.opened
    unfold readContext
    split
    · rename_i len hr
      exact h.readReturn [] _ (by unfold handing; rw [hr]) fun p _ => by rw [hr]; rfl
    · exact h
  | physicalRead data err => exact physicalRead_receiving h data err
  | readEnd => exact readEnd_receiving hslice C h hl
  | readNotified ok => exact readNotified_receiving h ok
  | readLost => exact readLost_receiving h
  | readTail => exact readTail_receiving C h
  | replace q peer recv => exact replace_receiving h q peer recv
  | replacePublish => exact replacePublish_receiving h
  | _ => exact absurd rfl ho

end

end NeProto.Continuity
