/-
No migration request is lost. A flow that has lost its physical stream is in the queue, in the hands of the worker, or has
a `requestMigration` call on its way there.

- `tokens`: a flow's place in the queue, in a select of `requestMigration` and in the worker, counted together.
- `Inv`: `migrating` is set exactly when the flow has one token, and a flow without a physical stream is migrating before
  its replacement is published, or still owes the `OnUnavailable` callback of the loss.
- `callbackSafe`: no callback of a lost stream makes its check between the moment `Replace` publishes the stream and the
  moment `migrate` clears `migrating`.
- `no_lost_migration`: in every run that meets it, no flow hangs.
- `lost_migration`: the window. The request of the new stream's loss is dropped because `migrating` is still set.
-/
import NeProto.Continuity.Sender
import NeProto.Tunstack.ContinuityRouter

namespace NeProto.Tunstack

open Function List

open Continuity (St Op Config Result)

/-! ## How a stream loses its physical stream -/

/-- whoever drops the physical stream owes the callback -/
structure Owes (s s' : St) : Prop where
  lost : s'.physical = none → s.physical = none ∨ s.callbacks < s'.callbacks := by exact .inl
  callbacks : s.callbacks ≤ s'.callbacks := by exact le_rfl
  closed : s'.closed = s.closed := by rfl

variable {o : Op}

theorem Owes.of_loses {s s' : St} (h : Continuity.Loses s s'.physical s'.callbacks) (hc : s'.closed = s.closed) : Owes s s' := by
  generalize hp : s'.physical = physical at h
  generalize hb : s'.callbacks = callbacks at h
  cases h with
  | kept => exact ⟨fun hx => .inl (hp ▸ hx), hb.ge, hc⟩
  | lost => exact ⟨fun _ => .inr (by omega), by omega, hc⟩

/-- every operation but `DetachPhysical` and `Close` -/
theorem step_owes (C : Config) (s : St) (o : Op) (h1 : o ≠ .detachPhysical) (h2 : o ≠ .close) (h3 : o ≠ .callback) :
    Owes s (Continuity.step C s o) := by
  have he := Continuity.step_effect C s o
  generalize Continuity.step C s o = s' at he
  cases he with
  | close => exact absurd rfl h2
  | callback => exact absurd rfl h3
  | turn _ _ hp | reads _ hp => exact .of_loses hp rfl
  | detach _ _ hp =>
    rcases hp with rfl | ⟨rfl, -⟩
    · exact {}
    · exact absurd rfl h1
  | moves hm =>
    cases hm with
    | publish => exact { lost := nofun }
    | _ => exact {}
  | _ => exact {}

theorem news_same {s s' : St} (h : s'.log = s.log) : Continuity.news s s' = [] := by
  unfold Continuity.news
  rw [h, drop_length]

theorem news_snoc {s s' : St} {x : Result} (h : s'.log = s.log ++ [x]) : Continuity.news s s' = [x] := by
  unfold Continuity.news
  rw [h, drop_left]

/-- a `Replace` that returns nil leaves a physical stream -/
theorem replaced_physical (C : Config) (s : St) {m : Round} {p : ℕ} (ho : Router.ofReplace m p o = true)
    (h : Continuity.news s (Continuity.step C s o) = [.replace none]) : (Continuity.step C s o).physical ≠ none := by
  have hrole : o.role = .replacer := by cases o <;> first | rfl | cases ho
  have he := Continuity.step_effect C s o
  generalize Continuity.step C s o = s' at he h
  cases he with
  | turn hx | reads hx => cases hrole.symm.trans hx
  | append | settle | ack | retire | close | closeJournal | callback => cases hrole
  | detach hx => rcases hx with rfl | rfl <;> cases ho
  | failed => cases h.symm.trans (news_snoc rfl)
  | moves hm =>
    cases hm with
    | publish => exact nofun
    | _ => cases h.symm.trans (news_same rfl)
  | _ => cases h.symm.trans (news_same rfl)

/-- `DetachPhysical` fails only on a closed stream -/
theorem detach_closed (C : Config) (s : St) (ho : o = .detachPhysical ∨ o = .detachDone) {e : Continuity.Err}
    (h : Continuity.news s (Continuity.step C s o) = [.detach (some e)]) :
    e = .resumableClosed ∧ (Continuity.step C s o).closed = true := by
  have he := Continuity.step_effect C s o
  generalize Continuity.step C s o = s' at he h ⊢
  rcases ho with rfl | rfl
  all_goals cases he with
    | turn hx | reads hx => cases hx
    | moves hm => cases hm
    | failed => cases h.symm.trans (news_snoc rfl)
    | detach _ _ _ hl =>
      rcases hl with hl | ⟨err, herr, hl⟩
      · cases h.symm.trans (news_same hl)
      · cases h.symm.trans (news_snoc hl)
        exact herr e rfl
    | _ => cases h.symm.trans (news_same rfl)

theorem detach_frame (C : Config) (s : St) (ho : o = .detachPhysical ∨ o = .detachDone) :
    (Continuity.step C s o).callbacks = s.callbacks ∧ (Continuity.step C s o).closed = s.closed := by
  have he := Continuity.step_effect C s o
  generalize Continuity.step C s o = s' at he
  rcases ho with rfl | rfl
  all_goals cases he with
    | turn hx | reads hx => cases hx
    | moves hm => cases hm
    | _ => exact ⟨rfl, rfl⟩

/-! ## Tokens -/

/-- the flow whose `migrating` flag the worker answers for -/
def Worker.working : Worker → Option ℕ
  | .detach f | .head f | .select f _ _ _ | .wait f | .opening f _ | .bind f _ _ | .install f _ _ | .replace f _ _
  | .restore f _ | .published f _ | .giveUp f => some f
  | .idle | .unregister _ | .stopped => none

/-- the worker has published the flow's replacement -/
def Worker.publishing : Worker → Option ℕ
  | .published f _ => some f
  | _ => none

namespace Router

def tokens (r : Router) (f : ℕ) : ℕ :=
  r.migrations.count f + r.sending.count f + if r.worker.working = some f then 1 else 0

/-- what the invariant says of one flow -/
structure FlowOk (tokens : ℕ) (publishing : Prop) (F : Flow) : Prop where
  shut : F.stream.closed = true → F.finished = true ∨ F.abandoned = true
  owned : F.finished = false → F.abandoned = false → tokens = if F.migrating then 1 else 0
  lost : F.finished = false → F.abandoned = false → F.stream.physical = none →
    0 < F.stream.callbacks ∨ F.migrating = true ∧ ¬ publishing

structure Inv (r : Router) : Prop where
  fresh : ∀ f, r.flows f = none → r.tokens f = 0
  flow : ∀ {f F}, r.flows f = some F → FlowOk (r.tokens f) (r.worker.publishing = some f) F
  active : ∀ f ∈ r.active, ∃ F, r.flows f = some F ∧ F.abandoned = false
  pending : ∀ x ∈ r.pending, ∀ F, r.flows x.1 = some F → F.abandoned = false
  apart : ∀ x ∈ r.pending, x.1 ∉ r.active
  drawn : ∀ x ∈ r.pending, x.1 < r.nextID
  unborn : ∀ f, r.nextID ≤ f → r.flows f = none

variable {r r' : Router} {f : ℕ} {F F' : Flow} {migrations sending : List ℕ} {worker : Worker} {pending : List (ℕ × Route)}

theorem init_inv (maxFlows : ℕ) (route : Route) : (init maxFlows route).Inv where
  fresh := fun _ _ => rfl
  flow := nofun
  active := nofun
  pending := nofun
  apart := nofun
  drawn := nofun
  unborn := fun _ _ => rfl

theorem FlowOk.mono {tokens : ℕ} {P Q : Prop} (h : FlowOk tokens P F) (hq : Q → P) : FlowOk tokens Q F :=
  ⟨h.shut, h.owned, fun h1 h2 h3 => (h.lost h1 h2 h3).imp_right fun hm => ⟨hm.1, fun hx => hm.2 (hq hx)⟩⟩

/-- a flow object is written, and the tokens may move -/
def wrote (r : Router) (f : ℕ) (F : Flow) (migrations sending : List ℕ) (worker : Worker) (pending : List (ℕ × Route)) : Router :=
  { r with flows := update r.flows f (some F), migrations := migrations, sending := sending, worker := worker, pending := pending }

/-- the tokens of no other flow move; the flow object is new, or was abandoned before or after it was registered -/
theorem Inv.write (h : r.Inv) (hid : f < r.nextID) (hpending : ∀ x ∈ pending, x ∈ r.pending)
    (hF : FlowOk ((r.wrote f F' migrations sending worker pending).tokens f) (worker.publishing = some f) F')
    (htok : ∀ g, g ≠ f → (r.wrote f F' migrations sending worker pending).tokens g = r.tokens g)
    (hpub : ∀ g, g ≠ f → worker.publishing = some g → r.worker.publishing = some g)
    (hab : (∀ F, r.flows f = some F → F'.abandoned = F.abandoned) ∧ (r.flows f = none → F'.abandoned = false) ∨
      f ∉ r.active ∧ ∀ x ∈ pending, x.1 ≠ f) : (r.wrote f F' migrations sending worker pending).Inv := by
  have hother : ∀ g, g ≠ f → (r.wrote f F' migrations sending worker pending).flows g = r.flows g := fun g hg => update_of_ne hg ..
  have hself : (r.wrote f F' migrations sending worker pending).flows f = some F' := update_self ..
  refine ⟨fun g hg => ?_, fun {g G} hg => ?_, fun g hg => ?_, fun x hx G hg => ?_, fun x hx => h.apart x (hpending x hx),
    fun x hx => h.drawn x (hpending x hx), fun g hg => ?_⟩
  · by_cases hgf : g = f
    · subst hgf; rw [hself] at hg; cases hg
    · rw [htok g hgf]; exact h.fresh g (hother g hgf ▸ hg)
  · by_cases hgf : g = f
    · subst hgf; rw [hself] at hg; cases hg; exact hF
    rw [htok g hgf]
    exact (h.flow (hother g hgf ▸ hg)).mono (hpub g hgf)
  · obtain ⟨G, hG, hGa⟩ := h.active g hg
    by_cases hgf : g = f
    · subst hgf
      rcases hab with ⟨hab, -⟩ | ⟨hab, -⟩
      · exact ⟨F', hself, (hab G hG).trans hGa⟩
      · exact absurd hg hab
    · exact ⟨G, (hother g hgf).trans hG, hGa⟩
  · by_cases hgf : x.1 = f
    · rw [hgf, hself] at hg; cases hg
      rcases hab with ⟨hold, hnew⟩ | ⟨-, hab⟩
      · cases hf : r.flows f with
        | none => exact hnew hf
        | some F => exact (hold F hf).trans (h.pending x (hpending x hx) F (hgf ▸ hf))
      · exact absurd hgf (hab x hx)
    · exact h.pending x (hpending x hx) G (hother _ hgf ▸ hg)
  · have hg : r.nextID ≤ g := hg
    exact (hother g (by omega)).trans (h.unborn g hg)

theorem Inv.born (h : r.Inv) (hf : r.flows f = some F) : f < r.nextID := by
  by_contra hge
  rw [h.unborn f (not_lt.1 hge)] at hf
  cases hf

/-- one flow object changes -/
theorem Inv.setFlow (h : r.Inv) (hf : r.flows f = some F) (hab : F'.abandoned = F.abandoned)
    (hF : FlowOk ((r.wrote f F' migrations sending worker r.pending).tokens f) (worker.publishing = some f) F')
    (htok : ∀ g, g ≠ f → (r.wrote f F' migrations sending worker r.pending).tokens g = r.tokens g)
    (hpub : ∀ g, g ≠ f → worker.publishing = some g → r.worker.publishing = some g) :
    (r.wrote f F' migrations sending worker r.pending).Inv := by
  refine h.write (h.born hf) (fun _ => id) hF htok hpub (.inl ⟨fun G hG => ?_, fun hnone => ?_⟩)
  · rw [hab, Option.some.inj (hf.symm.trans hG)]
  · cases hnone.symm.trans hf

/-- no flow object changes -/
theorem Inv.move (h : r.Inv)
    (htok : ∀ g, tokens { r with migrations := migrations, sending := sending, worker := worker } g = r.tokens g ∨
      ∃ F, r.flows g = some F ∧ (F.finished = true ∨ F.abandoned = true))
    (hpub : ∀ g, worker.publishing = some g → r.worker.publishing = some g) :
    Inv { r with migrations := migrations, sending := sending, worker := worker } := by
  refine { h with fresh := fun g hg => ?_, flow := fun {g G} hg => ?_ }
  · rcases htok g with ht | ⟨F, hF, -⟩
    · rw [ht]; exact h.fresh g hg
    · cases hF.symm.trans hg
  · have hG := (h.flow hg).mono (hpub g)
    refine ⟨hG.shut, fun h1 h2 => ?_, hG.lost⟩
    rcases htok g with ht | ⟨F, hF, hx⟩
    · rw [ht]; exact hG.owned h1 h2
    · cases hF.symm.trans hg
      rw [h1, h2] at hx; simp at hx

/-! ## The calls on a flow -/

/-- the flow object changes and everything else stays -/
theorem Inv.setOnly (h : r.Inv) (hf : r.flows f = some F)
    (hF : FlowOk (r.tokens f) (r.worker.publishing = some f) F') (hab : F'.abandoned = F.abandoned) : (r.setFlow f F').Inv :=
  h.setFlow hf hab hF (fun _ _ => rfl) (fun _ _ => id)

/-- a finished flow may be in any state -/
theorem finished_ok {tokens : ℕ} {publishing : Prop} (h : F.finished = true) : FlowOk tokens publishing F := by
  have hn : F.finished ≠ false := by simp [h]
  exact ⟨fun _ => .inl h, fun hx => absurd hx hn, fun hx => absurd hx hn⟩

theorem finish_inv (h : r.Inv) (f : ℕ) : (r.finish f).Inv := by
  unfold finish onFlow
  split
  · rename_i F hf
    exact h.setOnly hf (finished_ok rfl) rfl
  · exact h

/-- `migrating` is set and the call goes on to its select: it is a token now -/
theorem Inv.request (h : r.Inv) (hf : r.flows f = some F) (hidle : F.migrating = false)
    (hF' : F'.migrating = true ∧ F'.finished = F.finished ∧ F'.abandoned = F.abandoned)
    (hshut : F'.stream.closed = true → F'.finished = true ∨ F'.abandoned = true)
    (hlost : F'.finished = false → F'.abandoned = false → F'.stream.physical = none →
      0 < F'.stream.callbacks ∨ r.worker.publishing ≠ some f) :
    (r.wrote f F' r.migrations (r.sending ++ [f]) r.worker r.pending).Inv := by
  obtain ⟨hm, hfin, hab⟩ := hF'
  have htok : ∀ g, (r.wrote f F' r.migrations (r.sending ++ [f]) r.worker r.pending).tokens g =
      r.tokens g + if f = g then 1 else 0 := by
    intro g
    change r.migrations.count g + (r.sending ++ [f]).count g + (if r.worker.working = some g then 1 else 0) = _
    rw [tokens, count_append, count_singleton]
    simp only [beq_iff_eq]
    omega
  refine h.setFlow hf hab ⟨hshut, fun h1 h2 => ?_, fun h1 h2 h3 => ?_⟩ (fun g hg => ?_) (fun _ _ => id)
  · -- the flow had no token and now has one
    have hown := (h.flow hf).owned (hfin ▸ h1) (hab ▸ h2)
    rw [hidle] at hown
    rw [htok, hown, hm]
    simp
  · exact (hlost h1 h2 h3).imp_right fun hl => ⟨hm, hl⟩
  · rw [htok, if_neg (Ne.symm hg), Nat.add_zero]

/-- every operation but the stream's own loses it only with a callback owed -/
theorem FlowOk.owes {tokens : ℕ} {publishing : Prop} {s : St} (h : FlowOk tokens publishing F) (ow : Owes F.stream s) :
    FlowOk tokens publishing { F with stream := s } := by
  refine ⟨fun hx => h.shut (ow.closed ▸ hx), h.owned, fun h1 h2 h3 => ?_⟩
  rcases ow.lost h3 with hp | hp
  · exact (h.lost h1 h2 hp).imp_left fun hl => hl.trans_le ow.callbacks
  · exact .inl ((Nat.zero_le _).trans_lt hp)

/-- the check of a callback, outside the window -/
def callbackSafe (r : Router) : ROp → Bool
  | .callback f =>
    match r.flows f with
    | some F => decide (r.worker.publishing = some f → F.stream.physical ≠ none)
    | none => true
  | _ => true

theorem callbackSafe_spec (hf : r.flows f = some F) (hg : r.callbackSafe (.callback f) = true) :
    r.worker.publishing = some f → F.stream.physical ≠ none := by
  simpa only [callbackSafe, hf, decide_eq_true_eq] using hg

/-! ## The queue -/

/-- a call leaves its select -/
theorem tokens_eraseIdx (l : List ℕ) (i f g : ℕ) (h : l[i]? = some f) :
    (l.eraseIdx i).count g + (if f = g then 1 else 0) = l.count g := by
  obtain ⟨hi, rfl⟩ := List.getElem?_eq_some_iff.1 h
  have hsplit : l = l.take i ++ l[i] :: l.drop (i + 1) := by simp
  rw [eraseIdx_eq_take_drop_succ, count_append]
  conv_rhs => rw [hsplit]
  rw [count_append, count_cons]
  simp only [beq_iff_eq]
  omega

/-- the queue is full or the context has ended: the flow is finished -/
theorem Inv.full (h : r.Inv) {i : ℕ} (hi : r.sending[i]? = some f) : ({ r with sending := r.sending.eraseIdx i }.finish f).Inv := by
  have hcount := fun g => tokens_eraseIdx r.sending i f g hi
  unfold finish onFlow
  split
  · rename_i F hf
    refine h.setFlow hf rfl (finished_ok rfl) (fun g hg => ?_) (fun _ _ => id)
    have := hcount g
    rw [if_neg (Ne.symm hg)] at this
    unfold tokens
    rw [← this]
    rfl
  · rename_i hf
    -- a call without a flow object has no token
    have hz := h.fresh f hf
    have := hcount f
    rw [if_pos rfl] at this
    unfold tokens at hz
    omega

/-! ## openStream -/

theorem Inv.reserve (h : r.Inv) (route : Route) :
    Inv { r with pending := r.pending ++ [(r.nextID, route)], nextID := r.nextID + 1 } := by
  have hnew : r.flows r.nextID = none := h.unborn _ le_rfl
  refine { h with pending := fun x hx F hF => ?_, apart := fun x hx hg => ?_, drawn := fun x hx => ?_,
                  unborn := fun g hg => h.unborn g (Nat.le_of_succ_le hg) }
  all_goals rcases mem_append.1 hx with hx | hx
  · exact h.pending x hx F hF
  · rw [mem_singleton.1 hx, hnew] at hF; cases hF
  · exact h.apart x hx hg
  · obtain ⟨F, hF, -⟩ := h.active _ hg
    rw [mem_singleton.1 hx, hnew] at hF; cases hF
  · exact Nat.lt_succ_of_lt (h.drawn x hx)
  · rw [mem_singleton.1 hx]; exact Nat.lt_succ_self _

/-- an abandoned flow was not registered -/
theorem abandon_inv (C : Config) (h : r.Inv) (hactive : f ∉ r.active) : (r.abandon C f).Inv := by
  unfold abandon onFlow
  split
  · rename_i F hf
    refine h.write (h.born hf) (fun x hx => mem_of_mem_filter hx) ⟨fun _ => .inr rfl, fun _ => nofun, fun _ => nofun⟩
      (fun _ _ => rfl) (fun _ _ => id) (.inr ⟨hactive, fun x hx => ?_⟩)
    simpa using of_mem_filter hx
  · exact h

theorem Inv.register (h : r.Inv) (hf : r.flows f = some F) {y : ℕ × Route} (hy : y ∈ r.pending) (hyf : y.1 = f) :
    Inv { r.unreserve f with active := r.active ++ [f] } := by
  subst hyf
  refine { h with active := fun g hg => ?_, pending := fun x hx => h.pending x (mem_of_mem_filter hx),
                  apart := fun x hx hg => ?_, drawn := fun x hx => h.drawn x (mem_of_mem_filter hx) }
  · rcases mem_append.1 hg with hg | hg
    · exact h.active g hg
    · rw [mem_singleton.1 hg]
      exact ⟨F, hf, h.pending y hy F hf⟩
  · rcases mem_append.1 hg with hg | hg
    · exact h.apart x (mem_of_mem_filter hx) hg
    have := of_mem_filter hx
    rw [mem_singleton.1 hg] at this
    simp at this

/-! ## The worker -/

/-- the worker goes on with the same flow -/
theorem tokens_worker (hm : r'.migrations = r.migrations) (hs : r'.sending = r.sending)
    (hw : r'.worker.working = r.worker.working) (g : ℕ) : r'.tokens g = r.tokens g := by
  unfold tokens
  rw [hm, hs, hw]

/-- the worker moves within a round -/
theorem Inv.round (h : r.Inv) (w : Worker) (hw : w.working = r.worker.working) (hp : w.publishing = none) :
    Inv { r with worker := w } := by
  have ht : ∀ g, tokens { r with worker := w } g = r.tokens g := tokens_worker rfl rfl hw
  exact h.move (fun g => .inl (ht g)) fun g hx => by rw [hp] at hx; cases hx

/-- the worker drops a flow that is finished -/
theorem Inv.drop (h : r.Inv) (hf : r.flows f = some F) (hwork : r.worker.working = some f)
    (hfin : F.finished = true ∨ F.abandoned = true) : Inv { r with worker := .idle } := by
  refine h.move (fun g => ?_) fun g => nofun
  by_cases hgf : g = f
  · exact .inr ⟨F, hgf ▸ hf, hfin⟩
  left
  unfold tokens
  rw [hwork, if_neg nofun, if_neg (fun hx => hgf (Option.some.inj hx).symm)]

/-- a worker in a round changes the flow object -/
theorem Inv.setRound (h : r.Inv) (hf : r.flows f = some F) (w : Worker)
    (hw : w.working = r.worker.working) (hp : ∀ g, w.publishing = some g → g = f)
    (hF : FlowOk (r.tokens f) (w.publishing = some f) F') (hab : F'.abandoned = F.abandoned) :
    Inv { r.setFlow f F' with worker := w } := by
  have ht : ∀ g, tokens { r.setFlow f F' with worker := w } g = r.tokens g := tokens_worker rfl rfl hw
  exact h.setFlow hf hab ((ht f).symm ▸ hF) (fun g _ => ht g) fun g hg hx => absurd (hp g hx) hg

theorem Inv.detach (C : Config) {w : Worker} (h : r.Inv) (hw : r.worker = .detach f) (hf : r.flows f = some F)
    (ho : o = .detachPhysical ∨ o = .detachDone) (hn : w = .detach f ∨ w = .head f ∨
      ∃ e, Continuity.news F.stream (Continuity.step C F.stream o) = [.detach (some e)] ∧
        w = if e = .resumableClosed then .idle else .giveUp f) :
    Inv { r.setFlow f { F with stream := Continuity.step C F.stream o } with worker := w } := by
  have hwork : r.worker.working = some f := by rw [hw]; rfl
  have hcl := (detach_frame C F.stream ho).2
  have hok := h.flow hf
  -- the flow in the worker's hands is migrating, so it may lose its stream
  have hmig : F.finished = false → F.abandoned = false → F.migrating = true := fun h1 h2 => by
    by_contra hn
    have := hok.owned h1 h2
    rw [if_neg hn] at this
    unfold tokens at this
    rw [if_pos hwork] at this
    omega
  have hset : ∀ w : Worker, w.working = some f → w.publishing = none →
      Inv { r.setFlow f { F with stream := Continuity.step C F.stream o } with worker := w } := fun w h1 h2 =>
    h.setRound hf w (h1.trans hwork.symm) (by simp [h2])
      ⟨fun hx => hok.shut (hcl ▸ hx), hok.owned, fun h3 h4 _ => .inr ⟨hmig h3 h4, by simp [h2]⟩⟩ rfl
  rcases hn with rfl | rfl | ⟨e, hnews, rfl⟩
  · exact hset _ rfl rfl
  · exact hset _ rfl rfl
  · obtain ⟨rfl, hclosed⟩ := detach_closed C F.stream ho hnews
    exact (hset (.detach f) rfl rfl).drop (update_self ..) rfl (hok.shut (hcl ▸ hclosed))

theorem Inv.replace (C : Config) {w : Worker} {m : Round} {p : ℕ} (h : r.Inv) (hw : r.worker = .replace f m p)
    (hf : r.flows f = some F) (ho : ofReplace m p o = true) (hn : w = .replace f m p ∨ w = .restore f m ∨
      Continuity.news F.stream (Continuity.step C F.stream o) = [.replace none] ∧ w = .published f m) :
    Inv { r.setFlow f { F with stream := Continuity.step C F.stream o } with worker := w } := by
  have hwork : r.worker.working = some f := by rw [hw]; rfl
  have hok := (h.flow hf).owes
    (step_owes C F.stream o (by rintro rfl; cases ho) (by rintro rfl; cases ho) (by rintro rfl; cases ho))
  rcases hn with rfl | rfl | ⟨hnews, rfl⟩
  · exact h.setRound hf _ hwork.symm (fun g => nofun) (hok.mono nofun) rfl
  · exact h.setRound hf _ hwork.symm (fun g => nofun) (hok.mono nofun) rfl
  · -- the replacement is published, so the stream is there
    refine h.setRound hf _ hwork.symm (fun g hx => (Option.some.inj hx).symm) ⟨hok.shut, hok.owned, fun _ _ h3 => ?_⟩ rfl
    exact absurd h3 (replaced_physical C F.stream ho hnews)

/-- the worker changes the flow's route only -/
theorem Inv.reroute (h : r.Inv) (hf : r.flows f = some F) (control : Option ℕ) (leaseKey routeID : ℕ) (w : Worker)
    (hw : w.working = r.worker.working) (hp : w.publishing = none) :
    Inv { r.setFlow f { F with control := control, leaseKey := leaseKey, routeID := routeID } with worker := w } := by
  have hok := h.flow hf
  refine h.setRound hf w hw (by simp [hp]) (FlowOk.mono (P := r.worker.publishing = some f) ?_ (by simp [hp])) rfl
  exact { hok with }

theorem Inv.clear {m : Round} (h : r.Inv) (hw : r.worker = .published f m) (hf : r.flows f = some F) :
    Inv { r.setFlow f { F with epoch := m.epoch, migrating := false } with worker := .unregister f } := by
  have hok := h.flow hf
  have hwork : r.worker.working = some f := by rw [hw]; rfl
  have hpub : r.worker.publishing = some f := by rw [hw]; rfl
  refine h.setFlow hf rfl ⟨hok.shut, fun h1 h2 => ?_, fun h1 h2 h3 => ?_⟩ (fun g hg => ?_) nofun
  · -- the worker held the only token
    have hown := hok.owned h1 h2
    unfold tokens at hown ⊢
    change r.migrations.count f + r.sending.count f + (if none = some f then 1 else 0) = 0
    rw [if_neg nofun]
    split_ifs at hown
    omega
  · -- a stream lost since it was published still owes its callback
    rcases hok.lost h1 h2 h3 with hl | ⟨-, hn⟩
    · exact .inl hl
    · exact absurd hpub hn
  · change _ + _ + (if none = some g then 1 else 0) = _ + _ + _
    rw [hwork, if_neg (fun hx => hg (Option.some.inj hx).symm)]
    rfl

theorem Inv.giveUp (h : r.Inv) (hw : r.worker = .giveUp f) : Inv { r.finish f with worker := .idle } := by
  have hwork : r.worker.working = some f := by rw [hw]; rfl
  have h' := finish_inv h f
  unfold finish onFlow at h' ⊢
  split at h'
  · exact h'.drop (update_self ..) hwork (.inl rfl)
  rename_i hf
  -- the worker holds a token, so the flow object exists
  have hz := h.fresh f hf
  unfold tokens at hz
  rw [if_pos hwork] at hz
  omega

theorem Onward.round {w w' : Worker} (h : Onward w w') : w'.working = w.working ∧ w'.publishing = none := by
  cases h <;> exact ⟨rfl, rfl⟩

/-! ## Every run -/

theorem step_inv (C : Config) (r : Router) (o : ROp) (h : r.Inv) (hg : r.callbackSafe o = true) : (step C r o).Inv := by
  have he := step_effect C r o
  generalize step C r o = r' at he
  cases he with
  | rest => exact { h with }
  | reserve => exact h.reserve _
  | unreserve =>
    exact { h with pending := fun x hx => h.pending x (mem_of_mem_filter hx), apart := fun x hx => h.apart x (mem_of_mem_filter hx)
                   drawn := fun x hx => h.drawn x (mem_of_mem_filter hx) }
  | made hf hp =>
    obtain ⟨y, hy, rfl⟩ := hp
    exact h.write (h.drawn y hy) (fun _ => id) ⟨nofun, fun _ _ => h.fresh _ hf, fun _ _ => nofun⟩ (fun _ _ => rfl)
      (fun _ _ => id) (.inl ⟨fun G hG => (by cases hf.symm.trans hG), fun _ => rfl⟩)
  | abandon hp =>
    obtain ⟨y, hy, rfl⟩ := hp
    exact abandon_inv C h (h.apart y hy)
  | register hf hp =>
    obtain ⟨y, hy, hyf⟩ := hp
    exact h.register hf hy hyf
  | remove =>
    exact { h with active := fun g hg => h.active g (mem_of_mem_filter hg)
                   apart := fun x hx hg => h.apart x hx (mem_of_mem_filter hg) }
  | @asks f F stream requests hf hm hs =>
    have hok := h.flow hf
    have h' : Inv { r with requests := requests } := { h with }
    rcases hs with rfl | ⟨rfl, rfl⟩
    · refine h'.request hf hm ⟨rfl, rfl, rfl⟩ hok.shut fun h1 h2 h3 => ?_
      rcases hok.lost h1 h2 h3 with hl | ⟨hx, -⟩
      · exact .inl hl
      · cases hm.symm.trans hx
    · exact h'.request hf hm ⟨rfl, rfl, rfl⟩ hok.shut fun h1 h2 h3 => .inr fun hp => callbackSafe_spec hf hg hp h3
  | ignored ho hf hm =>
    -- the flow is migrating, and its replacement is not published yet
    subst ho
    have hok := h.flow hf
    refine h.setOnly hf ⟨hok.shut, hok.owned, fun h1 h2 h3 => .inr ⟨hm.resolve_left ?_, fun hp => ?_⟩⟩ rfl
    · rw [show _ = false from h1]
      exact Bool.false_ne_true
    · exact callbackSafe_spec hf hg hp h3
  | @queue i f hi =>
    -- the token moves into the queue
    refine h.move (fun g => .inl ?_) (fun _ => id)
    have := tokens_eraseIdx r.sending i f g hi
    unfold tokens
    simp only [count_append, count_singleton, beq_iff_eq]
    omega
  | full hi => exact h.full hi
  | finish => exact finish_inv h _
  | @stream f F op hf ho =>
    exact h.setOnly hf ((h.flow hf).owes
      (step_owes C F.stream op (by rintro rfl; cases ho) (by rintro rfl; cases ho) (by rintro rfl; cases ho))) rfl
  | close hf hfin => exact h.setOnly hf (finished_ok hfin) rfl
  | take hw hm =>
    refine h.move (fun g => .inl ?_) fun g => nofun
    unfold tokens
    simp only [hw, hm, Worker.working, count_cons, beq_iff_eq, Option.some.injEq, reduceCtorEq, if_false]
    omega
  | stop hw | plans hw | sends hw => exact h.round _ (hw ▸ rfl) rfl
  | onward ho => exact h.round _ ho.round.1 ho.round.2
  | detach hw hf ho hn => exact h.detach C hw hf ho hn
  | gone hw hf hfin => exact h.drop hf (hw ▸ rfl) (.inl hfin)
  | install hw hf | restore hw hf => exact h.reroute hf _ _ _ _ (hw ▸ rfl) rfl
  | replace hw hf ho hn => exact h.replace C hw hf ho hn
  | clear hw hf => exact h.clear hw hf
  | giveUp hw => exact h.giveUp hw

theorem run_inv (C : Config) (maxFlows : ℕ) (route : Route) (ops : List ROp)
    (hg : Machine.Guarded (step C) (fun r o => r.callbackSafe o = true) (init maxFlows route) ops) :
    (run C (init maxFlows route) ops).Inv :=
  Machine.run_inv_guarded (step_inv C) (init_inv maxFlows route) ops hg

/-- where a token can be -/
theorem tokens_pos (h : 0 < r.tokens f) : f ∈ r.migrations ∨ r.worker.working = some f ∨ f ∈ r.sending := by
  unfold tokens at h
  by_cases h1 : 0 < r.migrations.count f
  · exact .inl (count_pos_iff.1 h1)
  by_cases h2 : 0 < r.sending.count f
  · exact .inr (.inr (count_pos_iff.1 h2))
  refine .inr (.inl ?_)
  by_contra hn
  rw [if_neg hn] at h
  omega

/-- **No migration request is lost.** In every interleaving in which no callback makes its check in the window, a
registered flow that is not finished and has no physical stream is in the queue, is being processed by `migrate`, or has a
`requestMigration` call in progress: one that set `migrating`, or the callback of the loss. -/
theorem no_lost_migration (C : Config) (maxFlows : ℕ) (route : Route) (ops : List ROp)
    (hg : Machine.Guarded (step C) (fun r o => r.callbackSafe o = true) (init maxFlows route) ops) :
    let r := run C (init maxFlows route) ops
    ∀ f ∈ r.active, ∀ F, r.flows f = some F → F.finished = false → F.stream.physical = none →
      f ∈ r.migrations ∨ r.worker.working = some f ∨ f ∈ r.sending ∨ 0 < F.stream.callbacks := by
  intro r f hf F hF hfin hp
  have h : r.Inv := run_inv C maxFlows route ops hg
  obtain ⟨G, hG, hab⟩ := h.active f hf
  rw [hF] at hG; cases hG
  rcases (h.flow hF).lost hfin hab hp with hl | ⟨hm, -⟩
  · exact .inr (.inr (.inr hl))
  have hown := (h.flow hF).owned hfin hab
  rw [hm, if_pos rfl] at hown
  rcases tokens_pos (r := r) (f := f) (by omega) with ht | ht | ht
  · exact .inl ht
  · exact .inr (.inl ht)
  · exact .inr (.inr (.inl ht))

/-- a `Read` finds the current stream's carrier lost -/
def carrierLost (f : ℕ) : List ROp :=
  [.stream f .readWait, .stream f (.physicalRead [] (some (.transport .carrier true))), .stream f .readEnd,
   .stream f .readLost]

/-- the flow is open, its carrier is lost under a `Read`, and the request is queued -/
def lostFlow : List ROp :=
  [.openReserve 1, .openPhysical 0 (some 0), .openRegister 0, .addRoute ⟨2, 2, 1, 2⟩, .stream 0 (.read 4)] ++
    carrierLost 0 ++ [.callback 0, .send 0 false]

/-- `migrate` up to the moment `Replace` has published the stream -/
def migrated : List ROp :=
  [.take, .workerDetach .detachPhysical, .workerHead, .workerSelect (some 2), .workerOpen (some (some 1)), .workerBind true,
   .workerInstall, .workerReplace (.replace 1 0 0), .workerReplace .replaceAck, .workerReplace .replaceState,
   .workerReplace .replaceReplay, .workerReplace .replaceFin, .workerReplace .replacePublish]

def route : Route := ⟨1, 1, 1, 1⟩

/-- the flow is not finished and has no physical stream -/
def stranded (r : Router) (f : ℕ) : Bool := (r.flows f).any fun F => !F.finished && F.stream.physical.isNone

/-- the new carrier is lost after `migrating` was cleared -/
def lostAgain : List ROp := lostFlow ++ migrated ++ [.workerClear, .workerUnregister] ++ carrierLost 0 ++ [.callback 0]

theorem no_lost_migration_again :
    let r := run Continuity.production (init 8 route) lostAgain
    0 ∈ r.active ∧ r.stranded 0 = true ∧ ∀ F, r.flows 0 = some F → F.finished = false → F.stream.physical = none →
      0 ∈ r.migrations ∨ r.worker.working = some 0 ∨ 0 ∈ r.sending ∨ 0 < F.stream.callbacks :=
  ⟨by decide, by decide, no_lost_migration Continuity.production 8 route lostAgain (by decide) 0 (by decide)⟩

/-- the new carrier is lost between the publication and the moment `migrating` is cleared -/
def lostInWindow : List ROp := lostFlow ++ migrated ++ carrierLost 0 ++ [.callback 0, .workerClear, .workerUnregister]

/-- **A migration request is lost.** The router is open and the flow registered; it has no physical stream, it is not in
the queue, the worker is idle and nobody is asking. -/
theorem lost_migration :
    let r := run Continuity.production (init 8 route) lostInWindow
    r.closed = false ∧ r.cancelled = false ∧ r.active = [0] ∧ r.stranded 0 = true ∧ r.migrations = [] ∧
      r.worker = .idle ∧ r.sending = [] ∧ r.requests = [] ∧ (r.flows 0).any (fun F => F.stream.callbacks == 0) = true := by
  decide

end Router

end NeProto.Tunstack
