/-
The migration attempts of one flow, as the router makes them: what is asked for, when a request is sent and when the client
holds it for confirmed.

- `sends`, `confirms`, `opens`: what a step of the router says about flow `f`.
- `step_moved`: all a step of the router can do to the epoch of a flow and to the attempts for it.
-/
import NeProto.Tunstack.ContinuityRouter

namespace NeProto.Tunstack

open Continuity (Op Config maxSequence)

/-! ## Attempts -/

/-- what the resume request of an attempt says, and the lease of its carrier -/
structure Attempt where
  epoch : ℕ
  constellationID : ℕ
  leaseKey : ℕ
deriving DecidableEq

def Round.attempt (m : Round) : Attempt := ⟨m.epoch, m.route.constellationID, m.route.leaseKey⟩

/-- the attempt under way for flow `f` -/
def Worker.attempt (f : ℕ) : Worker → Option Attempt
  | .opening g m | .bind g m _ | .install g m _ | .replace g m _ | .restore g m | .published g m =>
    if g = f then some m.attempt else none
  | _ => none

/-- the epoch of the attempt that is about to be made for flow `f` -/
def Worker.planned (f : ℕ) : Worker → Option ℕ
  | .select g _ _ epoch => if g = f then some epoch else none
  | _ => none

/-- the request that this step of the worker sends -/
def sends (f : ℕ) : Worker → Worker → Option Attempt
  | .select _ _ _ _, w => w.attempt f
  | _, _ => none

/-- this step of the worker confirms the attempt under way -/
def confirms (f : ℕ) : Worker → Worker → Bool
  | .published g _, .unregister _ => decide (g = f)
  | _, _ => false

/-- the OPEN for which this step reserves flow `f` -/
def opens (f : ℕ) (r r' : Router) : Option Route :=
  if r.nextID = f ∧ r'.nextID = f + 1 then (r'.pending.find? fun x => x.1 = f).map Prod.snd else none

/-! ## What a step of the router does to them -/

namespace Router

/-- the flow's confirmed epoch; a flow starts at 1 -/
def epoch (r : Router) (f : ℕ) : ℕ := (r.flows f).elim 1 Flow.epoch

inductive Moved (f : ℕ) (r r' : Router) : Prop where
  | quiet (he : r'.epoch f = r.epoch f) (hp : ∀ e, r'.worker.planned f = some e → r.worker.planned f = some e)
    (ha : ∀ a, r'.worker.attempt f = some a → r.worker.attempt f = some a) (hs : sends f r.worker r'.worker = none)
    (hc : confirms f r.worker r'.worker = false)
  | plans (he : r'.epoch f = r.epoch f) (hp : r'.worker.planned f = some (r.epoch f + 1))
    (ha : r'.worker.attempt f = none) (hs : sends f r.worker r'.worker = none) (hc : confirms f r.worker r'.worker = false)
  | sends (a : Attempt) (he : r'.epoch f = r.epoch f) (hp : r.worker.planned f = some a.epoch)
    (hp' : r'.worker.planned f = none) (ha : r'.worker.attempt f = some a) (hm : 2 ≤ a.epoch ∧ a.epoch ≤ maxSequence)
    (hs : sends f r.worker r'.worker = some a) (hc : confirms f r.worker r'.worker = false)
  | confirms (a : Attempt) (he : r'.epoch f = a.epoch) (ha : r.worker.attempt f = some a)
    (hp' : r'.worker.planned f = none) (ha' : r'.worker.attempt f = none) (hs : sends f r.worker r'.worker = none)
    (hc : confirms f r.worker r'.worker = true)

variable {f g : ℕ} {r r' : Router}

theorem sends_self (f : ℕ) (w : Worker) : Tunstack.sends f w w = none := by
  cases w <;> rfl

theorem confirms_self (f : ℕ) (w : Worker) : Tunstack.confirms f w w = false := by
  cases w <;> rfl

/-- the worker does nothing -/
structure Rests (f : ℕ) (r r' : Router) : Prop where
  epoch : r'.epoch f = r.epoch f
  worker : r'.worker = r.worker

theorem Rests.moved (h : Rests f r r') : Moved f r r' :=
  .quiet h.epoch (fun e hp => h.worker ▸ hp) (fun a ha => h.worker ▸ ha) (by rw [h.worker]; exact sends_self f _)
    (by rw [h.worker]; exact confirms_self f _)

theorem setFlow_epoch (f : ℕ) {F F' : Flow} (hg : r.flows g = some F) (he : F'.epoch = F.epoch) :
    (r.setFlow g F').epoch f = r.epoch f := by
  unfold epoch setFlow
  by_cases hf : f = g
  · subst hf
    rw [hg]
    simpa using he
  · simp only [Function.update_of_ne hf]

theorem finish_epoch (f : ℕ) (r : Router) (g : ℕ) : (r.finish g).epoch f = r.epoch f := by
  unfold finish onFlow
  split
  · rename_i F hg
    exact setFlow_epoch f hg rfl
  · rfl

theorem finish_worker (r : Router) (g : ℕ) : (r.finish g).worker = r.worker := by
  unfold finish onFlow
  split <;> rfl

theorem abandon_rests (C : Config) (f : ℕ) (r : Router) (g : ℕ) : Rests f r (r.abandon C g) := by
  unfold abandon onFlow
  split
  · rename_i F hg
    exact ⟨setFlow_epoch f hg rfl, rfl⟩
  · exact ⟨rfl, rfl⟩

/-- the worker comes to a place without an attempt, or goes on with the one under way -/
theorem quiet_worker {w : Worker} (hw : r.worker = w) (he : r'.epoch f = r.epoch f) (hp : r'.worker.planned f = none)
    (ha : r'.worker.attempt f = none ∨ r'.worker.attempt f = w.attempt f) (hs : Tunstack.sends f w r'.worker = none)
    (hc : Tunstack.confirms f w r'.worker = false) : Moved f r r' := by
  subst hw
  refine .quiet he (fun e h => by rw [hp] at h; cases h) (fun a h => ?_) hs hc
  rcases ha with ha | ha
  · rw [ha] at h
    cases h
  · rwa [ha] at h

/-- the worker goes on without an attempt, or with the one under way -/
theorem Onward.quiet {w w' : Worker} (h : Onward w w') (f : ℕ) : w'.planned f = none ∧
    (w'.attempt f = none ∨ w'.attempt f = w.attempt f) ∧ Tunstack.sends f w w' = none ∧ Tunstack.confirms f w w' = false := by
  cases h with
  | opened | sameControl | bound => exact ⟨rfl, .inr rfl, rfl, rfl⟩
  | _ => exact ⟨rfl, .inl rfl, rfl, rfl⟩

theorem step_moved (C : Config) (f : ℕ) (r : Router) (o : ROp) : Moved f r (step C r o) := by
  have he := step_effect C r o
  generalize step C r o = r' at he
  cases he with
  | rest | reserve | unreserve | register | remove | queue => exact Rests.moved ⟨rfl, rfl⟩
  | @made g _ _ hg =>
    -- the new flow starts at epoch 1
    refine Rests.moved ⟨?_, rfl⟩
    unfold epoch setFlow
    by_cases hf : f = g
    · subst hf
      rw [hg]
      simp
    · simp only [Function.update_of_ne hf]
  | abandon => exact (abandon_rests C f r _).moved
  | asks hg | ignored _ hg | stream hg | close hg => exact Rests.moved ⟨setFlow_epoch f hg rfl, rfl⟩
  | full => exact Rests.moved ⟨finish_epoch f _ _, finish_worker _ _⟩
  | finish => exact Rests.moved ⟨finish_epoch f r _, finish_worker r _⟩
  | take hw | stop hw | gone hw => exact quiet_worker hw rfl rfl (.inl rfl) rfl rfl
  | onward h =>
    obtain ⟨hp, ha, hs, hc⟩ := h.quiet f
    exact quiet_worker rfl rfl hp ha hs hc
  | detach hw hg _ h =>
    rcases h with rfl | rfl | ⟨e, -, rfl⟩
    on_goal 3 => split_ifs
    all_goals exact quiet_worker hw (setFlow_epoch f hg rfl) rfl (.inl rfl) rfl rfl
  | @plans g F hw hg =>
    by_cases hf : g = f
    · subst hf
      have he : r.epoch g = F.epoch := by unfold epoch; rw [hg]; rfl
      exact .plans rfl ((if_pos rfl).trans (by rw [he])) rfl (hw ▸ rfl) (hw ▸ rfl)
    · exact quiet_worker hw rfl (if_neg hf) (.inl rfl) rfl rfl
  | @sends g _ _ m hw hm =>
    by_cases hf : g = f
    · refine .sends m.attempt rfl ?_ rfl (if_pos hf) hm ?_ ?_ <;> rw [hw]
      · exact if_pos hf
      · exact if_pos hf
      · rfl
    · exact quiet_worker hw rfl rfl (.inl (if_neg hf)) (if_neg hf) rfl
  | install hw hg => exact quiet_worker hw (setFlow_epoch f hg rfl) rfl (.inr rfl) rfl rfl
  | replace hw hg _ h =>
    rcases h with rfl | rfl | ⟨-, rfl⟩
    all_goals exact quiet_worker hw (setFlow_epoch f hg rfl) rfl (.inr rfl) rfl rfl
  | restore hw hg => exact quiet_worker hw (setFlow_epoch f hg rfl) rfl (.inl rfl) rfl rfl
  | @clear g m F hw hg =>
    -- the one place where the epoch moves
    by_cases hf : f = g
    · subst hf
      refine .confirms m.attempt ?_ (by rw [hw]; exact if_pos rfl) rfl rfl (hw ▸ rfl) (by rw [hw]; simp [Tunstack.confirms])
      unfold epoch setFlow
      simp [Round.attempt]
    · refine quiet_worker hw ?_ rfl (.inl rfl) rfl (decide_eq_false (Ne.symm hf))
      unfold epoch setFlow
      simp only [Function.update_of_ne hf]
  | giveUp hw => exact quiet_worker hw (finish_epoch f r _) rfl (.inl rfl) rfl rfl

end Router

end NeProto.Tunstack
