/-
Machines: a state, a set of operations and a total step function. A disabled operation leaves the state alone, so a run
is a plain fold over any list of operations and "every interleaving" is "every list".

- `run`: the state after a list of operations.
- `run_inv`: what one step preserves, every run preserves.
- `Guarded`: every step of a run is taken in a state in which a side condition on (state, operation) holds.
- `run_inv_guarded`: what one step preserves under the condition, every guarded run preserves.
- `stateAt`: the states of an endless run; `stateAt_inv_guarded` is the invariant rule for it.
- `rank_zero`: a rank that no step raises, and that falls whenever the operation due at it is taken, reaches zero in a fair run.
-/
import Mathlib.Tactic

namespace NeProto.Machine

variable {σ α : Type}

/-! ## Runs -/

/-- the state after a list of operations -/
def run (step : σ → α → σ) (s : σ) (ops : List α) : σ := ops.foldl step s

variable {step : σ → α → σ} {I : σ → Prop} {s : σ}

@[simp] theorem run_nil (step : σ → α → σ) (s : σ) : run step s [] = s := rfl

@[simp] theorem run_cons (step : σ → α → σ) (s : σ) (o : α) (ops : List α) :
    run step s (o :: ops) = run step (step s o) ops := rfl

theorem run_append (step : σ → α → σ) (s : σ) (a b : List α) :
    run step s (a ++ b) = run step (run step s a) b := by
  simp [run, List.foldl_append]

/-- **Invariant rule.** What every step preserves holds at the end of every run. -/
theorem run_inv (hstep : ∀ s o, I s → I (step s o)) (h : I s) (ops : List α) : I (run step s ops) := by
  induction ops generalizing s with
  | nil => exact h
  | cons o ops ih => exact ih (hstep s o h)

/-! ## Guarded runs -/

/-- every step of the run meets the condition `ok` in the state it is taken in -/
def Guarded (step : σ → α → σ) (ok : σ → α → Prop) (s : σ) : List α → Prop
  | [] => True
  | o :: ops => ok s o ∧ Guarded step ok (step s o) ops

instance decGuarded (step : σ → α → σ) (ok : σ → α → Prop) [∀ s o, Decidable (ok s o)] :
    ∀ (s : σ) (ops : List α), Decidable (Guarded step ok s ops)
  | _, [] => .isTrue trivial
  | s, o :: ops => @instDecidableAnd _ _ _ (decGuarded step ok (step s o) ops)

/-- **Guarded invariant rule.** What every step that meets the condition preserves holds at the end of every run whose
steps all meet it. -/
theorem run_inv_guarded {ok : σ → α → Prop} (hstep : ∀ s o, I s → ok s o → I (step s o)) (h : I s) (ops : List α)
    (hg : Guarded step ok s ops) : I (run step s ops) := by
  induction ops generalizing s with
  | nil => exact h
  | cons o ops ih => exact ih (hstep s o h hg.1) hg.2

/-! ## Endless runs -/

/-- the state after the first `n` operations of an endless schedule -/
def stateAt (step : σ → α → σ) (s : σ) (sched : ℕ → α) : ℕ → σ
  | 0 => s
  | n + 1 => step (stateAt step s sched n) (sched n)

theorem stateAt_inv_guarded {ok : σ → α → Prop} (hstep : ∀ s o, I s → ok s o → I (step s o)) (h : I s) {sched : ℕ → α}
    (hg : ∀ n, ok (stateAt step s sched n) (sched n)) (n : ℕ) : I (stateAt step s sched n) := by
  induction n with
  | zero => exact h
  | succ n ih => exact hstep _ _ ih (hg n)

/-- **Fair descent.** A rank that never rises and that falls whenever the operation due at it is taken reaches zero, if every
operation is taken again and again. -/
theorem rank_zero (rank : ℕ → ℕ) {sched : ℕ → α} (due : ℕ → α) (start : ℕ) (hle : ∀ n, start ≤ n → rank (n + 1) ≤ rank n)
    (hdrop : ∀ n, start ≤ n → 0 < rank n → sched n = due (rank n) → rank (n + 1) < rank n)
    (hfair : ∀ r n, ∃ m, n ≤ m ∧ sched m = due r) : ∃ m, start ≤ m ∧ rank m = 0 := by
  have hmono : ∀ n m, start ≤ n → n ≤ m → rank m ≤ rank n := by
    intro n m hn hnm
    induction m, hnm using Nat.le_induction with
    | base => exact le_rfl
    | succ m hm ih => exact (hle m (hn.trans hm)).trans ih
  suffices h : ∀ r n, start ≤ n → rank n = r → ∃ m, start ≤ m ∧ rank m = 0 from h _ start le_rfl rfl
  intro r
  induction r using Nat.strong_induction_on with
  | _ r ih =>
    intro n hn hr
    by_cases hzero : r = 0
    · exact ⟨n, hn, hr.trans hzero⟩
    obtain ⟨m, hm, hdue⟩ := hfair r n
    have hstart := hn.trans hm
    -- until the operation due at `r` is taken the rank stays at `r` or has fallen already
    rcases (hmono n m hn hm).lt_or_eq with hlt | heq
    · exact ih (rank m) (by omega) m hstart rfl
    · have hfall := hdrop m hstart (by omega) (by rw [heq, hr]; exact hdue)
      exact ih (rank (m + 1)) (by omega) (m + 1) (by omega) rfl

end NeProto.Machine
