/-
A connected client core is watched (`internal/clientcore/core.go`, `reconnect.go`).

A monitor whose runtime dies leaves a core that says reconnecting to the call of `NetworkChanged` in progress. That call reads
`WaitReturned` outside the lock and takes the lock afterwards. When the runtime dies in between, the monitor has left, and the
call shows the dead runtime as connected with no one watching it (`dead_and_connected`). In every run in which the monitor
still has its decision to make whenever such a call takes the lock, a connected core is watched (`connected_is_watched`).
-/
import NeProto.Clientcore.Ownership

namespace NeProto.Clientcore

open Thread

open Pool (Live)

/-! ## Watching -/

/-- the monitor has not made its ownership decision -/
def MonitorAt.undecided : MonitorAt → Bool
  | .waiting | .returned _ | .deciding _ => true
  | .closing _ _ | .reporting | .finishing => false

namespace Thread

/-- the runtime the thread still has to decide about -/
def watching : Thread → Option ℕ
  | .monitor _ _ r p => if p.undecided then some r else none
  | .connect _ _ _ | .networkChanged _ _ _ | .shutdown _ _ _ => none

/-- the runtime the thread has decided about -/
def decided : Thread → Option ℕ
  | .monitor _ _ r p => if p.undecided then none else some r
  | .connect _ _ _ | .networkChanged _ _ _ | .shutdown _ _ _ => none

def isNetworkChanged : Thread → Bool
  | .networkChanged _ _ _ => true
  | .connect _ _ _ | .monitor _ _ _ _ | .shutdown _ _ _ => false

end Thread

/-- some live monitor has its decision about `r` before it -/
def Watches (s : System) (r : ℕ) : Prop := ∃ i t, Live s.threads i t ∧ t.watching = some r

/-- no call of `NetworkChanged` is in progress -/
def Quiet (s : System) : Prop := ∀ i t, Live s.threads i t → t.isNetworkChanged = false

/-- a connected core is watched, and the death of its runtime takes it out of connected -/
structure Watched (s : System) : Prop where
  monitor : Quiet s → s.core.closed = false → s.core.state = .connected → ∃ r, s.core.runtime = some r ∧ Watches s r
  /-- the lock section a monitor enters when its runtime has died -/
  leaves : ∀ i g d r e o, Live s.threads i (.monitor g d r (.deciding e)) → s.core.closed = false →
    ¬ Published (step s (.run i o)).core r
  /-- and from then on -/
  gone : ∀ i t r, Live s.threads i t → t.decided = some r → s.core.closed = false → ¬ Published s.core r

/-- the monitor of a runtime whose probe succeeded still has its decision to make when `NetworkChanged` takes the lock -/
def StillWatched (s : System) : Op → Prop
  | .run i _ => ∀ g r, Live s.threads i (.networkChanged g r .confirming) → Watches s r
  | .connect | .networkChanged | .close => True

/-! ## The invariant -/

structure WatchInv (s : System) : Prop where
  inv : Inv s
  watched : s.core.closed = false → s.core.state = .connected → ∃ r, s.core.runtime = some r ∧ Watches s r
  gone : ∀ i t r, Live s.threads i t → t.decided = some r → s.core.closed = false → ¬ Published s.core r

variable {t : Thread} {r : ℕ}

theorem monitored_of_watching (h : t.watching = some r) : t.monitored = some r := by
  cases t with
  | monitor g d x p =>
    simp only [watching] at h
    split at h
    · exact h
    · cases h
  | connect g d p | networkChanged g cur p | shutdown d x p => cases h

theorem monitored_of_decided (h : t.decided = some r) : t.monitored = some r := by
  cases t with
  | monitor g d x p =>
    simp only [decided] at h
    split at h
    · cases h
    · exact h
  | connect g d p | networkChanged g cur p | shutdown d x p => cases h

theorem not_watching_and_decided {x : ℕ} (h : t.watching = some r) (h' : t.decided = some x) : False := by
  cases t with
  | monitor g d y p =>
    simp only [watching] at h
    simp only [decided] at h'
    split at h
    · rename_i hp
      rw [if_pos hp] at h'
      cases h'
    · cases h
  | connect g d p | networkChanged g cur p | shutdown d y p => cases h

/-- a runtime has one monitor: it watches or it has decided -/
theorem Inv.not_gone {s : System} (h : Inv s) {i : ℕ} (hw : Watches s r) (hi : Live s.threads i t)
    (hd : t.decided = some r) : False := by
  obtain ⟨j, u, hj, hu⟩ := hw
  by_cases hij : i = j
  · subst hij
    obtain rfl := hi.unique hj
    exact not_watching_and_decided hu hd
  · exact (h.pool.apart i j t u hij hi hj).monitored r (monitored_of_decided hd) (monitored_of_watching hu)

section Steps

variable {s : System} {i : ℕ} {t : Thread}

variable {m : Move} {d g r : ℕ}

section

variable (h : WatchInv s)
include h

/-- the step rule for a step that shows nothing new as connected -/
theorem WatchInv.move (hi : Live s.threads i t) (inv : Inv (s.move i m))
    (same : m.core.closed = false → m.core.state = .connected →
      s.core.closed = false ∧ s.core.state = .connected ∧ m.core.runtime = s.core.runtime)
    (pass : ∀ r, m.core.closed = false → Published m.core r → t.watching = some r → m.Has fun u => u.watching = some r)
    (mine : ∀ u r, m.next = some u → u.decided = some r → m.core.closed = false → ¬ Published m.core r)
    (born : m.spawned = none) : WatchInv (s.move i m) := by
  refine ⟨inv, fun hopen hstate => ?_, fun j u r hj hu hopen hpub => ?_⟩
  · obtain ⟨hopen', hstate', hrun⟩ := same hopen hstate
    obtain ⟨r, hr, hw⟩ := h.watched hopen' hstate'
    exact ⟨r, hrun.trans hr, Pool.exists_moved hi (pass r hopen ⟨hstate, hrun.trans hr⟩) hw⟩
  · obtain ⟨hopen', hstate', hrun⟩ := same hopen hpub.1
    rcases Pool.live_moved hj with ⟨_, hold⟩ | ⟨_, hn⟩ | ⟨_, hn⟩
    · exact h.gone j u r hold hu hopen' ⟨hstate', hrun.symm.trans hpub.2⟩
    · exact mine u r hn hu hopen hpub
    · cases born.symm.trans hn

/-- the same for a thread that is no monitor; most of its steps do not touch what the rule is about -/
theorem WatchInv.move_other (hi : Live s.threads i t) (inv : Inv (s.move i m))
    (mine : ∀ u, m.next = some u → u.monitored = none)
    (same : m.core.closed = false → m.core.state = .connected →
      s.core.closed = false ∧ s.core.state = .connected ∧ m.core.runtime = s.core.runtime := by exact fun ho hs => ⟨ho, hs, rfl⟩)
    (ht : t.monitored = none := by rfl) (born : m.spawned = none := by rfl) : WatchInv (s.move i m) :=
  h.move hi inv same (fun _ _ _ hw => absurd (ht.symm.trans (monitored_of_watching hw)) nofun)
    (fun u _ hu hd => absurd ((mine u hu).symm.trans (monitored_of_decided hd)) nofun) born

/-- the step rule for a publication: the runtime is new, and its monitor starts with it -/
theorem WatchInv.publish {n : Thread} (inv : Inv (s.move i m))
    (hrun : m.core.runtime = some r) (hfresh : Fresh s.core r) (hn : m.spawned = some n) (hw : n.watching = some r)
    (mine : ∀ u, m.next = some u → u.monitored = none) : WatchInv (s.move i m) := by
  refine ⟨inv, fun _ _ => ⟨r, hrun, _, n, Pool.live_moved_new _ _ hn, hw⟩, fun j u x hj hu _ hpub => ?_⟩
  cases hrun.symm.trans hpub.2
  rcases Pool.live_moved hj with ⟨_, hold⟩ | ⟨_, hnext⟩ | ⟨_, hborn⟩
  · exact hfresh.not_published (published_of_monitored (h.inv.pool.good j u hold) (monitored_of_decided hu))
  · cases (mine u hnext).symm.trans (monitored_of_decided hu)
  · cases hn.symm.trans hborn
    exact not_watching_and_decided hw hu

theorem watch_connectStep {p : ConnectAt} (hi : Live s.threads i (.connect g d p)) (o : Outcome) :
    WatchInv (s.move i (connectStep s.core o g d p)) := by
  have hinv := inv_connectStep h.inv hi o
  have hmine : ∀ {p' : ConnectAt} u, some (connect g d p') = some u → u.monitored = none := by
    rintro p' u hu
    cases hu
    rfl
  cases p with
  | connecting =>
    cases o with
    | ok | refused | failed | stopped => exact h.move_other hi hinv hmine
  | unsupported r | discarding r => exact h.move_other hi hinv hmine
  | failing =>
    refine h.move_other hi hinv hmine fun ho hs => ?_
    simp only [connectStep] at ho hs ⊢
    split_ifs at ho hs ⊢
    exact ⟨ho, hs, rfl⟩
  | publishing r =>
    have hfresh := fresh_of_held (h.inv.pool.good i _ hi) rfl
    simp only [connectStep] at hinv ⊢
    split_ifs at hinv ⊢ with hc
    · exact h.publish hinv rfl hfresh rfl rfl (by simp)
    · exact h.move_other hi hinv hmine
  | finishing => exact h.move_other hi hinv (fun _ h => by cases h)

/-- the lock section after a successful probe is the one step that needs the condition -/
theorem watch_confirm {cur : ℕ} (hi : Live s.threads i (.networkChanged g cur .confirming))
    (hw : Watches s cur) (hc : s.core.reconnecting g cur) (inv : Inv (s.move i { core := s.core.enter .connected })) :
    WatchInv (s.move i { core := s.core.enter .connected }) := by
  obtain ⟨_, _, hrun, _⟩ := hc
  refine ⟨inv, fun _ _ => ⟨cur, hrun, Pool.exists_moved hi nofun hw⟩, fun j u r hj hu _ hpub => ?_⟩
  cases hrun.symm.trans hpub.2
  rcases Pool.live_moved hj with ⟨_, hold⟩ | ⟨_, hn⟩ | ⟨_, hn⟩
  · exact h.inv.not_gone hw hold hu
  · cases hn
  · cases hn

theorem watch_networkChangedStep {cur : ℕ} {p : ReconnectAt}
    (hi : Live s.threads i (.networkChanged g cur p)) (o : Outcome) (hok : StillWatched s (.run i o)) :
    WatchInv (s.move i (networkChangedStep s.core o g cur p)) := by
  have hinv := inv_networkChangedStep h.inv hi o
  have hmine : ∀ {p' : ReconnectAt} u, some (networkChanged g cur p') = some u → u.monitored = none := by
    rintro p' u hu
    cases hu
    rfl
  cases p with
  | probing | refusing n r | givingUp => exact h.move_other hi hinv hmine
  | confirming =>
    simp only [networkChangedStep] at hinv ⊢
    split_ifs at hinv ⊢ with hc
    · exact watch_confirm h hi (hok g cur hi) hc hinv
    · exact h.move_other hi hinv (by simp)
  | attempting n =>
    cases o with
    | ok | refused | failed | stopped => exact h.move_other hi hinv hmine
  | installing r =>
    have hfresh := fresh_of_held (h.inv.pool.good i _ hi) rfl
    simp only [networkChangedStep] at hinv ⊢
    split_ifs at hinv ⊢ with hc
    · exact h.publish hinv rfl hfresh rfl rfl hmine
    · exact h.move_other hi hinv hmine
  | discarding r | retiring => exact h.move_other hi hinv (fun _ h => by cases h)
  | failing =>
    refine h.move_other hi hinv (fun _ h => by cases h) fun ho hs => ?_
    simp only [networkChangedStep] at ho hs ⊢
    split_ifs at ho hs ⊢
    · cases hs
    · exact ⟨ho, hs, rfl⟩

/-- a monitor that has its decision behind it, in a core that does not change -/
theorem WatchInv.decided_on {p : MonitorAt} (hi : Live s.threads i (.monitor g d r p))
    (hp : p.undecided = false) (hopen : s.core.closed = false) : ¬ Published s.core r :=
  h.gone i _ r hi (by simp [decided, hp]) hopen

omit h in
/-- the lock section of `monitor` leaves its runtime unpublished -/
theorem monitor_decides (h : Inv s) {e : WaitErr} (hi : Live s.threads i (.monitor g d r (.deciding e)))
    (o : Outcome) (hopen : (monitorStep s.core o g d r (.deciding e)).core.closed = false) :
    ¬ Published (monitorStep s.core o g d r (.deciding e)).core r := by
  have hgood : MonitorGood s.core g d r (.deciding e) := h.pool.good i _ hi
  simp only [monitorStep] at hopen ⊢
  split
  · rename_i hre
    exact fun hpub => by cases hre.2.2.2.symm.trans hpub.1
  rename_i hre
  rw [if_neg hre] at hopen
  split
  · exact fun hpub => by cases hpub.2
  rename_i hown
  rw [if_neg hown] at hopen
  exact fun hpub => hown ⟨hopen, hgood.current hopen hpub.2, hpub.2⟩

theorem watch_monitorStep {p : MonitorAt} (hi : Live s.threads i (.monitor g d r p))
    (o : Outcome) : WatchInv (s.move i (monitorStep s.core o g d r p)) := by
  have hinv := inv_monitorStep h.inv hi o
  -- the monitor goes on undecided
  have hwaits : ∀ {c' : Core} {p' : MonitorAt}, p.undecided = true → p'.undecided = true → c'.closed = s.core.closed →
      c'.state = s.core.state → c'.runtime = s.core.runtime →
      Inv (s.move i (.go c' (.monitor g d r p'))) →
      WatchInv (s.move i (.go c' (.monitor g d r p'))) := by
    intro c' p' hp hp' hclosed hstate hrun hinv
    refine h.move hi hinv (fun ho hs => ⟨hclosed ▸ ho, hstate ▸ hs, hrun⟩) (fun x _ _ hx => ?_) (fun u x hu hd => ?_) rfl
    · refine .inl ⟨_, rfl, ?_⟩
      simp only [watching, hp, hp'] at hx ⊢
      exact hx
    · cases hu
      simp [decided, hp'] at hd
  -- it has decided already
  have hleft : ∀ {c' : Core} {next : Option Thread}, p.undecided = false → (∀ u, next = some u → u.monitored = some r) →
      (c'.closed = false → c'.state = .connected →
        s.core.closed = false ∧ s.core.state = .connected ∧ c'.runtime = s.core.runtime) →
      Inv (s.move i { core := c', next := next }) → WatchInv (s.move i { core := c', next := next }) := by
    intro c' next hp hnext hsame hinv
    refine h.move hi hinv hsame (fun x _ _ hx => ?_) (fun u x hu hd hopen hpub => ?_) rfl
    · simp [watching, hp] at hx
    cases (hnext u hu).symm.trans (monitored_of_decided hd)
    obtain ⟨hopen', hstate', hrun⟩ := hsame hopen hpub.1
    exact h.decided_on hi hp hopen' ⟨hstate', hrun.symm.trans hpub.2⟩
  have hnext : ∀ {p' : MonitorAt} u, some (monitor g d r p') = some u → u.monitored = some r := by
    rintro p' u hu
    cases hu
    rfl
  cases p with
  | waiting | returned e => exact hwaits rfl rfl rfl rfl rfl hinv
  | deciding e =>
    have hdecides := monitor_decides h.inv hi o
    refine h.move hi hinv (fun ho hs => ?_) (fun x ho hpub hx => ?_) (fun u x hu hd ho hpub => ?_) ?_
    · simp only [monitorStep] at ho hs ⊢
      split at hs
      · rename_i hre
        cases hre.2.2.2.symm.trans hs
      rename_i hre
      rw [if_neg hre] at ho ⊢
      split at hs
      · split at hs <;> cases hs
      rename_i hown
      rw [if_neg hown] at ho ⊢
      exact ⟨ho, hs, rfl⟩
    · cases hx
      exact absurd hpub (hdecides ho)
    · have hmon : u.monitored = some r := by
        simp only [monitorStep] at hu
        split at hu
        · exact hnext u hu
        · split at hu <;> exact hnext u hu
      cases hmon.symm.trans (monitored_of_decided hd)
      exact hdecides ho hpub
    · simp only [monitorStep]
      split
      · rfl
      · split <;> rfl
  | closing owned e => exact hleft rfl hnext (fun ho hs => ⟨ho, hs, rfl⟩) hinv
  | reporting =>
    refine hleft rfl hnext (fun ho hs => ?_) hinv
    split_ifs at ho hs ⊢
    · cases hs
    · exact ⟨ho, hs, rfl⟩
  | finishing => exact hleft rfl (by simp) (fun ho hs => ⟨ho, hs, rfl⟩) hinv

theorem watch_shutdownStep {d r : Option ℕ} {p : ShutdownAt} (hi : Live s.threads i (.shutdown d r p)) :
    WatchInv (s.move i (shutdownStep s.core s.idle d r p)) := by
  have hinv := inv_shutdownStep h.inv hi
  have hgood : ShutdownGood s.core r p := h.inv.pool.good i _ hi
  have hclosed : (shutdownStep s.core s.idle d r p).core.closed = true := by
    cases p with
    | closing => cases r <;> exact hgood.closed
    | waiting | draining => simp only [shutdownStep]; split <;> exact hgood.closed
  refine ⟨hinv, fun ho => ?_, fun _ _ _ _ _ ho => ?_⟩ <;> exact absurd (hclosed.symm.trans ho) (by decide)

end

end Steps

section Runs

variable {s : System}

/-- a call that starts a thread which is no monitor, in a core that is then not connected -/
theorem WatchInv.start {c' : Core} {l : List (Option Thread)} (inv : Inv { core := c', threads := l })
    (hstate : c'.state ≠ .connected) : WatchInv { core := c', threads := l } :=
  ⟨inv, fun _ hs => absurd hs hstate, fun _ _ _ _ _ _ hpub => absurd hpub.1 hstate⟩

/-- **One step** that meets the condition keeps a connected core watched. -/
theorem step_watched (s : System) (o : Op) (h : WatchInv s) (hok : StillWatched s o) : WatchInv (step s o) := by
  have hinv := step_inv s o h.inv
  cases o with
  | connect =>
    simp only [step, System.connect] at hinv ⊢
    split_ifs at hinv ⊢
    · exact h
    · exact .start hinv (by simp)
  | networkChanged =>
    simp only [step, System.networkChanged] at hinv ⊢
    split
    · exact h
    split
    · exact h
    rename_i hrun hgo
    simp only [hrun] at hinv
    rw [if_neg hgo] at hinv
    exact .start hinv (fun h => by cases h)
  | close =>
    simp only [step, System.close] at hinv ⊢
    split
    · exact h
    rename_i hdone
    simp only [hdone] at hinv
    exact .start hinv (by simp)
  | run i o =>
    simp only [step]
    split
    · rename_i t hi
      cases t with
      | connect g d p => exact watch_connectStep h hi o
      | networkChanged g cur p => exact watch_networkChangedStep h hi o hok
      | monitor g d r p => exact watch_monitorStep h hi o
      | shutdown d r p => exact watch_shutdownStep h hi
    · exact h

theorem new_watched : WatchInv .new where
  inv := new_inv
  watched := nofun
  gone := fun i t r h => by simp [Live, System.new] at h

theorem WatchInv.spec (h : WatchInv s) : Watched s where
  monitor := fun _ => h.watched
  leaves := by
    intro i g d r e o hi hopen
    have hstep : step s (.run i o) = s.move i (monitorStep s.core o g d r (.deciding e)) := by
      unfold Live at hi
      simp only [step, hi, threadStep]
    rw [hstep]
    refine monitor_decides h.inv hi o ?_
    simp only [monitorStep]
    split
    · exact hopen
    · split <;> exact hopen
  gone := h.gone

/-- **A connected core is watched.** In every run in which a call of `NetworkChanged` takes the lock after a successful probe
only while the monitor of that runtime has its decision before it, a core that says connected has an undecided monitor for its
current runtime, and a runtime whose monitor has decided is not shown as connected. -/
theorem connected_is_watched (ops : List Op) (hg : Machine.Guarded step StillWatched .new ops) : Watched (run .new ops) :=
  (Machine.run_inv_guarded step_watched new_watched ops hg).spec

end Runs

/-! ## The gap between the flag and the lock -/

/-- a runtime is published and its probe succeeds with the flag unset: the call is about to take the lock -/
def probed : List Op := [.connect, .run 0 .ok, .run 0 .ok, .networkChanged, .run 2 .ok]

/-- the call takes the lock while the monitor is still inside `Wait` -/
theorem probed_guarded : Machine.Guarded step StillWatched .new (probed ++ [.run 2 .ok]) := by
  refine ⟨trivial, fun g r h => ?_, fun g r h => ?_, trivial, fun g r h => ?_, fun g r h => ?_, trivial⟩
  · cases Option.some.inj (Option.some.inj h)
  · cases Option.some.inj (Option.some.inj h)
  · cases Option.some.inj (Option.some.inj h)
  · cases Option.some.inj (Option.some.inj h)
    exact ⟨1, .monitor 1 1 0 .waiting, rfl, rfl⟩

theorem connected_is_watched_probed :
    (run .new (probed ++ [.run 2 .ok])).core.state = .connected ∧ Watched (run .new (probed ++ [.run 2 .ok])) :=
  ⟨rfl, connected_is_watched _ probed_guarded⟩

/-- the runtime dies now: its monitor stores the flag, sees reconnecting and leaves; the call then shows it as connected -/
def diesInBetween : List Op := probed ++ [.run 1 .failed, .run 1 .ok, .run 1 .ok, .run 2 .ok, .run 1 .ok]

/-- **The gap.** No call is in progress, the core is open and says connected, and no thread at all is left to watch the dead
runtime. -/
theorem dead_and_connected :
    (run .new diesInBetween).core.closed = false ∧ (run .new diesInBetween).core.state = .connected ∧
      (run .new diesInBetween).core.runtime = some 0 ∧ (run .new diesInBetween).core.waited 0 = true ∧
      (run .new diesInBetween).threads = [none, none, none] ∧ ¬ ∀ ops, Watched (run .new ops) := by
  have hdead : ∀ i t, ¬ Live (run .new diesInBetween).threads i t := by
    intro i t h
    have hmem : some t ∈ (run .new diesInBetween).threads := List.mem_of_getElem? h
    exact absurd hmem (by change some t ∉ [none, none, none]; simp)
  refine ⟨rfl, rfl, rfl, rfl, rfl, fun h => ?_⟩
  obtain ⟨r, _, i, t, hi, _⟩ := (h diesInBetween).monitor (fun i t hi => absurd hi (hdead i t)) rfl rfl
  exact hdead i t hi

end NeProto.Clientcore
