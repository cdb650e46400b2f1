/-
Who answers for a runtime and for a done channel of the client core (`internal/clientcore/core.go`, `reconnect.go`).

Between the connector and its publication a runtime is held by one thread; published, it is the core's, or that of a call of
`NetworkChanged` while the snapshot says reconnecting; let go, one thread is about to close it. A done channel is closed by
the last step of the one thread that made it its own. The invariant `Inv` says that of every thread (`Good`), of every two
(`Apart`) and of the shared state (`Shared`).
-/
import NeProto.Clientcore.Core

namespace NeProto.Clientcore

open Function List Nat Option

open Pool (Live PoolInv)

/-! ## What a thread holds -/

/-- the runtime the call holds, unpublished -/
def ConnectAt.held : ConnectAt → Option ℕ
  | .unsupported r | .publishing r | .discarding r => some r
  | .connecting | .failing | .finishing => none

def ReconnectAt.held : ReconnectAt → Option ℕ
  | .refusing _ r | .installing r | .discarding r => some r
  | .probing | .confirming | .attempting _ | .retiring | .givingUp | .failing => none

/-- the call has neither published nor lost the core -/
def ReconnectAt.owns : ReconnectAt → Bool
  | .discarding _ | .retiring => false
  | .probing | .confirming | .attempting _ | .refusing _ _ | .installing _ | .givingUp | .failing => true

def MonitorAt.isClosing : MonitorAt → Bool
  | .closing _ _ => true
  | _ => false

namespace Thread

/-- the channel the thread closes with its last step -/
def done : Thread → Option ℕ
  | .connect _ d _ | .monitor _ d _ _ => some d
  | .networkChanged _ _ _ | .shutdown _ _ _ => none

def held : Thread → Option ℕ
  | .connect _ _ p => p.held
  | .networkChanged _ _ p => p.held
  | .monitor _ _ _ _ | .shutdown _ _ _ => none

def owns : Thread → Bool
  | .networkChanged _ _ p => p.owns
  | .connect _ _ _ | .monitor _ _ _ _ | .shutdown _ _ _ => false

/-- the runtime the thread is the monitor of -/
def monitored : Thread → Option ℕ
  | .monitor _ _ r _ => some r
  | .connect _ _ _ | .networkChanged _ _ _ | .shutdown _ _ _ => none

/-- the runtime no one else is going to close -/
def answersFor : Thread → Option ℕ
  | .connect _ _ p => p.held
  | .networkChanged _ current p => if p = .retiring then some current else p.held
  | .monitor _ _ r p => if p.isClosing then some r else none
  | .shutdown _ _ _ => none

end Thread

/-! ## The invariant -/

variable (c : Core)

/-- returned by the connector, never published, not closed -/
def Fresh (r : ℕ) : Prop := r < c.returned ∧ c.closes r = 0 ∧ c.published r = false

def OpenDone (d : ℕ) : Prop := d < c.made ∧ c.doneCloses d = 0

structure ConnectGood (d : ℕ) (p : ConnectAt) : Prop where
  opened : OpenDone c d
  awaited : c.closed = false → c.activeDone = some d → c.state = .connecting ∧ c.runtime = none
  held : ∀ r, p.held = some r → Fresh c r

structure ReconnectGood (g current : ℕ) (p : ReconnectAt) : Prop where
  known : c.published current = true
  owner : p.owns = true → c.closed = false → c.reconnecting g current
  intact : p.owns = true → p ≠ .failing → c.closed = false → c.closes current = 0
  shut : p = .failing → c.closes current = 1
  replaced : p = .retiring → c.runtime ≠ some current
  held : ∀ r, p.held = some r → Fresh c r

structure MonitorGood (g d r : ℕ) (p : MonitorAt) : Prop where
  opened : OpenDone c d
  known : c.published r = true
  current : c.closed = false → c.runtime = some r → c.generation = g
  letGo : p.isClosing = true → c.closed = true ∨ c.runtime ≠ some r

structure ShutdownGood (r : Option ℕ) (p : ShutdownAt) : Prop where
  closed : c.closed = true
  pending : c.closeDone = some 0
  current : c.runtime = r
  shut : p ≠ .closing → ∀ x, r = some x → c.closes x = 1

/-- what the shared state owes a thread -/
def Good : Thread → Prop
  | .connect _ d p => ConnectGood c d p
  | .networkChanged g r p => ReconnectGood c g r p
  | .monitor g d r p => MonitorGood c g d r p
  | .shutdown _ r p => ShutdownGood c r p

/-- two threads share no channel and no unpublished runtime, watch different runtimes, at most one owns the reconnection, and
one shuts down -/
structure Apart (t u : Thread) : Prop where
  done : ∀ d, t.done = some d → u.done ≠ some d
  held : ∀ r, t.held = some r → u.held ≠ some r
  monitored : ∀ r, t.monitored = some r → u.monitored ≠ some r
  owner : t.owns = true → u.owns = true → c.closed = true
  worker : t.isWorker = true ∨ u.isWorker = true

theorem Apart.symm (c : Core) (t u : Thread) (h : Apart c t u) : Apart c u t :=
  ⟨fun d hu ht => h.done d ht hu, fun r hu ht => h.held r ht hu, fun r hu ht => h.monitored r ht hu,
    fun hu ht => h.owner ht hu, h.worker.symm⟩

theorem Apart.closed {c c' : Core} {t u : Thread} (h : Apart c t u) (still : c.closed = true → c'.closed = true) :
    Apart c' t u := { h with owner := fun ht hu => still (h.owner ht hu) }

structure Shared (c : Core) : Prop where
  unreturned : ∀ r, c.returned ≤ r → c.closes r = 0 ∧ c.published r = false
  unmade : ∀ d, c.made ≤ d → c.doneCloses d = 0
  once : ∀ r, c.closes r ≤ 1
  doneOnce : ∀ d, c.doneCloses d ≤ 1
  known : ∀ r, c.runtime = some r → c.published r = true
  inactive : c.closed = false → c.activeDone = none → c.runtime = none
  ended : c.closed = true → c.state = .disconnecting ∨ c.state = .disconnected
  running : c.closed = false → c.closeDone = none
  closing : c.closed = true → c.closeDone = some 0 ∨ c.closeDone = some 1
  intact : c.state = .connected → ∀ r, c.runtime = some r → c.closes r = 0

structure Inv (s : System) : Prop where
  shared : Shared s.core
  pool : PoolInv Good Apart s.core s.threads
  answered : ∀ r, r < s.core.returned →
    s.core.closes r = 1 ∨ s.core.runtime = some r ∨ ∃ i t, Live s.threads i t ∧ t.answersFor = some r
  doneAnswered : ∀ d, d < s.core.made → s.core.doneCloses d = 1 ∨ ∃ i t, Live s.threads i t ∧ t.done = some d
  completed : s.core.closeDone = some 1 →
    s.core.state = .disconnected ∧ s.core.runtime = none ∧ ∀ i t, ¬ Live s.threads i t

/-! ## The edits of the shared state -/

section Edits

variable {c : Core} {u : Thread} {r x d : ℕ}

variable {state : SnapshotState}

theorem closeRuntime_ne (h : x ≠ r) : (c.closeRuntime r).closes x = c.closes x := by
  unfold Core.closeRuntime
  split
  · exact update_of_ne h _ _
  · rfl

theorem closeRuntime_self (h : c.closes r ≤ 1) : (c.closeRuntime r).closes r = 1 := by
  unfold Core.closeRuntime
  dsimp only
  split
  · rename_i hzero
    rw [update_self, hzero]
  · omega

theorem closeRuntime_one (once : ∀ r, c.closes r ≤ 1) (h : c.closes x = 1) : (c.closeRuntime r).closes x = 1 := by
  by_cases hx : x = r
  · subst hx
    exact closeRuntime_self (once x)
  · rw [closeRuntime_ne hx, h]

theorem Fresh.closeRuntime (h : Fresh c x) (hne : x ≠ r) : Fresh (c.closeRuntime r) x :=
  ⟨h.1, (closeRuntime_ne hne).trans h.2.1, h.2.2⟩

theorem Fresh.publish (h : Fresh c x) (hne : x ≠ r) : Fresh (c.publish r) x :=
  ⟨h.1, h.2.1, (update_of_ne hne _ _).trans h.2.2⟩

theorem Fresh.connector (h : Fresh c x) : Fresh c.connector x := ⟨lt_succ_of_lt h.1, h.2⟩

theorem Fresh.not_published (h : Fresh c x) (hp : c.published x = true) : False :=
  Bool.false_ne_true (h.2.2.symm.trans hp)

theorem OpenDone.close (h : OpenDone c x) (hne : x ≠ d) : OpenDone (c.close d) x :=
  ⟨h.1, (update_of_ne hne _ _).trans h.2⟩

theorem published_publish (h : c.published x = true) : (c.publish r).published x = true := by
  by_cases hx : x = r
  · subst hx
    exact update_self _ _ _
  · exact (update_of_ne hx _ _).trans h

section

variable (h : Good c u)

include h

/-- a held runtime is fresh -/
theorem fresh_of_held (hu : u.held = some r) : Fresh c r := by
  cases u with
  | connect g d p | networkChanged g cur p => exact h.held r hu
  | monitor g d x p | shutdown d x p => cases hu

/-- a done channel is open until its thread ends -/
theorem openDone_of_done (hu : u.done = some d) : OpenDone c d := by
  cases u with
  | connect g d p | monitor g d x p =>
    cases hu
    exact h.opened
  | networkChanged g cur p => cases hu
  | shutdown d x p => cases hu

theorem published_of_monitored (hu : u.monitored = some r) : c.published r = true := by
  cases u with
  | monitor g d x p =>
    cases hu
    exact h.known
  | connect g d p | networkChanged g cur p | shutdown d x p => cases hu

/-- the thread that owns the reconnection sees the core reconnecting -/
theorem reconnecting_of_owns (hu : u.owns = true) (hopen : c.closed = false) : c.state = .reconnecting ∧ c.runtime ≠ none := by
  cases u with
  | networkChanged g cur p =>
    obtain ⟨_, _, hrun, hstate⟩ := h.owner hu hopen
    exact ⟨hstate, fun hnone => absurd (hnone.symm.trans hrun) nofun⟩
  | connect g d p | monitor g d x p | shutdown d x p => cases hu

/-! What each edit leaves of `Good`, for a thread that stands still. -/

theorem Good.connector : Good c.connector u := by
  cases u with
  | connect g d p => exact ⟨h.opened, h.awaited, fun x hx => (h.held x hx).connector⟩
  | networkChanged g cur p =>
    exact { h with held := fun x hx => (h.held x hx).connector }
  | monitor g d x p | shutdown d x p => exact { h with }

theorem Good.storeWaited : Good (c.storeWaited r) u := by
  cases u with
  | connect g d p => exact { h with }
  | networkChanged g cur p => exact { h with }
  | monitor g d x p | shutdown d x p => exact { h with }

theorem Good.close (hne : u.done ≠ some d) : Good (c.close d) u := by
  cases u with
  | connect g e p =>
    exact ⟨h.opened.close fun he => hne (congrArg some he), h.awaited, h.held⟩
  | networkChanged g cur p => exact { h with }
  | monitor g e x p => exact { h with opened := h.opened.close fun he => hne (congrArg some he) }
  | shutdown e x p => exact { h with }

theorem Good.closeRuntime (once : ∀ r, c.closes r ≤ 1) (hheld : u.held ≠ some r)
    (howner : u.owns = true → c.closed = false → c.runtime ≠ some r) : Good (c.closeRuntime r) u := by
  cases u with
  | connect g d p =>
    exact ⟨h.opened, h.awaited, fun x hx =>
      (h.held x hx).closeRuntime fun he => hheld (hx.trans (congrArg some he))⟩
  | networkChanged g cur p =>
    refine ⟨h.known, h.owner, fun hown hnf hopen => ?_, fun hf => closeRuntime_one once (h.shut hf), h.replaced,
      fun x hx => (h.held x hx).closeRuntime fun he => hheld (hx.trans (congrArg some he))⟩
    have hne : cur ≠ r := fun he => howner hown hopen (he ▸ (h.owner hown hopen).2.2.1)
    rw [closeRuntime_ne hne]
    exact h.intact hown hnf hopen
  | monitor g d x p => exact { h with }
  | shutdown d x p => exact { h with shut := fun hp y hy => closeRuntime_one once (h.shut hp y hy) }

/-- the edits that only move the snapshot, and perhaps let a failed `Connect` go -/
theorem Good.enter {active : Option ℕ}
    (hactive : ∀ e, active = some e → c.activeDone = some e ∧ c.state ≠ .connecting) (howner : u.owns = false) :
    Good { c with state := state, activeDone := active } u := by
  cases u with
  | connect g d p =>
    refine ⟨h.opened, fun hopen ha => ?_, h.held⟩
    obtain ⟨hc, hstate⟩ := hactive d ha
    exact absurd (h.awaited hopen hc).1 hstate
  | networkChanged g cur p =>
    exact { h with owner := fun hown => absurd (hown.symm.trans howner) (by decide) }
  | monitor g d x p | shutdown d x p => exact { h with }

theorem Good.publish (hopen : c.closed = false) (hfresh : Fresh c r) (hheld : u.held ≠ some r)
    (howner : u.owns = false) : Good (c.publish r) u := by
  cases u with
  | connect g d p =>
    -- the session channel is a new one
    refine ⟨⟨lt_succ_of_lt h.opened.1, h.opened.2⟩, fun _ ha => ?_, fun x hx =>
      (h.held x hx).publish fun he => hheld (hx.trans (congrArg some he))⟩
    exact absurd (some.inj ha) (ne_of_gt h.opened.1)
  | networkChanged g cur p =>
    refine ⟨published_publish h.known, fun hown => absurd (hown.symm.trans howner) (by decide), h.intact, h.shut,
      fun _ hrun => ?_, fun x hx => (h.held x hx).publish fun he => hheld (hx.trans (congrArg some he))⟩
    exact hfresh.not_published (some.inj hrun ▸ h.known)
  | monitor g d x p =>
    have hne : x ≠ r := fun he => hfresh.not_published (he ▸ h.known)
    exact ⟨⟨lt_succ_of_lt h.opened.1, h.opened.2⟩, published_publish h.known,
      fun _ hrun => absurd (some.inj hrun).symm hne, fun _ => .inr fun hrun => hne (some.inj hrun).symm⟩
  | shutdown d x p => exact absurd (h.closed.symm.trans hopen) (by decide)

theorem Good.release (hopen : c.closed = false) (howner : u.owns = false) : Good (c.release state) u := by
  cases u with
  | connect g d p => exact ⟨h.opened, nofun, h.held⟩
  | networkChanged g cur p =>
    exact { h with owner := fun hown => absurd (hown.symm.trans howner) (by decide), replaced := nofun }
  | monitor g d x p => exact ⟨h.opened, h.known, nofun, fun _ => .inr nofun⟩
  | shutdown d x p => exact absurd (h.closed.symm.trans hopen) (by decide)

end

/-! What each edit leaves of `Shared`. -/

section

variable (h : Shared c)

include h

theorem Shared.connector : Shared c.connector :=
  { h with unreturned := fun r hr => h.unreturned r (le_of_succ_le hr) }

theorem Shared.storeWaited : Shared (c.storeWaited r) := { h with }

theorem Shared.not_connected (hclosed : c.closed = true) : c.state ≠ .connected := by
  rcases h.ended hclosed with he | he <;> rw [he] <;> decide

theorem Shared.published_lt (hr : c.published r = true) : r < c.returned := by
  by_contra hge
  exact Bool.false_ne_true ((h.unreturned r (not_lt.1 hge)).2.symm.trans hr)

theorem Shared.closeRuntime (hr : r < c.returned) (hrun : c.state = .connected → c.runtime ≠ some r) :
    Shared (c.closeRuntime r) := by
  refine { h with
    unreturned := fun x hx => ?_, once := fun x => ?_, intact := fun hstate x hx => ?_ }
  · have hne : x ≠ r := fun he => absurd hr (not_lt.2 (he ▸ hx))
    exact ⟨(closeRuntime_ne hne).trans (h.unreturned x hx).1, (h.unreturned x hx).2⟩
  · by_cases he : x = r
    · subst he
      exact (closeRuntime_self (h.once x)).le
    · rw [closeRuntime_ne he]
      exact h.once x
  · have hne : x ≠ r := fun he => hrun hstate (he ▸ hx)
    exact (closeRuntime_ne hne).trans (h.intact hstate x hx)

theorem Shared.close (hd : OpenDone c d) : Shared (c.close d) := by
  refine { h with unmade := fun x hx => ?_, doneOnce := fun x => ?_ }
  · have hne : x ≠ d := fun he => absurd hd.1 (not_lt.2 (he ▸ hx))
    exact (update_of_ne hne _ _).trans (h.unmade x hx)
  · by_cases he : x = d
    · subst he
      have hself : (c.close x).doneCloses x = c.doneCloses x + 1 := update_self _ _ _
      rw [hself, hd.2]
    · exact (update_of_ne he _ _).le.trans (h.doneOnce x)

theorem Shared.enter {active : Option ℕ} (hopen : c.closed = false)
    (hactive : active = none → c.runtime = none) (hintact : state = .connected → ∀ r, c.runtime = some r → c.closes r = 0) :
    Shared { c with state := state, activeDone := active } :=
  { h with
    inactive := fun _ ha => hactive ha
    ended := fun hc => absurd (hc.symm.trans hopen) (by decide)
    intact := hintact }

theorem Shared.publish (hopen : c.closed = false) (hr : Fresh c r) : Shared (c.publish r) := by
  refine { h with
    unreturned := fun x hx => ?_, unmade := fun x hx => h.unmade x (le_of_succ_le hx), known := fun x hx => ?_,
    inactive := nofun, ended := fun hc => absurd (hc.symm.trans hopen) (by decide),
    intact := fun _ x hx => ?_ }
  · have hne : x ≠ r := fun he => absurd hr.1 (not_lt.2 (he ▸ hx))
    exact ⟨(h.unreturned x hx).1, (update_of_ne hne _ _).trans (h.unreturned x hx).2⟩
  · cases hx
    exact update_self _ _ _
  · cases hx
    exact hr.2.1

theorem Shared.release (hopen : c.closed = false) : Shared (c.release state) :=
  { h with
    known := nofun
    inactive := fun _ _ => rfl
    ended := fun hc => absurd (hc.symm.trans hopen) (by decide)
    intact := nofun }

end

end Edits

/-! ## A thread takes a step -/

/-- the moved thread or the one it started -/
def Move.Has (m : Move) (P : Thread → Prop) : Prop :=
  (∃ u, m.next = some u ∧ P u) ∨ ∃ u, m.spawned = some u ∧ P u

/-- what the thread answered for, and what is new, is closed or answered for again -/
structure Passes (c : Core) (t : Thread) (m : Move) : Prop where
  closes : ∀ r, c.closes r = 1 → m.core.closes r = 1
  runtimes : ∀ r, c.returned ≤ r ∧ r < m.core.returned ∨ c.runtime = some r ∨ t.answersFor = some r →
    m.core.closes r = 1 ∨ m.core.runtime = some r ∨ m.Has fun u => u.answersFor = some r
  doneCloses : ∀ d, c.doneCloses d = 1 → m.core.doneCloses d = 1
  dones : ∀ d, c.made ≤ d ∧ d < m.core.made ∨ t.done = some d → m.core.doneCloses d = 1 ∨ m.Has fun u => u.done = some d

/-- `u` claims no more than `t` did -/
structure Follows (t u : Thread) : Prop where
  done : u.done = t.done
  held : ∀ r, u.held = some r → t.held = some r
  monitored : u.monitored = t.monitored
  owns : u.owns = true → t.owns = true
  worker : u.isWorker = t.isWorker

theorem Follows.apart {c c' : Core} {t u v : Thread} (h : Follows t u) (hclosed : c.closed = true → c'.closed = true)
    (ha : Apart c t v) : Apart c' u v :=
  ⟨fun d hd => ha.done d (h.done ▸ hd), fun r hr => ha.held r (h.held r hr), fun r hr => ha.monitored r (h.monitored ▸ hr),
    fun hu hv => hclosed (ha.owner (h.owns hu) hv), h.worker ▸ ha.worker⟩

section Moves

variable {s : System} {i : ℕ} {t : Thread}

variable {c' : Core} {u : Thread} {r : ℕ}

section

variable (h : Inv s) (hi : Live s.threads i t)
include h hi

/-- **Step rule.** -/
theorem Inv.move {m : Move} (shared : Shared m.core)
    (others : ∀ v, Good s.core v → Apart s.core t v → Good m.core v)
    (still : s.core.closed = true → m.core.closed = true)
    (mine : ∀ u, m.next = some u → Good m.core u ∧ ∀ v, Good s.core v → Apart s.core t v → Apart m.core u v)
    (born : ∀ n, m.spawned = some n →
      Good m.core n ∧ (∀ u, m.next = some u → Apart m.core n u) ∧ ∀ v, Good s.core v → Apart m.core n v)
    (passes : Passes s.core t m) (closeDone : m.core.closeDone = s.core.closeDone) : Inv (s.move i m) := by
  have passed : ∀ {P : Thread → Prop}, m.Has P → ∃ j u, Live (s.move i m).threads j u ∧ P u := by
    rintro P (⟨u, hu, hP⟩ | ⟨u, hu, hP⟩)
    · exact ⟨i, u, Pool.live_moved_self _ hi hu, hP⟩
    · exact ⟨_, u, Pool.live_moved_new _ _ hu, hP⟩
  refine ⟨shared, ?_, fun r hr => ?_, fun d hd => ?_, fun hc => ?_⟩
  · exact h.pool.move Apart.symm hi others (fun _ _ ha => ha.closed still) mine born
  · by_cases hmine : s.core.returned ≤ r ∧ r < m.core.returned ∨ s.core.runtime = some r ∨ t.answersFor = some r
    · exact (passes.runtimes r hmine).imp id (.imp id passed)
    have hlt : r < s.core.returned := not_le.1 fun hge => hmine (.inl ⟨hge, hr⟩)
    rcases h.answered r hlt with hone | hrun | hans
    · exact .inl (passes.closes r hone)
    · exact absurd (.inr (.inl hrun)) hmine
    · exact .inr (.inr (Pool.exists_moved hi (fun ht => absurd (.inr (.inr ht)) hmine) hans))
  · by_cases hmine : s.core.made ≤ d ∧ d < m.core.made ∨ t.done = some d
    · exact (passes.dones d hmine).imp id passed
    have hlt : d < s.core.made := not_le.1 fun hge => hmine (.inl ⟨hge, hd⟩)
    rcases h.doneAnswered d hlt with hone | hans
    · exact .inl (passes.doneCloses d hone)
    · exact .inr (Pool.exists_moved hi (fun ht => absurd (.inr ht) hmine) hans)
  · exact absurd hi ((h.completed (closeDone.symm.trans hc)).2.2 i t)

/-- an edit that makes nothing new and closes no channel -/
structure Kept (c c' : Core) : Prop where
  returned : c'.returned = c.returned
  made : c'.made = c.made
  doneCloses : c'.doneCloses = c.doneCloses
  closed : c'.closed = c.closed
  closeDone : c'.closeDone = c.closeDone

/-- the step rule for a thread that goes on -/
theorem Inv.follow (hkept : Kept s.core c')
    (hf : Follows t u) (shared : Shared c') (others : ∀ v, Good s.core v → Apart s.core t v → Good c' v) (mine : Good c' u)
    (closes : ∀ r, s.core.closes r = 1 → c'.closes r = 1) (runtimes : ∀ r, s.core.runtime = some r ∨ t.answersFor = some r →
      c'.closes r = 1 ∨ c'.runtime = some r ∨ u.answersFor = some r) :
    Inv (s.move i (.go c' u)) := by
  have hclosed : s.core.closed = true → c'.closed = true := fun hc => hkept.closed.trans hc
  refine h.move hi shared others hclosed ?_ nofun ⟨closes, ?_, ?_, ?_⟩ hkept.closeDone
  · intro v hv
    cases hv
    exact ⟨mine, fun w _ ha => hf.apart hclosed ha⟩
  · rintro r (⟨hge, hlt⟩ | hr)
    · exact absurd hlt (not_lt.2 (hkept.returned.le.trans hge))
    · exact (runtimes r hr).imp id (.imp id fun hu => .inl ⟨u, rfl, hu⟩)
  · intro d hd
    exact (congrFun hkept.doneCloses d).trans hd
  · rintro d (⟨hge, hlt⟩ | hd)
    · exact absurd hlt (not_lt.2 (hkept.made.le.trans hge))
    · exact .inr (.inl ⟨u, rfl, hf.done.trans hd⟩)

/-- the step rule for a thread that only moves its program counter -/
theorem Inv.turn (hf : Follows t u) (mine : Good s.core u)
    (answers : ∀ r, t.answersFor = some r → u.answersFor = some r) : Inv (s.move i (.go s.core u)) :=
  h.follow hi ⟨rfl, rfl, rfl, rfl, rfl⟩ hf h.shared (fun _ hv _ => hv) mine (fun _ hr => hr)
    fun r hr => hr.elim (fun hrun => .inr (.inl hrun)) fun ht => .inr (.inr (answers r ht))

/-- the step rule for a thread without a channel that ends -/
theorem Inv.last (hkept : Kept s.core c') (hdone : t.done = none)
    (shared : Shared c') (others : ∀ v, Good s.core v → Apart s.core t v → Good c' v)
    (closes : ∀ r, s.core.closes r = 1 → c'.closes r = 1)
    (runtimes : ∀ r, s.core.runtime = some r ∨ t.answersFor = some r → c'.closes r = 1 ∨ c'.runtime = some r) :
    Inv (s.move i { core := c' }) := by
  refine h.move hi shared others (fun hc => hkept.closed.trans hc) nofun nofun
    ⟨closes, ?_, ?_, ?_⟩ hkept.closeDone
  · rintro r (⟨hge, hlt⟩ | hr)
    · exact absurd hlt (not_lt.2 (hkept.returned.le.trans hge))
    · exact (runtimes r hr).imp id .inl
  · intro d hd
    exact (congrFun hkept.doneCloses d).trans hd
  · rintro d (⟨hge, hlt⟩ | hd)
    · exact absurd hlt (not_lt.2 (hkept.made.le.trans hge))
    · cases hdone.symm.trans hd

/-- the step rule for a thread whose last step is to close its channel -/
theorem Inv.finish {d : ℕ} (hdone : t.done = some d)
    (hanswers : t.answersFor = none) : Inv (s.move i { core := s.core.close d }) := by
  have hopen := openDone_of_done (h.pool.good i t hi) hdone
  have hself : (s.core.close d).doneCloses d = 1 := by
    change update s.core.doneCloses d _ d = 1
    rw [update_self, hopen.2]
  refine h.move hi (h.shared.close hopen) (fun v hv ha => hv.close (ha.done d hdone)) id nofun
    nofun ⟨fun _ hr => hr, ?_, ?_, ?_⟩ rfl
  · rintro r (⟨hge, hlt⟩ | hr | hr)
    · exact absurd hlt (not_lt.2 hge)
    · exact .inr (.inl hr)
    · cases hanswers.symm.trans hr
  · intro e he
    by_cases hed : e = d
    · exact hed ▸ hself
    · exact (update_of_ne hed _ _).trans he
  · rintro e (⟨hge, hlt⟩ | he)
    · exact absurd hlt (not_lt.2 hge)
    · cases hdone.symm.trans he
      exact .inl hself

/-- the runtime a thread may close: the one it holds, or one the core has let go of or is being made to -/
def Closable (c : Core) (t : Thread) (r : ℕ) : Prop :=
  t.held = some r ∨ c.published r = true ∧ (c.closed = true ∨ c.runtime ≠ some r ∨ t.owns = true)

theorem closable_spec (hr : Closable s.core t r) :
    Shared (s.core.closeRuntime r) ∧ ∀ v, Good s.core v → Apart s.core t v → Good (s.core.closeRuntime r) v := by
  have hgood := h.pool.good i t hi
  rcases hr with hheld | ⟨hpub, hgone⟩
  · have hfresh := fresh_of_held hgood hheld
    have hrun : s.core.runtime ≠ some r := fun hrun => hfresh.not_published (h.shared.known r hrun)
    exact ⟨h.shared.closeRuntime hfresh.1 fun _ => hrun, fun v hv ha =>
      hv.closeRuntime h.shared.once (ha.held r hheld) fun _ _ => hrun⟩
  · have hheld : ∀ v, Good s.core v → v.held ≠ some r := fun v hv hvr => (fresh_of_held hv hvr).not_published hpub
    refine ⟨h.shared.closeRuntime (h.shared.published_lt hpub) fun hstate => ?_, fun v hv ha =>
      hv.closeRuntime h.shared.once (hheld v hv) fun hown hopen => ?_⟩
    · rcases hgone with hclosed | hrun | hown
      · exact absurd hstate (h.shared.not_connected hclosed)
      · exact hrun
      cases hclosed : s.core.closed with
      | false => cases (reconnecting_of_owns hgood hown hclosed).1.symm.trans hstate
      | true => exact absurd hstate (h.shared.not_connected hclosed)
    · rcases hgone with hclosed | hrun | hme
      · exact absurd (hclosed.symm.trans hopen) (by decide)
      · exact hrun
      · exact absurd ((ha.owner hme hown).symm.trans hopen) (by decide)

/-- the step rule for a thread that closes a runtime and goes on -/
theorem Inv.closeRuntime (hr : Closable s.core t r)
    (hf : Follows t u) (mine : Good (s.core.closeRuntime r) u) (hans : ∀ x, t.answersFor = some x → x = r) :
    Inv (s.move i (.go (s.core.closeRuntime r) u)) := by
  obtain ⟨hshared, hothers⟩ := closable_spec h hi hr
  refine h.follow hi ⟨rfl, rfl, rfl, rfl, rfl⟩ hf hshared hothers mine (fun x hx => closeRuntime_one h.shared.once hx) ?_
  rintro x (hrun | hx)
  · exact .inr (.inl hrun)
  · obtain rfl := hans x hx
    exact .inl (closeRuntime_self (h.shared.once x))

/-- the step rule for a thread that closes a runtime with its last step -/
theorem Inv.closeRuntime_last (hr : Closable s.core t r)
    (hdone : t.done = none) (hans : ∀ x, t.answersFor = some x → x = r) :
    Inv (s.move i { core := s.core.closeRuntime r }) := by
  obtain ⟨hshared, hothers⟩ := closable_spec h hi hr
  refine h.last hi ⟨rfl, rfl, rfl, rfl, rfl⟩ hdone hshared hothers (fun x hx => closeRuntime_one h.shared.once hx) ?_
  rintro x (hrun | hx)
  · exact .inr hrun
  · obtain rfl := hans x hx
    exact .inl (closeRuntime_self (h.shared.once x))

omit h hi in
/-- what the connector has just returned is fresh -/
theorem fresh_connector (h : Shared s.core) : Fresh s.core.connector s.core.returned :=
  ⟨lt_succ_self _, h.unreturned _ le_rfl⟩

/-- the step rule for a thread the connector returns a runtime to -/
theorem Inv.receive (hdone : u.done = t.done)
    (hmonitored : u.monitored = t.monitored) (howns : u.owns = true → t.owns = true) (hworker : u.isWorker = t.isWorker)
    (hheld : u.held = some s.core.returned)
    (hans : u.answersFor = some s.core.returned) (hnone : t.answersFor = none) (mine : Good s.core.connector u) :
    Inv (s.move i (.go s.core.connector u)) := by
  refine h.move hi h.shared.connector (fun v hv _ => hv.connector) id ?_ nofun
    ⟨fun _ hr => hr, ?_, fun _ hd => hd, ?_⟩ rfl
  · intro v hv
    cases hv
    refine ⟨mine, fun w hw ha => ⟨fun d hd => ha.done d (hdone ▸ hd), fun r hr hwr => ?_,
      fun r hr => ha.monitored r (hmonitored ▸ hr), fun hu hv => ha.owner (howns hu) hv, hworker ▸ ha.worker⟩⟩
    cases hheld.symm.trans hr
    exact absurd (fresh_of_held hw hwr).1 (lt_irrefl _)
  · rintro r (⟨hge, hlt⟩ | hr | hr)
    · have hreq : r = s.core.returned := le_antisymm (le_of_lt_succ hlt) hge
      subst hreq
      exact .inr (.inr (.inl ⟨u, rfl, hans⟩))
    · exact .inr (.inl hr)
    · cases hnone.symm.trans hr
  · rintro d (⟨hge, hlt⟩ | hd)
    · exact absurd hlt (not_lt.2 hge)
    · exact .inr (.inl ⟨u, rfl, hdone.trans hd⟩)

end

/-- the monitor of a runtime that is being published -/
theorem monitor_born {c : Core} {g : ℕ} (h : Shared c) (hg : c.generation = g) :
    Good (c.publish r) (.monitor g c.made r .waiting) :=
  ⟨⟨lt_succ_self _, h.unmade _ le_rfl⟩, update_self _ _ _, fun _ _ => hg, nofun⟩

theorem monitor_apart {c : Core} {g : ℕ} {p : MonitorAt} {v : Thread} (hv : Good c v) (hr : Fresh c r) :
    Apart c' (.monitor g c.made r p) v := by
  refine ⟨fun d hd hvd => ?_, nofun, fun x hx hvx => ?_, nofun, .inl rfl⟩
  · cases hd
    exact absurd (openDone_of_done hv hvd).1 (lt_irrefl _)
  · cases hx
    exact hr.not_published (published_of_monitored hv hvx)

end Moves

/-! ## `Connect` -/

section Connect

variable {s : System} {i g d : ℕ} {p : ConnectAt}

theorem ConnectGood.turn {c : Core} {p p' : ConnectAt} (h : ConnectGood c d p)
    (hheld : ∀ r, p'.held = some r → p.held = some r) : ConnectGood c d p' :=
  ⟨h.opened, h.awaited, fun r hr => h.held r (hheld r hr)⟩

theorem connect_follows {p p' : ConnectAt} (hheld : ∀ r, p'.held = some r → p.held = some r) :
    Follows (.connect g d p) (.connect g d p') := ⟨rfl, hheld, rfl, id, rfl⟩

/-- no other thread owns a reconnection while the snapshot says connecting -/
theorem not_owns_of_state {c : Core} {v : Thread} (hv : Good c v) (hopen : c.closed = false) (hstate : c.state ≠ .reconnecting) :
    v.owns = false := by
  cases hown : v.owns with
  | false => rfl
  | true => exact absurd (reconnecting_of_owns hv hown hopen).1 hstate

theorem inv_connect_publish (h : Inv s) {r : ℕ} (hi : Live s.threads i (.connect g d (.publishing r)))
    (hc : s.core.connecting g d) :
    Inv (s.move i { core := (s.core.publish r).close d, spawned := some (.monitor g s.core.made r .waiting) }) := by
  obtain ⟨hopen, hg, hactive⟩ := hc
  have hgood : ConnectGood s.core d (.publishing r) := h.pool.good i _ hi
  have hfresh := hgood.held r rfl
  obtain ⟨hstate, hrun⟩ := hgood.awaited hopen hactive
  have hlt := hgood.opened.1
  have hopened : OpenDone (s.core.publish r) d := ⟨lt_succ_of_lt hlt, hgood.opened.2⟩
  have hself : ((s.core.publish r).close d).doneCloses d = 1 := by
    change update s.core.doneCloses d _ d = 1
    rw [update_self]
    exact congrArg (· + 1) hgood.opened.2
  refine h.move hi ((h.shared.publish hopen hfresh).close hopened) (fun v hv ha => ?_) id nofun
    (fun n hn => ?_) ⟨fun _ hr => hr, ?_, ?_, ?_⟩ rfl
  · have hown := not_owns_of_state hv hopen (hstate ▸ by decide)
    exact (hv.publish hopen hfresh (ha.held r rfl) hown).close (ha.done d rfl)
  · cases hn
    refine ⟨(monitor_born h.shared hg).close fun he => absurd hlt ?_, nofun, fun v hv =>
      monitor_apart hv hfresh⟩
    rw [← some.inj he]
    exact lt_irrefl _
  · rintro x (⟨hge, hlt'⟩ | hx | hx)
    · exact absurd hlt' (not_lt.2 hge)
    · cases hrun.symm.trans hx
    · exact .inr (.inl hx)
  · intro e he
    by_cases hed : e = d
    · exact hed ▸ hself
    · exact (update_of_ne hed _ _).trans he
  · rintro e (⟨hge, hlt'⟩ | he)
    · have heq : e = s.core.made := le_antisymm (le_of_lt_succ hlt') hge
      exact .inr (.inr ⟨_, rfl, congrArg some heq.symm⟩)
    · cases he
      exact .inl hself

theorem inv_connect_fail (h : Inv s) (hi : Live s.threads i (.connect g d .failing)) (hc : s.core.connecting g d) :
    Inv (s.move i
      (.go { s.core with state := .failed, activeDone := none } (.connect g d .finishing))) := by
  obtain ⟨hopen, hg, hactive⟩ := hc
  have hgood : ConnectGood s.core d .failing := h.pool.good i _ hi
  obtain ⟨hstate, hrun⟩ := hgood.awaited hopen hactive
  refine h.follow hi ⟨rfl, rfl, rfl, rfl, rfl⟩ (connect_follows nofun)
    (h.shared.enter hopen (fun _ => hrun) nofun)
    (fun v hv _ => hv.enter nofun (not_owns_of_state hv hopen (hstate ▸ by decide)))
    ⟨hgood.opened, nofun, nofun⟩ (fun _ hr => hr) ?_
  rintro r (hr | hr)
  · exact .inr (.inl hr)
  · cases hr

theorem inv_connectStep (h : Inv s) (hi : Live s.threads i (.connect g d p)) (o : Outcome) :
    Inv (s.move i (connectStep s.core o g d p)) := by
  have hgood : ConnectGood s.core d p := h.pool.good i _ hi
  -- the three places that hold a runtime close it, or pass it on
  have hclose : ∀ {r : ℕ} {p' : ConnectAt}, p.held = some r → p'.held = none →
      Inv (s.move i (.go (s.core.closeRuntime r) (.connect g d p'))) := by
    intro r p' hp hp'
    have hnone : ∀ x, p'.held = some x → p.held = some x := fun x hx => absurd (hp'.symm.trans hx) nofun
    refine h.closeRuntime hi (.inl hp) (connect_follows hnone) ?_ fun x hx => (some.inj (hp.symm.trans hx)).symm
    exact { hgood with held := fun x hx => absurd (hp'.symm.trans hx) nofun }
  have hreceive : ∀ {p' : ConnectAt}, p.held = none → p'.held = some s.core.returned →
      Inv (s.move i (.go s.core.connector (.connect g d p'))) := by
    intro p' hp hp'
    refine h.receive hi rfl rfl id rfl hp' hp' hp { hgood with held := fun x hx => ?_ }
    cases hp'.symm.trans hx
    exact fresh_connector h.shared
  cases p with
  | connecting =>
    cases o with
    | ok | refused => exact hreceive rfl rfl
    | failed | stopped => exact h.turn hi (connect_follows fun _ hr => hr) (hgood.turn fun _ hr => hr) fun _ hr => hr
  | unsupported r | discarding r => exact hclose rfl rfl
  | failing =>
    simp only [connectStep]
    split
    · rename_i hc
      exact inv_connect_fail h hi hc
    · exact h.turn hi (connect_follows fun _ hr => hr) (hgood.turn fun _ hr => hr) fun _ hr => hr
  | publishing r =>
    simp only [connectStep]
    split
    · rename_i hc
      exact inv_connect_publish h hi hc
    · exact h.turn hi (connect_follows fun _ hr => hr) (hgood.turn fun _ hr => hr) fun _ hr => hr
  | finishing => exact h.finish hi rfl rfl

end Connect

/-! ## `NetworkChanged` -/

section Reconnect

variable {s : System} {i g cur : ℕ} {p : ReconnectAt}

@[simp] theorem nextAttempt_held (n : ℕ) : (nextAttempt n).held = none := by
  unfold nextAttempt
  split <;> rfl

theorem nextAttempt_ne (n : ℕ) : nextAttempt n ≠ .failing ∧ nextAttempt n ≠ .retiring := by
  unfold nextAttempt
  split <;> exact ⟨nofun, nofun⟩

theorem ReconnectGood.turn {c : Core} {p p' : ReconnectAt} (h : ReconnectGood c g cur p) (hp : p.owns = true)
    (hpf : p ≠ .failing) (hp' : p' ≠ .failing ∧ p' ≠ .retiring) (hheld : ∀ r, p'.held = some r → Fresh c r) :
    ReconnectGood c g cur p' :=
  ⟨h.known, fun _ => h.owner hp, fun _ _ => h.intact hp hpf, fun he => absurd he hp'.1, fun he => absurd he hp'.2, hheld⟩

theorem networkChanged_follows {p p' : ReconnectAt} (hheld : ∀ r, p'.held = some r → p.held = some r) (hp : p.owns = true) :
    Follows (.networkChanged g cur p) (.networkChanged g cur p') := ⟨rfl, hheld, rfl, fun _ => hp, rfl⟩

/-- while a call of `NetworkChanged` owns the reconnection no other one does -/
theorem not_owns_of_apart {c : Core} {t v : Thread} (ht : t.owns = true) (hopen : c.closed = false) (ha : Apart c t v) :
    v.owns = false := by
  cases hown : v.owns with
  | false => rfl
  | true => exact absurd ((ha.owner ht hown).symm.trans hopen) (by decide)

section

variable (hc : s.core.reconnecting g cur)
include hc

theorem inv_reconnect_confirm (h : Inv s) (hi : Live s.threads i (.networkChanged g cur .confirming)) :
    Inv (s.move i { core := s.core.enter .connected }) := by
  obtain ⟨hopen, hg, hrun, hstate⟩ := hc
  have hgood : ReconnectGood s.core g cur .confirming := h.pool.good i _ hi
  refine h.last hi ⟨rfl, rfl, rfl, rfl, rfl⟩ rfl (h.shared.enter hopen (h.shared.inactive hopen) fun _ r hr => ?_)
    (fun v hv ha => hv.enter (fun e he => ⟨he, hstate ▸ by decide⟩) (not_owns_of_apart rfl hopen ha)) (fun _ hr => hr) ?_
  · cases hrun.symm.trans hr
    exact hgood.intact rfl nofun hopen
  · rintro r (hr | hr)
    · exact .inr hr
    · cases hr

theorem inv_reconnect_install (h : Inv s) {r : ℕ} (hi : Live s.threads i (.networkChanged g cur (.installing r))) :
    Inv (s.move i
      { core := s.core.publish r, next := some (.networkChanged g cur .retiring),
        spawned := some (.monitor g s.core.made r .waiting) }) := by
  obtain ⟨hopen, hg, hrun, hstate⟩ := hc
  have hgood : ReconnectGood s.core g cur (.installing r) := h.pool.good i _ hi
  have hfresh := hgood.held r rfl
  refine h.move hi (h.shared.publish hopen hfresh)
    (fun v hv ha => hv.publish hopen hfresh (ha.held r rfl) (not_owns_of_apart rfl hopen ha)) id (fun u hu => ?_)
    (fun n hn => ?_) ⟨fun _ hr => hr, ?_, fun _ hd => hd, ?_⟩ rfl
  · cases hu
    refine ⟨⟨published_publish hgood.known, nofun, nofun, nofun, fun _ he => ?_, nofun⟩, fun v hv ha =>
      ⟨nofun, nofun, nofun, nofun, .inl rfl⟩⟩
    exact hfresh.not_published (some.inj he ▸ hgood.known)
  · cases hn
    refine ⟨monitor_born h.shared hg, fun u hu => ?_, fun v hv => monitor_apart hv hfresh⟩
    cases hu
    exact ⟨nofun, nofun, nofun, nofun, .inl rfl⟩
  · rintro x (⟨hge, hlt⟩ | hx | hx)
    · exact absurd hlt (not_lt.2 hge)
    · cases hrun.symm.trans hx
      exact .inr (.inr (.inl ⟨_, rfl, rfl⟩))
    · exact .inr (.inl hx)
  · rintro e (⟨hge, hlt⟩ | he)
    · have heq : e = s.core.made := le_antisymm (le_of_lt_succ hlt) hge
      exact .inr (.inr ⟨_, rfl, congrArg some heq.symm⟩)
    · cases he

theorem inv_reconnect_fail (h : Inv s) (hi : Live s.threads i (.networkChanged g cur .failing)) :
    Inv (s.move i { core := s.core.release .failed }) := by
  obtain ⟨hopen, hg, hrun, hstate⟩ := hc
  have hgood : ReconnectGood s.core g cur .failing := h.pool.good i _ hi
  refine h.last hi ⟨rfl, rfl, rfl, rfl, rfl⟩ rfl (h.shared.release hopen)
    (fun v hv ha => hv.release hopen (not_owns_of_apart rfl hopen ha)) (fun _ hr => hr) ?_
  rintro r (hr | hr)
  · cases hrun.symm.trans hr
    exact .inl (hgood.shut rfl)
  · cases hr

end

theorem inv_networkChangedStep (h : Inv s) (hi : Live s.threads i (.networkChanged g cur p)) (o : Outcome) :
    Inv (s.move i (networkChangedStep s.core o g cur p)) := by
  have hgood : ReconnectGood s.core g cur p := h.pool.good i _ hi
  have hturn : ∀ {p' : ReconnectAt}, p.owns = true → p ≠ .failing → p' ≠ .failing ∧ p' ≠ .retiring →
      p'.held = none → p.held = none → Inv (s.move i (.go s.core (.networkChanged g cur p'))) := by
    intro p' hown hnf hp' hheld hnone
    have hvoid : ∀ {Q : Prop} r, p'.held = some r → Q := fun r hr => absurd (hheld.symm.trans hr) nofun
    refine h.turn hi (networkChanged_follows (fun r hr => hvoid r hr) hown)
      (hgood.turn hown hnf hp' fun r hr => hvoid r hr) fun r hr => ?_
    have hret : p ≠ .retiring := fun he => by rw [he] at hown; exact nomatch hown
    rw [Thread.answersFor, if_neg hret, hnone] at hr
    cases hr
  have hlast : ∀ r : ℕ, (s.core.runtime = some r ∨ none = some r) → s.core.closes r = 1 ∨ s.core.runtime = some r :=
    fun r hr => hr.elim .inr nofun
  have hreceive : ∀ {p' : ReconnectAt}, p.owns = true → p ≠ .failing → p.held = none →
      p' ≠ .failing ∧ p' ≠ .retiring → p'.held = some s.core.returned →
      Inv (s.move i (.go s.core.connector (.networkChanged g cur p'))) := by
    intro p' hown hnf hnone hp' hheld
    have hret : p ≠ .retiring := fun he => by rw [he] at hown; exact nomatch hown
    refine h.receive hi rfl rfl (fun _ => hown) rfl hheld ((if_neg hp'.2).trans hheld) ((if_neg hret).trans hnone) ?_
    refine ⟨hgood.known, fun _ => hgood.owner hown, fun _ _ => hgood.intact hown hnf, fun he => absurd he hp'.1,
      fun he => absurd he hp'.2, fun r hr => ?_⟩
    cases hheld.symm.trans hr
    exact fresh_connector h.shared
  cases p with
  | probing =>
    refine hturn rfl nofun ?_ ?_ rfl
    · split <;> exact ⟨nofun, nofun⟩
    · split <;> rfl
  | confirming =>
    simp only [networkChangedStep]
    split
    · rename_i hc
      exact inv_reconnect_confirm hc h hi
    · exact h.last hi ⟨rfl, rfl, rfl, rfl, rfl⟩ rfl h.shared (fun v hv _ => hv) (fun _ hr => hr) hlast
  | attempting n =>
    cases o with
    | ok | refused => exact hreceive rfl nofun rfl ⟨nofun, nofun⟩ rfl
    | failed => exact hturn rfl nofun (nextAttempt_ne n) (nextAttempt_held n) rfl
    | stopped => exact hturn rfl nofun ⟨nofun, nofun⟩ rfl rfl
  | refusing n r =>
    have hfresh := hgood.held r rfl
    have hne : cur ≠ r := fun he => hfresh.not_published (he ▸ hgood.known)
    have hvoid : ∀ {Q : Prop} x, (nextAttempt n).held = some x → Q := fun x hx =>
      absurd ((nextAttempt_held n).symm.trans hx) nofun
    refine h.closeRuntime hi (.inl rfl) (networkChanged_follows (fun x hx => hvoid x hx) rfl) ?_
      fun x hx => (some.inj hx).symm
    exact ⟨hgood.known, fun _ => hgood.owner rfl, fun _ _ hopen => (closeRuntime_ne hne).trans (hgood.intact rfl nofun hopen),
      fun he => absurd he (nextAttempt_ne n).1, fun he => absurd he (nextAttempt_ne n).2, fun x hx => hvoid x hx⟩
  | installing r =>
    simp only [networkChangedStep]
    split
    · rename_i hc
      exact inv_reconnect_install hc h hi
    · exact h.turn hi (networkChanged_follows (fun _ hr => hr) rfl) (hgood.turn rfl nofun ⟨nofun, nofun⟩ hgood.held)
        fun _ hr => hr
  | discarding r => exact h.closeRuntime_last hi (.inl rfl) rfl fun x hx => (some.inj hx).symm
  | retiring =>
    exact h.closeRuntime_last hi (.inr ⟨hgood.known, .inr (.inl (hgood.replaced rfl))⟩) rfl
      fun x hx => (some.inj hx).symm
  | givingUp =>
    refine h.closeRuntime hi (.inr ⟨hgood.known, .inr (.inr rfl)⟩) (networkChanged_follows nofun rfl) ?_ nofun
    exact ⟨hgood.known, fun _ => hgood.owner rfl, fun _ hnf => absurd rfl hnf, fun _ => closeRuntime_self (h.shared.once cur),
      nofun, nofun⟩
  | failing =>
    simp only [networkChangedStep]
    split
    · rename_i hc
      exact inv_reconnect_fail hc h hi
    · exact h.last hi ⟨rfl, rfl, rfl, rfl, rfl⟩ rfl h.shared (fun v hv _ => hv) (fun _ hr => hr) hlast

end Reconnect

/-! ## `monitor` -/

section Monitor

variable {s : System} {i g d r : ℕ} {p : MonitorAt}

theorem MonitorGood.turn {c : Core} {p p' : MonitorAt} (h : MonitorGood c g d r p)
    (hp' : p'.isClosing = true → c.closed = true ∨ c.runtime ≠ some r) : MonitorGood c g d r p' :=
  { h with letGo := hp' }

theorem monitor_follows {p p' : MonitorAt} : Follows (.monitor g d r p) (.monitor g d r p') := ⟨rfl, nofun, rfl, id, rfl⟩

theorem inv_monitor_release (h : Inv s) {e : WaitErr} (hi : Live s.threads i (.monitor g d r (.deciding e)))
    (hown : s.core.owned g r) (hre : ¬ s.core.reconnecting g r) (state : SnapshotState) :
    Inv (s.move i (.go (s.core.release state) (.monitor g d r (.closing true e)))) := by
  obtain ⟨hopen, hg, hrun⟩ := hown
  have hgood : MonitorGood s.core g d r (.deciding e) := h.pool.good i _ hi
  have hstate : s.core.state ≠ .reconnecting := fun hs => hre ⟨hopen, hg, hrun, hs⟩
  refine h.follow hi ⟨rfl, rfl, rfl, rfl, rfl⟩ monitor_follows (h.shared.release hopen)
    (fun v hv _ => hv.release hopen (not_owns_of_state hv hopen hstate))
    ⟨hgood.opened, hgood.known, nofun, fun _ => .inr nofun⟩ (fun _ hx => hx) ?_
  rintro x (hx | hx)
  · exact .inr (.inr (hrun.symm.trans hx))
  · cases hx

theorem inv_monitorStep (h : Inv s) (hi : Live s.threads i (.monitor g d r p)) (o : Outcome) :
    Inv (s.move i (monitorStep s.core o g d r p)) := by
  have hgood : MonitorGood s.core g d r p := h.pool.good i _ hi
  cases p with
  | waiting => exact h.turn hi monitor_follows (hgood.turn nofun) nofun
  | returned e =>
    refine h.follow hi ⟨rfl, rfl, rfl, rfl, rfl⟩ monitor_follows h.shared.storeWaited (fun v hv _ => hv.storeWaited)
      { hgood with letGo := nofun } (fun _ hx => hx) fun x hx => hx.elim (fun hrun => .inr (.inl hrun)) nofun
  | deciding e =>
    simp only [monitorStep]
    split
    · exact h.turn hi monitor_follows (hgood.turn nofun) nofun
    rename_i hre
    split
    · rename_i hown
      exact inv_monitor_release h hi hown hre _
    · rename_i hown
      refine h.turn hi monitor_follows (hgood.turn fun _ => ?_) nofun
      cases hclosed : s.core.closed with
      | true => exact .inl rfl
      | false => exact .inr fun hrun => hown ⟨hclosed, hgood.current hclosed hrun, hrun⟩
  | closing owned e =>
    refine h.closeRuntime hi (.inr ⟨hgood.known, (hgood.letGo rfl).imp id .inl⟩) monitor_follows ?_
      fun x hx => (some.inj hx).symm
    exact { hgood with letGo := fun _ => hgood.letGo rfl }
  | reporting =>
    simp only [monitorStep]
    split
    · rename_i hc
      obtain ⟨hopen, _, hrun, hstate⟩ := hc
      refine h.follow hi ⟨rfl, rfl, rfl, rfl, rfl⟩ monitor_follows (h.shared.enter hopen (fun _ => hrun) nofun)
        (fun v hv _ => hv.enter (fun e he => ⟨he, hstate ▸ by decide⟩) (not_owns_of_state hv hopen (hstate ▸ by decide)))
        { hgood with letGo := nofun } (fun _ hx => hx) fun x hx =>
          hx.elim (fun hrun => .inr (.inl hrun)) nofun
    · exact h.turn hi monitor_follows (hgood.turn nofun) nofun
  | finishing => exact h.finish hi rfl rfl

end Monitor

/-! ## `shutdown` -/

section Shutdown

variable {s : System} {i : ℕ} {d r : Option ℕ} {p : ShutdownAt}

theorem idle_iff : s.idle = true ↔ ∀ j t, Live s.threads j t → t.isWorker = false := by
  constructor
  · intro h j t hj
    have hall := all_eq_true.1 h _ (mem_of_getElem? hj)
    simpa using hall
  intro h
  refine all_eq_true.2 fun x hx => ?_
  obtain ⟨j, hj⟩ := mem_iff_getElem?.1 hx
  cases x with
  | none => rfl
  | some t => simpa using h j t hj

/-- when the wait group is empty `shutdown` is the only thread left -/
theorem shutdown_alone (h : Inv s) (hi : Live s.threads i (.shutdown d r p)) (hidle : s.idle = true) {j : ℕ} {t : Thread}
    (hj : Live s.threads j t) : j = i := by
  by_contra hne
  rcases (h.pool.apart i j _ t (Ne.symm hne) hi hj).worker with hw | hw
  · cases hw
  · exact absurd ((idle_iff.1 hidle j t hj).symm.trans hw) (by decide)

theorem inv_shutdown_complete (h : Inv s) (hi : Live s.threads i (.shutdown d r .draining)) (hidle : s.idle = true) :
    Inv (s.move i { core := { s.core.release .disconnected with closeDone := s.core.closeDone.map (· + 1) } }) := by
  have hgood : ShutdownGood s.core r .draining := h.pool.good i _ hi
  have hdead : ∀ j t, ¬ Live (Pool.moved s.threads i none none) j t := by
    intro j t hj
    rcases Pool.live_moved hj with ⟨hne, hold⟩ | ⟨_, hn⟩ | ⟨_, hn⟩
    · exact hne (shutdown_alone h hi hidle hold)
    · cases hn
    · cases hn
  have hone : s.core.closeDone.map (· + 1) = some 1 := by rw [hgood.pending]; rfl
  refine ⟨?_, ⟨fun j t hj => absurd hj (hdead j t), fun j k t u _ hj => absurd hj (hdead j t)⟩, fun x hx => ?_,
    fun e he => ?_, fun _ => ⟨rfl, rfl, hdead⟩⟩
  · exact { h.shared with
      known := nofun
      inactive := fun _ _ => rfl
      ended := fun _ => .inr rfl
      running := fun hc => absurd (hgood.closed.symm.trans hc) (by decide)
      closing := fun _ => .inr hone
      intact := nofun }
  · refine .inl ?_
    rcases h.answered x hx with hclosed | hrun | ⟨j, t, hj, hans⟩
    · exact hclosed
    · exact hgood.shut nofun x (hgood.current.symm.trans hrun)
    obtain rfl := shutdown_alone h hi hidle hj
    obtain rfl := hi.unique hj
    cases hans
  · refine .inl ?_
    rcases h.doneAnswered e he with hclosed | ⟨j, t, hj, hdone⟩
    · exact hclosed
    obtain rfl := shutdown_alone h hi hidle hj
    obtain rfl := hi.unique hj
    cases hdone

theorem inv_shutdownStep (h : Inv s) (hi : Live s.threads i (.shutdown d r p)) :
    Inv (s.move i (shutdownStep s.core s.idle d r p)) := by
  have hgood : ShutdownGood s.core r p := h.pool.good i _ hi
  have hfollows : ∀ {p' : ShutdownAt}, Follows (.shutdown d r p) (.shutdown d r p') := ⟨rfl, nofun, rfl, id, rfl⟩
  have hturn : ∀ {p' : ShutdownAt}, p ≠ .closing →
      Inv (s.move i (.go s.core (.shutdown d r p'))) := fun hp =>
    h.turn hi hfollows { hgood with shut := fun _ => hgood.shut hp } nofun
  cases p with
  | closing =>
    cases r with
    | none => exact h.turn hi hfollows { hgood with shut := nofun } nofun
    | some x =>
      have hknown := h.shared.known x hgood.current
      refine h.closeRuntime hi (.inr ⟨hknown, .inl hgood.closed⟩) hfollows ?_ nofun
      refine { hgood with shut := fun _ y hy => ?_ }
      cases hy
      exact closeRuntime_self (h.shared.once x)
  | waiting =>
    simp only [shutdownStep]
    split <;> exact hturn nofun
  | draining =>
    simp only [shutdownStep]
    split
    · rename_i hidle
      exact inv_shutdown_complete h hi hidle
    · exact hturn nofun

end Shutdown

/-! ## The calls, and whole runs -/

section Runs

variable {s : System}

/-- the step rule for a call that starts a thread -/
theorem Inv.start (h : Inv s) {c' : Core} {t : Thread} (shared : Shared c') (others : ∀ v, Good s.core v → Good c' v)
    (still : s.core.closed = true → c'.closed = true) (born : Good c' t) (apart : ∀ v, Good s.core v → Apart c' t v)
    (hreturned : c'.returned = s.core.returned) (hcloses : c'.closes = s.core.closes) (hruntime : c'.runtime = s.core.runtime)
    (hdoneCloses : c'.doneCloses = s.core.doneCloses) (hmade : ∀ d, s.core.made ≤ d → d < c'.made → t.done = some d)
    (hdone : c'.closeDone ≠ some 1) : Inv { core := c', threads := s.threads ++ [some t] } := by
  refine ⟨shared, ?_, fun r hr => ?_, fun d hd => ?_, fun hc => absurd hc hdone⟩
  · exact h.pool.spawn Apart.symm others (fun _ _ ha => ha.closed still) born apart
  · rw [hcloses, hruntime]
    refine (h.answered r (hreturned ▸ hr)).imp id (.imp id ?_)
    rintro ⟨j, u, hj, hu⟩
    exact ⟨j, u, Pool.live_append_of_live _ hj, hu⟩
  · rw [hdoneCloses]
    rcases lt_or_ge d s.core.made with hlt | hge
    · refine (h.doneAnswered d hlt).imp id ?_
      rintro ⟨j, u, hj, hu⟩
      exact ⟨j, u, Pool.live_append_of_live _ hj, hu⟩
    · exact .inr ⟨_, t, Pool.live_append_new _ _, hmade d hge hd⟩

theorem Shared.closeDone_ne (h : Shared s.core) (hopen : s.core.closed = false) : s.core.closeDone ≠ some 1 := by
  rw [h.running hopen]
  exact nofun

theorem inv_connect (h : Inv s) : Inv s.connect := by
  unfold System.connect
  split
  · exact h
  rename_i hgo
  obtain ⟨hclosed, hactive⟩ := not_or.1 hgo
  have hopen : s.core.closed = false := Bool.eq_false_iff.2 hclosed
  have hrun := h.shared.inactive hopen (not_isSome_iff_eq_none.1 hactive)
  refine h.start ?_ (fun v hv => ?_) id ⟨⟨lt_succ_self _, h.shared.unmade _ le_rfl⟩, fun _ _ => ⟨rfl, hrun⟩, nofun⟩
    (fun v hv => ⟨fun d hd hvd => ?_, nofun, nofun, nofun, .inl rfl⟩) rfl rfl rfl rfl
    (fun d hge hlt => congrArg some (le_antisymm hge (le_of_lt_succ hlt))) (h.shared.closeDone_ne hopen)
  · exact { h.shared with
      unmade := fun d hd => h.shared.unmade d (le_of_succ_le hd)
      inactive := nofun
      ended := fun hc => absurd hc hclosed
      intact := nofun }
  · cases v with
    | connect g d p =>
      refine ⟨⟨lt_succ_of_lt hv.opened.1, hv.opened.2⟩, fun _ ha => ?_, hv.held⟩
      exact absurd (some.inj ha) (ne_of_gt hv.opened.1)
    | networkChanged g cur p =>
      refine { hv with owner := fun hown _ => ?_ }
      exact absurd hrun (reconnecting_of_owns hv hown hopen).2
    | monitor g d x p =>
      exact ⟨⟨lt_succ_of_lt hv.opened.1, hv.opened.2⟩, hv.known, fun _ hx => absurd (hrun.symm.trans hx) nofun, hv.letGo⟩
    | shutdown d x p => exact absurd hv.closed hclosed
  · cases hd
    exact absurd (openDone_of_done hv hvd).1 (lt_irrefl _)

theorem inv_networkChanged (h : Inv s) : Inv s.networkChanged := by
  unfold System.networkChanged
  cases hrun : s.core.runtime with
  | none => exact h
  | some r =>
    simp only
    split
    · exact h
    rename_i hgo
    obtain ⟨hclosed, hstate⟩ := not_or.1 hgo
    have hopen : s.core.closed = false := Bool.eq_false_iff.2 hclosed
    have hconn : s.core.state = .connected := not_not.1 hstate
    have hnot : ∀ v, Good s.core v → v.owns = false := fun v hv => not_owns_of_state hv hopen (hconn ▸ by decide)
    refine h.start (h.shared.enter hopen (h.shared.inactive hopen) nofun)
      (fun v hv => hv.enter (fun e he => ⟨he, hconn ▸ by decide⟩) (hnot v hv)) id ?_
      (fun v hv => ⟨nofun, nofun, nofun, fun _ hown => absurd (hown.symm.trans (hnot v hv)) (by decide), .inl rfl⟩) rfl rfl rfl rfl
      (fun d hge hlt => absurd hlt (not_lt.2 hge)) (h.shared.closeDone_ne hopen)
    exact ⟨h.shared.known r hrun, fun _ _ => ⟨hopen, rfl, hrun, rfl⟩, fun _ _ _ => h.shared.intact hconn r hrun, nofun,
      nofun, nofun⟩

theorem inv_close (h : Inv s) : Inv s.close := by
  unfold System.close
  cases hdone : s.core.closeDone with
  | some n => exact h
  | none =>
    have hopen : s.core.closed = false := by
      cases hclosed : s.core.closed with
      | false => rfl
      | true => rcases h.shared.closing hclosed with he | he <;> cases hdone.symm.trans he
    refine h.start ?_ (fun v hv => ?_) (fun _ => rfl) ⟨rfl, rfl, rfl, fun hp => absurd rfl hp⟩
      (fun v hv => ⟨nofun, nofun, nofun, nofun, .inr ?_⟩) rfl rfl rfl rfl (fun d hge hlt => absurd hlt (not_lt.2 hge)) nofun
    · exact { h.shared with
        inactive := nofun
        ended := fun _ => .inl rfl
        running := nofun
        closing := fun _ => .inl rfl
        intact := nofun }
    · cases v with
      | connect g d p => exact ⟨hv.opened, nofun, hv.held⟩
      | networkChanged g cur p => exact { hv with owner := nofun, intact := nofun }
      | monitor g d x p => exact ⟨hv.opened, hv.known, nofun, fun _ => .inl rfl⟩
      | shutdown d x p => exact absurd (hv.closed.symm.trans hopen) (by decide)
    · cases v with
      | shutdown d x p => exact absurd (hv.closed.symm.trans hopen) (by decide)
      | connect g d p | networkChanged g cur p | monitor g d x p => rfl

/-- **One step** of any thread or call keeps the invariant. -/
theorem step_inv (s : System) (o : Op) (h : Inv s) : Inv (step s o) := by
  cases o with
  | connect => exact inv_connect h
  | networkChanged => exact inv_networkChanged h
  | close => exact inv_close h
  | run i o =>
    simp only [step]
    split
    · rename_i t hi
      cases t with
      | connect g d p => exact inv_connectStep h hi o
      | networkChanged g cur p => exact inv_networkChangedStep h hi o
      | monitor g d r p => exact inv_monitorStep h hi o
      | shutdown d r p => exact inv_shutdownStep h hi
    · exact h

theorem new_inv : Inv .new where
  shared :=
    { unreturned := fun _ _ => ⟨rfl, rfl⟩
      unmade := fun _ _ => rfl
      once := fun _ => zero_le 1
      doneOnce := fun _ => zero_le 1
      known := nofun
      inactive := fun _ _ => rfl
      ended := nofun
      running := fun _ => rfl
      closing := nofun
      intact := nofun }
  pool := PoolInv.nil _
  answered := fun _ h => absurd h (not_lt_zero _)
  doneAnswered := fun _ h => absurd h (not_lt_zero _)
  completed := nofun

theorem run_inv (ops : List Op) : Inv (run .new ops) := Machine.run_inv step_inv new_inv ops

end Runs

/-! ## Ownership -/

/-- `r` is the runtime the snapshot shows as connected -/
def Published (c : Core) (r : ℕ) : Prop := c.state = .connected ∧ c.runtime = some r

/-- what the core promises of runtimes and channels -/
structure Accounted (s : System) : Prop where
  closedOnce : ∀ r, s.core.closes r ≤ 1
  publishedOpen : ∀ r, Published s.core r → s.core.closes r = 0
  onePublished : ∀ r r', Published s.core r → Published s.core r' → r = r'
  doneOnce : ∀ d, s.core.doneCloses d ≤ 1
  /-- a done channel is closed, or a live thread is going to close it -/
  doneClosed : ∀ d, d < s.core.made → s.core.doneCloses d = 1 ∨ ∃ i t, Live s.threads i t ∧ t.done = some d
  closeDoneOnce : ∀ n, s.core.closeDone = some n → n ≤ 1
  completed : s.core.closeDone = some 1 →
    (∀ r, r < s.core.returned → s.core.closes r = 1) ∧ (∀ d, d < s.core.made → s.core.doneCloses d = 1) ∧
      s.core.state = .disconnected

/-- **Ownership.** In every interleaving of `Connect`, `NetworkChanged`, `Close` and the monitors, with every outcome of the
connector, the probes and the handovers, each runtime and each channel is closed at most once, the published runtime is open,
and once the channel of `Close` is closed every runtime and every channel is closed and the snapshot says disconnected. -/
theorem runtimes_accounted (ops : List Op) : Accounted (run .new ops) := by
  have h := run_inv ops
  refine ⟨h.shared.once, fun r hr => h.shared.intact hr.1 r hr.2, fun r r' hr hr' => ?_, h.shared.doneOnce, h.doneAnswered,
    fun n hn => ?_, fun hc => ?_⟩
  · exact Option.some.inj (hr.2.symm.trans hr'.2)
  · cases hclosed : (run .new ops).core.closed with
    | false => cases (h.shared.running hclosed).symm.trans hn
    | true =>
      rcases h.shared.closing hclosed with he | he
      · cases he.symm.trans hn
        exact Nat.zero_le 1
      · cases he.symm.trans hn
        exact le_rfl
  · obtain ⟨hstate, hrun, hdead⟩ := h.completed hc
    refine ⟨fun r hr => ?_, fun d hd => ?_, hstate⟩
    · rcases h.answered r hr with hone | hcur | ⟨i, t, hi, _⟩
      · exact hone
      · cases hrun.symm.trans hcur
      · exact absurd hi (hdead i t)
    · rcases h.doneAnswered d hd with hone | ⟨i, t, hi, _⟩
      · exact hone
      · exact absurd hi (hdead i t)

/-- a connection and a `Close` that runs to its end -/
example : (run .new ([.connect, .run 0 .ok, .run 0 .ok, .close, .run 2 .ok] ++ List.replicate 5 (.run 1 .ok) ++
    [.run 2 .ok, .run 2 .ok])).core.closeDone = some 1 := by decide

end NeProto.Clientcore
