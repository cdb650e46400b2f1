/-
The books of the tracker: what an entry of the state says about the open sessions of its user, and what each change that
`internal/usage/tracker.go` makes in memory does to it.

- `tally`: a sum over the open sessions of a user; the counts of sessions and of devices are tallies of ones.
- `Exact`: what an entry's traffic is made of, with and without a pending reset.
- `Books`: every entry is exact and every count is a tally. `Working`: the books in memory, while a call holds the lock.
- one lemma for each change: `Working.prune`, `.ensureUser`, `.applyReset`, `.sampleSession`, `.register`, `.endSession`.
-/
import NeProto.Usage.Edits

namespace NeProto.Usage

open Counters Device Function List Nat

open Protocol (DeviceID)

/-! ## Counters -/

inductive Direction where
  | upload
  | download

namespace Counters

/-- the counter of one direction -/
def of (c : Counters) : Direction → ℕ
  | .upload => c.upload
  | .download => c.download

@[simp] theorem of_zero (d : Direction) : zero.of d = 0 := by cases d <;> rfl

@[simp] theorem of_add (a b : Counters) (d : Direction) : (a.add b).of d = a.of d + b.of d := by cases d <;> rfl

@[simp] theorem of_growth (a b : Counters) (d : Direction) : (a.growth b).of d = b.of d - a.of d := by cases d <;> rfl

@[simp] theorem of_saturatingAdd (a b : Counters) (d : Direction) :
    (a.saturatingAdd b).of d = Usage.saturatingAdd (a.of d) (b.of d) := by
  cases d <;> rfl

theorem ext_of {a b : Counters} (h : ∀ d, a.of d = b.of d) : a = b := by
  have hup := h .upload
  have hdown := h .download
  cases a
  simp only [of] at hup hdown
  rw [hup, hdown]

end Counters

/-! ## Sums over sessions -/

/-- what the sessions of a user add up to -/
def tally (sessions : List Tracked) (id : Str) (g : Tracked → ℕ) : ℕ :=
  (sessions.map fun t => if t.userID = id then g t else 0).sum

section Tally

variable {sessions sessions' : List Tracked} {id : Str} {g g' : Tracked → ℕ}

theorem tally_cons (t : Tracked) : tally (t :: sessions) id g = (if t.userID = id then g t else 0) + tally sessions id g := rfl

theorem tally_append : tally (sessions ++ sessions') id g = tally sessions id g + tally sessions' id g := by
  rw [tally, map_append, sum_append_nat, tally, tally]

theorem tally_perm (h : sessions.Perm sessions') : tally sessions id g = tally sessions' id g :=
  (h.map _).sum_eq

theorem tally_map {f : Tracked → Tracked} (hf : ∀ t, (f t).userID = t.userID) :
    tally (sessions.map f) id g = tally sessions id (g ∘ f) := by
  rw [tally, map_map]
  congr 2
  funext t
  simp [hf t]

theorem tally_congr (h : ∀ t ∈ sessions, t.userID = id → g t = g' t) : tally sessions id g = tally sessions id g' := by
  rw [tally, tally, map_congr_left fun t ht => ?_]
  split
  next hid => exact h t ht hid
  next => rfl

theorem tally_le (h : ∀ t ∈ sessions, t.userID = id → g t ≤ g' t) : tally sessions id g ≤ tally sessions id g' := by
  refine sum_le_sum fun t ht => ?_
  split
  next hid => exact h t ht hid
  next => exact le_rfl

/-- a user whose count is zero has no session -/
theorem not_mem_of_tally (h : tally sessions id (fun _ => 1) = 0) {t : Tracked} (ht : t ∈ sessions) : t.userID ≠ id := by
  intro hid
  have hle : 1 ≤ tally sessions id fun _ => 1 := by
    refine le_trans ?_ (single_le_sum (fun _ _ => zero_le _) _ (mem_map_of_mem ht))
    rw [if_pos hid]
  omega

theorem tally_none (h : ∀ t ∈ sessions, t.userID ≠ id) : tally sessions id g = 0 := by
  refine sum_eq_zero fun x hx => ?_
  obtain ⟨t, ht, rfl⟩ := mem_map.1 hx
  rw [if_neg (h t ht)]

theorem tally_count (sessions : List Tracked) (id : Str) (p : Tracked → Bool) :
    tally sessions id (fun t => if p t then 1 else 0) = sessions.countP fun t => decide (t.userID = id) && p t := by
  induction sessions with
  | nil => rfl
  | cons t rest ih =>
    rw [tally_cons, countP_cons, ih]
    by_cases hid : t.userID = id <;> cases p t <;> simp [hid, add_comm]

/-- **One session of many.** A session can be taken out of a list without repeated identifiers, or be replaced in it. -/
theorem split_session (hd : (sessions.map Tracked.id).Nodup) {t : Tracked} (ht : t ∈ sessions) :
    ∃ rest, sessions.Perm (t :: rest) ∧ (sessions.filter fun x => decide (x.id ≠ t.id)).Perm rest ∧
      ∀ f : Tracked → Tracked, (sessions.map fun x => if x.id = t.id then f x else x).Perm (f t :: rest) := by
  have hperm := perm_cons_erase ht
  have hnodup := (hperm.map Tracked.id).nodup_iff.1 hd
  rw [map_cons, nodup_cons] at hnodup
  have hother : ∀ x ∈ sessions.erase t, x.id ≠ t.id := fun x hx heq => hnodup.1 (heq ▸ mem_map_of_mem hx)
  refine ⟨sessions.erase t, hperm, ?_, fun f => ?_⟩
  · refine (hperm.filter _).trans ?_
    rw [filter_cons_of_neg (by simp), filter_eq_self.2 fun x hx => by simpa using hother x hx]
  · refine (hperm.map _).trans ?_
    rw [map_cons, if_pos rfl, map_congr_left (g := id) fun x hx => by rw [if_neg (hother x hx)]; rfl, map_id]

end Tally

/-! ## Entries -/

/-- the policies have a generation the entry has not adopted -/
def State.Pending (s : State) (u : User) : Prop := ∃ p ∈ s.policies u.userID, u.resetGeneration < p.generation

instance (s : State) (u : User) : Decidable (s.Pending u) := by
  unfold State.Pending
  infer_instance

structure Exact (s : State) (u : User) : Prop where
  totals : ¬ s.Pending u → ∀ d, u.total.of d =
    min (u.settled.of d + tally s.sessions u.userID fun t => t.last.of d - t.base.of d) maxUint64
  based : ¬ s.Pending u → ∀ t ∈ s.sessions, t.userID = u.userID → ∀ d, t.mark.of d ≤ t.base.of d
  settled : ¬ s.Pending u → s.completed u.userID = true → ∀ d, u.settled.of d ≤ (s.ended u.userID).of d
  cleared : s.Pending u → s.completed u.userID = true → ∀ d, u.total.of d = 0

def Counted (s : State) (users : List User) : Prop :=
  ∀ id, sessionsOf users id = tally s.sessions id (fun _ => 1) ∧
    ∀ device, deviceSessionsOf users id device = tally s.sessions id fun t => if t.deviceID = some device then 1 else 0

structure Tracking (s : State) : Prop where
  distinct : (s.sessions.map Tracked.id).Nodup
  range : ∀ t ∈ s.sessions, 0 < t.id ∧ t.id < 2 ^ 64
  grows : ∀ t ∈ s.sessions, ∀ d, t.base.of d ≤ t.last.of d ∧ t.last.of d ≤ (s.counters t.id).of d
  marked : ∀ t ∈ s.sessions, ∀ d, t.mark.of d ≤ (s.counters t.id).of d

structure Books (s : State) (users : List User) : Prop where
  sound : Sound users
  counted : Counted s users
  exact : ∀ u ∈ users, Exact s u

/-- the books in memory are in order -/
structure Working (s : State) : Prop where
  tracking : Tracking s
  books : Books s s.memory.users

/-- what the books look at -/
structure SameBooks (s s' : State) : Prop where
  sessions : s'.sessions = s.sessions
  counters : s'.counters = s.counters
  policies : s'.policies = s.policies
  completed : s'.completed = s.completed
  ended : s'.ended = s.ended

section Congruence

variable {s s' : State} {u v : User} {users users' : List User}

/-- what an entry's exactness rests on -/
theorem Exact.mono (h : Exact s u) (hsessions : s'.sessions = s.sessions) (hpolicies : s'.policies = s.policies)
    (hcompleted : s'.completed u.userID = true → s.completed u.userID = true) (hended : s'.ended u.userID = s.ended u.userID) :
    Exact s' u := by
  constructor <;> simp only [State.Pending, hsessions, hpolicies, hended]
  · exact h.totals
  · exact h.based
  · exact fun hp hc => h.settled hp (hcompleted hc)
  · exact fun hp hc => h.cleared hp (hcompleted hc)

theorem Exact.congr (h : Exact s u) (hs : SameBooks s s') : Exact s' u :=
  h.mono hs.sessions hs.policies (fun hc => hs.completed ▸ hc) (congrFun hs.ended _)

theorem Counted.congr (h : Counted s users) (hs : s'.sessions = s.sessions) : Counted s' users := by
  unfold Counted
  rw [hs]
  exact h

theorem Counted.map (h : Counted s users) {f : Tracked → Tracked} (hsessions : s'.sessions = s.sessions.map f)
    (hf : ∀ t, (f t).userID = t.userID) (hdevice : ∀ t, (f t).deviceID = t.deviceID) : Counted s' users := by
  intro id
  rw [hsessions, tally_map hf]
  refine ⟨(h id).1, fun device => ?_⟩
  rw [tally_map hf, (h id).2 device]
  refine tally_congr fun t _ _ => ?_
  rw [comp_apply, hdevice]

theorem Counted.same (h : Counted s users) (hsame : SameCounts users users') : Counted s users' :=
  fun id => ⟨(hsame id).1.symm.trans (h id).1, fun device => ((hsame id).2 device).symm.trans ((h id).2 device)⟩

theorem Tracking.congr (h : Tracking s) (hs : SameBooks s s') : Tracking s' := by
  obtain ⟨hsessions, hcounters, -, -, -⟩ := hs
  constructor <;> simp only [hsessions, hcounters]
  · exact h.distinct
  · exact h.range
  · exact h.grows
  · exact h.marked

theorem Books.congr (h : Books s users) (hs : SameBooks s s') : Books s' users :=
  ⟨h.sound, h.counted.congr hs.sessions, fun u hu => (h.exact u hu).congr hs⟩

/-- what the books look at in an entry -/
theorem Exact.entry (h : Exact s u) (hid : v.userID = u.userID) (hgen : v.resetGeneration = u.resetGeneration)
    (htotal : v.total = u.total) (hsettled : v.settled = u.settled) : Exact s v := by
  constructor <;> simp only [State.Pending, hid, hgen, htotal, hsettled]
  · exact h.totals
  · exact h.based
  · exact h.settled
  · exact h.cleared

/-- changes of other users' sessions do not matter -/
theorem Exact.others (h : Exact s u) {f : Tracked → Tracked} (hf : ∀ t, (f t).userID = t.userID)
    (hself : ∀ t ∈ s.sessions, t.userID = u.userID → f t = t) {memory : Persisted} :
    Exact { s with memory := memory, sessions := s.sessions.map f } u := by
  have htally : ∀ g, tally (s.sessions.map f) u.userID g = tally s.sessions u.userID g := by
    intro g
    rw [tally_map hf]
    refine tally_congr fun t ht hid => ?_
    rw [comp_apply, hself t ht hid]
  refine ⟨?_, fun hp t ht hid => ?_, h.settled, h.cleared⟩
  · simp only [htally]
    exact h.totals
  · obtain ⟨x, hx, rfl⟩ := mem_map.1 ht
    rw [hf] at hid
    rw [hself x hx hid]
    exact h.based hp x hx hid

/-- while a reset is pending only the cleared total counts -/
theorem Exact.pending (h : Exact s u) (hp : s'.Pending u) (hpolicies : s'.policies = s.policies)
    (hcompleted : s'.completed = s.completed) : Exact s' u := by
  refine ⟨fun hnot => absurd hp hnot, fun hnot => absurd hp hnot, fun hnot => absurd hp hnot, fun _ => ?_⟩
  rw [hcompleted]
  refine h.cleared ?_
  rwa [State.Pending, hpolicies] at hp

theorem Books.sort (h : Books s users) : Books s (sortUsers users) where
  sound := sortUsers_sound h.sound
  counted := h.counted.same (sortUsers_same h.sound)
  exact := by
    intro v hv
    obtain ⟨u, hu, rfl⟩ := mem_map.1 hv
    exact (h.exact u ((perm_insertionSort _ users).mem_iff.1 hu)).entry rfl rfl rfl rfl

theorem Books.filter (h : Books s users) : Books s (users.filter s.keeps) where
  sound := h.sound.filter _
  counted := h.counted.same (prune_same h.sound)
  exact := fun u hu => h.exact u (mem_of_mem_filter hu)

/-- the entry of an open session -/
theorem Books.entry (h : Books s users) {t : Tracked} (ht : t ∈ s.sessions) : ∃ u, findUser users t.userID = some u := by
  cases hf : findUser users t.userID with
  | some u => exact ⟨u, rfl⟩
  | none =>
    have hzero : tally s.sessions t.userID (fun _ => 1) = 0 := by
      rw [← (h.counted t.userID).1, sessionsOf, hf]
      rfl
    exact absurd rfl (not_mem_of_tally hzero ht)

end Congruence

/-! ## Pruning, new entries and resets -/

section Changes

variable {s : State} {id : Str}

variable {s' : State} {u : User} {x : Tracked} {users : List User}

theorem Working.prune (h : Working s) : Working s.prune :=
  ⟨h.tracking.congr ⟨rfl, rfl, rfl, rfl, rfl⟩, h.books.filter.congr ⟨rfl, rfl, rfl, rfl, rfl⟩⟩

theorem ensureUser_books (s : State) (id : Str) : SameBooks s (s.ensureUser id) := by
  unfold State.ensureUser
  split <;> exact ⟨rfl, rfl, rfl, rfl, rfl⟩

theorem Working.ensureUser (h : Working s) (hid : validUserID id = true) : Working (s.ensureUser id) := by
  have hprepared := ensureUser_prepared h.books.sound hid
  refine ⟨h.tracking.congr (ensureUser_books s id), hprepared.sound,
    (h.books.counted.same hprepared.counts).congr (ensureUser_books s id).sessions, fun u hu => ?_⟩
  refine Exact.congr ?_ (ensureUser_books s id)
  unfold State.ensureUser at hu
  split at hu
  · exact h.books.exact u hu
  rename_i hnone
  rcases mem_append.1 hu with hold | hlast
  · exact h.books.exact u hold
  obtain rfl := mem_singleton.1 hlast
  -- a new user has no session
  have hnot : ∀ t ∈ s.sessions, t.userID ≠ id := by
    intro t ht
    have hzero : tally s.sessions id (fun _ => 1) = 0 := by
      rw [← (h.books.counted id).1, sessionsOf, Option.not_isSome_iff_eq_none.1 hnone]
      rfl
    exact not_mem_of_tally hzero ht
  refine ⟨fun _ d => ?_, fun _ t ht hid => absurd hid (hnot t ht), fun _ _ d => ?_, fun _ _ d => of_zero d⟩
  · rw [of_zero, tally_none hnot]
    rfl
  · rw [of_zero]
    exact zero_le _

/-- a session whose baseline is what it has transferred -/
def State.rebase (s : State) (id : Str) (t : Tracked) : Tracked :=
  if t.userID = id then { t with last := s.counters t.id, base := s.counters t.id } else t

/-- an entry that has adopted a generation -/
def User.adopt (u : User) (generation : ℕ) : User := { u with resetGeneration := generation, total := .zero, settled := .zero }

/-- what `applyReset` does -/
inductive Resets (s : State) (id : Str) (generation : ℕ) : State × Bool → Prop
  | none (habsent : findUser s.memory.users id = none) : Resets s id generation (s, false)
  | adopted (u : User) (hu : findUser s.memory.users id = some u) (hle : generation ≤ u.resetGeneration) :
      Resets s id generation (s, false)
  | applied (u : User) (hu : findUser s.memory.users id = some u) (hlt : u.resetGeneration < generation) :
      Resets s id generation
        ({ s.setUsers (modifyUser s.memory.users id fun u => u.adopt generation) with sessions := s.sessions.map (s.rebase id) }, true)

theorem applyReset_cases (s : State) (id : Str) (generation : ℕ) : Resets s id generation (s.applyReset id generation) := by
  unfold State.applyReset
  split
  next habsent => exact .none habsent
  next u hu =>
    split
    next hle => exact .adopted u hu hle
    next hlt => exact .applied u hu (by omega)

theorem rebase_keeps (s : State) (id : Str) (t : Tracked) :
    (s.rebase id t).userID = t.userID ∧ (s.rebase id t).id = t.id ∧ (s.rebase id t).deviceID = t.deviceID ∧
      (s.rebase id t).mark = t.mark := by
  unfold State.rebase
  split <;> exact ⟨rfl, rfl, rfl, rfl⟩

theorem rebase_self {t : Tracked} (h : t.userID = id) :
    (s.rebase id t).last = s.counters t.id ∧ (s.rebase id t).base = s.counters t.id := by
  rw [State.rebase, if_pos h]
  exact ⟨rfl, rfl⟩

theorem rebase_other {t : Tracked} (h : t.userID ≠ id) : s.rebase id t = t := if_neg h

/-- the sessions read their counters again -/
theorem Tracking.map (h : Tracking s) {f : Tracked → Tracked} (hsessions : s'.sessions = s.sessions.map f)
    (hcounters : s'.counters = s.counters) (hid : ∀ x, (f x).id = x.id)
    (hmark : ∀ x, (f x).mark = x.mark ∨ (f x).mark = s.counters x.id)
    (hgrows : ∀ x ∈ s.sessions, ∀ d, (f x).base.of d ≤ (f x).last.of d ∧ (f x).last.of d ≤ (s.counters x.id).of d) :
    Tracking s' := by
  constructor <;> simp only [hsessions, hcounters, forall_mem_map, hid]
  · have hids : Tracked.id ∘ f = Tracked.id := funext hid
    rw [map_map, hids]
    exact h.distinct
  · exact h.range
  · exact hgrows
  · intro x hx d
    rcases hmark x with hm | hm
    · rw [hm]
      exact h.marked x hx d
    · rw [hm]

theorem rebase_grows (h : Tracking s) (hx : x ∈ s.sessions) (d : Direction) :
    (s.rebase id x).base.of d ≤ (s.rebase id x).last.of d ∧ (s.rebase id x).last.of d ≤ (s.counters x.id).of d := by
  by_cases hid : x.userID = id
  · rw [(rebase_self hid).1, (rebase_self hid).2]
    exact ⟨le_rfl, le_rfl⟩
  · rw [rebase_other hid]
    exact h.grows x hx d

/-- the entry that adopts the generation of its policy -/
theorem Exact.adopt (htracking : Tracking s) {p : Policy} (hp : s.policies u.userID = some p) {memory : Persisted} :
    Exact { s with memory := memory, sessions := s.sessions.map (s.rebase u.userID) } (u.adopt p.generation) := by
  refine ⟨fun _ d => ?_, fun _ t ht hid d => ?_, fun _ _ d => ?_, ?_⟩
  · have hzero : tally (s.sessions.map (s.rebase u.userID)) u.userID (fun t => t.last.of d - t.base.of d) = 0 := by
      rw [tally_map fun t => (rebase_keeps s _ t).1]
      have hnone : tally s.sessions u.userID (fun _ => 0) = 0 := by simp [tally]
      refine (tally_congr fun t _ hid => ?_).trans hnone
      rw [comp_apply, (rebase_self hid).1, (rebase_self hid).2, Nat.sub_self]
    change zero.of d = min (zero.of d + tally (s.sessions.map _) u.userID _) maxUint64
    rw [hzero, of_zero]
    rfl
  · obtain ⟨x, hx, rfl⟩ := mem_map.1 ht
    have hself : x.userID = u.userID := (rebase_keeps s _ x).1.symm.trans hid
    rw [(rebase_keeps s _ x).2.2.2, (rebase_self hself).2]
    exact htracking.marked x hx d
  · change zero.of d ≤ _
    rw [of_zero]
    exact zero_le _
  · rintro ⟨p', hp', hlt⟩
    cases hp.symm.trans hp'
    exact absurd hlt (lt_irrefl _)

theorem adopt_keeps (generation : ℕ) : Keeps fun u => u.adopt generation := fun _ => rfl

theorem Working.applyReset (h : Working s) {p : Policy} (hp : s.policies id = some p) :
    Working (s.applyReset id p.generation).1 := by
  have hquiet := applyReset_quiet s id p.generation
  have hcases := applyReset_cases s id p.generation
  generalize s.applyReset id p.generation = out at hcases hquiet
  cases hcases with
  | none | adopted => exact h
  | applied u hu hlt =>
    refine ⟨h.tracking.map rfl rfl (fun t => (rebase_keeps s id t).2.1) (fun t => .inl (rebase_keeps s id t).2.2.2)
        fun _ => rebase_grows h.tracking, hquiet.sound h.books.sound,
      (h.books.counted.same (hquiet.counts h.books.sound)).map rfl (fun t => (rebase_keeps s id t).1)
        fun t => (rebase_keeps s id t).2.2.1, fun v hv => ?_⟩
    obtain ⟨x, hx, rfl⟩ := mem_map.1 hv
    split
    next hid =>
      subst hid
      exact Exact.adopt h.tracking hp
    next hid =>
      exact (h.books.exact x hx).others (fun t => (rebase_keeps s id t).1) fun t _ ht => rebase_other (ht.trans_ne hid)

/-! ## Sampling -/

/-- the sessions after a sample of `t` -/
def State.sampled (s : State) (t x : Tracked) : Tracked := if x.id = t.id then { x with last := s.counters t.id } else x

def User.charge (u : User) (delta : Counters) : User := { u with total := u.total.saturatingAdd delta }

variable {t : Tracked}

theorem sampled_keeps (s : State) (t x : Tracked) :
    (s.sampled t x).userID = x.userID ∧ (s.sampled t x).id = x.id ∧ (s.sampled t x).deviceID = x.deviceID ∧
      (s.sampled t x).mark = x.mark ∧ (s.sampled t x).base = x.base := by
  unfold State.sampled
  split <;> exact ⟨rfl, rfl, rfl, rfl, rfl⟩

/-- the entry of a tracked session is there -/
theorem sampleSession_eq (h : Books s s.memory.users) (ht : t ∈ s.sessions) :
    s.sampleSession t =
      ({ s.setUsers (modifyUser s.memory.users t.userID fun u => u.charge (t.last.growth (s.counters t.id))) with
          sessions := s.sessions.map (s.sampled t) },
        decide (0 < (t.last.growth (s.counters t.id)).upload ∨ 0 < (t.last.growth (s.counters t.id)).download)) := by
  obtain ⟨u, hu⟩ := h.entry ht
  simp only [State.sampleSession, hu]
  rfl

theorem sampled_grows (h : Tracking s) (hx : x ∈ s.sessions) (d : Direction) :
    (s.sampled t x).base.of d ≤ (s.sampled t x).last.of d ∧ (s.sampled t x).last.of d ≤ (s.counters x.id).of d := by
  have hgrows := h.grows x hx d
  unfold State.sampled
  split
  next heq =>
    rw [heq] at hgrows ⊢
    exact ⟨hgrows.1.trans hgrows.2, le_rfl⟩
  next => exact hgrows

/-- a session is the only one with its identifier -/
theorem Tracking.unique (h : Tracking s) (ht : t ∈ s.sessions) (hx : x ∈ s.sessions) (hid : x.id = t.id) : x = t :=
  inj_on_of_nodup_map h.distinct hx ht hid

/-- the tally grows by what the sample adds -/
theorem tally_sampled (h : Tracking s) (ht : t ∈ s.sessions) (d : Direction) :
    (tally (s.sessions.map (s.sampled t)) t.userID fun x => x.last.of d - x.base.of d) =
      (tally s.sessions t.userID fun x => x.last.of d - x.base.of d) + ((s.counters t.id).of d - t.last.of d) := by
  obtain ⟨rest, hperm, -, hreplace⟩ := split_session h.distinct ht
  have hgrows := h.grows t ht d
  have hsampled := hreplace fun x => { x with last := s.counters t.id }
  change (s.sessions.map (s.sampled t)).Perm _ at hsampled
  rw [tally_perm hsampled, tally_perm hperm, tally_cons, tally_cons, if_pos rfl, if_pos rfl]
  change (s.counters t.id).of d - t.base.of d + _ = _
  omega

/-- the entry of the sampled session -/
theorem Exact.charge (htracking : Tracking s) (ht : t ∈ s.sessions) (h : Exact s u) (hid : u.userID = t.userID)
    (hok : s.Pending u → s.completed u.userID = true → s.counters t.id = t.last) {memory : Persisted} :
    Exact { s with memory := memory, sessions := s.sessions.map (s.sampled t) } (u.charge (t.last.growth (s.counters t.id))) := by
  refine ⟨fun hnot d => ?_, fun hnot y hy hyid d => ?_, h.settled, fun hp hc d => ?_⟩
  · have htotal := h.totals hnot d
    have htally := tally_sampled htracking ht d
    change (u.total.saturatingAdd _).of d = min (u.settled.of d + tally (s.sessions.map _) u.userID _) maxUint64
    rw [of_saturatingAdd, htotal, of_growth, saturatingAdd_eq (min_le_right _ _), hid]
    omega
  · obtain ⟨x, hx, rfl⟩ := mem_map.1 hy
    rw [(sampled_keeps s t x).2.2.2.1, (sampled_keeps s t x).2.2.2.2]
    exact h.based hnot x hx ((sampled_keeps s t x).1.symm.trans hyid) d
  · have hzero := h.cleared hp hc d
    have hlast := hok hp hc
    change (u.total.saturatingAdd _).of d = 0
    rw [of_saturatingAdd, hzero, of_growth, hlast, Nat.sub_self]
    rfl

theorem Working.sampleSession (h : Working s) (ht : t ∈ s.sessions)
    (hok : ∀ u ∈ s.memory.users, u.userID = t.userID → s.Pending u → s.completed u.userID = true → s.counters t.id = t.last) :
    Working (s.sampleSession t).1 := by
  have hquiet := sampleSession_quiet s t
  rw [sampleSession_eq h.books ht] at hquiet ⊢
  refine ⟨h.tracking.map rfl rfl (fun x => (sampled_keeps s t x).2.1) (fun x => .inl (sampled_keeps s t x).2.2.2.1)
      fun _ => sampled_grows h.tracking, hquiet.sound h.books.sound,
    (h.books.counted.same (hquiet.counts h.books.sound)).map rfl (fun x => (sampled_keeps s t x).1)
      fun x => (sampled_keeps s t x).2.2.1, fun v hv => ?_⟩
  obtain ⟨u, hu, rfl⟩ := mem_map.1 hv
  split
  next hid => exact Exact.charge h.tracking ht (h.books.exact u hu) hid (hok u hu hid)
  next hid =>
    refine (h.books.exact u hu).others (fun x => (sampled_keeps s t x).1) fun x hx hxid => ?_
    refine if_neg fun heq => hid ?_
    rw [← hxid, h.tracking.unique ht hx heq]

theorem modifyUser_id {f : User → User} (h : ∀ u ∈ users, u.userID = id → f u = u) : modifyUser users id f = users := by
  rw [modifyUser, map_congr_left (g := fun u => u) fun u hu => ?_, map_id']
  split
  next hid => exact h u hu hid
  next => rfl

/-- a sample that finds no growth changes nothing -/
theorem sampleSession_idle (h : Working s) (ht : t ∈ s.sessions) (hidle : (s.sampleSession t).2 = false) :
    (s.sampleSession t).1 = s := by
  rw [sampleSession_eq h.books ht] at hidle ⊢
  have hzero : ∀ d, (t.last.growth (s.counters t.id)).of d = 0 := by
    intro d
    have hnot := of_decide_eq_false hidle
    cases d <;> simp only [of] <;> omega
  have hlast : s.counters t.id = t.last := by
    refine ext_of fun d => ?_
    have hgrows := h.tracking.grows t ht d
    have hd := hzero d
    rw [of_growth] at hd
    omega
  have hsessions : s.sessions.map (s.sampled t) = s.sessions := by
    rw [map_congr_left (g := fun x => x) fun x hx => ?_, map_id']
    unfold State.sampled
    split
    next heq =>
      rw [h.tracking.unique ht hx heq, hlast]
    next => rfl
  have husers : modifyUser s.memory.users t.userID (fun u => u.charge (t.last.growth (s.counters t.id))) = s.memory.users := by
    refine modifyUser_id fun u _ _ => ?_
    have htotal : u.total.saturatingAdd (t.last.growth (s.counters t.id)) = u.total := by
      refine ext_of fun d => ?_
      rw [of_saturatingAdd, hzero d]
      unfold saturatingAdd
      split <;> omega
    rw [User.charge, htotal]
  simp only [hsessions, husers]
  rfl

/-! ## Admission -/

theorem tally_le_length {sessions : List Tracked} {g : Tracked → ℕ} (hg : ∀ t, g t ≤ 1) : tally sessions id g ≤ sessions.length := by
  induction sessions with
  | nil => exact le_rfl
  | cons t rest ih =>
    have ht := hg t
    rw [tally_cons, length_cons]
    split <;> omega

/-- there are fewer sessions than identifiers -/
theorem Tracking.few (h : Tracking s) {n : ℕ} (hn : 0 < n ∧ n < 2 ^ 64) (hfresh : ∀ t ∈ s.sessions, t.id ≠ n) :
    s.sessions.length < maxUint64 := by
  have hnodup : (n :: s.sessions.map Tracked.id).Nodup := by
    refine nodup_cons.2 ⟨fun hmem => ?_, h.distinct⟩
    obtain ⟨t, ht, rfl⟩ := mem_map.1 hmem
    exact hfresh t ht rfl
  have hsub : (n :: s.sessions.map Tracked.id).toFinset ⊆ Finset.Icc 1 maxUint64 := by
    intro x hx
    have hrange : 0 < x ∧ x < 2 ^ 64 := by
      rcases mem_cons.1 (mem_toFinset.1 hx) with rfl | hx
      · exact hn
      · obtain ⟨t, ht, rfl⟩ := mem_map.1 hx
        exact h.range t ht
    rw [Finset.mem_Icc, maxUint64]
    omega
  have hcard := Finset.card_le_card hsub
  rw [toFinset_card_of_nodup hnodup, card_Icc, length_cons, length_map] at hcard
  omega

theorem nextIdentifier_range (s : State) : 0 < s.nextIdentifier ∧ s.nextIdentifier < 2 ^ 64 := by
  unfold State.nextIdentifier
  split
  · exact ⟨one_pos, by norm_num⟩
  next hne => exact ⟨pos_of_ne_zero hne, mod_lt _ (by norm_num)⟩

/-- the traffic of the entry stays -/
theorem Enrolled.traffic {v : User} {device : DeviceID} {label : Option DeviceID} (h : Enrolled u device v label) :
    v.resetGeneration = u.resetGeneration ∧ v.total = u.total ∧ v.settled = u.settled := by
  cases h <;> exact ⟨rfl, rfl, rfl⟩

/-- a new session, which has transferred nothing since its baseline -/
theorem Exact.append (h : Exact s u) (hlast : x.last = x.base) (hmark : x.mark = x.base)
    (hsessions : s'.sessions = s.sessions ++ [x]) (hpolicies : s'.policies = s.policies) (hcompleted : s'.completed = s.completed)
    (hended : s'.ended = s.ended) : Exact s' u := by
  have htally : ∀ d, (tally s'.sessions u.userID fun t => t.last.of d - t.base.of d) =
      tally s.sessions u.userID fun t => t.last.of d - t.base.of d := by
    intro d
    rw [hsessions, tally_append, tally_cons, hlast]
    simp [tally]
  constructor <;> simp only [State.Pending, hpolicies, hcompleted, hended, htally]
  · exact h.totals
  · intro hp y hy hid d
    rw [hsessions] at hy
    rcases mem_append.1 hy with hold | hnew
    · exact h.based hp y hold hid d
    · obtain rfl := mem_singleton.1 hnew
      rw [hmark]
  · exact h.settled
  · exact h.cleared

theorem Tracking.append (h : Tracking s) (hrange : 0 < x.id ∧ x.id < 2 ^ 64) (hfresh : ∀ y ∈ s.sessions, y.id ≠ x.id)
    (hlast : x.last = x.base) (hmark : x.mark = x.base) (hsessions : s'.sessions = s.sessions ++ [x])
    (hcounters : s'.counters = Function.update s.counters x.id x.last) : Tracking s' := by
  have hold : ∀ y ∈ s.sessions, s'.counters y.id = s.counters y.id := by
    intro y hy
    rw [hcounters, update_of_ne (hfresh y hy)]
  have hnew : s'.counters x.id = x.last := by
    rw [hcounters, update_self]
  have hcases : ∀ y ∈ s'.sessions, y ∈ s.sessions ∨ y = x := by
    intro y hy
    rw [hsessions] at hy
    rcases mem_append.1 hy with hy | hy
    · exact .inl hy
    · exact .inr (mem_singleton.1 hy)
  refine ⟨?_, fun y hy => ?_, fun y hy d => ?_, fun y hy d => ?_⟩
  · rw [hsessions, map_append, nodup_append]
    refine ⟨h.distinct, nodup_singleton _, fun a ha b hb hab => ?_⟩
    obtain ⟨y, hy, rfl⟩ := mem_map.1 ha
    exact hfresh y hy (hab.trans (mem_singleton.1 hb))
  · rcases hcases y hy with hy | rfl
    · exact h.range y hy
    · exact hrange
  · rcases hcases y hy with hy | rfl
    · rw [hold y hy]
      exact h.grows y hy d
    · rw [hnew, hlast]
      exact ⟨le_rfl, le_rfl⟩
  · rcases hcases y hy with hy | rfl
    · rw [hold y hy]
      exact h.marked y hy d
    · rw [hnew, hlast, hmark]

section Register

variable {u v : User} {device : DeviceID} {label : Option DeviceID}

theorem Counted.register {users : List User} (h : Counted s users) (hu : findUser users id = some u) (hv : v.userID = id)
    (hcount : v.count.activeSessions = u.activeSessions + 1)
    (hdevices : ∀ x, Device.sessionsOf v.devices x = Device.sessionsOf u.devices x + if label = some x then 1 else 0)
    {x : Tracked} (hx : x.userID = id) (hlabel : x.deviceID = label) {s' : State} (hsessions : s'.sessions = s.sessions ++ [x]) :
    Counted s' (Usage.counted users id v) := by
  intro id'
  obtain ⟨hsum, hdevice⟩ := h id'
  simp only [hsessions, tally_append, tally_cons, hlabel, hx, sessionsOf, deviceSessionsOf]
  by_cases hid : id' = id
  · subst hid
    simp only [sessionsOf, deviceSessionsOf, hu, Option.map_some, Option.getD_some] at hsum hdevice
    simp only [findUser_counted hv hu, Option.map_some, Option.getD_some, if_true]
    refine ⟨hcount.trans (hsum ▸ rfl), fun y => ?_⟩
    change Device.sessionsOf v.devices y = _
    rw [hdevices, hdevice]
    rfl
  · have hother : findUser (Usage.counted users id v) id' = findUser users id' := by
      rw [counted_eq hv, findUser_modify (named_keeps _), if_neg hid]
    rw [hother, if_neg (Ne.symm hid)]
    refine ⟨hsum, fun y => ?_⟩
    rw [if_neg (Ne.symm hid)]
    exact hdevice y

theorem Working.register (h : Working s) (hu : findUser s.memory.users id = some u) (he : Enrolled u device v label) (first : Counters)
    (hfresh : ∀ t ∈ s.sessions, t.id ≠ s.nextIdentifier) : Working (s.register id v label first) := by
  obtain ⟨hmem, hid⟩ := findUser_mem hu
  have hv : v.userID = id := he.same.1.trans hid
  have hvalid := validateUser_iff.1 (h.books.sound.valid u hmem)
  have hlt : u.activeSessions < maxUint64 := by
    have hfew := h.tracking.few (nextIdentifier_range s) hfresh
    have hcount := (h.books.counted id).1
    rw [sessionsOf, hu] at hcount
    exact (hcount.trans_le (tally_le_length fun _ => le_rfl)).trans_lt hfew
  have hsessions : (s.register id v label first).sessions =
      s.sessions ++ [⟨s.nextIdentifier, id, label, first, first, first⟩] := by
    change s.sessions.filter _ ++ _ = _
    rw [filter_eq_self.2 fun t ht => by simpa using hfresh t ht]
  refine ⟨h.tracking.append (nextIdentifier_range s) hfresh rfl rfl hsessions rfl,
    counted_sound h.books.sound hu he hlt, ?_, fun w hw => ?_⟩
  · refine h.books.counted.register hu hv ?_ (he.sessionsOf hvalid hlt) rfl rfl hsessions
    change saturatingAdd v.activeSessions 1 = _
    rw [he.same.2, saturatingAdd_one hlt]
  · obtain ⟨x, hx, rfl⟩ := mem_map.1 hw
    split
    · exact ((h.books.exact u hmem).entry (v := v.count) he.same.1 he.traffic.1 he.traffic.2.1 he.traffic.2.2).append rfl rfl
        hsessions rfl rfl rfl
    · exact (h.books.exact x hx).append rfl rfl hsessions rfl rfl rfl

end Register

/-! ## The end of a session -/

/-- a session has at most one device -/
theorem one_device {devices : List DeviceID} (hd : devices.Nodup) (label : Option DeviceID) :
    (devices.map fun x => if label = some x then 1 else 0).sum ≤ 1 := by
  induction devices with
  | nil => exact zero_le _
  | cons x rest ih =>
    rw [nodup_cons] at hd
    rw [map_cons, sum_cons]
    split
    next hx =>
      have hzero : (rest.map fun y => if label = some y then 1 else 0).sum = 0 := by
        refine sum_eq_zero fun n hn => ?_
        obtain ⟨y, hy, rfl⟩ := mem_map.1 hn
        refine if_neg fun hlabel => hd.1 ?_
        rwa [Option.some.inj (hx.symm.trans hlabel)]
      omega
    next =>
      have := ih hd.2
      omega

/-- **Devices and users.** The sessions of distinct devices are among those of the user. -/
theorem tally_devices {devices : List DeviceID} (hd : devices.Nodup) (sessions : List Tracked) (id : Str) :
    (devices.map fun x => tally sessions id fun t => if t.deviceID = some x then 1 else 0).sum ≤
      tally sessions id fun _ => 1 := by
  induction sessions with
  | nil =>
    refine (sum_eq_zero fun n hn => ?_).le
    obtain ⟨y, hy, rfl⟩ := mem_map.1 hn
    rfl
  | cons t rest ih =>
    simp only [tally_cons, sum_map_add]
    split
    · exact Nat.add_le_add (one_device hd t.deviceID) ih
    · simpa using ih

theorem Counted.active_le (h : Counted s users) (hd : (ids users).Nodup) (hu : u ∈ users)
    (hdevices : (u.devices.map Device.deviceID).Nodup) : activeSum u.devices ≤ u.activeSessions := by
  have hfind := (findUser_iff hd).2 ⟨hu, rfl⟩
  obtain ⟨hsum, hdevice⟩ := h u.userID
  rw [sessionsOf, hfind] at hsum
  have hcount : u.activeSessions = tally s.sessions u.userID fun _ => 1 := hsum
  have hactive : activeSum u.devices =
      ((u.devices.map deviceID).map fun x => tally s.sessions u.userID fun t => if t.deviceID = some x then 1 else 0).sum := by
    rw [activeSum, map_map]
    congr 1
    refine map_congr_left fun d hmem => ?_
    rw [comp_apply, ← hdevice, deviceSessionsOf, hfind, Option.map_some, Device.sessionsOf,
      (find_by_iff hdevices).2 ⟨hmem, rfl⟩]
    rfl
  rw [hactive, hcount]
  exact tally_devices hdevices _ _

/-- the end of a session in the entry of its user -/
def User.leave (u : User) (t : Tracked) : User :=
  { decrementUserSession u t.deviceID with settled := u.settled.add (t.base.growth t.last) }

theorem leave_keeps (t : Tracked) : Keeps fun u => u.leave t := fun _ => rfl

theorem leave_devices (u : User) (t : Tracked) (x : DeviceID) :
    Device.sessionsOf (u.leave t).devices x = Device.sessionsOf u.devices x - if t.deviceID = some x then 1 else 0 :=
  decrement_devices u t.deviceID x

theorem Counted.leave (h : Counted s users) (htracking : Tracking s) (ht : t ∈ s.sessions) :
    Counted (s.endSession t) (modifyUser users t.userID fun u => u.leave t) := by
  obtain ⟨rest, hperm, hfilter, -⟩ := split_session htracking.distinct ht
  intro id'
  obtain ⟨hsum, hdevice⟩ := h id'
  simp only [tally_perm hperm, tally_cons] at hsum hdevice
  simp only [State.endSession, tally_perm hfilter, sessionsOf, deviceSessionsOf, findUser_modify (leave_keeps t)]
  simp only [sessionsOf, deviceSessionsOf] at hsum hdevice
  by_cases hid : id' = t.userID
  · subst hid
    simp only [if_true] at hsum hdevice ⊢
    cases hf : findUser users t.userID with
    | none =>
      rw [hf] at hsum
      change 0 = 1 + _ at hsum
      omega
    | some u =>
      simp only [hf, Option.map_some, Option.getD_some] at hsum hdevice ⊢
      refine ⟨?_, fun x => ?_⟩
      · change u.activeSessions - 1 = _
        omega
      · rw [leave_devices, hdevice]
        omega
  · rw [if_neg hid]
    rw [if_neg (Ne.symm hid), zero_add] at hsum
    refine ⟨hsum, fun x => ?_⟩
    have hx := hdevice x
    rwa [if_neg (Ne.symm hid), zero_add] at hx

theorem leave_enrolled (u : User) (t : Tracked) :
    (u.leave t).devices.map Device.deviceID = u.devices.map Device.deviceID := by
  change (u.devices.map _).map _ = _
  rw [map_map]
  refine map_congr_left fun d _ => ?_
  rw [comp_apply]
  split <;> rfl

theorem leave_valid (h : validateUser u = true) (hactive : activeSum (u.leave t).devices ≤ (u.leave t).activeSessions) :
    validateUser (u.leave t) = true := by
  have hu := validateUser_iff.1 h
  have hids := leave_enrolled u t
  refine validateUser_iff.2 ⟨hu.name, (length_map _).trans_le hu.few, fun d hd => ?_, by rw [hids]; exact hu.distinct, ?_⟩
  · have hmem : d.deviceID ∈ u.devices.map deviceID := hids ▸ mem_map_of_mem hd
    obtain ⟨e, he, heq⟩ := mem_map.1 hmem
    rw [← heq]
    exact hu.nonzero e he
  · rw [foldl_saturatingAdd _ (zero_le _)]
    omega

theorem Tracking.leave (h : Tracking s) (t : Tracked) : Tracking (s.endSession t) where
  distinct := h.distinct.sublist (filter_sublist.map _)
  range := fun x hx => h.range x (mem_of_mem_filter hx)
  grows := fun x hx => h.grows x (mem_of_mem_filter hx)
  marked := fun x hx => h.marked x (mem_of_mem_filter hx)

/-- the entry of the user whose session has ended -/
theorem Exact.leave (htracking : Tracking s) (ht : t ∈ s.sessions) (hlast : t.last = s.counters t.id) (h : Exact s u)
    (hid : u.userID = t.userID) : Exact (s.endSession t) (u.leave t) := by
  obtain ⟨rest, hperm, hfilter, -⟩ := split_session htracking.distinct ht
  refine ⟨fun hnot d => ?_, fun hnot x hx => h.based hnot x (mem_of_mem_filter hx), fun hnot hc d => ?_, h.cleared⟩
  · have htotal := h.totals hnot d
    rw [tally_perm hperm, tally_cons, if_pos hid.symm] at htotal
    change u.total.of d = min ((u.settled.add (t.base.growth t.last)).of d + tally (s.sessions.filter _) u.userID _) maxUint64
    rw [of_add, of_growth, tally_perm hfilter]
    omega
  · have hsettled := h.settled hnot hc d
    have hbased := h.based hnot t ht hid.symm d
    have hended : (s.endSession t).ended t.userID = (s.ended t.userID).add (t.mark.growth (s.counters t.id)) := update_self ..
    change (u.settled.add (t.base.growth t.last)).of d ≤ ((s.endSession t).ended u.userID).of d
    rw [hid] at hsettled ⊢
    rw [hended, of_add, of_growth, of_add, of_growth, hlast]
    omega

/-- the entry of another user -/
theorem Exact.leave_other (htracking : Tracking s) (ht : t ∈ s.sessions) (h : Exact s u) (hid : u.userID ≠ t.userID) :
    Exact (s.endSession t) u := by
  obtain ⟨rest, hperm, hfilter, -⟩ := split_session htracking.distinct ht
  have htally : ∀ g, tally (s.endSession t).sessions u.userID g = tally s.sessions u.userID g := by
    intro g
    simp only [State.endSession]
    rw [tally_perm hfilter, tally_perm hperm, tally_cons, if_neg hid.symm, zero_add]
  have hended : (s.endSession t).ended u.userID = s.ended u.userID := update_of_ne hid _ _
  refine ⟨?_, fun hp x hx => h.based hp x (mem_of_mem_filter hx), ?_, h.cleared⟩
  · simp only [htally]
    exact h.totals
  · rw [hended]
    exact h.settled

theorem Working.endSession (h : Working s) (ht : t ∈ s.sessions) (hlast : t.last = s.counters t.id) : Working (s.endSession t) := by
  have hcounted : Counted (s.endSession t) (s.endSession t).memory.users := h.books.counted.leave h.tracking ht
  have hids : (ids (s.endSession t).memory.users).Nodup := by
    change (ids (modifyUser _ _ fun u => u.leave t)).Nodup
    rw [ids_modify (leave_keeps t)]
    exact h.books.sound.distinct
  refine ⟨h.tracking.leave t, ⟨hids, fun v hv => ?_⟩, hcounted, fun v hv => ?_⟩
  · have hactive := hcounted.active_le hids hv
    obtain ⟨u, hu, rfl⟩ := mem_map.1 hv
    have hvalid := h.books.sound.valid u hu
    split
    next hid =>
      rw [if_pos hid] at hactive
      refine leave_valid hvalid (hactive ?_)
      change ((u.leave t).devices.map deviceID).Nodup
      rw [leave_enrolled]
      exact (validateUser_iff.1 hvalid).distinct
    next => exact hvalid
  · obtain ⟨u, hu, rfl⟩ := mem_map.1 hv
    split
    next hid => exact Exact.leave h.tracking ht hlast (h.books.exact u hu) hid
    next hid => exact (h.books.exact u hu).leave_other h.tracking ht hid

end Changes

end NeProto.Usage
