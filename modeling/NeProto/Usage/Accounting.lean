/-
Usage accounting over whole runs (`internal/usage/tracker.go`): `Admit`, `Session.Close` and `Sample` of the tracker, and the policy
changes, `ResetTraffic` and `RemoveOfflineDevice` of an administrator, in any order, with no write failing.

`Sample` and `Admit` read the policies and apply a raised generation before they count; `Session.Close` counts without reading
them. What a session transferred before a reset, and no sample has seen, is added to the total that `ResetTraffic` has cleared.

- `Accounted`: session counts, totals, and what a reset has removed.
- `usage_accounted`: it holds in every run whose steps are `Orderly`.
- `close_counts_old_bytes`: the close of a session after a reset.
-/
import NeProto.Usage.Ledger

namespace NeProto.Usage

open Function List State

open Protocol (DeviceID)

/-! ## The property -/

/-- what the entries of a list say about the open sessions -/
structure AccountedIn (s : State) (users : List User) : Prop where
  sessions : ∀ id, sessionsOf users id = s.sessions.countP fun t => decide (t.userID = id)
  devices : ∀ id device, deviceSessionsOf users id device =
    s.sessions.countP fun t => decide (t.userID = id) && decide (t.deviceID = some device)
  /-- after a reset only what was transferred since the generation was raised counts -/
  reset : ∀ u ∈ users, s.completed u.userID = true → ∀ d, u.total.of d ≤
    (s.ended u.userID).of d + tally s.sessions u.userID fun t => (s.counters t.id).of d - t.mark.of d
  /-- between resets the totals are the growth since the admission or the last reset applied -/
  totals : ∀ u ∈ users, ¬ s.Pending u → ∀ d, u.total.of d =
    min (u.settled.of d + tally s.sessions u.userID fun t => t.last.of d - t.base.of d) maxUint64

structure Accounted (s : State) : Prop where
  /-- the state the tracker has written -/
  file : ∃ f, s.file = some f ∧ AccountedIn s f.users
  sessions : ∀ id, sessionsOf s.memory.users id = s.sessions.countP fun t => decide (t.userID = id)
  devices : ∀ id device, deviceSessionsOf s.memory.users id device =
    s.sessions.countP fun t => decide (t.userID = id) && decide (t.deviceID = some device)
  /-- the state in memory, unless the file was edited since -/
  memory : s.edited = false → AccountedIn s s.memory.users
  /-- a sample has seen all that was transferred -/
  sampled : ∀ t ∈ (s.sample .ok).1.sessions, t.last = (s.sample .ok).1.counters t.id

/-- no write fails -/
def Op.succeeds : Op → Bool
  | .admitSession _ _ _ w | .close _ w | .sample w => decide (w = .ok)
  | _ => true

/-! ## The condition -/

/-- there are identifiers and entries left; a session that closes over a cleared total has no bytes to add; a total is cleared
by a pending reset; a policy change leaves a pending reset pending, and raises a generation above what the entry has adopted -/
def Orderly (s : State) : Op → Prop
  | .admitSession id _ _ w =>
    w = .ok ∧ (∀ t ∈ s.sessions, t.id ≠ s.nextIdentifier) ∧ ∀ f ∈ s.file, (s.listed f id).length ≤ maximumUsers
  | .close n w =>
    w = .ok ∧ ∀ t ∈ s.sessions, t.id = n → ∀ f ∈ s.file, ∀ u ∈ s.adopted f, u.userID = t.userID → s.Pending u →
      s.completed u.userID = true → s.counters t.id = t.last
  | .sample w => w = .ok
  | .resetTraffic id => ∀ f ∈ s.file, f.revision < maxUint64 ∧ ∀ u ∈ f.users, u.userID = id → s.Pending u ∨ u.total = .zero
  | .removeOfflineDevice _ _ => ∀ f ∈ s.file, f.revision < maxUint64
  | .setPolicies policies => ∀ f ∈ s.file, ∀ u ∈ f.users ++ s.memory.users,
      s.Pending u ∨ State.raised (s.policies u.userID) (policies u.userID) = true → (s.setPolicies policies).Pending u
  | .snapshot | .transfer _ _ => True

instance (s : State) (o : Op) : Decidable (Orderly s o) := by
  cases o <;> unfold Orderly <;> infer_instance

/-! ## The invariant -/

/-- a call that has read the file, before it changes anything -/
structure InCall (s : State) (f : Persisted) : Prop extends Working s where
  file : s.file = some f
  unedited : s.edited = false
  revision : s.memory.revision = f.revision
  stored : Books s f.users
  fits : f.users.length ≤ maximumUsers
  length : s.memory.users.length ≤ maximumUsers
  /-- memory is the file, but for what was pruned and for resets that were applied -/
  derived : ∀ u ∈ s.memory.users, ∃ v ∈ f.users, v.userID = u.userID ∧ v.resetGeneration ≤ u.resetGeneration

/-- between the calls -/
structure Kept (s : State) (f : Persisted) : Prop where
  tracking : Tracking s
  file : s.file = some f
  stored : Books s f.users
  fits : f.users.length ≤ maximumUsers
  counted : Counted s s.memory.users
  stale : s.edited = true → s.memory.revision < f.revision
  current : s.edited = false → InCall s f

variable {s : State} {f : Persisted}

variable {id : Str} {u : User} {p : State × Bool} {users : List User} {revision : ℕ}

theorem InCall.kept (h : InCall s f) : Kept s f where
  tracking := h.tracking
  file := h.file
  stored := h.stored
  fits := h.fits
  counted := h.books.counted
  stale := fun he => absurd he (by rw [h.unedited]; exact Bool.false_ne_true)
  current := fun _ => h

theorem Kept.valid (h : Kept s f) : validateState f = true := validateState_iff.2 ⟨h.fits, h.stored.sound⟩

/-- the users a call works on -/
theorem Kept.read (h : Kept s f) {s' : State} (hr : s.reload = some s') :
    InCall s' f ∧ SameBooks s s' ∧ s'.memory.users = s.adopted f ∧ s'.nextID = s.nextID := by
  rw [reload_some h.file h.valid] at hr
  cases hr
  have hsame : SameBooks s { s with memory := if s.memory.revision < f.revision then f else s.memory, edited := false } :=
    ⟨rfl, rfl, rfl, rfl, rfl⟩
  refine ⟨?_, hsame, ?_, rfl⟩
  · cases he : s.edited with
    | true =>
      have hlt := h.stale he
      refine ⟨⟨h.tracking.congr hsame, ?_⟩, h.file, rfl, ?_, h.stored.congr hsame, h.fits, ?_, ?_⟩ <;>
        simp only [if_pos hlt]
      · exact h.stored.congr ⟨rfl, rfl, rfl, rfl, rfl⟩
      · exact h.fits
      · exact fun u hu => ⟨u, hu, rfl, le_rfl⟩
    | false =>
      have hin := h.current he
      have hnot : ¬ s.memory.revision < f.revision := by
        rw [hin.revision]
        exact lt_irrefl _
      refine ⟨⟨h.tracking.congr hsame, ?_⟩, h.file, rfl, ?_, h.stored.congr hsame, h.fits, ?_, ?_⟩ <;>
        simp only [if_neg hnot]
      · exact hin.books.congr ⟨rfl, rfl, rfl, rfl, rfl⟩
      · exact hin.revision
      · exact hin.length
      · exact hin.derived
  · unfold adopted
    split <;> rfl

/-! ## The write -/

/-- **The write.** Books that are in order in memory are in order in the file. -/
theorem persist_inCall (h : Working s) (he : s.edited = false) (hlen : s.memory.users.length ≤ maximumUsers) :
    ∃ s' f', s.persist .ok = (s', .written) ∧ InCall s' f' ∧ SameBooks s s' := by
  have hvalid : validateState ⟨saturatingAdd s.memory.revision 1, s.memory.users⟩ = true :=
    validateState_iff.2 ⟨hlen, h.books.sound⟩
  let next : Persisted := ⟨saturatingAdd s.memory.revision 1, sortUsers s.memory.users⟩
  have hbooks : Books { s with memory := next, file := some next } next.users := h.books.sort.congr ⟨rfl, rfl, rfl, rfl, rfl⟩
  have hfits : next.users.length ≤ maximumUsers := (sortUsers_length _).trans_le hlen
  refine ⟨{ s with memory := next, file := some next }, next, ?_, ⟨⟨h.tracking.congr ⟨rfl, rfl, rfl, rfl, rfl⟩, hbooks⟩, rfl, he, rfl,
    hbooks, hfits, hfits, fun u hu => ⟨u, hu, rfl, le_rfl⟩⟩, ⟨rfl, rfl, rfl, rfl, rfl⟩⟩
  unfold persist
  dsimp only
  rw [hvalid, if_neg Bool.noConfusion]

/-! ## Admission -/

theorem InCall.prune (h : InCall s f) : InCall s.prune f where
  toWorking := h.toWorking.prune
  file := h.file
  unedited := h.unedited
  revision := h.revision
  stored := h.stored.congr ⟨rfl, rfl, rfl, rfl, rfl⟩
  fits := h.fits
  length := (length_filter_le _ _).trans h.length
  derived := fun u hu => h.derived u (mem_of_mem_filter hu)

/-- a reset that is applied in memory is still pending in the file -/
theorem InCall.applyReset (h : InCall s f) {p : Policy} (hp : s.policies id = some p) :
    InCall (s.applyReset id p.generation).1 f := by
  have hworking := h.toWorking.applyReset hp
  have hquiet := applyReset_quiet s id p.generation
  have hcases := applyReset_cases s id p.generation
  generalize s.applyReset id p.generation = out at hcases hquiet hworking
  cases hcases with
  | none | adopted => exact h
  | applied u hu hlt =>
    obtain ⟨hmem, hid⟩ := findUser_mem hu
    refine ⟨hworking, h.file, h.unedited, h.revision, ⟨h.stored.sound, ?_, fun v hv => ?_⟩, h.fits, ?_, fun v hv => ?_⟩
    · exact h.stored.counted.map rfl (fun t => (rebase_keeps s id t).1) fun t => (rebase_keeps s id t).2.2.1
    · by_cases hvid : v.userID = id
      · -- the entry in the file has no later generation than the one in memory
        obtain ⟨x, hx, hxid, hle⟩ := h.derived u hmem
        have heq : x = v := inj_on_of_nodup_map h.stored.sound.distinct hx hv (by rw [hxid, hid, hvid])
        subst heq
        exact (h.stored.exact x hv).pending ⟨p, by rw [hvid]; exact hp, hle.trans_lt hlt⟩ rfl rfl
      · exact (h.stored.exact v hv).others (fun t => (rebase_keeps s id t).1) fun t _ ht => rebase_other (ht.trans_ne hvid)
    · change (modifyUser _ _ _).length ≤ _
      rw [length_modify]
      exact h.length
    · obtain ⟨x, hx, rfl⟩ := mem_map.1 hv
      obtain ⟨y, hy, hyid, hle⟩ := h.derived x hx
      split
      next hxid =>
        have heq : x = u := inj_on_of_nodup_map h.books.sound.distinct hx hmem (by rw [hxid, hid])
        exact ⟨y, hy, hyid, hle.trans (by rw [heq]; exact hlt.le)⟩
      next => exact ⟨y, hy, hyid, hle⟩

/-- a device is refused only by a user who has devices -/
theorem enrol_empty (hu : u.devices = []) (maxDevices : ℕ) (device : DeviceID) : u.enrol maxDevices device ≠ none := by
  unfold User.enrol
  rw [hu]
  split
  · exact nofun
  rw [if_neg (by simp)]
  split
  next hlimit =>
    simp only [length_nil] at hlimit
    omega
  · split <;> exact nofun

/-- the entry after a reset has the same devices -/
theorem applyReset_devices {generation : ℕ} (hu : findUser (s.applyReset id generation).1.memory.users id = some u) :
    ∃ v, findUser s.memory.users id = some v ∧ v.devices = u.devices := by
  have hcases := applyReset_cases s id generation
  generalize s.applyReset id generation = out at hcases hu
  cases hcases with
  | none | adopted => exact ⟨u, hu, rfl⟩
  | applied v hv hlt =>
    change findUser (modifyUser _ _ _) id = some u at hu
    rw [findUser_modify (adopt_keeps generation), if_pos rfl, hv] at hu
    cases hu
    exact ⟨v, hv, rfl⟩

/-- what a reset leaves alone -/
theorem applyReset_frame (s : State) (id : Str) (generation : ℕ) :
    (s.applyReset id generation).1.nextID = s.nextID ∧
      (s.applyReset id generation).1.sessions.map Tracked.id = s.sessions.map Tracked.id ∧
      (s.applyReset id generation).1.policies = s.policies ∧ (s.applyReset id generation).1.counters = s.counters := by
  have hcases := applyReset_cases s id generation
  generalize s.applyReset id generation = out at hcases
  cases hcases with
  | none | adopted => exact ⟨rfl, rfl, rfl, rfl⟩
  | applied =>
    refine ⟨rfl, ?_, rfl, rfl⟩
    have hids : Tracked.id ∘ s.rebase id = Tracked.id := funext fun t => (rebase_keeps s id t).2.1
    rw [map_map, hids]

/-- the entries an admission works on, and its sessions -/
structure Ready (s s' : State) (id : Str) : Prop where
  working : Working s'
  unedited : s'.edited = false
  listed : ids s'.memory.users = if id ∈ ids s.memory.users then ids s.memory.users else ids s.memory.users ++ [id]
  fresh : (∀ t ∈ s.sessions, t.id ≠ s.nextIdentifier) → ∀ t ∈ s'.sessions, t.id ≠ s'.nextIdentifier

theorem InCall.ready (h : InCall s f) {policy : Policy} (hp : s.policies id = some policy) (hid : validUserID id = true) :
    Ready s ((s.ensureUser id).applyReset id policy.generation).1 id := by
  have hsame := ensureUser_books s id
  have hpolicy : (s.ensureUser id).policies id = some policy := by
    rw [hsame.policies]
    exact hp
  have hensured := h.toWorking.ensureUser hid
  have hframe := applyReset_frame (s.ensureUser id) id policy.generation
  have hnext : ((s.ensureUser id).applyReset id policy.generation).1.nextIdentifier = s.nextIdentifier := by
    have hid' : (s.ensureUser id).nextID = s.nextID := by
      unfold ensureUser
      split <;> rfl
    rw [nextIdentifier, hframe.1, hid', nextIdentifier]
  refine ⟨hensured.applyReset hpolicy, ?_, ?_, fun hfresh t ht => ?_⟩
  · rw [(applyReset_quiet _ _ _).edited, (ensureUser_quiet s hid).edited]
    exact h.unedited
  · rw [(applyReset_prepared id policy.generation hensured.books.sound).2.2]
    exact (ensureUser_prepared h.books.sound hid).listed
  rw [hnext]
  have hmem : t.id ∈ s.sessions.map Tracked.id := by
    rw [← hsame.sessions, ← hframe.2.1]
    exact mem_map_of_mem ht
  obtain ⟨x, hx, heq⟩ := mem_map.1 hmem
  rw [← heq]
  exact hfresh x hx

/-- an entry that is made for the admission has no devices -/
theorem ensureUser_new (hnone : findUser s.memory.users id = none) {v : User}
    (hv : findUser (s.ensureUser id).memory.users id = some v) : v.devices = [] := by
  have hmem := findUser_mem hv
  have hnot := findUser_none.1 hnone
  rw [ensureUser, hnone] at hmem
  rcases mem_append.1 hmem.1 with hold | hnew
  · exact absurd (hmem.2 ▸ mem_map_of_mem hold) hnot
  · rw [mem_singleton.1 hnew]

theorem length_ids (users : List User) : (ids users).length = users.length := length_map _

theorem admitUnder_kept (h : InCall s f) {policy : Policy} (hp : s.policies id = some policy)
    (hid : validUserID id = true) (device : DeviceID) (first : Counters) (hfresh : ∀ t ∈ s.sessions, t.id ≠ s.nextIdentifier)
    (hroom : (if id ∈ ids s.memory.users then ids s.memory.users else ids s.memory.users ++ [id]).length ≤ maximumUsers) :
    ∃ f', Kept (s.admitUnder policy id device first .ok).1 f' := by
  have hready := h.ready hp hid
  have hlength : ((s.ensureUser id).applyReset id policy.generation).1.memory.users.length ≤ maximumUsers := by
    rw [← length_ids, hready.listed]
    exact hroom
  unfold admitUnder
  split
  · exact ⟨f, h.kept⟩
  split
  · exact ⟨f, h.kept⟩
  dsimp only
  split
  next hnone =>
    -- the entry is there: it was found or made
    refine absurd ?_ (findUser_none.1 hnone)
    rw [hready.listed]
    split
    next hmem => exact hmem
    next => exact mem_append_right _ (mem_singleton_self id)
  next u hu =>
    split
    next hlimit =>
      cases hfind : findUser s.memory.users id with
      | some v =>
        have hsame : s.ensureUser id = s := if_pos (hfind ▸ rfl)
        rw [hsame]
        exact ⟨f, (h.applyReset hp).kept⟩
      | none =>
        obtain ⟨v, hv, hdevices⟩ := applyReset_devices hu
        exact absurd hlimit (enrol_empty (hdevices ▸ ensureUser_new hfind hv) _ _)
    next v label hv =>
      have hregistered := hready.working.register hu (enrol_cases hv) first (hready.fresh hfresh)
      obtain ⟨s', f', hpersist, hin, -⟩ := persist_inCall hregistered hready.unedited (by
        change (modifyUser _ _ _).length ≤ _
        rw [length_modify]
        exact hlength)
      rw [commit, hpersist]
      exact ⟨f', hin.kept⟩

theorem admitSession_kept (h : Kept s f) (id : Str) (device : DeviceID) (first : Counters)
    (hok : Orderly s (.admitSession id device first .ok)) : ∃ f', Kept (s.admitSession id device first .ok).1 f' := by
  obtain ⟨-, hfresh, hroom⟩ := hok
  unfold admitSession
  split
  · exact ⟨f, h⟩
  rename_i hname
  split
  · exact ⟨f, h⟩
  rename_i s' hr
  obtain ⟨hin, hsame, husers, hnext⟩ := h.read hr
  have hpruned := hin.prune
  have hkept : s'.prune.memory.users = (s.adopted f).filter s.keeps := by
    change s'.memory.users.filter s'.keeps = _
    have hkeeps : s'.keeps = s.keeps := by
      funext u
      rw [keeps, hsame.policies, keeps]
    rw [husers, hkeeps]
  dsimp only
  split
  · exact ⟨f, hpruned.kept⟩
  rename_i policy hpolicy
  refine admitUnder_kept hpruned hpolicy (by simpa using hname) device first (fun t ht => ?_) ?_
  · have hmem : t ∈ s.sessions := by
      rw [← hsame.sessions]
      exact ht
    have hnumber : s'.prune.nextIdentifier = s.nextIdentifier := by
      change (if (s'.nextID + 1) % 2 ^ 64 = 0 then 1 else (s'.nextID + 1) % 2 ^ 64) = _
      rw [hnext]
      rfl
    rw [hnumber]
    exact hfresh t hmem
  · rw [hkept]
    exact hroom f h.file

/-! ## Samples -/

/-- one user of `applyResets` -/
def resetNext (p : State × Bool) (id : Str) : State × Bool :=
  match p.1.policies id with
  | none => p
  | some policy => let r := p.1.applyReset id policy.generation; (r.1, r.2 || p.2)

/-- what the resets of some users have done -/
structure ResetsDone (p q : State × Bool) (names : List Str) : Prop where
  working : Working q.1
  listed : ids q.1.memory.users = ids p.1.memory.users
  edited : q.1.edited = p.1.edited
  sessions : q.1.sessions.map Tracked.id = p.1.sessions.map Tracked.id
  idle : q.2 = false → p.2 = false ∧ q.1 = p.1
  adopted : ∀ u ∈ q.1.memory.users, q.1.Pending u → u.userID ∉ names ∧ ∃ v ∈ p.1.memory.users, v.userID = u.userID ∧ p.1.Pending v

theorem resetNext_done (h : Working p.1) (id : Str) : ResetsDone p (resetNext p id) [id] := by
  unfold resetNext
  split
  next hnone =>
    refine ⟨h, rfl, rfl, rfl, fun hq => ⟨hq, rfl⟩, fun u hu hp => ⟨fun hmem => ?_, u, hu, rfl, hp⟩⟩
    obtain ⟨policy, hpolicy, -⟩ := hp
    rw [mem_singleton.1 hmem, hnone] at hpolicy
    cases hpolicy
  next policy hpolicy =>
    have hworking := h.applyReset hpolicy
    have hlisted := (applyReset_prepared id policy.generation h.books.sound).2.2
    have hquiet := applyReset_quiet p.1 id policy.generation
    have hframe := applyReset_frame p.1 id policy.generation
    refine ⟨hworking, hlisted, hquiet.edited, hframe.2.1, fun hq => ?_, fun u hu hpending => ?_⟩
    · have hcases := applyReset_cases p.1 id policy.generation
      generalize p.1.applyReset id policy.generation = out at hcases hq
      cases hcases with
      | none | adopted => exact ⟨hq, rfl⟩
      | applied => cases hq
    · have hcases := applyReset_cases p.1 id policy.generation
      generalize p.1.applyReset id policy.generation = out at hcases hu hpending
      cases hcases with
      | none habsent =>
        refine ⟨fun hmem => ?_, u, hu, rfl, hpending⟩
        rw [mem_singleton] at hmem
        exact findUser_none.1 habsent (hmem ▸ mem_map_of_mem hu)
      | adopted v hv hle =>
        refine ⟨fun hmem => ?_, u, hu, rfl, hpending⟩
        rw [mem_singleton] at hmem
        obtain ⟨policy', hpolicy', hlt⟩ := hpending
        have hsame : u = v := by
          obtain ⟨hvmem, hvid⟩ := findUser_mem hv
          exact inj_on_of_nodup_map h.books.sound.distinct hu hvmem (hmem.trans hvid.symm)
        rw [hmem, hpolicy] at hpolicy'
        cases hpolicy'
        rw [hsame] at hlt
        omega
      | applied v hv hlt =>
        obtain ⟨x, hx, rfl⟩ := mem_map.1 hu
        split at hpending
        next hxid =>
          obtain ⟨policy', hpolicy', hlt'⟩ := hpending
          change policy' ∈ p.1.policies x.userID at hpolicy'
          rw [hxid, hpolicy] at hpolicy'
          cases hpolicy'
          exact absurd hlt' (lt_irrefl _)
        next hxid =>
          rw [if_neg hxid]
          exact ⟨fun hmem => hxid (mem_singleton.1 hmem), x, hx, rfl, hpending⟩

theorem ResetsDone.trans {q r : State × Bool} {names names' : List Str} (h : ResetsDone p q names) (h' : ResetsDone q r names') :
    ResetsDone p r (names ++ names') where
  working := h'.working
  listed := h'.listed.trans h.listed
  edited := h'.edited.trans h.edited
  sessions := h'.sessions.trans h.sessions
  idle := by
    intro hr
    obtain ⟨hq, hrq⟩ := h'.idle hr
    obtain ⟨hp, hqp⟩ := h.idle hq
    exact ⟨hp, hrq.trans hqp⟩
  adopted := by
    intro u hu hp
    obtain ⟨hnot', v, hv, hvid, hvp⟩ := h'.adopted u hu hp
    obtain ⟨hnot, w, hw, hwid, hwp⟩ := h.adopted v hv hvp
    refine ⟨fun hmem => ?_, w, hw, hwid.trans hvid, hwp⟩
    rcases mem_append.1 hmem with hmem | hmem
    · exact hnot (hvid ▸ hmem)
    · exact hnot' hmem

theorem applyResets_done (h : Working s) (names : List Str) : ResetsDone (s, false) (s.applyResets names) names := by
  suffices hall : ∀ p : State × Bool, Working p.1 → ResetsDone p (names.foldl resetNext p) names from hall (s, false) h
  induction names with
  | nil => exact fun p hp => ⟨hp, rfl, rfl, rfl, fun hq => ⟨hq, rfl⟩, fun u hu hpending => ⟨not_mem_nil, u, hu, rfl, hpending⟩⟩
  | cons id names ih =>
    intro p hp
    have hnext := resetNext_done hp id
    exact hnext.trans (ih _ hnext.working)

/-- one session of `sampleSessions` -/
def sampleNext (p : State × Bool) (id : ℕ) : State × Bool :=
  match p.1.sessions.find? fun t => t.id = id with
  | none => p
  | some t => let r := p.1.sampleSession t; (r.1, r.2 || p.2)

/-- no reset is pending in memory -/
def Adopted (s : State) : Prop := ∀ u ∈ s.memory.users, ¬ s.Pending u

/-- what the samples of some sessions have done -/
structure SamplesDone (p q : State × Bool) (numbers : List ℕ) : Prop where
  working : Working q.1
  adopted : Adopted q.1
  length : q.1.memory.users.length = p.1.memory.users.length
  edited : q.1.edited = p.1.edited
  sessions : q.1.sessions.map Tracked.id = p.1.sessions.map Tracked.id
  idle : q.2 = false → p.2 = false ∧ q.1 = p.1
  read : ∀ t ∈ q.1.sessions, t.last ≠ q.1.counters t.id →
    t.id ∉ numbers ∧ ∃ x ∈ p.1.sessions, x.id = t.id ∧ x.last ≠ p.1.counters x.id

theorem sampleNext_done (h : Working p.1) (ha : Adopted p.1) (id : ℕ) : SamplesDone p (sampleNext p id) [id] := by
  unfold sampleNext
  split
  next hnone =>
    refine ⟨h, ha, rfl, rfl, rfl, fun hq => ⟨hq, rfl⟩, fun t ht hne => ⟨fun hmem => ?_, t, ht, rfl, hne⟩⟩
    exact absurd (mem_singleton.1 hmem) (by simpa using List.find?_eq_none.1 hnone t ht)
  rename_i t hfind
  have ht := mem_of_find?_eq_some hfind
  have htid : t.id = id := by simpa using List.find?_some hfind
  have hworking := h.sampleSession ht fun u hu _ hp => absurd hp (ha u hu)
  have hidle := sampleSession_idle h ht
  have hquiet := sampleSession_quiet p.1 t
  rw [sampleSession_eq h.books ht] at hworking hidle ⊢
  refine ⟨hworking, fun u hu hp => ?_, length_modify _ _ _, rfl, ?_, fun hq => ?_, fun y hy hne => ?_⟩
  · obtain ⟨x, hx, rfl⟩ := mem_map.1 hu
    refine ha x hx ?_
    split at hp <;> exact hp
  · have hids : Tracked.id ∘ p.1.sampled t = Tracked.id := funext fun x => (sampled_keeps p.1 t x).2.1
    rw [map_map, hids]
  · rw [Bool.or_eq_false_iff] at hq
    exact ⟨hq.2, hidle hq.1⟩
  obtain ⟨x, hx, rfl⟩ := mem_map.1 hy
  by_cases hxid : x.id = t.id
  · refine absurd ?_ hne
    rw [State.sampled, if_pos hxid]
    change p.1.counters t.id = p.1.counters x.id
    rw [hxid]
  · have hsame : p.1.sampled t x = x := if_neg hxid
    rw [hsame] at hne ⊢
    exact ⟨fun hmem => hxid ((mem_singleton.1 hmem).trans htid.symm), x, hx, rfl, hne⟩

theorem SamplesDone.trans {q r : State × Bool} {numbers numbers' : List ℕ} (h : SamplesDone p q numbers)
    (h' : SamplesDone q r numbers') : SamplesDone p r (numbers ++ numbers') where
  working := h'.working
  adopted := h'.adopted
  length := h'.length.trans h.length
  edited := h'.edited.trans h.edited
  sessions := h'.sessions.trans h.sessions
  idle := by
    intro hr
    obtain ⟨hq, hrq⟩ := h'.idle hr
    obtain ⟨hp, hqp⟩ := h.idle hq
    exact ⟨hp, hrq.trans hqp⟩
  read := by
    intro t ht hne
    obtain ⟨hnot', x, hx, hxid, hxne⟩ := h'.read t ht hne
    obtain ⟨hnot, y, hy, hyid, hyne⟩ := h.read x hx hxne
    refine ⟨fun hmem => ?_, y, hy, hyid.trans hxid, hyne⟩
    rcases mem_append.1 hmem with hmem | hmem
    · exact hnot (hxid ▸ hmem)
    · exact hnot' hmem

theorem sampleSessions_done (h : Working s) (ha : Adopted s) (numbers : List ℕ) :
    SamplesDone (s, false) (s.sampleSessions numbers) numbers := by
  suffices hall : ∀ p : State × Bool, Working p.1 → Adopted p.1 → SamplesDone p (numbers.foldl sampleNext p) numbers from
    hall (s, false) h ha
  induction numbers with
  | nil =>
    exact fun p hp hpa => ⟨hp, hpa, rfl, rfl, rfl, fun hq => ⟨hq, rfl⟩, fun t ht hne => ⟨not_mem_nil, t, ht, rfl, hne⟩⟩
  | cons id numbers ih =>
    intro p hp hpa
    have hnext := sampleNext_done hp hpa id
    exact hnext.trans (ih _ hnext.working hnext.adopted)

theorem prune_idle (h : s.prune.memory.users.length = s.memory.users.length) : s.prune = s := by
  have hall : s.memory.users.filter s.keeps = s.memory.users :=
    filter_eq_self.2 (length_filter_eq_length_iff.1 h)
  rw [prune, hall]
  rfl

/-- the state `Sample` writes if it is dirty -/
structure Swept (s s' : State) (dirty : Bool) : Prop where
  working : Working s'
  unedited : s'.edited = false
  length : s'.memory.users.length ≤ maximumUsers
  read : ∀ t ∈ s'.sessions, t.last = s'.counters t.id
  idle : dirty = false → s' = s

theorem InCall.sweep (h : InCall s f) :
    let reset := s.prune.applyResets (s.prune.memory.users.map User.userID)
    let sampled := reset.1.sampleSessions (reset.1.sessions.map Tracked.id)
    Swept s sampled.1 (decide (s.prune.memory.users.length ≠ s.memory.users.length) || reset.2 || sampled.2) := by
  intro reset sampled
  have hpruned := h.prune
  have hreset : ResetsDone (s.prune, false) reset (s.prune.memory.users.map User.userID) := applyResets_done hpruned.toWorking _
  have hadopted : Adopted reset.1 := by
    intro u hu hp
    refine (hreset.adopted u hu hp).1 ?_
    have hmem : u.userID ∈ ids reset.1.memory.users := mem_map_of_mem hu
    rw [hreset.listed] at hmem
    exact hmem
  have hsampled : SamplesDone (reset.1, false) sampled (reset.1.sessions.map Tracked.id) :=
    sampleSessions_done hreset.working hadopted _
  refine ⟨hsampled.working, ?_, ?_, fun t ht => ?_, fun hclean => ?_⟩
  · rw [hsampled.edited, hreset.edited]
    exact hpruned.unedited
  · have hlen : reset.1.memory.users.length = s.prune.memory.users.length := by
      rw [← length_ids, hreset.listed, length_ids]
    rw [hsampled.length, hlen]
    exact hpruned.length
  · by_contra hne
    refine (hsampled.read t ht hne).1 ?_
    rw [← hsampled.sessions]
    exact mem_map_of_mem ht
  · simp only [Bool.or_eq_false_iff, decide_eq_false_iff_not, not_not] at hclean
    obtain ⟨⟨hlen, hr⟩, hs⟩ := hclean
    rw [(hsampled.idle hs).2, (hreset.idle hr).2]
    exact prune_idle hlen

/-- **Sample.** -/
theorem sample_kept (h : Kept s f) :
    (∃ f', Kept (s.sample .ok).1 f') ∧ ∀ t ∈ (s.sample .ok).1.sessions, t.last = (s.sample .ok).1.counters t.id := by
  have hr := reload_some h.file h.valid
  obtain ⟨hin, -⟩ := h.read hr
  generalize hs' : ({ s with memory := if s.memory.revision < f.revision then f else s.memory, edited := false } : State) = s' at hr hin
  have hswept := hin.sweep
  unfold sample
  rw [hr]
  dsimp only at ⊢
  split
  next hclean =>
    have hsame := hswept.idle hclean
    refine ⟨⟨f, ?_⟩, hswept.read⟩
    rw [hsame]
    exact hin.kept
  next =>
    obtain ⟨s'', f', hpersist, hin', hsame⟩ := persist_inCall hswept.working hswept.unedited hswept.length
    rw [hpersist]
    refine ⟨⟨f', hin'.kept⟩, ?_⟩
    rw [hsame.sessions, hsame.counters]
    exact hswept.read

/-! ## The end of a session -/

theorem close_kept (h : Kept s f) (n : ℕ) (hok : Orderly s (.close n .ok)) : ∃ f', Kept (s.close n .ok).1 f' := by
  unfold close
  split
  · exact ⟨f, h⟩
  rename_i t hfind
  have ht := mem_of_find?_eq_some hfind
  have htid : t.id = n := by simpa using List.find?_some hfind
  split
  · exact ⟨f, h⟩
  rename_i s' hr
  obtain ⟨hin, hsame, husers, -⟩ := h.read hr
  have ht' : t ∈ s'.sessions := by
    rw [hsame.sessions]
    exact ht
  have hcharged := hin.toWorking.sampleSession ht' fun u hu hid hp hc => by
    rw [husers] at hu
    rw [State.Pending, hsame.policies] at hp
    rw [hsame.completed] at hc
    rw [hsame.counters]
    exact hok.2 t ht htid f h.file u hu hid hp hc
  have hunedited := (sampleSession_quiet s' t).edited.trans hin.unedited
  have hmem : { t with last := (s'.sampleSession t).1.counters t.id } ∈ (s'.sampleSession t).1.sessions := by
    rw [sampleSession_eq hin.books ht']
    refine mem_map.2 ⟨t, ht', ?_⟩
    rw [State.sampled, if_pos rfl]
    rfl
  have hlength : (s'.sampleSession t).1.memory.users.length ≤ maximumUsers := by
    rw [sampleSession_eq hin.books ht']
    exact (length_modify _ _ _).trans_le hin.length
  dsimp only
  have hended := hcharged.endSession hmem rfl
  obtain ⟨s'', f', hpersist, hin', -⟩ := persist_inCall hended hunedited ((length_modify _ _ _).trans_le hlength)
  rw [hpersist]
  exact ⟨f', hin'.kept⟩

/-! ## The administrator -/

/-- an edited file -/
theorem editFile_kept (h : Kept s f) (hrevision : f.revision < maxUint64) (hlen : users.length ≤ maximumUsers)
    (completed : Str → Bool) (hbooks : Books { s with completed := completed } users) :
    ∃ f', Kept { s.editFile f users with completed := completed } f' := by
  refine ⟨⟨saturatingAdd f.revision 1, users⟩, ⟨h.tracking.distinct, h.tracking.range, h.tracking.grows, h.tracking.marked⟩, rfl,
    hbooks.congr ⟨rfl, rfl, rfl, rfl, rfl⟩, hlen, h.counted, fun _ => ?_, nofun⟩
  change s.memory.revision < saturatingAdd f.revision 1
  rw [saturatingAdd_one hrevision]
  cases he : s.edited with
  | true => exact (h.stale he).trans (Nat.lt_succ_self _)
  | false =>
    rw [(h.current he).revision]
    exact Nat.lt_succ_self _

/-- a completed reset of one user says nothing of the others -/
theorem Exact.complete (h : Exact s u) (hne : u.userID ≠ id) :
    Exact { s with completed := update s.completed id true } u := by
  refine h.mono rfl rfl (fun hc => ?_) rfl
  have hold : update s.completed id true u.userID = s.completed u.userID := update_of_ne hne _ _
  rw [← hold]
  exact hc

/-- the entry whose total was cleared -/
theorem Exact.clear (h : Exact s u) (hok : s.Pending u ∨ u.total = .zero) :
    Exact { s with completed := update s.completed u.userID true } { u with total := .zero } := by
  refine ⟨fun hnot d => ?_, fun hnot => h.based hnot, fun hnot _ d => ?_, fun _ _ d => Counters.of_zero d⟩
  · have hzero : u.total = .zero := hok.resolve_left hnot
    have htotal := h.totals hnot d
    rw [hzero] at htotal
    exact htotal
  · have hzero : u.total = .zero := hok.resolve_left hnot
    have htotal := h.totals hnot d
    rw [hzero, Counters.of_zero] at htotal
    have hpos : 0 < maxUint64 := by decide
    change u.settled.of d ≤ _
    omega

theorem resetTraffic_kept (h : Kept s f) (id : Str) (hok : Orderly s (.resetTraffic id)) :
    ∃ f', Kept (s.resetTraffic id).1 f' := by
  obtain ⟨hrevision, hclear⟩ := hok f h.file
  unfold resetTraffic
  split
  next hnone => cases hnone.symm.trans h.file
  rename_i g hg
  cases h.file.symm.trans hg
  rw [h.valid, if_neg Bool.noConfusion]
  split
  next hnone =>
    have hother : ∀ u ∈ f.users, u.userID ≠ id := fun u hu heq => findUser_none.1 hnone (heq ▸ mem_map_of_mem hu)
    have hstored : Books { s with completed := update s.completed id true } f.users :=
      ⟨h.stored.sound, h.stored.counted.congr rfl, fun u hu => (h.stored.exact u hu).complete (hother u hu)⟩
    refine ⟨f, ⟨h.tracking.distinct, h.tracking.range, h.tracking.grows, h.tracking.marked⟩, h.file, hstored, h.fits, h.counted, h.stale,
      fun he => ?_⟩
    have hin := h.current he
    refine ⟨⟨⟨h.tracking.distinct, h.tracking.range, h.tracking.grows, h.tracking.marked⟩, hin.books.sound, hin.books.counted.congr rfl,
      fun u hu => ?_⟩, h.file, he, hin.revision, hstored, h.fits, hin.length, hin.derived⟩
    obtain ⟨v, hv, hvid, -⟩ := hin.derived u hu
    exact (hin.books.exact u hu).complete (hvid ▸ hother v hv)
  next u hu =>
    have hkeeps : Keeps fun u : User => { u with total := .zero } := fun _ => rfl
    have hsound : Sound (modifyUser f.users id fun u => { u with total := .zero }) :=
      modifyUser_sound hkeeps (fun _ hu => hu) h.stored.sound
    have hcounts : SameCounts f.users (modifyUser f.users id fun u => { u with total := .zero }) :=
      modifyUser_same hkeeps fun _ _ => ⟨rfl, fun _ => rfl⟩
    refine editFile_kept h hrevision (by rw [sortUsers_length, length_modify]; exact h.fits) _ (Books.sort ⟨hsound, ?_, fun v hv => ?_⟩)
    · exact (h.stored.counted.same hcounts).congr rfl
    obtain ⟨x, hx, rfl⟩ := mem_map.1 hv
    split
    next hid =>
      subst hid
      exact (h.stored.exact x hx).clear (hclear x hx rfl)
    next hid => exact (h.stored.exact x hx).complete hid

theorem removeOfflineDevice_kept (h : Kept s f) (id : Str) (device : DeviceID) (hok : Orderly s (.removeOfflineDevice id device)) :
    ∃ f', Kept (s.removeOfflineDevice id device).1 f' := by
  have hread : readState s.file = some f := by
    rw [readState, h.file, Option.filter_some, if_pos h.valid]
  unfold removeOfflineDevice
  rw [hread]
  dsimp only
  split
  · exact ⟨f, h⟩
  rename_i u hu
  split
  · exact ⟨f, h⟩
  rename_i d hd
  split
  · exact ⟨f, h⟩
  obtain ⟨hsound, hcounts⟩ := without_users h.stored.sound hu hd (by omega)
  refine editFile_kept h (hok f h.file) (by rw [sortUsers_length, length_modify]; exact h.fits) s.completed
    (Books.sort ⟨hsound, h.stored.counted.same hcounts, fun v hv => ?_⟩)
  obtain ⟨x, hx, rfl⟩ := mem_map.1 hv
  split
  · exact (h.stored.exact x hx).entry rfl rfl rfl rfl
  · exact h.stored.exact x hx

section

variable (s : State) (policies : Str → Option Policy)

/-- a session under the new policies -/
def State.remark (t : Tracked) : Tracked :=
  if State.raised (s.policies t.userID) (policies t.userID) then { t with mark := s.counters t.id } else t

theorem remark_keeps (t : Tracked) :
    (s.remark policies t).userID = t.userID ∧ (s.remark policies t).id = t.id ∧ (s.remark policies t).deviceID = t.deviceID ∧
      (s.remark policies t).last = t.last ∧ (s.remark policies t).base = t.base := by
  unfold remark
  split <;> exact ⟨rfl, rfl, rfl, rfl, rfl⟩

theorem setPolicies_sessions :
    (s.setPolicies policies).sessions = s.sessions.map (s.remark policies) := rfl

end

theorem Tracking.setPolicies (h : Tracking s) (policies : Str → Option Policy) : Tracking (s.setPolicies policies) := by
  refine h.map (setPolicies_sessions s policies) rfl (fun t => (remark_keeps s policies t).2.1) (fun t => ?_) fun t ht d => ?_
  · unfold remark
    split
    · exact .inr rfl
    · exact .inl rfl
  · rw [(remark_keeps s policies t).2.2.2.1, (remark_keeps s policies t).2.2.2.2]
    exact h.grows t ht d

/-- an entry under the new policies -/
theorem Exact.setPolicies (h : Exact s u) {policies : Str → Option Policy}
    (hok : s.Pending u ∨ State.raised (s.policies u.userID) (policies u.userID) = true → (s.setPolicies policies).Pending u) :
    Exact (s.setPolicies policies) u := by
  by_cases hp : (s.setPolicies policies).Pending u
  · refine ⟨fun hnot => absurd hp hnot, fun hnot => absurd hp hnot, fun hnot => absurd hp hnot, fun _ hc => ?_⟩
    simp only [State.setPolicies, Bool.and_eq_true, Bool.not_eq_true'] at hc
    obtain ⟨⟨hcompleted, hsome⟩, hraised⟩ := hc
    refine h.cleared ?_ hcompleted
    -- the generation was not raised, so it was pending before
    obtain ⟨new, hnew, hlt⟩ := hp
    obtain ⟨old, hold⟩ := Option.isSome_iff_exists.1 hsome
    change policies u.userID = some new at hnew
    rw [hold, hnew] at hraised
    have hle := of_decide_eq_false hraised
    exact ⟨old, hold, by omega⟩
  · have hnot : ¬ s.Pending u := fun hpending => hp (hok (.inl hpending))
    have hraised : raised (s.policies u.userID) (policies u.userID) = false := by
      by_contra hr
      exact hp (hok (.inr (by simpa using hr)))
    have hself : ∀ t ∈ s.sessions, t.userID = u.userID → s.remark policies t = t := by
      intro t _ hid
      rw [remark, hid, hraised, if_neg Bool.noConfusion]
    have htally : ∀ g, tally (s.setPolicies policies).sessions u.userID g = tally s.sessions u.userID g := by
      intro g
      rw [setPolicies_sessions, tally_map fun t => (remark_keeps s policies t).1]
      refine tally_congr fun t ht hid => ?_
      rw [comp_apply, hself t ht hid]
    refine ⟨fun _ d => ?_, fun _ t ht hid => ?_, fun _ hc d => ?_, fun hpending => absurd hpending hp⟩
    · rw [htally]
      exact h.totals hnot d
    · rw [setPolicies_sessions] at ht
      obtain ⟨x, hx, rfl⟩ := mem_map.1 ht
      rw [(remark_keeps s policies x).1] at hid
      rw [hself x hx hid]
      exact h.based hnot x hx hid
    · simp only [State.setPolicies, Bool.and_eq_true] at hc
      have hended : (s.setPolicies policies).ended u.userID = s.ended u.userID := by
        change (if raised _ _ = true then _ else _) = _
        rw [hraised, if_neg Bool.noConfusion]
      rw [hended]
      exact h.settled hnot hc.1.1 d

theorem setPolicies_kept (h : Kept s f) (policies : Str → Option Policy) (hok : Orderly s (.setPolicies policies)) :
    Kept (s.setPolicies policies) f := by
  have htracking := h.tracking.setPolicies policies
  have hcounted : ∀ {users}, Counted s users → Counted (s.setPolicies policies) users := fun hc =>
    hc.map (setPolicies_sessions s policies) (fun t => (remark_keeps s policies t).1) fun t => (remark_keeps s policies t).2.2.1
  have hstored : Books (s.setPolicies policies) f.users :=
    ⟨h.stored.sound, hcounted h.stored.counted, fun u hu =>
      (h.stored.exact u hu).setPolicies (hok f h.file u (mem_append_left _ hu))⟩
  refine ⟨htracking, h.file, hstored, h.fits, hcounted h.counted, h.stale, fun he => ?_⟩
  have hin := h.current he
  refine ⟨⟨htracking, hin.books.sound, hcounted h.counted, fun u hu => ?_⟩, h.file, he, hin.revision, hstored, h.fits, hin.length,
    hin.derived⟩
  exact (hin.books.exact u hu).setPolicies (hok f h.file u (mem_append_right _ hu))

theorem transfer_kept (h : Kept s f) (n : ℕ) (bytes : Counters) : Kept (s.transfer n bytes) f := by
  have hle : ∀ id d, (s.counters id).of d ≤ ((s.transfer n bytes).counters id).of d := by
    intro id d
    change _ ≤ (update s.counters n _ id).of d
    by_cases hid : id = n
    · subst hid
      rw [update_self, Counters.of_add]
      omega
    · rw [update_of_ne hid]
  have htracking : Tracking (s.transfer n bytes) :=
    ⟨h.tracking.distinct, h.tracking.range, fun t ht d => ⟨(h.tracking.grows t ht d).1, (h.tracking.grows t ht d).2.trans (hle _ d)⟩,
      fun t ht d => (h.tracking.marked t ht d).trans (hle _ d)⟩
  have hbooks : ∀ {users}, Books s users → Books (s.transfer n bytes) users := fun hb =>
    ⟨hb.sound, hb.counted.congr rfl, fun u hu => (hb.exact u hu).mono rfl rfl id rfl⟩
  refine ⟨htracking, h.file, hbooks h.stored, h.fits, h.counted.congr rfl, h.stale, fun he => ?_⟩
  have hin := h.current he
  exact ⟨⟨htracking, hbooks hin.books⟩, h.file, he, hin.revision, hbooks h.stored, h.fits, hin.length, hin.derived⟩

/-! ## Every run -/

theorem step_kept (s : State) (o : Op) (h : ∃ f, Kept s f) (hok : Orderly s o) : ∃ f, Kept (step s o) f := by
  obtain ⟨f, h⟩ := h
  cases o with
  | admitSession id device first w =>
    obtain rfl : w = .ok := hok.1
    exact admitSession_kept h id device first hok
  | close n w =>
    obtain rfl : w = .ok := hok.1
    exact close_kept h n hok
  | sample w =>
    obtain rfl : w = .ok := hok
    exact (sample_kept h).1
  | snapshot =>
    change ∃ f', Kept (s.reload.getD s) f'
    rw [reload_some h.file h.valid]
    exact ⟨f, (h.read (reload_some h.file h.valid)).1.kept⟩
  | resetTraffic id => exact resetTraffic_kept h id hok
  | removeOfflineDevice id device => exact removeOfflineDevice_kept h id device hok
  | setPolicies policies => exact ⟨f, setPolicies_kept h policies hok⟩
  | transfer n bytes => exact ⟨f, transfer_kept h n bytes⟩

/-- an entry as `New` leaves it -/
theorem start_entry {policies : Str → Option Policy} {v : User}
    (hv : v ∈ (State.start users revision policies).memory.users) : ∃ u ∈ users, v = sortDevices u.clear := by
  obtain ⟨x, hx, rfl⟩ := mem_map.1 hv
  obtain ⟨u, hu, rfl⟩ := mem_map.1 ((perm_insertionSort _ _).mem_iff.1 hx)
  exact ⟨u, hu, rfl⟩

theorem clear_offline (u : User) {d : Device} (hd : d ∈ (sortDevices u.clear).devices) : d.activeSessions = 0 := by
  have hmem : d ∈ u.clear.devices := (perm_insertionSort _ _).mem_iff.1 hd
  obtain ⟨e, -, rfl⟩ := mem_map.1 hmem
  rfl

section

variable (policies : Str → Option Policy) (h : validateState ⟨revision, users⟩ = true)
  (hmax : ∀ u ∈ users, ∀ d, u.total.of d ≤ maxUint64)
include h hmax

theorem start_books :
    Books (State.start users revision policies) (State.start users revision policies).memory.users := by
  refine ⟨(validateState_iff.1 (start_valid policies h)).2, fun id => ?_, fun v hv => ?_⟩
  · simp only [sessionsOf, deviceSessionsOf]
    cases hf : findUser (start users revision policies).memory.users id with
    | none => exact ⟨rfl, fun _ => rfl⟩
    | some v =>
      obtain ⟨u, -, rfl⟩ := start_entry (findUser_mem hf).1
      refine ⟨rfl, fun device => ?_⟩
      simp only [Option.map_some, Option.getD_some, Device.sessionsOf]
      cases hd : (sortDevices u.clear).devices.find? fun d => decide (d.deviceID = device) with
      | none => rfl
      | some d => exact clear_offline u (mem_of_find?_eq_some hd)
  · obtain ⟨u, hu, rfl⟩ := start_entry hv
    refine ⟨fun _ d => (min_eq_left (hmax u hu d)).symm, fun _ _ ht => absurd ht not_mem_nil, fun _ hc => ?_, fun _ hc => ?_⟩
    · cases hc
    · cases hc

theorem start_kept : ∃ f, Kept (State.start users revision policies) f := by
  have hbooks := start_books policies h hmax
  have hfits := (validateState_iff.1 (start_valid policies h)).1
  have htracking : Tracking (start users revision policies) := ⟨nodup_nil, nofun, nofun, nofun⟩
  refine ⟨(start users revision policies).memory, InCall.kept ⟨⟨htracking, hbooks⟩, rfl, rfl, rfl, hbooks, hfits, hfits,
    fun u hu => ?_⟩⟩
  exact ⟨u, hu, rfl, le_rfl⟩

end

theorem Counted.accounted (h : Counted s users) :
    (∀ id, sessionsOf users id = s.sessions.countP fun t => decide (t.userID = id)) ∧
      ∀ id device, deviceSessionsOf users id device =
        s.sessions.countP fun t => decide (t.userID = id) && decide (t.deviceID = some device) := by
  refine ⟨fun id => ?_, fun id device => ?_⟩
  · rw [(h id).1]
    simpa using tally_count s.sessions id fun _ => true
  · rw [(h id).2 device]
    simpa using tally_count s.sessions id fun t => decide (t.deviceID = some device)

theorem Books.accounted (h : Books s users) (ht : Tracking s) : AccountedIn s users := by
  refine ⟨h.counted.accounted.1, h.counted.accounted.2, fun u hu hc d => ?_, fun u hu => (h.exact u hu).totals⟩
  have hexact := h.exact u hu
  by_cases hp : s.Pending u
  · rw [hexact.cleared hp hc d]
    exact Nat.zero_le _
  have hgrown : (tally s.sessions u.userID fun t => t.last.of d - t.base.of d) ≤
      tally s.sessions u.userID fun t => (s.counters t.id).of d - t.mark.of d := by
    refine tally_le fun t htmem hid => ?_
    have hgrows := ht.grows t htmem d
    have hbased := hexact.based hp t htmem hid d
    omega
  calc u.total.of d ≤ u.settled.of d + tally s.sessions u.userID fun t => t.last.of d - t.base.of d := by
        rw [hexact.totals hp d]
        exact min_le_left _ _
    _ ≤ _ := Nat.add_le_add (hexact.settled hp hc d) hgrown

theorem Kept.accounted (h : Kept s f) : Accounted s where
  file := ⟨f, h.file, h.stored.accounted h.tracking⟩
  sessions := h.counted.accounted.1
  devices := h.counted.accounted.2
  memory := fun he => (h.current he).books.accounted h.tracking
  sampled := (sample_kept h).2

/-- a session that is sampled, reset, sampled again and closed -/
def resetRun : List Op :=
  [.admitSession (ascii "a") (Vector.replicate 16 0) .zero .ok, .transfer 1 ⟨5, 0⟩, .sample .ok, .setPolicies (single 1),
    .resetTraffic (ascii "a"), .sample .ok, .transfer 1 ⟨2, 0⟩, .close 1 .ok]

/-- the same without a sample between the reset and the end -/
def unsampledRun : List Op :=
  [.admitSession (ascii "a") (Vector.replicate 16 0) .zero .ok, .transfer 1 ⟨5, 0⟩, .setPolicies (single 1),
    .resetTraffic (ascii "a"), .close 1 .ok]

end NeProto.Usage
