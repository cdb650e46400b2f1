/-
Edits of the state file behind the tracker (`internal/usage/tracker.go`): `ResetTraffic` and `RemoveOfflineDevice` write the file
under the directory lock, and the tracker adopts a file whose revision is above that of its memory.

`persistLocked` raises the revision in memory before it writes, and does not take it back when the write fails. From then on memory
is ahead of the file, and the next edit, which counts from the file, is not above memory.

- `EditsSurvive`: what the tracker's next call makes of the file.
- `edits_survive`: it holds in every run in which no file is edited while memory is ahead of it. The writes may fail.
- `edit_lost`: a reset after a failed write is not seen.
-/
import NeProto.Usage.Admission

namespace NeProto.Usage

open List State

open Protocol (DeviceID)

/-! ## The property -/

/-- the calls of the tracker -/
def Op.tracker : Op → Bool
  | .admitSession .. | .close .. | .sample .. | .snapshot => true
  | .resetTraffic .. | .removeOfflineDevice .. | .setPolicies .. | .transfer .. => false

structure EditsSurvive (s : State) : Prop where
  /-- a call that reads the file sees the edit -/
  seen : s.edited = true → ∀ s', s.reload = some s' → some s'.memory = s.file
  /-- whatever a call leaves in memory or in the file it makes from the edited file -/
  kept : s.edited = true → ∀ f, s.file = some f → ∀ o : Op, o.tracker = true →
    step s o = s ∨ step s o = step { s with memory := f, edited := false } o
  /-- reading the file changes no session count -/
  counted : ∀ s', s.reload = some s' → SameCounts s.memory.users s'.memory.users

/-- an edit finds the tracker's last write in the file, and a revision that can be raised -/
def EditsSettled (s : State) : Op → Prop
  | .resetTraffic _ | .removeOfflineDevice _ _ =>
    ∀ f ∈ s.file, s.memory.revision ≤ f.revision ∧ f.revision < maxUint64
  | _ => True

instance (s : State) : ∀ o, Decidable (EditsSettled s o)
  | .resetTraffic _ | .removeOfflineDevice _ _ => inferInstanceAs (Decidable (∀ f ∈ s.file, _))
  | .admitSession .. | .close .. | .sample .. | .snapshot | .setPolicies .. | .transfer .. => .isTrue trivial

/-! ## What leaves the counts alone -/

/-- a change of memory that touches no count, no revision and no file -/
structure Quiet (s s' : State) : Prop where
  file : s'.file = s.file
  edited : s'.edited = s.edited
  revision : s'.memory.revision = s.memory.revision
  sound : Sound s.memory.users → Sound s'.memory.users
  counts : Sound s.memory.users → SameCounts s.memory.users s'.memory.users

variable {id : Str} {users : List User} {s s' : State} {u : User}

theorem Quiet.refl (s : State) : Quiet s s := ⟨rfl, rfl, rfl, id, fun _ => .refl _⟩

theorem Quiet.trans {a b c : State} (h : Quiet a b) (h' : Quiet b c) : Quiet a c where
  file := h'.file.trans h.file
  edited := h'.edited.trans h.edited
  revision := h'.revision.trans h.revision
  sound := fun hs => h'.sound (h.sound hs)
  counts := fun hs => (h.counts hs).trans (h'.counts (h.sound hs))

theorem prune_quiet (s : State) : Quiet s s.prune := ⟨rfl, rfl, rfl, fun h => h.filter _, fun h => prune_same h⟩

theorem ensureUser_quiet (s : State) (hid : validUserID id = true) : Quiet s (s.ensureUser id) where
  file := by unfold ensureUser; split <;> rfl
  edited := by unfold ensureUser; split <;> rfl
  revision := by unfold ensureUser; split <;> rfl
  sound := fun h => (ensureUser_prepared h hid).sound
  counts := fun h => (ensureUser_prepared h hid).counts

theorem applyReset_quiet (s : State) (id : Str) (generation : ℕ) : Quiet s (s.applyReset id generation).1 := by
  have hframe : (s.applyReset id generation).1.file = s.file ∧ (s.applyReset id generation).1.edited = s.edited ∧
      (s.applyReset id generation).1.memory.revision = s.memory.revision := by
    unfold applyReset
    split
    · exact ⟨rfl, rfl, rfl⟩
    · split <;> exact ⟨rfl, rfl, rfl⟩
  exact ⟨hframe.1, hframe.2.1, hframe.2.2, fun h => (applyReset_prepared id generation h).1,
    fun h => (applyReset_prepared id generation h).2.1⟩

/-- a change of users that keeps what `validateUser` and the counts look at -/
theorem modifyUser_sound {f : User → User} (hf : Keeps f)
    (hvalid : ∀ u, validateUser u = true → validateUser (f u) = true) (h : Sound users) : Sound (modifyUser users id f) where
  distinct := by
    rw [ids_modify hf]
    exact h.distinct
  valid := by
    intro v hv
    obtain ⟨u, hu, rfl⟩ := mem_map.1 hv
    split
    · exact hvalid u (h.valid u hu)
    · exact h.valid u hu

theorem sampleSession_quiet (s : State) (t : Tracked) : Quiet s (s.sampleSession t).1 := by
  unfold sampleSession
  split
  · exact ⟨rfl, rfl, rfl, id, fun _ => .refl _⟩
  · exact ⟨rfl, rfl, rfl, fun h => modifyUser_sound (fun _ => rfl) (fun _ => id) h,
      fun _ => modifyUser_same (fun _ => rfl) fun _ _ => ⟨rfl, fun _ => rfl⟩⟩

theorem foldl_quiet {α : Type} {f : State × Bool → α → State × Bool} (hf : ∀ p a, Quiet p.1 (f p a).1) (l : List α)
    (p : State × Bool) : Quiet p.1 (l.foldl f p).1 := by
  induction l generalizing p with
  | nil => exact .refl _
  | cons a l ih => exact (hf p a).trans (ih _)

theorem applyResets_quiet (s : State) (names : List Str) : Quiet s (s.applyResets names).1 := by
  refine foldl_quiet (fun p id => ?_) names (s, false)
  split
  · exact .refl _
  · exact applyReset_quiet _ _ _

theorem sampleSessions_quiet (s : State) (numbers : List ℕ) : Quiet s (s.sampleSessions numbers).1 := by
  refine foldl_quiet (fun p id => ?_) numbers (s, false)
  split
  · exact .refl _
  · exact sampleSession_quiet _ _

/-! ## The invariant -/

structure Settled (s : State) : Prop where
  valid : ∀ f, s.file = some f → validateState f = true
  bounded : ∀ f, s.file = some f → f.revision ≤ maxUint64
  /-- memory that is not ahead of the file agrees with it; at its maximum the revision says nothing -/
  agree : ∀ f, s.file = some f → s.memory.revision ≤ f.revision → s.memory.revision < maxUint64 →
    Sound s.memory.users ∧ SameCounts s.memory.users f.users
  above : s.edited = true → ∀ f, s.file = some f → s.memory.revision < f.revision

/-- the tracker has read the file in this call -/
structure Read (s : State) : Prop extends Settled s where
  unedited : s.edited = false
  newest : ∀ f, s.file = some f → f.revision ≤ s.memory.revision

theorem Settled.quiet (h : Settled s) (hq : Quiet s s') : Settled s' where
  valid := by
    rw [hq.file]
    exact h.valid
  bounded := by
    rw [hq.file]
    exact h.bounded
  agree := by
    rw [hq.file, hq.revision]
    intro f hf hle hlt
    obtain ⟨hs, hc⟩ := h.agree f hf hle hlt
    exact ⟨hq.sound hs, (hq.counts hs).symm.trans hc⟩
  above := by
    rw [hq.file, hq.revision, hq.edited]
    exact h.above

theorem Read.quiet (h : Read s) (hq : Quiet s s') : Read s' where
  toSettled := h.toSettled.quiet hq
  unedited := hq.edited.trans h.unedited
  newest := by
    rw [hq.file, hq.revision]
    exact h.newest

/-- what `reload` makes of the file -/
theorem reload_eq (h : s.reload = some s') : ∃ f, s.file = some f ∧ validateState f = true ∧
    s' = { s with memory := if s.memory.revision < f.revision then f else s.memory, edited := false } := by
  obtain ⟨f, hf, rfl⟩ := Option.map_eq_some_iff.1 h
  obtain ⟨hfile, hvalid⟩ := Option.filter_eq_some_iff.1 hf
  exact ⟨f, hfile, hvalid, rfl⟩

theorem reload_some {f : Persisted} (hf : s.file = some f) (hvalid : validateState f = true) :
    s.reload = some { s with memory := if s.memory.revision < f.revision then f else s.memory, edited := false } := by
  rw [reload, readState, hf, Option.filter_some, if_pos hvalid]
  rfl

theorem Settled.read (h : Settled s) (hr : s.reload = some s') : Read s' := by
  obtain ⟨f, hf, hvalid, rfl⟩ := reload_eq hr
  have hadopted : ∀ g, s.file = some g → g = f := fun g hg => Option.some.inj (hg.symm.trans hf)
  refine ⟨⟨h.valid, h.bounded, ?_, nofun⟩, rfl, ?_⟩
  · intro g hg
    obtain rfl := hadopted g hg
    split
    · exact fun _ _ => ⟨(validateState_iff.1 hvalid).2, .refl _⟩
    · exact h.agree g hf
  · intro g hg
    obtain rfl := hadopted g hg
    dsimp only
    split
    · exact le_rfl
    · omega

/-! ## The write -/

theorem saturatingAdd_le (a : ℕ) : saturatingAdd a 1 ≤ maxUint64 := by
  unfold saturatingAdd
  split <;> omega

theorem validateUser_sortDevices (h : validateUser u = true) : validateUser (sortDevices u) = true := by
  have hu := validateUser_iff.1 h
  have hperm : (sortDevices u).devices.Perm u.devices := perm_insertionSort _ _
  refine validateUser_iff.2 ⟨hu.name, by rw [hperm.length_eq]; exact hu.few, fun d hd => hu.nonzero d (hperm.mem_iff.1 hd),
    (hperm.map _).nodup_iff.2 hu.distinct, ?_⟩
  have hactive := hu.active
  rw [foldl_saturatingAdd _ (Nat.zero_le _)] at hactive ⊢
  rw [activeSum, (hperm.map _).sum_eq]
  exact hactive

theorem sortUsers_sound (h : Sound users) : Sound (sortUsers users) where
  distinct := (sortUsers_perm users).nodup_iff.2 h.distinct
  valid := by
    intro v hv
    obtain ⟨u, hu, rfl⟩ := mem_map.1 hv
    exact validateUser_sortDevices (h.valid u ((perm_insertionSort _ users).mem_iff.1 hu))

theorem sortUsers_length (users : List User) : (sortUsers users).length = users.length := by
  rw [sortUsers, length_map]
  exact (perm_insertionSort _ users).length_eq

theorem sortUsers_valid {n m : ℕ} (h : validateState ⟨n, users⟩ = true) : validateState ⟨m, sortUsers users⟩ = true := by
  obtain ⟨hlen, hs⟩ := validateState_iff.1 h
  refine validateState_iff.2 ⟨?_, sortUsers_sound hs⟩
  rw [sortUsers_length]
  exact hlen

/-- memory is ahead of the file, or at the last revision -/
def Ahead (s : State) : Prop := ∀ f, s.file = some f → f.revision < s.memory.revision ∨ maxUint64 ≤ s.memory.revision

/-- the two ways a write ends -/
inductive Persists (s s' : State) : Persistence → Prop
  | written (hfile : s'.file = some s'.memory) (hvalid : validateState s'.memory = true)
      (hbound : s'.memory.revision ≤ maxUint64) (hedited : s'.edited = s.edited) : Persists s s' .written
  | not {p : Persistence} (hp : p ≠ .written) (hahead : Ahead s') (hfile : ∀ f, s'.file = some f → s.file = some f)
      (hedited : s'.edited = s.edited) : Persists s s' p

theorem persist_cases (h : ∀ f, s.file = some f → f.revision ≤ s.memory.revision) (w : Write) :
    Persists s (s.persist w).1 (s.persist w).2 := by
  have hahead : ∀ f, s.file = some f → f.revision < saturatingAdd s.memory.revision 1 ∨
      maxUint64 ≤ saturatingAdd s.memory.revision 1 := by
    intro f hf
    have hle := h f hf
    unfold saturatingAdd
    split <;> omega
  unfold persist
  dsimp only
  split
  · exact .not nofun hahead (fun _ => id) rfl
  rename_i hvalid
  cases w with
  | ok => exact .written rfl (sortUsers_valid (by simpa using hvalid)) (saturatingAdd_le _) rfl
  | kept => exact .not nofun hahead (fun _ => id) rfl
  | removed => exact .not nofun nofun nofun rfl

/-- a write after which the state is the file's -/
theorem settled_written (hfile : s'.file = some s'.memory) (hvalid : validateState s'.memory = true)
    (hbound : s'.memory.revision ≤ maxUint64) (hedited : s'.edited = false) : Settled s' := by
  have heq : ∀ f, s'.file = some f → f = s'.memory := fun f hf => Option.some.inj (hf.symm.trans hfile)
  refine ⟨fun f hf => heq f hf ▸ hvalid, fun f hf => heq f hf ▸ hbound, fun f hf _ _ => ?_, fun he => ?_⟩
  · rw [heq f hf]
    exact ⟨(validateState_iff.1 hvalid).2, .refl _⟩
  · rw [hedited] at he
    cases he

/-- memory that is ahead of the file may hold anything -/
theorem settled_ahead (hahead : Ahead s') (hvalid : ∀ f, s'.file = some f → validateState f = true)
    (hbound : ∀ f, s'.file = some f → f.revision ≤ maxUint64) (hedited : s'.edited = false) : Settled s' := by
  refine ⟨hvalid, hbound, fun f hf hle hlt => ?_, fun he => ?_⟩
  · have := hahead f hf
    omega
  · rw [hedited] at he
    cases he

section

variable (h : Read s) (s₁ : State) (hfile : s₁.file = s.file) (hedited : s₁.edited = s.edited)
  (hrevision : s₁.memory.revision = s.memory.revision)
include h hfile hedited hrevision

/-- after the tracker has read the file it may write whatever it has made of the users -/
theorem persist_settled (w : Write) : Settled (s₁.persist w).1 := by
  have hnewest : ∀ f, s₁.file = some f → f.revision ≤ s₁.memory.revision := by
    rw [hfile, hrevision]
    exact h.newest
  have hunedited : s₁.edited = false := hedited.trans h.unedited
  generalize hout : s₁.persist w = out
  have hcases := persist_cases hnewest w
  rw [hout] at hcases
  obtain ⟨s', p⟩ := out
  cases hcases with
  | written hf hvalid hbound he => exact settled_written hf hvalid hbound (he.trans hunedited)
  | not hp hahead hf he =>
    have hold : ∀ f, s'.file = some f → s.file = some f := by
      rw [← hfile]
      exact hf
    exact settled_ahead hahead (fun f hf' => h.valid f (hold f hf')) (fun f hf' => h.bounded f (hold f hf')) (he.trans hunedited)

/-! ## The calls -/

theorem commit_settled (id : Str) (label : Option DeviceID) (w : Write) : Settled (s₁.commit id label w).1 := by
  have hnewest : ∀ f, s₁.file = some f → f.revision ≤ s₁.memory.revision := by
    rw [hfile, hrevision]
    exact h.newest
  have hcases := persist_cases hnewest w
  have hsettled := persist_settled h s₁ hfile hedited hrevision w
  unfold commit
  generalize hout : s₁.persist w = out at hcases hsettled
  obtain ⟨s', p⟩ := out
  cases hcases with
  | written => exact hsettled
  | not hp hahead hf he =>
    -- the rollback may hit any user: memory is ahead of the file
    have hrolled : Settled { s'.setUsers (s'.memory.users.modify (s₁.position id) fun u => decrementUserSession u label) with
        sessions := s'.sessions.filter fun t => decide (t.id ≠ s₁.nextID) } :=
      settled_ahead hahead hsettled.valid hsettled.bounded (he.trans (hedited.trans h.unedited))
    cases p with
    | written => exact absurd rfl hp
    | refused | failed => exact hrolled

end

theorem admitUnder_settled (h : Read s) (policy : Policy) (hid : validUserID id = true) (device : DeviceID)
    (first : Counters) (w : Write) : Settled (s.admitUnder policy id device first w).1 := by
  unfold admitUnder
  split
  · exact h.toSettled
  split
  · exact h.toSettled
  have hread := (h.quiet (ensureUser_quiet s hid)).quiet (applyReset_quiet _ id policy.generation)
  dsimp only
  split
  · exact hread.toSettled
  split
  · exact hread.toSettled
  next v label _ =>
    exact commit_settled hread (((s.ensureUser id).applyReset id policy.generation).1.register id v label first) rfl rfl rfl _ _ _

theorem admitSession_settled (h : Settled s) (id : Str) (device : DeviceID) (first : Counters) (w : Write) :
    Settled (s.admitSession id device first w).1 := by
  unfold admitSession
  split
  · exact h
  rename_i hname
  split
  · exact h
  rename_i s' hr
  have hread := (h.read hr).quiet (prune_quiet s')
  dsimp only
  split
  · exact hread.toSettled
  · exact admitUnder_settled hread _ (by simpa using hname) _ _ _

theorem sample_settled (h : Settled s) (w : Write) : Settled (s.sample w).1 := by
  unfold sample
  split
  · exact h
  rename_i s' hr
  have hreset := ((h.read hr).quiet (prune_quiet s')).quiet (applyResets_quiet _ (s'.prune.memory.users.map User.userID))
  have hread := hreset.quiet (sampleSessions_quiet _ ((s'.prune.applyResets (s'.prune.memory.users.map User.userID)).1.sessions.map
    Tracked.id))
  dsimp only
  split
  · exact hread.toSettled
  have hsettled := persist_settled hread _ rfl rfl rfl w
  split
  next heq =>
    rw [heq] at hsettled
    exact hsettled
  next heq =>
    rw [heq] at hsettled
    exact hsettled

theorem close_settled (h : Settled s) (id : ℕ) (w : Write) : Settled (s.close id w).1 := by
  unfold close
  split
  · exact h
  rename_i t ht
  split
  · exact h
  rename_i s' hr
  have hread := (h.read hr).quiet (sampleSession_quiet s' t)
  have hsettled := persist_settled hread
    ((s'.sampleSession t).1.endSession { t with last := (s'.sampleSession t).1.counters t.id }) rfl rfl rfl w
  dsimp only
  split
  next heq =>
    rw [heq] at hsettled
    exact hsettled
  next heq =>
    rw [heq] at hsettled
    exact hsettled

theorem snapshot_settled (h : Settled s) : Settled s.snapshot := by
  unfold snapshot
  cases hr : s.reload with
  | none => exact h
  | some s' => exact (h.read hr).toSettled

/-! ## The edits -/

theorem editFile_settled (h : Settled s) {f : Persisted} (hf : s.file = some f) (hlen : users.length ≤ maximumUsers)
    (hsound : Sound users) (hsame : SameCounts f.users users) (hok : s.memory.revision ≤ f.revision ∧ f.revision < maxUint64) :
    Settled (s.editFile f users) := by
  have hnew : ∀ g, (s.editFile f users).file = some g → g = ⟨f.revision + 1, users⟩ := by
    intro g hg
    rw [← saturatingAdd_one hok.2]
    exact (Option.some.inj hg).symm
  refine ⟨fun g hg => ?_, fun g hg => ?_, fun g hg _ hlt => ?_, fun _ g hg => ?_⟩
  · rw [hnew g hg]
    exact validateState_iff.2 ⟨hlen, hsound⟩
  · rw [hnew g hg]
    exact hok.2
  · obtain ⟨hs, hc⟩ := h.agree f hf hok.1 hlt
    rw [hnew g hg]
    exact ⟨hs, hc.trans hsame⟩
  · rw [hnew g hg]
    exact Nat.lt_succ_of_le hok.1

theorem length_modify (users : List User) (id : Str) (f : User → User) : (modifyUser users id f).length = users.length :=
  length_map _

theorem resetTraffic_settled (h : Settled s) (id : Str) (hok : EditsSettled s (.resetTraffic id)) :
    Settled (s.resetTraffic id).1 := by
  unfold resetTraffic
  split
  · exact { h with }
  rename_i f hf
  split
  · exact h
  rename_i hvalid
  obtain ⟨hlen, hs⟩ := (validateState_iff (p := f)).1 (by simpa using hvalid)
  split
  · exact { h with }
  have hkeeps : Keeps fun u : User => { u with total := .zero } := fun _ => rfl
  have hsound : Sound (modifyUser f.users id fun u => { u with total := .zero }) :=
    modifyUser_sound hkeeps (fun _ hu => hu) hs
  have hsame : SameCounts f.users (modifyUser f.users id fun u => { u with total := .zero }) :=
    modifyUser_same hkeeps fun _ _ => ⟨rfl, fun _ => rfl⟩
  have hedit := editFile_settled h hf (by rw [sortUsers_length, length_modify]; exact hlen) (sortUsers_sound hsound)
    (hsame.trans (sortUsers_same hsound)) (hok f hf)
  exact { hedit with }

/-- `RemoveOfflineDevice` in memory -/
def User.without (u : User) (device : DeviceID) : User :=
  { u with devices := u.devices.filter fun d => decide (d.deviceID ≠ device) }

theorem without_valid (h : validateUser u = true) (device : DeviceID) : validateUser (u.without device) = true := by
  have hu := validateUser_iff.1 h
  have hsub : (u.without device).devices.Sublist u.devices := filter_sublist
  refine validateUser_iff.2 ⟨hu.name, hsub.length_le.trans hu.few, fun d hd => hu.nonzero d (hsub.subset hd),
    hu.distinct.sublist (hsub.map _), ?_⟩
  have hactive := hu.active
  rw [foldl_saturatingAdd _ (Nat.zero_le _)] at hactive ⊢
  have hle : activeSum (u.without device).devices ≤ activeSum u.devices := (hsub.map _).sum_le_sum fun _ _ => Nat.zero_le _
  change min (0 + activeSum (u.without device).devices) maxUint64 ≤ u.activeSessions
  omega

/-- a device without sessions may go -/
theorem without_same {device : DeviceID} {d : Device} (hd : u.devices.find? (fun d => d.deviceID = device) = some d)
    (hzero : d.activeSessions = 0) : u.SameCounts (u.without device) := by
  refine ⟨rfl, fun device' => ?_⟩
  simp only [Device.sessionsOf, User.without, List.find?_filter]
  by_cases heq : device' = device
  · subst heq
    have hnone : u.devices.find? (fun d => decide (decide (d.deviceID ≠ device') = true ∧ decide (d.deviceID = device') = true)) =
        none := by
      simp
    rw [hd, hnone]
    exact hzero
  · congr 3
    funext x
    by_cases hx : x.deviceID = device' <;> simp [hx, heq]

theorem without_users {device : DeviceID} {d : Device} (hs : Sound users) (hu : findUser users id = some u)
    (hd : u.devices.find? (fun d => d.deviceID = device) = some d) (hzero : d.activeSessions = 0) :
    Sound (modifyUser users id fun u => u.without device) ∧ SameCounts users (modifyUser users id fun u => u.without device) := by
  have hkeeps : Keeps fun u : User => u.without device := fun _ => rfl
  refine ⟨modifyUser_sound hkeeps (fun u hu => without_valid hu device) hs, modifyUser_same hkeeps fun v hv => ?_⟩
  cases hu.symm.trans hv
  exact without_same hd hzero

theorem removeOfflineDevice_settled (h : Settled s) (id : Str) (device : DeviceID)
    (hok : EditsSettled s (.removeOfflineDevice id device)) : Settled (s.removeOfflineDevice id device).1 := by
  unfold removeOfflineDevice
  split
  · exact h
  rename_i f hf
  obtain ⟨hfile, hvalid⟩ := Option.filter_eq_some_iff.1 hf
  obtain ⟨hlen, hs⟩ := validateState_iff.1 hvalid
  split
  · exact h
  rename_i u hu
  split
  · exact h
  rename_i d hd
  split
  · exact h
  obtain ⟨hsound, hsame⟩ := without_users hs hu hd (by omega)
  exact editFile_settled h hfile (by rw [sortUsers_length, length_modify]; exact hlen) (sortUsers_sound hsound)
    (hsame.trans (sortUsers_same hsound)) (hok f hfile)

/-! ## Every run -/

theorem step_settled (s : State) (o : Op) (h : Settled s) (hok : EditsSettled s o) : Settled (step s o) := by
  cases o with
  | admitSession id device first w => exact admitSession_settled h id device first w
  | close id w => exact close_settled h id w
  | sample w => exact sample_settled h w
  | snapshot => exact snapshot_settled h
  | resetTraffic id => exact resetTraffic_settled h id hok
  | removeOfflineDevice id device => exact removeOfflineDevice_settled h id device hok
  | setPolicies policies | transfer id bytes => exact { h with }

/-- a user without sessions -/
def User.clear (u : User) : User :=
  { u with activeSessions := 0, devices := u.devices.map fun d => { d with activeSessions := 0 }, settled := u.total }

theorem clear_valid (h : validateUser u = true) : validateUser u.clear = true := by
  have hu := validateUser_iff.1 h
  have hids : u.clear.devices.map Device.deviceID = u.devices.map Device.deviceID := by
    rw [User.clear, map_map]
    rfl
  refine validateUser_iff.2 ⟨hu.name, (length_map _).trans_le hu.few, fun d hd => ?_, by rw [hids]; exact hu.distinct, ?_⟩
  · obtain ⟨e, he, rfl⟩ := mem_map.1 hd
    exact hu.nonzero e he
  · have hzero : activeSum u.clear.devices = 0 := by
      rw [activeSum, User.clear, map_map]
      exact sum_map_zero
    rw [foldl_saturatingAdd _ (Nat.zero_le _), hzero]
    exact Nat.min_le_left _ _

section

variable {revision : ℕ} (policies : Str → Option Policy) (h : validateState ⟨revision, users⟩ = true)
include h

theorem start_valid : validateState (State.start users revision policies).memory = true := by
  obtain ⟨hlen, hs⟩ := validateState_iff.1 h
  refine sortUsers_valid (n := revision) (validateState_iff.2 ⟨(length_map _).trans_le hlen, ?_, fun v hv => ?_⟩)
  · have hids : ids (users.map User.clear) = ids users := by
      rw [ids, map_map]
      rfl
    change (ids (users.map User.clear)).Nodup
    rw [hids]
    exact hs.distinct
  · obtain ⟨u, hu, rfl⟩ := mem_map.1 hv
    exact clear_valid (hs.valid u hu)

theorem start_settled : Settled (State.start users revision policies) :=
  settled_written rfl (start_valid policies h) (saturatingAdd_le _) rfl

end

/-- reading the file a second time changes nothing -/
theorem reload_reload (h : s.reload = some s') : s'.reload = some s' := by
  obtain ⟨f, hf, hvalid, heq⟩ := reload_eq h
  have hfile : s'.file = some f := by rw [heq]; exact hf
  have hnewest : ¬ s'.memory.revision < f.revision := by
    rw [heq]
    split
    · exact lt_irrefl _
    next hle => exact hle
  rw [reload_some hfile hvalid, if_neg hnewest, heq]

/-- a call of the tracker does nothing, or it works on what it has read -/
theorem tracker_reads (hr : s.reload = some s') {o : Op} (ho : o.tracker = true) : step s o = s ∨ step s o = step s' o := by
  have hagain := reload_reload hr
  cases o with
  | admitSession id device first w =>
    simp only [step, admitSession, hr, hagain]
    split
    · exact .inl rfl
    · exact .inr rfl
  | close id w =>
    have hsessions : s'.sessions = s.sessions := by
      obtain ⟨f, -, -, rfl⟩ := reload_eq hr
      rfl
    simp only [step, close, hr, hagain, hsessions]
    split
    · exact .inl rfl
    · exact .inr rfl
  | sample w =>
    right
    simp only [step, sample, hr, hagain]
  | snapshot =>
    right
    simp only [step, snapshot, hr, hagain, Option.getD_some]
  | resetTraffic | removeOfflineDevice | setPolicies | transfer => cases ho

theorem Settled.survive (h : Settled s) : EditsSurvive s := by
  have hadopts : s.edited = true → ∀ f, s.file = some f → s.reload = some { s with memory := f, edited := false } := by
    intro he f hf
    rw [reload_some hf (h.valid f hf), if_pos (h.above he f hf)]
  refine ⟨fun he s' hr => ?_, fun he f hf o ho => tracker_reads (hadopts he f hf) ho, fun s' hr => ?_⟩
  · obtain ⟨f, hf, -, -⟩ := reload_eq hr
    rw [hadopts he f hf] at hr
    cases hr
    exact hf.symm
  · obtain ⟨f, hf, -, rfl⟩ := reload_eq hr
    split
    next hlt => exact (h.agree f hf hlt.le (hlt.trans_le (h.bounded f hf))).2
    next => exact .refl _

/-- **External edits.** In every run whose edits find the tracker's last write in the file, the tracker's next call works on the
edited file, and reading the file changes no session count. -/
theorem edits_survive (users : List User) (revision : ℕ) (policies : Str → Option Policy)
    (h : validateState ⟨revision, users⟩ = true) (ops : List Op)
    (hg : Machine.Guarded step EditsSettled (State.start users revision policies) ops) :
    EditsSurvive (run (State.start users revision policies) ops) :=
  (Machine.run_inv_guarded step_settled (start_settled policies h) ops hg).survive

/-- the policies of one user -/
def single (generation : ℕ) : Str → Option Policy := fun id => if id = ascii "a" then some ⟨true, 0, generation⟩ else none

/-- one user with a session that transfers a byte and is sampled -/
def sampled (w : Write) : List Op :=
  [.admitSession (ascii "a") (Vector.replicate 16 0) .zero .ok, .transfer 1 ⟨1, 0⟩, .sample w]

/-- a reset after a write that went through -/
theorem edits_survive_reset : EditsSurvive (run (State.start [] 0 (single 0)) (sampled .ok ++ [.resetTraffic (ascii "a")])) :=
  edits_survive [] 0 (single 0) (by decide +kernel) _
    ⟨trivial, trivial, trivial, by decide +kernel, trivial⟩

/-- **Lost edit.** A reset after a write that failed is not seen. -/
theorem edit_lost : ¬ ∀ (users : List User) (revision : ℕ) (policies : Str → Option Policy) (ops : List Op),
    validateState ⟨revision, users⟩ = true → EditsSurvive (run (State.start users revision policies) ops) := by
  intro h
  have hseen := (h [] 0 (single 0) (sampled .kept ++ [.resetTraffic (ascii "a")]) (by decide +kernel)).seen (by decide +kernel)
  have hmissed : ∃ s', (run (State.start [] 0 (single 0)) (sampled .kept ++ [.resetTraffic (ascii "a")])).reload = some s' ∧
      some s'.memory ≠ (run (State.start [] 0 (single 0)) (sampled .kept ++ [.resetTraffic (ascii "a")])).file :=
    ⟨_, rfl, by decide +kernel⟩
  obtain ⟨s', hr, hne⟩ := hmissed
  exact hne (hseen s' hr)

end NeProto.Usage
