/-
What `Admit` leaves behind when its write fails (`internal/usage/tracker.go`).

`Admit` counts the session, writes the state and, if the write fails, takes the count back through the pointer it holds to the
user. `writeState` has sorted the users by then, unless `validateState` refused them: the pointer still names the place, and
another user may stand there.

- `Undoable`: the user's place is the one sorting gives it, or nothing is sorted.
- `admission_undone`: exactly then are all counts as before.
- `wrong_user_undone`: a new user whose name sorts before another's takes the count back from the other.
-/
import NeProto.Usage.Counts

namespace NeProto.Usage

open Function List State

open Protocol (DeviceID)

/-! ## One user -/

variable {u v : User} {device : DeviceID} {label : Option DeviceID} {devices : List Device} {s : State} {id : Str}

theorem saturatingAdd_eq {a : ℕ} (ha : a ≤ maxUint64) (b : ℕ) : saturatingAdd a b = min (a + b) maxUint64 := by
  unfold saturatingAdd
  split <;> omega

theorem saturatingAdd_one {a : ℕ} (ha : a < maxUint64) : saturatingAdd a 1 = a + 1 := by
  rw [saturatingAdd_eq ha.le]
  omega

def activeSum (devices : List Device) : ℕ := (devices.map Device.activeSessions).sum

theorem foldl_saturatingAdd (devices : List Device) {acc : ℕ} (hacc : acc ≤ maxUint64) :
    devices.foldl (fun active d => saturatingAdd active d.activeSessions) acc = min (acc + activeSum devices) maxUint64 := by
  induction devices generalizing acc with
  | nil =>
    simp only [foldl_nil, activeSum, map_nil, sum_nil]
    omega
  | cons d rest ih =>
    have hstep := saturatingAdd_eq hacc d.activeSessions
    rw [foldl_cons, ih (by omega)]
    simp only [activeSum, map_cons, sum_cons]
    omega

theorem User.Valid.sum_le (h : u.Valid) (hlt : u.activeSessions < maxUint64) : activeSum u.devices ≤ u.activeSessions := by
  have hactive := h.active
  rw [foldl_saturatingAdd u.devices (Nat.zero_le _)] at hactive
  omega

/-- the session counted at its device -/
def Device.count (device : DeviceID) (d : Device) : Device :=
  if d.deviceID = device then { d with activeSessions := saturatingAdd d.activeSessions 1 } else d

@[simp] theorem Device.count_id (device : DeviceID) (d : Device) : (d.count device).deviceID = d.deviceID := by
  unfold count
  split <;> rfl

/-- what `Admit` can do with a device -/
inductive Enrolled (u : User) (device : DeviceID) : User → Option DeviceID → Prop where
  | unlabelled : Enrolled u device u none
  | counted (hmem : device ∈ u.devices.map Device.deviceID) : Enrolled u device
      { u with devices := u.devices.map (Device.count device) } (some device)
  | added (hnew : device ∉ u.devices.map Device.deviceID) (hzero : device.isZero = false)
      (hroom : u.devices.length < maximumDevicesPerUser) :
      Enrolled u device { u with devices := u.devices ++ [⟨device, 1⟩] } (some device)

theorem enrol_cases {maxDevices : ℕ} (h : u.enrol maxDevices device = some (v, label)) : Enrolled u device v label := by
  simp only [User.enrol] at h
  split at h
  · cases h
    exact .unlabelled
  rename_i hzero
  split at h
  next hmem =>
    cases h
    exact .counted (by simpa using hmem)
  rename_i hnew
  split at h
  · cases h
  split at h
  · cases h
    exact .unlabelled
  next hroom =>
    cases h
    exact .added (by simpa using hnew) (by simpa using hzero) (by omega)

theorem Enrolled.same (h : Enrolled u device v label) : v.userID = u.userID ∧ v.activeSessions = u.activeSessions := by
  cases h <;> exact ⟨rfl, rfl⟩

/-- a device's sessions are among its user's -/
theorem active_le_sum {d : Device} (h : d ∈ devices) : d.activeSessions ≤ activeSum devices :=
  single_le_sum (fun _ _ => Nat.zero_le _) _ (mem_map_of_mem h)

theorem sessionsOf_map {f : Device → Device} (hf : ∀ d, (f d).deviceID = d.deviceID) (device : DeviceID) :
    Device.sessionsOf (devices.map f) device =
      ((devices.find? fun d => d.deviceID = device).map fun d => (f d).activeSessions).getD 0 := by
  rw [Device.sessionsOf, find?_map, Option.map_map]
  have hkey : ((fun d : Device => decide (d.deviceID = device)) ∘ f) = fun d => decide (d.deviceID = device) := by
    funext d
    simp [hf d]
  rw [hkey]
  rfl

/-- a counted session of the user -/
def User.count (u : User) : User := { u with activeSessions := saturatingAdd u.activeSessions 1 }

/-- the sessions of the devices, the new one included -/
theorem Enrolled.sessionsOf (h : Enrolled u device v label) (hu : u.Valid)
    (hlt : u.activeSessions < maxUint64) (x : DeviceID) :
    Device.sessionsOf v.devices x = Device.sessionsOf u.devices x + if label = some x then 1 else 0 := by
  cases h with
  | unlabelled => rfl
  | counted hmem =>
    rw [sessionsOf_map (Device.count_id device), Device.sessionsOf]
    cases hf : u.devices.find? fun d => decide (d.deviceID = x) with
    | none =>
      have hne : device ≠ x := by
        rintro rfl
        obtain ⟨d, hd, hid⟩ := mem_map.1 hmem
        exact absurd hid (by simpa using find?_eq_none.1 hf d hd)
      simp [hne]
    | some d =>
      have hle := (active_le_sum (mem_of_find?_eq_some hf)).trans (hu.sum_le hlt)
      have hid : d.deviceID = x := by simpa using find?_some hf
      by_cases hd : device = x
      · simp [Device.count, hd, hid, saturatingAdd_one (hle.trans_lt hlt)]
      · simp [Device.count, hd, hid, Ne.symm hd]
  | added hnew hzero hroom =>
    rw [Device.sessionsOf, find?_append, Device.sessionsOf]
    cases hf : u.devices.find? fun d => decide (d.deviceID = x) with
    | none =>
      by_cases hx : device = x
      · simp [hx]
      · simp [hx]
    | some d =>
      have hid : d.deviceID = x := by simpa using find?_some hf
      have hne : device ≠ x := by
        rintro rfl
        exact hnew (hid ▸ mem_map_of_mem (mem_of_find?_eq_some hf))
      simp [hne]

/-- a session that leaves a device -/
theorem decrement_devices (u : User) (label : Option DeviceID) (x : DeviceID) :
    Device.sessionsOf (decrementUserSession u label).devices x = Device.sessionsOf u.devices x - if label = some x then 1 else 0 := by
  have hkeeps : ∀ d : Device,
      (if some d.deviceID = label then { d with activeSessions := d.activeSessions - 1 } else d).deviceID = d.deviceID :=
    fun d => by split <;> rfl
  change Device.sessionsOf (u.devices.map _) x = _
  rw [sessionsOf_map hkeeps, Device.sessionsOf]
  cases hf : u.devices.find? fun d => decide (d.deviceID = x) with
  | none => simp
  | some d =>
    have hid : d.deviceID = x := by simpa using find?_some hf
    simp only [Option.map_some, Option.getD_some, hid]
    by_cases hx : some x = label
    · rw [if_pos hx, if_pos hx.symm]
    · rw [if_neg hx, if_neg (Ne.symm hx)]
      rfl

/-- **Undo.** Counting a session and taking it back leaves every count of the user as it was. -/
theorem Enrolled.undo (h : Enrolled u device v label) (hu : u.Valid)
    (hlt : u.activeSessions < maxUint64) : u.SameCounts (decrementUserSession v.count label) := by
  refine ⟨?_, fun x => ?_⟩
  · change u.activeSessions = saturatingAdd v.activeSessions 1 - 1
    rw [h.same.2, saturatingAdd_one hlt]
    rfl
  · rw [decrement_devices]
    exact (Nat.sub_eq_of_eq_add (h.sessionsOf hu hlt x)).symm

/-- counting one device adds one at most -/
theorem counted_sum (hd : (devices.map Device.deviceID).Nodup) (device : DeviceID) :
    activeSum (devices.map (Device.count device)) ≤ activeSum devices + 1 := by
  induction devices with
  | nil => exact Nat.zero_le _
  | cons d rest ih =>
    rw [map_cons, nodup_cons] at hd
    have hcount : saturatingAdd d.activeSessions 1 ≤ d.activeSessions + 1 := by
      unfold saturatingAdd
      split <;> omega
    simp only [activeSum, map_cons, sum_cons] at ih ⊢
    by_cases heq : d.deviceID = device
    · have hrest : rest.map (Device.count device) = rest := by
        conv_rhs => rw [← map_id rest]
        refine map_congr_left fun e he => if_neg fun hdev => hd.1 ?_
        rw [heq, ← hdev]
        exact mem_map_of_mem he
      rw [Device.count, if_pos heq, hrest]
      dsimp only
      omega
    · have hle := ih hd.2
      rw [Device.count, if_neg heq]
      omega

theorem Enrolled.valid (h : Enrolled u device v label) (hu : u.Valid)
    (hlt : u.activeSessions < maxUint64) : v.count.Valid := by
  have hsum := hu.sum_le hlt
  have hactive : ∀ w : User, w.activeSessions = u.activeSessions → activeSum w.devices ≤ u.activeSessions + 1 →
      w.count.devices.foldl (fun active d => saturatingAdd active d.activeSessions) 0 ≤ w.count.activeSessions := fun w hw hle => by
    rw [foldl_saturatingAdd _ (Nat.zero_le _)]
    change min (0 + activeSum w.devices) maxUint64 ≤ saturatingAdd w.activeSessions 1
    rw [hw, saturatingAdd_one hlt]
    omega
  cases h with
  | unlabelled => exact { hu with active := hactive u rfl (by omega) }
  | counted hmem =>
    refine ⟨hu.name, ?_, ?_, ?_, hactive _ rfl ?_⟩
    · change (u.devices.map _).length ≤ _
      rw [length_map]
      exact hu.few
    · intro d hd
      obtain ⟨e, he, rfl⟩ := mem_map.1 hd
      rw [Device.count_id]
      exact hu.nonzero e he
    · change ((u.devices.map _).map Device.deviceID).Nodup
      rw [map_map, show Device.deviceID ∘ Device.count device = Device.deviceID from funext (Device.count_id device)]
      exact hu.distinct
    · exact (counted_sum hu.distinct device).trans (by omega)
  | added hnew hzero hroom =>
    refine ⟨hu.name, ?_, ?_, ?_, hactive _ rfl ?_⟩
    · change (u.devices ++ [_]).length ≤ _
      rw [length_append, length_singleton]
      omega
    · intro d hd
      rcases mem_append.1 hd with hold | hlast
      · exact hu.nonzero d hold
      · obtain rfl := mem_singleton.1 hlast
        exact hzero
    · change ((u.devices ++ [_]).map Device.deviceID).Nodup
      rw [map_append]
      refine nodup_append.2 ⟨hu.distinct, nodup_singleton _, fun a ha b hb hab => hnew ?_⟩
      have hlast : b = device := mem_singleton.1 hb
      rwa [← hlast, ← hab]
    · simp only [activeSum, map_append, map_singleton, sum_append, sum_singleton]
      simp only [activeSum] at hsum
      omega

/-! ## The whole list -/

/-- the state the call works on: the newer of memory and file -/
def State.adopted (s : State) (f : Persisted) : List User := if s.memory.revision < f.revision then f.users else s.memory.users

/-- the users of the call, in the order they stand in before the write -/
def State.listed (s : State) (f : Persisted) (id : Str) : List Str :=
  let kept := ids ((s.adopted f).filter s.keeps)
  if id ∈ kept then kept else kept ++ [id]

/-- sorting does not happen, or leaves the user where it is -/
def State.Undoable (s : State) (f : Persisted) (id : Str) : Prop :=
  maximumUsers < (s.listed f id).length ∨ (s.listed f id).idxOf id = (s.listed f id).countP fun y => decide (y < id)

instance (s : State) (f : Persisted) (id : Str) : Decidable (s.Undoable f id) := by
  unfold State.Undoable
  infer_instance

theorem Sound.filter {users : List User} (h : Sound users) (p : User → Bool) : Sound (users.filter p) where
  distinct := h.distinct.sublist (filter_sublist.map _)
  valid := fun u hu => h.valid u (mem_of_mem_filter hu)

/-- a user that is pruned has no session -/
theorem prune_same {users : List User} (h : Sound users) : SameCounts users (users.filter s.keeps) := by
  intro id
  cases hf : findUser users id with
  | none =>
    have hnone : findUser (users.filter s.keeps) id = none := by
      rw [findUser_none] at hf ⊢
      exact fun hmem => hf ((filter_sublist.map _).subset hmem)
    simp [sessionsOf, deviceSessionsOf, hf, hnone]
  | some u =>
    obtain ⟨hu, hid⟩ := findUser_mem hf
    by_cases hk : s.keeps u = true
    · have hsome : findUser (users.filter s.keeps) id = some u :=
        (findUser_iff (h.filter _).distinct).2 ⟨mem_filter.2 ⟨hu, hk⟩, hid⟩
      simp [sessionsOf, deviceSessionsOf, hf, hsome]
    have hnone : findUser (users.filter s.keeps) id = none := by
      cases hg : findUser (users.filter s.keeps) id with
      | none => rfl
      | some v =>
        obtain ⟨hv, hvid⟩ := findUser_mem hg
        obtain ⟨hmem, hkeeps⟩ := mem_filter.1 hv
        have hsame : findUser users id = some v := (findUser_iff h.distinct).2 ⟨hmem, hvid⟩
        rw [hf] at hsame
        exact absurd (Option.some.inj hsame ▸ hkeeps) hk
    have hzero : u.activeSessions = 0 := by
      simp only [keeps, Bool.or_eq_true, decide_eq_true_eq, not_or] at hk
      omega
    have hvalid := validateUser_iff.1 (h.valid u hu)
    have hsum := hvalid.sum_le (by rw [hzero]; decide)
    refine ⟨by simp [sessionsOf, hf, hnone, hzero], fun device => ?_⟩
    simp only [deviceSessionsOf, hf, hnone, Option.map_some, Option.getD_some, Option.map_none, Option.getD_none,
      Device.sessionsOf]
    cases hd : u.devices.find? fun d => decide (d.deviceID = device) with
    | none => rfl
    | some d =>
      have hle := active_le_sum (mem_of_find?_eq_some hd)
      simp only [Option.map_some, Option.getD_some]
      omega

theorem newUser_valid (hid : validUserID id = true) : User.Valid ⟨id, 0, .zero, 0, [], .zero⟩ :=
  ⟨hid, Nat.zero_le _, nofun, nodup_nil, le_rfl⟩

/-- the list `Admit` works on before it counts the session -/
structure Prepared (users users' : List User) (id : Str) : Prop where
  sound : Sound users'
  counts : SameCounts users users'
  listed : ids users' = if id ∈ ids users then ids users else ids users ++ [id]

theorem ensureUser_prepared (h : Sound s.memory.users) (hid : validUserID id = true) :
    Prepared s.memory.users (s.ensureUser id).memory.users id := by
  simp only [ensureUser]
  split
  next hsome =>
    have hmem : id ∈ ids s.memory.users := by
      by_contra hnot
      rw [findUser_none.2 hnot] at hsome
      cases hsome
    exact ⟨h, .refl _, by rw [if_pos hmem]⟩
  next hnone =>
    have hnot : id ∉ ids s.memory.users := findUser_none.1 (by simpa using hnone)
    have hids : ids (s.memory.users ++ [⟨id, 0, .zero, 0, [], .zero⟩]) = ids s.memory.users ++ [id] := by
      simp [ids]
    refine ⟨⟨?_, fun u hu => ?_⟩, fun id' => ?_, by rw [if_neg hnot]; exact hids⟩
    · change (ids (s.memory.users ++ [_])).Nodup
      rw [hids]
      exact nodup_append.2 ⟨h.distinct, nodup_singleton _, fun a ha b hb hab =>
        hnot (by rw [← mem_singleton.1 hb, ← hab]; exact ha)⟩
    · rcases mem_append.1 hu with hold | hlast
      · exact h.valid u hold
      · obtain rfl := mem_singleton.1 hlast
        exact validateUser_iff.2 (newUser_valid hid)
    · have hfind : findUser (s.memory.users ++ [⟨id, 0, .zero, 0, [], .zero⟩]) id' =
          (findUser s.memory.users id').or (if id = id' then some ⟨id, 0, .zero, 0, [], .zero⟩ else none) := by
        rw [findUser, find?_append, findUser]
        simp only [find?_singleton, decide_eq_true_eq]
      simp only [sessionsOf, deviceSessionsOf, setUsers, hfind]
      cases findUser s.memory.users id' with
      | some u => exact ⟨rfl, fun _ => rfl⟩
      | none =>
        split <;> exact ⟨rfl, fun _ => rfl⟩

theorem applyReset_prepared (id : Str) (generation : ℕ) (h : Sound s.memory.users) :
    Sound (s.applyReset id generation).1.memory.users ∧ SameCounts s.memory.users (s.applyReset id generation).1.memory.users ∧
      ids (s.applyReset id generation).1.memory.users = ids s.memory.users := by
  simp only [applyReset]
  split
  · exact ⟨h, .refl _, rfl⟩
  split
  · exact ⟨h, .refl _, rfl⟩
  have hkeeps : Keeps fun u : User => { u with resetGeneration := generation, total := .zero, settled := .zero } := fun _ => rfl
  refine ⟨⟨?_, fun v hv => ?_⟩, modifyUser_same hkeeps fun u _ => ⟨rfl, fun _ => rfl⟩, ids_modify hkeeps⟩
  · change (ids (modifyUser _ _ _)).Nodup
    rw [ids_modify hkeeps]
    exact h.distinct
  · obtain ⟨u, hu, rfl⟩ := mem_map.1 hv
    have hvalid := h.valid u hu
    split
    · exact hvalid
    · exact hvalid

/-! ## The write -/

section Commit

variable {users : List User} {id : Str} {u v : User} {device : DeviceID} {label : Option DeviceID}

/-- the list with the session counted -/
def counted (users : List User) (id : Str) (v : User) : List User := modifyUser users id fun _ => v.count

/-- `v` under the name of `x` -/
def User.named (v x : User) : User := { v with userID := x.userID }

theorem named_keeps (v : User) : Keeps v.named := fun _ => rfl

/-- the count as a change that keeps every ID -/
theorem counted_eq (hv : v.userID = id) : counted users id v = modifyUser users id v.count.named := by
  refine map_congr_left fun x _ => ?_
  split
  next hx =>
    have hid : x.userID = v.count.userID := hx.trans hv.symm
    rw [User.named, hid]
  next => rfl

theorem ids_counted (hv : v.userID = id) : ids (counted users id v) = ids users := by
  rw [counted_eq hv]
  exact ids_modify (named_keeps _)

theorem findUser_counted (hv : v.userID = id) (hu : findUser users id = some u) : findUser (counted users id v) id = some v.count := by
  have hid : u.userID = v.count.userID := (findUser_mem hu).2.trans hv.symm
  rw [counted_eq hv, findUser_modify (named_keeps _), if_pos rfl, hu, Option.map_some, User.named, hid]

theorem counted_sound (h : Sound users) (hu : findUser users id = some u) (he : Enrolled u device v label)
    (hlt : u.activeSessions < maxUint64) : Sound (counted users id v) := by
  obtain ⟨hmem, hid⟩ := findUser_mem hu
  have hv : v.userID = id := he.same.1.trans hid
  refine ⟨by rw [ids_counted hv]; exact h.distinct, fun x hx => ?_⟩
  obtain ⟨y, hy, rfl⟩ := mem_map.1 hx
  split
  · exact validateUser_iff.2 (he.valid (validateUser_iff.1 (h.valid u hmem)) hlt)
  · exact h.valid y hy

theorem decrement_keeps (label : Option DeviceID) : Keeps fun x => decrementUserSession x label := fun _ => rfl

/-- **Undone.** Taking the count back from the right user restores every count. -/
theorem counted_undone (h : Sound users) (hu : findUser users id = some u) (he : Enrolled u device v label)
    (hlt : u.activeSessions < maxUint64) :
    SameCounts users (modifyUser (counted users id v) id fun x => decrementUserSession x label) := by
  obtain ⟨hmem, hid⟩ := findUser_mem hu
  have hv : v.userID = id := he.same.1.trans hid
  have hundo := he.undo (validateUser_iff.1 (h.valid u hmem)) hlt
  intro id'
  simp only [sessionsOf, deviceSessionsOf, findUser_modify (decrement_keeps label)]
  split
  next heq =>
    subst heq
    rw [findUser_counted hv hu, hu]
    exact ⟨hundo.1, hundo.2⟩
  next hne =>
    rw [counted_eq hv, findUser_modify (named_keeps _), if_neg hne]
    exact ⟨rfl, fun _ => rfl⟩

/-- sorting first makes no difference to the counts -/
theorem decrement_sorted (h : Sound users) (id : Str) (label : Option DeviceID) :
    SameCounts (modifyUser users id fun x => decrementUserSession x label)
      (modifyUser (sortUsers users) id fun x => decrementUserSession x label) := by
  have hperm := perm_insertionSort (fun a b : User => a.userID ≤ b.userID) users
  have hfind : ∀ id', findUser (sortUsers users) id' = (findUser users id').map sortDevices := fun id' => by
    rw [sortUsers, findUser_map sortDevices_keeps, findUser_perm hperm.symm h.distinct]
  intro id'
  simp only [sessionsOf, deviceSessionsOf, findUser_modify (decrement_keeps label), hfind]
  cases hx : findUser users id' with
  | none => split <;> exact ⟨rfl, fun _ => rfl⟩
  | some x =>
    have hvalid := validateUser_iff.1 (h.valid x (findUser_mem hx).1)
    have hdevices : x.devices.Perm (sortDevices x).devices := (perm_insertionSort _ _).symm
    split
    · refine ⟨rfl, fun d => sessionsOf_perm (hdevices.map _) ?_ d⟩
      rw [map_map]
      refine (map_congr_left fun e _ => ?_) ▸ hvalid.distinct
      simp only [comp_apply]
      split <;> rfl
    · exact ⟨rfl, fun d => sessionsOf_perm hdevices hvalid.distinct d⟩

/-- **The place.** After sorting, the user's old place holds the user exactly if as many names are smaller as stood before it. -/
theorem sorted_place (h : Sound users) (hmem : id ∈ ids users) :
    ∃ y, (sortUsers users)[(ids users).idxOf id]? = some y ∧
      (y.userID = id ↔ (ids users).idxOf id = (ids users).countP fun z => decide (z < id)) := by
  have hlen : (ids users).idxOf id < (ids users).length := idxOf_lt_length_of_mem hmem
  have hperm := sortUsers_perm users
  have hsize : (ids users).idxOf id < (sortUsers users).length := by
    have heq := hperm.length_eq
    simp only [ids, length_map] at heq
    rw [heq]
    simpa [ids] using hlen
  refine ⟨(sortUsers users)[(ids users).idxOf id], getElem?_eq_getElem hsize, ?_⟩
  have hsorted := sortUsers_sorted h.distinct
  have hget : (ids (sortUsers users))[(ids users).idxOf id]? = some (sortUsers users)[(ids users).idxOf id].userID := by
    change ((sortUsers users).map User.userID)[(ids users).idxOf id]? = _
    rw [getElem?_map, getElem?_eq_getElem hsize, Option.map_some]
  have hrank := rank_eq hsorted hget
  constructor
  · intro hid
    rw [hid] at hrank
    rw [← hperm.countP_eq, hrank]
  intro hplace
  obtain ⟨i, hi⟩ := mem_iff_getElem?.1 (hperm.mem_iff.2 hmem)
  have hother := rank_eq hsorted hi
  rw [hperm.countP_eq, ← hplace] at hother
  rw [← hother] at hi
  exact Option.some.inj (hget.symm.trans hi)

/-- the pointer is the place of the ID -/
theorem position_eq (s : State) (id : Str) : s.position id = (ids s.memory.users).idxOf id := by
  rw [position, idxOf, ids, findIdx_map]
  congr 1
  funext u
  exact (beq_eq_decide u.userID id).symm

theorem place_self {users : List User} {id : Str} (hmem : id ∈ ids users) :
    ∃ x, users[(ids users).idxOf id]? = some x ∧ x.userID = id := by
  have hlen : (ids users).idxOf id < (ids users).length := idxOf_lt_length_of_mem hmem
  have hsize : (ids users).idxOf id < users.length := by
    rwa [ids, length_map] at hlen
  refine ⟨users[(ids users).idxOf id], getElem?_eq_getElem hsize, ?_⟩
  have hget : (users.map User.userID)[(ids users).idxOf id]? = some id := by
    rw [← ids, getElem?_eq_getElem hlen, getElem_idxOf]
  rw [getElem?_map, getElem?_eq_getElem hsize] at hget
  exact Option.some.inj hget

/-- **The end of `Admit`.** `s` has the session counted on top of `users`. -/
theorem commit_undone {s : State} {w : Write} (h : Sound users) (hu : findUser users id = some u)
    (he : Enrolled u device v label) (hlt : u.activeSessions < maxUint64) (hs : s.memory.users = counted users id v)
    (herr : (s.commit id label w).2 = .error .write) :
    SameCounts users (s.commit id label w).1.memory.users ↔
      maximumUsers < (ids users).length ∨ (ids users).idxOf id = (ids users).countP fun y => decide (y < id) := by
  have hv : v.userID = id := he.same.1.trans (findUser_mem hu).2
  have hsound := counted_sound h hu he hlt
  have hids : ids (counted users id v) = ids users := ids_counted hv
  have hmem : id ∈ ids (counted users id v) := by
    rw [hids, ← (findUser_mem hu).2]
    exact mem_map_of_mem (findUser_mem hu).1
  have hpos : s.position id = (ids (counted users id v)).idxOf id := by rw [position_eq, hs]
  have hlength : (counted users id v).length = (ids users).length := by rw [← hids, ids, length_map]
  have hvalid : validateState { s.memory with revision := saturatingAdd s.memory.revision 1 } = true ↔
      ¬maximumUsers < (ids (counted users id v)).length := by
    rw [validateState_iff, hs, hlength, hids, not_lt]
    exact and_iff_left hsound
  rw [← hids]
  by_cases hmany : maximumUsers < (ids (counted users id v)).length
  · -- refused: nothing is sorted, and the pointer is right
    have hrefused := Bool.eq_false_of_not_eq_true fun h => hvalid.1 h hmany
    obtain ⟨x, hx, hxid⟩ := place_self hmem
    have hresult : (s.commit id label w).1.memory.users =
        modifyUser (counted users id v) id fun x => decrementUserSession x label := by
      simp only [commit, persist, hrefused, if_true, setUsers]
      rw [hpos, hs, modify_eq hsound.distinct hx, hxid]
    rw [hresult]
    exact iff_of_true (counted_undone h hu he hlt) (.inl hmany)
  · have haccepted := ne_false_of_eq_true (hvalid.2 hmany)
    obtain ⟨y, hy, hplace⟩ := sorted_place hsound hmem
    have hdistinct : (ids (sortUsers (counted users id v))).Nodup := (sortUsers_perm _).nodup_iff.2 hsound.distinct
    have hresult : (s.commit id label w).1.memory.users =
        modifyUser (sortUsers (counted users id v)) y.userID fun x => decrementUserSession x label := by
      cases w with
      | ok =>
        simp only [commit, persist, haccepted] at herr
        cases herr
      | kept | removed =>
        simp only [commit, persist, if_neg haccepted, setUsers]
        rw [hpos, hs, modify_eq hdistinct hy]
    rw [hresult, or_iff_right hmany, ← hplace]
    constructor
    · -- the user still counts the session if another stands at its place
      intro hsame
      by_contra hne
      have hcount := (hsame id).1
      have hsorted := (sortUsers_same hsound id).1
      simp only [sessionsOf, findUser_modify (decrement_keeps label), if_neg (Ne.symm hne), findUser_counted hv hu, hu]
        at hcount hsorted
      rw [← hsorted] at hcount
      change u.activeSessions = saturatingAdd v.activeSessions 1 at hcount
      rw [he.same.2, saturatingAdd_one hlt] at hcount
      omega
    · intro hid
      rw [hid]
      exact (counted_undone h hu he hlt).trans (decrement_sorted hsound id label)

end Commit

/-! ## The call -/

/-- the calls of `Admit` that get as far as the write -/
structure Reaches (s : State) (f : Persisted) (id : Str) (device : DeviceID) (first : Counters) (w : Write) (users : List User)
    (u v : User) (label : Option DeviceID) (s' : State) : Prop where
  name : validUserID id = true
  prepared : Prepared ((s.adopted f).filter s.keeps) users id
  found : findUser users id = some u
  enrolled : Enrolled u device v label
  counted : s'.memory.users = counted users id v
  result : s.admitSession id device first w = s'.commit id label w

theorem reaches {f : Persisted} {first : Counters} {w : Write}
    (hs : Sound s.memory.users) (hf : readState s.file = some f) (herr : (s.admitSession id device first w).2 = .error .write) :
    ∃ users u v label s', Reaches s f id device first w users u v label s' := by
  have hfile : Sound f.users := by
    obtain ⟨-, hvalid⟩ := Option.filter_eq_some_iff.1 hf
    exact (validateState_iff.1 hvalid).2
  have hadopted : Sound (s.adopted f) := by
    unfold adopted
    split
    · exact hfile
    · exact hs
  let reloaded : State :=
    { s with memory := if s.memory.revision < f.revision then f else s.memory, edited := false }
  have hreload : s.reload = some reloaded := by
    rw [reload, hf]
    rfl
  have husers : reloaded.prune.memory.users = (s.adopted f).filter s.keeps := by
    change (if s.memory.revision < f.revision then f else s.memory).users.filter s.keeps = _
    unfold adopted
    split <;> rfl
  simp only [admitSession, hreload] at herr
  split at herr
  · cases herr
  rename_i hname
  split at herr
  · cases herr
  rename_i policy hpolicy
  simp only [admitUnder] at herr
  split at herr
  · cases herr
  rename_i hactive
  split at herr
  · cases herr
  rename_i hidentity
  split at herr
  · cases herr
  rename_i u hu
  split at herr
  · cases herr
  rename_i v label hv
  have hid : validUserID id = true := by simpa using hname
  have hkept : Sound reloaded.prune.memory.users := by
    rw [husers]
    exact hadopted.filter _
  have hensured := ensureUser_prepared hkept hid
  obtain ⟨hsound, hcounts, hids⟩ := applyReset_prepared id policy.generation hensured.sound
  refine ⟨_, u, v, label, ((reloaded.prune.ensureUser id).applyReset id policy.generation).1.register id v label first,
    hid, ⟨hsound, ?_, ?_⟩, hu, enrol_cases hv, rfl, ?_⟩
  · rw [← husers]
    exact hensured.counts.trans hcounts
  · rw [hids, hensured.listed, husers]
  · simp only [admitSession, if_neg hname, hreload, hpolicy, admitUnder, if_neg hactive, if_neg hidentity,
      hu, hv]

/-- **Admission undone.** When `Admit` returns the error of its write, every user and device has as many sessions in memory as
before exactly if the user's place survives the sorting. -/
theorem admission_undone (s : State) (id : Str) (device : DeviceID) (first : Counters) (w : Write) (f : Persisted)
    (hs : Sound s.memory.users) (hf : readState s.file = some f)
    (hsettled : s.memory.revision < f.revision → SameCounts s.memory.users f.users)
    (hlt : sessionsOf s.memory.users id < maxUint64) (herr : (s.admitSession id device first w).2 = .error .write) :
    SameCounts s.memory.users (s.admitSession id device first w).1.memory.users ↔ s.Undoable f id := by
  obtain ⟨users, u, v, label, s', h⟩ := reaches hs hf herr
  have hadopted : Sound (s.adopted f) ∧ SameCounts s.memory.users (s.adopted f) := by
    unfold State.adopted
    split
    next hnewer =>
      obtain ⟨-, hvalid⟩ := Option.filter_eq_some_iff.1 hf
      exact ⟨(validateState_iff.1 hvalid).2, hsettled hnewer⟩
    next => exact ⟨hs, .refl _⟩
  have hsame : SameCounts s.memory.users users :=
    (hadopted.2.trans (prune_same hadopted.1)).trans h.prepared.counts
  have hcount : u.activeSessions < maxUint64 := by
    have heq := (hsame id).1
    rw [heq, sessionsOf, h.found] at hlt
    exact hlt
  rw [h.result] at herr ⊢
  have hend := commit_undone h.prepared.sound h.found h.enrolled hcount h.counted herr
  have hlisted : s.listed f id = ids users := h.prepared.listed.symm
  rw [State.Undoable, hlisted, ← hend]
  exact ⟨fun hall => hsame.symm.trans hall, fun hall => hsame.trans hall⟩

/-- two users may connect; the second of them in the order of names has one session -/
def online : State where
  memory := ⟨1, [⟨ascii "b", 0, .zero, 1, [], .zero⟩]⟩
  sessions := [⟨1, ascii "b", none, .zero, .zero, .zero⟩]
  nextID := 1
  file := some ⟨1, [⟨ascii "b", 0, .zero, 1, [], .zero⟩]⟩
  policies := fun id => if id = ascii "a" ∨ id = ascii "b" ∨ id = ascii "c" then some ⟨true, 0, 0⟩ else none
  counters := fun _ => .zero
  edited := false
  ended := fun _ => .zero
  completed := fun _ => false

theorem online_sound : Sound online.memory.users :=
  (validateState_iff (p := online.memory)).1 (by decide +kernel) |>.2

/-- a new user that sorts behind the other is not counted after the write failed -/
theorem admission_undone_last :
    SameCounts online.memory.users
      (online.admitSession (ascii "c") (Vector.replicate 16 0) .zero .kept).1.memory.users :=
  (admission_undone online (ascii "c") (Vector.replicate 16 0) .zero .kept online.memory online_sound (by decide +kernel)
    (fun h => absurd h (by decide)) (by decide +kernel) (by decide +kernel)).2 (by decide +kernel)

/-- **The wrong user.** A new user that sorts before the other stays counted, and the other loses its session. -/
theorem wrong_user_undone : ¬ ∀ (s : State) (id : Str) (device : DeviceID) (first : Counters) (w : Write),
    Sound s.memory.users → (s.admitSession id device first w).2 = .error .write →
      SameCounts s.memory.users (s.admitSession id device first w).1.memory.users := by
  intro h
  have hsame := h online (ascii "a") (Vector.replicate 16 0) .zero .kept online_sound (by decide +kernel)
  have hother := (hsame (ascii "b")).1
  exact absurd hother (by decide +kernel)

end NeProto.Usage
