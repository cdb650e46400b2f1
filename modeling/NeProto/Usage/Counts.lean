/-
Lists of users: how lookups and session counts follow the changes the tracker makes to them.

- `Sound`: what every state read from a file satisfies, but for the number of users.
- `findUser_iff`, `findUser_modify`: a lookup is membership, and a change shows in the lookup of its user only.
- `SameCounts`: every user and device has as many sessions in both lists.
- `sortUsers_same`: sorting changes no count. `rank_eq`: in the sorted list a user stands at its rank.
-/
import NeProto.Usage.Tracker

namespace NeProto.Usage

open List

open Protocol (DeviceID)

/-! ## Lookups -/

variable {users : List User} {id : Str} {u : User} {f : User → User}

/-- a lookup by a key that does not repeat is membership -/
theorem find_by_iff {α κ : Type} [DecidableEq κ] {key : α → κ} {l : List α} (hd : (l.map key).Nodup) {k : κ} {x : α} :
    l.find? (fun y => decide (key y = k)) = some x ↔ x ∈ l ∧ key x = k := by
  refine ⟨fun h => ⟨mem_of_find?_eq_some h, by simpa using find?_some h⟩, fun ⟨hx, hkey⟩ => ?_⟩
  cases hf : l.find? fun y => decide (key y = k) with
  | none => exact absurd hkey (by simpa using find?_eq_none.1 hf x hx)
  | some y =>
    have hy : key y = k := by simpa using find?_some hf
    rw [inj_on_of_nodup_map hd (mem_of_find?_eq_some hf) hx (hy.trans hkey.symm)]

theorem find_by_perm {α κ : Type} [DecidableEq κ] {key : α → κ} {l l' : List α} (hp : l.Perm l') (hd : (l.map key).Nodup)
    (k : κ) : l.find? (fun y => decide (key y = k)) = l'.find? fun y => decide (key y = k) := by
  have hd' : (l'.map key).Nodup := (hp.map key).nodup_iff.1 hd
  apply Option.ext
  intro x
  rw [find_by_iff hd, find_by_iff hd', hp.mem_iff]

def ids (users : List User) : List Str := users.map User.userID

structure Sound (users : List User) : Prop where
  distinct : (ids users).Nodup
  valid : ∀ u ∈ users, validateUser u = true

theorem validateState_iff {p : Persisted} : validateState p = true ↔ p.users.length ≤ maximumUsers ∧ Sound p.users := by
  simp only [validateState, Bool.and_eq_true, decide_eq_true_eq, all_eq_true, and_assoc]
  exact ⟨fun h => ⟨h.1, h.2.2, h.2.1⟩, fun h => ⟨h.1, h.2.valid, h.2.distinct⟩⟩

theorem findUser_mem (h : findUser users id = some u) : u ∈ users ∧ u.userID = id :=
  ⟨mem_of_find?_eq_some h, by simpa using find?_some h⟩

/-- **Lookup.** -/
theorem findUser_iff (hd : (ids users).Nodup) : findUser users id = some u ↔ u ∈ users ∧ u.userID = id :=
  find_by_iff hd

theorem findUser_none : findUser users id = none ↔ id ∉ ids users := by
  simp [findUser, ids]

theorem findUser_perm {users' : List User} (hp : users.Perm users') (hd : (ids users).Nodup) (id : Str) :
    findUser users id = findUser users' id :=
  find_by_perm hp hd id

/-- a change of one user that keeps its ID -/
def Keeps (f : User → User) : Prop := ∀ u, (f u).userID = u.userID

theorem ids_modify (hf : Keeps f) : ids (modifyUser users id f) = ids users := by
  rw [ids, modifyUser, map_map]
  refine map_congr_left fun u _ => ?_
  simp only [Function.comp_apply]
  split
  · exact hf u
  · rfl

theorem findUser_map (hf : Keeps f) (id : Str) : findUser (users.map f) id = (findUser users id).map f := by
  rw [findUser, find?_map]
  congr 2
  funext u
  simp [hf u]

theorem findUser_modify (hf : Keeps f) (id' : Str) :
    findUser (modifyUser users id f) id' = if id' = id then (findUser users id').map f else findUser users id' := by
  have hkeeps : Keeps fun u => if u.userID = id then f u else u := fun u => by
    change (if u.userID = id then f u else u).userID = u.userID
    split
    · exact hf u
    · rfl
  rw [modifyUser, findUser_map hkeeps]
  cases hfind : findUser users id' with
  | none => split <;> rfl
  | some u =>
    obtain ⟨-, rfl⟩ := findUser_mem hfind
    split
    · next h => simp [h]
    · next h => simp [h]

/-- a change at a place is a change of the user there -/
theorem modify_eq (hd : (ids users).Nodup) {i : ℕ} {x : User} (hx : users[i]? = some x) (f : User → User) :
    users.modify i f = modifyUser users x.userID f := by
  apply ext_getElem?
  intro j
  rw [getElem?_modify, modifyUser, getElem?_map]
  cases hj : users[j]? with
  | none => rfl
  | some y =>
    have hij : i = j ↔ y.userID = x.userID := by
      constructor
      · rintro rfl
        rw [Option.some.inj (hj.symm.trans hx)]
      intro hid
      obtain ⟨hi, hxi⟩ := List.getElem?_eq_some_iff.1 hx
      obtain ⟨hjl, hyj⟩ := List.getElem?_eq_some_iff.1 hj
      have hi' : i < (ids users).length := by simpa [ids] using hi
      have hj' : j < (ids users).length := by simpa [ids] using hjl
      refine (@List.Nodup.getElem_inj_iff _ _ hd i hi' j hj').1 ?_
      simp only [ids, getElem_map, hxi, hyj, hid]
    simp [hij]

/-! ## Session counts -/

def Device.sessionsOf (devices : List Device) (device : DeviceID) : ℕ :=
  ((devices.find? fun d => d.deviceID = device).map Device.activeSessions).getD 0

def sessionsOf (users : List User) (id : Str) : ℕ := ((findUser users id).map User.activeSessions).getD 0

def deviceSessionsOf (users : List User) (id : Str) (device : DeviceID) : ℕ :=
  ((findUser users id).map fun u => Device.sessionsOf u.devices device).getD 0

/-- every user and device has as many sessions in both -/
def SameCounts (users users' : List User) : Prop :=
  ∀ id, sessionsOf users id = sessionsOf users' id ∧ ∀ device, deviceSessionsOf users id device = deviceSessionsOf users' id device

theorem SameCounts.refl (users : List User) : SameCounts users users := fun _ => ⟨rfl, fun _ => rfl⟩

theorem SameCounts.symm {a b : List User} (h : SameCounts a b) : SameCounts b a :=
  fun id => ⟨(h id).1.symm, fun device => ((h id).2 device).symm⟩

theorem SameCounts.trans {a b c : List User} (h : SameCounts a b) (h' : SameCounts b c) : SameCounts a c :=
  fun id => ⟨(h id).1.trans (h' id).1, fun device => ((h id).2 device).trans ((h' id).2 device)⟩

/-- the counts of one user -/
def User.SameCounts (u v : User) : Prop :=
  u.activeSessions = v.activeSessions ∧ ∀ device, Device.sessionsOf u.devices device = Device.sessionsOf v.devices device

/-- a change that keeps the counts of the user it finds keeps all counts -/
theorem modifyUser_same (hf : Keeps f)
    (h : ∀ u ∈ findUser users id, u.SameCounts (f u)) : SameCounts users (modifyUser users id f) := by
  intro id'
  simp only [sessionsOf, deviceSessionsOf, findUser_modify hf]
  split
  next heq =>
    subst heq
    cases hfind : findUser users id' with
    | none => exact ⟨rfl, fun _ => rfl⟩
    | some u => exact ⟨(h u hfind).1, (h u hfind).2⟩
  next => exact ⟨rfl, fun _ => rfl⟩

theorem sessionsOf_perm {devices devices' : List Device} (hp : devices.Perm devices')
    (hd : (devices.map Device.deviceID).Nodup) (device : DeviceID) :
    Device.sessionsOf devices device = Device.sessionsOf devices' device := by
  rw [Device.sessionsOf, find_by_perm hp hd, Device.sessionsOf]

/-! ## Sorting -/

/-- what `validateUser` checks of the devices -/
structure User.Valid (u : User) : Prop where
  name : validUserID u.userID = true
  few : u.devices.length ≤ maximumDevicesPerUser
  nonzero : ∀ d ∈ u.devices, d.deviceID.isZero = false
  distinct : (u.devices.map Device.deviceID).Nodup
  active : u.devices.foldl (fun active d => saturatingAdd active d.activeSessions) 0 ≤ u.activeSessions

theorem validateUser_iff : validateUser u = true ↔ u.Valid := by
  simp only [validateUser, Bool.and_eq_true, decide_eq_true_eq, all_eq_true, Bool.not_eq_true', and_assoc]
  exact ⟨fun h => ⟨h.1, h.2.1, h.2.2.1, h.2.2.2.1, h.2.2.2.2⟩, fun h => ⟨h.1, h.2, h.3, h.4, h.5⟩⟩

theorem sortDevices_keeps : Keeps sortDevices := fun _ => rfl

theorem sortUsers_ids (users : List User) :
    ids (sortUsers users) = ids (users.insertionSort fun a b => a.userID ≤ b.userID) := by
  rw [sortUsers, ids, map_map]
  rfl

theorem sortUsers_perm (users : List User) : (ids (sortUsers users)).Perm (ids users) := by
  rw [sortUsers_ids]
  exact (perm_insertionSort _ users).map User.userID

theorem sortUsers_same (h : Sound users) : SameCounts users (sortUsers users) := by
  intro id
  have hperm := perm_insertionSort (fun a b : User => a.userID ≤ b.userID) users
  have hfind : findUser (sortUsers users) id = (findUser users id).map sortDevices := by
    rw [sortUsers, findUser_map sortDevices_keeps, findUser_perm hperm.symm h.distinct]
  simp only [sessionsOf, deviceSessionsOf, hfind]
  cases hu : findUser users id with
  | none => exact ⟨rfl, fun _ => rfl⟩
  | some u =>
    have hvalid := validateUser_iff.1 (h.valid u (findUser_mem hu).1)
    exact ⟨rfl, fun device => sessionsOf_perm (perm_insertionSort _ _).symm hvalid.distinct device⟩

instance : Std.Total fun a b : User => a.userID ≤ b.userID := ⟨fun a b => List.le_total a.userID b.userID⟩

instance : IsTrans User fun a b => a.userID ≤ b.userID := ⟨fun _ _ _ h h' => List.le_trans h h'⟩

theorem sortUsers_sorted (hd : (ids users).Nodup) : (ids (sortUsers users)).Pairwise (· < ·) := by
  rw [sortUsers_ids, ids, pairwise_map]
  have hsorted := pairwise_insertionSort (fun a b : User => a.userID ≤ b.userID) users
  have hnodup : (ids (users.insertionSort fun a b => a.userID ≤ b.userID)).Nodup := by
    rw [← sortUsers_ids]
    exact (sortUsers_perm users).nodup_iff.2 hd
  rw [ids, List.Nodup, pairwise_map] at hnodup
  exact (hsorted.and hnodup).imp fun h => Std.lt_iff_le_and_ne.2 h

/-- in a strictly increasing list as many names are smaller as stand before -/
theorem rank_eq {l : List Str} (hl : l.Pairwise (· < ·)) {i : ℕ} {x : Str} (hx : l[i]? = some x) :
    l.countP (fun y => decide (y < x)) = i := by
  induction l generalizing i with
  | nil => simp at hx
  | cons a rest ih =>
    rw [pairwise_cons] at hl
    cases i with
    | zero =>
      obtain rfl : a = x := by simpa using hx
      rw [countP_cons_of_neg (by simp), countP_eq_zero]
      intro y hy
      simpa using List.not_lt.2 (List.le_of_lt (hl.1 y hy))
    | succ i =>
      have hrest : rest[i]? = some x := by simpa using hx
      rw [countP_cons_of_pos (by simpa using hl.1 x (mem_of_getElem? hrest)), ih hl.2 hrest]

end NeProto.Usage
