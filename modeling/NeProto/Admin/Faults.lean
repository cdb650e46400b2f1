/-
User calls whose file operations fail (`internal/admin/manager.go`): `AddUser`, `RotateUser`, `RevokeUser` and `DeleteUser` are
sequences of file operations with a branch for each failure that puts back what was moved.

- `Step` names the operations that may fail; several system calls with one consequence are one step. `fails` says which do. The
  operations that put things back are not among them: they succeed.
- `saveIndex` goes on after the new index is in its place: it syncs the directory, and sets the owner of the directories and of
  the file. An error of these is an error of `saveIndex`, and the callers put the credentials back under the new index. The error
  of the last operation of `DeleteUser` comes after everything is done.
- a temporary file is not kept here: nobody reads it, and its creator removes it.

- `user_calls_roll_back`: if none of these late operations fails, a call that returns an error has changed nothing, and the index
  and the active directory agree in every state reached.
- `revoked_and_active`: a failed sync leaves a revoked user with an active credential.
-/
import NeProto.Admin.Lockout

namespace NeProto.Admin

open AList List

/-! ## Files and operations -/

structure Files where
  index : IndexFile
  /-- `index.json.previous` -/
  previous : IndexFile
  active : Directory
  revoked : Directory

inductive Step where
  /-- `writeNewFile`: the exclusive creation -/
  | createCredential
  /-- chmod, write, sync or close of the new file, which is then removed -/
  | finishCredential
  /-- chown or chmod of a credential -/
  | secureCredential
  | createTemporary
  | finishTemporary
  /-- `RotateUser`: the old credential is moved to the archive -/
  | archive
  /-- `RotateUser`: the new credential is moved to its place -/
  | activate
  | revoke
  | listArchive
  | makeQuarantine
  | secureQuarantine
  /-- an archived credential is moved to the quarantine -/
  | stage (name : Str)
  /-- `RemoveClusterUserAccess` -/
  | clusterAccess
  /-- the last operation of `DeleteUser` -/
  | eraseQuarantine
  | ensureDirectory
  | createIndex
  | finishIndex
  | renameIndex
  /-- the way round a rename that does not replace -/
  | backupIndex
  | renameIndexAgain
  | syncDirectory
  /-- chown or chmod of the directories above the index -/
  | secureParents
  /-- chown or chmod of the index -/
  | secureIndex
deriving DecidableEq

def IndexFile.isAbsent : IndexFile → Bool
  | .absent => true
  | _ => false

section Calls

variable (L : Library) (service : Bool) (fails : Step → Bool)

/-! ## The index -/

variable (d : Files)

def replaceFile (next : IndexFile) : Files × Bool :=
  if fails .ensureDirectory || fails .createIndex || fails .finishIndex then (d, false)
  else if fails .renameIndex then
    if !d.index.isAbsent && fails .backupIndex then ({ d with previous := .absent }, false)
    else
      -- an index that is not there is not moved, and there is nothing to put back
      let moved := { d with index := .absent, previous := d.index }
      if fails .renameIndexAgain then ({ moved with index := moved.previous, previous := .absent }, false)
      else ({ moved with index := next, previous := .absent }, !fails .syncDirectory)
  else ({ d with index := next }, !fails .syncDirectory)

/-- `saveIndex`; the files have an owner to set if the installation names a service account -/
def writeIndex (users : List User) : Files × Bool :=
  let replaced := replaceFile fails d (saveIndex L users)
  (replaced.1, replaced.2 && !(service && fails .secureParents) && !(service && fails .secureIndex))

/-! ## The calls -/

namespace Files

def addUser (name : Str) (profile : Profile) (random : Str) (now : ℕ) : Files × Bool :=
  if validUserName L name = true ∧ profile ≠ .other then
    match loadIndex L d.index with
    | none => (d, false)
    | some users =>
      if users.any fun existing => L.equalFold existing.name name then (d, false)
      else
        match newIdentifier users randomAttempts random with
        | none => (d, false)
        | some (identifier, rest) =>
          match newSecret randomAttempts rest with
          | none => (d, false)
          | some secret =>
            if secretName identifier ∈ d.active ∨ fails .createCredential = true then (d, false)
            else
              let created := { d with active := d.active.insert (secretName identifier) (secretFile secret) }
              let removed := { created with active := created.active.erase (secretName identifier) }
              if fails .finishCredential || (service && fails .secureCredential) then (removed, false)
              else
                match writeIndex L service fails created (sortUsers L (users ++ [newUser identifier name now])) with
                | (d, true) => (d, true)
                | (d, false) => ({ d with active := d.active.erase (secretName identifier) }, false)
  else (d, false)

/-- the user of a call, and what the call makes of it -/
def target (identifier : Str) (change : User → Option User) : Option (List User × User) :=
  if validIdentifier identifier then
    (loadIndex L d.index).bind fun users => ((findUser users identifier).bind change).map fun user => (users, user)
  else none

def changeUser (identifier : Str) (change : User → Option User) : Files × Bool :=
  match target L d identifier change with
  | none => (d, false)
  | some (users, user) => writeIndex L service fails d (replaceUser users user)

def rotateUser (identifier random : Str) (now : ℕ) : Files × Bool :=
  match target L d identifier (rotate now) with
  | none => (d, false)
  | some (users, user) =>
    match newSecret randomAttempts random with
    | none => (d, false)
    | some secret =>
      match d.active.lookup (secretName identifier) with
      | none => (d, false)
      | some file =>
        if file.regular = false then (d, false)
        else
          match uniqueRevokedPath d.revoked.keys (identifier ++ ascii "-rotated") with
          | none => (d, false)
          | some archive =>
            if fails .createTemporary || fails .finishTemporary || (service && fails .secureCredential) || fails .archive then
              (d, false)
            else
              let archived := { d with active := d.active.erase (secretName identifier), revoked := d.revoked.insert archive file }
              -- the archived credential back in its place
              let back := fun d : Files =>
                { d with active := d.active.insert (secretName identifier) file, revoked := d.revoked.erase archive }
              if fails .activate then (back archived, false)
              else
                let activated := { archived with active := archived.active.insert (secretName identifier) (secretFile secret) }
                match writeIndex L service fails activated (replaceUser users user) with
                | (d, true) => (d, true)
                | (d, false) => (back { d with active := d.active.erase (secretName identifier) }, false)

def revokeUser (identifier : Str) (now : ℕ) : Files × Bool :=
  match target L d identifier (revoke now) with
  | none => (d, false)
  | some (users, user) =>
    match loadActiveDirectory d.active with
    | none => (d, false)
    | some loaded =>
      if loaded.map (·.id) = [identifier] then (d, false)
      else
        match uniqueRevokedPath d.revoked.keys identifier, d.active.lookup (secretName identifier) with
        | some archive, some file =>
          if fails .revoke then (d, false)
          else
            let moved := { d with active := d.active.erase (secretName identifier), revoked := d.revoked.insert archive file }
            match writeIndex L service fails moved (replaceUser users user) with
            | (d, true) => (d, true)
            | (d, false) =>
              ({ d with active := d.active.insert (secretName identifier) file, revoked := d.revoked.erase archive }, false)
        | _, _ => (d, false)

/-- the loop of `DeleteUser`: what is left in the archive, what was moved, latest first, and whether all went well -/
def stage (identifier : Str) : List (Σ _ : Str, File) → Directory → List (Str × File) → Directory × List (Str × File) × Bool
  | [], left, moved => (left, moved, true)
  | entry :: entries, left, moved =>
    if belongsTo identifier entry.1 = false then stage identifier entries left moved
    else if entry.2.regular = false ∨ fails (.stage entry.1) = true then (left, moved, false)
    else stage identifier entries (left.erase entry.1) ((entry.1, entry.2) :: moved)

/-- `rollbackFiles` -/
def restore (moved : List (Str × File)) (left : Directory) : Directory :=
  moved.foldl (fun directory file => directory.insert file.1 file.2) left

def deleteUser (identifier : Str) : Files × Bool :=
  match target L d identifier some with
  | none => (d, false)
  | some (users, user) =>
    if user.status ≠ .revoked then (d, false)
    else if fails .listArchive || fails .makeQuarantine || fails .secureQuarantine then (d, false)
    else
      match stage fails identifier d.revoked.entries d.revoked [] with
      | (left, moved, false) => ({ d with revoked := restore moved left }, false)
      | (left, moved, true) =>
        match writeIndex L service fails { d with revoked := left } (users.eraseP fun other => decide (other.id = identifier)) with
        | (d, false) => ({ d with revoked := restore moved d.revoked }, false)
        | (d, true) =>
          if fails .clusterAccess then ({ d with index := saveIndex L users, revoked := restore moved d.revoked }, false)
          else (d, !fails .eraseQuarantine)

end Files

end Calls

inductive Call where
  | addUser (name : Str) (profile : Profile) (random : Str) (now : ℕ)
  | rotateUser (identifier random : Str) (now : ℕ)
  | revokeUser (identifier : Str) (now : ℕ)
  | deleteUser (identifier : Str)
  | setUserDeviceLimit (identifier : Str) (maximum : ℤ)
  | resetUserTraffic (identifier : Str) (now : ℕ)

def perform (L : Library) (service : Bool) (fails : Step → Bool) (d : Files) : Call → Files × Bool
  | .addUser name profile random now => d.addUser L service fails name profile random now
  | .rotateUser identifier random now => d.rotateUser L service fails identifier random now
  | .revokeUser identifier now => d.revokeUser L service fails identifier now
  | .deleteUser identifier => d.deleteUser L service fails identifier
  | .setUserDeviceLimit identifier maximum => d.changeUser L service fails identifier (limitDevices maximum)
  | .resetUserTraffic identifier now => d.changeUser L service fails identifier (resetTraffic now)

/-- a call and the operations that fail during it -/
structure Attempt where
  call : Call
  fails : Step → Bool

def attempt (L : Library) (service : Bool) (d : Files) (a : Attempt) : Files := (perform L service a.fails d a.call).1

/-! ## The properties -/

/-- the users the index holds, whether or not they can be read -/
def IndexFile.users : IndexFile → List User
  | .document _ _ (some users) => users
  | _ => []

/-- the credential files of an identifier -/
def credentialFiles (directory : Directory) (identifier : Str) : List (Σ _ : Str, File) :=
  (secretEntries directory).filter fun entry => decide (entry.1.take (entry.1.length - secretSuffix.length) = identifier)

/-- active users have one credential file, revoked ones none -/
def Consistent (d : Files) : Prop :=
  ∀ user ∈ d.index.users,
    (user.status = .active → (credentialFiles d.active user.id).length = 1) ∧
      (user.status = .revoked → credentialFiles d.active user.id = [])

instance (d : Files) : Decidable (Consistent d) := by
  unfold Consistent
  infer_instance

/-- the index, the active and the archived credentials are the same -/
structure Unchanged (d d' : Files) : Prop where
  index : d'.index = d.index
  active : ∀ name, d'.active.lookup name = d.active.lookup name
  revoked : ∀ name, d'.revoked.lookup name = d.revoked.lookup name

/-- what follows the new index succeeds -/
structure Sheltered (service : Bool) (fails : Step → Bool) : Prop where
  sync : fails .syncDirectory = false
  parents : (service && fails .secureParents) = false
  file : (service && fails .secureIndex) = false
  erase : fails .eraseQuarantine = false

/-! ## Directories -/

section Directories

variable (directory : Directory) (name other : Str) (file : File)

theorem lookup_insert : (directory.insert name file).lookup other = if other = name then some file else directory.lookup other := by
  split
  next h =>
    subst h
    exact lookup_insert directory
  next h => exact lookup_insert_ne h

theorem lookup_erase : (directory.erase name).lookup other = if other = name then none else directory.lookup other := by
  split
  next h =>
    subst h
    exact lookup_erase _ _
  next h => exact lookup_erase_ne h

theorem mem_of_lookup {directory : Directory} {name : Str} : name ∈ directory ↔ (directory.lookup name).isSome = true :=
  lookup_isSome.symm

end Directories

variable {identifier : Str}

theorem secretName_inj {a b : Str} (h : secretName a = secretName b) : a = b := append_cancel_right h

/-- every user has its credential file or has none -/
def Agrees (users : List User) (active : Directory) : Prop :=
  ∀ user ∈ users, (user.status = .active → secretName user.id ∈ active) ∧ (user.status = .revoked → secretName user.id ∉ active)

theorem mem_credentialFiles {directory : Directory} {entry : Σ _ : Str, File} :
    entry ∈ credentialFiles directory identifier ↔ entry ∈ directory.entries ∧ entry.1 = secretName identifier := by
  simp only [credentialFiles, secretEntries, mem_filter, isSecret, decide_eq_true_eq, and_assoc]
  refine and_congr_right fun _ => ⟨fun h => ?_, fun h => ?_⟩
  · rw [← h.2, secretName_take h.1]
  rw [h]
  refine ⟨suffix_append _ _, ?_⟩
  rw [secretName, length_append, Nat.add_sub_cancel, take_left]

theorem credentialFiles_le (directory : Directory) (identifier : Str) : (credentialFiles directory identifier).length ≤ 1 := by
  have hnodup : (credentialFiles directory identifier).Nodup :=
    (directory.nodupKeys.nodup.sublist filter_sublist).sublist filter_sublist
  cases hfiles : credentialFiles directory identifier with
  | nil => exact Nat.zero_le _
  | cons a rest =>
    cases rest with
    | nil => exact le_rfl
    | cons b rest =>
      have ha := mem_credentialFiles.1 (hfiles ▸ mem_cons_self : a ∈ credentialFiles directory identifier)
      have hb := mem_credentialFiles.1
        (hfiles ▸ mem_cons_of_mem _ mem_cons_self : b ∈ credentialFiles directory identifier)
      have hab : a = b := directory.nodupKeys.eq_of_fst_eq ha.1 hb.1 (ha.2.trans hb.2.symm)
      rw [hfiles, hab] at hnodup
      simp at hnodup

theorem credentialFiles_iff (directory : Directory) (identifier : Str) :
    secretName identifier ∈ directory ↔ credentialFiles directory identifier ≠ [] := by
  constructor
  · intro hmem hnil
    obtain ⟨file, hfile⟩ := Option.isSome_iff_exists.1 (mem_of_lookup.1 hmem)
    have hentry := mem_credentialFiles.2 ⟨mem_lookup_iff.1 hfile, rfl⟩
    rw [hnil] at hentry
    exact not_mem_nil hentry
  · intro hne
    obtain ⟨entry, hentry⟩ := exists_mem_of_ne_nil _ hne
    obtain ⟨hmem, hname⟩ := mem_credentialFiles.1 hentry
    rw [← hname]
    exact mem_keys.2 (mem_map_of_mem hmem)

theorem consistent_iff {d : Files} : Consistent d ↔ Agrees d.index.users d.active := by
  refine forall₂_congr fun user _ => and_congr (forall_congr' fun _ => ?_) (forall_congr' fun _ => ?_)
  · rw [credentialFiles_iff]
    have hle := credentialFiles_le d.active user.id
    rw [← length_pos_iff]
    omega
  · rw [credentialFiles_iff, not_not]

theorem Agrees.lookup {users : List User} {active active' : Directory} (h : Agrees users active)
    (heq : ∀ name, active'.lookup name = active.lookup name) : Agrees users active' := by
  intro user hu
  simp only [mem_of_lookup, heq]
  simp only [Agrees, mem_of_lookup] at h
  exact h user hu

/-! ## The index -/

theorem users_of_loadIndex {L : Library} {index : IndexFile} {users : List User} (h : loadIndex L index = some users) :
    index.users = users := by
  cases index with
  | absent => exact Option.some.inj h
  | malformed => cases h
  | document size version list =>
    simp only [loadIndex] at h
    split at h
    · split at h
      · cases h
      split at h
      · exact Option.some.inj h
      · cases h
    · cases h

/-- how a write of the index ends when nothing fails behind it -/
inductive Written (L : Library) (d : Files) (users : List User) : Files × Bool → Prop
  | kept (previous : IndexFile) : Written L d users ({ d with previous := previous }, false)
  | replaced (previous : IndexFile) : Written L d users ({ d with index := saveIndex L users, previous := previous }, true)

section Steps

variable {L : Library} {service : Bool} {fails : Step → Bool} {d : Files}

variable {name identifier : Str} {users : List User} {user : User} {active : Directory}

theorem writeIndex_cases (hs : Sheltered service fails) (d : Files) (users : List User) :
    Written L d users (writeIndex L service fails d users) := by
  simp only [writeIndex, hs.parents, hs.file, Bool.not_false, Bool.and_true, replaceFile, hs.sync]
  split
  · exact .kept d.previous
  split
  · split
    · exact .kept .absent
    split
    · exact .kept .absent
    · exact .replaced .absent
  · exact .replaced d.previous

/-- the credentials are not touched by a write of the index, whatever fails -/
theorem writeIndex_directories (L : Library) (service : Bool) (fails : Step → Bool) (d : Files) (users : List User) :
    ∃ index previous ok, writeIndex L service fails d users = (⟨index, previous, d.active, d.revoked⟩, ok) := by
  simp only [writeIndex, replaceFile]
  split
  · exact ⟨_, _, _, rfl⟩
  split
  · split
    · exact ⟨_, _, _, rfl⟩
    · split <;> exact ⟨_, _, _, rfl⟩
  · exact ⟨_, _, _, rfl⟩

theorem Unchanged.refl (d : Files) : Unchanged d d := ⟨rfl, fun _ => rfl, fun _ => rfl⟩

/-- how a call ends: nothing is changed, or the new index agrees with the directory if the old one did -/
inductive Settles (L : Library) (d : Files) : Files × Bool → Prop
  | undone {d' : Files} (h : Unchanged d d') : Settles L d (d', false)
  | done {d' : Files} {users users' : List User} (hload : loadIndex L d.index = some users)
      (hindex : d'.index = saveIndex L users') (hagrees : Agrees users d.active → Agrees users' d'.active) : Settles L d (d', true)

theorem target_spec {change : User → Option User} (h : d.target L identifier change = some (users, user)) :
    loadIndex L d.index = some users ∧ ∃ u ∈ users, u.id = identifier ∧ change u = some user := by
  simp only [Files.target] at h
  split at h
  · obtain ⟨users', hload, h⟩ := Option.bind_eq_some_iff.1 h
    obtain ⟨user', hfind, heq⟩ := Option.map_eq_some_iff.1 h
    obtain ⟨u, hu, hchange⟩ := Option.bind_eq_some_iff.1 hfind
    cases heq
    obtain ⟨hmem, hid⟩ := findUser_spec hu
    exact ⟨hload, u, hmem, hid, hchange⟩
  · cases h

/-! ## Additions -/

theorem Agrees.add (h : Agrees users active) (user : User) (hactive : user.status = .active)
    (hnew : ∀ u ∈ users, u.id ≠ user.id) (file : File) {users' : List User} (hperm : users'.Perm (users ++ [user])) :
    Agrees users' (active.insert (secretName user.id) file) := by
  intro u hu
  simp only [mem_of_lookup, lookup_insert]
  rcases mem_append.1 (hperm.mem_iff.1 hu) with hold | hlast
  · have hne : secretName u.id ≠ secretName user.id := fun heq => hnew u hold (secretName_inj heq)
    rw [if_neg hne]
    simp only [Agrees, mem_of_lookup] at h
    exact h u hold
  · obtain rfl := mem_singleton.1 hlast
    rw [if_pos rfl]
    exact ⟨fun _ => rfl, fun hrevoked => nomatch hactive.symm.trans hrevoked⟩

theorem addUser_settles (hs : Sheltered service fails) (d : Files) (name : Str) (profile : Profile) (random : Str) (now : ℕ) :
    Settles L d (d.addUser L service fails name profile random now) := by
  unfold Files.addUser
  split
  · split
    · exact .undone (.refl d)
    rename_i users hload
    split
    · exact .undone (.refl d)
    split
    · exact .undone (.refl d)
    rename_i identifier rest hid
    split
    · exact .undone (.refl d)
    rename_i secret hsecret
    split
    · exact .undone (.refl d)
    rename_i hfree
    have hnone : d.active.lookup (secretName identifier) = none := lookup_eq_none.2 (not_or.1 hfree).1
    -- what was created and removed again is as if it had not been created
    have hback : ∀ n, ((d.active.insert (secretName identifier) (secretFile secret)).erase (secretName identifier)).lookup n =
        d.active.lookup n := by
      intro n
      rw [lookup_erase, lookup_insert]
      split
      next heq => rw [heq, hnone]
      next => rfl
    dsimp only
    split
    · exact .undone ⟨rfl, hback, fun _ => rfl⟩
    have hcases := writeIndex_cases (L := L) hs
      { d with active := d.active.insert (secretName identifier) (secretFile secret) }
      (sortUsers L (users ++ [newUser identifier name now]))
    generalize writeIndex L service fails _ _ = out at hcases ⊢
    cases hcases with
    | kept => exact .undone ⟨rfl, hback, fun _ => rfl⟩
    | replaced =>
      refine .done hload rfl fun hagrees => ?_
      exact hagrees.add (newUser identifier name now) rfl (newIdentifier_spec hid).2 _ (perm_insertionSort _ _)
  · exact .undone (.refl d)

/-! ## Changes of one user -/

theorem Agrees.replace {active' : Directory} (h : Agrees users active) {changed : User} (hid : changed.id = user.id)
    (hself : (changed.status = .active → secretName user.id ∈ active') ∧ (changed.status = .revoked → secretName user.id ∉ active'))
    (hother : ∀ name, name ≠ secretName user.id → active'.lookup name = active.lookup name) :
    Agrees (replaceUser users changed) active' := by
  intro u hu
  obtain ⟨v, hv, rfl⟩ := mem_map.1 hu
  split
  next heq =>
    rw [hid]
    exact hself
  next hne =>
    have hname : secretName v.id ≠ secretName user.id := fun heq => hne ((secretName_inj heq).trans hid.symm)
    simp only [mem_of_lookup, hother _ hname]
    simp only [Agrees, mem_of_lookup] at h
    exact h v hv

/-- a change that leaves the credential where it is -/
theorem Agrees.keep {active' : Directory} (h : Agrees users active) {changed : User}
    (hmem : user ∈ users) (hid : changed.id = user.id) (hstatus : changed.status = user.status)
    (hsome : ∀ name, (active'.lookup name).isSome = (active.lookup name).isSome) : Agrees (replaceUser users changed) active' := by
  intro u hu
  obtain ⟨v, hv, rfl⟩ := mem_map.1 hu
  simp only [Agrees, mem_of_lookup] at h
  split
  · simp only [mem_of_lookup, hsome, hid, hstatus]
    exact h user hmem
  · simp only [mem_of_lookup, hsome]
    exact h v hv

theorem changeUser_settles (hs : Sheltered service fails) (d : Files) (identifier : Str) {change : User → Option User}
    (hchange : ∀ u v, change u = some v → v.id = u.id ∧ v.status = u.status) :
    Settles L d (d.changeUser L service fails identifier change) := by
  unfold Files.changeUser
  split
  · exact .undone (.refl d)
  rename_i users user htarget
  obtain ⟨hload, u, hmem, -, hu⟩ := target_spec htarget
  have hcases := writeIndex_cases (L := L) hs d (replaceUser users user)
  generalize writeIndex L service fails _ _ = out at hcases ⊢
  cases hcases with
  | kept => exact .undone ⟨rfl, fun _ => rfl, fun _ => rfl⟩
  | replaced =>
    refine .done hload rfl fun hagrees => ?_
    exact hagrees.keep hmem (hchange u user hu).1 (hchange u user hu).2 fun _ => rfl

/-- the archive has no file of the name it is given -/
theorem uniqueRevokedPath_free {revoked : Directory} {stem archive : Str} (h : uniqueRevokedPath revoked.keys stem = some archive) :
    revoked.lookup archive = none := by
  have hfree := List.find?_some h
  exact AList.lookup_eq_none.2 fun hmem => by simp [AList.mem_keys.1 hmem] at hfree

/-- a credential that went to the archive and came back -/
theorem back_unchanged {archive : Str} {file : File} (hfile : d.active.lookup name = some file)
    (hfree : d.revoked.lookup archive = none) {previous : IndexFile}
    (hactive : ∀ n, n ≠ name → active.lookup n = d.active.lookup n) :
    Unchanged d ⟨d.index, previous, active.insert name file, (d.revoked.insert archive file).erase archive⟩ := by
  refine ⟨rfl, fun n => ?_, fun n => ?_⟩
  · rw [lookup_insert]
    split
    next heq => rw [heq, hfile]
    next hne => exact hactive n hne
  · rw [lookup_erase]
    split
    next heq => rw [heq, hfree]
    next hne => rw [lookup_insert, if_neg hne]

theorem rotateUser_settles (hs : Sheltered service fails) (d : Files) (identifier random : Str) (now : ℕ) :
    Settles L d (d.rotateUser L service fails identifier random now) := by
  unfold Files.rotateUser
  split
  · exact .undone (.refl d)
  rename_i users user htarget
  obtain ⟨hload, u, hmem, hid, hu⟩ := target_spec htarget
  obtain rfl := rotate_spec hu
  split
  · exact .undone (.refl d)
  rename_i secret hsecret
  split
  · exact .undone (.refl d)
  rename_i file hfile
  split
  · exact .undone (.refl d)
  split
  · exact .undone (.refl d)
  rename_i archive hunique
  have hfree := uniqueRevokedPath_free hunique
  split
  · exact .undone (.refl d)
  dsimp only
  split
  · exact .undone (back_unchanged hfile hfree fun n hne => by rw [lookup_erase, if_neg hne])
  have hcases := writeIndex_cases (L := L) hs
    { d with
      active := (d.active.erase (secretName identifier)).insert (secretName identifier) (secretFile secret)
      revoked := d.revoked.insert archive file } (replaceUser users { u with rotatedAt := some now })
  generalize writeIndex L service fails _ _ = out at hcases ⊢
  cases hcases with
  | kept =>
    refine .undone (back_unchanged hfile hfree fun n hne => ?_)
    rw [lookup_erase, if_neg hne, lookup_insert, if_neg hne, lookup_erase, if_neg hne]
  | replaced =>
    refine .done hload rfl fun hagrees => hagrees.keep hmem rfl rfl fun n => ?_
    rw [lookup_insert, lookup_erase]
    split
    next heq =>
      rw [heq, hfile]
      rfl
    next => rfl

theorem revokeUser_settles (hs : Sheltered service fails) (d : Files) (identifier : Str) (now : ℕ) :
    Settles L d (d.revokeUser L service fails identifier now) := by
  unfold Files.revokeUser
  split
  · exact .undone (.refl d)
  rename_i users user htarget
  obtain ⟨hload, u, hmem, hid, hu⟩ := target_spec htarget
  obtain rfl := revoke_spec hu
  split
  · exact .undone (.refl d)
  split
  · exact .undone (.refl d)
  split
  next archive file hunique hfile =>
    have hfree := uniqueRevokedPath_free hunique
    split
    · exact .undone (.refl d)
    have hcases := writeIndex_cases (L := L) hs
      { d with active := d.active.erase (secretName identifier), revoked := d.revoked.insert archive file }
      (replaceUser users { u with status := .revoked, revokedAt := some now })
    dsimp only
    generalize writeIndex L service fails _ _ = out at hcases ⊢
    cases hcases with
    | kept => exact .undone (back_unchanged hfile hfree fun n hne => by rw [lookup_erase, if_neg hne])
    | replaced =>
      refine .done hload rfl fun hagrees => ?_
      refine hagrees.replace rfl ⟨fun hactive => ?_, fun _ => ?_⟩ fun n hne => ?_
      · cases hactive
      · rw [mem_of_lookup, lookup_erase, hid, if_pos rfl]
        exact Bool.false_ne_true
      · rw [lookup_erase, if_neg (hid ▸ hne)]
  · exact .undone (.refl d)

/-! ## Deletion -/

open Files (stage restore)

theorem restore_congr (moved : List (Str × File)) {a b : Directory} (h : ∀ n, a.lookup n = b.lookup n) (n : Str) :
    (restore moved a).lookup n = (restore moved b).lookup n := by
  induction moved generalizing a b with
  | nil => exact h n
  | cons m moved ih =>
    refine ih fun n => ?_
    rw [lookup_insert, lookup_insert, h n]

theorem restore_other {moved : List (Str × File)} (h : ∀ m ∈ moved, m.1 ≠ name) (directory : Directory) :
    (restore moved directory).lookup name = directory.lookup name := by
  induction moved generalizing directory with
  | nil => rfl
  | cons m moved ih =>
    refine (ih (fun x hx => h x (mem_cons_of_mem _ hx)) _).trans ?_
    rw [lookup_insert, if_neg (h m mem_cons_self).symm]

/-- **Rollback of the loop.** Whatever was moved when the loop ends can be put back. -/
theorem stage_restores (fails : Step → Bool) (identifier : Str) (entries : List (Σ _ : Str, File)) (left : Directory)
    (moved : List (Str × File)) (hleft : ∀ e ∈ entries, left.lookup e.1 = some e.2)
    (hnodup : (entries.map Sigma.fst).Nodup) {d : Directory}
    (hback : ∀ n, (restore moved left).lookup n = d.lookup n) (n : Str) :
    (restore (stage fails identifier entries left moved).2.1 (stage fails identifier entries left moved).1).lookup n =
      d.lookup n := by
  induction entries generalizing left moved with
  | nil => exact hback n
  | cons e entries ih =>
    rw [map_cons, nodup_cons] at hnodup
    have hrest : ∀ x ∈ entries, left.lookup x.1 = some x.2 := fun x hx => hleft x (mem_cons_of_mem _ hx)
    unfold Files.stage
    split
    · exact ih _ _ hrest hnodup.2 hback
    split
    · exact hback n
    refine ih _ _ (fun x hx => ?_) hnodup.2 fun m => ?_
    · have hne : x.1 ≠ e.1 := fun heq => hnodup.1 (heq ▸ mem_map_of_mem hx)
      rw [lookup_erase, if_neg hne]
      exact hrest x hx
    · refine (restore_congr moved (fun k => ?_) m).trans (hback m)
      rw [lookup_insert, lookup_erase]
      split
      next heq => rw [heq, hleft e mem_cons_self]
      next => rfl

/-- the loop moves files of the user only -/
theorem stage_other (fails : Step → Bool) (hname : belongsTo identifier name = false)
    (entries : List (Σ _ : Str, File)) (left : Directory) {moved : List (Str × File)} (hmoved : ∀ m ∈ moved, m.1 ≠ name) :
    (stage fails identifier entries left moved).1.lookup name = left.lookup name ∧
      ∀ m ∈ (stage fails identifier entries left moved).2.1, m.1 ≠ name := by
  induction entries generalizing left moved with
  | nil => exact ⟨rfl, hmoved⟩
  | cons e entries ih =>
    unfold Files.stage
    split
    · exact ih _ hmoved
    rename_i hbelongs
    have hne : e.1 ≠ name := by
      rintro rfl
      exact hbelongs hname
    split
    · exact ⟨rfl, hmoved⟩
    have hmoved' : ∀ m ∈ (e.1, e.2) :: moved, m.1 ≠ name := fun m hm => by
      rcases mem_cons.1 hm with rfl | hm
      · exact hne
      · exact hmoved m hm
    have hnext := ih (left.erase e.1) hmoved'
    rw [lookup_erase, if_neg hne.symm] at hnext
    exact hnext

/-- an index that `saveIndex` wrote, or none -/
def Saved (L : Library) (d : Files) : Prop := d.index = .absent ∨ ∃ users, d.index = saveIndex L users

theorem saved_load (h : Saved L d) (hload : loadIndex L d.index = some users) (hmem : user ∈ users) :
    d.index = saveIndex L users := by
  rcases h with habsent | ⟨users', hsaved⟩
  · rw [habsent] at hload
    rw [← Option.some.inj hload] at hmem
    exact absurd hmem not_mem_nil
  · have hsame : users' = users := by
      rw [← users_of_loadIndex hload, hsaved]
      rfl
    rw [hsaved, hsame]

theorem deleteUser_settles (hs : Sheltered service fails) (hsaved : Saved L d) (identifier : Str) :
    Settles L d (d.deleteUser L service fails identifier) := by
  unfold Files.deleteUser
  split
  · exact .undone (.refl d)
  rename_i users user htarget
  obtain ⟨hload, u, hmem, -⟩ := target_spec htarget
  split
  · exact .undone (.refl d)
  split
  · exact .undone (.refl d)
  have hback := stage_restores fails identifier d.revoked.entries d.revoked []
    (fun e he => mem_lookup_iff.2 he) d.revoked.nodupKeys (fun _ => rfl)
  split
  next left moved hstage =>
    rw [hstage] at hback
    exact .undone ⟨rfl, fun _ => rfl, hback⟩
  rename_i left moved hstage
  rw [hstage] at hback
  have hcases := writeIndex_cases (L := L) hs { d with revoked := left } (users.eraseP fun other => decide (other.id = identifier))
  generalize writeIndex L service fails _ _ = out at hcases ⊢
  cases hcases with
  | kept => exact .undone ⟨rfl, fun _ => rfl, hback⟩
  | replaced =>
    dsimp only
    split
    · exact .undone ⟨(saved_load hsaved hload hmem).symm, fun _ => rfl, hback⟩
    · rw [hs.erase]
      exact .done hload rfl fun hagrees v hv => hagrees v (mem_of_mem_eraseP hv)

/-- no file but the user's own is touched, whatever fails -/
theorem deleteUser_other (d : Files) (hname : belongsTo identifier name = false) :
    (∀ n, (d.deleteUser L service fails identifier).1.active.lookup n = d.active.lookup n) ∧
      (d.deleteUser L service fails identifier).1.revoked.lookup name = d.revoked.lookup name := by
  unfold Files.deleteUser
  split
  · exact ⟨fun _ => rfl, rfl⟩
  rename_i users user htarget
  split
  · exact ⟨fun _ => rfl, rfl⟩
  split
  · exact ⟨fun _ => rfl, rfl⟩
  have hnone : ∀ m ∈ ([] : List (Str × File)), m.1 ≠ name := nofun
  obtain ⟨hleft, hmoved⟩ := stage_other fails hname d.revoked.entries d.revoked hnone
  split
  next left moved hstage =>
    rw [hstage] at hleft hmoved
    exact ⟨fun _ => rfl, (restore_other hmoved left).trans hleft⟩
  rename_i left moved hstage
  rw [hstage] at hleft hmoved
  obtain ⟨index, previous, ok, hout⟩ := writeIndex_directories L service fails { d with revoked := left }
    (users.eraseP fun other => decide (other.id = identifier))
  rw [hout]
  cases ok with
  | false => exact ⟨fun _ => rfl, (restore_other hmoved left).trans hleft⟩
  | true =>
    dsimp only
    split
    · exact ⟨fun _ => rfl, (restore_other hmoved left).trans hleft⟩
    · exact ⟨fun _ => rfl, hleft⟩

/-! ## Every sequence of calls -/

theorem perform_settles (hs : Sheltered service fails) (hsaved : Saved L d) (c : Call) :
    Settles L d (perform L service fails d c) := by
  cases c with
  | addUser name profile random now => exact addUser_settles hs d name profile random now
  | rotateUser identifier random now => exact rotateUser_settles hs d identifier random now
  | revokeUser identifier now => exact revokeUser_settles hs d identifier now
  | deleteUser identifier => exact deleteUser_settles hs hsaved identifier
  | setUserDeviceLimit identifier maximum =>
    refine changeUser_settles hs d identifier fun u v h => ?_
    rw [(limitDevices_spec h).2]
    exact ⟨rfl, rfl⟩
  | resetUserTraffic identifier now =>
    refine changeUser_settles hs d identifier fun u v h => ?_
    rw [resetTraffic_spec h]
    exact ⟨rfl, rfl⟩

/-- what a sequence of calls keeps -/
structure InOrder (L : Library) (d : Files) : Prop where
  saved : Saved L d
  consistent : Consistent d

theorem Settles.inOrder {out : Files × Bool} (h : Settles L d out) (hd : InOrder L d) : InOrder L out.1 := by
  have hagrees := consistent_iff.1 hd.consistent
  cases h with
  | undone hsame =>
    refine ⟨?_, consistent_iff.2 ?_⟩
    · rw [Saved, hsame.index]
      exact hd.saved
    · rw [hsame.index]
      exact hagrees.lookup hsame.active
  | done hload hindex hkeeps =>
    refine ⟨.inr ⟨_, hindex⟩, consistent_iff.2 ?_⟩
    rw [users_of_loadIndex hload] at hagrees
    rw [hindex]
    exact hkeeps hagrees

end Steps

/-- the names of a user's files begin with its identifier -/
theorem prefix_of_belongsTo {name : Str} (h : belongsTo identifier name = true) : identifier <+: name := by
  simp only [belongsTo, Bool.or_eq_true, Bool.and_eq_true, decide_eq_true_eq] at h
  rcases h with rfl | ⟨hstart, -⟩
  · exact prefix_append _ _
  · exact (prefix_append _ _).trans hstart

theorem validIdentifier_length (h : validIdentifier identifier = true) : identifier.length = 22 := by
  cases hraw : Base64.canonical idSize identifier with
  | none => exact absurd hraw (canonical_of_validIdentifier h)
  | some raw =>
    obtain ⟨hlen, rfl⟩ := Base64.canonical_eq hraw
    rw [Base64.encode_length, hlen]
    rfl

/-- **Owners.** No file belongs to two users. -/
theorem belongsTo_unique {other name : Str} (hid : validIdentifier identifier = true) (hother : validIdentifier other = true)
    (hne : other ≠ identifier) (h : belongsTo other name = true) : belongsTo identifier name = false := by
  by_contra hboth
  have hboth' : belongsTo identifier name = true := by simpa using hboth
  have hlen : other.length = identifier.length := (validIdentifier_length hother).trans (validIdentifier_length hid).symm
  have hle := prefix_of_prefix_length_le (prefix_of_belongsTo h) (prefix_of_belongsTo hboth') hlen.le
  exact hne (hle.eq_of_length hlen)

theorem attempts_inOrder {L : Library} {service : Bool} {d : Files} (hd : InOrder L d) {attempts : List Attempt}
    (hg : ∀ a ∈ attempts, Sheltered service a.fails) : InOrder L (Machine.run (attempt L service) d attempts) := by
  induction attempts generalizing d with
  | nil => exact hd
  | cons a attempts ih =>
    have hstep := (perform_settles (hg a mem_cons_self) hd.saved a.call).inOrder hd
    exact ih hstep fun b hb => hg b (mem_cons_of_mem _ hb)

/-- **Rollback.** From an index and credentials that agree, after any sequence of calls in which nothing fails behind a new index:
they agree still, the next such call that fails changes nothing, and no deletion touches a file of another user. -/
theorem user_calls_roll_back (L : Library) (service : Bool) (d : Files) (hd : InOrder L d) (attempts : List Attempt)
    (hg : ∀ a ∈ attempts, Sheltered service a.fails) :
    let d' := Machine.run (attempt L service) d attempts
    Consistent d' ∧
      (∀ (c : Call) (fails : Step → Bool), Sheltered service fails → (perform L service fails d' c).2 = false →
        Unchanged d' (perform L service fails d' c).1) ∧
      ∀ (identifier other name : Str) (fails : Step → Bool), validIdentifier other = true → other ≠ identifier →
        belongsTo other name = true →
          (d'.deleteUser L service fails identifier).1.active.lookup name = d'.active.lookup name ∧
            (d'.deleteUser L service fails identifier).1.revoked.lookup name = d'.revoked.lookup name := by
  intro d'
  have hin : InOrder L d' := attempts_inOrder hd hg
  refine ⟨hin.consistent, fun c fails hs herr => ?_, fun identifier other name fails hother hne hbelongs => ?_⟩
  · have hsettles := perform_settles hs hin.saved c
    generalize perform L service fails d' c = out at hsettles herr
    cases hsettles with
    | undone h => exact h
    | done => cases herr
  · by_cases hid : validIdentifier identifier = true
    · obtain ⟨hactive, hrevoked⟩ := deleteUser_other (L := L) d' (belongsTo_unique hid hother hne hbelongs)
      exact ⟨hactive name, hrevoked⟩
    · have hnone : d'.target L identifier some = none := if_neg hid
      rw [Files.deleteUser, hnone]
      exact ⟨rfl, rfl⟩

/-- one operation at most fails -/
def Single (fails : Step → Bool) : Prop := ∀ a b, fails a = true → fails b = true → a = b

/-- two users with their credentials -/
def twoUsers : Files where
  index := saveIndex asciiLibrary [newUser (idOf 1) (ascii "alice") 1, newUser (idOf 2) (ascii "bob") 1]
  previous := .absent
  active := (AList.singleton (secretName (idOf 1)) (secretFile (secretOf 1))).insert (secretName (idOf 2)) (secretFile (secretOf 2))
  revoked := ∅

theorem twoUsers_inOrder : InOrder asciiLibrary twoUsers where
  saved := .inr ⟨_, rfl⟩
  consistent := by decide +kernel

/-- the rename of the index fails in the call before, and the write of the index in the call itself -/
theorem user_calls_roll_back_revoke :
    let d' := Machine.run (attempt asciiLibrary true) twoUsers [⟨.revokeUser (idOf 1) 2, fun s => decide (s = .renameIndex)⟩]
    let r := perform asciiLibrary true (fun s => decide (s = .finishIndex)) d' (.rotateUser (idOf 2) (secretOf 3) 3)
    Consistent d' ∧ r.2 = false ∧ Unchanged d' r.1 := by
  intro d' r
  have hroll := user_calls_roll_back asciiLibrary true twoUsers twoUsers_inOrder
    [⟨.revokeUser (idOf 1) 2, fun s => decide (s = .renameIndex)⟩] (by
      intro a ha
      rw [mem_singleton.1 ha]
      exact ⟨rfl, rfl, rfl, rfl⟩)
  have hfails : r.2 = false := by decide +kernel
  exact ⟨hroll.1, hfails, hroll.2.1 _ _ ⟨rfl, rfl, rfl, rfl⟩ hfails⟩

/-- **Revoked and active.** The sync of the directory fails behind the new index: the user is revoked in it, and its credential
is back in the active directory. -/
theorem revoked_and_active : ¬ ∀ (L : Library) (service : Bool) (d : Files) (c : Call) (fails : Step → Bool), InOrder L d →
    Single fails → (perform L service fails d c).2 = false →
      Unchanged d (perform L service fails d c).1 ∧ Consistent (perform L service fails d c).1 := by
  intro h
  have hbad := (h asciiLibrary false twoUsers (.revokeUser (idOf 1) 2) (fun s => decide (s = .syncDirectory)) twoUsers_inOrder
    (fun a b ha hb => (of_decide_eq_true ha).trans (of_decide_eq_true hb).symm) (by decide +kernel)).2
  exact absurd hbad (by decide +kernel)

end NeProto.Admin
