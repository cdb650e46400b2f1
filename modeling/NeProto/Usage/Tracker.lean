/-
Usage accounting (`internal/usage/tracker.go`): the tracker keeps the session counts and the traffic of every user in memory and in
a state file. Administrators change the policy file, and edit the state file behind the tracker.

- every call holds the directory lock from its first read to its last write, so a call is one step.
- a write of the state may fail and leave the old file, or lose it (`Write`); the policy file can always be read.
- `writeState` sorts the users of its argument, which are the tracker's own, before it writes them.
- times are left out: nothing depends on them but the check that `FirstSeen` is set, and it is set. A device stands for its text.
- ghost fields, which no function reads: `settled`, `base` and `mark` follow the growth of counters, `edited` says that the file was
  edited since the tracker last read it, `ended` and `completed` follow a reset.
-/
import NeProto.Protocol.Handshake

namespace NeProto.Usage

open Function

open Protocol (DeviceID maxServerCredentials)

/-! ## State -/

def saturatingAdd (left right : ℕ) : ℕ := if maxUint64 - left < right then maxUint64 else left + right

/-- `maximumUsers` -/
def maximumUsers : ℕ := maxServerCredentials

def maximumDevicesPerUser : ℕ := 64

structure Counters where
  upload : ℕ
  download : ℕ
deriving DecidableEq

structure Device where
  deviceID : DeviceID
  activeSessions : ℕ
deriving DecidableEq

structure User where
  userID : Str
  resetGeneration : ℕ
  total : Counters
  activeSessions : ℕ
  devices : List Device
  /-- the growth of the sessions that were closed since the last reset (ghost) -/
  settled : Counters
deriving DecidableEq

structure Persisted where
  revision : ℕ
  users : List User
deriving DecidableEq

structure Policy where
  active : Bool
  maxDevices : ℕ
  generation : ℕ

structure Tracked where
  id : ℕ
  userID : Str
  /-- none if the session is not labelled with a device -/
  deviceID : Option DeviceID
  last : Counters
  /-- the counters at the admission or at the last reset applied (ghost) -/
  base : Counters
  /-- the counters at the admission or when the generation was last raised (ghost) -/
  mark : Counters
deriving DecidableEq

structure State where
  memory : Persisted
  sessions : List Tracked
  nextID : ℕ
  file : Option Persisted
  policies : Str → Option Policy
  /-- what `read` of a session gives -/
  counters : ℕ → Counters
  edited : Bool
  /-- the growth of a user's sessions, up to their end, since the generation was last raised -/
  ended : Str → Counters
  /-- `ResetTraffic` has returned since the generation was last raised, or since the user was added -/
  completed : Str → Bool

inductive Err where
  | invalidConfig
  | invalidState
  | userInactive
  | deviceIdentityRequired
  | deviceLimit
  | deviceNotFound
  | deviceOnline
  /-- an error of `writeState` -/
  | write
deriving DecidableEq

/-- how the file operations of `writeState` end -/
inductive Write where
  | ok
  /-- an error, and the file is as it was -/
  | kept
  /-- the second rename fails, after the file was removed -/
  | removed
deriving DecidableEq

namespace Counters

def zero : Counters := ⟨0, 0⟩

def add (a b : Counters) : Counters := ⟨a.upload + b.upload, a.download + b.download⟩

/-- growth from `a` to `b` -/
def growth (a b : Counters) : Counters := ⟨b.upload - a.upload, b.download - a.download⟩

def saturatingAdd (a b : Counters) : Counters := ⟨Usage.saturatingAdd a.upload b.upload, Usage.saturatingAdd a.download b.download⟩

end Counters

/-! ## The state file -/

def validUserID (s : Str) : Bool :=
  decide (s ≠ [] ∧ s.length ≤ 128) && s.all fun b => decide (33 ≤ b ∧ b ≤ 126 ∧ b ≠ 47 ∧ b ≠ 92)

def validateUser (u : User) : Bool :=
  validUserID u.userID && decide (u.devices.length ≤ maximumDevicesPerUser) &&
    u.devices.all (fun d => !d.deviceID.isZero) && decide ((u.devices.map Device.deviceID).Nodup) &&
    decide (u.devices.foldl (fun active d => saturatingAdd active d.activeSessions) 0 ≤ u.activeSessions)

def validateState (p : Persisted) : Bool :=
  decide (p.users.length ≤ maximumUsers) && p.users.all validateUser && decide ((p.users.map User.userID).Nodup)

def sortDevices (u : User) : User :=
  { u with devices := u.devices.insertionSort fun a b => a.deviceID.toList ≤ b.deviceID.toList }

/-- the order of the written state -/
def sortUsers (users : List User) : List User := (users.insertionSort fun a b => a.userID ≤ b.userID).map sortDevices

def findUser (users : List User) (id : Str) : Option User := users.find? fun u => u.userID = id

/-- change the user with this ID; IDs do not repeat -/
def modifyUser (users : List User) (id : Str) (f : User → User) : List User :=
  users.map fun u => if u.userID = id then f u else u

/-- `readState` -/
def readState (file : Option Persisted) : Option Persisted := file.filter validateState

inductive Persistence where
  | written
  /-- by `validateState`, before the users are sorted -/
  | refused
  | failed

namespace State

variable (s : State)

/-- `reloadExternalLocked` -/
def reload : Option State :=
  (readState s.file).map fun f =>
    { s with memory := if s.memory.revision < f.revision then f else s.memory, edited := false }

/-- the users in memory -/
def setUsers (users : List User) : State := { s with memory := { s.memory with users := users } }

/-- `persistLocked` -/
def persist (w : Write) : State × Persistence :=
  let memory := { s.memory with revision := saturatingAdd s.memory.revision 1 }
  if validateState memory = false then ({ s with memory := memory }, .refused)
  else
    let memory := { memory with users := sortUsers memory.users }
    match w with
    | .ok => ({ s with memory := memory, file := some memory }, .written)
    | .kept => ({ s with memory := memory }, .failed)
    | .removed => ({ s with memory := memory, file := none }, .failed)

/-- `pruneDeletedUsersLocked` keeps this user -/
def keeps (u : User) : Bool := (s.policies u.userID).isSome || decide (0 < u.activeSessions)

def prune : State := s.setUsers (s.memory.users.filter s.keeps)

/-- `ensureUserLocked` -/
def ensureUser (id : Str) : State :=
  if (findUser s.memory.users id).isSome then s
  else s.setUsers (s.memory.users ++ [⟨id, 0, .zero, 0, [], .zero⟩])

/-- `applyResetLocked` -/
def applyReset (id : Str) (generation : ℕ) : State × Bool :=
  match findUser s.memory.users id with
  | none => (s, false)
  | some u =>
    if generation ≤ u.resetGeneration then (s, false)
    else
      ({ s.setUsers (modifyUser s.memory.users id fun u =>
            { u with resetGeneration := generation, total := .zero, settled := .zero }) with
          sessions := s.sessions.map fun t =>
            if t.userID = id then { t with last := s.counters t.id, base := s.counters t.id } else t }, true)

/-- `sampleSessionLocked`, for counters that do not fall -/
def sampleSession (t : Tracked) : State × Bool :=
  let current := s.counters t.id
  let delta := t.last.growth current
  let sessions := s.sessions.map fun x => if x.id = t.id then { x with last := current } else x
  match findUser s.memory.users t.userID with
  | none => ({ s with sessions := sessions }, false)
  | some _ =>
    ({ s.setUsers (modifyUser s.memory.users t.userID fun u => { u with total := u.total.saturatingAdd delta }) with
        sessions := sessions }, decide (0 < delta.upload ∨ 0 < delta.download))

end State

/-! ## The calls of the tracker -/

/-- `decrementUserSession` -/
def decrementUserSession (u : User) (label : Option DeviceID) : User :=
  { u with
    activeSessions := u.activeSessions - 1
    devices := u.devices.map fun d => if some d.deviceID = label then { d with activeSessions := d.activeSessions - 1 } else d }

/-- the device of an admission: counted, enrolled and counted, not labelled, or refused -/
def User.enrol (u : User) (maxDevices : ℕ) (device : DeviceID) : Option (User × Option DeviceID) :=
  if device.isZero then some (u, none)
  else if u.devices.any (fun d => decide (d.deviceID = device)) then
    some ({ u with devices := u.devices.map fun d =>
      if d.deviceID = device then { d with activeSessions := saturatingAdd d.activeSessions 1 } else d }, some device)
  else if 0 < maxDevices ∧ maxDevices ≤ u.devices.length then none
  else if maximumDevicesPerUser ≤ u.devices.length then some (u, none)
  else some ({ u with devices := u.devices ++ [⟨device, 1⟩] }, some device)

namespace State

variable (s : State)

/-- `nextID++`, which skips zero -/
def nextIdentifier : ℕ := if (s.nextID + 1) % 2 ^ 64 = 0 then 1 else (s.nextID + 1) % 2 ^ 64

/-- where the tracker's pointer to the user points -/
def position (id : Str) : ℕ := s.memory.users.findIdx fun u => decide (u.userID = id)

/-- a session of the user is counted and tracked -/
def register (id : Str) (u : User) (label : Option DeviceID) (first : Counters) : State :=
  let n := s.nextIdentifier
  { s.setUsers (modifyUser s.memory.users id fun _ => { u with activeSessions := saturatingAdd u.activeSessions 1 }) with
    nextID := n
    sessions := s.sessions.filter (fun t => decide (t.id ≠ n)) ++ [⟨n, id, label, first, first, first⟩]
    counters := update s.counters n first }

/-- the end of `Admit`: the write, and what undoes the admission if it fails -/
def commit (id : Str) (label : Option DeviceID) (w : Write) : State × Except Err ℕ :=
  match s.persist w with
  | (s', .written) => (s', .ok s.nextID)
  | (s', _) =>
    ({ s'.setUsers (s'.memory.users.modify (s.position id) fun u => decrementUserSession u label) with
        sessions := s'.sessions.filter fun t => decide (t.id ≠ s.nextID) }, .error .write)

/-- `Admit` after the policy was found -/
def admitUnder (policy : Policy) (id : Str) (device : DeviceID) (first : Counters) (w : Write) :
    State × Except Err ℕ :=
  if policy.active = false then (s, .error .userInactive)
  else if 0 < policy.maxDevices ∧ device.isZero = true then (s, .error .deviceIdentityRequired)
  else
    let s := ((s.ensureUser id).applyReset id policy.generation).1
    match findUser s.memory.users id with
    | none => (s, .error .userInactive)
    | some u =>
      match u.enrol policy.maxDevices device with
      | none => (s, .error .deviceLimit)
      | some (u, label) => (s.register id u label first).commit id label w

/-- `Tracker.Admit`; `first` is what `read` gives -/
def admitSession (id : Str) (device : DeviceID) (first : Counters) (w : Write) : State × Except Err ℕ :=
  if validUserID id = false then (s, .error .invalidConfig)
  else
    match s.reload with
    | none => (s, .error .invalidState)
    | some s =>
      let s := s.prune
      match s.policies id with
      | none => (s, .error .userInactive)
      | some policy => s.admitUnder policy id device first w

/-- the resets `Sample` applies, one user after the other -/
def applyResets (ids : List Str) : State × Bool :=
  ids.foldl (fun (p : State × Bool) id =>
    match p.1.policies id with
    | none => p
    | some policy => let r := p.1.applyReset id policy.generation; (r.1, r.2 || p.2)) (s, false)

/-- the sessions `Sample` reads -/
def sampleSessions (ids : List ℕ) : State × Bool :=
  ids.foldl (fun (p : State × Bool) id =>
    match p.1.sessions.find? fun t => t.id = id with
    | none => p
    | some t => let r := p.1.sampleSession t; (r.1, r.2 || p.2)) (s, false)

/-- `Tracker.Sample`; the order in which Go ranges over its maps does not matter -/
def sample (w : Write) : State × Except Err Unit :=
  match s.reload with
  | none => (s, .error .invalidState)
  | some s =>
    let pruned := s.prune
    let reset := pruned.applyResets (pruned.memory.users.map User.userID)
    let sampled := reset.1.sampleSessions (reset.1.sessions.map Tracked.id)
    let dirty := decide (pruned.memory.users.length ≠ s.memory.users.length) || reset.2 || sampled.2
    if dirty = false then (sampled.1, .ok ())
    else
      match sampled.1.persist w with
      | (s, .written) => (s, .ok ())
      | (s, _) => (s, .error .write)

/-- the end of a session in memory -/
def endSession (t : Tracked) : State :=
  { s.setUsers (modifyUser s.memory.users t.userID fun u =>
      { decrementUserSession u t.deviceID with settled := u.settled.add (t.base.growth t.last) }) with
    sessions := s.sessions.filter fun x => decide (x.id ≠ t.id)
    ended := update s.ended t.userID ((s.ended t.userID).add (t.mark.growth (s.counters t.id))) }

/-- `Session.Close`, which does not read the policies -/
def close (id : ℕ) (w : Write) : State × Except Err Unit :=
  match s.sessions.find? fun t => t.id = id with
  | none => (s, .ok ())
  | some t =>
    match s.reload with
    | none => (s, .error .invalidState)
    | some s =>
      let s := (s.sampleSession t).1
      match (s.endSession { t with last := s.counters t.id }).persist w with
      | (s, .written) => (s, .ok ())
      | (s, _) => (s, .error .write)

/-- `Tracker.Snapshot` reads the file -/
def snapshot : State := s.reload.getD s

/-! ## The edits of an administrator -/

/-- an edit of the state file, under the lock -/
def editFile (f : Persisted) (users : List User) : State :=
  { s with file := some { revision := saturatingAdd f.revision 1, users := users }, edited := true }

/-- `ResetTraffic` -/
def resetTraffic (id : Str) : State × Except Err Unit :=
  match s.file with
  | none => ({ s with completed := update s.completed id true }, .ok ())
  | some f =>
    if validateState f = false then (s, .error .invalidState)
    else
      match findUser f.users id with
      | none => ({ s with completed := update s.completed id true }, .ok ())
      | some _ =>
        ({ s.editFile f (sortUsers (modifyUser f.users id fun u => { u with total := .zero })) with
            completed := update s.completed id true }, .ok ())

/-- `RemoveOfflineDevice` -/
def removeOfflineDevice (id : Str) (device : DeviceID) : State × Except Err Unit :=
  match readState s.file with
  | none => (s, .error .invalidState)
  | some f =>
    match findUser f.users id with
    | none => (s, .error .deviceNotFound)
    | some u =>
      match u.devices.find? fun d => d.deviceID = device with
      | none => (s, .error .deviceNotFound)
      | some d =>
        if 0 < d.activeSessions then (s, .error .deviceOnline)
        else
          (s.editFile f (sortUsers (modifyUser f.users id fun u =>
            { u with devices := u.devices.filter fun d => decide (d.deviceID ≠ device) })), .ok ())

/-- a policy takes the place of one with a smaller generation -/
def raised : Option Policy → Option Policy → Bool
  | some old, some new => decide (old.generation < new.generation)
  | _, _ => false

/-- the policy file is replaced -/
def setPolicies (s : State) (policies : Str → Option Policy) : State :=
  let raised := fun id => raised (s.policies id) (policies id)
  { s with
    policies := policies
    sessions := s.sessions.map fun t => if raised t.userID then { t with mark := s.counters t.id } else t
    ended := fun id => if raised id then .zero else s.ended id
    completed := fun id => s.completed id && (s.policies id).isSome && !raised id }

/-- a session transfers bytes -/
def transfer (s : State) (id : ℕ) (bytes : Counters) : State :=
  { s with counters := update s.counters id ((s.counters id).add bytes) }

end State

inductive Op where
  | admitSession (id : Str) (device : DeviceID) (first : Counters) (w : Write)
  | close (id : ℕ) (w : Write)
  | sample (w : Write)
  | snapshot
  | resetTraffic (id : Str)
  | removeOfflineDevice (id : Str) (device : DeviceID)
  | setPolicies (policies : Str → Option Policy)
  | transfer (id : ℕ) (bytes : Counters)

def step (s : State) : Op → State
  | .admitSession id device first w => (s.admitSession id device first w).1
  | .close id w => (s.close id w).1
  | .sample w => (s.sample w).1
  | .snapshot => s.snapshot
  | .resetTraffic id => (s.resetTraffic id).1
  | .removeOfflineDevice id device => (s.removeOfflineDevice id device).1
  | .setPolicies policies => s.setPolicies policies
  | .transfer id bytes => s.transfer id bytes

/-- `New` on the state a file holds: no session is open -/
def State.start (users : List User) (revision : ℕ) (policies : Str → Option Policy) : State :=
  let clear := fun u : User =>
    { u with activeSessions := 0, devices := u.devices.map fun d => { d with activeSessions := 0 }, settled := u.total }
  let memory := { revision := saturatingAdd revision 1, users := sortUsers (users.map clear) }
  { memory := memory, sessions := [], nextID := 0, file := some memory, policies := policies, counters := fun _ => .zero
    edited := false, ended := fun _ => .zero, completed := fun _ => false }

def run (s : State) (ops : List Op) : State := Machine.run step s ops

end NeProto.Usage
