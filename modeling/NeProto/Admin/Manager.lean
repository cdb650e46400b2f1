/-
The calls of `admin.Manager` (`internal/admin/manager.go`, `internal/admin/cluster_peer.go`) that change the users and the active
credentials. Each returns the files it leaves, or none when it returns an error.

- `random` is what the random source delivers during the call, `now` what the clock shows.
- `ready` stands for what a call checks outside these files: the cluster state, the endpoint and the other fields of
  `server.json`. An error of the file system is a call that fails; failed calls are not followed here.
- `serverReadsActive`: `server.json` names the active directory as its `credential_directory`, so that `config.LoadServer`, which
  `InstallClusterPeer` runs before and after its change, loads it.
- of the archive of revoked credentials only the names decide anything.
-/
import NeProto.Admin.Store
import NeProto.Lib.Machine

namespace NeProto.Admin

structure Store where
  index : IndexFile
  active : Directory
  revoked : List Str
  /-- `accepted-peers.json`: node and credential -/
  peers : List (Str × Str)
  serverReadsActive : Bool

/-! ## Identifiers, secrets and lists of users -/

/-- `newIdentifier`, with the attempts that are left -/
def newIdentifier (users : List User) : ℕ → Str → Option (Str × Str)
  | 0, _ => none
  | attempts + 1, random =>
    if random.length < idSize then none
    else
      let raw := random.take idSize
      let rest := random.drop idSize
      if allZero raw ∨ (users.any fun user => decide (user.id = Base64.encode raw)) then newIdentifier users attempts rest
      else some (Base64.encode raw, rest)

/-- `newSecret`, with the attempts that are left -/
def newSecret : ℕ → Str → Option Str
  | 0, _ => none
  | attempts + 1, random =>
    if random.length < 32 then none
    else if allZero (random.take 32) then newSecret attempts (random.drop 32)
    else some (random.take 32)

/-- `for attempt := 0; attempt < 8; attempt++` of both -/
def randomAttempts : ℕ := 8

def findUser (users : List User) (identifier : Str) : Option User := users.find? fun user => decide (user.id = identifier)

/-- `index.Users[position] = user` for the position of its identifier -/
def replaceUser (users : List User) (user : User) : List User :=
  users.map fun other => if other.id = user.id then user else other

variable (L : Library)

/-- the order of `sortUsers` -/
def before (left right : User) : Bool :=
  if left.name = right.name then decide (left.id < right.id)
  else decide (L.toLower left.name < L.toLower right.name)

def sortUsers (users : List User) : List User :=
  users.insertionSort fun left right => before L right left = false

/-- the names `uniqueRevokedPath` tries -/
def archiveName (stem : Str) (suffix : ℕ) : Str :=
  if suffix = 0 then stem ++ secretSuffix else stem ++ [hyphen] ++ ascii (toString suffix) ++ secretSuffix

def uniqueRevokedPath (revoked : List Str) (stem : Str) : Option Str :=
  ((List.range 1000).map (archiveName stem)).find? fun name => decide (name ∉ revoked)

/-! ## The calls -/

def newUser (identifier name : Str) (created : ℕ) : User where
  id := identifier
  name := name
  profile := .web
  status := .active
  createdAt := created
  rotatedAt := none
  revokedAt := none
  maxDevices := 0
  trafficResetGeneration := 0
  trafficResetAt := none

def addUser (s : Store) (name : Str) (profile : Profile) (random : Str) (now : ℕ) : Option Store :=
  -- `automaticUserProfile` turns every profile it knows into web
  if validUserName L name = true ∧ profile ≠ .other then
    match loadIndex L s.index with
    | none => none
    | some users =>
      if users.any fun existing => L.equalFold existing.name name then none
      else
        match newIdentifier users randomAttempts random with
        | none => none
        | some (identifier, rest) =>
          match newSecret randomAttempts rest with
          | none => none
          | some secret =>
            -- `writeNewFile` opens with `O_EXCL`
            if secretName identifier ∈ s.active then none
            else some { s with
              active := s.active.insert (secretName identifier) (secretFile secret)
              index := saveIndex L (sortUsers L (users ++ [newUser identifier name now])) }
  else none

/-- the calls that change one user: `change` is none where they refuse -/
def changeUser (s : Store) (identifier : Str) (change : User → Option User) : Option Store :=
  if validIdentifier identifier then
    match loadIndex L s.index with
    | none => none
    | some users =>
      match (findUser users identifier).bind change with
      | none => none
      | some user => some { s with index := saveIndex L (replaceUser users user) }
  else none

def limitDevices (maximum : ℤ) (user : User) : Option User :=
  if 0 ≤ maximum ∧ maximum ≤ maxUserDevices then some { user with maxDevices := maximum } else none

def setUserDeviceLimit (s : Store) (identifier : Str) (maximum : ℤ) : Option Store :=
  changeUser L s identifier (limitDevices maximum)

def resetTraffic (now : ℕ) (user : User) : Option User :=
  if user.trafficResetGeneration = 2 ^ 64 - 1 then none
  else some { user with trafficResetGeneration := user.trafficResetGeneration + 1, trafficResetAt := some now }

def resetUserTraffic (s : Store) (identifier : Str) (now : ℕ) : Option Store :=
  changeUser L s identifier (resetTraffic now)

def rotate (now : ℕ) (user : User) : Option User :=
  if user.status = .active then some { user with rotatedAt := some now } else none

def rotateUser (s : Store) (identifier : Str) (random : Str) (now : ℕ) : Option Store :=
  match newSecret randomAttempts random, s.active.lookup (secretName identifier),
      uniqueRevokedPath s.revoked (identifier ++ ascii "-rotated") with
  | some secret, some file, some archive =>
    if file.regular then
      (changeUser L s identifier (rotate now)).map fun t =>
        { t with
          active := s.active.insert (secretName identifier) (secretFile secret)
          revoked := archive :: s.revoked }
    else none
  | _, _, _ => none

def revoke (now : ℕ) (user : User) : Option User :=
  if user.status = .active then some { user with status := .revoked, revokedAt := some now } else none

def revokeUser (s : Store) (identifier : Str) (now : ℕ) : Option Store :=
  match loadActiveDirectory s.active, uniqueRevokedPath s.revoked identifier with
  | some loaded, some archive =>
    -- ErrLastActiveUser: the one credential there is belongs to this user
    if loaded.map (·.id) = [identifier] then none
    -- `os.Rename` needs the file
    else if secretName identifier ∈ s.active then
      (changeUser L s identifier (revoke now)).map fun t =>
        { t with
          active := s.active.erase (secretName identifier)
          revoked := archive :: s.revoked }
    else none
  | _, _ => none

/-- the archived credentials of a user -/
def belongsTo (identifier name : Str) : Bool :=
  decide (name = secretName identifier) || (decide (identifier ++ [hyphen] <+: name) && decide (secretSuffix <:+ name))

def deleteUser (s : Store) (identifier : Str) : Option Store :=
  if validIdentifier identifier then
    match loadIndex L s.index with
    | none => none
    | some users =>
      match findUser users identifier with
      | none => none
      | some user =>
        if user.status = .revoked then
          some { s with
            revoked := s.revoked.filter fun name => !belongsTo identifier name
            index := saveIndex L (users.eraseP fun other => decide (other.id = identifier)) }
        else none
  else none

def installClusterPeer (s : Store) (node identifier secret : Str) (ready : Bool) : Option Store :=
  let installed := s.active.insert (secretName identifier) (secretFile secret)
  if ready = true ∧ validIdentifier identifier = true ∧ secret.length = 32 ∧ allZero secret = false then
    if secretName identifier ∈ s.active then none
    else if s.peers.any fun peer => decide (peer.1 = node ∨ peer.2 = identifier) then none
    -- `config.LoadServer`, before and after
    else if s.serverReadsActive = true ∧
        ((loadActiveDirectory s.active).isNone ∨ (loadActiveDirectory installed).isNone) then none
    else some { s with active := installed, peers := s.peers ++ [(node, identifier)] }
  else none

def removeClusterPeer (s : Store) (node identifier : Str) (ready : Bool) : Option Store :=
  if ready = true ∧ validIdentifier identifier = true ∧ (node, identifier) ∈ s.peers then
    some { s with active := s.active.erase (secretName identifier), peers := s.peers.erase (node, identifier) }
  else none

/-! ## Sequences of calls -/

inductive Op
  | addUser (name : Str) (profile : Profile) (random : Str) (now : ℕ)
  | rotateUser (identifier random : Str) (now : ℕ)
  | revokeUser (identifier : Str) (now : ℕ)
  | deleteUser (identifier : Str)
  | setUserDeviceLimit (identifier : Str) (maximum : ℤ)
  | resetUserTraffic (identifier : Str) (now : ℕ)
  | installClusterPeer (node identifier secret : Str) (ready : Bool)
  | removeClusterPeer (node identifier : Str) (ready : Bool)

def call (s : Store) : Op → Option Store
  | .addUser name profile random now => addUser L s name profile random now
  | .rotateUser identifier random now => rotateUser L s identifier random now
  | .revokeUser identifier now => revokeUser L s identifier now
  | .deleteUser identifier => deleteUser L s identifier
  | .setUserDeviceLimit identifier maximum => setUserDeviceLimit L s identifier maximum
  | .resetUserTraffic identifier now => resetUserTraffic L s identifier now
  | .installClusterPeer node identifier secret ready => installClusterPeer s node identifier secret ready
  | .removeClusterPeer node identifier ready => removeClusterPeer s node identifier ready

/-- a sequence of successful calls: a call that fails is none of the sequence -/
def step (s : Store) (op : Op) : Store := (call L s op).getD s

def run (s : Store) (ops : List Op) : Store := Machine.run (step L) s ops

end NeProto.Admin
