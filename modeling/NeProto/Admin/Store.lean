/-
The files of an installation (`internal/admin/manager.go`, `internal/credentials/store.go`): the user index that `admin.Open`
and every call read, and the directory of active credentials that the server authenticates with.

- `index.json` is its length and what the JSON decoder reads from it; what `saveIndex` writes reads back, and `marshalIndent` is
  the text it writes, for the length.
- a directory maps names to files; of a file the readers look at the type, the permissions and the bytes.
- `Library` stands for `strings`, `unicode/utf8` and the literals of `encoding/json`; nothing is assumed about it.
- a time is a number, zero is the zero time.
-/
import NeProto.Lib.Base64
import Mathlib.Data.List.AList
import Mathlib.Data.List.Sort

namespace NeProto.Admin

open List

/-- what the standard library does with names -/
structure Library where
  /-- `strings.ToLower` -/
  toLower : Str → Str
  /-- `strings.EqualFold` -/
  equalFold : Str → Str → Bool
  /-- `strings.TrimSpace` -/
  trimSpace : Str → Str
  /-- the runes of a string, none when it is not valid UTF-8 -/
  runes : Str → Option (List ℕ)
  /-- the JSON literal of a string -/
  quote : Str → Str
  /-- the JSON literal of a time -/
  time : ℕ → Str

/-! ## Users -/

inductive Status
  | active | revoked | other
deriving DecidableEq

inductive Profile
  | quiet | web | interactive | unset | other
deriving DecidableEq

structure User where
  id : Str
  name : Str
  profile : Profile
  status : Status
  createdAt : ℕ
  rotatedAt : Option ℕ
  revokedAt : Option ℕ
  maxDevices : ℤ
  trafficResetGeneration : ℕ
  trafficResetAt : Option ℕ
deriving DecidableEq

def stateVersion : ℕ := 1

def maxStateBytes : ℕ := 2 ^ 20

def maxUserDevices : ℤ := 16

/-- `credentials.IDSize` -/
def idSize : ℕ := 16

/-- `credentials.MaxActiveCredentials` -/
def maxActiveCredentials : ℕ := 256

def allZero (raw : Str) : Bool := raw.all (· = 0)

def validIdentifier (value : Str) : Bool :=
  match Base64.canonical idSize value with
  | some raw => !allZero raw
  | none => false

def validUserName (L : Library) (value : Str) : Bool :=
  match L.runes value with
  | none => false
  | some runes =>
    decide (value = L.trimSpace value) && !value.contains 47 && !value.contains 92 &&
      decide (value ≠ [dot] ∧ value ≠ [dot, dot] ∧ 1 ≤ runes.length ∧ runes.length ≤ 64) &&
      runes.all fun character => decide (0x20 ≤ character ∧ character ≠ 0x7f)

def validProfile : Profile → Bool
  | .quiet | .web | .interactive => true
  | .unset | .other => false

/-- what `loadIndex` asks of one user -/
def validUser (L : Library) (user : User) : Bool :=
  validIdentifier user.id && validUserName L user.name && validProfile user.profile &&
    decide (0 ≤ user.maxDevices ∧ user.maxDevices ≤ maxUserDevices) && decide (user.status ≠ .other) &&
    decide (user.createdAt ≠ 0) && decide (user.status = .active → user.revokedAt = none) &&
    decide (user.status = .revoked → user.revokedAt ≠ none)

/-- the loop of `loadIndex`, with the identifiers and folded names it has seen -/
def checkUsers (L : Library) : List Str → List Str → List User → Bool
  | _, _, [] => true
  | identifiers, names, user :: users =>
    validUser L user && !identifiers.contains user.id && !names.contains (L.toLower user.name) &&
      checkUsers L (user.id :: identifiers) (L.toLower user.name :: names) users

/-! ## The index file -/

inductive IndexFile
  | absent
  | malformed
  | document (size version : ℕ) (users : Option (List User))

def loadIndex (L : Library) : IndexFile → Option (List User)
  | .absent => some []
  | .malformed => none
  | .document size version users =>
    if size ≤ maxStateBytes ∧ version = stateVersion then
      match users with
      | none => none
      | some users => if checkUsers L [] [] users then some users else none
    else none

def Status.text : Status → String
  | .active => "active"
  | .revoked => "revoked"
  | .other => ""

def Profile.text : Profile → String
  | .quiet => "quiet"
  | .web => "web"
  | .interactive => "interactive"
  | .unset | .other => ""

def field (key : String) (value : Str) : Str := ascii "      \"" ++ ascii key ++ ascii "\": " ++ value

/-- a field with `omitempty` -/
def optionalField (key : String) (value : Option Str) : List Str := (value.map (field key)).toList

def marshalUser (L : Library) (user : User) : Str :=
  let fields :=
    [field "id" (L.quote user.id), field "name" (L.quote user.name), field "profile" (L.quote (ascii user.profile.text)),
      field "status" (L.quote (ascii user.status.text)), field "created_at" (L.time user.createdAt)] ++
    optionalField "rotated_at" (user.rotatedAt.map L.time) ++ optionalField "revoked_at" (user.revokedAt.map L.time) ++
    [field "max_devices" (ascii (toString user.maxDevices))] ++
    optionalField "traffic_reset_generation"
      (if user.trafficResetGeneration = 0 then none else some (ascii (toString user.trafficResetGeneration))) ++
    optionalField "traffic_reset_at" (user.trafficResetAt.map L.time)
  ascii "    \x7b\n" ++ (ascii ",\n").intercalate fields ++ ascii "\n    \x7d"

section

variable (L : Library) (users : List User)

/-- `json.MarshalIndent` of the index, with the newline `saveIndex` adds -/
def marshalIndent : Str :=
  let list := if users = [] then [] else
    ascii "\n" ++ (ascii ",\n").intercalate (users.map (marshalUser L)) ++ ascii "\n  "
  ascii "\x7b\n  \"version\": 1,\n  \"users\": [" ++ list ++ ascii "]\n\x7d\n"

/-- the file `saveIndex` writes -/
def saveIndex : IndexFile := .document (marshalIndent L users).length stateVersion (some users)

/-- what a reader accepts of an index -/
structure Readable : Prop where
  valid : ∀ user ∈ users, validUser L user = true
  ids : (users.map (·.id)).Nodup
  names : (users.map fun user => L.toLower user.name).Nodup

theorem checkUsers_iff (identifiers names : List Str) :
    checkUsers L identifiers names users = true ↔
      Readable L users ∧ (∀ user ∈ users, user.id ∉ identifiers ∧ L.toLower user.name ∉ names) := by
  induction users generalizing identifiers names with
  | nil => exact ⟨fun _ => ⟨⟨nofun, nodup_nil, nodup_nil⟩, nofun⟩, fun _ => rfl⟩
  | cons user users ih =>
    simp only [checkUsers, Bool.and_eq_true, Bool.not_eq_true', contains_eq_mem, decide_eq_false_iff_not, ih]
    constructor
    · rintro ⟨⟨⟨hvalid, hid⟩, hname⟩, hread, hfresh⟩
      refine ⟨⟨?_, ?_, ?_⟩, ?_⟩
      · intro u hu
        rcases mem_cons.1 hu with rfl | hu
        · exact hvalid
        · exact hread.valid u hu
      · refine nodup_cons.2 ⟨fun hmem => ?_, hread.ids⟩
        obtain ⟨u, hu, he⟩ := mem_map.1 hmem
        exact (hfresh u hu).1 (he ▸ mem_cons_self)
      · refine nodup_cons.2 ⟨fun hmem => ?_, hread.names⟩
        obtain ⟨u, hu, he⟩ := mem_map.1 hmem
        exact (hfresh u hu).2 (he ▸ mem_cons_self)
      · intro u hu
        rcases mem_cons.1 hu with rfl | hu
        · exact ⟨hid, hname⟩
        · exact ⟨fun h => (hfresh u hu).1 (mem_cons_of_mem _ h), fun h => (hfresh u hu).2 (mem_cons_of_mem _ h)⟩
    · rintro ⟨⟨hvalid, hids, hnames⟩, hfresh⟩
      obtain ⟨hid, hids⟩ := nodup_cons.1 hids
      obtain ⟨hname, hnames⟩ := nodup_cons.1 hnames
      refine ⟨⟨⟨hvalid user mem_cons_self, (hfresh user mem_cons_self).1⟩, (hfresh user mem_cons_self).2⟩,
        ⟨fun u hu => hvalid u (mem_cons_of_mem _ hu), hids, hnames⟩, fun u hu => ⟨fun h => ?_, fun h => ?_⟩⟩
      · rcases mem_cons.1 h with he | h
        · exact hid (mem_map.2 ⟨u, hu, he⟩)
        · exact (hfresh u (mem_cons_of_mem _ hu)).1 h
      · rcases mem_cons.1 h with he | h
        · exact hname (mem_map.2 ⟨u, hu, he⟩)
        · exact (hfresh u (mem_cons_of_mem _ hu)).2 h

end

/-- what a reader gets is readable -/
theorem readable_of_loadIndex {L : Library} {file : IndexFile} {users : List User} (h : loadIndex L file = some users) :
    Readable L users := by
  cases file with
  | absent =>
    cases h
    exact ⟨nofun, nodup_nil, nodup_nil⟩
  | malformed => cases h
  | document size version list =>
    simp only [loadIndex] at h
    split at h
    · split at h
      · cases h
      split at h
      · rename_i hcheck
        cases h
        exact ((checkUsers_iff L _ [] []).1 hcheck).1
      · cases h
    · cases h

/-- **Index round trip.** A readable index that fits reads back. -/
theorem loadIndex_saveIndex {L : Library} {users : List User} (h : Readable L users)
    (hfits : (marshalIndent L users).length ≤ maxStateBytes) : loadIndex L (saveIndex L users) = some users := by
  have hcheck : checkUsers L [] [] users = true :=
    (checkUsers_iff L users [] []).2 ⟨h, fun _ _ => ⟨not_mem_nil, not_mem_nil⟩⟩
  simp [saveIndex, loadIndex, hfits, hcheck]

/-! ## Credentials -/

structure File where
  regular : Bool
  /-- some permission bit of group or others is set -/
  shared : Bool
  raw : Str

/-- a directory: names are unique -/
abbrev Directory := AList fun _ : Str => File

structure Credential where
  id : Str
  secret : Str

def secretSuffix : Str := ascii ".secret"

/-- the name of the file of a credential -/
def secretName (identifier : Str) : Str := identifier ++ secretSuffix

/-- one line end at the end is cut off -/
def trimLineEnd (encoded : Str) : Str :=
  if [13, 10] <:+ encoded then encoded.take (encoded.length - 2)
  else if [10] <:+ encoded then encoded.take (encoded.length - 1)
  else encoded

def loadSecret (file : File) : Option Str :=
  if file.regular = false ∨ file.shared = true ∨ 128 < file.raw.length then none
  else
    let encoded := trimLineEnd file.raw
    if encoded.length ≠ 43 ∨ (encoded.any fun b => [9, 10, 13, 32, 61].contains b) then none
    else
      match Base64.canonical 32 encoded with
      | some secret => if allZero secret then none else some secret
      | none => none

/-- one turn of the loop of `LoadActiveDirectory`, without the comparison of secrets -/
def loadCredential (name : Str) (file : File) : Option Credential :=
  let id := name.take (name.length - secretSuffix.length)
  if file.regular = false ∨ Base64.canonical idSize id = none then none
  else (loadSecret file).map fun secret => { id, secret }

/-- the loop of `LoadActiveDirectory`, with the secrets it has seen -/
def loadEntries : List Str → List (Σ _ : Str, File) → Option (List Credential)
  | _, [] => some []
  | seenSecrets, entry :: entries =>
    match loadCredential entry.1 entry.2 with
    | none => none
    | some credential =>
      if seenSecrets.contains credential.secret then none
      else (loadEntries (credential.secret :: seenSecrets) entries).map (credential :: ·)

def isSecret (entry : Σ _ : Str, File) : Bool := decide (secretSuffix <:+ entry.1)

/-- the entries that count as credentials -/
def secretEntries (directory : Directory) : List (Σ _ : Str, File) := directory.entries.filter isSecret

/-- `LoadActiveDirectory`; the order of its result decides nothing -/
def loadActiveDirectory (directory : Directory) : Option (List Credential) :=
  let entries := secretEntries directory
  if entries.length = 0 ∨ maxActiveCredentials < entries.length then none else loadEntries [] entries

/-- the credential file the writers make -/
def secretFile (secret : Str) : File := { regular := true, shared := false, raw := Base64.encode secret ++ [10] }

/-- two entries hold different secrets -/
def Differ (e f : Σ _ : Str, File) : Prop :=
  ∀ c d, loadCredential e.1 e.2 = some c → loadCredential f.1 f.2 = some d → c.secret ≠ d.secret

/-- what the loader accepts of a list of entries -/
structure Loadable (entries : List (Σ _ : Str, File)) : Prop where
  loads : ∀ e ∈ entries, (loadCredential e.1 e.2).isSome
  differ : entries.Pairwise Differ

theorem loadEntries_iff (entries : List (Σ _ : Str, File)) (seen : List Str) :
    (loadEntries seen entries).isSome ↔
      Loadable entries ∧ ∀ e ∈ entries, ∀ c, loadCredential e.1 e.2 = some c → c.secret ∉ seen := by
  induction entries generalizing seen with
  | nil => exact ⟨fun _ => ⟨⟨nofun, List.Pairwise.nil⟩, nofun⟩, fun _ => rfl⟩
  | cons e entries ih =>
    cases hload : loadCredential e.1 e.2 with
    | none =>
      constructor
      · intro h
        simp [loadEntries, hload] at h
      · intro h
        have hsome := h.1.loads e mem_cons_self
        rw [hload] at hsome
        cases hsome
    | some c =>
      by_cases hseen : c.secret ∈ seen
      · constructor
        · intro h
          simp [loadEntries, hload, hseen] at h
        · exact fun h => absurd hseen (h.2 e mem_cons_self c hload)
      · have hunfold : (loadEntries seen (e :: entries)).isSome = (loadEntries (c.secret :: seen) entries).isSome := by
          simp [loadEntries, hload, hseen]
        rw [hunfold, ih]
        constructor
        · rintro ⟨⟨hloads, hdiffer⟩, hfresh⟩
          refine ⟨⟨?_, pairwise_cons.2 ⟨fun f hf c' d hc' hd he => ?_, hdiffer⟩⟩, ?_⟩
          · intro f hf
            rcases mem_cons.1 hf with rfl | hf
            · rw [hload]
              rfl
            · exact hloads f hf
          · cases hload.symm.trans hc'
            exact hfresh f hf d hd (he ▸ mem_cons_self)
          · intro f hf d hd
            rcases mem_cons.1 hf with rfl | hf
            · cases hload.symm.trans hd
              exact hseen
            · exact fun h => hfresh f hf d hd (mem_cons_of_mem _ h)
        · rintro ⟨⟨hloads, hdiffer⟩, hfresh⟩
          obtain ⟨hfirst, hdiffer⟩ := pairwise_cons.1 hdiffer
          refine ⟨⟨fun f hf => hloads f (mem_cons_of_mem _ hf), hdiffer⟩, fun f hf d hd h => ?_⟩
          rcases mem_cons.1 h with he | h
          · exact hfirst f hf c d hload hd he.symm
          · exact hfresh f (mem_cons_of_mem _ hf) d hd h

/-- **Loader.** The server's loader succeeds on a directory with one to 256 credential files, each well formed, with different
secrets. -/
theorem loadActiveDirectory_iff (directory : Directory) :
    (loadActiveDirectory directory).isSome ↔
      secretEntries directory ≠ [] ∧ (secretEntries directory).length ≤ maxActiveCredentials ∧
        Loadable (secretEntries directory) := by
  unfold loadActiveDirectory
  simp only
  split
  · rename_i hcount
    constructor
    · exact nofun
    rintro ⟨hne, hle, _⟩
    rcases hcount with hzero | hmany
    · exact absurd (length_eq_zero_iff.1 hzero) hne
    · exact absurd hle (not_le.2 hmany)
  · rename_i hcount
    rw [loadEntries_iff]
    obtain ⟨hzero, hmany⟩ := not_or.1 hcount
    constructor
    · exact fun h => ⟨fun he => hzero (length_eq_zero_iff.2 he), not_lt.1 hmany, h.1⟩
    · exact fun h => ⟨h.2.2, fun _ _ _ _ => not_mem_nil⟩

end NeProto.Admin
