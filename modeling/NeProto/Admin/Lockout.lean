/-
User administration and the readers of what it writes (`internal/admin/manager.go`, `internal/credentials/store.go`).

The writers check less than the readers ask for: `AddUser` and `InstallClusterPeer` do not count the active credentials, `saveIndex`
does not measure the file, `AddUser` compares names with `EqualFold` and `loadIndex` with `ToLower`, and `RevokeUser` counts the
credentials of cluster peers as users. So calls that succeed can leave files no reader accepts (`locked_out`). `Safe` is what a
call has to meet; a sequence of calls that meet it keeps the installation usable (`never_locked_out`).
-/
import NeProto.Admin.Manager

namespace NeProto.Admin

open Base64 Function List

/-! ## What stays usable -/

variable (L : Library)

/-- `admin.Open` and the server's loader succeed -/
structure Usable (s : Store) : Prop where
  opens : (loadIndex L s.index).isSome
  loads : (loadActiveDirectory s.active).isSome

def HasActive (s : Store) : Prop :=
  ∃ users, loadIndex L s.index = some users ∧ ∃ user ∈ users, user.status = .active

/-- the secret a call puts into the active directory -/
def drawnSecret (s : Store) : Op → Option Str
  | .addUser _ _ random _ =>
    ((loadIndex L s.index).bind fun users => newIdentifier users randomAttempts random).bind fun drawn =>
      newSecret randomAttempts drawn.2
  | .rotateUser _ random _ => newSecret randomAttempts random
  | .installClusterPeer _ _ secret _ => some secret
  | _ => none

/-- a new secret is none of the active ones -/
def Distinct (s : Store) (op : Op) : Prop :=
  ∀ secret ∈ drawnSecret L s op, ∀ entry ∈ s.active.entries, loadSecret entry.2 ≠ some secret

/-- the users an index with this change lists -/
def planned (users : List User) : Op → Option (List User)
  | .addUser name _ random now =>
    (newIdentifier users randomAttempts random).map fun drawn => sortUsers L (users ++ [newUser drawn.1 name now])
  | .rotateUser identifier _ now => ((findUser users identifier).bind (rotate now)).map (replaceUser users)
  | .revokeUser identifier now => ((findUser users identifier).bind (revoke now)).map (replaceUser users)
  | .deleteUser identifier => some (users.eraseP fun other => decide (other.id = identifier))
  | .setUserDeviceLimit identifier maximum => ((findUser users identifier).bind (limitDevices maximum)).map (replaceUser users)
  | .resetUserTraffic identifier now => ((findUser users identifier).bind (resetTraffic now)).map (replaceUser users)
  | .installClusterPeer .. | .removeClusterPeer .. => none

/-- the index with this change is no larger than a reader reads -/
def Fits (users : List User) (op : Op) : Prop :=
  ∀ changed ∈ planned L users op, (marshalIndent L changed).length ≤ maxStateBytes

/-- what the calls do not check -/
def Safe (s : Store) (op : Op) : Prop :=
  (∀ users ∈ loadIndex L s.index, Fits L users op) ∧
    match op with
    | .addUser name _ _ now =>
      (secretEntries s.active).length < maxActiveCredentials ∧ now ≠ 0 ∧
        ∀ users ∈ loadIndex L s.index, ∀ user ∈ users, L.toLower user.name ≠ L.toLower name
    | .revokeUser identifier _ =>
      ∀ users ∈ loadIndex L s.index, ∃ user ∈ users, user.id ≠ identifier ∧ user.status = .active
    | .installClusterPeer .. => s.serverReadsActive = true ∨ (secretEntries s.active).length < maxActiveCredentials
    | .removeClusterPeer _ identifier _ => ∃ entry ∈ secretEntries s.active, entry.1 ≠ secretName identifier
    | _ => True

instance (s : Store) (op : Op) : Decidable (Distinct L s op) := by
  unfold Distinct
  infer_instance

instance (users : List User) (op : Op) : Decidable (Fits L users op) := by
  unfold Fits
  infer_instance

instance (s : Store) (op : Op) : Decidable (Safe L s op) := by
  unfold Safe
  cases op <;> infer_instance

/-! ## Credentials that are written -/

variable {users : List User} {name secret identifier : Str} {directory : Directory} {user : User} {L}

theorem newIdentifier_spec {attempts : ℕ} {random rest : Str}
    (h : newIdentifier users attempts random = some (identifier, rest)) :
    validIdentifier identifier = true ∧ ∀ user ∈ users, user.id ≠ identifier := by
  induction attempts generalizing random with
  | zero => cases h
  | succ attempts ih =>
    simp only [newIdentifier] at h
    split at h
    · cases h
    rename_i hlen
    split at h
    · exact ih h
    rename_i hdraw
    obtain ⟨hzero, htaken⟩ := not_or.1 hdraw
    cases h
    have hraw : (random.take idSize).length = idSize := by
      rw [length_take]
      exact min_eq_left (not_lt.1 hlen)
    refine ⟨?_, fun user hu he => htaken ?_⟩
    · rw [validIdentifier, canonical_encode hraw]
      simpa using hzero
    · exact any_eq_true.2 ⟨user, hu, decide_eq_true he⟩

theorem newSecret_spec {attempts : ℕ} {random : Str} (h : newSecret attempts random = some secret) :
    secret.length = 32 ∧ allZero secret = false := by
  induction attempts generalizing random with
  | zero => cases h
  | succ attempts ih =>
    simp only [newSecret] at h
    split at h
    · cases h
    rename_i hlen
    split at h
    · exact ih h
    rename_i hzero
    cases h
    refine ⟨?_, Bool.eq_false_iff.2 hzero⟩
    rw [length_take]
    exact min_eq_left (not_lt.1 hlen)

theorem canonical_of_validIdentifier (h : validIdentifier identifier = true) : Base64.canonical idSize identifier ≠ none := by
  intro hnone
  rw [validIdentifier, hnone] at h
  cases h

/-- what the writers write is what the loader reads -/
theorem loadSecret_secretFile (hlen : secret.length = 32) (hzero : allZero secret = false) :
    loadSecret (secretFile secret) = some secret := by
  have henc : (encode secret).length = 43 := by rw [encode_length, hlen]
  have hclean : ∀ b ∈ encode secret, b ∉ ([9, 10, 13, 32, 61] : List UInt8) := fun b hb => encode_digits hb
  have htrim : trimLineEnd (encode secret ++ [10]) = encode secret := by
    have hcr : ¬ [13, 10] <:+ encode secret ++ [10] := by
      rintro ⟨t, ht⟩
      have hsplit : (t ++ [13]) ++ [10] = encode secret ++ [10] := by
        rw [← ht, append_assoc]
        rfl
      have hmem : (13 : UInt8) ∈ encode secret :=
        append_cancel_right hsplit ▸ mem_append_right t mem_cons_self
      exact hclean 13 hmem (by decide)
    rw [trimLineEnd, if_neg hcr]
    simp
  have hany : ¬ ((encode secret).length ≠ 43 ∨
      ((encode secret).any fun b => [9, 10, 13, 32, 61].contains b) = true) := by
    rintro (hne | hbad)
    · exact hne henc
    · obtain ⟨b, hb, hin⟩ := any_eq_true.1 hbad
      exact hclean b hb (contains_iff_mem.1 hin)
  have hfile : ¬ ((secretFile secret).regular = false ∨ (secretFile secret).shared = true ∨
      128 < (secretFile secret).raw.length) := by
    simp [secretFile, henc]
  simp only [loadSecret]
  rw [if_neg hfile]
  simp only [secretFile, htrim]
  rw [if_neg hany, canonical_encode hlen]
  simp [hzero]

theorem loadCredential_secretFile (hid : Base64.canonical idSize identifier ≠ none)
    (hlen : secret.length = 32) (hzero : allZero secret = false) :
    loadCredential (secretName identifier) (secretFile secret) = some { id := identifier, secret } := by
  have htake : (secretName identifier).take ((secretName identifier).length - secretSuffix.length) = identifier := by
    simp [secretName]
  have hok : ¬ ((secretFile secret).regular = false ∨ canonical idSize identifier = none) := by
    simp [secretFile, hid]
  simp only [loadCredential, htake]
  rw [if_neg hok, loadSecret_secretFile hlen hzero]
  rfl

theorem isSecret_secretName (identifier : Str) (file : File) : isSecret ⟨secretName identifier, file⟩ = true :=
  decide_eq_true (suffix_append _ _)

/-! ## The active directory -/

theorem Loadable.sublist {l l' : List (Σ _ : Str, File)} (h : Loadable l) (hsub : l'.Sublist l) : Loadable l' :=
  ⟨fun e he => h.loads e (hsub.subset he), h.differ.sublist hsub⟩

/-- the entries after a file was written -/
theorem secretEntries_insert (directory : Directory) (identifier : Str) (file : File) :
    secretEntries (directory.insert (secretName identifier) file) =
      ⟨secretName identifier, file⟩ ::
        (directory.entries.kerase (secretName identifier)).filter isSecret := by
  exact filter_cons_of_pos (isSecret_secretName identifier file)

theorem kerase_sublist (directory : Directory) (name : Str) :
    ((directory.entries.kerase name).filter isSecret).Sublist (secretEntries directory) :=
  (List.kerase_sublist _ _).filter _

/-- what the loader finds in an entry is what its file holds -/
theorem loadSecret_of_loadCredential {file : File} {c : Credential} (h : loadCredential name file = some c) :
    loadSecret file = some c.secret ∧ c.id = name.take (name.length - secretSuffix.length) := by
  simp only [loadCredential] at h
  split at h
  · cases h
  · obtain ⟨secret, hsecret, rfl⟩ := Option.map_eq_some_iff.1 h
    exact ⟨hsecret, rfl⟩

theorem loadable_insert (h : Loadable (secretEntries directory))
    (hid : Base64.canonical idSize identifier ≠ none) (hlen : secret.length = 32) (hzero : allZero secret = false)
    (hnew : ∀ entry ∈ directory.entries, loadSecret entry.2 ≠ some secret) :
    Loadable (secretEntries (directory.insert (secretName identifier) (secretFile secret))) := by
  have hload := loadCredential_secretFile hid hlen hzero
  have hrest := h.sublist (kerase_sublist directory (secretName identifier))
  rw [secretEntries_insert]
  refine ⟨fun e he => ?_, pairwise_cons.2 ⟨fun e he c d hc hd hsame => ?_, hrest.differ⟩⟩
  · rcases mem_cons.1 he with rfl | he
    · rw [hload]
      rfl
    · exact hrest.loads e he
  · cases hload.symm.trans hc
    have hmem : e ∈ directory.entries := (List.kerase_sublist _ _).subset (List.mem_of_mem_filter he)
    exact hnew e hmem ((loadSecret_of_loadCredential hd).1.trans (congrArg some hsame.symm))

/-- a file that replaces another one leaves the count -/
theorem length_kerase (h : secretName identifier ∈ directory) :
    ((directory.entries.kerase (secretName identifier)).filter isSecret).length + 1 = (secretEntries directory).length := by
  obtain ⟨file, l₁, l₂, _, hsplit, herase⟩ := exists_of_kerase (AList.mem_keys.1 h)
  rw [secretEntries, herase, hsplit]
  simp only [filter_append, filter_cons_of_pos (isSecret_secretName identifier file), length_append,
    length_cons]
  omega

/-- room for one more -/
theorem loads_insert (h : (loadActiveDirectory directory).isSome)
    (hid : validIdentifier identifier = true) (hlen : secret.length = 32) (hzero : allZero secret = false)
    (hnew : ∀ entry ∈ directory.entries, loadSecret entry.2 ≠ some secret)
    (hroom : secretName identifier ∈ directory ∨ (secretEntries directory).length < maxActiveCredentials) :
    (loadActiveDirectory (directory.insert (secretName identifier) (secretFile secret))).isSome := by
  obtain ⟨_, hcount, hload⟩ := (loadActiveDirectory_iff directory).1 h
  refine (loadActiveDirectory_iff _).2
    ⟨?_, ?_, loadable_insert hload (canonical_of_validIdentifier hid) hlen hzero hnew⟩
  · rw [secretEntries_insert]
    exact nofun
  · rw [secretEntries_insert]
    rcases hroom with hmem | hroom
    · exact (length_kerase hmem).trans_le hcount
    · exact (Nat.succ_le_succ (kerase_sublist directory (secretName identifier)).length_le).trans hroom

theorem loads_erase (h : (loadActiveDirectory directory).isSome)
    (hother : ∃ entry ∈ secretEntries directory, entry.1 ≠ name) : (loadActiveDirectory (directory.erase name)).isSome := by
  obtain ⟨_, hcount, hload⟩ := (loadActiveDirectory_iff directory).1 h
  obtain ⟨entry, hmem, hne⟩ := hother
  have hsub := kerase_sublist directory name
  refine (loadActiveDirectory_iff _).2 ⟨?_, hsub.length_le.trans hcount, hload.sublist hsub⟩
  obtain ⟨hin, hsuffix⟩ := mem_filter.1 hmem
  have hkept : entry ∈ directory.entries.kerase name := (mem_eraseP_of_neg (by simpa using hne.symm)).2 hin
  exact ne_nil_of_mem (mem_filter.2 ⟨hkept, hsuffix⟩)

/-- a name with the suffix is the name of what stands before it -/
theorem secretName_take (h : secretSuffix <:+ name) : secretName (name.take (name.length - secretSuffix.length)) = name := by
  obtain ⟨t, rfl⟩ := h
  simp [secretName]

/-- the guard of `RevokeUser`: a loaded directory whose one credential is not the user's holds another file -/
theorem exists_other {loaded : List Credential}
    (h : loadActiveDirectory directory = some loaded) (hlast : loaded.map (·.id) ≠ [identifier]) :
    ∃ entry ∈ secretEntries directory, entry.1 ≠ secretName identifier := by
  obtain ⟨hne, _, hload⟩ := (loadActiveDirectory_iff directory).1 (h ▸ rfl)
  by_contra hall
  push Not at hall
  -- names are unique, so the one entry is the user's
  have hkeys : ((secretEntries directory).map Sigma.fst).Nodup :=
    directory.nodupKeys.sublist filter_sublist
  obtain ⟨entry, hentry⟩ : ∃ entry, secretEntries directory = [entry] := by
    cases hlist : secretEntries directory with
    | nil => exact absurd hlist hne
    | cons entry rest =>
      cases rest with
      | nil => exact ⟨entry, rfl⟩
      | cons next rest =>
        rw [hlist] at hall hkeys
        have hsame : entry.1 = next.1 := (hall entry (by simp)).trans (hall next (by simp)).symm
        simp [hsame] at hkeys
  have hname := hall entry (hentry ▸ mem_cons_self)
  obtain ⟨c, hc⟩ := Option.isSome_iff_exists.1 (hload.loads entry (hentry ▸ mem_cons_self))
  have hloaded : loaded = [c] := by
    rw [loadActiveDirectory, hentry] at h
    simp only [loadEntries, hc, contains_nil, Bool.false_eq_true, if_false, Option.map_some] at h
    exact (Option.some.inj h).symm
  have hid : c.id = identifier := by
    rw [(loadSecret_of_loadCredential hc).2, hname]
    simp [secretName]
  exact hlast (by rw [hloaded, map_singleton, hid])

/-! ## The index -/

theorem findUser_spec (h : findUser users identifier = some user) : user ∈ users ∧ user.id = identifier :=
  ⟨mem_of_find?_eq_some h, by simpa using find?_some h⟩

section

variable (h : Readable L users)
include h

theorem Readable.unique {u v : User} (hu : u ∈ users) (hv : v ∈ users)
    (hid : u.id = v.id) : u = v := inj_on_of_nodup_map h.ids hu hv hid

/-- a user changed in place keeps the index readable -/
theorem Readable.replace {changed : User} (hmem : user ∈ users)
    (hid : changed.id = user.id) (hname : changed.name = user.name) (hvalid : validUser L changed = true) :
    Readable L (replaceUser users changed) := by
  have hsame : ∀ other ∈ users, other.id = changed.id → other = user := fun other hother he =>
    h.unique hother hmem (he.trans hid)
  refine ⟨fun u hu => ?_, ?_, ?_⟩
  · obtain ⟨other, hother, rfl⟩ := mem_map.1 hu
    split
    · exact hvalid
    · exact h.valid other hother
  · have hids : (replaceUser users changed).map (·.id) = users.map (·.id) := by
      rw [replaceUser, map_map]
      refine map_congr_left fun other hother => ?_
      simp only [comp_apply]
      split
      · rename_i he
        exact he.symm
      · rfl
    rw [hids]
    exact h.ids
  · have hnames : (replaceUser users changed).map (fun u => L.toLower u.name) = users.map (fun u => L.toLower u.name) := by
      rw [replaceUser, map_map]
      refine map_congr_left fun other hother => ?_
      simp only [comp_apply]
      split
      · rename_i he
        rw [hsame other hother he, hname]
      · rfl
    rw [hnames]
    exact h.names

theorem Readable.erase {changed : List User} (hsub : changed.Sublist users) : Readable L changed :=
  ⟨fun u hu => h.valid u (hsub.subset hu), h.ids.sublist (hsub.map _), h.names.sublist (hsub.map _)⟩

/-- a new user with a name of its own keeps the index readable -/
theorem Readable.add (hvalid : validUser L user = true)
    (hid : ∀ other ∈ users, other.id ≠ user.id) (hname : ∀ other ∈ users, L.toLower other.name ≠ L.toLower user.name) :
    Readable L (sortUsers L (users ++ [user])) := by
  have hperm : (sortUsers L (users ++ [user])).Perm (users ++ [user]) := perm_insertionSort _ _
  have hids : ((users ++ [user]).map (·.id)).Nodup := by
    rw [map_append]
    refine List.Nodup.append h.ids (nodup_singleton _) fun x hx hu => ?_
    obtain ⟨other, hother, rfl⟩ := mem_map.1 hx
    exact hid other hother (mem_singleton.1 hu)
  have hnames : ((users ++ [user]).map fun u => L.toLower u.name).Nodup := by
    rw [map_append]
    refine List.Nodup.append h.names (nodup_singleton _) fun x hx hu => ?_
    obtain ⟨other, hother, rfl⟩ := mem_map.1 hx
    exact hname other hother (mem_singleton.1 hu)
  refine ⟨fun u hu => ?_, (hperm.map _).nodup_iff.2 hids, (hperm.map _).nodup_iff.2 hnames⟩
  rcases mem_append.1 (hperm.mem_iff.1 hu) with hu | hu
  · exact h.valid u hu
  · rw [mem_singleton.1 hu]
    exact hvalid

end

/-! ## One call -/

section Calls

variable {L : Library} {s t : Store}

/-- what a call has to keep -/
def Kept (L : Library) (s t : Store) : Prop := Usable L t ∧ (HasActive L s → HasActive L t)

variable {now : ℕ} {identifier : Str} {op : Op}

/-- the calls that write a readable index that fits, and leave a loadable directory -/
theorem kept_of_index {users changed : List User} (hload : loadIndex L s.index = some users) (hread : Readable L changed)
    (hfits : (marshalIndent L changed).length ≤ maxStateBytes) (hindex : t.index = saveIndex L changed)
    (hactive : (loadActiveDirectory t.active).isSome)
    (hkeep : (∃ user ∈ users, user.status = .active) → ∃ user ∈ changed, user.status = .active) : Kept L s t := by
  have hback : loadIndex L t.index = some changed := hindex ▸ loadIndex_saveIndex hread hfits
  refine ⟨⟨hback ▸ rfl, hactive⟩, ?_⟩
  rintro ⟨users', hload', hsome⟩
  cases hload.symm.trans hload'
  exact ⟨changed, hback, hkeep hsome⟩

theorem kept_addUser {name : Str} {profile : Profile} {random : Str} (h : Usable L s)
    (hdistinct : Distinct L s (.addUser name profile random now)) (hsafe : Safe L s (.addUser name profile random now))
    (hcall : addUser L s name profile random now = some t) : Kept L s t := by
  obtain ⟨hfits, hroom, hclock, hfold⟩ := hsafe
  simp only [addUser] at hcall
  split at hcall
  · rename_i hvalid
    split at hcall
    · cases hcall
    rename_i users hload
    split at hcall
    · cases hcall
    split at hcall
    · cases hcall
    rename_i identifier rest hid
    split at hcall
    · cases hcall
    rename_i secret hsecret
    split at hcall
    · cases hcall
    cases hcall
    obtain ⟨hvalidId, hunused⟩ := newIdentifier_spec hid
    obtain ⟨hlen, hzero⟩ := newSecret_spec hsecret
    have hdrawn : drawnSecret L s (.addUser name profile random now) = some secret := by
      simp [drawnSecret, hload, hid, hsecret]
    have hplanned : planned L users (.addUser name profile random now) =
        some (sortUsers L (users ++ [newUser identifier name now])) := by
      simp [planned, hid]
    refine kept_of_index hload ?_ (hfits users hload _ hplanned) rfl
      (loads_insert h.loads hvalidId hlen hzero (hdistinct secret hdrawn) (.inr hroom)) ?_
    · refine (readable_of_loadIndex hload).add ?_ hunused (hfold users hload)
      simp [validUser, newUser, hvalidId, hvalid.1, validProfile, hclock, maxUserDevices]
    · rintro ⟨user, hu, hstatus⟩
      exact ⟨user, (perm_insertionSort _ _).mem_iff.2 (mem_append_left _ hu), hstatus⟩
  · cases hcall

/-- what the changes of one user leave alone -/
structure Tame (L : Library) (change : User → Option User) : Prop where
  id : ∀ u v, change u = some v → v.id = u.id
  name : ∀ u v, change u = some v → v.name = u.name
  valid : ∀ u v, change u = some v → validUser L u = true → validUser L v = true

theorem changeUser_spec {change : User → Option User} (hcall : changeUser L s identifier change = some t) :
    ∃ users user changed, loadIndex L s.index = some users ∧ findUser users identifier = some user ∧
      change user = some changed ∧ t = { s with index := saveIndex L (replaceUser users changed) } := by
  simp only [changeUser] at hcall
  split at hcall
  · split at hcall
    · cases hcall
    rename_i users hload
    split at hcall
    · cases hcall
    rename_i changed hchange
    obtain ⟨user, hfind, hchanged⟩ := Option.bind_eq_some_iff.1 hchange
    exact ⟨users, user, changed, hload, hfind, hchanged, (Option.some.inj hcall).symm⟩
  · cases hcall

/-- one user changed, the directory changed to one that loads -/
theorem kept_change {users : List User} {user changed : User} {change : User → Option User}
    (hload : loadIndex L s.index = some users) (hfind : findUser users identifier = some user)
    (hchange : change user = some changed) (htame : Tame L change) (hfits : Fits L users op)
    (hplanned : planned L users op = some (replaceUser users changed)) (hindex : t.index = saveIndex L (replaceUser users changed))
    (hactive : (loadActiveDirectory t.active).isSome)
    (hkeep : changed.status = user.status ∨ ∃ other ∈ users, other.id ≠ identifier ∧ other.status = .active) : Kept L s t := by
  have hread := readable_of_loadIndex hload
  obtain ⟨hmem, hid⟩ := findUser_spec hfind
  have hcid := htame.id user changed hchange
  refine kept_of_index hload
    (hread.replace hmem hcid (htame.name user changed hchange) (htame.valid user changed hchange (hread.valid user hmem)))
    (hfits _ hplanned) hindex hactive ?_
  rintro ⟨active, hact, hstatus⟩
  rcases hkeep with hsame | ⟨other, hother, hne, hst⟩
  · by_cases he : active.id = changed.id
    · have hau : active = user := hread.unique hact hmem (he.trans hcid)
      refine ⟨changed, mem_map.2 ⟨active, hact, if_pos he⟩, ?_⟩
      rw [hsame, ← hau, hstatus]
    · exact ⟨active, mem_map.2 ⟨active, hact, if_neg he⟩, hstatus⟩
  · refine ⟨other, mem_map.2 ⟨other, hother, if_neg fun he => hne ?_⟩, hst⟩
    rw [he, hcid, hid]

section

variable {u v : User}

theorem limitDevices_spec {maximum : ℤ} (h : limitDevices maximum u = some v) :
    (0 ≤ maximum ∧ maximum ≤ maxUserDevices) ∧ v = { u with maxDevices := maximum } := by
  rw [limitDevices, Option.ite_none_right_eq_some] at h
  exact h.imp_right fun he => (Option.some.inj he).symm

theorem resetTraffic_spec (h : resetTraffic now u = some v) :
    v = { u with trafficResetGeneration := u.trafficResetGeneration + 1, trafficResetAt := some now } := by
  rw [resetTraffic, Option.ite_none_left_eq_some] at h
  exact (Option.some.inj h.2).symm

theorem rotate_spec (h : rotate now u = some v) : v = { u with rotatedAt := some now } := by
  rw [rotate, Option.ite_none_right_eq_some] at h
  exact (Option.some.inj h.2).symm

theorem revoke_spec (h : revoke now u = some v) : v = { u with status := .revoked, revokedAt := some now } := by
  rw [revoke, Option.ite_none_right_eq_some] at h
  exact (Option.some.inj h.2).symm

end

theorem tame_limitDevices (maximum : ℤ) : Tame L (limitDevices maximum) := by
  refine ⟨fun u v h => ?_, fun u v h => ?_, fun u v h hvalid => ?_⟩
  · rw [(limitDevices_spec h).2]
  · rw [(limitDevices_spec h).2]
  obtain ⟨hmax, rfl⟩ := limitDevices_spec h
  simp only [validUser, Bool.and_eq_true, decide_eq_true_eq] at hvalid ⊢
  tauto

theorem tame_resetTraffic (now : ℕ) : Tame L (resetTraffic now) := by
  refine ⟨fun u v h => ?_, fun u v h => ?_, fun u v h hvalid => ?_⟩
  · rw [resetTraffic_spec h]
  · rw [resetTraffic_spec h]
  · rw [resetTraffic_spec h]
    exact hvalid

theorem tame_rotate (now : ℕ) : Tame L (rotate now) := by
  refine ⟨fun u v h => ?_, fun u v h => ?_, fun u v h hvalid => ?_⟩
  · rw [rotate_spec h]
  · rw [rotate_spec h]
  · rw [rotate_spec h]
    exact hvalid

theorem tame_revoke (now : ℕ) : Tame L (revoke now) := by
  refine ⟨fun u v h => ?_, fun u v h => ?_, fun u v h hvalid => ?_⟩
  · rw [revoke_spec h]
  · rw [revoke_spec h]
  rw [revoke_spec h]
  simp only [validUser, Bool.and_eq_true, decide_eq_true_eq] at hvalid ⊢
  tauto

section

variable (h : Usable L s)

include h

theorem kept_rotateUser {random : Str}
    (hdistinct : Distinct L s (.rotateUser identifier random now)) (hsafe : Safe L s (.rotateUser identifier random now))
    (hcall : rotateUser L s identifier random now = some t) : Kept L s t := by
  simp only [rotateUser] at hcall
  split at hcall
  · rename_i secret file archive hsecret hfile _
    split at hcall
    · obtain ⟨r, hr, rfl⟩ := Option.map_eq_some_iff.1 hcall
      obtain ⟨users, user, changed, hload, hfind, hchange, rfl⟩ := changeUser_spec hr
      obtain ⟨hlen, hzero⟩ := newSecret_spec hsecret
      have hread := readable_of_loadIndex hload
      obtain ⟨hmem, hid⟩ := findUser_spec hfind
      have hvalidId : validIdentifier identifier = true := by
        have hvalid := hread.valid user hmem
        simp only [validUser, Bool.and_eq_true] at hvalid
        exact hid ▸ hvalid.1.1.1.1.1.1.1
      have hin : secretName identifier ∈ s.active := AList.lookup_isSome.1 (hfile ▸ rfl)
      refine kept_change hload hfind hchange (tame_rotate now) (hsafe.1 users hload) ?_ rfl
        (loads_insert h.loads hvalidId hlen hzero (hdistinct secret hsecret) (.inl hin)) (.inl ?_)
      · simp [planned, hfind, hchange]
      · rw [rotate_spec hchange]
    · cases hcall
  · cases hcall

theorem kept_revokeUser (hsafe : Safe L s (.revokeUser identifier now))
    (hcall : revokeUser L s identifier now = some t) : Kept L s t := by
  simp only [revokeUser] at hcall
  split at hcall
  · rename_i loaded archive hloaded _
    split at hcall
    · cases hcall
    rename_i hlast
    split at hcall
    · obtain ⟨r, hr, rfl⟩ := Option.map_eq_some_iff.1 hcall
      obtain ⟨users, user, changed, hload, hfind, hchange, rfl⟩ := changeUser_spec hr
      refine kept_change hload hfind hchange (tame_revoke now) (hsafe.1 users hload) ?_ rfl
        (loads_erase h.loads (exists_other hloaded hlast)) (.inr (hsafe.2 users hload))
      simp [planned, hfind, hchange]
    · cases hcall
  · cases hcall

theorem kept_deleteUser (hsafe : Safe L s (.deleteUser identifier))
    (hcall : deleteUser L s identifier = some t) : Kept L s t := by
  simp only [deleteUser] at hcall
  split at hcall
  · split at hcall
    · cases hcall
    rename_i users hload
    split at hcall
    · cases hcall
    rename_i user hfind
    split at hcall
    · rename_i hrevoked
      cases hcall
      have hread := readable_of_loadIndex hload
      obtain ⟨hmem, hid⟩ := findUser_spec hfind
      refine kept_of_index hload (hread.erase eraseP_sublist) (hsafe.1 users hload _ rfl) rfl h.loads ?_
      rintro ⟨active, hact, hstatus⟩
      refine ⟨active, (mem_eraseP_of_neg fun he => ?_).2 hact, hstatus⟩
      -- the active user would be the revoked one
      obtain rfl := hread.unique hact hmem ((of_decide_eq_true he).trans hid.symm)
      cases hstatus.symm.trans hrevoked
    · cases hcall
  · cases hcall

/-- the calls that only touch the directory -/
theorem kept_of_active (hindex : t.index = s.index) (hactive : (loadActiveDirectory t.active).isSome) : Kept L s t := by
  refine ⟨⟨hindex ▸ h.opens, hactive⟩, ?_⟩
  rintro ⟨users, hload, hsome⟩
  exact ⟨users, hindex ▸ hload, hsome⟩

theorem kept_installClusterPeer {node secret : Str} {ready : Bool}
    (hdistinct : Distinct L s (.installClusterPeer node identifier secret ready))
    (hsafe : Safe L s (.installClusterPeer node identifier secret ready))
    (hcall : installClusterPeer s node identifier secret ready = some t) : Kept L s t := by
  simp only [installClusterPeer] at hcall
  split at hcall
  · rename_i hvalid
    obtain ⟨_, hid, hlen, hzero⟩ := hvalid
    split at hcall
    · cases hcall
    split at hcall
    · cases hcall
    split at hcall
    · cases hcall
    rename_i hserver
    cases hcall
    refine kept_of_active h rfl ?_
    rcases hsafe.2 with hreads | hroom
    · have hafter := (not_or.1 fun hbad => hserver ⟨hreads, hbad⟩).2
      exact Option.isSome_iff_ne_none.2 fun hnone => hafter (Option.isNone_iff_eq_none.2 hnone)
    · exact loads_insert h.loads hid hlen hzero (hdistinct secret rfl) (.inr hroom)
  · cases hcall

theorem kept_removeClusterPeer {node : Str} {ready : Bool} (hsafe : Safe L s (.removeClusterPeer node identifier ready))
    (hcall : removeClusterPeer s node identifier ready = some t) : Kept L s t := by
  simp only [removeClusterPeer] at hcall
  split at hcall
  · cases hcall
    exact kept_of_active h rfl (loads_erase h.loads hsafe.2)
  · cases hcall

theorem kept_setUserDeviceLimit {maximum : ℤ} (hsafe : Safe L s (.setUserDeviceLimit identifier maximum))
    (hcall : setUserDeviceLimit L s identifier maximum = some t) : Kept L s t := by
  obtain ⟨users, user, changed, hload, hfind, hchange, rfl⟩ := changeUser_spec hcall
  refine kept_change hload hfind hchange (tame_limitDevices maximum) (hsafe.1 users hload) ?_ rfl h.loads (.inl ?_)
  · simp [planned, hfind, hchange]
  rw [(limitDevices_spec hchange).2]

theorem kept_resetUserTraffic (hsafe : Safe L s (.resetUserTraffic identifier now))
    (hcall : resetUserTraffic L s identifier now = some t) : Kept L s t := by
  obtain ⟨users, user, changed, hload, hfind, hchange, rfl⟩ := changeUser_spec hcall
  refine kept_change hload hfind hchange (tame_resetTraffic now) (hsafe.1 users hload) ?_ rfl h.loads (.inl ?_)
  · simp [planned, hfind, hchange]
  rw [resetTraffic_spec hchange]

/-- **One call** that meets the condition keeps the installation usable and its users reachable. -/
theorem kept_call (hdistinct : Distinct L s op) (hsafe : Safe L s op) (hcall : call L s op = some t) : Kept L s t := by
  cases op with
  | addUser name profile random now => exact kept_addUser h hdistinct hsafe hcall
  | rotateUser identifier random now => exact kept_rotateUser h hdistinct hsafe hcall
  | revokeUser identifier now => exact kept_revokeUser h hsafe hcall
  | deleteUser identifier => exact kept_deleteUser h hsafe hcall
  | setUserDeviceLimit identifier maximum => exact kept_setUserDeviceLimit h hsafe hcall
  | resetUserTraffic identifier now => exact kept_resetUserTraffic h hsafe hcall
  | installClusterPeer node identifier secret ready => exact kept_installClusterPeer h hdistinct hsafe hcall
  | removeClusterPeer node identifier ready => exact kept_removeClusterPeer h hsafe hcall

theorem kept_step (hdistinct : Distinct L s op) (hsafe : Safe L s op) : Kept L s (step L s op) := by
  cases hcall : call L s op with
  | none =>
    rw [step, hcall]
    exact ⟨h, id⟩
  | some t =>
    rw [step, hcall]
    exact kept_call h hdistinct hsafe hcall

end

end Calls

/-! ## Every sequence of calls -/

/-- **No lockout.** From files that open and load, a sequence of calls that each meet the condition, with secrets that are
distinct from the active ones, leaves files that open and load, and an active user if there was one. -/
theorem never_locked_out (L : Library) (s : Store) (ops : List Op) (h : Usable L s)
    (hdistinct : Machine.Guarded (step L) (Distinct L) s ops) (hsafe : Machine.Guarded (step L) (Safe L) s ops) :
    Usable L (run L s ops) ∧ (HasActive L s → HasActive L (run L s ops)) := by
  induction ops generalizing s with
  | nil => exact ⟨h, id⟩
  | cons op ops ih =>
    obtain ⟨husable, hkeeps⟩ := kept_step h hdistinct.1 hsafe.1
    obtain ⟨hrest, hactive⟩ := ih (step L s op) husable hdistinct.2 hsafe.2
    exact ⟨hrest, fun hs => hactive (hkeeps hs)⟩

/-! ## An administrator and a cluster peer -/

/-- ASCII names; literals without escapes -/
def asciiLibrary : Library where
  toLower := asciiPlatform.toLower
  equalFold := asciiPlatform.equalFold
  trimSpace := asciiPlatform.trimSpace
  runes := fun s => if s.all (· < 128) then some (s.map UInt8.toNat) else none
  quote := fun s => [34] ++ s ++ [34]
  time := fun _ => ascii "\"2026-01-01T00:00:00Z\""

def idOf (b : UInt8) : Str := Base64.encode (List.replicate 16 b)

def secretOf (b : UInt8) : Str := List.replicate 32 b

/-- one user with its credential -/
def oneUser : Store where
  index := saveIndex asciiLibrary [newUser (idOf 1) (ascii "alice") 1]
  active := AList.singleton (secretName (idOf 1)) (secretFile (secretOf 1))
  revoked := []
  peers := []
  serverReadsActive := true

theorem oneUser_usable : Usable asciiLibrary oneUser := ⟨by decide +kernel, by decide +kernel⟩

/-- a second user is added before the first is revoked -/
def handover : List Op :=
  [.addUser (ascii "bob") .web (List.replicate 16 2 ++ List.replicate 32 2) 2, .revokeUser (idOf 1) 3]

theorem never_locked_out_handover :
    (run asciiLibrary oneUser handover).active.keys = [secretName (idOf 2)] ∧
      Usable asciiLibrary (run asciiLibrary oneUser handover) :=
  ⟨by decide +kernel,
    (never_locked_out asciiLibrary oneUser handover oneUser_usable (by decide +kernel) (by decide +kernel)).1⟩

/-- a cluster peer is installed, the only user is revoked, the peer is removed -/
def peerAndRevoke : List Op :=
  [.installClusterPeer (ascii "edge") (idOf 2) (secretOf 2) true, .revokeUser (idOf 1) 2,
    .removeClusterPeer (ascii "edge") (idOf 2) true]

/-- **The lockout.** Every call succeeds. After the second the index has no active user; after the third the directory is empty
and the server's loader refuses it. -/
theorem locked_out :
    Machine.Guarded (step asciiLibrary) (fun s op => (call asciiLibrary s op).isSome = true) oneUser peerAndRevoke ∧
      Machine.Guarded (step asciiLibrary) (Distinct asciiLibrary) oneUser peerAndRevoke ∧
      HasActive asciiLibrary oneUser ∧ ¬ HasActive asciiLibrary (run asciiLibrary oneUser (peerAndRevoke.take 2)) ∧
      ¬ ∀ (L : Library) (s : Store) (ops : List Op), Usable L s → Machine.Guarded (step L) (Distinct L) s ops →
          Usable L (run L s ops) ∧ (HasActive L s → HasActive L (run L s ops)) := by
  have hdistinct : Machine.Guarded (step asciiLibrary) (Distinct asciiLibrary) oneUser peerAndRevoke := by decide +kernel
  refine ⟨by decide +kernel, hdistinct,
    ⟨[newUser (idOf 1) (ascii "alice") 1], by decide +kernel, _, mem_cons_self, rfl⟩, ?_, fun h => ?_⟩
  · rintro ⟨users, hload, user, hmem, hactive⟩
    have hindex : (loadIndex asciiLibrary (run asciiLibrary oneUser (peerAndRevoke.take 2)).index).all
        (fun users => users.all fun user => decide (user.status = .revoked)) = true := by decide +kernel
    rw [hload] at hindex
    have hrevoked := all_eq_true.1 hindex user hmem
    rw [hactive] at hrevoked
    cases hrevoked
  · have hloads := (h asciiLibrary oneUser peerAndRevoke oneUser_usable hdistinct).1.loads
    have hempty : (loadActiveDirectory (run asciiLibrary oneUser peerAndRevoke).active).isSome = false := by decide +kernel
    cases hempty.symm.trans hloads

end NeProto.Admin
