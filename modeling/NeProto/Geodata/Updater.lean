/-
The update of the geodata (`internal/geodata/updater.go`). `Update` downloads `geoip.dat` and `geosite.dat`, checks their sums,
loads the pair and puts it in the place of the old one; `Reload` reads the two files of the directory one after the other.

- `fails` says which file operation of a call fails; those that undo the renames succeed.
- `update` gives each of its renames with the directory it leaves, so that `Reload` can open each file at any moment of the call.
- Left out: the checks of the configuration, which come first, and the temporary files.
- `update_installs_pair`: the pair or nothing exactly if no `Chmod` and no `Status` can fail, and a `Reload` of the old or the new pair
  if it opens both files before or both after their renames.
- `update_leaves_half`: `Chmod` fails after the first rename, or `Reload` opens its files around the renames.
-/
import Mathlib
import NeProto.Lib.Text

namespace NeProto.Geodata

open Function

/-! ## Model -/

inductive Name where
  | geoip
  | geosite
deriving DecidableEq

/-- the directory; `none` is no regular file -/
abbrev Files := Name → Option Str

inductive FileOp where
  | lock
  | staging
  /-- the download is written to the staging directory -/
  | store (name : Name)
  | load
  | rollback
  | backup (name : Name)
  /-- to the temporary file beside the destination -/
  | copy (name : Name)
  | rename (name : Name)
  | chmod (name : Name)
  | status (name : Name)
deriving DecidableEq

/-- what the code calls -/
structure Library where
  /-- the sum in lower-case hexadecimal -/
  sha256 : Str → Str
  fields : Str → List Str
  parseGeoIPList : Str → Bool
  parseGeoSiteList : Str → Bool

def maxDatabaseBytes : ℕ := 64 * 2 ^ 20

def maxChecksumBytes : ℕ := 4096

/-- what the server answers for a source -/
structure Response where
  checksum : Option Str
  body : Option Str

/-- a body or a file with a size from 1 to the maximum -/
def bounded (raw : Option Str) (maximum : ℕ) : Option Str := raw.filter fun raw => raw ≠ [] ∧ raw.length ≤ maximum

section

variable (L : Library)

/-- the first field of the first line -/
def parseChecksum (raw : Str) : Option Str :=
  match L.fields (raw.takeWhile (· ≠ 10)) with
  | [] => none
  | sum :: _ =>
    if sum.length = 64 ∧ ∀ b ∈ sum, isDigit b ∨ 97 ≤ lowerByte b ∧ lowerByte b ≤ 102 then some (sum.map lowerByte) else none

def downloadVerified (response : Response) : Option Str :=
  match (bounded response.checksum maxChecksumBytes).bind (parseChecksum L), bounded response.body maxDatabaseBytes with
  | some expected, some raw => if expected = L.sha256 raw then some raw else none
  | _, _ => none

/-- `Load`, which opens the two files in these states of the directory: the bytes its engine is built from -/
def load (first second : Files) : Option (Str × Str) :=
  match first .geoip, second .geosite with
  | some geoip, some geosite =>
    if geoip.length ≤ maxDatabaseBytes ∧ geosite.length ≤ maxDatabaseBytes ∧ L.parseGeoIPList geoip ∧ L.parseGeoSiteList geosite then
      some (geoip, geosite)
    else none
  | _, _ => none

end

section

variable (fails : FileOp → Bool)

/-- the rollback of `activatePair` -/
def undo (backup : Files) : List Name → Files → List (Name × Files)
  | [], _ => []
  | name :: activated, d =>
    let d := update d name (backup name)
    (name, d) :: undo backup activated d

/-- the second loop of `activatePair`, with `replaceFile` -/
def activate (backup new : Files) : List Name → List Name → Files → List (Name × Files) × Bool
  | [], _, _ => ([], true)
  | name :: names, activated, d =>
    if fails (.copy name) || fails (.rename name) then (undo backup activated d, false)
    else
      let d := update d name (new name)
      if fails (.chmod name) then ((name, d) :: undo backup activated d, false)
      else
        let r := activate backup new names (activated ++ [name]) d
        ((name, d) :: r.1, r.2)

/-- `copyRegularFile` can copy the current file -/
def copied (d : Files) (name : Name) : Bool := !fails (.backup name) && (bounded (d name) maxDatabaseBytes).isSome

def activatePair (d new : Files) : List (Name × Files) × Bool :=
  if fails .rollback || !copied fails d .geoip || !copied fails d .geosite then ([], false)
  else activate fails d new [.geoip, .geosite] [] d

/-- `Update`: the renames, each with the directory after it, and whether the call succeeds -/
def update (L : Library) (responses : Name → Response) (d : Files) : List (Name × Files) × Bool :=
  let new : Files := fun name => if fails (.store name) then none else downloadVerified L (responses name)
  if fails .lock || fails .staging || (new .geoip).isNone || (new .geosite).isNone || fails .load || (load L new new).isNone then
    ([], false)
  else
    let r := activatePair fails d new
    (r.1, r.2 && !fails (.status .geoip) && !fails (.status .geosite))

end

/-! ## The pair or nothing -/

/-- it comes after a rename that nothing undoes -/
def FileOp.late : FileOp → Bool
  | .chmod _ | .status _ => true
  | _ => false

/-- the directory at each moment of a call -/
def moments (d : Files) (renames : List (Name × Files)) : List Files := d :: renames.map Prod.snd

/-- at this moment of a call the file was renamed and that is not undone: each rename of it replaces it or undoes that -/
def replaced (renames : List (Name × Files)) (i : ℕ) (name : Name) : Bool :=
  (renames.take i).foldl (fun b rename => b ^^ decide (rename.1 = name)) false

section

variable (L : Library) (responses : Name → Response)

/-- the directory holds the downloads that were checked and loaded together -/
def Installed (d : Files) : Prop := (∀ name, d name = downloadVerified L (responses name)) ∧ (load L d d).isSome

/-- the call `r` on the directory `d` -/
structure PairOrNothing (d : Files) (r : List (Name × Files) × Bool) : Prop where
  failed : r.2 = false → (moments d r.1).getLast? = some d
  done : r.2 = true → ∃ d', (moments d r.1).getLast? = some d' ∧ Installed L responses d'

/-- a `Reload` that opens the files at the two moments of the call publishes the old or the new pair -/
def Whole (d : Files) (renames : List (Name × Files)) (i j : ℕ) : Prop :=
  ∀ first second engine, (moments d renames)[i]? = some first → (moments d renames)[j]? = some second →
    load L first second = some engine → load L d d = some engine ∨ ∃ d', Installed L responses d' ∧ load L d' d' = some engine

end

section

variable (fails : FileOp → Bool) (d new : Files)

/-- what a call does to the directory, with the operation that fails after a rename -/
inductive Outcome : List (Name × Files) × Bool → Prop
  | kept : Outcome ([], false)
  | half (h : fails (.chmod .geoip) = true) : Outcome ([(.geoip, Function.update d .geoip (new .geoip))], false)
  | undone : Outcome ([(.geoip, Function.update d .geoip (new .geoip)), (.geoip, d)], false)
  | other (h : fails (.chmod .geosite) = true) : Outcome
      ([(.geoip, Function.update d .geoip (new .geoip)), (.geosite, new), (.geoip, Function.update new .geoip (d .geoip))], false)
  | both {done : Bool} (h : done = true ∨ ∃ name, fails (.status name) = true) :
    Outcome ([(.geoip, Function.update d .geoip (new .geoip)), (.geosite, new)], done)

theorem activatePair_outcome : Outcome fails d new (activatePair fails d new) := by
  have hboth : Function.update (Function.update d .geoip (new .geoip)) .geosite (new .geosite) = new := by
    funext name
    cases name <;> rfl
  unfold activatePair
  split
  · exact .kept
  cases h : fails (.copy .geoip) || fails (.rename .geoip) with
  | true => simpa [activate, undo, h] using Outcome.kept
  | false =>
    cases hchmod : fails (.chmod .geoip) with
    | true => simpa [activate, undo, h, hchmod] using Outcome.half hchmod
    | false =>
      cases h' : fails (.copy .geosite) || fails (.rename .geosite) with
      | true => simpa [activate, undo, h, hchmod, h'] using Outcome.undone
      | false =>
        cases hchmod' : fails (.chmod .geosite) with
        | true => simpa [activate, undo, h, hchmod, h', hchmod', hboth] using Outcome.other hchmod'
        | false => simpa [activate, h, hchmod, h', hchmod', hboth] using Outcome.both (.inl rfl)

end

variable {L : Library} {fails : FileOp → Bool} {responses : Name → Response} {d new : Files} {r : List (Name × Files) × Bool}

theorem Outcome.status (h : Outcome fails d new r) :
    Outcome fails d new (r.1, r.2 && !fails (.status .geoip) && !fails (.status .geosite)) := by
  cases h with
  | kept => exact .kept
  | half h => exact .half h
  | undone => exact .undone
  | other h => exact .other h
  | both h =>
    refine .both (h.elim (fun hdone => ?_) .inr)
    cases hgeoip : fails (.status .geoip) with
    | true => exact .inr ⟨_, hgeoip⟩
    | false =>
      cases hgeosite : fails (.status .geosite) with
      | true => exact .inr ⟨_, hgeosite⟩
      | false => exact .inl (by simp [hdone])

theorem update_outcome (fails : FileOp → Bool) (L : Library) (responses : Name → Response) (d : Files) :
    ∃ new, ((update fails L responses d).1 = [] ∨ Installed L responses new) ∧ Outcome fails d new (update fails L responses d) := by
  unfold update
  extract_lets new r
  split
  · exact ⟨new, .inl rfl, .kept⟩
  rename_i hnew
  simp only [Bool.or_eq_true, not_or, Bool.not_eq_true, Option.isNone_eq_false_iff] at hnew
  obtain ⟨⟨⟨⟨-, hgeoip⟩, hgeosite⟩, -⟩, hload⟩ := hnew
  have hverified : ∀ name, (new name).isSome → new name = downloadVerified L (responses name) := by
    intro name hsome
    simp only [new] at hsome ⊢
    split_ifs at hsome ⊢
    · cases hsome
    · rfl
  exact ⟨new, .inr ⟨fun name => hverified name (by cases name <;> assumption), hload⟩, (activatePair_outcome fails d new).status⟩

/-- **The directory follows the renames.** At every moment a file is the new one if it is replaced, and the old one otherwise. -/
theorem Outcome.follows (h : Outcome fails d new r) {i : ℕ} {state : Files} (hi : (moments d r.1)[i]? = some state) (name : Name) :
    state name = if replaced r.1 i name then new name else d name := by
  cases h <;> rcases i with _ | _ | _ | _ | i <;> cases hi <;> cases name <;> rfl

theorem Outcome.pairOrNothing (h : Outcome fails d new r) (hnew : r.1 = [] ∨ Installed L responses new)
    (hearly : ∀ op, fails op = true → op.late = false) : PairOrNothing L responses d r := by
  cases h with
  | kept | undone => exact ⟨fun _ => rfl, nofun⟩
  | half h | other h => cases hearly _ h
  | both h =>
    rcases h with rfl | ⟨name, h⟩
    · exact ⟨nofun, fun _ => ⟨new, rfl, hnew.resolve_left nofun⟩⟩
    · cases hearly _ h

theorem Outcome.whole (h : Outcome fails d new r) (hnew : r.1 = [] ∨ Installed L responses new) {i j : ℕ}
    (hsame : replaced r.1 i .geoip = replaced r.1 j .geosite) : Whole L responses d r.1 i j := by
  intro first second engine hfirst hsecond hload
  have hgeoip := h.follows hfirst .geoip
  have hgeosite := h.follows hsecond .geosite
  rw [← hsame] at hgeosite
  rw [← hload]
  cases hr : replaced r.1 i .geoip with
  | false =>
    left
    rw [load, load, hgeoip, hgeosite, hr]
    rfl
  | true =>
    refine .inr ⟨new, hnew.resolve_left fun hnil => by simp [replaced, hnil] at hr, ?_⟩
    rw [load, load, hgeoip, hgeosite, hr]
    rfl

/-- every sum and every database is right -/
def openLibrary : Library := ⟨fun _ => List.replicate 64 48, fun line => [line], fun _ => true, fun _ => true⟩

def published : Name → Response := fun _ => ⟨some (List.replicate 64 48), some [2]⟩

def current : Files := fun _ => some [1]

/-- the downloads are verified and load together, and only late operations fail -/
theorem update_published (h : ∀ op, op.late = false → fails op = false) : update fails openLibrary published current =
    let r := activatePair fails current fun _ => some [2]
    (r.1, r.2 && !fails (.status .geoip) && !fails (.status .geosite)) := by
  have hbody : downloadVerified openLibrary ⟨some (List.replicate 64 48), some [2]⟩ = some [2] := by decide +kernel
  have hnew : ∀ name, downloadVerified openLibrary (published name) = some [2] := fun _ => hbody
  have hload : load openLibrary (fun _ => some [2]) (fun _ => some [2]) = some ([2], [2]) := rfl
  simp [update, h .lock rfl, h .staging rfl, fun name => h (.store name) rfl, hnew, h .load rfl, hload]

/-- a late operation alone fails: the call fails, and a new file stays -/
theorem late_leaves_half {op : FileOp} (hlate : op.late = true) :
    ¬PairOrNothing openLibrary published current (update (· = op) openLibrary published current) := by
  have hearly : ∀ x : FileOp, x.late = false → decide (x = op) = false := by
    intro x hx
    refine decide_eq_false ?_
    rintro rfl
    cases hx.symm.trans hlate
  rw [update_published hearly]
  intro hpair
  cases op <;> cases hlate
  all_goals
    rename_i name
    have hlast := hpair.failed (by cases name <;> decide)
    exact absurd (congrArg (Option.map fun d => (d .geoip, d .geosite)) hlast) (by cases name <;> decide)

/-- **The pair or nothing.** Every call in which only these operations can fail leaves the new pair if it succeeds and the old
directory otherwise, exactly if no `Chmod` and no `Status` is among them. Whatever fails, a `Reload` publishes the old or the new
pair if the renames have replaced both of the files it opens, or none. -/
theorem update_installs_pair (mayFail : FileOp → Prop) :
    ((∀ fails : FileOp → Bool, (∀ op, fails op = true → mayFail op) →
        ∀ L responses d, PairOrNothing L responses d (update fails L responses d)) ↔
      ∀ op, mayFail op → op.late = false) ∧
    ∀ fails L responses d i j,
      replaced (update fails L responses d).1 i .geoip = replaced (update fails L responses d).1 j .geosite →
        Whole L responses d (update fails L responses d).1 i j := by
  refine ⟨⟨fun h op hop => ?_, fun hearly fails hfails L responses d => ?_⟩, fun fails L responses d i j hsame => ?_⟩
  · refine Bool.eq_false_of_not_eq_true fun hlate => late_leaves_half hlate (h _ (fun x hx => ?_) _ _ _)
    rwa [of_decide_eq_true hx]
  · obtain ⟨new, hnew, houtcome⟩ := update_outcome fails L responses d
    exact houtcome.pairOrNothing hnew fun op hop => hearly op (hfails op hop)
  · obtain ⟨new, hnew, houtcome⟩ := update_outcome fails L responses d
    exact houtcome.whole hnew hsame

/-- nothing fails, and `Reload` opens each file right after its rename -/
theorem update_installs_pair_current :
    PairOrNothing openLibrary published current (update (fun _ => false) openLibrary published current) ∧
      Whole openLibrary published current (update (fun _ => false) openLibrary published current).1 1 2 :=
  ⟨(update_installs_pair fun _ => False).1.mpr nofun _ (by simp) _ _ _,
    (update_installs_pair fun _ => False).2 _ _ _ _ 1 2 (by rw [update_published fun _ _ => rfl]; decide)⟩

/-- **Half an update.** `Chmod` fails after the first rename: the call fails, and the new `geoip.dat` stays. Without a failure,
`Reload` opens `geoip.dat` before and `geosite.dat` after the renames. -/
theorem update_leaves_half :
    (¬∀ L fails responses d, (∀ a b, fails a = true → fails b = true → a = b) →
      PairOrNothing L responses d (update fails L responses d)) ∧
    ¬∀ L responses d i j, i ≤ j → Whole L responses d (update (fun _ => false) L responses d).1 i j := by
  constructor
  · intro h
    have hlate : (FileOp.chmod .geoip).late = true := rfl
    exact late_leaves_half hlate (h _ _ _ _ (by simp))
  · intro h
    have hwhole := h openLibrary published current 0 2 (by decide) current
    rw [update_published fun _ _ => rfl] at hwhole
    rcases hwhole (fun _ => some [2]) ([1], [2]) rfl (congrArg some (funext fun name => by cases name <;> rfl)) rfl with
      hold | ⟨d', hd', hnew⟩
    · exact absurd hold (by decide)
    · simp only [load, hd'.1] at hnew
      exact absurd hnew (by decide +kernel)

end NeProto.Geodata
