/-
What the server acquires for a carrier it accepted, and what it gives back (`internal/app/server.go`,
`internal/session/authenticated.go`).

- `acceptServer`, `startAuthenticated`: the steps of the handshake. An error carries what its return does to the carrier.
- `serveAuthenticatedCarrier`: acquisitions and releases in the order they happen, deferred calls included.
- `released_iff`: exactly when the carrier is closed and whatever was acquired is released once.
- `usage_session_kept`: a user whose carrier the constellation refuses stays online for ever.
Whether a step succeeds is an input (`Outcomes`). Closing a multiplexer closes its carrier. Left out: metrics and logs.
-/
import Mathlib.Tactic

namespace NeProto.App

/-! ## The steps -/

inductive Resource where
  /-- the limiter's session for the credential -/
  | session
  /-- the session of the usage tracker -/
  | usage
  /-- the lease attachment -/
  | lease
  /-- the control channel -/
  | control
deriving DecidableEq

inductive Event where
  | acquire (r : Resource)
  | release (r : Resource)
  | closeCarrier
deriving DecidableEq

/-- the fields of `config.Server` that decide a step -/
structure Config where
  /-- `CredentialDirectory` is set -/
  credentialDirectory : Bool
  /-- `Secret` is not zero -/
  secret : Bool
  /-- the number of `Credentials` -/
  credentials : ℕ
  initialWindowBytes : ℕ
  maxStreams : ℤ
  maxCoverOverheadPercent : ℕ
  disableCover : Bool

/-- the results of `Tracker.Admit` -/
inductive Admission where
  | ok
  | userInactive
  | failed
deriving DecidableEq

structure Outcomes where
  /-- the number of credentials `LoadActiveDirectory` returns -/
  loadActiveDirectory : Option ℕ
  prepareForwardSecrecy : Bool
  validateExtensionConfig : Bool
  newServerHandshake : Bool
  sendChallenge : Bool
  receiveResponse : Bool
  parseResponse : Bool
  verifyResponse : Bool
  sendConfirm : Bool
  /-- the client asked for `FeatureCellAEAD` -/
  cellAEAD : Bool
  newTypeMap : Bool
  coverProfile : Bool
  newEncryptedCarrier : Bool
  newEngine : Bool
  newTransport : Bool
  newMux : Bool
  /-- `newDatagramMux`, if the carrier has datagrams -/
  newDatagramMux : Option Bool
  acquireSession : Bool
  /-- `none` without a tracker -/
  trackerAdmit : Option Admission
  acceptsPeerCredential : Bool
  /-- there is a constellation runtime and the client negotiated continuity -/
  continuity : Bool
  admitLease : Bool
  principal : Bool
  newControlChannel : Bool

/-- a step whose failure returns after `log` -/
def check (ok : Bool) (log : List Event) : Except (List Event) Unit := if ok then .ok () else .error log

def closeAuthentication : List Event := [.closeCarrier]

def maxServerCredentials : ℕ := 256

def maxInitialWindow : ℕ := 16 * 1024 * 1024

def validateAuthenticatedConfig (c : Config) (o : Outcomes) : Bool :=
  (c.secret || c.credentials != 0) &&
    decide (c.credentials ≤ maxServerCredentials ∧ c.initialWindowBytes ≠ 0 ∧ c.initialWindowBytes ≤ maxInitialWindow ∧
      0 < c.maxStreams ∧ c.maxCoverOverheadPercent ≤ 100) &&
    o.validateExtensionConfig

def startAuthenticated (c : Config) (o : Outcomes) : Except (List Event) Unit := do
  check o.cellAEAD closeAuthentication
  check o.newTypeMap closeAuthentication
  check o.coverProfile closeAuthentication
  check o.newEncryptedCarrier closeAuthentication
  check (c.disableCover || o.newEngine) closeAuthentication
  check (c.disableCover || o.newTransport) closeAuthentication
  -- these two close the transport and the multiplexer, and so the carrier below them
  check o.newMux [.closeCarrier]
  check (o.newDatagramMux.getD true) [.closeCarrier]

def acceptServer (c : Config) (o : Outcomes) : Except (List Event) Unit := do
  check o.prepareForwardSecrecy closeAuthentication
  -- an invalid configuration and a missing credential return without `closeAuthentication`
  check (validateAuthenticatedConfig c o) []
  check (c.secret || c.credentials != 0) []
  check o.newServerHandshake closeAuthentication
  check o.sendChallenge closeAuthentication
  check o.receiveResponse closeAuthentication
  check o.parseResponse closeAuthentication
  check o.verifyResponse closeAuthentication
  check o.sendConfirm closeAuthentication
  startAuthenticated c o

def rejectUsageAdmission (o : Outcomes) (a : Admission) : Bool := a != .ok && !(a == .userInactive && o.acceptsPeerCredential)

/-- `Serve` and the deferred function registered right before it -/
def serveProxy (tracked : Bool) : List Event := (if tracked then [.release .usage] else []) ++ [.closeCarrier]

def serveControl (o : Outcomes) (tracked : Bool) : List Event :=
  if !o.principal then [.closeCarrier]
  else if !o.newControlChannel then [.closeCarrier]
  else .acquire .control :: serveProxy tracked ++ [.release .control]

def serveLease (o : Outcomes) (tracked : Bool) : List Event :=
  if !o.continuity then serveProxy tracked
  else if !o.admitLease then [.closeCarrier]
  else .acquire .lease :: serveControl o tracked ++ [.release .lease]

def serveUsage (o : Outcomes) : List Event :=
  match o.trackerAdmit with
  | none => serveLease o false
  | some a =>
    if rejectUsageAdmission o a then [.closeCarrier]
    else if a = .ok then .acquire .usage :: serveLease o true
    else serveLease o false

def serveAuthenticated (o : Outcomes) : List Event :=
  if !o.acquireSession then [.closeCarrier] else .acquire .session :: serveUsage o ++ [.release .session]

/-- the configuration with the credentials of the directory -/
def reload (c : Config) (o : Outcomes) : Option Config :=
  if c.credentialDirectory then o.loadActiveDirectory.map fun n => { c with credentials := n } else some c

def serveAuthenticatedCarrier (c : Config) (o : Outcomes) : List Event :=
  match reload c o with
  | none => []
  | some c => match acceptServer c o with
    | .error log => log
    | .ok () => serveAuthenticated o

/-! ## What is released -/

def Event.concerns (r : Resource) : Event → Bool
  | .acquire r' | .release r' => r' == r
  | .closeCarrier => false

/-- the carrier is closed, and what was acquired was released once, and after it was acquired -/
structure Released (log : List Event) : Prop where
  closed : .closeCarrier ∈ log
  once : ∀ r, log.filter (Event.concerns r) = [] ∨ log.filter (Event.concerns r) = [.acquire r, .release r]

instance (log : List Event) : Decidable (Released log) :=
  decidable_of_iff (.closeCarrier ∈ log ∧ ∀ r ∈ [Resource.session, .usage, .lease, .control],
    log.filter (Event.concerns r) = [] ∨ log.filter (Event.concerns r) = [.acquire r, .release r])
    ⟨fun h => ⟨h.1, fun r => h.2 r (by cases r <;> simp)⟩, fun h => ⟨h.closed, fun r _ => h.once r⟩⟩

/-- no step between the admission by the tracker and the proxy session fails -/
def Outcomes.undisturbed (o : Outcomes) : Bool := !o.continuity || o.admitLease && o.principal && o.newControlChannel

/-- a failed handshake closes the carrier, unless it fails on its configuration -/
theorem acceptServer_error {c : Config} {o : Outcomes} {log : List Event} (h : acceptServer c o = .error log) :
    log = if o.prepareForwardSecrecy && !validateAuthenticatedConfig c o then [] else [.closeCarrier] := by
  have hcheck : ∀ {ok : Bool} {l : List Event} {next : Except (List Event) Unit},
      (check ok l >>= fun _ => next) = .error log → ok = false ∧ l = log ∨ ok = true ∧ next = .error log := by
    intro ok l next hnext
    cases ok with
    | false => exact .inl ⟨rfl, Except.error.inj hnext⟩
    | true => exact .inr ⟨rfl, hnext⟩
  unfold acceptServer startAuthenticated closeAuthentication at h
  obtain ⟨hp, hlog⟩ | ⟨hp, h⟩ := hcheck h
  · simp [hp, hlog]
  obtain ⟨hv, hlog⟩ | ⟨hv, h⟩ := hcheck h
  · simp [hp, hv, hlog]
  -- the check of the credentials repeats one of the configuration's
  obtain ⟨hcred, -⟩ | ⟨-, h⟩ := hcheck h
  · simp [validateAuthenticatedConfig, hcred] at hv
  rw [hp, hv]
  iterate 13
    obtain ⟨-, hlog⟩ | ⟨-, h⟩ := hcheck h
    · exact hlog.symm
  unfold check at h
  split at h
  · cases h
  · exact (Except.error.inj h).symm

theorem serveAuthenticated_released (o : Outcomes) :
    Released (serveAuthenticated o) ↔ (o.acquireSession = true → o.trackerAdmit = some .ok → o.undisturbed = true) := by
  unfold serveAuthenticated serveUsage rejectUsageAdmission serveLease serveControl Outcomes.undisturbed
  generalize o.acquireSession = session, o.acceptsPeerCredential = peer, o.continuity = continuity, o.admitLease = lease,
    o.principal = principal, o.newControlChannel = control
  -- an untracked session gives back what it holds on every path, a tracked one only on the path to the proxy session
  rcases o.trackerAdmit with _ | _ | _ | _
  all_goals
    revert session peer continuity lease principal control
    decide

/-- **Releases.** The carrier is closed and what was acquired is released once, exactly when the credentials could be reloaded,
the handshake did not stop at its configuration, and nothing failed between the admission by the tracker and the proxy session. -/
theorem released_iff (c : Config) (o : Outcomes) :
    Released (serveAuthenticatedCarrier c o) ↔ ∃ loaded, reload c o = some loaded ∧
      (o.prepareForwardSecrecy = true → validateAuthenticatedConfig loaded o = true) ∧
      (acceptServer loaded o = .ok () → o.acquireSession = true → o.trackerAdmit = some .ok → o.undisturbed = true) := by
  unfold serveAuthenticatedCarrier
  cases hreload : reload c o with
  | none => simpa using (by decide : ¬Released [])
  | some loaded =>
    simp only [Option.some.injEq, exists_eq_left']
    cases haccept : acceptServer loaded o with
    | error log =>
      rw [acceptServer_error haccept]
      cases o.prepareForwardSecrecy <;> cases validateAuthenticatedConfig loaded o <;> simp <;> decide
    | ok =>
      have hvalid : o.prepareForwardSecrecy = true → validateAuthenticatedConfig loaded o = true := by
        intro hp
        by_contra hv
        simp [acceptServer, check, hp, Bool.not_eq_true _ ▸ hv, bind, Except.bind] at haccept
      simp only [serveAuthenticated_released]
      exact ⟨fun h => ⟨hvalid, fun _ => h⟩, fun h => h.2 trivial⟩

/-! ## A user who stays online -/

/-- every step succeeds, but the constellation refuses the carrier -/
def refusedLease : Outcomes where
  loadActiveDirectory := some 1
  prepareForwardSecrecy := true
  validateExtensionConfig := true
  newServerHandshake := true
  sendChallenge := true
  receiveResponse := true
  parseResponse := true
  verifyResponse := true
  sendConfirm := true
  cellAEAD := true
  newTypeMap := true
  coverProfile := true
  newEncryptedCarrier := true
  newEngine := true
  newTransport := true
  newMux := true
  newDatagramMux := none
  acquireSession := true
  trackerAdmit := some .ok
  acceptsPeerCredential := false
  continuity := true
  admitLease := false
  principal := true
  newControlChannel := true

/-- the tracker's session is never closed -/
theorem usage_session_kept : ¬∀ (c : Config) (o : Outcomes), Released (serveAuthenticatedCarrier c o) := by
  intro h
  exact absurd (h ⟨true, false, 0, 65536, 16, 20, true⟩ refusedLease) (by decide)

end NeProto.App
