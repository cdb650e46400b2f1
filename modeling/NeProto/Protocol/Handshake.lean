/-
The NP/2 handshake (`internal/protocol/auth.go`): the server's challenge, the client's response under its root secret, the
server's search for the credential, and the confirmation.

- `Crypto`: HMAC, HKDF and SHA-256 over types of their own; `Crypto.Ideal` says they are injective. No function into 32 bytes is,
  so the tags and keys are not byte strings here.
- a `ServerHandshake` answers one challenge; `used` is set under its lock, after the credentials are checked and before the age.
- `buildTranscript_inj`: a transcript determines everything it was built from.
- `matchAll_one`, `matchAll_pick`: the loop over the credentials counts the matches and keeps the one, wherever it stands.
- `handshake_agreement`: who succeeds, and what both sides then hold.
- `crowded_refused`: more than `maxServerCredentials` credentials are refused.
-/
import NeProto.Lib.Bytes
import NeProto.Lib.Machine
import NeProto.Lib.Text

namespace NeProto.Protocol

open List hiding Vector

open Bytes (putUint length_putUint putUint_inj)

/-! ## Messages -/

def version : UInt8 := 2

/-- `MaxServerCredentials` -/
def maxServerCredentials : ℕ := 256

/-- `MaxChallengeAge` in nanoseconds -/
def maxChallengeAge : ℤ := 15 * 1000000000

abbrev Nonce := Vector UInt8 32

abbrev RootSecret := Vector UInt8 32

abbrev DeviceID := Vector UInt8 16

def DeviceID.isZero (d : DeviceID) : Bool := d == Vector.replicate 16 0

abbrev FeatureSet := UInt32

def featureDeviceIdentity : FeatureSet := 32

/-- the six features -/
def knownFeatures : FeatureSet := 63

/-- `f &^ g == 0` -/
def FeatureSet.within (f g : FeatureSet) : Bool := f &&& ~~~g == 0

def FeatureSet.valid (f : FeatureSet) : Bool := FeatureSet.within f knownFeatures

def FeatureSet.hasDevice (f : FeatureSet) : Bool := f &&& featureDeviceIdentity != 0

open FeatureSet

/-- HTTPS, WebRTC and HTTP/3 -/
def validCarrier (c : UInt8) : Bool := c == 1 || c == 2 || c == 3

inductive Err where
  | authentication
  | challengeUsed
  | expiredChallenge
  | malformedMessage
  | unsupportedFeatures
  | invalidConfig (detail : String)
  /-- the random source fails -/
  | random

structure HandshakeConfig where
  rootSecret : RootSecret
  serverIdentity : Str
  carrier : UInt8
  deviceID : DeviceID

def HandshakeConfig.validate (c : HandshakeConfig) : Except Err Unit :=
  if c.serverIdentity.length = 0 ∨ 253 < c.serverIdentity.length then .error (.invalidConfig "server identity length")
  else if validCarrier c.carrier = false then .error (.invalidConfig "carrier")
  else if c.rootSecret = Vector.replicate 32 0 then .error (.invalidConfig "zero root secret")
  else .ok ()

structure Credential where
  id : Str
  rootSecret : RootSecret

structure Challenge where
  version : UInt8
  serverNonce : Nonce
  supportedFeatures : FeatureSet

structure Response (Tag : Type) where
  clientNonce : Nonce
  requestedFeatures : FeatureSet
  deviceID : DeviceID
  tag : Tag

/-! ## Primitives -/

structure Crypto where
  Key : Type
  Digest : Type
  Material : Type
  Tag : Type
  [decTag : DecidableEq Tag]
  /-- the zero array a key variable starts as -/
  zeroKey : Key
  /-- `hkdf.Key` of a root secret, for 32 bytes -/
  hkdfRoot : RootSecret → (salt info : Str) → Key
  /-- `hkdf.Key` of an authentication key -/
  hkdf : Key → (salt : Digest) → (info : Str) → (size : ℕ) → Material
  sum256 : Str → Digest
  hmac : Key → Str → Tag

attribute [instance] Crypto.decTag

/-- no two inputs have one output -/
structure Crypto.Ideal (C : Crypto) : Prop where
  hkdfRoot : ∀ secret secret' salt info info', C.hkdfRoot secret salt info = C.hkdfRoot secret' salt info' →
    secret = secret' ∧ info = info'
  hmac : ∀ key key' message message', C.hmac key message = C.hmac key' message' → key = key' ∧ message = message'

structure SessionKeys (Material : Type) where
  headerMap : Material
  padding : Material
  control : Material
  clientToServer : Material
  serverToClient : Material
  clientToServerNonce : Material
  serverToClientNonce : Material

section

variable (C : Crypto)

def deriveAuthKey (config : HandshakeConfig) : C.Key :=
  C.hkdfRoot config.rootSecret (ascii "Neproto NP/2") (ascii "NP2 auth" ++ 0 :: config.serverIdentity)

def deriveSessionKeys (authKey : C.Key) (transcript : Str) : SessionKeys C.Material :=
  let derive := fun info size => C.hkdf authKey (C.sum256 transcript) (ascii info) size
  { headerMap := derive "NP2 header map" 32
    padding := derive "NP2 padding" 32
    control := derive "NP2 control" 32
    clientToServer := derive "NP2 cell c2s key" 32
    serverToClient := derive "NP2 cell s2c key" 32
    clientToServerNonce := derive "NP2 cell c2s nonce" 4
    serverToClientNonce := derive "NP2 cell s2c nonce" 4 }

def calculateTag (key : C.Key) (label : String) (transcript : Str) : C.Tag := C.hmac key (ascii label ++ 0 :: transcript)

end

/-- the optional field at the end of a transcript -/
def deviceField (requested : FeatureSet) (device : DeviceID) : Str :=
  if hasDevice requested then device.toList else []

def buildTranscript (config : HandshakeConfig) (challenge : Challenge) (clientNonce : Nonce) (requested : FeatureSet)
    (device : DeviceID) : Str :=
  [version, config.carrier] ++ (putUint 2 config.serverIdentity.length ++ (config.serverIdentity ++
    (challenge.serverNonce.toList ++ (clientNonce.toList ++ (putUint 4 challenge.supportedFeatures.toNat ++
      (putUint 4 requested.toNat ++ deviceField requested device))))))

/-! ## The client -/

structure ClientHandshake (C : Crypto) where
  expectedConfirm : C.Tag
  keys : SessionKeys C.Material

/-- the device field of a response -/
def HandshakeConfig.device (config : HandshakeConfig) (requested : FeatureSet) : DeviceID :=
  if hasDevice requested then config.deviceID else Vector.replicate 16 0

/-- `random` is the nonce the random source gives, if it gives one -/
def respondToChallenge (C : Crypto) (config : HandshakeConfig) (challenge : Challenge) (requested : FeatureSet)
    (random : Option Nonce) : Except Err (Response C.Tag × ClientHandshake C) :=
  match config.validate with
  | .error err => .error err
  | .ok () =>
    if challenge.version ≠ version ∨ valid challenge.supportedFeatures = false then .error .malformedMessage
    else if valid requested = false ∨ within requested challenge.supportedFeatures = false then
      .error .unsupportedFeatures
    else if hasDevice requested = true ∧ config.deviceID.isZero = true then
      .error (.invalidConfig "zero device identity")
    else
      match random with
      | none => .error .random
      | some clientNonce =>
        let authKey := deriveAuthKey C config
        let transcript := buildTranscript config challenge clientNonce requested (config.device requested)
        .ok (⟨clientNonce, requested, config.device requested, calculateTag C authKey "NP2 response" transcript⟩,
          ⟨calculateTag C authKey "NP2 confirm" transcript, deriveSessionKeys C authKey transcript⟩)

def ClientHandshake.verifyConfirm {C : Crypto} (c : ClientHandshake C) (confirm : C.Tag) :
    Except Err (SessionKeys C.Material) :=
  if confirm = c.expectedConfirm then .ok c.keys else .error .authentication

/-! ## The server -/

structure ServerHandshake where
  config : HandshakeConfig
  challenge : Challenge
  createdAt : ℤ
  used : Bool
  supportedFeatures : FeatureSet

def newServerHandshake (config : HandshakeConfig) (supported : FeatureSet) (now : ℤ) (random : Option Nonce) :
    Except Err (ServerHandshake × Challenge) :=
  match config.validate with
  | .error err => .error err
  | .ok () =>
    if valid supported = false then .error .unsupportedFeatures
    else
      match random with
      | none => .error .random
      | some serverNonce =>
        .ok (⟨config, ⟨version, serverNonce, supported⟩, now, false, supported⟩, ⟨version, serverNonce, supported⟩)

/-- the server's configuration with the secret of a credential -/
def ServerHandshake.candidate (s : ServerHandshake) (c : Credential) : HandshakeConfig :=
  { s.config with rootSecret := c.rootSecret }

/-- the check of one credential -/
def ServerHandshake.wellFormed (s : ServerHandshake) (c : Credential) : Bool :=
  decide (c.id.length ≠ 0 ∧ c.id.length ≤ 128) && (s.candidate c).validate.isOk

/-- the variables of the loop over the credentials -/
structure Matched (C : Crypto) where
  authKey : C.Key
  id : Str
  matches_ : ℕ

section

variable (C : Crypto) (s : ServerHandshake) (response : Response C.Tag)

def ServerHandshake.transcript : Str :=
  buildTranscript s.config s.challenge response.clientNonce response.requestedFeatures response.deviceID

/-- the tag is the one this credential gives -/
def ServerHandshake.tagMatches (c : Credential) : Bool :=
  response.tag == calculateTag C (deriveAuthKey C (s.candidate c)) "NP2 response" (s.transcript C response)

def ServerHandshake.matchOne (m : Matched C) (c : Credential) : Matched C :=
  if s.tagMatches C response c then ⟨deriveAuthKey C (s.candidate c), c.id, m.matches_ + 1⟩ else m

def ServerHandshake.matchAll (credentials : List Credential) : Matched C :=
  credentials.foldl (s.matchOne C response) ⟨C.zeroKey, [], 0⟩

/-- after `used` is set -/
def ServerHandshake.verifyOnce (now : ℤ) (credentials : List Credential) :
    Except Err (C.Tag × SessionKeys C.Material × Str) :=
  if now - s.createdAt < 0 ∨ maxChallengeAge < now - s.createdAt then .error .expiredChallenge
  else if valid response.requestedFeatures = false ∨
      within response.requestedFeatures s.supportedFeatures = false then .error .unsupportedFeatures
  else if hasDevice response.requestedFeatures = true ∧ response.deviceID.isZero = true then
    .error .malformedMessage
  else
    let m := s.matchAll C response credentials
    if m.matches_ = 0 then .error .authentication
    else if m.matches_ ≠ 1 then .error (.invalidConfig "")
    else .ok (calculateTag C m.authKey "NP2 confirm" (s.transcript C response),
      deriveSessionKeys C m.authKey (s.transcript C response), m.id)

def ServerHandshake.verifyResponseWithCredentials (now : ℤ) (credentials : List Credential) :
    ServerHandshake × Except Err (C.Tag × SessionKeys C.Material × Str) :=
  if credentials.length = 0 ∨ maxServerCredentials < credentials.length then (s, .error (.invalidConfig ""))
  else if credentials.all s.wellFormed = false then (s, .error (.invalidConfig ""))
  else if s.used then (s, .error .challengeUsed)
  else ({ s with used := true }, s.verifyOnce C response now credentials)

end

/-- a call of `VerifyResponseWithCredentials` -/
structure Attempt (C : Crypto) where
  response : Response C.Tag
  now : ℤ
  credentials : List Credential

def ServerHandshake.attempt (C : Crypto) (s : ServerHandshake) (a : Attempt C) : ServerHandshake :=
  (s.verifyResponseWithCredentials C a.response a.now a.credentials).1

/-- the handshake after these calls, in the order they take its lock -/
def ServerHandshake.after (C : Crypto) (s : ServerHandshake) (calls : List (Attempt C)) : ServerHandshake :=
  Machine.run (ServerHandshake.attempt C) s calls

/-! ## Agreement -/

/-- a call that gets as far as the lock -/
def Attempt.Consumes {C : Crypto} (s : ServerHandshake) (a : Attempt C) : Prop :=
  a.credentials ≠ [] ∧ a.credentials.length ≤ maxServerCredentials ∧ ∀ c ∈ a.credentials, s.wellFormed c = true

/-- one entry of the list has the property and the others do not -/
def ExactlyOne {α : Type} (l : List α) (P : α → Prop) : Prop :=
  ∃ before x after, l = before ++ x :: after ∧ P x ∧ ∀ y ∈ before ++ after, ¬ P y

/-- the response is what `RespondToChallenge` makes for the challenge, carrier and identity of the server and the features of the
response, under the secret of the credential; `client` is the handshake it leaves with the client -/
def Produced (C : Crypto) (s : ServerHandshake) (response : Response C.Tag) (c : Credential) (client : ClientHandshake C) :
    Prop :=
  ∃ device random made,
    respondToChallenge C { s.candidate c with deviceID := device } s.challenge response.requestedFeatures random =
      .ok (made, client) ∧
    made.requestedFeatures = response.requestedFeatures ∧ made.clientNonce = response.clientNonce ∧ made.tag = response.tag ∧
      (hasDevice response.requestedFeatures = true → made.deviceID = response.deviceID)

/-- the call comes first, in time, and with a response made under exactly one of its credentials -/
def Deserves (C : Crypto) (s : ServerHandshake) (calls : List (Attempt C)) (a : Attempt C) : Prop :=
  (∀ b ∈ calls, ¬ b.Consumes s) ∧ (0 ≤ a.now - s.createdAt ∧ a.now - s.createdAt ≤ maxChallengeAge) ∧
    ExactlyOne a.credentials fun c => ∃ client, Produced C s a.response c client

/-- what the call returns after `calls` -/
def ServerHandshake.outcome (C : Crypto) (s : ServerHandshake) (calls : List (Attempt C)) (a : Attempt C) :
    Except Err (C.Tag × SessionKeys C.Material × Str) :=
  ((s.after C calls).verifyResponseWithCredentials C a.response a.now a.credentials).2

/-- everything a transcript is about is the same -/
structure SameContext (config config' : HandshakeConfig) (challenge challenge' : Challenge) (nonce nonce' : Nonce)
    (requested requested' : FeatureSet) (device device' : DeviceID) : Prop where
  carrier : config.carrier = config'.carrier
  identity : config.serverIdentity = config'.serverIdentity
  serverNonce : challenge.serverNonce = challenge'.serverNonce
  supported : challenge.supportedFeatures = challenge'.supportedFeatures
  clientNonce : nonce = nonce'
  device : hasDevice requested = true → device = device'
  features : requested = requested'

/-! ## Transcripts -/

variable {config config' : HandshakeConfig} {challenge challenge' : Challenge} {requested requested' : FeatureSet}
  {nonce nonce' : Nonce} {device device' : DeviceID} {C : Crypto} {s : ServerHandshake}

theorem validate_identity (h : config.validate = .ok ()) : config.serverIdentity.length ≤ 253 := by
  simp only [HandshakeConfig.validate] at h
  split at h
  · cases h
  · omega

theorem deviceField_device (config : HandshakeConfig) (requested : FeatureSet) (device : DeviceID)
    (h : hasDevice requested = true → config.deviceID = device) :
    deviceField requested (config.device requested) = deviceField requested device := by
  unfold deviceField HandshakeConfig.device
  split
  · next hd => rw [h hd]
  · rfl

/-- **A transcript determines its context.** Every field but the identity has a fixed width, and the length of the identity
stands before it. -/
theorem buildTranscript_inj (hid : config.serverIdentity.length ≤ 253) (hid' : config'.serverIdentity.length ≤ 253)
    (h : buildTranscript config challenge nonce requested device = buildTranscript config' challenge' nonce' requested' device') :
    SameContext config config' challenge challenge' nonce nonce' requested requested' device device' := by
  obtain ⟨hhead, h⟩ := append_inj h rfl
  obtain ⟨hlength, h⟩ := append_inj h (by simp)
  have hlen := putUint_inj (by omega) (by omega) hlength
  obtain ⟨hidentity, h⟩ := append_inj h hlen
  obtain ⟨hserver, h⟩ := append_inj h (by simp)
  obtain ⟨hclient, h⟩ := append_inj h (by simp)
  obtain ⟨hsupported, h⟩ := append_inj h (by simp)
  obtain ⟨hrequested, h⟩ := append_inj h (by simp)
  have hreq : requested = requested' := UInt32.toNat_inj.1 (putUint_inj requested.toNat_lt requested'.toNat_lt hrequested)
  subst hreq
  refine ⟨by simpa using hhead, hidentity, Vector.toList_inj.1 hserver, ?_, Vector.toList_inj.1 hclient, fun hd => ?_, rfl⟩
  · exact UInt32.toNat_inj.1 (putUint_inj (UInt32.toNat_lt _) (UInt32.toNat_lt _) hsupported)
  unfold deviceField at h
  rw [if_pos hd, if_pos hd] at h
  exact Vector.toList_inj.1 h

open ServerHandshake

/-! ## The loop over the credentials -/

section Loop

variable {C : Crypto} {s : ServerHandshake} {response : Response C.Tag}

theorem foldl_matches (credentials : List Credential) (m : Matched C) :
    (credentials.foldl (s.matchOne C response) m).matches_ =
      m.matches_ + (credentials.filter (s.tagMatches C response)).length := by
  induction credentials generalizing m with
  | nil => rfl
  | cons c rest ih =>
    rw [foldl_cons, ih]
    by_cases hc : s.tagMatches C response c = true
    · simp only [matchOne, hc, if_true, filter_cons_of_pos, length_cons]
      omega
    · simp [matchOne, hc]

theorem foldl_unmatched {credentials : List Credential} (h : ∀ c ∈ credentials, s.tagMatches C response c = false)
    (m : Matched C) : credentials.foldl (s.matchOne C response) m = m := by
  induction credentials generalizing m with
  | nil => rfl
  | cons c rest ih =>
    have hc := h c mem_cons_self
    rw [foldl_cons, matchOne, hc]
    exact ih (fun d hd => h d (mem_cons_of_mem _ hd)) m

/-- **Count.** The loop counts one match exactly when one credential matches. -/
theorem matchAll_one (credentials : List Credential) :
    (s.matchAll C response credentials).matches_ = 1 ↔ ExactlyOne credentials fun c => s.tagMatches C response c = true := by
  rw [matchAll, foldl_matches, Nat.zero_add, length_eq_one_iff]
  constructor
  · rintro ⟨c, hc⟩
    obtain ⟨before, after, rfl, hbefore, hmatch, hafter⟩ := filter_eq_cons_iff.1 hc
    refine ⟨before, c, after, rfl, hmatch, fun d hd => ?_⟩
    rcases mem_append.1 hd with hd | hd
    · exact hbefore d hd
    · exact filter_eq_nil_iff.1 hafter d hd
  · rintro ⟨before, c, after, rfl, hmatch, hothers⟩
    have hbefore : before.filter (s.tagMatches C response) = [] :=
      filter_eq_nil_iff.2 fun d hd => hothers d (mem_append_left _ hd)
    have hafter : after.filter (s.tagMatches C response) = [] :=
      filter_eq_nil_iff.2 fun d hd => hothers d (mem_append_right _ hd)
    exact ⟨c, by rw [filter_append, hbefore, filter_cons_of_pos hmatch, hafter, nil_append]⟩

/-- **Pick.** If one credential matches, the loop ends with its key and its name, wherever it stands. -/
theorem matchAll_pick {before after : List Credential} {c : Credential} (hc : s.tagMatches C response c = true)
    (hothers : ∀ d ∈ before ++ after, ¬ s.tagMatches C response d = true) :
    s.matchAll C response (before ++ c :: after) = ⟨deriveAuthKey C (s.candidate c), c.id, 1⟩ := by
  have unmatched : ∀ d ∈ before ++ after, s.tagMatches C response d = false := fun d hd => Bool.eq_false_of_not_eq_true (hothers d hd)
  rw [matchAll, foldl_append, foldl_unmatched fun d hd => unmatched d (mem_append_left _ hd),
    foldl_cons, foldl_unmatched fun d hd => unmatched d (mem_append_right _ hd), matchOne, if_pos hc]

end Loop

/-! ## Responses -/

/-- what `RespondToChallenge` needs to succeed -/
structure Answerable (config : HandshakeConfig) (challenge : Challenge) (requested : FeatureSet) : Prop where
  valid : config.validate = .ok ()
  version : challenge.version = version
  supported : FeatureSet.valid challenge.supportedFeatures = true
  features : FeatureSet.valid requested = true
  within : FeatureSet.within requested challenge.supportedFeatures = true
  device : hasDevice requested = true → config.deviceID.isZero = false

/-- **Response.** -/
theorem respondToChallenge_ok {random : Option Nonce} {made : Response C.Tag} {client : ClientHandshake C} :
    respondToChallenge C config challenge requested random = .ok (made, client) ↔
      Answerable config challenge requested ∧ ∃ nonce, random = some nonce ∧
        made = ⟨nonce, requested, config.device requested, calculateTag C (deriveAuthKey C config) "NP2 response"
          (buildTranscript config challenge nonce requested (config.device requested))⟩ ∧
        client = ⟨calculateTag C (deriveAuthKey C config) "NP2 confirm"
            (buildTranscript config challenge nonce requested (config.device requested)),
          deriveSessionKeys C (deriveAuthKey C config)
            (buildTranscript config challenge nonce requested (config.device requested))⟩ := by
  constructor
  · intro h
    simp only [respondToChallenge] at h
    split at h
    · cases h
    rename_i hconfig
    split at h
    · cases h
    rename_i hchallenge
    split at h
    · cases h
    rename_i hfeatures
    split at h
    · cases h
    rename_i hdevice
    split at h
    · cases h
    rename_i nonce
    cases h
    simp only [not_or, not_and, Bool.not_eq_false, ne_eq, not_not] at hchallenge hfeatures hdevice
    refine ⟨⟨hconfig, hchallenge.1, hchallenge.2, hfeatures.1, hfeatures.2, fun hd => ?_⟩, nonce, rfl, rfl, rfl⟩
    exact Bool.eq_false_of_not_eq_true (hdevice hd)
  · rintro ⟨h, nonce, rfl, rfl, rfl⟩
    have hdevice : ¬ (FeatureSet.hasDevice requested = true ∧ config.deviceID.isZero = true) := by
      rintro ⟨hd, hz⟩
      cases (h.device hd).symm.trans hz
    simp [respondToChallenge, h.valid, h.version, h.supported, h.features, h.within, hdevice]

/-- the server is one `NewServerHandshake` returned -/
structure Fresh (s : ServerHandshake) : Prop where
  config : s.config.validate = .ok ()
  version : s.challenge.version = version
  supported : valid s.challenge.supportedFeatures = true
  same : s.supportedFeatures = s.challenge.supportedFeatures
  unused : s.used = false

theorem newServerHandshake_fresh {supported : FeatureSet} {now : ℤ} {random : Option Nonce}
      (h : newServerHandshake config supported now random = .ok (s, challenge)) : Fresh s := by
  simp only [newServerHandshake] at h
  split at h
  · cases h
  rename_i hconfig
  split at h
  · cases h
  rename_i hsupported
  split at h
  · cases h
  cases h
  exact ⟨hconfig, rfl, by simpa using hsupported, rfl, rfl⟩

/-- the features and the device of the response pass the server's checks -/
structure Admissible (s : ServerHandshake) {Tag : Type} (response : Response Tag) : Prop where
  features : valid response.requestedFeatures = true
  within : within response.requestedFeatures s.supportedFeatures = true
  device : hasDevice response.requestedFeatures = true → response.deviceID.isZero = false

theorem wellFormed_validate {c : Credential} (h : s.wellFormed c = true) : (s.candidate c).validate = .ok () := by
  simp only [wellFormed, Bool.and_eq_true] at h
  cases hv : (s.candidate c).validate with
  | ok u => rfl
  | error e =>
    rw [hv] at h
    cases h.2

section Produced

variable {C : Crypto} {s : ServerHandshake} {response : Response C.Tag} {c : Credential}

/-- the client's transcript of this response is the server's -/
theorem transcript_eq (device : DeviceID) (h : hasDevice response.requestedFeatures = true → device = response.deviceID) :
    buildTranscript { s.candidate c with deviceID := device } s.challenge response.clientNonce response.requestedFeatures
      (HandshakeConfig.device { s.candidate c with deviceID := device } response.requestedFeatures) =
        s.transcript C response := by
  unfold transcript buildTranscript
  rw [deviceField_device _ _ response.deviceID h]
  rfl

/-- what a client that made this response under this credential holds -/
def expectedClient (C : Crypto) (s : ServerHandshake) (response : Response C.Tag) (c : Credential) : ClientHandshake C :=
  ⟨calculateTag C (deriveAuthKey C (s.candidate c)) "NP2 confirm" (s.transcript C response),
    deriveSessionKeys C (deriveAuthKey C (s.candidate c)) (s.transcript C response)⟩

theorem Produced.sound (hs : Fresh s) {client : ClientHandshake C} (h : Produced C s response c client) :
    Admissible s response ∧ s.tagMatches C response c = true ∧ client = expectedClient C s response c := by
  obtain ⟨device, random, made, hmade, -, hnonce, htag, hdevice⟩ := h
  obtain ⟨hans, nonce, -, rfl, rfl⟩ := respondToChallenge_ok.1 hmade
  have hdev : hasDevice response.requestedFeatures = true → device = response.deviceID := fun hd => by
    have heq := hdevice hd
    simpa [HandshakeConfig.device, hd] using heq
  subst hnonce
  have htranscript := transcript_eq (C := C) (s := s) (c := c) device hdev
  refine ⟨⟨hans.features, ?_, fun hd => ?_⟩, ?_, ?_⟩
  · rw [hs.same]
    exact hans.within
  · rw [← hdev hd]
    exact hans.device hd
  · rw [tagMatches, beq_iff_eq, ← htag, ← htranscript]
    rfl
  · rw [expectedClient, ← htranscript]
    rfl

theorem Produced.complete (hs : Fresh s) (hc : s.wellFormed c = true) (ha : Admissible s response)
    (htag : s.tagMatches C response c = true) : Produced C s response c (expectedClient C s response c) := by
  have htranscript := transcript_eq (C := C) (s := s) (c := c) response.deviceID fun _ => rfl
  have hans : Answerable { s.candidate c with deviceID := response.deviceID } s.challenge response.requestedFeatures :=
    ⟨wellFormed_validate hc, hs.version, hs.supported, ha.features, hs.same ▸ ha.within, ha.device⟩
  refine ⟨response.deviceID, some response.clientNonce, _, respondToChallenge_ok.2 ⟨hans, _, rfl, rfl, ?_⟩, rfl, rfl, ?_, fun hd => ?_⟩
  · rw [htranscript]
    rfl
  · rw [tagMatches, beq_iff_eq] at htag
    rw [htag, htranscript]
    rfl
  · simp [HandshakeConfig.device, hd]

end Produced

/-! ## Calls -/

section Calls

variable {C : Crypto} {s : ServerHandshake}

/-- a call leaves all but `used` as it was -/
theorem attempt_eq (a : Attempt C) : s.attempt C a = { s with used := (s.attempt C a).used } := by
  simp only [attempt, verifyResponseWithCredentials]
  repeat' split
  all_goals rfl

theorem consumes_iff (a : Attempt C) :
    a.Consumes s ↔ ¬ (a.credentials.length = 0 ∨ maxServerCredentials < a.credentials.length) ∧
      ¬ a.credentials.all s.wellFormed = false := by
  simp [Attempt.Consumes, and_assoc]

/-- **Single use.** The challenge is used up by the first call that gets as far as the lock, whatever its response. -/
theorem attempt_used (a : Attempt C) : (s.attempt C a).used = true ↔ s.used = true ∨ a.Consumes s := by
  rw [consumes_iff]
  simp only [attempt, verifyResponseWithCredentials]
  split
  · next hsize => exact ⟨.inl, fun h => h.elim id fun hc => absurd hsize hc.1⟩
  rename_i hsize
  split
  · next hform => exact ⟨.inl, fun h => h.elim id fun hc => absurd hform hc.2⟩
  rename_i hform
  split
  · next hused => exact ⟨.inl, fun _ => hused⟩
  · exact ⟨fun _ => .inr ⟨hsize, hform⟩, fun _ => rfl⟩

theorem after_spec (calls : List (Attempt C)) :
    s.after C calls = { s with used := (s.after C calls).used } ∧
      ((s.after C calls).used = true ↔ s.used = true ∨ ∃ b ∈ calls, b.Consumes s) := by
  induction calls generalizing s with
  | nil => exact ⟨rfl, by simp [ServerHandshake.after]⟩
  | cons a rest ih =>
    have hstep : s.after C (a :: rest) = (s.attempt C a).after C rest := rfl
    obtain ⟨hsame, hused⟩ := ih (s := s.attempt C a)
    have hconsumes : ∀ b : Attempt C, b.Consumes (s.attempt C a) ↔ b.Consumes s := fun b => by
      rw [attempt_eq a]
      rfl
    rw [hstep]
    refine ⟨?_, ?_⟩
    · rw [hsame, attempt_eq a]
    · rw [hused, attempt_used]
      simp only [hconsumes, mem_cons, exists_eq_or_imp, or_assoc]

/-- what a call returns for the key and the name the loop ends with -/
def Matched.out (m : Matched C) (transcript : Str) : C.Tag × SessionKeys C.Material × Str :=
  (calculateTag C m.authKey "NP2 confirm" transcript, deriveSessionKeys C m.authKey transcript, m.id)

section

variable {response : Response C.Tag} {now : ℤ} {credentials : List Credential} {out : C.Tag × SessionKeys C.Material × Str}

/-- **One call.** -/
theorem verifyOnce_ok :
    s.verifyOnce C response now credentials = .ok out ↔
      (0 ≤ now - s.createdAt ∧ now - s.createdAt ≤ maxChallengeAge) ∧ Admissible s response ∧
        (s.matchAll C response credentials).matches_ = 1 ∧
        out = (s.matchAll C response credentials).out (s.transcript C response) := by
  constructor
  · intro h
    simp only [verifyOnce] at h
    split at h
    · cases h
    split at h
    · cases h
    rename_i hfeatures
    split at h
    · cases h
    rename_i hdevice
    split at h
    · cases h
    split at h
    · cases h
    rename_i hone
    simp only [not_or, Bool.not_eq_false, not_and] at hfeatures hdevice
    refine ⟨by omega, ⟨hfeatures.1, hfeatures.2, fun hd => ?_⟩, not_not.1 hone, (Except.ok.inj h).symm⟩
    exact Bool.eq_false_of_not_eq_true (hdevice hd)
  · rintro ⟨hage, hadm, hone, rfl⟩
    have hnow : ¬ (now - s.createdAt < 0 ∨ maxChallengeAge < now - s.createdAt) := by omega
    have hfeatures : ¬ (valid response.requestedFeatures = false ∨
        within response.requestedFeatures s.supportedFeatures = false) := by
      simp [hadm.features, hadm.within]
    have hdevice : ¬ (hasDevice response.requestedFeatures = true ∧ response.deviceID.isZero = true) := by
      rintro ⟨hd, hz⟩
      rw [hadm.device hd] at hz
      cases hz
    rw [verifyOnce, if_neg hnow, if_neg hfeatures, if_neg hdevice, if_neg (by omega),
      if_neg (not_not.2 hone)]
    rfl

/-- a successful call returns what the credential that matches gives -/
theorem verifyOnce_out (h : s.verifyOnce C response now credentials = .ok out)
    {c : Credential} (hmem : c ∈ credentials) (hc : s.tagMatches C response c = true) :
    out = ((expectedClient C s response c).expectedConfirm, (expectedClient C s response c).keys, c.id) := by
  obtain ⟨-, -, hone, rfl⟩ := verifyOnce_ok.1 h
  obtain ⟨before, d, after, rfl, hd, hothers⟩ := (matchAll_one _).1 hone
  have hcd : c = d := by
    by_contra hne
    have hrest : c ∈ before ++ after := by
      simp only [mem_append, mem_cons] at hmem ⊢
      tauto
    exact hothers c hrest hc
  subst hcd
  rw [matchAll_pick hc hothers]
  rfl

end

/-- after other calls, a call with credentials in order runs the checks if the challenge is unused -/
theorem outcome_eq (calls : List (Attempt C)) {a : Attempt C} (ha : a.Consumes s) :
    s.outcome C calls a =
      if (s.after C calls).used then .error .challengeUsed else s.verifyOnce C a.response a.now a.credentials := by
  obtain ⟨hsize, hform⟩ := (consumes_iff a).1 ha
  have hsame := (after_spec (s := s) calls).1
  generalize hu : (s.after C calls).used = used at hsame
  rw [outcome, hsame]
  have hform' : ¬ a.credentials.all (wellFormed { s with used := used }) = false := hform
  simp only [verifyResponseWithCredentials, if_neg hsize, if_neg hform']
  cases used <;> rfl

end Calls

/-- one credential matches exactly when the response was made under one, provided the response is admissible -/
theorem exactlyOne_produced {response : Response C.Tag} {credentials : List Credential}
    (hs : Fresh s) (hwf : ∀ c ∈ credentials, s.wellFormed c = true) :
    ExactlyOne credentials (fun c => ∃ client, Produced C s response c client) ↔
      Admissible s response ∧ ExactlyOne credentials fun c => s.tagMatches C response c = true := by
  constructor
  · rintro ⟨before, c, after, rfl, ⟨client, hc⟩, hothers⟩
    obtain ⟨hadm, hmatch, -⟩ := hc.sound hs
    refine ⟨hadm, before, c, after, rfl, hmatch, fun d hd hdm => hothers d hd ⟨expectedClient C s response d, ?_⟩⟩
    have hmem : d ∈ before ++ c :: after := by
      simp only [mem_append, mem_cons] at hd ⊢
      tauto
    exact Produced.complete hs (hwf d hmem) hadm hdm
  · rintro ⟨hadm, before, c, after, rfl, hmatch, hothers⟩
    refine ⟨before, c, after, rfl, ⟨_, Produced.complete hs (hwf c (by simp)) hadm hmatch⟩, fun d hd hp => ?_⟩
    obtain ⟨client, hclient⟩ := hp
    exact hothers d hd (hclient.sound hs).2.1

theorem outcome_isOk (hs : Fresh s) (calls : List (Attempt C)) {a : Attempt C}
    (ha : a.Consumes s) : (∃ out, s.outcome C calls a = .ok out) ↔ Deserves C s calls a := by
  have hused := (after_spec (s := s) calls).2
  rw [hs.unused] at hused
  rw [outcome_eq calls ha, Deserves, exactlyOne_produced hs ha.2.2]
  by_cases hfirst : (s.after C calls).used = true
  · obtain ⟨b, hb, hconsumes⟩ := (hused.1 hfirst).resolve_left nofun
    rw [if_pos hfirst]
    exact ⟨fun ⟨_, h⟩ => (nomatch h), fun h => absurd hconsumes (h.1 b hb)⟩
  have hnone : ∀ b ∈ calls, ¬ b.Consumes s := fun b hb hc => hfirst (hused.2 (.inr ⟨b, hb, hc⟩))
  rw [if_neg hfirst, ← matchAll_one]
  constructor
  · rintro ⟨out, h⟩
    obtain ⟨hage, hadm, hone, -⟩ := verifyOnce_ok.1 h
    exact ⟨hnone, hage, hadm, hone⟩
  · rintro ⟨-, hage, hadm, hone⟩
    exact ⟨_, verifyOnce_ok.2 ⟨hage, hadm, hone, rfl⟩⟩

/-- a tag belongs to one secret and one context, for ideal primitives -/
theorem tag_context (ideal : C.Ideal) (hid : config.serverIdentity.length ≤ 253) (hid' : config'.serverIdentity.length ≤ 253)
    (h : calculateTag C (deriveAuthKey C config) "NP2 response" (buildTranscript config challenge nonce requested device) =
      calculateTag C (deriveAuthKey C config') "NP2 response" (buildTranscript config' challenge' nonce' requested' device')) :
    config.rootSecret = config'.rootSecret ∧
      SameContext config config' challenge challenge' nonce nonce' requested requested' device device' := by
  obtain ⟨hkey, hmessage⟩ := ideal.hmac _ _ _ _ h
  have htranscript := (cons.inj (append_cancel_left hmessage)).2
  exact ⟨(ideal.hkdfRoot _ _ _ _ _ hkey).1, buildTranscript_inj hid hid' htranscript⟩

/-- **Handshake agreement.** For a server handshake `NewServerHandshake` returned, after any calls, a call with one to
`maxServerCredentials` well-formed credentials succeeds exactly when it deserves to; then the client and the server hold the same
keys, the client accepts the confirmation and the server names the credential. No two contexts share a transcript, and with ideal
primitives no two secrets or contexts share a tag. -/
theorem handshake_agreement (C : Crypto) (ideal : C.Ideal) {config : HandshakeConfig} {supported : FeatureSet} {created : ℤ}
    {random : Option Nonce} {s : ServerHandshake} {challenge : Challenge}
    (hnew : newServerHandshake config supported created random = .ok (s, challenge)) (calls : List (Attempt C)) (a : Attempt C)
    (hne : a.credentials ≠ []) (hmax : a.credentials.length ≤ maxServerCredentials)
    (hwf : ∀ c ∈ a.credentials, s.wellFormed c = true) :
    ((∃ out, s.outcome C calls a = .ok out) ↔ Deserves C s calls a) ∧
    (∀ confirm keys id, s.outcome C calls a = .ok (confirm, keys, id) →
      ∀ c ∈ a.credentials, ∀ client, Produced C s a.response c client →
        id = c.id ∧ client.keys = keys ∧ client.verifyConfirm confirm = .ok keys) ∧
    (∀ (config config' : HandshakeConfig) (challenge challenge' : Challenge) (nonce nonce' : Nonce)
        (requested requested' : FeatureSet) (device device' : DeviceID),
      config.validate = .ok () → config'.validate = .ok () →
      (buildTranscript config challenge nonce requested device = buildTranscript config' challenge' nonce' requested' device' →
        SameContext config config' challenge challenge' nonce nonce' requested requested' device device') ∧
      (calculateTag C (deriveAuthKey C config) "NP2 response" (buildTranscript config challenge nonce requested device) =
          calculateTag C (deriveAuthKey C config') "NP2 response"
            (buildTranscript config' challenge' nonce' requested' device') →
        config.rootSecret = config'.rootSecret ∧
          SameContext config config' challenge challenge' nonce nonce' requested requested' device device')) := by
  have hs := newServerHandshake_fresh hnew
  have ha : a.Consumes s := ⟨hne, hmax, hwf⟩
  refine ⟨outcome_isOk hs calls ha, fun confirm keys id hok c hmem client hclient => ?_, ?_⟩
  · obtain ⟨-, hmatch, rfl⟩ := hclient.sound hs
    rw [outcome_eq calls ha] at hok
    split at hok
    · cases hok
    obtain ⟨rfl, hrest⟩ := Prod.mk.inj (verifyOnce_out hok hmem hmatch)
    cases hrest
    exact ⟨rfl, rfl, if_pos rfl⟩
  · intro config config' challenge challenge' nonce nonce' requested requested' device device' hv hv'
    have hid := validate_identity hv
    have hid' := validate_identity hv'
    exact ⟨buildTranscript_inj hid hid', tag_context ideal hid hid'⟩

/-! ## An exchange -/

/-- outputs that remember their inputs -/
def symbolic : Crypto where
  Key := Option (RootSecret × Str × Str)
  Digest := Str
  Material := Option (RootSecret × Str × Str) × Str × Str × ℕ
  Tag := Option (RootSecret × Str × Str) × Str
  zeroKey := none
  hkdfRoot := fun secret salt info => some (secret, salt, info)
  hkdf := fun key salt info size => (key, salt, info, size)
  sum256 := id
  hmac := fun key message => (key, message)

theorem symbolic_ideal : symbolic.Ideal where
  hkdfRoot := fun _ _ _ _ _ h => by
    obtain ⟨hsecret, hrest⟩ := Prod.mk.inj (Option.some.inj h)
    exact ⟨hsecret, (Prod.mk.inj hrest).2⟩
  hmac := fun _ _ _ _ h => Prod.mk.inj h

/-- a server on HTTPS with the identity "np" -/
def exampleConfig : HandshakeConfig := ⟨Vector.replicate 32 1, ascii "np", 1, Vector.replicate 16 0⟩

def exampleServer : ServerHandshake := ⟨exampleConfig, ⟨version, Vector.replicate 32 7, 63⟩, 0, false, 63⟩

theorem exampleServer_new :
    newServerHandshake exampleConfig 63 0 (some (Vector.replicate 32 7)) = .ok (exampleServer, exampleServer.challenge) := rfl

def member : Credential := ⟨ascii "member", Vector.replicate 32 3⟩

def stranger : Credential := ⟨ascii "stranger", Vector.replicate 32 4⟩

/-- the member's response, with a device -/
def memberResponse : Response symbolic.Tag where
  clientNonce := Vector.replicate 32 9
  requestedFeatures := 33
  deviceID := Vector.replicate 16 5
  tag := calculateTag symbolic (deriveAuthKey symbolic (exampleServer.candidate member)) "NP2 response"
    (buildTranscript exampleConfig exampleServer.challenge (Vector.replicate 32 9) 33 (Vector.replicate 16 5))

theorem memberResponse_admissible : Admissible exampleServer memberResponse where
  features := by decide +kernel
  within := by decide +kernel
  device := fun _ => by decide +kernel

theorem memberResponse_produced :
    Produced symbolic exampleServer memberResponse member (expectedClient symbolic exampleServer memberResponse member) :=
  Produced.complete (newServerHandshake_fresh exampleServer_new) (by decide +kernel) memberResponse_admissible (by decide +kernel)

theorem memberResponse_only {client : ClientHandshake symbolic} :
    ¬ Produced symbolic exampleServer memberResponse stranger client := fun h => by
  have hmatch := (h.sound (newServerHandshake_fresh exampleServer_new)).2.1
  have hmiss : exampleServer.tagMatches symbolic memberResponse stranger = false := by decide +kernel
  cases hmiss.symm.trans hmatch

/-- the member's response before a list that holds the member's credential first -/
theorem member_deserves (others : ℕ) :
    Deserves symbolic exampleServer [] ⟨memberResponse, 1000000000, member :: replicate others stranger⟩ := by
  have hage : (0 : ℤ) ≤ 1000000000 - 0 ∧ (1000000000 : ℤ) - 0 ≤ maxChallengeAge := by decide
  refine ⟨nofun, hage, [], member, replicate others stranger, rfl, ⟨_, memberResponse_produced⟩, fun d hd hp => ?_⟩
  obtain rfl := eq_of_mem_replicate hd
  obtain ⟨client, hclient⟩ := hp
  exact memberResponse_only hclient

theorem credentials_wellFormed (others : ℕ) :
    ∀ c ∈ member :: replicate others stranger, exampleServer.wellFormed c = true := by
  intro c hc
  rcases mem_cons.1 hc with rfl | hrest
  · decide +kernel
  · obtain rfl := eq_of_mem_replicate hrest
    decide +kernel

theorem handshake_agreement_member :
    ∃ out, exampleServer.outcome symbolic [] ⟨memberResponse, 1000000000, [member, stranger]⟩ = .ok out :=
  (handshake_agreement symbolic symbolic_ideal exampleServer_new [] ⟨memberResponse, 1000000000, [member, stranger]⟩ nofun
    (by decide) (credentials_wellFormed 1)).1.2 (member_deserves 1)

/-- **A crowd is refused.** Among `maxServerCredentials + 1` well-formed credentials the one that matches is not found. -/
theorem crowded_refused : ¬ ∀ (C : Crypto), C.Ideal → ∀ (config : HandshakeConfig) (supported : FeatureSet) (created : ℤ)
    (random : Option Nonce) (s : ServerHandshake) (challenge : Challenge),
    newServerHandshake config supported created random = .ok (s, challenge) → ∀ (calls : List (Attempt C)) (a : Attempt C),
      a.credentials ≠ [] → (∀ c ∈ a.credentials, s.wellFormed c = true) →
        ((∃ out, s.outcome C calls a = .ok out) ↔ Deserves C s calls a) := by
  intro h
  obtain ⟨out, hout⟩ := (h symbolic symbolic_ideal _ _ _ _ _ _ exampleServer_new []
    ⟨memberResponse, 1000000000, member :: List.replicate 256 stranger⟩ nofun (credentials_wellFormed 256)).2 (member_deserves 256)
  have hsize : (member :: List.replicate 256 stranger).length = 0 ∨
      maxServerCredentials < (member :: List.replicate 256 stranger).length := by
    rw [length_cons, length_replicate]
    exact .inr (by decide)
  simp only [ServerHandshake.outcome, ServerHandshake.verifyResponseWithCredentials, if_pos hsize] at hout
  cases hout

end NeProto.Protocol
