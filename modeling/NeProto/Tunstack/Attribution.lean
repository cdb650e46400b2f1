/-
Names for destination addresses (`internal/tunstack/dns_attribution.go`, `dialer.go`, `udp_conn.go`).

The tunnel sees packets to addresses. `DNSCache` remembers which name a DNS answer gave an address, the dialer opens a flow to the
name where there is one. `unpack` stands for `dnsmessage.Message.Unpack`; nothing is assumed about it. A map is a list of its
entries, `pending` the entries of all IDs in the order of their arrival, so its length is `count`.

- `observeQuery`, `observeResponse`, `domainFor`: the cache; `step` is any of its calls.
- `run_canonical`: every name it holds is a name in the grammar of `canonicalDNSName`.
- `dialContext`, `dialUDP`, `readFrom`: what a TCP or UDP flow does with the name.
- `encodable_iff`: the encoder takes such a name exactly when it has no underscore.
- `unbroken_iff`: which flows behave like the numeric ones.
- `attributed_udp_broken`: a UDP flow to an address with a name never gets a datagram.
Left out: the counters of `stats`.
-/
import NeProto.Lib.Machine
import NeProto.Tunstack.FirstFlight

namespace NeProto.Tunstack

open DeferredConn List

open Proxy (Target dnsName encodeTarget encodeOpenRequest EncodableHost encodeTarget_iff encodeOpenRequest_iff
  dnsName_bytes dnsName_getLast validDomain_iff)

/-! ## DNS messages -/

inductive DNSType where
  | a
  | aaaa
  | other (code : ℕ)
deriving DecidableEq

def classINET : ℕ := 1

structure DNSQuestion where
  name : Str
  qtype : DNSType
  qclass : ℕ
deriving DecidableEq

inductive DNSBody (Addr : Type) where
  | a (address : Addr)
  | aaaa (address : Addr)
  | cname (target : Str)
  | other

structure DNSAnswer (Addr : Type) where
  name : Str
  ttl : ℕ
  body : DNSBody Addr

structure DNSMessage (Addr : Type) where
  id : ℕ
  response : Bool
  truncated : Bool
  rcode : ℕ
  questions : List DNSQuestion
  answers : List (DNSAnswer Addr)

/-! ## The cache -/

def dnsAttributionMaxPacket : ℕ := 65535

def dnsAttributionMaxPending : ℕ := 4096

def dnsAttributionMaxAddresses : ℕ := 8192

/-- times are in nanoseconds -/
def second : ℕ := 1000000000

def dnsAttributionPendingTTL : ℕ := 30 * second

def dnsAttributionMaximumTTL : ℕ := 3600 * second

structure DNSPending where
  questions : List DNSQuestion
  expires : ℕ
deriving DecidableEq

structure DNSAddress where
  domain : Str
  expires : ℕ

structure DNSCache (Addr : Type) where
  pending : List (ℕ × DNSPending)
  addresses : List (Addr × DNSAddress)

def newDNSAttribution {Addr : Type} : DNSCache Addr := ⟨[], []⟩

def minimumDNSSeconds (left right : ℕ) : ℕ := if left = 0 ∨ right = 0 then 0 else min left right

/-- where the name of an answer leads back to: its question, and the lowest TTL on the way -/
abbrev Origins := List (Str × Str × ℕ)

namespace DNSCache

variable {Addr : Type} [DecidableEq Addr] (P : Platform Addr) (unpack : Str → Option (DNSMessage Addr)) (cache : DNSCache Addr)

def unpackDNSMessage (payload : Str) : Option (DNSMessage Addr) :=
  if payload.length < 12 ∨ dnsAttributionMaxPacket < payload.length then none else unpack payload

def dnsQuestions (questions : List DNSQuestion) : Option (List DNSQuestion) :=
  if questions.length = 0 ∨ 8 < questions.length then none
  else questions.mapM fun question => (canonicalDNSName P question.name).map fun name => { question with name }

def validatedDNSQuery (payload : Str) : Option (ℕ × List DNSQuestion) :=
  match unpackDNSMessage unpack payload with
  | none => none
  | some message =>
    if message.response then none
    else match dnsQuestions P message.questions with
      | none => none
      | some questions =>
        if questions.all fun question => question.qclass == classINET && (question.qtype == .a || question.qtype == .aaaa) then
          some (message.id, questions)
        else none

def purgeExpired (now : ℕ) : DNSCache Addr where
  pending := cache.pending.filter fun entry => now < entry.2.expires
  addresses := cache.addresses.filter fun entry => now < entry.2.expires

/-- the entry that expires first goes -/
def evictPending : DNSCache Addr :=
  match cache.pending.argmin fun entry => entry.2.expires with
  | none => cache
  | some entry => { cache with pending := cache.pending.erase entry }

def evictAddress : DNSCache Addr :=
  match cache.addresses.argmin fun entry => entry.2.expires with
  | none => cache
  | some (address, _) => { cache with addresses := cache.addresses.filter fun entry => entry.1 ≠ address }

def takePending (id : ℕ) (questions : List DNSQuestion) : DNSCache Addr × Option DNSPending :=
  match cache.pending.find? fun entry => entry.1 == id && entry.2.questions == questions with
  | none => (cache, none)
  | some entry => ({ cache with pending := cache.pending.erase entry }, some entry.2)

def observeQuery (now : ℕ) (payload : Str) : DNSCache Addr :=
  match validatedDNSQuery P unpack payload with
  | none => cache
  | some (id, questions) =>
    let cache := cache.purgeExpired now
    let cache := if dnsAttributionMaxPending ≤ cache.pending.length then cache.evictPending else cache
    { cache with pending := cache.pending ++ [(id, ⟨questions, now + dnsAttributionPendingTTL⟩)] }

def discardQuery (payload : Str) : DNSCache Addr :=
  match validatedDNSQuery P unpack payload with
  | none => cache
  | some (id, questions) => (cache.takePending id questions).1

def putAddress (address : Addr) (domain : Str) (ttl now : ℕ) : DNSCache Addr :=
  if ttl = 0 ∨ P.isValid address = false then cache
  else
    let cache := if dnsAttributionMaxAddresses ≤ cache.addresses.length then cache.evictAddress else cache
    let duration := min (ttl * second) dnsAttributionMaximumTTL
    let address := P.unmap address
    { cache with addresses := (address, ⟨domain, now + duration⟩) :: cache.addresses.filter fun entry => entry.1 ≠ address }

/-- one CNAME record: its target leads back to where its owner does -/
def followAnswer (state : Origins × Bool) (answer : DNSAnswer Addr) : Origins × Bool :=
  match answer.body with
  | .cname target =>
    match canonicalDNSName P answer.name, canonicalDNSName P target with
    | some owner, some target =>
      match state.1.lookup owner with
      | none => state
      | some (origin, ttl) =>
        if (state.1.lookup target).isSome then state
        else (state.1 ++ [(target, origin, minimumDNSSeconds ttl answer.ttl)], true)
    | _, _ => state
  | _ => state

/-- passes over the answers until one changes nothing -/
def followAnswers (answers : List (DNSAnswer Addr)) : ℕ → Origins → Origins
  | 0, origins => origins
  | passes + 1, origins =>
    match answers.foldl (followAnswer P) (origins, false) with
    | (origins, true) => followAnswers answers passes origins
    | (origins, false) => origins

/-- one address record -/
def learnAnswer (origins : Origins) (now : ℕ) (cache : DNSCache Addr) (answer : DNSAnswer Addr) : DNSCache Addr :=
  match canonicalDNSName P answer.name with
  | none => cache
  | some owner =>
    match origins.lookup owner with
    | none => cache
    | some (origin, ttl) =>
      match answer.body with
      | .a address | .aaaa address => cache.putAddress P (P.unmap address) origin (minimumDNSSeconds ttl answer.ttl) now
      | _ => cache

def observeResponse (now : ℕ) (payload : Str) : DNSCache Addr :=
  match unpackDNSMessage unpack payload with
  | none => cache
  | some message =>
    if !message.response || message.truncated || message.rcode != 0 || decide (256 < message.answers.length) then cache
    else match dnsQuestions P message.questions with
      | none => cache
      | some questions =>
        let cache := cache.purgeExpired now
        match cache.takePending message.id questions with
        | (cache, none) => cache
        | (cache, some pending) =>
          let origins := pending.questions.map fun question => (question.name, question.name, dnsAttributionMaximumTTL / second)
          let origins := followAnswers P message.answers message.answers.length origins
          message.answers.foldl (learnAnswer P origins now) cache

/-- the name of an address, if it has one that has not expired -/
def domainFor (now : ℕ) (address : Addr) : DNSCache Addr × Option Str :=
  if P.isValid address = false then (cache, none)
  else
    let address := P.unmap address
    match cache.addresses.lookup address with
    | none => (cache, none)
    | some entry =>
      if now < entry.expires then (cache, some entry.domain)
      else ({ cache with addresses := cache.addresses.filter fun entry => entry.1 ≠ address }, none)

/-- a call of the cache -/
inductive Op (Addr : Type) where
  | observeQuery (now : ℕ) (payload : Str)
  | discardQuery (payload : Str)
  | observeResponse (now : ℕ) (payload : Str)
  | domainFor (now : ℕ) (address : Addr)
  | stats (now : ℕ)

def step : Op Addr → DNSCache Addr
  | .observeQuery now payload => cache.observeQuery P unpack now payload
  | .discardQuery payload => cache.discardQuery P unpack payload
  | .observeResponse now payload => cache.observeResponse P unpack now payload
  | .domainFor now address => (cache.domainFor P now address).1
  | .stats now => cache.purgeExpired now

end DNSCache

/-! ## The dialer -/

inductive DialError where
  | invalidMetadata

/-- a TCP flow that was accepted: opened with its metadata, or waiting for its first flight -/
inductive TCPFlow where
  | opened (metadata : Str)
  | deferred (conn : DeferredConn)

structure UDPConn (Addr : Type) where
  /-- the fixed target of the association -/
  fixed : Target
  remote : Addr × UInt16
  observeDNS : Bool

inductive ReadError where
  | invalidMetadata
  | shortBuffer

section Dialer

variable {Addr : Type} [DecidableEq Addr] (P : Platform Addr) (unpack : Str → Option (DNSMessage Addr))
  (cache : DNSCache Addr) (now : ℕ) (address : Addr) (port : UInt16)

/-- the host of a flow, and whether a DNS answer gave it -/
def attributedHost : Str × Bool :=
  match (cache.domainFor P now (P.unmap address)).2 with
  | some domain => (domain, true)
  | none => (P.addrString address, false)

/-- a destination that a flow may have -/
def ValidDestination : Prop := P.isValid address = true ∧ P.isUnspecified address = false ∧ port ≠ 0

instance : Decidable (ValidDestination P address port) := inferInstanceAs (Decidable (_ ∧ _))

/-- `DialContext` for TCP metadata; the opener succeeds -/
def dialContext : Except DialError TCPFlow :=
  if ¬ValidDestination P address port then .error .invalidMetadata
  else
    let (host, attributed) := attributedHost P cache now address
    if !attributed && (port == 80 || port == 443) then .ok (.deferred (newDeferredStreamConn ⟨host, port⟩))
    else match encodeTarget P ⟨host, port⟩ with
      | .error _ => .error .invalidMetadata
      | .ok metadata => .ok (.opened metadata)

/-- `DialUDP` for UDP metadata; UDP is on and the stream opens -/
def dialUDP : Except DialError (UDPConn Addr) :=
  if ¬ValidDestination P address port then .error .invalidMetadata
  else
    let target : Target := ⟨(attributedHost P cache now address).1, port⟩
    match encodeOpenRequest P .udpFixed target with
    | .error _ => .error .invalidMetadata
    | .ok _ => .ok ⟨target, (address, port), port == 53⟩

/-- what `ReadFrom` returns -/
structure ReadResult (Addr : Type) where
  length : ℕ
  source : Option (Addr × UInt16)
  err : Option ReadError

/-- `ReadFrom` into a buffer of `room` bytes, when the association delivers `payload`; its source is the fixed target -/
def readFrom (conn : UDPConn Addr) (payload : Str) (room : ℕ) : DNSCache Addr × ReadResult Addr :=
  match P.parseAddr conn.fixed.host with
  | none => (cache, ⟨0, none, some .invalidMetadata⟩)
  | some address =>
    let source := some (P.unmap address, conn.fixed.port)
    if room < payload.length then (cache, ⟨room, source, some .shortBuffer⟩)
    else (if conn.observeDNS then cache.observeResponse P unpack now payload else cache, ⟨payload.length, source, none⟩)

end Dialer

/-! ## What the cache holds -/

/-- a name as `canonicalDNSName` lets it through -/
def IsName (name : Str) : Prop := dnsName (· == underscore) name = true

structure DNSCache.Canonical {Addr : Type} (cache : DNSCache Addr) : Prop where
  pending : ∀ entry ∈ cache.pending, ∀ question ∈ entry.2.questions, IsName question.name
  addresses : ∀ entry ∈ cache.addresses, IsName entry.2.domain

/-- each name leads back to a name -/
def Origins.Canonical (origins : Origins) : Prop := ∀ entry ∈ origins, IsName entry.2.1

namespace DNSCache

variable {Addr : Type} {P : Platform Addr} {unpack : Str → Option (DNSMessage Addr)} {cache : DNSCache Addr}

variable {origins : Origins}

/-- entries that go take nothing with them -/
theorem Canonical.mono (h : cache.Canonical) {cache' : DNSCache Addr} (hpending : cache'.pending ⊆ cache.pending)
    (haddresses : cache'.addresses ⊆ cache.addresses) : cache'.Canonical where
  pending := fun entry hentry => h.pending entry (hpending hentry)
  addresses := fun entry hentry => h.addresses entry (haddresses hentry)

theorem dnsQuestions_names {questions canonical : List DNSQuestion} (h : dnsQuestions P questions = some canonical) :
    ∀ question ∈ canonical, IsName question.name := by
  unfold dnsQuestions at h
  split at h
  · cases h
  clear * - h
  induction questions generalizing canonical with
  | nil =>
    cases h
    exact nofun
  | cons question questions ih =>
    rw [mapM_cons] at h
    cases hname : canonicalDNSName P question.name with
    | none =>
      rw [hname] at h
      cases h
    | some name =>
      rw [hname] at h
      cases hrest : questions.mapM fun question => (canonicalDNSName P question.name).map fun name => { question with name } with
      | none =>
        rw [hrest] at h
        cases h
      | some rest =>
        rw [hrest] at h
        cases h
        intro q hq
        rcases mem_cons.mp hq with rfl | hq
        · exact canonicalDNSName_ok hname
        · exact ih hrest q hq

theorem validatedDNSQuery_names {payload : Str} {id : ℕ} {questions : List DNSQuestion}
    (h : validatedDNSQuery P unpack payload = some (id, questions)) : ∀ question ∈ questions, IsName question.name := by
  unfold validatedDNSQuery at h
  split at h
  · cases h
  split at h
  · cases h
  split at h
  · cases h
  rename_i hquestions
  split at h
  · cases h
    exact dnsQuestions_names hquestions
  · cases h

/-- a name that is looked up leads back to a name -/
theorem origin_isName (h : origins.Canonical) {name origin : Str} {ttl : ℕ}
    (hlookup : origins.lookup name = some (origin, ttl)) : IsName origin := by
  obtain ⟨front, back, rfl, -⟩ := lookup_eq_some_iff.mp hlookup
  exact h (name, origin, ttl) (mem_append_right front mem_cons_self)

theorem followAnswer_canonical {state : Origins × Bool} (h : state.1.Canonical) (answer : DNSAnswer Addr) :
    (followAnswer P state answer).1.Canonical := by
  unfold followAnswer
  split
  · split
    · split
      · exact h
      rename_i hlookup
      split
      · exact h
      intro entry hentry
      rcases mem_append.mp hentry with hold | hnew
      · exact h entry hold
      · rw [mem_singleton.mp hnew]
        exact origin_isName h hlookup
    · exact h
  · exact h

theorem followAnswers_canonical (answers : List (DNSAnswer Addr)) (passes : ℕ) (h : origins.Canonical) :
    (followAnswers P answers passes origins).Canonical := by
  induction passes generalizing origins with
  | zero => exact h
  | succ passes ih =>
    have hpass : (answers.foldl (followAnswer P) (origins, false)).1.Canonical :=
      List.foldlRecOn (motive := fun state : Origins × Bool => state.1.Canonical) answers (followAnswer P) h
        fun state hstate answer _ => followAnswer_canonical hstate answer
    rw [followAnswers]
    split
    · next heq => exact ih (by rwa [heq] at hpass)
    · next heq => rwa [heq] at hpass

section

variable (h : cache.Canonical)
include h

theorem purgeExpired_canonical (now : ℕ) : (cache.purgeExpired now).Canonical :=
  h.mono (filter_subset_self _) (filter_subset_self _)

theorem evictPending_canonical : cache.evictPending.Canonical := by
  unfold evictPending
  split
  · exact h
  · exact h.mono erase_subset (List.Subset.refl _)

/-- the entry that is taken out held names -/
theorem takePending_canonical (id : ℕ) (questions : List DNSQuestion) :
    (cache.takePending id questions).1.Canonical ∧
      ∀ pending, (cache.takePending id questions).2 = some pending → ∀ question ∈ pending.questions, IsName question.name := by
  unfold takePending
  split
  · exact ⟨h, nofun⟩
  rename_i entry hentry
  refine ⟨h.mono erase_subset (List.Subset.refl _), ?_⟩
  intro pending hpending
  cases hpending
  exact h.pending entry (mem_of_find?_eq_some hentry)

theorem observeQuery_canonical (now : ℕ) (payload : Str) :
    (cache.observeQuery P unpack now payload).Canonical := by
  unfold observeQuery
  split
  · exact h
  rename_i questions hquery
  have hpurged := purgeExpired_canonical h now
  have hroom : (if dnsAttributionMaxPending ≤ (cache.purgeExpired now).pending.length then (cache.purgeExpired now).evictPending
      else cache.purgeExpired now).Canonical := by
    split
    · exact evictPending_canonical hpurged
    · exact hpurged
  refine ⟨fun entry hentry => ?_, hroom.addresses⟩
  rcases mem_append.mp hentry with hold | hnew
  · exact hroom.pending entry hold
  · rw [mem_singleton.mp hnew]
    exact validatedDNSQuery_names hquery

variable [DecidableEq Addr]

theorem evictAddress_canonical : cache.evictAddress.Canonical := by
  unfold evictAddress
  split
  · exact h
  · exact h.mono (List.Subset.refl _) (filter_subset_self _)

theorem putAddress_canonical (address : Addr) {domain : Str} (hdomain : IsName domain) (ttl now : ℕ) :
    (cache.putAddress P address domain ttl now).Canonical := by
  have hroom : (if dnsAttributionMaxAddresses ≤ cache.addresses.length then cache.evictAddress else cache).Canonical := by
    split
    · exact evictAddress_canonical h
    · exact h
  unfold putAddress
  split
  · exact h
  refine ⟨hroom.pending, fun entry hentry => ?_⟩
  rcases mem_cons.mp hentry with rfl | hold
  · exact hdomain
  · exact hroom.addresses entry (mem_of_mem_filter hold)

theorem learnAnswer_canonical (horigins : origins.Canonical) (now : ℕ)
    (answer : DNSAnswer Addr) : (cache.learnAnswer P origins now answer).Canonical := by
  unfold learnAnswer
  split
  · exact h
  split
  · exact h
  rename_i hlookup
  split
  · exact putAddress_canonical h _ (origin_isName horigins hlookup) _ _
  · exact putAddress_canonical h _ (origin_isName horigins hlookup) _ _
  · exact h

theorem observeResponse_canonical (now : ℕ) (payload : Str) :
    (cache.observeResponse P unpack now payload).Canonical := by
  unfold observeResponse
  split
  · exact h
  rename_i message _
  split
  · exact h
  split
  · exact h
  rename_i questions _
  obtain ⟨hcache, hnames⟩ := takePending_canonical (purgeExpired_canonical h now) message.id questions
  simp only
  split
  · next htake => rwa [htake] at hcache
  rename_i pending htake
  rw [htake] at hcache hnames
  have hstart : Origins.Canonical (pending.questions.map fun question =>
      (question.name, question.name, dnsAttributionMaximumTTL / second)) := by
    intro entry hentry
    obtain ⟨question, hmem, rfl⟩ := mem_map.mp hentry
    exact hnames pending rfl question hmem
  exact List.foldlRecOn message.answers _ hcache fun cache hcache answer _ =>
    learnAnswer_canonical hcache (followAnswers_canonical message.answers _ hstart) now answer

theorem domainFor_canonical (now : ℕ) (address : Addr) :
    (cache.domainFor P now address).1.Canonical ∧ ∀ domain, (cache.domainFor P now address).2 = some domain → IsName domain := by
  unfold domainFor
  split
  · exact ⟨h, nofun⟩
  simp only
  split
  · exact ⟨h, nofun⟩
  rename_i entry hlookup
  split
  · refine ⟨h, fun domain hdomain => ?_⟩
    cases hdomain
    obtain ⟨front, back, hentries, -⟩ := lookup_eq_some_iff.mp hlookup
    refine h.addresses (P.unmap address, entry) ?_
    rw [hentries]
    exact mem_append_right front mem_cons_self
  · exact ⟨h.mono (List.Subset.refl _) (filter_subset_self _), nofun⟩

theorem step_canonical (op : Op Addr) : (cache.step P unpack op).Canonical := by
  cases op with
  | observeQuery now payload => exact observeQuery_canonical h now payload
  | discardQuery payload =>
    change (cache.discardQuery P unpack payload).Canonical
    unfold discardQuery
    split
    · exact h
    · exact (takePending_canonical h _ _).1
  | observeResponse now payload => exact observeResponse_canonical h now payload
  | domainFor now address => exact (domainFor_canonical h now address).1
  | stats now => exact purgeExpired_canonical h now

end

variable [DecidableEq Addr]

/-- **Every name in the cache is one.** -/
theorem run_canonical (ops : List (Op Addr)) : (Machine.run (step P unpack) newDNSAttribution ops).Canonical :=
  Machine.run_inv (I := Canonical) (fun _ op h => step_canonical h op)
    ⟨fun _ h => absurd h not_mem_nil, fun _ h => absurd h not_mem_nil⟩ ops

/-- **Only names are attributed**, whatever the packets of the resolver hold. -/
theorem domainFor_isName (ops : List (Op Addr)) {now : ℕ} {address : Addr} {domain : Str}
    (h : ((Machine.run (step P unpack) newDNSAttribution ops).domainFor P now address).2 = some domain) : IsName domain :=
  (domainFor_canonical (run_canonical ops) now address).2 domain h

end DNSCache

def exampleQuestions : List DNSQuestion := [⟨ascii "example.com.", .a, classINET⟩]

/-- a packet that starts with 0 is the query, another one the answer -/
def exampleUnpack (payload : Str) : Option (DNSMessage (List ℕ)) :=
  if payload.head? = some 0 then some ⟨7, false, false, 0, exampleQuestions, []⟩
  else some ⟨7, true, false, 0, exampleQuestions, [⟨ascii "example.com.", 60, .a [192, 0, 2, 7]⟩]⟩

def exampleLookup : List (DNSCache.Op (List ℕ)) := [.observeQuery 0 (List.replicate 12 0), .observeResponse 1 (List.replicate 12 1)]

def exampleCache : DNSCache (List ℕ) := Machine.run (DNSCache.step asciiPlatform exampleUnpack) newDNSAttribution exampleLookup

theorem domainFor_isName_example :
    (exampleCache.domainFor asciiPlatform 2 [192, 0, 2, 7]).2 = some (ascii "example.com") ∧ IsName (ascii "example.com") := by
  have hname : (exampleCache.domainFor asciiPlatform 2 [192, 0, 2, 7]).2 = some (ascii "example.com") := by decide
  exact ⟨hname, DNSCache.domainFor_isName exampleLookup hname⟩

/-! ## Flows -/

section Flows

open DNSCache

variable {Addr : Type} {P : Platform Addr}

variable {name : Str} {cache : DNSCache Addr} {address : Addr}

/-- what a byte of a name can be -/
theorem IsName.byte (h : IsName name) {b : UInt8} (hb : b ∈ name) : b < 128 ∧ isUpper b = false ∧ b ≠ percent := by
  have hbyte := dnsName_bytes h hb
  have hall : ∀ n : Fin 256, UInt8.ofFin n = dot ∨ isLower (UInt8.ofFin n) ∨ isDigit (UInt8.ofFin n) ∨ UInt8.ofFin n = hyphen ∨
      (UInt8.ofFin n == underscore) → UInt8.ofFin n < 128 ∧ isUpper (UInt8.ofFin n) = false ∧ UInt8.ofFin n ≠ percent := by
    decide +kernel
  exact hall b.toFin hbyte

/-- **The encoder takes a name of the cache exactly when it has no underscore.** -/
theorem encodable_iff (hP : P.Lawful) (h : IsName name) : EncodableHost P name ↔ underscore ∉ name := by
  have hpercent : percent ∉ name := fun hmem => (h.byte hmem).2.2 rfl
  unfold EncodableHost
  cases hparse : P.parseAddr name with
  | some address => exact iff_of_true (hP.zone_percent name address hparse hpercent) (hP.no_underscore name address hparse hpercent)
  | none =>
    have htrim : trimSuffix name dot = name := if_neg (dnsName_getLast h)
    have hlower : P.toLower name = name := hP.toLower_lower name fun b hb => ⟨(h.byte hb).1, (h.byte hb).2.1⟩
    have hextra : ∀ b : UInt8, (b == underscore) = true → ¬isLower b ∧ ¬isDigit b ∧ b ≠ hyphen ∧ b ≠ dot := by
      intro b hb
      rw [beq_iff_eq.mp hb]
      decide
    simp only [htrim, hlower]
    rw [validDomain_iff h hextra]
    constructor
    · intro hnone hmem
      exact hnone underscore hmem (beq_self_eq_true underscore)
    · intro hmem b hb hunder
      rw [beq_iff_eq] at hunder
      exact hmem (hunder ▸ hb)

/-- a waiting flow breaks exactly when its first flight names a host the encoder refuses -/
theorem deferred_iff (hP : P.Lawful) {target : Target} (hnumeric : ∃ raw, encodeTarget P target = .ok raw) (writes : List Str) :
    ((newDeferredStreamConn target).run P writes).openErr = none ↔ ∀ name,
      Chunks.answer (DeferredConn.decided P) firstFlightMaximumBytes [] [] writes = some name → underscore ∉ name := by
  have hout := run_outcome (P := P) (c := newDeferredStreamConn target) ⟨rfl, rfl, rfl⟩ writes
  change ((newDeferredStreamConn target).run P writes).outcome.2 = none ↔ _
  rw [hout]
  change (match Chunks.answer (decided P) firstFlightMaximumBytes [] [] writes with
    | none => (none, none)
    | some domain => opened P target domain).2 = none ↔ _
  cases hanswer : Chunks.answer (decided P) firstFlightMaximumBytes [] [] writes with
  | none => simp
  | some domain =>
    simp only [Option.some.injEq, forall_eq']
    unfold opened targetFor
    by_cases hne : domain = []
    · obtain ⟨raw, hraw⟩ := hnumeric
      simp [hne, hraw]
    have hname : IsName domain := by
      obtain rfl | ⟨q, hq⟩ := Chunks.answer_source hanswer
      · exact absurd rfl hne
      · exact (decided_name hq hne).2.1
    have hport := ((encodeTarget_iff target).mp hnumeric).1
    have hencode := encodeTarget_iff (P := P) { target with host := domain }
    rw [encodable_iff hP hname] at hencode
    rw [if_pos hne]
    cases hraw : encodeTarget P { target with host := domain } with
    | error err =>
      have hrefused : ¬∃ raw, encodeTarget P { target with host := domain } = .ok raw := by
        rintro ⟨raw, h⟩
        rw [hraw] at h
        cases h
      exact iff_of_false nofun fun hunder => hrefused (hencode.mpr ⟨hport, hunder⟩)
    | ok raw => exact iff_of_true rfl (hencode.mp ⟨raw, hraw⟩).2

variable [DecidableEq Addr] {unpack : Str → Option (DNSMessage Addr)}

section Conditions

variable (P : Platform Addr) (unpack : Str → Option (DNSMessage Addr)) (cache : DNSCache Addr) (now : ℕ) (address : Addr)
  (port : UInt16) (writes : List Str)

/-- the name a DNS answer gave the address -/
def attributedName : Option Str := (cache.domainFor P now (P.unmap address)).2

/-- a TCP flow is not refused, neither at once nor when its first flight is known -/
def TCPUnbroken : Prop :=
  match dialContext P cache now address port with
  | .error _ => False
  | .ok (.opened _) => True
  | .ok (.deferred conn) => (conn.run P writes).openErr = none

/-- a UDP flow is not refused, and each datagram comes from its address -/
def UDPUnbroken : Prop :=
  match dialUDP P cache now address port with
  | .error _ => False
  | .ok conn => ∀ cache' now' payload room,
      (readFrom P unpack cache' now' conn payload room).2.source = some (P.unmap address, port)

/-- the name chosen for a TCP flow has no underscore -/
def TCPHarmless : Prop :=
  match attributedName P cache now address with
  | some name => underscore ∉ name
  | none => port = 80 ∨ port = 443 → ∀ name,
      Chunks.answer (DeferredConn.decided P) firstFlightMaximumBytes [] [] writes = some name → underscore ∉ name

/-- a UDP flow has no name, or one that spells its address -/
def UDPHarmless : Prop :=
  match attributedName P cache now address with
  | some name => ∃ written, P.parseAddr name = some written ∧ P.unmap written = P.unmap address
  | none => True

/-- the numeric target of a destination -/
def numericTarget : Target := ⟨P.addrString address, port⟩

/-- the host is the name or the address -/
theorem attributedHost_eq : attributedHost P cache now address = match attributedName P cache now address with
    | some name => (name, true)
    | none => (P.addrString address, false) := rfl

end Conditions

theorem attributedName_isName (hcache : cache.Canonical) {now : ℕ}
    (h : attributedName P cache now address = some name) : IsName name :=
  (domainFor_canonical hcache now (P.unmap address)).2 name h

theorem tcp_iff (hP : P.Lawful) (hcache : cache.Canonical) {port : UInt16}
    (hdest : ValidDestination P address port) (hnumeric : ∃ raw, encodeTarget P (numericTarget P address port) = .ok raw) (now : ℕ)
    (writes : List Str) : TCPUnbroken P cache now address port writes ↔ TCPHarmless P cache now address port writes := by
  unfold TCPUnbroken TCPHarmless dialContext
  rw [if_neg (not_not.mpr hdest), attributedHost_eq]
  cases hname : attributedName P cache now address with
  | some name =>
    have hencode := encodeTarget_iff (P := P) ⟨name, port⟩
    rw [encodable_iff hP (attributedName_isName hcache hname)] at hencode
    simp only [Bool.not_true, Bool.false_and, Bool.false_eq_true, if_false]
    cases hraw : encodeTarget P ⟨name, port⟩ with
    | error err =>
      have hrefused : ¬∃ raw, encodeTarget P ⟨name, port⟩ = .ok raw := by
        rintro ⟨raw, h⟩
        rw [hraw] at h
        cases h
      exact iff_of_false id fun hunder => hrefused (hencode.mpr ⟨hdest.2.2, hunder⟩)
    | ok raw => exact iff_of_true trivial (hencode.mp ⟨raw, hraw⟩).2
  | none =>
    by_cases hport : port = 80 ∨ port = 443
    · have hsniff : (!false && (port == 80 || port == 443)) = true := by simpa using hport
      simp only [hsniff, if_true]
      have hflight := deferred_iff hP hnumeric writes
      exact ⟨fun h _ => hflight.mp h, fun h => hflight.mpr (h hport)⟩
    · have hsniff : ¬(!false && (port == 80 || port == 443)) = true := by simpa using hport
      obtain ⟨raw, hraw⟩ := hnumeric
      have hraw' : encodeTarget P ⟨P.addrString address, port⟩ = .ok raw := hraw
      simp only [if_neg hsniff, hraw']
      exact iff_of_true trivial fun h => absurd h hport

/-- the source of a datagram is the fixed target read as an address -/
theorem readFrom_source (cache : DNSCache Addr) (now : ℕ) (conn : UDPConn Addr) (payload : Str) (room : ℕ) :
    (readFrom P unpack cache now conn payload room).2.source =
      (P.parseAddr conn.fixed.host).map fun address => (P.unmap address, conn.fixed.port) := by
  unfold readFrom
  cases P.parseAddr conn.fixed.host with
  | none => rfl
  | some address =>
    simp only
    split <;> rfl

theorem udp_iff (hP : P.Lawful) (hcache : cache.Canonical) {port : UInt16}
    (hdest : ValidDestination P address port) (hnumeric : ∃ raw, encodeTarget P (numericTarget P address port) = .ok raw) (now : ℕ) :
    UDPUnbroken P unpack cache now address port ↔ UDPHarmless P cache now address := by
  unfold UDPUnbroken UDPHarmless dialUDP
  rw [if_neg (not_not.mpr hdest), attributedHost_eq]
  cases hname : attributedName P cache now address with
  | none =>
    obtain ⟨raw, hraw⟩ := (encodeOpenRequest_iff .udpFixed _).mpr hnumeric
    have hraw' : encodeOpenRequest P .udpFixed ⟨P.addrString address, port⟩ = .ok raw := hraw
    simp only [hraw', iff_true]
    intro cache' now' payload room
    rw [readFrom_source]
    rw [hP.parse_string address hdest.1]
    rfl
  | some name =>
    have hencode := (encodeOpenRequest_iff (P := P) .udpFixed ⟨name, port⟩).trans (encodeTarget_iff ⟨name, port⟩)
    simp only
    constructor
    · intro h
      cases hraw : encodeOpenRequest P .udpFixed ⟨name, port⟩ with
      | error err =>
        rw [hraw] at h
        exact h.elim
      | ok raw =>
        rw [hraw] at h
        have hsource := h newDNSAttribution 0 [] 0
        rw [readFrom_source] at hsource
        obtain ⟨written, hparse, hpair⟩ := Option.map_eq_some_iff.mp hsource
        exact ⟨written, hparse, (Prod.mk.inj hpair).1⟩
    · rintro ⟨written, hparse, hsame⟩
      -- a name that parses is encoded: it has no zone
      have hpercent : percent ∉ name := fun hmem => ((attributedName_isName hcache hname).byte hmem).2.2 rfl
      have hhost : EncodableHost P name := by
        unfold EncodableHost
        rw [hparse]
        exact hP.zone_percent name written hparse hpercent
      obtain ⟨raw, hraw⟩ := hencode.mpr ⟨hdest.2.2, hhost⟩
      rw [hraw]
      intro cache' now' payload room
      rw [readFrom_source]
      rw [hparse, Option.map_some, hsame]

/-- **Which flows behave like the numeric ones, in every cache the tunnel can reach.** -/
theorem unbroken_iff (hP : P.Lawful) (unpack : Str → Option (DNSMessage Addr)) (ops : List (Op Addr)) {address : Addr}
    {port : UInt16} (hdest : ValidDestination P address port)
    (hnumeric : ∃ raw, encodeTarget P (numericTarget P address port) = .ok raw) (now : ℕ) (writes : List Str) :
    let cache := Machine.run (step P unpack) newDNSAttribution ops
    (TCPUnbroken P cache now address port writes ↔ TCPHarmless P cache now address port writes) ∧
      (UDPUnbroken P unpack cache now address port ↔ UDPHarmless P cache now address) :=
  ⟨tcp_iff hP (run_canonical ops) hdest hnumeric now writes, udp_iff hP (run_canonical ops) hdest hnumeric now⟩

end Flows

theorem example_numeric : ∃ raw, encodeTarget asciiPlatform (numericTarget asciiPlatform [192, 0, 2, 7] 443) = .ok raw :=
  ⟨[1, 0x24, 192, 0, 2, 7, 1, 187], by decide⟩

theorem unbroken_example : TCPUnbroken asciiPlatform exampleCache 2 [192, 0, 2, 7] 443 [] := by
  have hname : attributedName asciiPlatform exampleCache 2 [192, 0, 2, 7] = some (ascii "example.com") := by decide
  have hharmless : TCPHarmless asciiPlatform exampleCache 2 [192, 0, 2, 7] 443 [] := by
    rw [TCPHarmless, hname]
    decide
  exact (unbroken_iff asciiPlatform_lawful exampleUnpack exampleLookup (by decide) example_numeric 2 []).1.mpr hharmless

/-- the name of its address is the fixed target of a UDP flow, and no address can be read from it -/
theorem attributed_udp_broken : ¬∀ (Addr : Type) (_ : DecidableEq Addr) (P : Platform Addr) (unpack : Str → Option (DNSMessage Addr)),
    P.Lawful → ∀ (ops : List (DNSCache.Op Addr)) (address : Addr) (port : UInt16), ValidDestination P address port →
      (∃ raw, encodeTarget P (numericTarget P address port) = .ok raw) → ∀ (now : ℕ) (writes : List Str),
        TCPUnbroken P (Machine.run (DNSCache.step P unpack) newDNSAttribution ops) now address port writes ∧
          UDPUnbroken P unpack (Machine.run (DNSCache.step P unpack) newDNSAttribution ops) now address port := by
  intro h
  have hudp : UDPUnbroken asciiPlatform exampleUnpack exampleCache 2 [192, 0, 2, 7] 443 :=
    (h _ inferInstance asciiPlatform exampleUnpack asciiPlatform_lawful exampleLookup _ _ (by decide) example_numeric 2 []).2
  have hdial : dialUDP asciiPlatform exampleCache 2 [192, 0, 2, 7] 443 =
      .ok ⟨⟨ascii "example.com", 443⟩, ([192, 0, 2, 7], 443), false⟩ := by rfl
  rw [UDPUnbroken, hdial] at hudp
  have hsource := hudp newDNSAttribution 2 [1] 1
  exact absurd hsource (by decide)

end NeProto.Tunstack
