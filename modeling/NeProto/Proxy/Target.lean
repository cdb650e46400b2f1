/-
Stream targets and their encoding (`internal/proxy/target.go`).

`dnsName` is the grammar of host names with a parameter for the further bytes a label may hold: the encoder allows none,
the name attribution of the tunnel allows underscores.

- `normalizeTarget`, `encodeTarget`, `encodeOpenRequest`: the encodings of a target for a TCP stream and for a fixed UDP association.
- `encodeTarget_iff`: which targets are encoded.
- `encodeTarget_kind`: an address and a name never have the same encoding.
- `decodeTarget_encodeTarget`: a target reads back normalised, unless it is a name that only stripping its dot turns into an address.
Left out: the commands that carry more than a target.
-/
import NeProto.Lib.Bytes
import NeProto.Lib.Varint

namespace NeProto.Proxy

open List

/-! ## Host names -/

/-- a label of a host name, with `extra` allowed besides letters, digits and hyphens -/
def dnsLabel (extra : UInt8 → Bool) (label : Str) : Bool :=
  decide (label ≠ [] ∧ label.length ≤ 63 ∧ label.head? ≠ some hyphen ∧ label.getLast? ≠ some hyphen) &&
    label.all fun b => isLower b || isDigit b || b == hyphen || extra b

def maxDomainLength : ℕ := 253

/-- labels between dots -/
def dnsName (extra : UInt8 → Bool) (name : Str) : Bool :=
  decide (name ≠ [] ∧ name.length ≤ maxDomainLength) && (name.splitOn dot).all (dnsLabel extra)

def validDomain : Str → Bool := dnsName fun _ => false

variable {extra : UInt8 → Bool} {name : Str}

section

variable (h : dnsName extra name = true)
include h

/-- the bytes of a name -/
theorem dnsName_bytes {b : UInt8} (hb : b ∈ name) : b = dot ∨ isLower b ∨ isDigit b ∨ b = hyphen ∨ extra b := by
  by_cases hdot : b = dot
  · exact .inl hdot
  obtain ⟨label, hlabel, hmem⟩ := (mem_splitOn hdot name).mp hb
  rw [dnsName, Bool.and_eq_true, all_eq_true] at h
  have hvalid := h.2 label hlabel
  rw [dnsLabel, Bool.and_eq_true, all_eq_true] at hvalid
  have hbyte := hvalid.2 b hmem
  simp only [Bool.or_eq_true, beq_iff_eq] at hbyte
  tauto

/-- the last byte of a name is not a dot: the label behind it would be empty -/
theorem dnsName_getLast : name.getLast? ≠ some dot := by
  intro hlast
  obtain ⟨front, rfl⟩ := List.getLast?_eq_some_iff.mp hlast
  rw [dnsName, Bool.and_eq_true, all_eq_true] at h
  have hempty : ([] : Str) ∈ (front ++ [dot]).splitOn dot := by
    rw [List.splitOn, splitOnP_append_cons (p := (· == dot)) front [] (beq_self_eq_true dot)]
    exact mem_append_right _ (by simp)
  have hlabel := h.2 [] hempty
  exact absurd hlabel (by simp [dnsLabel])

/-- the two grammars differ in the extra bytes only -/
theorem validDomain_iff (hextra : ∀ b, extra b → ¬isLower b ∧ ¬isDigit b ∧ b ≠ hyphen ∧ b ≠ dot) :
    validDomain name = true ↔ ∀ b ∈ name, ¬extra b := by
  constructor
  · intro hvalid b hb hex
    obtain ⟨hl, hd, hh, hdot⟩ := hextra b hex
    obtain h | h | h | h | h := dnsName_bytes hvalid hb
    · exact hdot h
    · exact hl h
    · exact hd h
    · exact hh h
    · cases h
  · intro hnone
    rw [dnsName, Bool.and_eq_true, all_eq_true] at h
    rw [validDomain, dnsName, Bool.and_eq_true, all_eq_true]
    refine ⟨h.1, fun label hlabel => ?_⟩
    have hvalid := h.2 label hlabel
    rw [dnsLabel, Bool.and_eq_true, all_eq_true] at hvalid ⊢
    refine ⟨hvalid.1, fun b hb => ?_⟩
    have hbyte := hvalid.2 b hb
    have hex : ¬extra b := by
      intro hex
      have hdot := (hextra b hex).2.2.2
      exact hnone b ((mem_splitOn hdot name).mpr ⟨label, hlabel, hb⟩) hex
    simpa [hex] using hbyte

end

/-! ## Targets -/

structure Target where
  host : Str
  port : UInt16
deriving DecidableEq

inductive TargetError where
  | invalidTarget
deriving DecidableEq

def targetNetworkTCP : UInt8 := 0x01

def targetDomain : UInt8 := 0x11

def targetIPv4 : UInt8 := 0x24

def targetIPv6 : UInt8 := 0x36

/-- the commands whose request is a target and nothing else -/
inductive OpenCommand where
  | tcpConnect
  | udpFixed

section Encoding

variable {Addr : Type} (P : Platform Addr)

def normalizeTarget (target : Target) : Except TargetError (Target × Option Addr) :=
  if target.port = 0 then .error .invalidTarget
  else match P.parseAddr target.host with
    | some address =>
      if P.zone address ≠ [] then .error .invalidTarget
      else .ok (⟨P.addrString (P.unmap address), target.port⟩, some (P.unmap address))
    | none =>
      let host := P.toLower (trimSuffix target.host dot)
      if validDomain host then .ok (⟨host, target.port⟩, none) else .error .invalidTarget

/-- the kind of an address and its bytes -/
def encodeAddress (address : Addr) : Str :=
  if P.is4 address then targetIPv4 :: P.asSlice address else targetIPv6 :: P.asSlice address

/-- an address, or the name -/
def encodeHost (host : Str) : Option Addr → Str
  | some address => encodeAddress P (P.unmap address)
  | none => targetDomain :: (appendUvarint host.length ++ host)

def encodeTarget (target : Target) : Except TargetError Str :=
  match normalizeTarget P target with
  | .error err => .error err
  | .ok (normalized, address) =>
    .ok (targetNetworkTCP :: (encodeHost P normalized.host address ++ Bytes.putUint 2 normalized.port.toNat))

def encodeOpenRequest (command : OpenCommand) (target : Target) : Except TargetError Str :=
  if target = ⟨[], 0⟩ then .error .invalidTarget
  else match command with
    | .tcpConnect => encodeTarget P target
    -- the first byte of a target is its network, here it names the command
    | .udpFixed => (encodeTarget P target).map fun raw => 0x02 :: raw.tail

/-- the host of a target and the bytes behind it -/
def decodeHost (kind : UInt8) (rest : Str) : Option (Str × Str) :=
  if kind = targetDomain then
    match readCanonicalUvarint rest with
    | none => none
    | some (length, rest) =>
      if length = 0 ∨ maxDomainLength < length ∨ rest.length < length + 2 then none else some (rest.take length, rest.drop length)
  else if kind = targetIPv4 then
    if rest.length < 6 then none else some (P.addrString (P.addrFrom (rest.take 4)), rest.drop 4)
  else if kind = targetIPv6 then
    if rest.length < 18 then none else some (P.addrString (P.addrFrom (rest.take 16)), rest.drop 16)
  else none

def decodeTarget (raw : Str) : Except TargetError Target :=
  match raw with
  | network :: kind :: rest =>
    if network ≠ targetNetworkTCP then .error .invalidTarget
    else match decodeHost P kind rest with
      | none => .error .invalidTarget
      | some (host, port) =>
        if port.length ≠ 2 then .error .invalidTarget
        else
          let target : Target := ⟨host, UInt16.ofNat (Bytes.uint port)⟩
          match normalizeTarget P target with
          | .error err => .error err
          | .ok (normalized, address) =>
            -- the kind says whether the host is an address
            if normalized ≠ target ∨ (kind == targetDomain) = address.isSome then .error .invalidTarget else .ok target
  | _ => .error .invalidTarget

variable {P}

/-- an address without a zone, or a valid domain -/
def EncodableHost (P : Platform Addr) (host : Str) : Prop :=
  match P.parseAddr host with
  | some address => P.zone address = []
  | none => validDomain (P.toLower (trimSuffix host dot)) = true

variable {target normalized : Target} {address : Option Addr} {port : Str}

/-- **Which targets are encoded.** -/
theorem encodeTarget_iff (target : Target) :
    (∃ raw, encodeTarget P target = .ok raw) ↔ target.port ≠ 0 ∧ EncodableHost P target.host := by
  unfold encodeTarget normalizeTarget EncodableHost
  by_cases hport : target.port = 0
  · simp [hport]
  cases P.parseAddr target.host with
  | some address => by_cases hzone : P.zone address = [] <;> simp [hport, hzone]
  | none => by_cases hvalid : validDomain (P.toLower (trimSuffix target.host dot)) = true <;> simp [hport, hvalid]

theorem encodeOpenRequest_iff (command : OpenCommand) (target : Target) :
    (∃ raw, encodeOpenRequest P command target = .ok raw) ↔ ∃ raw, encodeTarget P target = .ok raw := by
  unfold encodeOpenRequest
  by_cases hzero : target = ⟨[], 0⟩
  · have hbad : ¬∃ raw, encodeTarget P target = .ok raw := by
      rw [encodeTarget_iff, hzero]
      simp
    rw [if_pos hzero]
    exact iff_of_false (by simp) hbad
  · rw [if_neg hzero]
    cases command with
    | tcpConnect => rfl
    | udpFixed => cases encodeTarget P target <;> simp [Except.map]

/-- **The second byte tells a name from an address.** -/
theorem encodeTarget_kind {raw : Str} (h : encodeTarget P target = .ok raw) :
    raw[1]? = some targetDomain ↔ P.parseAddr target.host = none := by
  unfold encodeTarget normalizeTarget at h
  split at h
  · cases h
  rename_i hn
  obtain rfl := Except.ok.inj h
  split at hn
  · cases hn
  split at hn
  · next address haddr =>
    split at hn
    · cases hn
    cases hn
    have hne : targetIPv4 ≠ targetDomain ∧ targetIPv6 ≠ targetDomain := by decide
    simp only [encodeHost, encodeAddress, haddr, reduceCtorEq, iff_false]
    split <;> simp [hne]
  · next haddr =>
    simp only at hn
    split at hn
    · cases hn
      simp [haddr, encodeHost]
    · cases hn

/-- what a normalised target is -/
inductive Normalized (P : Platform Addr) (target : Target) : Target → Option Addr → Prop
  | address (hport : target.port ≠ 0) (a : Addr) (hparse : P.parseAddr target.host = some a) (hzone : P.zone a = []) :
      Normalized P target ⟨P.addrString (P.unmap a), target.port⟩ (some (P.unmap a))
  | domain (hport : target.port ≠ 0) (host : Str) (hvalid : validDomain host = true) : Normalized P target ⟨host, target.port⟩ none

theorem normalizeTarget_ok
    (h : normalizeTarget P target = .ok (normalized, address)) : Normalized P target normalized address := by
  unfold normalizeTarget at h
  split at h
  · cases h
  rename_i hport
  split at h
  · next a hparse =>
    split at h
    · cases h
    rename_i hzone
    cases h
    exact .address hport a hparse (not_not.mp hzone)
  · simp only at h
    split at h
    · next hvalid =>
      cases h
      exact .domain hport _ hvalid
    · cases h

/-- the bytes of a valid domain are lower-case ASCII -/
theorem validDomain_lower {host : Str} (h : validDomain host = true) : ∀ b ∈ host, b < 128 ∧ isUpper b = false := by
  intro b hb
  have hall : ∀ n : Fin 256, UInt8.ofFin n = dot ∨ isLower (UInt8.ofFin n) ∨ isDigit (UInt8.ofFin n) ∨ UInt8.ofFin n = hyphen ∨
      false = true → UInt8.ofFin n < 128 ∧ isUpper (UInt8.ofFin n) = false := by
    decide +kernel
  exact hall b.toFin (dnsName_bytes h hb)

/-- a normalised target is normal -/
theorem normalizeTarget_again (hP : P.Lawful)
    (h : Normalized P target normalized address) (hkind : address = none → P.parseAddr normalized.host = none) :
    normalizeTarget P normalized = .ok (normalized, address) := by
  cases h with
  | address hport a hparse hzone =>
    have hvalid := hP.unmap_valid a (hP.parse_valid _ a hparse)
    unfold normalizeTarget
    rw [if_neg hport, hP.parse_string _ hvalid]
    simp only [hP.unmap_zone a hzone, hP.unmap_unmap, ne_eq, not_true_eq_false, if_false]
  | domain hport host hvalid =>
    have htrim : trimSuffix host dot = host := if_neg (dnsName_getLast hvalid)
    unfold normalizeTarget
    rw [if_neg hport, hkind rfl]
    simp only [htrim, hP.toLower_lower host (validDomain_lower hvalid), hvalid, if_true]

/-- two bytes hold a port -/
theorem uint_port (port : UInt16) : UInt16.ofNat (Bytes.uint (Bytes.putUint 2 port.toNat)) = port := by
  have hlt := port.toNat_lt
  rw [Bytes.uint_putUint, Nat.mod_eq_of_lt (by omega), UInt16.ofNat_toNat]

/-- an address reads back from its bytes in front of the port -/
theorem decodeHost_address (hP : P.Lawful) {a : Addr} (hvalid : P.isValid a = true) (hzone : P.zone a = [])
    (hport : port.length = 2) :
    ∃ kind host, encodeAddress P a = kind :: host ∧ decodeHost P kind (host ++ port) = some (P.addrString a, port) ∧
      (kind == targetDomain) = false := by
  have hlength := hP.slice_length a hvalid
  have hslice := hP.from_slice a hvalid hzone
  unfold encodeAddress
  by_cases h4 : P.is4 a = true
  · rw [if_pos h4] at hlength ⊢
    refine ⟨targetIPv4, P.asSlice a, rfl, ?_, by decide⟩
    rw [decodeHost, if_neg (by decide), if_pos rfl, if_neg (by rw [length_append]; omega),
      take_append_of_le_length (by omega), take_of_length_le (by omega), hslice, drop_left' hlength]
  · rw [if_neg h4] at hlength ⊢
    refine ⟨targetIPv6, P.asSlice a, rfl, ?_, by decide⟩
    rw [decodeHost, if_neg (by decide), if_neg (by decide), if_pos rfl, if_neg (by rw [length_append]; omega),
      take_append_of_le_length (by omega), take_of_length_le (by omega), hslice, drop_left' hlength]

/-- a name reads back in front of the port -/
theorem decodeHost_domain {host : Str} (hvalid : validDomain host = true) (hport : port.length = 2) :
    decodeHost P targetDomain (appendUvarint host.length ++ host ++ port) = some (host, port) := by
  have hbound : host ≠ [] ∧ host.length ≤ maxDomainLength := of_decide_eq_true (Bool.and_eq_true_iff.mp hvalid).1
  have hpos := length_pos_iff.mpr hbound.1
  have hmax : maxDomainLength < 2 ^ 63 := by decide
  rw [decodeHost, if_pos rfl, append_assoc, readCanonicalUvarint_append (hbound.2.trans_lt hmax)]
  simp only
  rw [if_neg (by rw [length_append]; omega), take_left' rfl, drop_left' rfl]

/-- the host reads back from what the encoder writes in front of the port -/
theorem decodeHost_encodeHost (hP : P.Lawful) (h : Normalized P target normalized address) (hport : port.length = 2) :
    ∃ kind host, encodeHost P normalized.host address = kind :: host ∧
      decodeHost P kind (host ++ port) = some (normalized.host, port) ∧ (kind == targetDomain) = address.isNone := by
  cases h with
  | address _ a hparse hzone =>
    have hvalid := hP.unmap_valid a (hP.parse_valid _ a hparse)
    have hread := decodeHost_address hP hvalid (hP.unmap_zone a hzone) hport
    rw [encodeHost, hP.unmap_unmap]
    exact hread
  | domain _ host hvalid => exact ⟨targetDomain, appendUvarint host.length ++ host, rfl, decodeHost_domain hvalid hport, rfl⟩

/-- **A target reads back normalised**, unless it is a name that turns into an address without its dot. -/
theorem decodeTarget_encodeTarget (hP : P.Lawful) {raw : Str}
    (h : normalizeTarget P target = .ok (normalized, address)) (hkind : address = none → P.parseAddr normalized.host = none)
    (hraw : encodeTarget P target = .ok raw) : decodeTarget P raw = .ok normalized := by
  have hnormal := normalizeTarget_ok h
  obtain ⟨kind, host, hhost, hdecode, hname⟩ := decodeHost_encodeHost hP hnormal (Bytes.length_putUint 2 normalized.port.toNat)
  unfold encodeTarget at hraw
  rw [h] at hraw
  obtain rfl := Except.ok.inj hraw
  rw [hhost, cons_append, decodeTarget]
  rw [hdecode]
  simp only [Bytes.length_putUint, ne_eq, not_true_eq_false, if_false, uint_port, normalizeTarget_again hP hnormal hkind, hname]
  cases address <;> simp

end Encoding

end NeProto.Proxy
