/-
Choosing a stream's target from its first bytes (`internal/tunstack/first_flight.go`, `deferred_conn.go`).

A connection to port 80 or 443 whose address no DNS answer explains is not opened at once: `Write` collects what the client sends
until the server name of a TLS hello or the Host header of a request is known, and opens the stream to that name, or to the numeric
address. An offset into a slice is modelled by the rest of the slice from it. Timer and close are not used here: no timeout fires.

- `inspectFirstFlight`: the inspector, TLS and HTTP.
- `DeferredConn.write`: one `Write`; `stream` is the metadata handed to the opener, `sent` the bytes behind it.
- `run_outcome`: a run of writes is a run of `Chunks.answer` over `decided`.
- `decided_stable`: a decision made on a TLS record, or behind the first line, is kept by every longer string.
- `segmentation_iff`: when every cut of a byte string hands the same target to the opener.
- `oversized_write_numeric`: a request of more than 16 KiB in one write goes to the address, in two writes to its host.
-/
import NeProto.Lib.Chunks
import NeProto.Proxy.Target

namespace NeProto.Tunstack

open Chunks List

open Proxy (Target dnsName encodeTarget EncodableHost encodeTarget_iff encodeTarget_kind targetDomain)

/-! ## The inspector -/

def firstFlightMaximumBytes : ℕ := 16384

inductive FirstFlightDecision where
  | needMore
  | useNumeric
  | useDomain
deriving DecidableEq

def needMore : Str × FirstFlightDecision := ([], .needMore)

def useNumeric : Str × FirstFlightDecision := ([], .useNumeric)

def crlf : Str := [13, 10]

section Inspect

variable {Addr : Type} (P : Platform Addr)

def canonicalDNSName (value : Str) : Option Str :=
  let value := P.toLower (trimSuffix (P.trimSpace value) dot)
  if dnsName (· == underscore) value then some value else none

/-- a name is used when it is canonical and no address -/
def nameDecision (value : Str) : Str × FirstFlightDecision :=
  match canonicalDNSName P value with
  | none => useNumeric
  | some name => if P.parseIP name then useNumeric else (name, .useDomain)

/-- the loop of `inspectServerNameExtension` -/
def inspectServerNames : Str → Str × FirstFlightDecision
  | nameType :: l1 :: l2 :: rest =>
    let nameLength := Bytes.uint [l1, l2]
    if nameLength = 0 ∨ rest.length < nameLength then useNumeric
    else if nameType = 0 then nameDecision P (rest.take nameLength)
    else inspectServerNames (rest.drop nameLength)
  | _ => useNumeric
termination_by names => names.length

def inspectServerNameExtension (extension : Str) : Str × FirstFlightDecision :=
  if extension.length < 5 ∨ Bytes.uint (extension.take 2) ≠ extension.length - 2 then useNumeric
  else inspectServerNames P (extension.drop 2)

/-- the loop of `inspectTLSClientHello` over the extensions -/
def inspectExtensions : Str → Str × FirstFlightDecision
  | t1 :: t2 :: l1 :: l2 :: rest =>
    let extensionLength := Bytes.uint [l1, l2]
    if rest.length < extensionLength then useNumeric
    else if Bytes.uint [t1, t2] = 0 then inspectServerNameExtension P (rest.take extensionLength)
    else inspectExtensions (rest.drop extensionLength)
  | _ => useNumeric
termination_by extensions => extensions.length

/-- the part of `inspectTLSClientHello` behind the compression methods -/
def inspectHelloExtensions : Str → Str × FirstFlightDecision
  | l1 :: l2 :: extensions => if Bytes.uint [l1, l2] ≠ extensions.length then useNumeric else inspectExtensions P extensions
  | _ => useNumeric

/-- the part of `inspectTLSClientHello` behind the cipher suites -/
def inspectCompression : Str → Str × FirstFlightDecision
  | [] => useNumeric
  | compressionLength :: rest =>
    if compressionLength.toNat < 1 ∨ rest.length < compressionLength.toNat then useNumeric
    else inspectHelloExtensions P (rest.drop compressionLength.toNat)

/-- the part of `inspectTLSClientHello` behind the session ID -/
def inspectCiphers : Str → Str × FirstFlightDecision
  | l1 :: l2 :: rest =>
    let cipherLength := Bytes.uint [l1, l2]
    if cipherLength < 2 ∨ cipherLength % 2 ≠ 0 ∨ rest.length < cipherLength then useNumeric
    else inspectCompression P (rest.drop cipherLength)
  | _ => useNumeric

/-- the part of `inspectTLSClientHello` behind version and random -/
def inspectSession : Str → Str × FirstFlightDecision
  | [] => useNumeric
  | sessionLength :: rest =>
    if rest.length < sessionLength.toNat then useNumeric else inspectCiphers P (rest.drop sessionLength.toNat)

/-- the part of `inspectTLSClientHello` inside the record -/
def inspectHandshake : Str → Str × FirstFlightDecision
  | kind :: l1 :: l2 :: l3 :: rest =>
    let handshakeLength := Bytes.uint [l1, l2, l3]
    if kind ≠ 1 ∨ handshakeLength < 38 ∨ rest.length < handshakeLength then useNumeric
    else inspectSession P ((rest.take handshakeLength).drop 34)
  | _ => useNumeric

def inspectTLSClientHello : Str → Str × FirstFlightDecision
  | b0 :: b1 :: _ :: l1 :: l2 :: rest =>
    let recordLength := Bytes.uint [l1, l2]
    if b0 ≠ 0x16 ∨ b1 ≠ 3 then useNumeric
    else if recordLength < 4 ∨ firstFlightMaximumBytes - 5 < recordLength then useNumeric
    else if rest.length < recordLength then needMore
    else inspectHandshake P (rest.take recordLength)
  | _ => needMore

def httpMethods : List Str :=
  [ascii "GET", ascii "HEAD", ascii "POST", ascii "PUT", ascii "DELETE", ascii "OPTIONS", ascii "PATCH", ascii "CONNECT"]

def isHTTPMethod (value : Str) : Bool := httpMethods.contains value

def couldBeHTTPPrefix (payload : Str) : Bool :=
  let upper := P.toUpper payload
  httpMethods.any fun method => upper.isPrefixOf (method ++ ascii " ") || (method ++ ascii " ").isPrefixOf upper

/-- three fields, a method and a version of HTTP/1 -/
def validRequestLine (requestLine : Str) : Bool :=
  match P.fields requestLine with
  | [method, _, version] => isHTTPMethod method && (ascii "HTTP/1.").isPrefixOf version
  | _ => false

/-- the host of a Host header's value -/
def hostOf (value : Str) : Str :=
  let host := P.trimSpace value
  match P.splitHostPort host with
  | some (parsedHost, _) => parsedHost
  | none => trimSuffix host colon

/-- the loop of `inspectHTTPHost` over the header lines -/
def inspectHeaders : List Str → Str × FirstFlightDecision
  | [] => useNumeric
  | line :: lines =>
    match cut [colon] line with
    | none => inspectHeaders lines
    | some (name, value) =>
      if P.equalFold (P.trimSpace name) (ascii "host") then nameDecision P (hostOf P value) else inspectHeaders lines

def inspectHTTPHost (payload : Str) : Str × FirstFlightDecision :=
  if firstFlightMaximumBytes < payload.length then useNumeric
  else match index crlf payload with
    | none => if couldBeHTTPPrefix P payload then needMore else useNumeric
    | some lineEnd =>
      if !validRequestLine P (payload.take lineEnd) then useNumeric
      else
        let rest := payload.drop (lineEnd + 2)
        match index (crlf ++ crlf) rest with
        | none => needMore
        | some headersEnd => inspectHeaders P (split crlf (rest.take headersEnd))

def inspectFirstFlight (payload : Str) : Str × FirstFlightDecision :=
  match payload.head? with
  | none => needMore
  | some first => if first = 0x16 then inspectTLSClientHello P payload else inspectHTTPHost P payload

end Inspect

/-! ## The deferred connection -/

inductive ConnError where
  | closed
  | invalidMetadata

structure DeferredConn where
  target : Target
  pending : Str
  /-- the metadata handed to the opener -/
  stream : Option Str
  /-- what the stream was given -/
  sent : Str
  openErr : Option ConnError
  closed : Bool

def newDeferredStreamConn (target : Target) : DeferredConn := ⟨target, [], none, [], none, false⟩

namespace DeferredConn

variable {Addr : Type} (P : Platform Addr)

/-- the target for a domain, the numeric one if it is empty -/
def targetFor (target : Target) (domain : Str) : Target := if domain ≠ [] then { target with host := domain } else target

variable (c : DeferredConn)

/-- `openLocked`; the opener and the copy of the pending bytes succeed -/
def openLocked (domain : Str) : DeferredConn × Option ConnError :=
  if c.closed then (c, some .closed)
  else if c.stream.isSome then (c, none)
  else if c.openErr.isSome then (c, c.openErr)
  else match encodeTarget P (targetFor c.target domain) with
    | .error _ => ({ c with openErr := some .invalidMetadata }, some .invalidMetadata)
    | .ok metadata => ({ c with stream := some metadata, sent := c.pending, pending := [] }, none)

def write (payload : Str) : DeferredConn × Except ConnError ℕ :=
  if c.closed then (c, .error .closed)
  else match c.openErr with
    | some err => (c, .error err)
    | none =>
      if c.stream.isSome then ({ c with sent := c.sent ++ payload }, .ok payload.length)
      else if firstFlightMaximumBytes - c.pending.length < payload.length then
        match c.openLocked P [] with
        | (c, some err) => (c, .error err)
        | (c, none) => ({ c with sent := c.sent ++ payload }, .ok payload.length)
      else
        let c := { c with pending := c.pending ++ payload }
        let (domain, decision) := inspectFirstFlight P c.pending
        if decision = .needMore ∧ c.pending.length < firstFlightMaximumBytes then (c, .ok payload.length)
        else match c.openLocked P (if decision ≠ .useDomain then [] else domain) with
          | (c, some err) => (c, .error err)
          | (c, none) => (c, .ok payload.length)

/-- the writes of a client, one after the other -/
def run (writes : List Str) : DeferredConn := writes.foldl (fun c payload => (c.write P payload).1) c

/-! ### A run of writes -/

/-- what the inspector makes of everything that has arrived: a domain, the empty one for the address, none to wait for more -/
def decided (payload : Str) : Option Str :=
  let (domain, decision) := inspectFirstFlight P payload
  if decision = .needMore ∧ payload.length < firstFlightMaximumBytes then none
  else some (if decision ≠ .useDomain then [] else domain)

/-- what opening comes to: the metadata handed to the opener, or the error -/
def opened (target : Target) (domain : Str) : Option Str × Option ConnError :=
  match encodeTarget P (targetFor target domain) with
  | .ok metadata => (some metadata, none)
  | .error _ => (none, some .invalidMetadata)

def metadataFor (target : Target) (domain : Str) : Option Str := (opened P target domain).1

def outcome (c : DeferredConn) : Option Str × Option ConnError := (c.stream, c.openErr)

structure Waiting (c : DeferredConn) : Prop where
  notClosed : c.closed = false
  noStream : c.stream = none
  noError : c.openErr = none

def Settled (c : DeferredConn) : Prop := c.stream.isSome ∨ c.openErr.isSome

variable {P} {c : DeferredConn}

/-- opening a waiting connection asks for the chosen target -/
theorem openLocked_waiting (h : Waiting c) (domain : Str) :
    (c.openLocked P domain).1.outcome = opened P c.target domain ∧ Settled (c.openLocked P domain).1 := by
  simp only [openLocked, h.notClosed, h.noStream, h.noError, opened, outcome, Settled]
  cases encodeTarget P (targetFor c.target domain) <;> simp

theorem write_settled (h : Settled c) (payload : Str) :
    (c.write P payload).1.outcome = c.outcome ∧ Settled (c.write P payload).1 := by
  unfold write
  split
  · exact ⟨rfl, h⟩
  split
  · exact ⟨rfl, h⟩
  rename_i herr
  have hstream : c.stream.isSome := h.resolve_right (by simp [herr])
  rw [if_pos hstream]
  exact ⟨rfl, .inl hstream⟩

theorem run_settled (h : Settled c) (writes : List Str) : (c.run P writes).outcome = c.outcome := by
  induction writes generalizing c with
  | nil => rfl
  | cons payload writes ih =>
    obtain ⟨hout, hsettled⟩ := write_settled (P := P) h payload
    exact (ih hsettled).trans hout

/-- a write that does not fit opens the address -/
theorem write_oversized (h : Waiting c) {payload : Str} (hlen : firstFlightMaximumBytes - c.pending.length < payload.length) :
    (c.write P payload).1.outcome = opened P c.target [] ∧ Settled (c.write P payload).1 := by
  obtain ⟨hout, hsettled⟩ := openLocked_waiting (P := P) h []
  unfold write
  rw [if_neg (by simp [h.notClosed]), h.noError]
  rw [if_neg (by simp [h.noStream]), if_pos hlen]
  rcases hc : c.openLocked P [] with ⟨c', _ | err⟩ <;>
    · rw [hc] at hout hsettled
      exact ⟨hout, hsettled⟩

/-- a write that fits is inspected with what is pending -/
theorem write_inspected (h : Waiting c) {payload : Str} (hlen : ¬firstFlightMaximumBytes - c.pending.length < payload.length) :
    (c.write P payload).1 = match decided P (c.pending ++ payload) with
      | none => { c with pending := c.pending ++ payload }
      | some domain => (openLocked P { c with pending := c.pending ++ payload } domain).1 := by
  unfold write
  rw [if_neg (by simp [h.notClosed]), h.noError]
  rw [if_neg (by simp [h.noStream]), if_neg hlen, decided]
  simp only
  split
  · rfl
  · split <;> next hc => exact (congrArg Prod.fst hc).symm

/-- **A run of writes comes to what the chunks decide on.** -/
theorem run_outcome (h : Waiting c) (writes : List Str) :
    (c.run P writes).outcome = match Chunks.answer (decided P) firstFlightMaximumBytes [] c.pending writes with
      | none => (none, none)
      | some domain => opened P c.target domain := by
  induction writes generalizing c with
  | nil =>
    rw [run, foldl_nil, outcome, h.noStream, h.noError]
    rfl
  | cons payload writes ih =>
    change ((c.write P payload).1.run P writes).outcome = _
    rw [answer]
    by_cases hlen : firstFlightMaximumBytes - c.pending.length < payload.length
    · obtain ⟨hout, hsettled⟩ := write_oversized (P := P) h hlen
      rw [if_pos hlen, run_settled hsettled, hout]
    rw [if_neg hlen]
    have hw : Waiting { c with pending := c.pending ++ payload } := { h with }
    rw [write_inspected h hlen]
    cases hd : decided P (c.pending ++ payload) with
    | none => exact ih hw
    | some domain =>
      obtain ⟨hout, hsettled⟩ := openLocked_waiting (P := P) hw domain
      exact (run_settled hsettled writes).trans hout

end DeferredConn

/-! ## Names -/

section Names

open DeferredConn (decided metadataFor targetFor)

variable {Addr : Type} {P : Platform Addr}

/-- a domain that is used is a name in the grammar of the attribution, and no address -/
def NameOnly (P : Platform Addr) (result : Str × FirstFlightDecision) : Prop :=
  result.2 = .useDomain → dnsName (· == underscore) result.1 = true ∧ P.parseIP result.1 = false

theorem useNumeric_nameOnly : NameOnly P useNumeric := nofun

theorem needMore_nameOnly : NameOnly P needMore := nofun

theorem canonicalDNSName_ok {value name : Str} (h : canonicalDNSName P value = some name) : dnsName (· == underscore) name = true := by
  unfold canonicalDNSName at h
  simp only at h
  split at h
  · next hname =>
    cases h
    exact hname
  · cases h

theorem nameDecision_nameOnly (value : Str) : NameOnly P (nameDecision P value) := by
  unfold nameDecision
  split
  · exact useNumeric_nameOnly
  rename_i name hname
  split
  · exact useNumeric_nameOnly
  · next hip => exact fun _ => ⟨canonicalDNSName_ok hname, by simpa using hip⟩

theorem inspectServerNames_nameOnly (names : Str) : NameOnly P (inspectServerNames P names) := by
  fun_induction inspectServerNames P names with
  | case1 | case4 => exact useNumeric_nameOnly
  | case2 => exact nameDecision_nameOnly _
  | case3 _ _ _ _ _ _ _ ih => exact ih

theorem inspectServerNameExtension_nameOnly (extension : Str) : NameOnly P (inspectServerNameExtension P extension) := by
  unfold inspectServerNameExtension
  split
  · exact useNumeric_nameOnly
  · exact inspectServerNames_nameOnly _

theorem inspectExtensions_nameOnly (extensions : Str) : NameOnly P (inspectExtensions P extensions) := by
  fun_induction inspectExtensions P extensions with
  | case1 | case4 => exact useNumeric_nameOnly
  | case2 => exact inspectServerNameExtension_nameOnly _
  | case3 _ _ _ _ _ _ _ _ ih => exact ih

/-- the fixed part of a hello, field by field -/
theorem inspectHandshake_nameOnly (record : Str) : NameOnly P (inspectHandshake P record) := by
  unfold inspectHandshake inspectSession inspectCiphers inspectCompression inspectHelloExtensions
  simp only
  repeat' split
  all_goals first | exact useNumeric_nameOnly | exact inspectExtensions_nameOnly _

theorem inspectTLSClientHello_nameOnly (payload : Str) : NameOnly P (inspectTLSClientHello P payload) := by
  unfold inspectTLSClientHello
  simp only
  repeat' split
  all_goals first | exact useNumeric_nameOnly | exact needMore_nameOnly | exact inspectHandshake_nameOnly _

theorem inspectHeaders_nameOnly (lines : List Str) : NameOnly P (inspectHeaders P lines) := by
  induction lines with
  | nil => exact useNumeric_nameOnly
  | cons line lines ih =>
    rw [inspectHeaders]
    split
    · exact ih
    split
    · exact nameDecision_nameOnly _
    · exact ih

theorem inspectHTTPHost_nameOnly (payload : Str) : NameOnly P (inspectHTTPHost P payload) := by
  unfold inspectHTTPHost
  simp only
  repeat' split
  all_goals first | exact useNumeric_nameOnly | exact needMore_nameOnly | exact inspectHeaders_nameOnly _

/-- **A domain the inspector gives is a name and no address.** -/
theorem inspectFirstFlight_nameOnly (payload : Str) : NameOnly P (inspectFirstFlight P payload) := by
  unfold inspectFirstFlight
  split
  · exact needMore_nameOnly
  split
  · exact inspectTLSClientHello_nameOnly payload
  · exact inspectHTTPHost_nameOnly payload

/-- what is decided is the address or such a name -/
theorem decided_name {payload domain : Str} (h : decided P payload = some domain) (hne : domain ≠ []) :
    inspectFirstFlight P payload = (domain, .useDomain) ∧ dnsName (· == underscore) domain = true ∧ P.parseIP domain = false := by
  have hname := inspectFirstFlight_nameOnly (P := P) payload
  unfold decided at h
  rcases hi : inspectFirstFlight P payload with ⟨name, decision⟩
  rw [hi] at h hname
  simp only [Option.ite_none_left_eq_some, Option.some.injEq] at h
  obtain ⟨-, hdomain⟩ := h
  split at hdomain
  · exact absurd hdomain.symm hne
  rename_i hdecision
  obtain rfl := hdomain
  obtain rfl := not_not.mp hdecision
  exact ⟨rfl, hname rfl⟩

end Names

/-! ## Longer strings -/

section Stability

open DeferredConn (decided metadataFor targetFor)

variable {Addr : Type} {P : Platform Addr}

variable {b q domain payload : Str} {target : Target}

theorem inspectTLSClientHello_append (h : (inspectTLSClientHello P payload).2 ≠ .needMore) (more : Str) :
    inspectTLSClientHello P (payload ++ more) = inspectTLSClientHello P payload := by
  match payload, h with
  | [], h | [_], h | [_, _], h | [_, _, _], h | [_, _, _, _], h => exact absurd rfl h
  | b0 :: b1 :: b2 :: l1 :: l2 :: rest, h =>
    simp only [cons_append, inspectTLSClientHello] at h ⊢
    split
    · rfl
    rename_i hb
    rw [if_neg hb] at h
    split
    · rfl
    rename_i hlen
    rw [if_neg hlen] at h
    have hall : ¬rest.length < Bytes.uint [l1, l2] := by
      intro hshort
      rw [if_pos hshort] at h
      exact h rfl
    have hmore : ¬(rest ++ more).length < Bytes.uint [l1, l2] := by
      rw [length_append]
      omega
    rw [if_neg hall, if_neg hmore, take_append_of_le_length (by omega)]

theorem inspectHTTPHost_append {lineEnd : ℕ} (hline : index crlf payload = some lineEnd)
    (h : (inspectHTTPHost P payload).2 ≠ .needMore) {more : Str} (hlen : (payload ++ more).length ≤ firstFlightMaximumBytes) :
    inspectHTTPHost P (payload ++ more) = inspectHTTPHost P payload := by
  have hend : lineEnd + 2 ≤ payload.length := index_length hline
  have hshort : ¬firstFlightMaximumBytes < payload.length := by
    rw [length_append] at hlen
    omega
  unfold inspectHTTPHost at h ⊢
  rw [if_neg hshort, hline] at h
  rw [if_neg (by omega), hline, index_append (by decide) hline]
  simp only at h ⊢
  rw [take_append_of_le_length (by omega), drop_append_of_le_length hend]
  split
  · rfl
  rename_i hvalid
  rw [if_neg hvalid] at h
  cases hheaders : index (crlf ++ crlf) (payload.drop (lineEnd + 2)) with
  | none =>
    rw [hheaders] at h
    exact absurd rfl h
  | some headersEnd =>
    have hinside := index_length hheaders
    rw [index_append (by decide) hheaders]
    simp only
    rw [take_append_of_le_length (by omega)]

/-- the decision is made on a TLS record, or the first line is complete -/
def FirstPart (payload : Str) : Prop := payload.head? = some 0x16 ∨ (index crlf payload).isSome

theorem inspectFirstFlight_append (hpart : FirstPart payload) (h : (inspectFirstFlight P payload).2 ≠ .needMore)
    {more : Str} (hlen : (payload ++ more).length ≤ firstFlightMaximumBytes) :
    inspectFirstFlight P (payload ++ more) = inspectFirstFlight P payload := by
  cases payload with
  | nil => exact absurd rfl h
  | cons first rest =>
    have happend : inspectFirstFlight P ((first :: rest) ++ more) =
        if first = 0x16 then inspectTLSClientHello P ((first :: rest) ++ more) else inspectHTTPHost P ((first :: rest) ++ more) := rfl
    have hshort : inspectFirstFlight P (first :: rest) =
        if first = 0x16 then inspectTLSClientHello P (first :: rest) else inspectHTTPHost P (first :: rest) := rfl
    rw [hshort] at h ⊢
    rw [happend]
    split
    · next htls =>
      rw [if_pos htls] at h
      exact inspectTLSClientHello_append h more
    · next htls =>
      rw [if_neg htls] at h
      obtain ⟨lineEnd, hline⟩ := Option.isSome_iff_exists.mp (hpart.resolve_left (by simpa using htls))
      exact inspectHTTPHost_append hline h hlen

/-- **A decision on the first part is kept by every longer string.** -/
theorem decided_stable {r : Str} (hpre : q <+: r) (hlen : r.length ≤ firstFlightMaximumBytes) (hpart : FirstPart q)
    (h : decided P q = some domain) : decided P r = some domain := by
  obtain ⟨more, rfl⟩ := hpre
  by_cases hmore : more = []
  · rwa [hmore, append_nil]
  have hshort : q.length < firstFlightMaximumBytes := by
    have hpos := length_pos_iff.mpr hmore
    rw [length_append] at hlen
    omega
  unfold decided at h ⊢
  have hknown : (inspectFirstFlight P q).2 ≠ .needMore := by
    intro hneed
    simp [hneed, hshort] at h
  rw [inspectFirstFlight_append hpart hknown hlen]
  simpa [hknown] using h

section

variable (hlen : q.length ≤ firstFlightMaximumBytes)
include hlen

/-- before the first line is complete only its looks count -/
theorem decided_line (hne : q ≠ []) (hpart : ¬FirstPart q) :
    decided P q = if couldBeHTTPPrefix P q ∧ q.length < firstFlightMaximumBytes then none else some [] := by
  obtain ⟨htls, hline⟩ := not_or.mp hpart
  cases q with
  | nil => exact absurd rfl hne
  | cons first rest =>
    have hfirst : first ≠ 0x16 := by simpa using htls
    have hinspect : inspectFirstFlight P (first :: rest) =
        if couldBeHTTPPrefix P (first :: rest) then needMore else useNumeric := by
      change (if first = 0x16 then _ else inspectHTTPHost P (first :: rest)) = _
      rw [if_neg hfirst, inspectHTTPHost, if_neg (by omega), Option.not_isSome_iff_eq_none.mp hline]
    rw [decided, hinspect]
    by_cases hlooks : couldBeHTTPPrefix P (first :: rest) = true <;> simp [hlooks, needMore, useNumeric]

/-- a name is decided on only behind the first part -/
theorem firstPart_of_name (h : decided P q = some domain)
    (hne : domain ≠ []) : FirstPart q := by
  by_contra hpart
  have hq : q ≠ [] := by
    rintro rfl
    cases h
  rw [decided_line hlen hq hpart] at h
  split at h
  · cases h
  · exact hne (Option.some.inj h).symm

/-! ## Segmentation -/

/-- the first 16 KiB in one piece go to the address; or nothing lies beyond them, and they are a TLS record or every beginning of the
first line looks like a request -/
def Uniform (P : Platform Addr) (b : Str) : Prop :=
  decided P (b.take firstFlightMaximumBytes) = some [] ∨
    b.length ≤ firstFlightMaximumBytes ∧ (b.head? = some 0x16 ∨
      ∀ q, q <+: b → q ≠ [] → index crlf q = none → couldBeHTTPPrefix P q = true)

/-- beginnings of a string that goes to the address never name a host -/
theorem numeric_prefix (hb : decided P (b.take firstFlightMaximumBytes) = some []) (hpre : q <+: b) :
    decided P q = none ∨ decided P q = some [] := by
  cases hq : decided P q with
  | none => exact .inl rfl
  | some domain =>
    by_cases hne : domain = []
    · rw [hne]
      exact .inr rfl
    · have hpart := firstPart_of_name hlen hq hne
      have htake : q <+: b.take firstFlightMaximumBytes := prefix_take_iff.mpr ⟨hpre, hlen⟩
      have hall := decided_stable htake (length_take_le _ _) hpart hq
      rw [hb] at hall
      exact absurd (Option.some.inj hall).symm hne

end

/-- each beginning of a short uniform string leaves the question open or answers it as the whole does -/
theorem Uniform.stable (h : Uniform P b) (hlen : b.length ≤ firstFlightMaximumBytes) (hpre : q <+: b) :
    decided P q = none ∨ decided P q = decided P b := by
  rcases h with hnumeric | ⟨-, hlooks⟩
  · have hb : decided P b = some [] := by rwa [take_of_length_le hlen] at hnumeric
    rw [hb]
    exact numeric_prefix (hpre.length_le.trans hlen) hnumeric hpre
  cases hq : decided P q with
  | none => exact .inl rfl
  | some domain =>
    refine .inr ?_
    by_cases hpart : FirstPart q
    · exact (decided_stable hpre hlen hpart hq).symm
    have hne : q ≠ [] := by
      rintro rfl
      cases hq
    obtain ⟨htls, hline⟩ := not_or.mp hpart
    have hhead : b.head? ≠ some 0x16 := by
      obtain ⟨more, rfl⟩ := hpre
      rwa [List.head?_append_of_ne_nil _ hne]
    -- a beginning that looks like a request is decided only at full length, and then it is the whole string
    have hcould := hlooks.resolve_left hhead q hpre hne (Option.not_isSome_iff_eq_none.mp hline)
    rw [decided_line (hpre.length_le.trans hlen) hne hpart, hcould] at hq
    by_cases hfull : q.length < firstFlightMaximumBytes
    · simp [hfull] at hq
    · have heq : q = b := hpre.eq_of_length_le (hlen.trans (not_lt.mp hfull))
      rw [← heq, decided_line (heq ▸ hlen) hne hpart, hcould, hq]

/-- an address has metadata, and it is that of an address -/
theorem metadataFor_address (hport : target.port ≠ 0) (haddr : P.parseIP target.host = true) :
    ∃ raw, metadataFor P target [] = some raw ∧ raw[1]? ≠ some targetDomain := by
  obtain ⟨address, hparse, hzone⟩ : ∃ address, P.parseAddr target.host = some address ∧ P.zone address = [] := by
    unfold Platform.parseIP at haddr
    split at haddr
    · next address hparse => exact ⟨address, hparse, of_decide_eq_true haddr⟩
    · cases haddr
  have hencodable : EncodableHost P target.host := by
    unfold EncodableHost
    rw [hparse]
    exact hzone
  obtain ⟨raw, hraw⟩ := (encodeTarget_iff target).mpr ⟨hport, hencodable⟩
  refine ⟨raw, by simp [metadataFor, DeferredConn.opened, targetFor, hraw], ?_⟩
  rw [ne_eq, encodeTarget_kind hraw, hparse]
  exact Option.some_ne_none address

/-- a name has the metadata of a name, if any -/
theorem metadataFor_name {raw : Str} (hne : domain ≠ []) (hname : P.parseIP domain = false)
    (h : metadataFor P target domain = some raw) : raw[1]? = some targetDomain := by
  have hdomain : encodeTarget P { target with host := domain } = .ok raw := by
    rw [metadataFor, DeferredConn.opened, targetFor, if_pos hne] at h
    cases henc : encodeTarget P { target with host := domain } with
    | error err => rw [henc] at h; cases h
    | ok raw' => rw [henc] at h; rw [Option.some.inj h]
  have henc := ((encodeTarget_iff _).mp ⟨raw, hdomain⟩).2
  rw [encodeTarget_kind hdomain]
  unfold EncodableHost at henc
  split at henc
  · next address hparse =>
    have hip : P.parseIP domain = true := by
      unfold Platform.parseIP
      rw [hparse]
      exact decide_eq_true henc
    rw [hname] at hip
    cases hip
  · assumption

/-- a decision other than the address does not hand over the address -/
theorem handed_ne (hport : target.port ≠ 0) (haddr : P.parseIP target.host = true)
    (hq : decided P q ≠ some []) : (decided P q).bind (metadataFor P target) ≠ metadataFor P target [] := by
  obtain ⟨raw, hmeta, hkind⟩ := metadataFor_address hport haddr
  rw [hmeta]
  cases hd : decided P q with
  | none => exact nofun
  | some domain =>
    have hne : domain ≠ [] := fun h => hq (by rw [hd, h])
    exact fun heq => hkind (metadataFor_name hne (decided_name hd hne).2.2 heq)

theorem run_cut (target : Target) (cut : List Str) :
    ((newDeferredStreamConn target).run P cut).stream =
      (Chunks.answer (decided P) firstFlightMaximumBytes [] [] cut).bind (metadataFor P target) := by
  have hout := DeferredConn.run_outcome (P := P) (c := newDeferredStreamConn target) ⟨rfl, rfl, rfl⟩ cut
  change ((newDeferredStreamConn target).run P cut).outcome.1 = _
  rw [hout]
  change (match answer (decided P) firstFlightMaximumBytes [] [] cut with
    | none => (none, none)
    | some domain => DeferredConn.opened P target domain).1 = _
  cases answer (decided P) firstFlightMaximumBytes [] [] cut <;> rfl

/-- in a uniform string the cut does not matter -/
theorem Uniform.answer (h : Uniform P b) {cut : List Str} (hcut : cut.flatten = b) :
    Chunks.answer (decided P) firstFlightMaximumBytes [] [] cut = decided P (b.take firstFlightMaximumBytes) := by
  by_cases hlen : b.length ≤ firstFlightMaximumBytes
  · rw [take_of_length_le hlen]
    exact answer_eq hlen (fun q hq => h.stable (q := q) hlen hq) cut hcut rfl
  · have hnumeric := h.resolve_right fun hshort => hlen hshort.1
    rw [hnumeric]
    exact answer_beyond (not_le.mp hlen) (fun q hq hq' => numeric_prefix hq' hnumeric hq) cut hcut (Nat.zero_le _)

/-- one write that fits is inspected as a whole -/
theorem answer_one (hlen : b.length ≤ firstFlightMaximumBytes) :
    Chunks.answer (decided P) firstFlightMaximumBytes [] [] [b] = decided P b := by
  have hfits : ¬firstFlightMaximumBytes - ([] : Str).length < b.length := by
    rw [length_nil]
    omega
  rw [answer, if_neg hfits, nil_append]
  cases decided P b <;> rfl

/-- a first write that is decided on settles the run -/
theorem answer_first {first : Str} (hlen : first.length ≤ firstFlightMaximumBytes) (h : decided P first = some domain)
    (cut : List Str) : Chunks.answer (decided P) firstFlightMaximumBytes [] [] (first :: cut) = some domain := by
  have hfits : ¬firstFlightMaximumBytes - ([] : Str).length < first.length := by
    rw [length_nil]
    omega
  rw [answer, if_neg hfits, nil_append, h]

/-- every cut of `b` into writes hands the same target to the opener -/
def SegmentationFree (P : Platform Addr) (target : Target) (b : Str) : Prop :=
  ∀ cut cut' : List Str, (∀ s ∈ cut, s ≠ []) → (∀ s ∈ cut', s ≠ []) → cut.flatten = b → cut'.flatten = b →
    ((newDeferredStreamConn target).run P cut).stream = ((newDeferredStreamConn target).run P cut').stream

/-- **The target does not depend on the segmentation exactly for the uniform strings.** -/
theorem segmentation_iff {target : Target} (hport : target.port ≠ 0) (haddr : P.parseIP target.host = true) (b : Str) :
    SegmentationFree P target b ↔ Uniform P b := by
  constructor
  · intro hfree
    by_contra hnot
    obtain ⟨hnumeric, hlooks⟩ := not_or.mp hnot
    have hdiffer := handed_ne hport haddr hnumeric
    apply hdiffer
    by_cases hlen : b.length ≤ firstFlightMaximumBytes
    · -- the whole in one write, against a cut behind the first bytes that do not look like a request
      rw [take_of_length_le hlen] at hnumeric ⊢
      obtain ⟨htls, hline⟩ := not_or.mp fun h => hlooks ⟨hlen, h⟩
      push Not at hline
      obtain ⟨q, ⟨more, rfl⟩, hne, hcrlf, hcould⟩ := hline
      have hpart : ¬FirstPart q := by
        rintro (h | h)
        · rw [List.head?_append_of_ne_nil _ hne] at htls
          exact htls h
        · rw [hcrlf] at h
          cases h
      have hqlen : q.length ≤ firstFlightMaximumBytes := by
        rw [length_append] at hlen
        omega
      have hq : decided P q = some [] := by rw [decided_line hqlen hne hpart, if_neg fun h => hcould h.1]
      have hmore : more ≠ [] := by
        rintro rfl
        rw [append_nil] at hnumeric
        exact hnumeric hq
      have hsame := hfree [q ++ more] [q, more] (by simp [hne]) (by simp [hne, hmore]) (by simp) (by simp)
      rw [run_cut, run_cut, answer_one hlen, answer_first hqlen hq] at hsame
      exact hsame
    · -- one write beyond the limit, against a cut at the limit
      have hfull : (b.take firstFlightMaximumBytes).length = firstFlightMaximumBytes := by
        rw [length_take]
        omega
      have hpos : 0 < firstFlightMaximumBytes := by decide
      have hne : b.take firstFlightMaximumBytes ≠ [] := by
        rw [← length_pos_iff]
        omega
      have hrest : b.drop firstFlightMaximumBytes ≠ [] := by
        rw [← length_pos_iff, length_drop]
        omega
      have hb : b ≠ [] := by
        rw [← length_pos_iff]
        omega
      obtain ⟨domain, hdomain⟩ : ∃ domain, decided P (b.take firstFlightMaximumBytes) = some domain := by
        unfold decided
        rw [hfull]
        simp
      have hsame := hfree [b.take firstFlightMaximumBytes, b.drop firstFlightMaximumBytes] [b] (by simp [hne, hrest]) (by simp [hb])
        (by simp) (by simp)
      rw [run_cut, run_cut, answer_first hfull.le hdomain, Chunks.answer, if_pos (by omega), ← hdomain] at hsame
      exact hsame
  · intro h cut cut' _ _ hcut hcut'
    rw [run_cut, run_cut, h.answer hcut, h.answer hcut']

end Stability

/-! ## Two requests -/

section Requests

open DeferredConn (decided metadataFor)

def hostRequest : Str := ascii "GET / HTTP/1.1\r\nHost: example.com\r\n\r\n"

def webTarget : Target := ⟨ascii "192.0.2.7", 80⟩

theorem segmentation_free_request : SegmentationFree asciiPlatform webTarget hostRequest := by
  have hinits : ∀ q ∈ hostRequest.inits, q ≠ [] → index crlf q = none → couldBeHTTPPrefix asciiPlatform q = true := by decide
  have huniform : Uniform asciiPlatform hostRequest :=
    .inr ⟨by decide, .inr fun q hq => hinits q ((mem_inits q hostRequest).mpr hq)⟩
  exact (segmentation_iff (by decide) (by decide) hostRequest).mpr huniform

/-- a request with a body of 16 KiB: in one write it goes to the address, with its headers written first it goes to its host -/
theorem oversized_write_numeric : ¬∀ (Addr : Type) (P : Platform Addr) (target : Target),
    target.port ≠ 0 → P.parseIP target.host = true → ∀ b : Str, SegmentationFree P target b := by
  intro h
  let body : Str := List.replicate firstFlightMaximumBytes 97
  have hbody : body.length = firstFlightMaximumBytes := length_replicate
  have hpos : 0 < firstFlightMaximumBytes := by decide
  have hne : body ≠ [] := by
    rw [← length_pos_iff, hbody]
    exact hpos
  have hrequest : hostRequest ≠ [] := by decide
  have hlong : firstFlightMaximumBytes - ([] : Str).length < (hostRequest ++ body).length := by
    have hsome := length_pos_iff.mpr hrequest
    rw [length_append]
    omega
  have hhost : decided asciiPlatform hostRequest = some (ascii "example.com") := by decide
  have hsame := h _ asciiPlatform webTarget (by decide) (by decide) (hostRequest ++ body) [hostRequest, body] [hostRequest ++ body]
    (by simp [hrequest, hne]) (by simp [hrequest]) (by simp) (by simp)
  rw [run_cut, run_cut, answer_first (by decide) hhost, Chunks.answer, if_pos hlong] at hsame
  have hdiffer : metadataFor asciiPlatform webTarget (ascii "example.com") ≠ metadataFor asciiPlatform webTarget [] := by decide
  exact hdiffer hsame

end Requests

end NeProto.Tunstack
