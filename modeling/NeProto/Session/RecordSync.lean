/-
The two record layers stay in step (`internal/session/encrypted_carrier.go`).

- `Cursor`: where a direction stands at one end; `Emits` is what a sender puts on the carrier from there on.
- `Lane`: one direction. What is in flight is what the sender emits from where the receiver stands, cut in two by a change of
  generation.
- `Chain`, `Lineage`: the keys a direction can have in one generation, and that a key and a nonce meet once.
- `records_in_step`: every record is opened with what it was sealed with, in order, and no key seals twice under one nonce.
- `crossing_record_rejected`: a record that crosses the last one of a generation is not opened.
-/
import NeProto.Session.Record

namespace NeProto.Session.Record

open Function Peer
open List hiding Vector

open NeProto.Bytes

variable {Secret Key Plain Record : Type} {S : Suite Secret Key Plain Record} {kind : UInt8}

/-! ## Cursors -/

/-- a half with its ratchet interval -/
structure Cursor (Key : Type) where
  half : Half Key
  interval : ℕ

variable (S kind)

/-- the half a record is sealed or opened with -/
def Cursor.next (c : Cursor Key) : Half Key := c.half.rotateIfNeeded S c.interval

def Cursor.advance (c : Cursor Key) : Cursor Key :=
  ⟨{ c.next S with counter := (c.next S).counter + 1 }, c.interval⟩

/-- a record sealed or opened there -/
def Cursor.entry (c : Cursor Key) (plain : Plain) : Entry Key Plain := ⟨(c.next S).context kind, plain⟩

/-- the direction in which a role sends, at the start of a generation -/
def Suite.fresh (s : Secret) (p : Role) : Cursor Key :=
  ⟨⟨(S.sessionKeys s).key p, (S.sessionKeys s).nonce p, p.direction, 0, 0⟩, recordKeyEpochInterval⟩

variable {S kind} {e : Peer Key Plain Record}

theorem Half.rotateIfNeeded_frame (interval : ℕ) (h : Half Key) :
    (h.rotateIfNeeded S interval).counter = h.counter ∧ (h.rotateIfNeeded S interval).noncePrefix = h.noncePrefix ∧
      (h.rotateIfNeeded S interval).direction = h.direction := by
  unfold Half.rotateIfNeeded
  split <;> exact ⟨rfl, rfl, rfl⟩

/-- the records a sender emits from one cursor to another -/
inductive Emits (S : Suite Secret Key Plain Record) (kind : UInt8) : Cursor Key → List (Entry Key Plain) → Cursor Key → Prop where
  | nil (c : Cursor Key) : Emits S kind c [] c
  | cons {c c' : Cursor Key} {plain : Plain} {es : List (Entry Key Plain)} (hc : c.half.counter ≠ maxUint64)
    (hl : S.length plain ≤ maxCellSize) (h : Emits S kind (c.advance S) es c') :
    Emits S kind c (c.entry S kind plain :: es) c'

theorem Emits.snoc {c c' : Cursor Key} {es : List (Entry Key Plain)} (h : Emits S kind c es c') {plain : Plain}
    (hc : c'.half.counter ≠ maxUint64) (hl : S.length plain ≤ maxCellSize) :
    Emits S kind c (es ++ [c'.entry S kind plain]) (c'.advance S) := by
  induction h with
  | nil c => exact .cons hc hl (.nil _)
  | cons hc' hl' _ ih => exact .cons hc' hl' (ih hc)

/-! ## One direction -/

/-- A direction: the sender's log, the receiver's, what is in flight between them, and where the two stand. -/
inductive Lane (S : Suite Secret Key Plain Record) (kind : UInt8) (change : Change Secret) (p : Role)
    (sealed opened : List (Entry Key Plain)) (flight : List Record) (sends receives : Cursor Key) (closed : Bool) : Prop where
  | steady (pending : List (Entry Key Plain)) {stop : Cursor Key} (hchange : ∀ r s n, change ≠ .last r s n)
    (hlog : sealed = opened ++ pending) (hflight : flight = pending.map (Entry.record S))
    (hemits : Emits S kind receives pending stop) (hstop : closed = false → stop = sends)
  /-- the sender has changed its generation, the receiver has not -/
  | leading (old new : List (Entry Key Plain)) {mid stop : Cursor Key} {s : Secret} {n : ℕ} (hchange : change = .last p s n)
    (hlog : sealed = opened ++ (old ++ new)) (hflight : flight = (old ++ new).map (Entry.record S))
    (hlast : opened.length + old.length = n) (hold : Emits S kind receives old mid)
    (hnew : Emits S kind (S.fresh s p) new stop) (hstop : closed = false → stop = sends)
  /-- the receiver has changed its generation, the sender has not, and nothing is in flight -/
  | following {s : Secret} {n : ℕ} (hchange : change = .last p.other s n) (hlog : sealed = opened) (hflight : flight = [])
    (hfresh : receives = S.fresh s p)

namespace Lane

variable {change : Change Secret} {p : Role} {sealed opened : List (Entry Key Plain)} {flight : List Record}
  {sends receives : Cursor Key} {closed : Bool}

section

variable (h : Lane S kind change p sealed opened flight sends receives closed)
include h

theorem in_order : opened <+: sealed := by
  cases h with
  | steady _ _ hlog | leading _ _ _ hlog => exact hlog ▸ prefix_append _ _
  | following _ hlog => exact hlog ▸ prefix_refl _

/-- nothing is in flight when everything has been opened -/
theorem flight_nil (hlen : sealed.length ≤ opened.length) : flight = [] := by
  have hempty : ∀ pending : List (Entry Key Plain), sealed = opened ++ pending → pending = [] := by
    intro pending hlog
    rw [hlog, length_append] at hlen
    exact eq_nil_of_length_eq_zero (by omega)
  cases h with
  | steady pending _ hlog hflight | leading old new _ hlog hflight => rw [hflight, hempty _ hlog, map_nil]
  | following _ _ hflight => exact hflight

end

/-- a record of the generation that goes on -/
theorem emit (h : Lane S kind change p sealed opened flight sends receives false) {plain : Plain}
    (hnot : ∀ s n, change ≠ .last p.other s n) (hc : sends.half.counter ≠ maxUint64) (hl : S.length plain ≤ maxCellSize) :
    Lane S kind change p (sealed ++ [sends.entry S kind plain]) opened
      (flight ++ [(sends.entry S kind plain).record S]) (sends.advance S) receives false := by
  cases h with
  | steady _ hchange hlog hflight hemits hstop =>
    obtain rfl := hstop rfl
    exact .steady _ hchange (by rw [hlog, append_assoc]) (by rw [hflight, map_append]; rfl) (hemits.snoc hc hl) fun _ => rfl
  | leading _ _ hchange hlog hflight hlast hold hnew hstop =>
    obtain rfl := hstop rfl
    exact .leading _ _ hchange (by rw [hlog]; simp only [append_assoc]) (by rw [hflight]; simp) hlast hold (hnew.snoc hc hl)
      fun _ => rfl
  | following hchange => exact absurd hchange (hnot _ _)

/-- the last record of a generation -/
theorem emitLast (h : Lane S kind change p sealed opened flight sends receives false) {plain : Plain}
    (hnot : ∀ r s n, change ≠ .last r s n) (hc : sends.half.counter ≠ maxUint64) (hl : S.length plain ≤ maxCellSize) (s : Secret) :
    Lane S kind (.last p s (sealed.length + 1)) p (sealed ++ [sends.entry S kind plain]) opened
      (flight ++ [(sends.entry S kind plain).record S]) (S.fresh s p) receives false := by
  cases h with
  | @steady pending stop _ hlog hflight hemits hstop =>
    obtain rfl := hstop rfl
    refine .leading (pending ++ [stop.entry S kind plain]) [] rfl ?_ ?_ ?_ (hemits.snoc hc hl) (.nil _)
      fun _ => rfl
    · rw [hlog, append_nil, append_assoc]
    · rw [hflight, append_nil, map_append]
      rfl
    · rw [hlog]
      simp only [length_append, length_cons, length_nil]
      omega
  | leading _ _ hchange | following hchange => exact absurd hchange (hnot _ _ _)

/-- the other direction when the last record of a generation is sent -/
theorem drained (h : Lane S kind change p sealed opened [] sends receives closed) (hnot : ∀ r s n, change ≠ .last r s n)
    (s : Secret) (n : ℕ) : Lane S kind (.last p.other s n) p sealed opened [] sends (S.fresh s p) closed := by
  cases h with
  | steady _ _ hlog hflight =>
    rw [eq_comm, map_eq_nil_iff] at hflight
    rw [hflight, append_nil] at hlog
    exact .following rfl hlog rfl rfl
  | leading _ _ hchange | following hchange => exact absurd hchange (hnot _ _ _)

/-- the next record in flight is the next one the receiver can open -/
theorem arrive {record : Record} (h : Lane S kind change p sealed opened (record :: flight) sends receives closed)
    (hnot : ∀ s, change ≠ .last p s opened.length) :
    ∃ plain, record = (receives.entry S kind plain).record S ∧ receives.half.counter ≠ maxUint64 ∧
      S.length plain ≤ maxCellSize ∧
      Lane S kind change p sealed (opened ++ [receives.entry S kind plain]) flight sends (receives.advance S) closed := by
  cases h with
  | steady _ hchange hlog hflight hemits hstop =>
    cases hemits with
    | nil => cases hflight
    | @cons _ _ plain es hc hl hemits =>
      rw [map_cons, cons.injEq] at hflight
      exact ⟨plain, hflight.1, hc, hl, .steady _ hchange (by rw [hlog, append_assoc]; rfl) hflight.2 hemits hstop⟩
  | leading _ _ hchange hlog hflight hlast hold hnew hstop =>
    cases hold with
    | nil =>
      exact absurd (hlast ▸ hchange) (hnot _)
    | @cons _ _ plain es hc hl hold =>
      rw [cons_append, map_cons, cons.injEq] at hflight
      refine ⟨plain, hflight.1, hc, hl, .leading _ _ hchange (by rw [hlog, append_assoc]; rfl) hflight.2 ?_ hold hnew hstop⟩
      rw [← hlast]
      simp only [length_append, length_cons, length_nil]
      omega
  | following _ _ hflight => cases hflight

/-- the receiver follows into the new generation -/
theorem follow (s : Secret) (h : Lane S kind (.last p s opened.length) p sealed opened flight sends receives closed) :
    Lane S kind .none p sealed opened flight sends (S.fresh s p) closed := by
  cases h with
  | steady _ hchange => exact absurd rfl (hchange _ _ _)
  | @leading old new _ _ _ _ hchange hlog hflight hlast _ hnew hstop =>
    cases hchange
    obtain rfl : old = [] := eq_nil_of_length_eq_zero (by omega)
    exact .steady _ nofun hlog hflight hnew hstop
  | following hchange => exact absurd (Change.last.inj hchange).1.symm p.other_ne

/-- the sender follows into the new generation -/
theorem followSends (s : Secret) (n : ℕ) (h : Lane S kind (.last p.other s n) p sealed opened flight sends receives closed) :
    Lane S kind .none p sealed opened flight (S.fresh s p) receives closed := by
  cases h with
  | steady _ hchange => exact absurd rfl (hchange _ _ _)
  | leading _ _ hchange => exact absurd (Change.last.inj hchange).1 p.other_ne
  | following hchange hlog hflight hfresh =>
    cases hchange
    rw [hfresh]
    exact .steady [] nofun (by rw [hlog, append_nil]) hflight (.nil _) fun _ => rfl

/-- a change is agreed on -/
theorem arm (h : Lane S kind .none p sealed opened flight sends receives closed) (q : Role) (s : Secret) :
    Lane S kind (.armed q s) p sealed opened flight sends receives closed := by
  cases h with
  | steady _ _ hlog hflight hemits hstop => exact .steady _ nofun hlog hflight hemits hstop
  | leading _ _ hchange | following hchange => cases hchange

/-- what a closed carrier would send with does not matter -/
theorem close (h : Lane S kind change p sealed opened flight sends receives closed) (sends' : Cursor Key) :
    Lane S kind change p sealed opened flight sends' receives true := by
  cases h with
  | steady _ hchange hlog hflight hemits => exact .steady _ hchange hlog hflight hemits nofun
  | leading _ _ hchange hlog hflight hlast hold hnew => exact .leading _ _ hchange hlog hflight hlast hold hnew nofun
  | following hchange hlog hflight hfresh => exact .following hchange hlog hflight hfresh

end Lane

/-! ## Keys and nonces -/

/-- the keys of one direction in one generation -/
inductive Chain (S : Suite Secret Key Plain Record) (s : Secret) (p : Role) : Key → Prop where
  | base : Chain S s p ((S.sessionKeys s).key p)
  | ratchet {k : Key} (h : Chain S s p k) (d : UInt8) (e : ℕ) : Chain S s p (S.deriveRecordEpochKey k d e)

/-- a key belongs to one direction of one generation -/
theorem Chain.unique (hS : Ideal S) {s s' : Secret} {p p' : Role} {k : Key} (h : Chain S s p k) (h' : Chain S s' p' k) :
    s = s' ∧ p = p' := by
  induction h with
  | base =>
    generalize hk : (S.sessionKeys s).key p = k' at h'
    cases h' with
    | base => exact hS.session_inj _ _ _ _ hk
    | ratchet _ d e => exact absurd hk (hS.session_ne_epoch _ _ _ d e)
  | @ratchet k _ d e ih =>
    generalize hk : S.deriveRecordEpochKey k d e = k' at h'
    cases h' with
    | base => exact absurd hk.symm (hS.session_ne_epoch _ _ _ d e)
    | ratchet h'' d' e' =>
      obtain ⟨rfl, -, -⟩ := hS.epoch_inj _ _ _ _ _ _ hk
      exact ih h''

theorem Chain.rotate {s : Secret} {p : Role} {h : Half Key} (hk : Chain S s p h.key) (interval : ℕ) :
    Chain S s p (h.rotateIfNeeded S interval).key := by
  unfold Half.rotateIfNeeded
  split
  · exact hk
  · exact .ratchet hk _ _

/-- the key and the nonce a record is sealed with -/
def Entry.keyNonce (e : Entry Key Plain) : Key × List UInt8 := (e.context.key, e.context.nonce)

theorem recordNonce_inj {noncePrefix : Vector UInt8 4} {c c' : ℕ} (hc : c ≤ maxUint64) (hc' : c' ≤ maxUint64)
    (h : recordNonce noncePrefix c = recordNonce noncePrefix c') : c = c' := by
  have hwidth : (256 : ℕ) ^ 8 = maxUint64 + 1 := by decide
  exact putUint_inj (by omega) (by omega) (append_cancel_left h)

/-- the direction is yet to enter this generation -/
def Change.entering (change : Change Secret) (p : Role) (s : Secret) : Prop :=
  (∃ r, change = .armed r s) ∨ ∃ n, change = .last p.other s n

/-- the generation in which a direction sends, and the keys and nonces it has used -/
structure Lineage (S : Suite Secret Key Plain Record) (change : Change Secret) (secrets : List Secret) (p : Role)
    (sealed : List (Entry Key Plain)) (sends : Cursor Key) (s : Secret) : Prop where
  secret : s ∈ secrets
  chain : Chain S s p sends.half.key
  noncePrefix : sends.half.noncePrefix = (S.sessionKeys s).nonce p
  bound : sends.half.counter ≤ maxUint64
  used : ∀ e ∈ sealed, Chain S s p e.context.key →
    ∃ c < sends.half.counter, e.context.nonce = recordNonce ((S.sessionKeys s).nonce p) c
  known : ∀ e ∈ sealed, ∃ s' ∈ secrets, Chain S s' p e.context.key
  entering : ∀ t, change.entering p t → t ∈ secrets ∧ s ≠ t ∧ ∀ e ∈ sealed, ¬Chain S t p e.context.key
  once : (sealed.map Entry.keyNonce).Nodup

namespace Lineage

variable {change : Change Secret} {secrets : List Secret} {p : Role} {sealed : List (Entry Key Plain)} {sends : Cursor Key}
  {s : Secret}

section

variable (h : Lineage S change secrets p sealed sends s)

include h

/-- the counter of the next record is new -/
theorem once_snoc (plain : Plain) : ((sealed ++ [sends.entry S kind plain]).map Entry.keyNonce).Nodup := by
  rw [map_append, nodup_append]
  refine ⟨h.once, nodup_singleton _, fun pair hold pair' hnew heq => ?_⟩
  rw [map_singleton, mem_singleton] at hnew
  obtain ⟨e, he, hpair⟩ := mem_map.mp hold
  rw [heq, hnew, Entry.keyNonce, Prod.mk.injEq] at hpair
  obtain ⟨c, hc, hnonce⟩ := h.used e he (hpair.1 ▸ h.chain.rotate sends.interval)
  obtain ⟨hcounter, hprefix, -⟩ := Half.rotateIfNeeded_frame (S := S) sends.interval sends.half
  have hsame : recordNonce ((S.sessionKeys s).nonce p) c = recordNonce ((S.sessionKeys s).nonce p) sends.half.counter := by
    rw [← hnonce, hpair.2, ← h.noncePrefix, ← hprefix, ← hcounter]
    rfl
  have := recordNonce_inj (by have := h.bound; omega) h.bound hsame
  omega

theorem emit (hS : Ideal S) (hc : sends.half.counter ≠ maxUint64) (plain : Plain) :
    Lineage S change secrets p (sealed ++ [sends.entry S kind plain]) (sends.advance S) s := by
  obtain ⟨hcounter, hprefix, -⟩ := Half.rotateIfNeeded_frame (S := S) sends.interval sends.half
  have hkey : Chain S s p (sends.next S).key := h.chain.rotate _
  refine ⟨h.secret, hkey, hprefix.trans h.noncePrefix, ?_, ?_, ?_, ?_, h.once_snoc plain⟩
  · have := h.bound
    show (sends.next S).counter + 1 ≤ maxUint64
    rw [Cursor.next]
    omega
  · intro e he hk
    show ∃ c < (sends.next S).counter + 1, _
    rw [Cursor.next]
    rcases mem_append.mp he with he | he
    · obtain ⟨c, hlt, hnonce⟩ := h.used e he hk
      exact ⟨c, by omega, hnonce⟩
    · rw [mem_singleton.mp he]
      refine ⟨sends.half.counter, by omega, ?_⟩
      rw [← h.noncePrefix, ← hprefix, ← hcounter]
      rfl
  · intro e he
    rcases mem_append.mp he with he | he
    · exact h.known e he
    · rw [mem_singleton.mp he]
      exact ⟨s, h.secret, hkey⟩
  · intro t ht
    obtain ⟨hmem, hne, hnone⟩ := h.entering t ht
    refine ⟨hmem, hne, fun e he hk => ?_⟩
    rcases mem_append.mp he with he | he
    · exact hnone e he hk
    · rw [mem_singleton.mp he] at hk
      exact hne (hkey.unique hS hk).1

/-- a direction that has not used a generation enters it -/
theorem enter {t : Secret} (ht : t ∈ secrets)
    (hnone : ∀ e ∈ sealed, ¬Chain S t p e.context.key) {change' : Change Secret} (hdone : ∀ t', ¬change'.entering p t') :
    Lineage S change' secrets p sealed (S.fresh t p) t :=
  ⟨ht, .base, rfl, Nat.zero_le _, fun e he hk => absurd hk (hnone e he), h.known, fun t' ht' => absurd ht' (hdone t'), h.once⟩

/-- an agreement on a new secret -/
theorem arm (hS : Ideal S) {t : Secret} (ht : t ∉ secrets) (r : Role) :
    Lineage S (.armed r t) (t :: secrets) p sealed sends s := by
  refine { h with secret := mem_cons_of_mem _ h.secret, known := fun e he => ?_, entering := fun t' ht' => ?_ }
  · obtain ⟨s', hs', hk⟩ := h.known e he
    exact ⟨s', mem_cons_of_mem _ hs', hk⟩
  have htt : t' = t := by
    rcases ht' with ⟨_, heq⟩ | ⟨_, heq⟩
    · exact (Change.armed.inj heq).2.symm
    · cases heq
  subst htt
  refine ⟨mem_cons_self, fun hst => ht (hst ▸ h.secret), fun e he hk => ?_⟩
  obtain ⟨s', hs', hk'⟩ := h.known e he
  exact ht ((hk.unique hS hk').1 ▸ hs')

theorem frame {change' : Change Secret}
    (hchange : ∀ t, change'.entering p t → change.entering p t) : Lineage S change' secrets p sealed sends s :=
  { h with entering := fun t ht => h.entering t (hchange t ht) }

/-- a `Send` that fails may have ratcheted -/
theorem refuse : Lineage S change secrets p sealed ⟨sends.next S, sends.interval⟩ s := by
  obtain ⟨hcounter, hprefix, -⟩ := Half.rotateIfNeeded_frame (S := S) sends.interval sends.half
  refine ⟨h.secret, h.chain.rotate _, hprefix.trans h.noncePrefix, hcounter.trans_le h.bound, fun e he hk => ?_, h.known, h.entering,
    h.once⟩
  obtain ⟨c, hlt, hnonce⟩ := h.used e he hk
  exact ⟨c, hlt.trans_eq hcounter.symm, hnonce⟩

end

end Lineage

/-! ## Invariant -/

/-- the carrier as it is once the `Send` in progress has returned; until then nothing reads the parts that change -/
def Peer.settled (e : Peer Key Plain Record) : EncryptedCarrier Key :=
  match e.sending with
  | none => e.carrier
  | some transition => finishSend e.carrier transition

def Peer.sends (e : Peer Key Plain Record) : Cursor Key := ⟨e.settled.send, e.settled.epochInterval⟩

def Peer.receives (e : Peer Key Plain Record) : Cursor Key := ⟨e.settled.receive, e.settled.epochInterval⟩

theorem Peer.sends_idle (h : e.sending = none) : e.sends = ⟨e.carrier.send, e.carrier.epochInterval⟩ := by
  rw [sends, settled, h]

theorem Peer.receives_idle (h : e.sending = none) : e.receives = ⟨e.carrier.receive, e.carrier.epochInterval⟩ := by
  rw [receives, settled, h]

/-- what `prepareRekey` makes of the keys of a generation -/
def Suite.transition (S : Suite Secret Key Plain Record) (p : Role) (s : Secret) : RecordRekey Key :=
  ⟨(S.sessionKeys s).key p, (S.sessionKeys s).key p.other, (S.sessionKeys s).nonce p, (S.sessionKeys s).nonce p.other⟩

theorem Peer.receives_open (h : e.receiveLocked = false) : e.receives = ⟨e.carrier.receive, e.carrier.epochInterval⟩ := by
  rw [receives, settled]
  rw [receiveLocked] at h
  cases hsending : e.sending with
  | none => rfl
  | some t =>
    rw [hsending] at h
    cases t with
    | none => rfl
    | some t => cases h

/-- what is sealed where the receiver stands is opened -/
theorem Peer.openRecord_entry (hS : Ideal S) (kind : UInt8) (e : Peer Key Plain Record) {c : Cursor Key}
    (hcursor : c = ⟨e.carrier.receive, e.carrier.epochInterval⟩) {plain : Plain} (hc : e.carrier.receive.counter ≠ maxUint64)
    (hl : S.length plain ≤ maxCellSize) : e.openRecord S kind ((c.entry S kind plain).record S) =
      { e with
        carrier := { e.carrier with receive := (c.advance S).half }
        opened := e.opened ++ [c.entry S kind plain] } := by
  subst hcursor
  have hsize := fun k n aad => hS.size_seal k n plain aad
  generalize hr : Entry.record S _ = record
  have hfits : ¬(S.size record < overhead ∨ maxCellSize + overhead < S.size record) := by
    subst hr
    simp only [Entry.record, Cursor.entry, Cursor.next, hsize]
    omega
  have hopen := fun k n aad => hS.open_seal k n plain aad
  simp only [openRecord, if_neg hc, if_neg hfits]
  subst hr
  simp only [Entry.record, Cursor.entry, Cursor.next, rotateReceiveEpochIfNeeded, hopen]
  rfl

/-- the send half does not depend on the receive half -/
theorem Peer.sends_frame {e' : Peer Key Plain Record} {receive : Half Key} (hsending : e'.sending = e.sending)
    (hcarrier : e'.carrier = { e.carrier with receive := receive }) : e'.sends = e.sends := by
  rw [sends, sends, settled, settled, hsending, hcarrier]
  cases e.sending with
  | none => rfl
  | some t => cases t <;> rfl

variable (S kind)

/-- one end by itself -/
structure Peer.Sound (change : Change Secret) (p : Role) (e : Peer Key Plain Record) : Prop where
  send : e.carrier.send.direction = p.direction
  receive : e.carrier.receive.direction = p.other.direction
  armed : ∀ s, change = .armed p s → e.carrier.pendingRekey = some (S.transition p s) ∧ ∀ t, e.sending ≠ some (some t)
  pending : ∀ t, e.carrier.pendingRekey = some t → (∃ s, change = .armed p s) ∨ e.sending = some (some t)
  single : e.received.length ≤ 1
  clean : .recordAuthentication ∉ e.errors

namespace Pair

def lane (w : Pair Secret Key Plain Record) (p : Role) : Prop :=
  Lane S kind w.change p (w.peers p).sealed (w.peers p.other).opened ((w.peers p.other).received ++ w.wire p.other)
    (w.peers p).sends (w.peers p.other).receives (w.peers p).closed

/-- the direction in which a role receives -/
def inbound (w : Pair Secret Key Plain Record) (p : Role) : Prop :=
  Lane S kind w.change p.other (w.peers p.other).sealed (w.peers p).opened ((w.peers p).received ++ w.wire p)
    (w.peers p.other).sends (w.peers p).receives (w.peers p.other).closed

structure Sync (w : Pair Secret Key Plain Record) : Prop where
  sound : ∀ p, (w.peers p).Sound S w.change p
  lane : ∀ p, w.lane S kind p
  lineage : ∀ p, ∃ s, Lineage S w.change w.secrets p (w.peers p).sealed (w.peers p).sends s

variable {S kind} {w : Pair Secret Key Plain Record}

theorem Sync.inbound (h : Sync S kind w) (p : Role) : w.inbound S kind p := by
  have hlane := h.lane p.other
  rwa [Pair.lane, p.other_other] at hlane

/-- it is enough to look at both directions from one role -/
theorem Sync.of (p : Role) {e o : Peer Key Plain Record} (he : w.peers p = e) (ho : w.peers p.other = o)
    (hp : e.Sound S w.change p) (hpo : o.Sound S w.change p.other)
    (hout : Lane S kind w.change p e.sealed o.opened (o.received ++ w.wire p.other) e.sends o.receives e.closed)
    (hin : Lane S kind w.change p.other o.sealed e.opened (e.received ++ w.wire p) o.sends e.receives o.closed)
    (hl : ∃ s, Lineage S w.change w.secrets p e.sealed e.sends s)
    (hlo : ∃ s, Lineage S w.change w.secrets p.other o.sealed o.sends s) : Sync S kind w := by
  subst he ho
  refine ⟨fun q => ?_, fun q => ?_, fun q => ?_⟩
  · rcases p.eq_or q with rfl | rfl
    · exact hp
    · exact hpo
  · rcases p.eq_or q with rfl | rfl
    · exact hout
    · rw [Pair.lane, p.other_other]
      exact hin
  · rcases p.eq_or q with rfl | rfl
    · exact hl
    · exact hlo

section

variable (w : Pair Secret Key Plain Record) (p : Role)

theorem setPeer_self (e : Peer Key Plain Record) : (w.setPeer p e).peers p = e := update_self ..

theorem setPeer_other (e : Peer Key Plain Record) : (w.setPeer p e).peers p.other = w.peers p.other :=
  update_of_ne p.other_ne ..

variable (plain : Plain)

theorem accept_self : (w.accept S kind p plain).peers p =
      { w.peers p with
        carrier := rotateSendEpochIfNeeded S (w.peers p).carrier
        sending := some (w.peers p).carrier.pendingRekey
        sealed := (w.peers p).sealed ++ [⟨(rotateSendEpochIfNeeded S (w.peers p).carrier).send.context kind, plain⟩] } :=
  update_self ..

theorem accept_other : (w.accept S kind p plain).peers p.other = w.peers p.other := update_of_ne p.other_ne ..

theorem accept_wire : (w.accept S kind p plain).wire p.other = w.wire p.other ++
      [Entry.record S ⟨(rotateSendEpochIfNeeded S (w.peers p).carrier).send.context kind, plain⟩] :=
  update_self ..

theorem accept_wire_self : (w.accept S kind p plain).wire p = w.wire p := update_of_ne p.other_ne.symm ..

end

/-- the change of generation a `Send` without a transition leaves alone -/
theorem accept_change (S : Suite Secret Key Plain Record) (kind : UInt8) (p : Role)
    (plain : Plain) (hnot : ∀ s, w.change ≠ .armed p s) : (w.accept S kind p plain).change = w.change := by
  unfold accept
  split
  case h_1 q s hq =>
    split
    case isTrue hqp => exact absurd (hqp ▸ hq) (hnot s)
    case isFalse => rfl
  case h_2 => rfl

theorem accept_sealed (hidle : (w.peers p).sending = none) (hc : (w.peers p).carrier.send.counter ≠ maxUint64) (plain : Plain) :
    (w.peers p).sends.half.counter ≠ maxUint64 ∧
      ((w.accept S kind p plain).peers p).sealed = (w.peers p).sealed ++ [(w.peers p).sends.entry S kind plain] := by
  rw [accept_self, sends_idle hidle]
  exact ⟨hc, rfl⟩

theorem not_mem_snoc {errors : List RecordError} (h : RecordError.recordAuthentication ∉ errors) {err : RecordError}
    (herr : err ≠ .recordAuthentication) : .recordAuthentication ∉ errors ++ [err] := by
  rw [mem_append, mem_singleton]
  exact not_or.mpr ⟨h, herr.symm⟩

theorem finishSend_direction (c : EncryptedCarrier Key) (t : Option (RecordRekey Key)) :
    (finishSend c t).send.direction = c.send.direction ∧ (finishSend c t).receive.direction = c.receive.direction := by
  cases t <;> exact ⟨rfl, rfl⟩

theorem prepareRekey_eq [DecidableEq Key] (hS : Ideal S) (p : Role) (s : Secret) :
    prepareRekey S p (S.sessionKeys s) = some (S.transition p s) :=
  if_neg (not_or.mpr ⟨hS.session_ne_zero s .client, hS.session_ne_zero s .server⟩)

section

variable (h : Sync S kind w)
include h

/-- a step of one end that neither seals nor opens -/
theorem Sync.setPeer (p : Role) {e : Peer Key Plain Record}
    (hs : e.Sound S w.change p) (hsealed : e.sealed = (w.peers p).sealed) (hopened : e.opened = (w.peers p).opened)
    (hreceived : e.received = (w.peers p).received) (hreceives : e.receives = (w.peers p).receives)
    (hsends : e.closed = true ∨ e.sends = (w.peers p).sends ∧ e.closed = (w.peers p).closed)
    (hl : ∃ s, Lineage S w.change w.secrets p (w.peers p).sealed e.sends s) : Sync S kind (w.setPeer p e) := by
  refine .of p (setPeer_self ..) (setPeer_other ..) hs (h.sound _) ?_ ?_ (hsealed.symm ▸ hl) (h.lineage _)
  · rw [hsealed]
    rcases hsends with hclosed | ⟨hsends, hclosed⟩
    · rw [hclosed]
      exact (h.lane p).close _
    · rw [hsends, hclosed]
      exact h.lane p
  · rw [hopened, hreceived, hreceives]
    exact h.inbound p

/-- a call that returns an error, and may close the carrier -/
theorem Sync.note (p : Role) {closed : Bool} {errors : List RecordError}
    (hclosed : closed = true ∨ closed = (w.peers p).closed) (herrors : .recordAuthentication ∉ errors) :
    Sync S kind (w.setPeer p { w.peers p with closed := closed, errors := errors }) := by
  have hs := h.sound p
  refine h.setPeer p { hs with clean := herrors } rfl rfl rfl rfl ?_ (h.lineage p)
  exact hclosed.imp_right fun hc => ⟨rfl, hc⟩

/-! ## Sending -/

/-- a `Send` whose record the inner carrier does not take -/
theorem Sync.refuse (p : Role) (hidle : (w.peers p).sending = none) : Sync S kind
      (w.setPeer p (Peer.fail { w.peers p with carrier := rotateSendEpochIfNeeded S (w.peers p).carrier } .carrier)) := by
  have hs := h.sound p
  obtain ⟨-, -, hdir⟩ := Half.rotateIfNeeded_frame (S := S) (w.peers p).carrier.epochInterval (w.peers p).carrier.send
  obtain ⟨s, hl⟩ := h.lineage p
  refine h.setPeer p { hs with send := hdir.trans hs.send, clean := not_mem_snoc hs.clean nofun } rfl rfl rfl ?_
    (.inl rfl) ⟨s, ?_⟩
  · rw [receives_idle hidle, receives_idle]
    · rfl
    · exact hidle
  · have hrefuse := hl.refuse
    rw [sends_idle hidle] at hrefuse
    rw [sends_idle]
    · exact hrefuse
    · exact hidle

variable (hS : Ideal S)
include hS

section

variable (p : Role) {plain : Plain} (hl : S.length plain ≤ maxCellSize) (hidle : (w.peers p).sending = none)
  (hc : (w.peers p).carrier.send.counter ≠ maxUint64) (hopen : (w.peers p).closed = false)
include hl hidle hc hopen

theorem Sync.accept (hnone : (w.peers p).carrier.pendingRekey = none)
    (hquiet : ∀ s n, w.change ≠ .last p.other s n) : Sync S kind (w.accept S kind p plain) := by
  have hs := h.sound p
  have hnot : ∀ s, w.change ≠ .armed p s := fun s ha => nomatch hnone.symm.trans (hs.armed s ha).1
  have hchange := accept_change S kind p plain hnot
  obtain ⟨-, -, hdir⟩ := Half.rotateIfNeeded_frame (S := S) (w.peers p).carrier.epochInterval (w.peers p).carrier.send
  have hsends := sends_idle hidle
  have hsends' : ((w.accept S kind p plain).peers p).sends = (w.peers p).sends.advance S := by
    rw [accept_self, hsends, sends, hnone]
    rfl
  obtain ⟨hcounter, hentry⟩ := accept_sealed hidle hc plain
  refine .of p rfl (accept_other ..) ?_ ?_ ?_ ?_ ?_ ?_
  · rw [accept_self, hchange]
    refine ⟨hdir.trans hs.send, hs.receive, fun s ha => absurd ha (hnot s), fun t ht => ?_, hs.single, hs.clean⟩
    cases hnone.symm.trans ht
  · rw [hchange]
    exact h.sound _
  · have hlane := h.lane p
    rw [Pair.lane, hopen] at hlane
    have hemit := hlane.emit hquiet hcounter hl
    rw [hchange, hsends', accept_wire, accept_self, ← append_assoc]
    rw [hsends] at hemit ⊢
    rw [hopen]
    exact hemit
  · rw [hchange, accept_wire_self, accept_self, receives, hnone]
    have hin := h.inbound p
    rw [Pair.inbound, receives_idle hidle] at hin
    exact hin
  · obtain ⟨s, hlin⟩ := h.lineage p
    rw [hchange, hsends', hentry]
    exact ⟨s, hlin.emit hS hcounter plain⟩
  · rw [hchange]
    exact h.lineage _

/-- the record that ends a generation -/
theorem Sync.acceptLast {s : Secret} (harmed : w.change = .armed p s)
    (hquiet : (w.peers p).received ++ w.wire p = []) : Sync S kind (w.accept S kind p plain) := by
  have hs := h.sound p
  have hpending : (w.peers p).carrier.pendingRekey = some (S.transition p s) := (hs.armed s harmed).1
  have hnot : ∀ r s n, w.change ≠ .last r s n := fun _ _ _ hx => nomatch harmed.symm.trans hx
  have hchange : (w.accept S kind p plain).change = .last p s ((w.peers p).sealed.length + 1) := by
    unfold Pair.accept
    simp only [harmed, if_true]
  obtain ⟨-, -, hdir⟩ := Half.rotateIfNeeded_frame (S := S) (w.peers p).carrier.epochInterval (w.peers p).carrier.send
  have hsends := sends_idle hidle
  have hsettled : ((w.accept S kind p plain).peers p).sends = S.fresh s p ∧
      ((w.accept S kind p plain).peers p).receives = S.fresh s p.other := by
    rw [accept_self, hpending]
    refine ⟨?_, ?_⟩
    · exact congrArg (fun d => (⟨⟨_, _, d, 0, 0⟩, _⟩ : Cursor Key)) (hdir.trans hs.send)
    · exact congrArg (fun d => (⟨⟨_, _, d, 0, 0⟩, _⟩ : Cursor Key)) hs.receive
  obtain ⟨hcounter, hentry⟩ := accept_sealed hidle hc plain
  refine .of p rfl (accept_other ..) ?_ ?_ ?_ ?_ ?_ ?_
  · rw [accept_self, hchange]
    exact ⟨hdir.trans hs.send, hs.receive, nofun, fun t ht => .inr (congrArg some ht), hs.single, hs.clean⟩
  · have ho := h.sound p.other
    rw [hchange]
    refine { ho with armed := nofun, pending := fun t ht => ?_ }
    rcases ho.pending t ht with ⟨s', hs'⟩ | hsending
    · exact absurd (Change.armed.inj (harmed.symm.trans hs')).1.symm p.other_ne
    · exact .inr hsending
  · have hlane := h.lane p
    rw [Pair.lane, hopen] at hlane
    have hemit := hlane.emitLast hnot hcounter hl s
    rw [hchange, hsettled.1, hentry, accept_wire, accept_self, ← append_assoc]
    rw [hsends] at hemit ⊢
    rw [hopen]
    exact hemit
  · have hin := h.inbound p
    rw [Pair.inbound, hquiet] at hin
    have hdrained := hin.drained hnot s ((w.peers p).sealed.length + 1)
    rw [p.other_other] at hdrained
    rw [hchange, hsettled.2, accept_wire_self, accept_self]
    rw [hquiet]
    exact hdrained
  · obtain ⟨s', hlin⟩ := h.lineage p
    have hemit : Lineage S w.change w.secrets p ((w.peers p).sealed ++ [(w.peers p).sends.entry S kind plain]) _ s' :=
      hlin.emit hS hcounter plain
    obtain ⟨hmem, -, hnone⟩ := hemit.entering s (.inl ⟨p, harmed⟩)
    rw [hchange, hsettled.1, hentry]
    refine ⟨s, hemit.enter hmem hnone fun t ht => ?_⟩
    rcases ht with ⟨_, ht⟩ | ⟨_, ht⟩
    · cases ht
    · exact p.other_ne (Change.last.inj ht).1.symm
  · obtain ⟨s', hlin⟩ := h.lineage p.other
    rw [hchange]
    refine ⟨s', hlin.frame fun t ht => ?_⟩
    rcases ht with ⟨_, ht⟩ | ⟨_, ht⟩
    · cases ht
    · exact .inl ⟨p, (Change.last.inj ht).2.1 ▸ harmed⟩

end

omit hS in
theorem Sync.sendReturn (p : Role) : Sync S kind (w.sendReturn p) := by
  unfold Pair.sendReturn
  split
  case h_1 => exact h
  case h_2 t ht =>
    have hs := h.sound p
    obtain ⟨hsend, hreceive⟩ := finishSend_direction (w.peers p).carrier t
    have hsettled : (w.peers p).settled = finishSend (w.peers p).carrier t := by rw [settled, ht]
    refine h.setPeer p ⟨hsend.trans hs.send, hreceive.trans hs.receive, fun s ha => ?_, fun u hu => ?_, hs.single, hs.clean⟩
      rfl rfl rfl
      ?_ (.inr ⟨?_, rfl⟩) ?_
    · obtain ⟨hpending, hno⟩ := hs.armed s ha
      cases t with
      | none => exact ⟨hpending, nofun⟩
      | some u => exact absurd ht (hno u)
    · cases t with
      | none => exact .inl ((hs.pending u hu).resolve_right fun hx => nomatch ht.symm.trans hx)
      | some _ => cases hu
    · rw [receives, receives, hsettled]
      rfl
    · rw [sends, sends, hsettled]
      rfl
    · obtain ⟨s, hl⟩ := h.lineage p
      rw [sends, hsettled] at hl
      exact ⟨s, hl⟩

/-! ## Receiving -/

omit hS in
theorem Sync.take (p : Role) (hquiet : (w.peers p).received = []) : Sync S kind (w.take p) := by
  unfold Pair.take
  split
  case h_1 => exact h
  case h_2 record rest hwire =>
    have hs := h.sound p
    refine .of p (update_self ..) (update_of_ne p.other_ne ..) ?_ (h.sound _) ?_ ?_ (h.lineage p) (h.lineage _)
    · exact { hs with single := by rw [hquiet]; exact le_refl _ }
    · simp only [update_of_ne p.other_ne]
      exact h.lane p
    · have hin := h.inbound p
      simp only [Pair.inbound, hwire, hquiet, nil_append] at hin
      simp only [update_self, hquiet, nil_append, singleton_append]
      exact hin

theorem Sync.receive (p : Role) (i : ℕ)
    (hagreed : ∀ s, w.change ≠ .last p.other s (w.peers p).opened.length) : Sync S kind (w.receive S kind p i) := by
  unfold Pair.receive
  simp only
  split
  case isTrue => exact h
  case isFalse hlock =>
    have hlock : (w.peers p).receiveLocked = false := by simpa using hlock
    split
    case h_1 => exact h
    case h_2 record hrecord =>
      have hs := h.sound p
      -- one `Receive` at a time: it has the first record in flight
      have hreceived : (w.peers p).received = [record] ∧ i = 0 := by
        have hsingle := hs.single
        match hr : (w.peers p).received with
        | [] =>
          rw [hr] at hrecord
          cases hrecord
        | [r] =>
          rw [hr] at hrecord
          cases i with
          | zero => exact ⟨by rw [Option.some.inj hrecord], rfl⟩
          | succ i => cases hrecord
        | _ :: _ :: _ =>
          rw [hr] at hsingle
          simp at hsingle
      have hin := h.inbound p
      rw [Pair.inbound, hreceived.1, receives_open hlock] at hin
      obtain ⟨plain, hplain, hc, hl, hlane⟩ := hin.arrive hagreed
      have hopened := openRecord_entry hS kind { w.peers p with received := (w.peers p).received.eraseIdx i } rfl hc hl
      rw [hplain]
      generalize openRecord S kind _ _ = e at hopened ⊢
      obtain ⟨-, -, hdir⟩ := Half.rotateIfNeeded_frame (S := S) (w.peers p).carrier.epochInterval (w.peers p).carrier.receive
      have hsends : e.sends = (w.peers p).sends := by
        rw [hopened]
        exact sends_frame rfl rfl
      have hempty : e.received = [] := by
        rw [hopened, hreceived.1, hreceived.2]
        rfl
      refine .of p (setPeer_self ..) (setPeer_other ..) ?_ (h.sound _) ?_ ?_ ?_ (h.lineage _)
      · rw [hopened]
        refine { hs with receive := hdir.trans hs.receive, single := ?_ }
        rw [hreceived.1, hreceived.2]
        exact Nat.zero_le _
      · rw [hsends, hopened]
        exact h.lane p
      · rw [hempty, receives_open (by rw [hopened]; exact hlock), hopened]
        exact hlane
      · rw [hsends, hopened]
        exact h.lineage p

/-! ## Changing the generation -/

theorem Sync.rekeyAfterNextSend [DecidableEq Key] (p : Role)
    (s : Secret) (hnone : w.change = .none) (hnew : s ∉ w.secrets) : Sync S kind (w.rekeyAfterNextSend S p s) := by
  have hs := h.sound p
  simp only [Pair.rekeyAfterNextSend, prepareRekey_eq hS]
  split
  case isTrue => exact h
  case isFalse hidle =>
    have hidle : (w.peers p).sending = none := by simpa using hidle
    split
    case isTrue => exact h.note p (.inr rfl) (not_mem_snoc hs.clean nofun)
    case isFalse =>
      refine .of p (setPeer_self ..) (setPeer_other ..) ?_ ?_ ?_ ?_ ?_ ?_
      · refine { hs with armed := fun s' ha => ?_, pending := fun t _ => .inl ⟨s, rfl⟩ }
        cases ha
        exact ⟨rfl, fun t ht => nomatch hidle.symm.trans ht⟩
      · have ho := h.sound p.other
        refine { ho with armed := fun s' ha => ?_, pending := fun t ht => ?_ }
        · exact absurd (Change.armed.inj ha).1.symm p.other_ne
        · exact .inr ((ho.pending t ht).resolve_left fun ⟨_, hx⟩ => nomatch hnone.symm.trans hx)
      · have hlane := h.lane p
        rw [Pair.lane, hnone, sends_idle hidle] at hlane
        rw [sends_idle]
        · exact hlane.arm p s
        · exact hidle
      · have hin := h.inbound p
        rw [Pair.inbound, hnone, receives_idle hidle] at hin
        rw [receives_idle]
        · exact hin.arm p s
        · exact hidle
      · obtain ⟨s', hlin⟩ := h.lineage p
        rw [sends_idle hidle] at hlin
        rw [sends_idle]
        · exact ⟨s', hlin.arm hS hnew p⟩
        · exact hidle
      · obtain ⟨s', hlin⟩ := h.lineage p.other
        exact ⟨s', hlin.arm hS hnew p⟩

theorem Sync.rekey [DecidableEq Key] (p : Role) (s : Secret)
    (hlast : w.change = .last p.other s (w.peers p).opened.length) : Sync S kind (w.rekey S p s) := by
  have hs := h.sound p
  simp only [Pair.rekey, prepareRekey_eq hS]
  split
  case isTrue => exact h
  case isFalse hidle =>
    have hidle : (w.peers p).sending = none := by simpa using hidle
    -- both halves start afresh
    have hsettled : ∀ e : Peer Key Plain Record, e.sending = none →
        e.carrier = { applyRekeyLocked (w.peers p).carrier (S.transition p s) with pendingRekey := none } →
        e.sends = S.fresh s p ∧ e.receives = S.fresh s p.other := by
      intro e he hcarrier
      rw [sends_idle he, receives_idle he, hcarrier]
      refine ⟨?_, ?_⟩
      · exact congrArg (fun d => (⟨⟨_, _, d, 0, 0⟩, _⟩ : Cursor Key)) hs.send
      · exact congrArg (fun d => (⟨⟨_, _, d, 0, 0⟩, _⟩ : Cursor Key)) hs.receive
    refine .of p (setPeer_self ..) (setPeer_other ..) { hs with armed := nofun, pending := nofun } ?_ ?_ ?_ ?_ ?_
    · have ho := h.sound p.other
      refine { ho with armed := nofun, pending := fun t ht => ?_ }
      exact .inr ((ho.pending t ht).resolve_left fun ⟨_, hx⟩ => nomatch hlast.symm.trans hx)
    · have hlane := h.lane p
      rw [Pair.lane, hlast] at hlane
      rw [(hsettled _ ?_ ?_).1]
      · exact hlane.followSends s _
      · exact hidle
      · rfl
    · have hin := h.inbound p
      rw [Pair.inbound, hlast] at hin
      rw [(hsettled _ ?_ ?_).2]
      · exact hin.follow s
      · exact hidle
      · rfl
    · obtain ⟨s', hlin⟩ := h.lineage p
      obtain ⟨hmem, -, hnone⟩ := hlin.entering s (.inr ⟨_, hlast⟩)
      rw [(hsettled _ ?_ ?_).1]
      · refine ⟨s, hlin.enter hmem hnone fun t ht => ?_⟩
        rcases ht with ⟨_, ht⟩ | ⟨_, ht⟩ <;> cases ht
      · exact hidle
      · rfl
    · obtain ⟨s', hlin⟩ := h.lineage p.other
      refine ⟨s', hlin.frame fun t ht => ?_⟩
      rcases ht with ⟨_, ht⟩ | ⟨_, ht⟩ <;> cases ht

/-! ## Every run -/

theorem Sync.send (p : Role) (plain : Plain) (accepted : Bool)
    (hquiet : w.Quiet (.send p plain accepted)) : Sync S kind (w.send S kind p plain accepted) := by
  have hs := h.sound p
  unfold Pair.send
  simp only
  split
  case isTrue => exact h.note p (.inl rfl) (not_mem_snoc hs.clean nofun)
  case isFalse hl =>
    split
    case isTrue => exact h
    case isFalse hidle =>
      have hidle : (w.peers p).sending = none := by simpa using hidle
      split
      case isTrue => exact h.note p (.inl rfl) (not_mem_snoc hs.clean nofun)
      case isFalse hc =>
        split
        case isFalse => exact h.refuse p hidle
        case isTrue hopen =>
          cases hpending : (w.peers p).carrier.pendingRekey with
          | none => exact h.accept hS p (Nat.le_of_not_lt hl) hidle hc hopen.2 hpending hquiet.2
          | some t =>
            obtain ⟨s, harmed⟩ := (hs.pending t hpending).resolve_right fun hx => nomatch hidle.symm.trans hx
            exact h.acceptLast hS p (Nat.le_of_not_lt hl) hidle hc hopen.2 harmed (hquiet.1 s harmed)

theorem Sync.step [DecidableEq Key] (o : Op Secret Plain) (hagreed : w.Agreed o)
    (hquiet : w.Quiet o) : Sync S kind (w.step S kind o) := by
  cases o with
  | send p plain accepted => exact h.send hS p plain accepted hquiet
  | sendReturn p => exact h.sendReturn p
  | take p => exact h.take p hquiet
  | receive p i => exact h.receive hS p i hagreed
  | rekeyAfterNextSend p s => exact h.rekeyAfterNextSend hS p s hagreed.1 hagreed.2
  | rekey p s => exact h.rekey hS p s hagreed
  | close p => exact h.note p (.inl rfl) (h.sound p).clean

end

theorem start_sync [DecidableEq Key] (hS : Ideal S) (s : Secret) {client server : EncryptedCarrier Key}
    (hclient : newEncryptedCarrier S .client (S.sessionKeys s) = some client)
    (hserver : newEncryptedCarrier S .server (S.sessionKeys s) = some server) :
    Sync S kind (start s client server : Pair Secret Key Plain Record) := by
  have hkeys : ¬((S.sessionKeys s).clientToServer = S.zero ∨ (S.sessionKeys s).serverToClient = S.zero) :=
    not_or.mpr ⟨hS.session_ne_zero s .client, hS.session_ne_zero s .server⟩
  rw [newEncryptedCarrier, if_neg hkeys] at hclient hserver
  cases hclient
  cases hserver
  have hlin : ∀ p : Role, Lineage S (.none : Change Secret) [s] p ([] : List (Entry Key Plain))
      ⟨⟨(S.sessionKeys s).key p, (S.sessionKeys s).nonce p, p.direction, 0, 0⟩, 0⟩ s := by
    intro p
    refine ⟨mem_cons_self, .base, rfl, Nat.zero_le _, nofun, nofun, fun t ht => ?_, nodup_nil⟩
    rcases ht with ⟨_, ht⟩ | ⟨_, ht⟩ <;> cases ht
  refine .of .client rfl rfl ⟨rfl, rfl, nofun, nofun, Nat.zero_le _, nofun⟩ ⟨rfl, rfl, nofun, nofun, Nat.zero_le _, nofun⟩ ?_ ?_
    ⟨s, hlin _⟩ ⟨s, hlin _⟩
  · exact .steady [] nofun rfl rfl (.nil _) fun _ => rfl
  · exact .steady [] nofun rfl rfl (.nil _) fun _ => rfl

/-- **The record layers stay in step.** For two carriers of one handshake and every run of `Send`, `Receive` and agreed changes of
generation in which the other side is quiet while a change is under way, every record is opened with the key, nonce, epoch and
associated data it was sealed with, in the order sent; no record fails to authenticate; and no key seals two records under one
nonce. -/
theorem records_in_step [DecidableEq Key] (hS : Ideal S) (kind : UInt8) (s : Secret) {client server : EncryptedCarrier Key}
    (hclient : newEncryptedCarrier S .client (S.sessionKeys s) = some client)
    (hserver : newEncryptedCarrier S .server (S.sessionKeys s) = some server) (ops : List (Op Secret Plain))
    (hg : Machine.Guarded (step S kind) (fun w o => w.Agreed o ∧ w.Quiet o) (start s client server) ops) :
    (∀ p, (((start s client server).run S kind ops).peers p.other).opened <+:
        (((start s client server).run S kind ops).peers p).sealed) ∧
      (∀ p, RecordError.recordAuthentication ∉ (((start s client server).run S kind ops).peers p).errors) ∧
      ((((start s client server).run S kind ops).peers .client).sealed.map Entry.keyNonce ++
        (((start s client server).run S kind ops).peers .server).sealed.map Entry.keyNonce).Nodup := by
  have hsync : Sync S kind ((start s client server).run S kind ops) :=
    Machine.run_inv_guarded (fun _ o h hok => h.step hS o hok.1 hok.2) (start_sync hS s hclient hserver) ops hg
  refine ⟨fun p => (hsync.lane p).in_order, fun p => (hsync.sound p).clean, ?_⟩
  obtain ⟨c, hc⟩ := hsync.lineage .client
  obtain ⟨d, hd⟩ := hsync.lineage .server
  -- the two directions have no key in common
  refine nodup_append.mpr ⟨hc.once, hd.once, fun x hx y hy hxy => ?_⟩
  obtain ⟨e, he, hex⟩ := mem_map.mp hx
  obtain ⟨e', he', hey⟩ := mem_map.mp hy
  obtain ⟨_, -, hk⟩ := hc.known e he
  obtain ⟨_, -, hk'⟩ := hd.known e' he'
  have hkey : e.context.key = e'.context.key := congrArg Prod.fst (hex.trans (hxy.trans hey.symm))
  rw [← hkey] at hk'
  cases (hk.unique hS hk').2

/-! ## Symbolic cryptography -/

/-- the keys as terms -/
inductive Term where
  | zero
  | session (s : ℕ) (p : Role)
  | epoch (k : Term) (d : UInt8) (e : ℕ)
deriving DecidableEq

/-- a record is what it was made of -/
structure Sealed (Plain : Type) where
  key : Term
  nonce : List UInt8
  plain : Plain
  aad : List UInt8

def symbolic {Plain : Type} (length : Plain → ℕ) : Suite ℕ Term Plain (Sealed Plain) where
  zero := .zero
  sessionKeys := fun s => ⟨.session s .client, .session s .server, Vector.replicate 4 1, Vector.replicate 4 2⟩
  deriveRecordEpochKey := .epoch
  aeadSeal := fun k n p a => ⟨k, n, p, a⟩
  aeadOpen := fun k n r a => if r.key = k ∧ r.nonce = n ∧ r.aad = a then some r.plain else none
  length := length
  size := fun r => length r.plain + overhead

theorem symbolic_key {Plain : Type} (length : Plain → ℕ) (s : ℕ) (p : Role) :
    ((symbolic length).sessionKeys s).key p = .session s p := by cases p <;> rfl

theorem symbolic_ideal {Plain : Type} (length : Plain → ℕ) : Ideal (symbolic length) where
  open_seal := fun k n p a => if_pos ⟨rfl, rfl, rfl⟩
  size_seal := fun _ _ _ _ => rfl
  session_ne_zero := by
    intro s p
    rw [symbolic_key]
    exact nofun
  session_inj := by
    intro s s' p p' h
    rw [symbolic_key, symbolic_key] at h
    exact Term.session.inj h
  epoch_inj := fun _ _ _ _ _ _ h => Term.epoch.inj h
  session_ne_epoch := by
    intro s p k d e
    rw [symbolic_key]
    exact nofun

section

variable {Secret : Type}

instance (c : Change Secret) (p : Role) (n : ℕ) : Decidable (∀ s, c ≠ .last p s n) :=
  match c with
  | .none => isTrue nofun
  | .armed _ _ => isTrue nofun
  | .last r s m =>
    if h : r = p ∧ m = n then isFalse fun hx => hx s (by rw [h.1, h.2])
    else isTrue fun _ hx => h ⟨(Change.last.inj hx).1, (Change.last.inj hx).2.2⟩

theorem none_ne_last (p : Role) (s : Secret) (n : ℕ) : Change.none ≠ .last p s n := nofun

instance (c : Change Secret) (p : Role) : Decidable (∀ s n, c ≠ .last p s n) :=
  match c with
  | .none => isTrue (none_ne_last p)
  | .armed _ _ => isTrue nofun
  | .last r s m => if h : r = p then isFalse fun hx => hx s m (by rw [h]) else isTrue fun _ _ hx => h (Change.last.inj hx).1

instance (c : Change Secret) (p : Role) (a : Prop) [Decidable a] : Decidable (∀ s, c = .armed p s → a) :=
  match c with
  | .none => isTrue nofun
  | .last _ _ _ => isTrue nofun
  | .armed r s =>
    if ha : a then isTrue fun _ _ => ha
    else if h : r = p then isFalse fun hx => ha (hx s (by rw [h])) else isTrue fun _ hx => absurd (Change.armed.inj hx).1 h

end

instance (w : Pair ℕ Term (List UInt8) (Sealed (List UInt8))) : ∀ o, Decidable (w.Agreed o)
  | .rekeyAfterNextSend _ _ => inferInstanceAs (Decidable (_ ∧ _))
  | .rekey _ _ => inferInstanceAs (Decidable (_ = _))
  | .send _ _ _ | .receive _ _ => inferInstanceAs (Decidable (∀ s, _ ≠ Change.last _ s _))
  | .sendReturn _ | .take _ | .close _ => isTrue trivial

instance (w : Pair ℕ Term (List UInt8) (Sealed (List UInt8))) : ∀ o, Decidable (w.Quiet o)
  | .send _ _ _ => inferInstanceAs (Decidable (_ ∧ _))
  | .take _ => inferInstanceAs (Decidable (_ = _))
  | .sendReturn _ | .receive _ _ | .rekeyAfterNextSend _ _ | .rekey _ _ | .close _ => isTrue trivial

/-- the carrier of one end -/
def symbolicCarrier (p : Role) : EncryptedCarrier Term :=
  { send := ⟨.session 0 p, ((symbolic (@List.length UInt8)).sessionKeys 0).nonce p, p.direction, 0, 0⟩
    receive := ⟨.session 0 p.other, ((symbolic (@List.length UInt8)).sessionKeys 0).nonce p.other, p.other.direction, 0, 0⟩
    epochInterval := 0
    pendingRekey := none }

/-- the server ends a generation, the client follows, and a record of the new generation goes each way -/
def changed : List (Op ℕ (List UInt8)) :=
  [.send .client [7] true, .sendReturn .client, .take .server, .receive .server 0, .rekeyAfterNextSend .server 1,
    .send .server [8] true, .take .client, .receive .client 0, .rekey .client 1, .send .client [9] true, .take .server,
    .sendReturn .server, .receive .server 0, .send .server [10] true, .take .client, .receive .client 0]

theorem records_in_step_changed :
    ∃ w, (start 0 (symbolicCarrier .client) (symbolicCarrier .server)).run (symbolic List.length) 3 changed = w ∧
      (w.peers .server).opened.length = 2 ∧ (w.peers .server).opened <+: (w.peers .client).sealed :=
  ⟨_, rfl, by decide, (records_in_step (symbolic_ideal List.length) 3 0 rfl rfl changed (by decide)).1 .client⟩

/-- **A record that crosses the last one of a generation is not opened.** The client's record is in flight when the server sends
the last record of the old generation: the server opens it with the keys of the new one. -/
theorem crossing_record_rejected :
    ¬∀ (S : Suite ℕ Term (List UInt8) (Sealed (List UInt8))) (_ : Ideal S) (kind : UInt8) (s : ℕ)
      (client server : EncryptedCarrier Term)
      (_ : newEncryptedCarrier S .client (S.sessionKeys s) = some client)
      (_ : newEncryptedCarrier S .server (S.sessionKeys s) = some server) (ops : List (Op ℕ (List UInt8))),
      Machine.Guarded (step S kind) Agreed (start s client server) ops →
        ∀ p, RecordError.recordAuthentication ∉ (((start s client server).run S kind ops).peers p).errors := by
  intro h
  have hclean := h (symbolic List.length) (symbolic_ideal _) 3 0 (symbolicCarrier .client) (symbolicCarrier .server) rfl rfl
    [.send .client [7] true, .sendReturn .client, .rekeyAfterNextSend .server 1, .send .server [8] true, .sendReturn .server,
      .take .server, .receive .server 0] (by decide) .server
  revert hclean
  decide

end Pair

end NeProto.Session.Record
