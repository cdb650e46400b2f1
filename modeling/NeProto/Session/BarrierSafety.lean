/-
The forward-secret barrier is safe (`internal/session/authenticated_extensions.go`, `docs/SPEC.md`).

- `Gen`: a carrier is in a generation; every step but a change of generation keeps it there.
- `Pair.Moves`: what a step of the record layers does to the logs, the agreed change and the generations.
- `Inv`: how far the negotiators are decides what has been sent and which change is under way.
- `barrier_safe`: under `Completed` every record authenticates, the server returns only when both sides are in the new generation
  with the same keys, and it opens what the client sent before and after its verification with the keys of its time.
- `late_cell_rejected`: a server whose negotiation has timed out breaks the session with its next cell.
-/
import NeProto.Session.Barrier

namespace NeProto.Session.Record

open Function List

variable {Secret Key Plain Record : Type} {S : Suite Secret Key Plain Record} {kind : UInt8}

/-! ## Generations -/

/-- a carrier is in the generation of a secret and no change is armed -/
structure Gen (S : Suite Secret Key Plain Record) (s : Secret) (p : Role) (e : Peer Key Plain Record) : Prop where
  send : Chain S s p e.carrier.send.key
  receive : Chain S s p.other e.carrier.receive.key
  sendPrefix : e.carrier.send.noncePrefix = (S.sessionKeys s).nonce p
  receivePrefix : e.carrier.receive.noncePrefix = (S.sessionKeys s).nonce p.other
  pending : e.carrier.pendingRekey = none
  sending : ∀ t, e.sending ≠ some (some t)

/-- a step of one end that keeps its logs and its generation -/
structure Moved (S : Suite Secret Key Plain Record) (e e' : Peer Key Plain Record) : Prop where
  sealed : e'.sealed = e.sealed
  opened : e'.opened = e.opened
  gen : ∀ s p, Gen S s p e → Gen S s p e'

/-- only the carrier and the `Send` in progress say which generation it is -/
theorem Gen.frame {s : Secret} {p : Role} {e e' : Peer Key Plain Record} (h : Gen S s p e) (hc : e'.carrier = e.carrier)
    (hs : e'.sending = e.sending) : Gen S s p e' :=
  ⟨hc ▸ h.send, hc ▸ h.receive, hc ▸ h.sendPrefix, hc ▸ h.receivePrefix, hc ▸ h.pending, hs ▸ h.sending⟩

theorem Moved.refl (e : Peer Key Plain Record) : Moved S e e := ⟨rfl, rfl, fun _ _ h => h⟩

theorem Peer.fail_moved {e e' : Peer Key Plain Record} (h : Moved S e e') (err : RecordError) : Moved S e (e'.fail err) :=
  ⟨h.sealed, h.opened, fun s p hg => (h.gen s p hg).frame rfl rfl⟩

/-- what a step of the record layers does -/
inductive Pair.Moves (S : Suite Secret Key Plain Record) (kind : UInt8) (w : Pair Secret Key Plain Record) :
    Op Secret Plain → Pair Secret Key Plain Record → Prop where
  | quiet {o : Op Secret Plain} (p : Role) (e : Peer Key Plain Record) (wire : Role → List Record) (h : Moved S (w.peers p) e)
    (hsending : e.sending = (w.peers p).sending ∨ o = .sendReturn p) :
    Moves S kind w o ⟨update w.peers p e, wire, w.change, w.secrets⟩
  | accept {p : Role} {plain : Plain} {accepted : Bool} (h : (w.peers p).sending = none) :
    Moves S kind w (.send p plain accepted) (w.accept S kind p plain)
  | opened {p : Role} {i : ℕ} (e : Peer Key Plain Record) (entry : Entry Key Plain) (hsealed : e.sealed = (w.peers p).sealed)
    (hopened : e.opened = (w.peers p).opened ++ [entry]) (hgen : ∀ s q, Gen S s q (w.peers p) → Gen S s q e)
    (hsending : e.sending = (w.peers p).sending) :
    Moves S kind w (.receive p i) (w.setPeer p e)
  | armed {p : Role} {s : Secret} (t : RecordRekey Key) (h : (w.peers p).sending = none) :
    Moves S kind w (.rekeyAfterNextSend p s)
      { w.setPeer p { w.peers p with carrier := { (w.peers p).carrier with pendingRekey := some t } } with
        change := .armed p s
        secrets := s :: w.secrets }
  | rekeyed {p : Role} {s : Secret} (t : RecordRekey Key) (h : (w.peers p).sending = none) :
    Moves S kind w (.rekey p s)
      { w.setPeer p { w.peers p with carrier := { applyRekeyLocked (w.peers p).carrier t with pendingRekey := none } } with
        change := .none }

namespace Pair

theorem Moves.idle (S : Suite Secret Key Plain Record) (kind : UInt8) (w : Pair Secret Key Plain Record) (o : Op Secret Plain) :
    Moves S kind w o w := by
  have h : Moves S kind w o _ := .quiet .client _ w.wire (.refl (w.peers .client)) (.inl rfl)
  rwa [update_eq_self] at h

theorem Moves.setPeer {w : Pair Secret Key Plain Record} {o : Op Secret Plain} (p : Role) {e : Peer Key Plain Record}
    (h : Moved S (w.peers p) e) (hsending : e.sending = (w.peers p).sending) : Moves S kind w o (w.setPeer p e) :=
  .quiet p e w.wire h (.inl hsending)

variable (w : Pair Secret Key Plain Record) (p : Role)

theorem send_moves (plain : Plain) (accepted : Bool) :
    Moves S kind w (.send p plain accepted) (w.send S kind p plain accepted) := by
  unfold send
  simp only
  split
  · exact .setPeer p (Peer.fail_moved (.refl _) _) rfl
  split
  case isTrue => exact .idle S kind w _
  case isFalse hidle =>
    split
    · exact .setPeer p (Peer.fail_moved (.refl _) _) rfl
    split
    · exact .accept (by simpa using hidle)
    refine .setPeer p (Peer.fail_moved ?_ _) rfl
    refine ⟨rfl, rfl, fun _ _ hg => ?_⟩
    obtain ⟨-, hprefix, -⟩ := Half.rotateIfNeeded_frame (S := S) (w.peers p).carrier.epochInterval (w.peers p).carrier.send
    exact { hg with send := hg.send.rotate _, sendPrefix := hprefix.trans hg.sendPrefix }

theorem sendReturn_moves : Moves S kind w (.sendReturn p) (w.sendReturn p) := by
  unfold sendReturn
  split
  case h_1 => exact .idle S kind w _
  case h_2 t ht =>
    refine .quiet p _ w.wire ⟨rfl, rfl, fun s q hg => ?_⟩ (.inr rfl)
    cases t with
    | none => exact { hg with sending := nofun }
    | some t => exact absurd ht (hg.sending t)

theorem take_moves : Moves S kind w (.take p) (w.take p) := by
  unfold take
  split
  · exact .idle S kind w _
  · exact .quiet p _ _ ⟨rfl, rfl, fun _ _ hg => hg.frame rfl rfl⟩ (.inl rfl)

theorem receive_moves (i : ℕ) : Moves S kind w (.receive p i) (w.receive S kind p i) := by
  have herase : ∀ received : List Record, Moved S (w.peers p) { w.peers p with received := received } := fun _ =>
    ⟨rfl, rfl, fun _ _ hg => hg.frame rfl rfl⟩
  unfold receive
  simp only
  split
  · exact .idle S kind w _
  split
  · exact .idle S kind w _
  unfold Peer.openRecord
  simp only
  split
  · exact .setPeer p (Peer.fail_moved (herase _) _) rfl
  have hrotate : Moved S (w.peers p)
      { { w.peers p with received := (w.peers p).received.eraseIdx i } with
        carrier := rotateReceiveEpochIfNeeded S (w.peers p).carrier } := by
    refine ⟨rfl, rfl, fun _ _ hg => ?_⟩
    obtain ⟨-, hprefix, -⟩ := Half.rotateIfNeeded_frame (S := S) (w.peers p).carrier.epochInterval (w.peers p).carrier.receive
    exact { hg with receive := hg.receive.rotate _, receivePrefix := hprefix.trans hg.receivePrefix }
  split
  · exact .setPeer p (Peer.fail_moved hrotate _) rfl
  split
  · exact .setPeer p (Peer.fail_moved hrotate _) rfl
  refine .opened _ _ rfl rfl (fun s q hg => ?_) rfl
  have hg' := hrotate.gen s q hg
  exact { hg' with }

theorem moves [DecidableEq Key] (S : Suite Secret Key Plain Record) (kind : UInt8) (w : Pair Secret Key Plain Record)
    (o : Op Secret Plain) : Moves S kind w o (w.step S kind o) := by
  cases o with
  | send p plain accepted => exact send_moves w p plain accepted
  | sendReturn p => exact sendReturn_moves w p
  | take p => exact take_moves w p
  | receive p i => exact receive_moves w p i
  | rekeyAfterNextSend p s =>
    simp only [step, rekeyAfterNextSend]
    split
    · exact .setPeer p ⟨rfl, rfl, fun _ _ hg => hg.frame rfl rfl⟩ rfl
    split
    case isTrue => exact .idle S kind w _
    case isFalse hidle =>
      split
      · exact .setPeer p ⟨rfl, rfl, fun _ _ hg => hg.frame rfl rfl⟩ rfl
      · exact .armed _ (by simpa using hidle)
  | rekey p s =>
    simp only [step, rekey]
    split
    · exact .setPeer p ⟨rfl, rfl, fun _ _ hg => hg.frame rfl rfl⟩ rfl
    split
    case isTrue => exact .idle S kind w _
    case isFalse hidle => exact .rekeyed _ (by simpa using hidle)
  | close p => exact .setPeer p ⟨rfl, rfl, fun _ _ hg => hg.frame rfl rfl⟩ rfl

end Pair

/-- a step that neither sends nor changes the generation -/
def Op.keeps {Secret Plain : Type} : Op Secret Plain → Bool
  | .send .. | .rekeyAfterNextSend .. | .rekey .. => false
  | .sendReturn _ | .take _ | .receive .. | .close _ => true

/-- the client has left the old generation, or will not do so any more -/
def ClientStage.past {Secret Public : Type} : ClientStage Secret Public → Prop
  | .rekeyed _ _ | .acking | .done | .failed => True
  | _ => False

namespace Barrier

variable {Secret Key Private Public Proof Record : Type} {C : Config Secret Key Private Public Proof Record}
  {b b' : Barrier Secret Key Public Proof Record}

open Pair

/-! ## Invariant -/

variable (C b)

/-- the keys both sides derive -/
def Config.shared : Option Secret :=
  C.exchange.derive C.base C.clientPrivate C.serverPublic C.serverPublic C.clientPublic

/-- the first extension message of a side -/
def Config.first : Role → ExtensionEnvelope Public Proof
  | .server => C.offer
  | .client => C.accept

/-- the ID of the second one -/
def secondID : Role → ℕ
  | .server => 3
  | .client => 4

/-- a side holds the derived keys, and its carrier is in their generation -/
def Switched (p : Role) : Prop := ∃ k, C.shared = some k ∧ b.keys p = k ∧ Gen C.suite k p (b.pair.peers p)

/-- what has happened when the server's negotiator is there -/
def ServerAt : ServerStage Secret Public → Prop
  | .offer => (b.pair.peers .server).sealed.length = 0 ∧ b.pair.change = .none ∧ b.pair.secrets = [C.base]
  | .offering | .awaitAccept => (b.pair.peers .server).sealed.length = 1 ∧ b.pair.change = .none ∧ b.pair.secrets = [C.base]
  | .accepted k client => (b.pair.peers .server).sealed.length = 1 ∧ b.pair.change = .none ∧ b.pair.secrets = [C.base] ∧
    C.shared = some k ∧ client = C.clientPublic ∧ 1 ≤ (b.pair.peers .server).opened.length
  | .armed k client => (b.pair.peers .server).sealed.length = 1 ∧ b.pair.change = .armed .server k ∧ C.shared = some k ∧
    client = C.clientPublic
  | .confirming k _ => (b.pair.peers .server).sealed.length = 2 ∧ C.shared = some k ∧
    (b.pair.peers .server).sending = some (some (C.suite.transition .server k))
  | .awaitAck k _ => (b.pair.peers .server).sealed.length = 2 ∧ C.shared = some k ∧ Switched C b .server
  | .done => 2 ≤ (b.pair.peers .server).sealed.length ∧ 2 ≤ (b.pair.peers .client).sealed.length ∧ Switched C b .server
  | .failed => (b.pair.peers .server).sealed.length ≤ 2

/-- what has happened when the client's negotiator is there -/
def ClientAt : ClientStage Secret Public → Prop
  | .awaitOffer => (b.pair.peers .client).sealed.length = 0
  | .selected server => (b.pair.peers .client).sealed.length = 0 ∧ server = C.serverPublic
  | .accepting server => (b.pair.peers .client).sealed.length = 1 ∧ server = C.serverPublic
  | .awaitConfirm k server => (b.pair.peers .client).sealed.length = 1 ∧ server = C.serverPublic ∧ C.shared = some k
  | .verified k _ => (b.pair.peers .client).sealed.length = 1 ∧ C.shared = some k ∧ b.pair.change = .last .server k 2 ∧
    2 ≤ (b.pair.peers .client).opened.length ∧ b.verifiedAt ≠ none
  | .rekeyed _ _ => (b.pair.peers .client).sealed.length = 1 ∧ b.pair.change = .none ∧ 2 ≤ (b.pair.peers .server).sealed.length ∧
    Switched C b .client ∧ b.verifiedAt ≠ none
  | .acking => (b.pair.peers .client).sealed.length = 2
  | .done => 2 ≤ (b.pair.peers .client).sealed.length
  | .failed => (b.pair.peers .client).sealed.length ≤ 2

/-- the change of generation under way, if any -/
def ChangeAt (w : Pair Secret Key (Cell Public Proof) Record) : Prop :=
  w.change = .none ∨ ∃ k, C.shared = some k ∧ 1 ≤ (w.peers .server).opened.length ∧
    (w.change = .armed .server k ∧ (w.peers .server).sealed.length = 1 ∨
      w.change = .last .server k 2 ∧ (w.peers .server).sealed.length = 2)

structure Inv : Prop where
  sync : b.pair.Sync C.suite C.kind
  queued : ∀ p, ∀ e ∈ (b.inbox p).extensions, ∃ entry ∈ (b.pair.peers p).opened, entry.plain = .profile e
  script : ∀ p i entry e, (b.pair.peers p).sealed[i]? = some entry → entry.plain = .profile e →
    i = 0 ∧ e = C.first p ∨ i = 1 ∧ e.messageID = secondID p
  change : ChangeAt C b.pair
  switched : 2 ≤ (b.pair.peers .client).sealed.length →
    2 ≤ (b.pair.peers .server).sealed.length ∧ b.pair.change = .none ∧ Switched C b .client ∧ b.verifiedAt ≠ none
  cut : 2 ≤ (b.pair.peers .server).sealed.length →
    (∃ k, C.shared = some k ∧ b.pair.change = .last .server k 2) ∨ b.client.past
  early : (b.pair.peers .client).sealed.length = 0 → Gen C.suite C.base .client (b.pair.peers .client)
  sent : ∀ i entry, (b.pair.peers .client).sealed[i]? = some entry →
    (i = 0 → Chain C.suite C.base .client entry.context.key) ∧
      (0 < i → ∃ k, C.shared = some k ∧ Chain C.suite k .client entry.context.key)
  verified : ∀ n, b.verifiedAt = some n → n = 1
  server : ServerAt C b b.server
  client : ClientAt C b b.client

/-- the record layers have moved without a change of generation -/
structure Later (S : Suite Secret Key (Cell Public Proof) Record) (w w' : Pair Secret Key (Cell Public Proof) Record) : Prop where
  sealed : ∀ p, (w'.peers p).sealed = (w.peers p).sealed
  opened : ∀ p, (w.peers p).opened <+: (w'.peers p).opened
  change : w'.change = w.change
  secrets : w'.secrets = w.secrets
  gen : ∀ p s, Gen S s p (w.peers p) → Gen S s p (w'.peers p)

variable {C b} {p : Role} {st : ServerStage Secret Public} {w w' : Pair Secret Key (Cell Public Proof) Record}
  {plain : Cell Public Proof} {context : Context Key} {k : Secret} {S : Suite Secret Key (Cell Public Proof) Record}

theorem Later.refl (S : Suite Secret Key (Cell Public Proof) Record) (w : Pair Secret Key (Cell Public Proof) Record) :
    Later S w w :=
  ⟨fun _ => rfl, fun _ => prefix_refl _, rfl, rfl, fun _ _ h => h⟩

theorem Switched.later (h : Switched C b p) (hl : Later C.suite b.pair b'.pair) (hk : b'.keys p = b.keys p) :
    Switched C b' p := by
  obtain ⟨k, hs, hkey, hg⟩ := h
  exact ⟨k, hs, hk.trans hkey, hl.gen p k hg⟩

theorem ServerAt.later (h : ServerAt C b st) (hl : Later C.suite b.pair b'.pair) (hk : b'.keys .server = b.keys .server)
    (hs : (∀ k client, st ≠ .confirming k client) ∨ (b'.pair.peers .server).sending = (b.pair.peers .server).sending) :
    ServerAt C b' st := by
  have hopened := (hl.opened .server).length_le
  have hswitched : Switched C b .server → Switched C b' .server := fun h => h.later hl hk
  cases st with
  | offer | offering | awaitAccept | accepted | armed | awaitAck | done | failed =>
    simp only [ServerAt, hl.sealed, hl.change, hl.secrets] at h ⊢
    grind
  | confirming k client => simpa only [ServerAt, hl.sealed, hs.resolve_left fun hx => hx k client rfl] using h

theorem ClientAt.later {st : ClientStage Secret Public} (h : ClientAt C b st) (hl : Later C.suite b.pair b'.pair)
    (hk : b'.keys .client = b.keys .client) (hv : b'.verifiedAt = b.verifiedAt) : ClientAt C b' st := by
  have hopened := (hl.opened .client).length_le
  have hswitched : Switched C b .client → Switched C b' .client := fun h => h.later hl hk
  cases st <;> simp only [ClientAt, hl.sealed, hl.change, hv] at h ⊢ <;> grind

/-- a step that sends nothing -/
theorem Inv.later (h : Inv C b) (hl : Later C.suite b.pair b'.pair) (hsync : b'.pair.Sync C.suite C.kind)
    (hqueued : ∀ p, ∀ e ∈ (b'.inbox p).extensions, ∃ entry ∈ (b'.pair.peers p).opened, entry.plain = .profile e)
    (hk : b'.keys .client = b.keys .client) (hv : b'.verifiedAt = b.verifiedAt ∨ b'.verifiedAt = some 1)
    (hcut : b.client.past → b'.client.past) (hserver : ServerAt C b' b'.server) (hclient : ClientAt C b' b'.client) :
    Inv C b' where
  sync := hsync
  queued := hqueued
  script := by
    simpa only [hl.sealed] using h.script
  change := by
    have hopened := (hl.opened .server).length_le
    have hchange := h.change
    simp only [ChangeAt, hl.sealed, hl.change] at ⊢
    exact hchange.imp_right fun ⟨k, hk, ho, hc⟩ => ⟨k, hk, ho.trans hopened, hc⟩
  switched := by
    simp only [hl.sealed, hl.change]
    intro hc
    obtain ⟨h1, h2, h3, h4⟩ := h.switched hc
    refine ⟨h1, h2, h3.later hl hk, ?_⟩
    rcases hv with hv | hv
    · exact hv ▸ h4
    · exact hv ▸ nofun
  cut := by
    simp only [hl.sealed, hl.change]
    exact fun hc => (h.cut hc).imp_right hcut
  early := by
    simp only [hl.sealed]
    exact fun hc => hl.gen _ _ (h.early hc)
  sent := by
    simpa only [hl.sealed] using h.sent
  verified := by
    intro n hn
    rcases hv with hv | hv
    · exact h.verified n (hv ▸ hn)
    · exact (Option.some.inj (hv.symm.trans hn)).symm
  server := hserver
  client := hclient

/-- the server's negotiator goes on by itself -/
theorem Inv.setServer (h : Inv C b) (hst : ServerAt C b st) : Inv C { b with server := st } :=
  h.later (.refl C.suite b.pair) h.sync h.queued rfl (.inl rfl) id hst h.client

/-- the client's negotiator goes on by itself -/
theorem Inv.setClient (h : Inv C b) {st : ClientStage Secret Public} (hst : ClientAt C b st) (hcut : b.client.past → st.past) :
    Inv C { b with client := st } :=
  h.later (.refl C.suite b.pair) h.sync h.queued rfl (.inl rfl) hcut h.server hst

/-! ## What the record layers do -/

theorem later_of_moved (p : Role) {e : Peer Key (Cell Public Proof) Record} (wire : Role → List Record)
    (hsealed : e.sealed = (w.peers p).sealed)
    (hopened : (w.peers p).opened <+: e.opened) (hgen : ∀ s q, Gen S s q (w.peers p) → Gen S s q e) :
    Later S w ⟨update w.peers p e, wire, w.change, w.secrets⟩ := by
  refine ⟨fun q => ?_, fun q => ?_, rfl, rfl, fun q s hg => ?_⟩
  · rcases eq_or_ne q p with rfl | hq
    · simpa only [update_self] using hsealed
    · simp only [update_of_ne hq]
  · rcases eq_or_ne q p with rfl | hq
    · simpa only [update_self] using hopened
    · simp only [update_of_ne hq]
      exact prefix_refl _
  · rcases eq_or_ne q p with rfl | hq
    · simpa only [update_self] using hgen s q hg
    · simpa only [update_of_ne hq] using hg

/-- a step that does not send and does not change the generation; only the return of a `Send` ends it -/
theorem moved_of_moves {kind : UInt8} {o : Session.Record.Op Secret (Cell Public Proof)} (h : Pair.Moves S kind w o w')
    (ho : o.keeps = true) : Later S w w' ∧ ∀ q, o ≠ .sendReturn q → (w'.peers q).sending = (w.peers q).sending := by
  have hset : ∀ (p q : Role) (e : Peer Key (Cell Public Proof) Record), (p = q → e.sending = (w.peers p).sending) →
      (update w.peers p e q).sending = (w.peers q).sending := by
    intro p q e he
    by_cases hq : q = p
    · subst hq
      rw [update_self]
      exact he rfl
    · rw [update_of_ne hq]
  cases h with
  | quiet p e wire hm hsending =>
    refine ⟨later_of_moved p wire hm.sealed (hm.opened ▸ prefix_refl _) hm.gen, fun q hq => hset p q e fun hpq => ?_⟩
    exact hsending.resolve_right fun hx => hq (hpq ▸ hx)
  | @opened p i e entry hsealed hopened hgen hsending =>
    exact ⟨later_of_moved p w.wire hsealed (hopened ▸ prefix_append _ _) hgen, fun q _ => hset p q e fun _ => hsending⟩
  | accept | armed | rekeyed => cases ho

/-- what a queued message says of the records opened -/
theorem Inv.heard (h : Inv C b) {e : ExtensionEnvelope Public Proof}
    (he : ∃ entry ∈ (b.pair.peers p).opened, entry.plain = .profile e) :
    1 ≤ (b.pair.peers p).opened.length ∧ e = C.first p.other ∨
      2 ≤ (b.pair.peers p).opened.length ∧ e.messageID = secondID p.other := by
  obtain ⟨entry, hmem, hplain⟩ := he
  obtain ⟨i, hi, hentry⟩ := mem_iff_getElem.mp hmem
  have hsealed : (b.pair.peers p.other).sealed[i]? = some entry := by
    obtain ⟨rest, hrest⟩ := (h.sync.inbound p).in_order
    rw [← hrest, getElem?_append_left hi, getElem?_eq_getElem hi, hentry]
  rcases h.script p.other i entry e hsealed hplain with ⟨hzero, hfirst⟩ | ⟨hone, hid⟩
  · exact .inl ⟨by omega, hfirst⟩
  · exact .inr ⟨by omega, hid⟩

/-- `ReceiveExtension` -/
theorem Inv.pop (h : Inv C b) {e : ExtensionEnvelope Public Proof} (hr : b.receiveExtension p = some (e, b')) :
    Inv C b' ∧ (∃ entry ∈ (b'.pair.peers p).opened, entry.plain = .profile e) ∧ ServerAt C b' b.server ∧
      ClientAt C b' b.client ∧ b'.client = b.client := by
  unfold receiveExtension at hr
  split at hr
  case h_1 => cases hr
  case h_2 e' rest hqueue =>
    obtain ⟨rfl, rfl⟩ := Prod.mk.inj (Option.some.inj hr)
    refine ⟨h.later (.refl C.suite b.pair) h.sync (fun q e he => ?_) rfl (.inl rfl) id h.server h.client,
      h.queued p e' (by rw [hqueue]; exact mem_cons_self), h.server, h.client, rfl⟩
    by_cases hq : q = p
    · subst hq
      simp only [update_self] at he
      exact h.queued q e (by rw [hqueue]; exact mem_cons_of_mem _ he)
    · simp only [update_of_ne hq] at he
      exact h.queued q e he

/-! ## Sending -/

/-- a record was accepted from a role -/
structure Sent (S : Suite Secret Key (Cell Public Proof) Record) (w w' : Pair Secret Key (Cell Public Proof) Record) (p : Role)
    (plain : Cell Public Proof) (context : Context Key) : Prop where
  sealed : (w'.peers p).sealed = (w.peers p).sealed ++ [⟨context, plain⟩]
  key : ∀ s, Gen S s p (w.peers p) → Chain S s p context.key
  opened : (w'.peers p).opened = (w.peers p).opened
  gen : ∀ s, Gen S s p (w.peers p) → Gen S s p (w'.peers p)
  other : w'.peers p.other = w.peers p.other
  secrets : w'.secrets = w.secrets

theorem accept_sent (S : Suite Secret Key (Cell Public Proof) Record) (kind : UInt8) (w : Pair Secret Key (Cell Public Proof) Record)
    (p : Role) (plain : Cell Public Proof) :
    Sent S w (w.accept S kind p plain) p plain ((rotateSendEpochIfNeeded S (w.peers p).carrier).send.context kind) := by
  have hself : (w.accept S kind p plain).peers p = _ := accept_self w p plain
  obtain ⟨-, hprefix, -⟩ := Half.rotateIfNeeded_frame (S := S) (w.peers p).carrier.epochInterval (w.peers p).carrier.send
  refine ⟨by rw [hself], fun s hg => hg.send.rotate _, by rw [hself], fun s hg => ?_, accept_other w p plain, rfl⟩
  rw [hself]
  refine ⟨hg.send.rotate _, hg.receive, hprefix.trans hg.sendPrefix, hg.receivePrefix, hg.pending, fun t ht => ?_⟩
  cases hg.pending.symm.trans (Option.some.inj ht)

section

variable (h : Sent S w w' p plain context)
include h

theorem Sent.length : (w'.peers p).sealed.length = (w.peers p).sealed.length + 1 := by
  rw [h.sealed, length_append, length_singleton]

/-- a record of the new log is an old one, or the new one at its end -/
theorem Sent.getElem? {i : ℕ} {entry : Entry Key (Cell Public Proof)}
    (hi : (w'.peers p).sealed[i]? = some entry) :
    (w.peers p).sealed[i]? = some entry ∨ i = (w.peers p).sealed.length ∧ entry = ⟨context, plain⟩ := by
  rw [h.sealed, getElem?_append] at hi
  split at hi
  · exact .inl hi
  · obtain ⟨hlt, rfl⟩ := List.getElem?_eq_some_iff.mp hi
    exact .inr ⟨by simp at hlt; omega, by simp⟩

/-- the script of a role goes on -/
theorem Sent.script {first : ExtensionEnvelope Public Proof} {id : ℕ}
    (hold : ∀ i entry e, (w.peers p).sealed[i]? = some entry → entry.plain = .profile e →
      i = 0 ∧ e = first ∨ i = 1 ∧ e.messageID = id)
    (hnew : ∀ e, plain = .profile e → (w.peers p).sealed.length = 0 ∧ e = first ∨ (w.peers p).sealed.length = 1 ∧ e.messageID = id) :
    ∀ i entry e, (w'.peers p).sealed[i]? = some entry → entry.plain = .profile e → i = 0 ∧ e = first ∨ i = 1 ∧ e.messageID = id := by
  intro i entry e hi he
  rcases h.getElem? hi with hi | ⟨rfl, rfl⟩
  · exact hold i entry e hi he
  · exact hnew e he

end

/-- a change of generation ends only by the client's `rekey`, so only the client's messages can tell of its end -/
theorem Inv.noClientChange (h : Inv C b) (s : Secret) (n : ℕ) : b.pair.change ≠ .last .client s n := by
  rcases h.change with hc | ⟨k, -, -, ⟨hc, -⟩ | ⟨hc, -⟩⟩ <;> simp [hc]

theorem ClientAt.serverSent {st : ClientStage Secret Public} (h : ClientAt C b st)
    (hs : Sent C.suite b.pair b'.pair .server plain context) (hnone : b.pair.change = .none → b'.pair.change = .none)
    (hlast : ∀ k n, b.pair.change ≠ .last .server k n) (hk : b'.keys .client = b.keys .client)
    (hv : b'.verifiedAt = b.verifiedAt) : ClientAt C b' st := by
  have hother : b'.pair.peers .client = b.pair.peers .client := hs.other
  cases st with
  | awaitOffer | selected | accepting | awaitConfirm | acking | done | failed => simpa only [ClientAt, hother] using h
  | verified k server => exact absurd h.2.2.1 (hlast k 2)
  | rekeyed k server =>
    simp only [ClientAt, Switched, hother, hs.length, hk, hv] at h ⊢
    exact ⟨h.1, hnone h.2.1, by omega, h.2.2.2⟩

/-- a record of the server -/
theorem Inv.serverSent (h : Inv C b)
    (hs : Sent C.suite b.pair w .server plain context) (hsync : w.Sync C.suite C.kind)
    (hscript : ∀ e, plain = .profile e → (b.pair.peers .server).sealed.length = 0 ∧ e = C.offer ∨
      (b.pair.peers .server).sealed.length = 1 ∧ e.messageID = 3)
    (hnone : b.pair.change = .none → w.change = .none) (hlast : ∀ k n, b.pair.change ≠ .last .server k n)
    (hchange : ChangeAt C w) (hcut : 2 ≤ (w.peers .server).sealed.length →
      (∃ k, C.shared = some k ∧ w.change = .last .server k 2) ∨ b.client.past)
    (hst : ServerAt C { b with pair := w, server := st } st) : Inv C { b with pair := w, server := st } := by
  have hother : w.peers .client = b.pair.peers .client := hs.other
  refine ⟨hsync, fun p => ?_, fun p => ?_, hchange, fun hc => ?_, hcut, hother.symm ▸ h.early, hother.symm ▸ h.sent, h.verified,
    hst, h.client.serverSent hs hnone hlast rfl rfl⟩
  · cases p with
    | client => exact hother.symm ▸ h.queued .client
    | server => exact hs.opened.symm ▸ h.queued .server
  · cases p with
    | client => exact hother.symm ▸ h.script .client
    | server => exact hs.script (h.script .server) hscript
  · obtain ⟨h1, h2, ⟨k, h3, h4, h5⟩, h6⟩ := h.switched (hother ▸ hc)
    have hlen : 2 ≤ (w.peers .server).sealed.length := by
      rw [hs.length]
      omega
    exact ⟨hlen, hnone h2, ⟨k, h3, h4, hother.symm ▸ h5⟩, h6⟩

theorem ServerAt.clientSent (h : ServerAt C b st)
    (hs : Sent C.suite b.pair b'.pair .client plain context) (hc : b'.pair.change = b.pair.change)
    (hk : b'.keys .server = b.keys .server) : ServerAt C b' st := by
  have hother : b'.pair.peers .server = b.pair.peers .server := hs.other
  cases st with
  | offer | offering | awaitAccept | accepted | armed | confirming | awaitAck | failed =>
    simpa only [ServerAt, Switched, hother, hc, hk, hs.secrets] using h
  | done =>
    simp only [ServerAt, Switched, hother, hk, hs.length] at h ⊢
    exact ⟨h.1, by omega, h.2.2⟩

/-- a record of the client -/
theorem Inv.clientSent {st : ClientStage Secret Public} (h : Inv C b)
    (hs : Sent C.suite b.pair w .client plain context) (hsync : w.Sync C.suite C.kind)
    (hscript : ∀ e, plain = .profile e → (b.pair.peers .client).sealed.length = 0 ∧ e = C.accept ∨
      (b.pair.peers .client).sealed.length = 1 ∧ e.messageID = 4) (hc : w.change = b.pair.change)
    (hswitched : 1 ≤ (b.pair.peers .client).sealed.length →
      2 ≤ (b.pair.peers .server).sealed.length ∧ b.pair.change = .none ∧ Switched C b .client ∧ b.verifiedAt ≠ none)
    (hpast : b.client.past → st.past) (hst : ClientAt C { b with pair := w, client := st } st) :
    Inv C { b with pair := w, client := st } := by
  have hother : w.peers .server = b.pair.peers .server := hs.other
  have hlen := hs.length
  refine ⟨hsync, fun p => ?_, fun p => ?_, ?_, fun hmany => ?_, fun hmany => ?_, fun hzero => ?_, fun i entry hi => ?_, h.verified,
    h.server.clientSent hs hc rfl, hst⟩
  · cases p with
    | server => exact hother.symm ▸ h.queued .server
    | client => exact hs.opened.symm ▸ h.queued .client
  · cases p with
    | server => exact hother.symm ▸ h.script .server
    | client => exact hs.script (h.script .client) hscript
  · simp only [ChangeAt, hother, hc]
    exact h.change
  · simp only [hlen] at hmany
    obtain ⟨h1, h2, ⟨k, h3, h4, h5⟩, h6⟩ := hswitched (by omega)
    exact ⟨hother.symm ▸ h1, hc.trans h2, ⟨k, h3, h4, hs.gen k h5⟩, h6⟩
  · simp only [hother, hc] at hmany ⊢
    exact (h.cut hmany).imp_right hpast
  · simp only [hlen] at hzero
    omega
  · rcases hs.getElem? hi with hi | ⟨rfl, rfl⟩
    · exact h.sent i entry hi
    · refine ⟨fun hzero => hs.key _ (h.early hzero), fun hpos => ?_⟩
      obtain ⟨-, -, ⟨k, h3, -, h5⟩, -⟩ := hswitched hpos
      exact ⟨k, h3, hs.key k h5⟩

/-! ## Steps -/

/-- the server's `Send` of the confirmation has returned -/
theorem sendReturn_gen (hs : (w.peers p).sending = some (some (S.transition p k))) : Gen S k p ((w.sendReturn p).peers p) := by
  unfold sendReturn
  rw [hs]
  rw [setPeer_self]
  exact ⟨.base, .base, rfl, rfl, rfl, nofun⟩

section

variable (h : Inv C b)
include h

/-- when the change is armed, the server has heard all the client has said -/
theorem Inv.drained (harmed : b.pair.change = .armed .server k) :
    (b.pair.peers .server).received ++ b.pair.wire .server = [] := by
  refine (h.sync.inbound .server).flight_nil ?_
  have hfew : (b.pair.peers .client).sealed.length ≤ 1 := by
    by_contra hmany
    exact nomatch harmed.symm.trans (h.switched (by omega)).2.1
  rcases h.change with hc | ⟨_, -, ho, -⟩
  · cases harmed.symm.trans hc
  · exact hfew.trans ho

theorem Inv.notArmedByClient (s : Secret) : b.pair.change ≠ .armed .client s := by
  rcases h.change with hc | ⟨k, -, -, ⟨hc, -⟩ | ⟨hc, -⟩⟩ <;> simp [hc]

/-- the record layers have moved without a message of note -/
theorem Inv.setPair (hl : Later C.suite b.pair w) (hsync : w.Sync C.suite C.kind)
    (hs : (∀ k client, b.server ≠ .confirming k client) ∨ (w.peers .server).sending = (b.pair.peers .server).sending) :
    Inv C { b with pair := w } := by
  refine h.later hl hsync (fun p e he => ?_) rfl (.inl rfl) id (h.server.later hl rfl hs) (h.client.later hl rfl rfl)
  obtain ⟨entry, hmem, hplain⟩ := h.queued p e he
  exact ⟨entry, (hl.opened p).subset hmem, hplain⟩

/-- a change of generation begins or ends; the logs stay -/
theorem Inv.turned (hsync : b'.pair.Sync C.suite C.kind)
    (hlogs : ∀ p, (b'.pair.peers p).sealed = (b.pair.peers p).sealed ∧ (b'.pair.peers p).opened = (b.pair.peers p).opened)
    (hinbox : b'.inbox = b.inbox) (hv : b'.verifiedAt = b.verifiedAt) (hchange : ChangeAt C b'.pair)
    (hfew : (b.pair.peers .client).sealed.length ≤ 1)
    (hcut : 2 ≤ (b.pair.peers .server).sealed.length →
      (∃ k, C.shared = some k ∧ b'.pair.change = .last .server k 2) ∨ b'.client.past)
    (hearly : (b.pair.peers .client).sealed.length = 0 → b'.pair.peers .client = b.pair.peers .client)
    (hserver : ServerAt C b' b'.server) (hclient : ClientAt C b' b'.client) : Inv C b' where
  sync := hsync
  queued := by
    simpa only [hinbox, (hlogs _).2] using h.queued
  script := by
    simpa only [(hlogs _).1] using h.script
  change := hchange
  switched := by
    rw [(hlogs _).1]
    omega
  cut := by
    simpa only [(hlogs _).1] using hcut
  early := by
    rw [(hlogs _).1]
    exact fun hzero => hearly hzero ▸ h.early hzero
  sent := by
    simpa only [(hlogs _).1] using h.sent
  verified := hv ▸ h.verified
  server := hserver
  client := hclient

/-- the client opens nothing between the confirmation and its `rekey` -/
theorem Inv.agreedReceive (p : Role) (hreceived : (b.pair.peers p).received ≠ []) (s : Secret) :
    b.pair.change ≠ .last p.other s (b.pair.peers p).opened.length := by
  cases p with
  | server => exact h.noClientChange s _
  | client =>
    intro hx
    rcases h.change with hc | ⟨k, -, -, ⟨hc, -⟩ | ⟨hc, hsealed⟩⟩
    · cases hc.symm.trans hx
    · cases hc.symm.trans hx
    have hopened := (Change.last.inj (hc.symm.trans hx)).2.2
    have hflight := (h.sync.inbound .client).flight_nil (hsealed.le.trans hopened.le)
    exact hreceived (append_eq_nil_iff.mp hflight).1

theorem Inv.timeout (p : Role) : Inv C (b.timeout p) := by
  have hsv := h.server
  have hcl := h.client
  cases p with
  | server =>
    simp only [Barrier.timeout]
    split
    case h_1 hst =>
      rw [hst] at hsv
      exact h.setServer (show _ ≤ 2 by have := hsv.1; omega)
    case h_2 hst =>
      rw [hst] at hsv
      exact h.setServer (show _ ≤ 2 by have := hsv.1; omega)
    case h_3 => exact h
  | client =>
    simp only [Barrier.timeout]
    split
    case h_1 hst =>
      rw [hst] at hcl
      exact h.setClient (show _ ≤ 2 by have : _ = 0 := hcl; omega) fun _ => trivial
    case h_2 hst =>
      rw [hst] at hcl
      exact h.setClient (show _ ≤ 2 by have := hcl.1; omega) fun _ => trivial
    case h_3 => exact h

variable [DecidableEq Key]

/-- a step of the record layers that neither sends nor changes the generation -/
theorem Inv.keeps {o : Session.Record.Op Secret (Cell Public Proof)} (ho : o.keeps = true)
    (hs : o ≠ .sendReturn .server) (hsync : (b.pair.step C.suite C.kind o).Sync C.suite C.kind) : Inv C (b.onPair C o) := by
  obtain ⟨hl, hsending⟩ := moved_of_moves (moves C.suite C.kind b.pair o) ho
  exact h.setPair hl hsync (.inr (hsending .server hs))

omit h in
/-- a `Send` is accepted, or nothing of note happens -/
theorem send_cases (S : Suite Secret Key (Cell Public Proof) Record) (kind : UInt8) (w : Pair Secret Key (Cell Public Proof) Record)
    (p : Role) (plain : Cell Public Proof) (accepted : Bool) :
    w.step S kind (.send p plain accepted) = w.accept S kind p plain ∨
      Later S w (w.step S kind (.send p plain accepted)) ∧
        ∀ q, ((w.step S kind (.send p plain accepted)).peers q).sending = (w.peers q).sending := by
  have hmoves := moves S kind w (.send p plain accepted)
  generalize w.step S kind (.send p plain accepted) = w' at hmoves ⊢
  cases hmoves with
  | accept => exact .inl rfl
  | quiet r e wire hm hsending =>
    refine .inr ⟨later_of_moved r wire hm.sealed (hm.opened ▸ prefix_refl _) hm.gen, fun q => ?_⟩
    rcases eq_or_ne q r with rfl | hq
    · simp only [update_self]
      exact hsending.resolve_right nofun
    · simp only [update_of_ne hq]

variable (hS : Ideal C.suite)
include hS

/-- a `Send` keeps to the agreement of the record layers -/
theorem Inv.syncSend (p : Role) (plain : Cell Public Proof) (accepted : Bool)
    (hlast : p = .client → ∀ k n, b.pair.change ≠ .last .server k n) :
    (b.pair.step C.suite C.kind (.send p plain accepted)).Sync C.suite C.kind := by
  cases p with
  | server =>
    exact h.sync.step hS _ (fun s => h.noClientChange s _) ⟨fun s ha => h.drained ha, h.noClientChange⟩
  | client =>
    exact h.sync.step hS _ (fun s => hlast rfl s _) ⟨fun s ha => absurd ha (h.notArmedByClient s), hlast rfl⟩

/-- `SendExtension`: it waits, the record is accepted, or it fails and nothing is sent -/
theorem Inv.sendExtension (p : Role) (e : ExtensionEnvelope Public Proof) (accepted : Bool)
    (hlast : p = .client → ∀ k n, b.pair.change ≠ .last .server k n) :
    b.sendExtension C p e accepted = none ∨
      b.sendExtension C p e accepted = some ({ b with pair := b.pair.accept C.suite C.kind p (.profile e) }, true) ∧
        (b.pair.accept C.suite C.kind p (.profile e)).Sync C.suite C.kind ∨
      ∃ w, b.sendExtension C p e accepted = some ({ b with pair := w }, false) ∧ Inv C { b with pair := w } ∧
        ∀ q, (w.peers q).sealed = (b.pair.peers q).sealed := by
  have hsync := h.syncSend hS p (.profile e) accepted hlast
  by_cases hidle : (b.pair.peers p).sending.isSome = true
  · exact .inl (if_pos hidle)
  have hnone : (b.pair.peers p).sending = none := by simpa using hidle
  rcases send_cases C.suite C.kind b.pair p (.profile e) accepted with haccept | ⟨hlater, hsending⟩
  · refine .inr (.inl ⟨?_, haccept ▸ hsync⟩)
    simp only [Barrier.sendExtension, if_neg hidle, onPair, haccept, accept_self, Option.isSome_some]
  · refine .inr (.inr ⟨_, ?_, h.setPair hlater hsync (.inr (hsending .server)), hlater.sealed⟩)
    rw [Barrier.sendExtension, if_neg hidle]
    simp only [onPair, hsending, hnone, Option.isSome_none]

/-! ### The server's negotiator -/

theorem Inv.arm (hX : Agrees C.exchange) {client : Public}
    (hst : b.server = .accepted k client) (hidle : (b.pair.peers .server).sending = none) :
    Inv C { b.onPair C (.rekeyAfterNextSend .server k) with server := .armed k client } ∧
      (((b.onPair C (.rekeyAfterNextSend .server k)).pair.peers .server).carrier.pendingRekey.isSome = true) := by
  have hat := h.server
  rw [hst] at hat
  obtain ⟨hsealed, hnone, hsecrets, hk, hclient, hopened⟩ := hat
  have hpending : (b.pair.peers .server).carrier.pendingRekey = none := by
    by_contra hsome
    obtain ⟨t, ht⟩ := Option.ne_none_iff_exists'.mp hsome
    rcases (h.sync.sound .server).pending t ht with ⟨s, hs⟩ | hs
    · cases hnone.symm.trans hs
    · cases hidle.symm.trans hs
  have hsync := h.sync.rekeyAfterNextSend hS .server k hnone (by
    rw [hsecrets, mem_singleton]
    exact hX.derive_ne _ _ _ _ _ _ hk)
  have hstep : b.pair.rekeyAfterNextSend C.suite .server k =
      { b.pair.setPeer .server { b.pair.peers .server with
          carrier := { (b.pair.peers .server).carrier with pendingRekey := some (C.suite.transition .server k) } } with
        change := .armed .server k
        secrets := k :: b.pair.secrets } := by
    simp only [rekeyAfterNextSend, prepareRekey_eq hS, hidle, hpending, Option.isSome_none, Bool.false_eq_true, if_false]
  simp only [onPair, Pair.step]
  rw [hstep] at hsync ⊢
  refine ⟨h.turned hsync (fun p => ?_) rfl rfl (.inr ⟨k, hk, hopened, .inl ⟨rfl, hsealed⟩⟩) ?_ (fun hmany => ?_) (fun _ => rfl)
    ⟨hsealed, rfl, hk, hclient⟩ ?_, rfl⟩
  · cases p with
    | client | server => exact ⟨rfl, rfl⟩
  · by_contra hmany
    have := (h.switched (by omega)).1
    omega
  · omega
  · have hcl := h.client
    cases hstc : b.client with
    | verified k' server =>
      rw [hstc] at hcl
      cases hnone.symm.trans hcl.2.2.1
    | rekeyed k' server =>
      rw [hstc] at hcl
      have := hcl.2.2.1
      omega
    | awaitOffer | selected | accepting | awaitConfirm | acking | done | failed =>
      rw [hstc] at hcl
      exact hcl

theorem Inv.negotiateServer [DecidableEq Public] [DecidableEq Proof] (hX : Agrees C.exchange)
    (accepted : Bool) : Inv C (b.negotiateServer C accepted) := by
  have hat := h.server
  unfold Barrier.negotiateServer
  split
  case h_1 hst =>
    rw [hst] at hat
    obtain ⟨hsealed, hnone, hsecrets⟩ := hat
    rcases h.sendExtension hS .server C.offer accepted nofun with hb | ⟨hb, hsync⟩ | ⟨w, hb, hinv, hkept⟩ <;> rw [hb]
    · exact h
    · have hsent := accept_sent C.suite C.kind b.pair .server (.profile C.offer)
      have hchange : (b.pair.accept C.suite C.kind .server (.profile C.offer)).change = .none :=
        (accept_change C.suite C.kind .server _ fun s hx => nomatch hnone.symm.trans hx).trans hnone
      have hlen := hsent.length
      refine h.serverSent hsent hsync (fun e he => .inl ⟨hsealed, (Cell.profile.inj he).symm⟩) (fun _ => hchange)
        (fun k n hx => nomatch hnone.symm.trans hx) (.inl hchange) (fun hmany => ?_) ?_
      · rw [hlen] at hmany
        omega
      · exact ⟨hlen.trans (by rw [hsealed]), hchange, hsent.secrets.trans hsecrets⟩
    · exact hinv.setServer (show _ ≤ 2 by rw [hkept]; omega)
  case h_2 hst =>
    rw [hst] at hat
    split
    case h_1 => exact h
    case h_2 e b' hr =>
      obtain ⟨h', hheard, hat', -⟩ := h.pop hr
      rw [hst] at hat'
      split
      case h_1 client =>
        -- message 2 can only be the client's selection
        have hfirst := (h'.heard hheard).resolve_right fun hx => nomatch hx.2
        have hclient : client = C.clientPublic := by
          have := congrArg ExtensionEnvelope.tlv hfirst.2
          exact ExtensionTLV.parameters.inj this
        subst hclient
        split
        case h_1 => exact h'.setServer (show _ ≤ 2 by have := hat'.1; omega)
        case h_2 k hk =>
          exact h'.setServer ⟨hat'.1, hat'.2.1, hat'.2.2, (hX.derive_eq _ _ _).trans hk, rfl, hfirst.1⟩
      case h_2 => exact h'.setServer (show _ ≤ 2 by have := hat'.1; omega)
  case h_3 k client hst =>
    split
    case isTrue => exact h
    case isFalse hidle =>
      have hidle : (b.pair.peers .server).sending = none := by simpa using hidle
      obtain ⟨hinv, hpending⟩ := h.arm hS hX hst hidle
      simp only [hpending, if_true]
      exact hinv
  case h_4 k client hst =>
    rw [hst] at hat
    obtain ⟨hsealed, harmed, hk, hclient⟩ := hat
    rcases h.sendExtension hS .server (C.confirm k client) accepted nofun with hb | ⟨hb, hsync⟩ | ⟨w, hb, hinv, hkept⟩ <;> rw [hb]
    · exact h
    · have hsent := accept_sent C.suite C.kind b.pair .server (.profile (C.confirm k client))
      have hlen := hsent.length
      have hchange : (b.pair.accept C.suite C.kind .server (.profile (C.confirm k client))).change = .last .server k 2 := by
        simp only [accept, harmed, if_true, hsealed]
      refine h.serverSent hsent hsync (fun e he => .inr ⟨hsealed, ?_⟩) (fun hx => nomatch harmed.symm.trans hx)
        (fun k n hx => nomatch harmed.symm.trans hx) ?_ (fun _ => .inl ⟨k, hk, hchange⟩) ?_
      · rw [← Cell.profile.inj he]
        rfl
      · rcases h.change with hc | ⟨k', hk', ho, -⟩
        · cases harmed.symm.trans hc
        · exact .inr ⟨k, hk, hsent.opened ▸ ho, .inr ⟨hchange, hlen.trans (by rw [hsealed])⟩⟩
      · refine ⟨hlen.trans (by rw [hsealed]), hk, ?_⟩
        exact congrArg some ((h.sync.sound .server).armed k harmed).1
    · exact hinv.setServer (show _ ≤ 2 by rw [hkept]; omega)
  case h_5 k client hst =>
    split
    case h_1 => exact h
    case h_2 e b' hr =>
      obtain ⟨h', hheard, hat', -⟩ := h.pop hr
      rw [hst] at hat'
      split
      case isTrue he =>
        -- message 4 can only be the client's acknowledgement
        have hsecond := (h'.heard hheard).resolve_left fun hx => by
          have := congrArg ExtensionEnvelope.messageID (he.symm.trans hx.2)
          cases this
        have hle := (h'.sync.inbound .server).in_order.length_le
        exact h'.setServer ⟨hat'.1.ge, hsecond.1.trans hle, hat'.2.2⟩
      case isFalse => exact h'.setServer (show _ ≤ 2 by have := hat'.1; omega)
  all_goals exact h

/-! ### The client's negotiator -/

/-- `rekey`, when exactly the confirmation has been opened -/
theorem Inv.rekey {server : Public} (hst : b.client = .verified k server)
    (hidle : (b.pair.peers .client).sending = none) :
    Inv C { b.onPair C (.rekey .client k) with keys := update b.keys .client k, client := .rekeyed k server } := by
  have hat := h.client
  rw [hst] at hat
  obtain ⟨hsealed, hk, hlast, hopened, hv⟩ := hat
  have htwo : (b.pair.peers .server).sealed.length = 2 := by
    rcases h.change with hc | ⟨k', -, -, ⟨hc, -⟩ | ⟨-, hc⟩⟩
    · cases hlast.symm.trans hc
    · cases hlast.symm.trans hc
    · exact hc
  have hexact : (b.pair.peers .client).opened.length = 2 := by
    have hle := (h.sync.inbound .client).in_order.length_le
    exact le_antisymm (hle.trans htwo.le) hopened
  have hsync := h.sync.rekey hS .client k (by rw [hexact]; exact hlast)
  have hstep : b.pair.rekey C.suite .client k =
      { b.pair.setPeer .client { b.pair.peers .client with
          carrier := { applyRekeyLocked (b.pair.peers .client).carrier (C.suite.transition .client k)
              with pendingRekey := none } } with
        change := .none } := by
    simp only [Pair.rekey, Pair.prepareRekey_eq hS, hidle, Option.isSome_none, Bool.false_eq_true, if_false]
  have hsv := h.server
  simp only [onPair, Pair.step]
  rw [hstep] at hsync ⊢
  refine h.turned hsync (fun p => ?_) rfl rfl (.inl rfl) hsealed.le (fun _ => .inr trivial) (fun hzero => ?_) ?_ ?_
  · cases p with
    | server | client => exact ⟨rfl, rfl⟩
  · omega
  · cases hsts : b.server with
    | offer | offering | awaitAccept | accepted | armed =>
      rw [hsts] at hsv
      have := hsv.1
      omega
    | confirming | awaitAck | failed =>
      rw [hsts] at hsv
      exact hsv
    | done =>
      rw [hsts] at hsv
      have := hsv.2.1
      omega
  · exact ⟨hsealed, rfl, htwo.ge, ⟨k, hk, rfl, .base, .base, rfl, rfl, rfl, fun t ht => by cases hidle.symm.trans ht⟩, hv⟩

theorem Inv.negotiateClient [DecidableEq Public] [DecidableEq Proof] (accepted : Bool) :
    Inv C (b.negotiateClient C accepted) := by
  have hat := h.client
  unfold Barrier.negotiateClient
  split
  case h_1 hst =>
    split
    case h_1 => exact h
    case h_2 e b' hr =>
      obtain ⟨h', hheard, -, hat', hclient⟩ := h.pop hr
      rw [hst] at hat'
      split
      case h_1 server =>
        -- message 1 can only be the server's offer
        have hfirst := (h'.heard hheard).resolve_right fun hx => nomatch hx.2
        have hserver : server = C.serverPublic := by
          have := congrArg ExtensionEnvelope.tlv hfirst.2
          exact ExtensionTLV.parameters.inj this
        exact h'.setClient ⟨hat', hserver⟩ fun hx => by rw [hclient, hst] at hx; exact hx
      case h_2 => exact h'.setClient (show _ ≤ 2 by have : _ = 0 := hat'; omega) fun _ => trivial
  case h_2 server hst =>
    rw [hst] at hat
    obtain ⟨hsealed, hserver⟩ := hat
    -- no change can end before the client has said anything
    have hlast : ∀ k n, b.pair.change ≠ .last .server k n := by
      intro k n hx
      have hle := (h.sync.inbound .server).in_order.length_le
      rcases h.change with hc | ⟨k', -, ho, -⟩
      · cases hc.symm.trans hx
      · have hpos : 1 ≤ (b.pair.peers .client).sealed.length := ho.trans hle
        omega
    rcases h.sendExtension hS .client C.accept accepted fun _ => hlast with hb | ⟨hb, hsync⟩ | ⟨w, hb, hinv, hkept⟩ <;> rw [hb]
    · exact h
    · have hsent := accept_sent C.suite C.kind b.pair .client (.profile C.accept)
      refine h.clientSent hsent hsync (fun e he => .inl ⟨hsealed, (Cell.profile.inj he).symm⟩)
        (accept_change C.suite C.kind .client _ h.notArmedByClient) (fun hpos => ?_) (fun hx => ?_) ?_
      · omega
      · rw [hst] at hx
        exact hx.elim
      · exact ⟨hsent.length.trans (by rw [hsealed]), hserver⟩
    · exact hinv.setClient (show _ ≤ 2 by rw [hkept]; omega) fun _ => trivial
  case h_3 k server hst =>
    split
    case h_1 => exact h
    case h_2 e b' hr =>
      obtain ⟨h', hheard, -, hat', hclient⟩ := h.pop hr
      rw [hst] at hat'
      obtain ⟨hsealed, hserver, hk⟩ := hat'
      split
      case isTrue he =>
        -- message 3 can only be the server's confirmation, with which it has changed its generation
        have hsecond := (h'.heard hheard).resolve_left fun hx => by
          have := congrArg ExtensionEnvelope.messageID (he.symm.trans hx.2)
          cases this
        have hle := (h'.sync.inbound .client).in_order.length_le
        obtain ⟨k', hk', hlast⟩ := (h'.cut (hsecond.1.trans hle)).resolve_right fun hx => by
          rw [hclient, hst] at hx
          exact hx
        cases hk'.symm.trans hk
        refine h'.later (.refl C.suite _) h'.sync h'.queued rfl (.inr (congrArg some hsealed)) (fun hx => ?_) h'.server
          ⟨hsealed, hk, hlast, hsecond.1, nofun⟩
        rw [hclient, hst] at hx
        exact hx.elim
      case isFalse => exact h'.setClient (show _ ≤ 2 by omega) fun _ => trivial
  case h_4 k server hst =>
    split
    case isTrue => exact h
    case isFalse hidle => exact h.rekey hS hst (by simpa using hidle)
  case h_5 k server hst =>
    rw [hst] at hat
    obtain ⟨hsealed, hnone, hserver, hswitched, hv⟩ := hat
    have hlast : ∀ k n, b.pair.change ≠ .last .server k n := fun k n hx => nomatch hnone.symm.trans hx
    rcases h.sendExtension hS .client (C.ack k server) accepted fun _ => hlast with hb | ⟨hb, hsync⟩ | ⟨w, hb, hinv, hkept⟩ <;> rw [hb]
    · exact h
    · have hsent := accept_sent C.suite C.kind b.pair .client (.profile (C.ack k server))
      refine h.clientSent hsent hsync (fun e he => .inr ⟨hsealed, ?_⟩)
        (accept_change C.suite C.kind .client _ h.notArmedByClient) (fun _ => ⟨hserver, hnone, hswitched, hv⟩)
        (fun _ => trivial) ?_
      · rw [← Cell.profile.inj he]
        rfl
      · exact hsent.length.trans (by rw [hsealed])
    · exact hinv.setClient (show _ ≤ 2 by rw [hkept]; omega) fun _ => trivial
  all_goals exact h

/-! ### The rest -/

theorem Inv.sendReturn (p : Role) : Inv C ((b.onPair C (.sendReturn p)).sendReturned C p) := by
  obtain ⟨hl, hkept⟩ := moved_of_moves (moves C.suite C.kind b.pair (.sendReturn p)) rfl
  have hsync := h.sync.step hS (.sendReturn p) trivial trivial
  have hqueued : ∀ q, ∀ e ∈ (b.inbox q).extensions, ∃ entry ∈ ((b.pair.step C.suite C.kind (.sendReturn p)).peers q).opened,
      entry.plain = .profile e := by
    intro q e he
    obtain ⟨entry, hmem, hplain⟩ := h.queued q e he
    exact ⟨entry, (hl.opened q).subset hmem, hplain⟩
  have hsv := h.server
  have hcl := h.client
  cases p with
  | server =>
    have hclient : ∀ b' : Barrier Secret Key Public Proof Record, b'.pair = b.pair.step C.suite C.kind (.sendReturn .server) →
        b'.keys .client = b.keys .client → b'.verifiedAt = b.verifiedAt → ClientAt C b' b.client :=
      fun b' hp hk hv => hcl.later (by rw [hp]; exact hl) hk hv
    unfold sendReturned
    simp only [onPair]
    split
    case h_1 hst =>
      refine h.later hl hsync hqueued rfl (.inl rfl) id ?_ (hclient _ rfl rfl rfl)
      rw [hst] at hsv
      simpa only [ServerAt, hl.sealed, hl.change, hl.secrets] using hsv
    case h_2 k client hst =>
      rw [hst] at hsv
      have hkeys : update b.keys .server k .client = b.keys .client := update_of_ne (by decide) ..
      refine h.later hl hsync hqueued hkeys (.inl rfl) id ?_ (hclient _ rfl hkeys rfl)
      exact ⟨by rw [hl.sealed]; exact hsv.1, hsv.2.1, k, hsv.2.1, by simp only [update_self], sendReturn_gen hsv.2.2⟩
    case h_3 hoff hconf =>
      exact h.setPair hl hsync (.inl fun k client => hconf k client)
  | client =>
    have hsending := hkept .server nofun
    have hserver : ∀ b' : Barrier Secret Key Public Proof Record, b'.pair = b.pair.step C.suite C.kind (.sendReturn .client) →
        b'.keys .server = b.keys .server → ServerAt C b' b.server :=
      fun b' hp hk => hsv.later (by rw [hp]; exact hl) hk (.inr (by rw [hp]; exact hsending))
    unfold sendReturned
    simp only [onPair]
    split
    case h_1 server hst =>
      rw [hst] at hcl
      obtain ⟨hsealed, rfl⟩ := hcl
      split
      case h_1 =>
        refine h.later hl hsync hqueued rfl (.inl rfl) (fun _ => trivial) (hserver _ rfl rfl) ?_
        show _ ≤ 2
        rw [hl.sealed]
        omega
      case h_2 k hk =>
        refine h.later hl hsync hqueued rfl (.inl rfl) (fun hx => ?_) (hserver _ rfl rfl) ⟨by rw [hl.sealed]; exact hsealed, rfl, hk⟩
        rw [hst] at hx
        exact hx.elim
    case h_2 hst =>
      refine h.later hl hsync hqueued rfl (.inl rfl) (fun _ => trivial) (hserver _ rfl rfl) ?_
      rw [hst] at hcl
      show 2 ≤ _
      rw [hl.sealed]
      exact (show _ = 2 from hcl).ge
    case h_3 => exact h.setPair hl hsync (.inr hsending)

theorem Inv.handleCell [DecidableEq Public] [DecidableEq Proof] (p : Role)
    {entry : Entry Key (Cell Public Proof)} (hentry : entry ∈ (b.pair.peers p).opened) : Inv C (b.handleCell C p entry.plain) := by
  cases hplain : entry.plain with
  | other n => exact h
  | profile e =>
    simp only [Barrier.handleCell]
    split
    case h_1 inbox hok =>
      refine h.later (.refl C.suite b.pair) h.sync (fun q e' he' => ?_) rfl (.inl rfl) id h.server h.client
      rcases eq_or_ne q p with rfl | hq
      · simp only [update_self] at he'
        rcases Inbox.handle_mem hok he' with hold | rfl
        · exact h.queued q e' hold
        · exact ⟨entry, hentry, hplain⟩
      · simp only [update_of_ne hq] at he'
        exact h.queued q e' he'
    case h_2 => exact h.keeps rfl nofun (h.sync.step hS (.close p) trivial trivial)

theorem Inv.receive [DecidableEq Public] [DecidableEq Proof] (p : Role) : Inv C (b.receive C p) := by
  unfold Barrier.receive
  split
  case isTrue => exact h
  case isFalse hreceived =>
    have hinv : Inv C (b.onPair C (.receive p 0)) :=
      h.keeps rfl nofun (h.sync.step hS (.receive p 0) (h.agreedReceive p hreceived) trivial)
    simp only
    split
    case h_1 => exact hinv
    case h_2 e rest hdrop =>
      refine hinv.handleCell hS p (mem_of_mem_drop (i := (b.pair.peers p).opened.length) ?_)
      rw [hdrop]
      exact mem_cons_self

theorem Inv.other (p : Role) (n : ℕ) (accepted : Bool) (hdone : b.completed p = true) :
    Inv C (b.onPair C (.send p (.other n) accepted)) := by
  have hsv := h.server
  have hcl := h.client
  cases p with
  | server =>
    have hst : b.server = .done := by
      simp only [completed] at hdone
      split at hdone
      · assumption
      · cases hdone
    rw [hst] at hsv
    obtain ⟨hsealed, hmany, hswitched⟩ := hsv
    have hnone := (h.switched hmany).2.1
    have hsync := h.syncSend hS .server (.other n) accepted nofun
    rcases send_cases C.suite C.kind b.pair .server (.other n) accepted with haccept | ⟨hl, hs⟩
    · simp only [onPair]
      rw [haccept] at hsync ⊢
      have hsent := accept_sent C.suite C.kind b.pair .server (.other n)
      have hchange : (b.pair.accept C.suite C.kind .server (.other n)).change = .none :=
        (accept_change C.suite C.kind .server _ fun s hx => nomatch hnone.symm.trans hx).trans hnone
      refine h.serverSent hsent hsync nofun (fun _ => hchange) (fun k n hx => nomatch hnone.symm.trans hx) (.inl hchange)
        (fun _ => .inr ?_) ?_
      · exact (h.cut hsealed).resolve_left fun ⟨_, _, hx⟩ => nomatch hnone.symm.trans hx
      obtain ⟨k, h1, h2, h3⟩ := hswitched
      rw [hst]
      have hlen := hsent.length
      refine ⟨by rw [hlen]; omega, ?_, k, h1, h2, hsent.gen k h3⟩
      have hother : (b.pair.accept C.suite C.kind .server (.other n)).peers .client = b.pair.peers .client := hsent.other
      exact hmany
    · exact h.setPair hl hsync (.inr (hs .server))
  | client =>
    have hst : b.client = .done := by
      simp only [completed] at hdone
      split at hdone
      · assumption
      · cases hdone
    rw [hst] at hcl
    have hmany : 2 ≤ (b.pair.peers .client).sealed.length := hcl
    obtain ⟨hserver, hnone, hswitched, hv⟩ := h.switched hmany
    have hlast : ∀ k n, b.pair.change ≠ .last .server k n := fun k n hx => nomatch hnone.symm.trans hx
    have hsync := h.syncSend hS .client (.other n) accepted fun _ => hlast
    rcases send_cases C.suite C.kind b.pair .client (.other n) accepted with haccept | ⟨hl, hs⟩
    · simp only [onPair]
      rw [haccept] at hsync ⊢
      have hsent := accept_sent C.suite C.kind b.pair .client (.other n)
      refine h.clientSent hsent hsync nofun (accept_change C.suite C.kind .client _ h.notArmedByClient)
        (fun _ => ⟨hserver, hnone, hswitched, hv⟩) id ?_
      rw [hst]
      show 2 ≤ _
      rw [hsent.length]
      omega
    · exact h.setPair hl hsync (.inr (hs .server))

theorem Inv.step [DecidableEq Public] [DecidableEq Proof] (hX : Agrees C.exchange) (o : Op)
    (hok : b.Completed o) : Inv C (b.step C o) := by
  cases o with
  | negotiate p accepted =>
    cases p with
    | server => exact h.negotiateServer hS hX accepted
    | client => exact h.negotiateClient hS accepted
  | sendReturn p =>
    simp only [Barrier.step]
    split
    · exact h.sendReturn hS p
    · exact h
  | take p =>
    simp only [Barrier.step]
    split
    case isTrue hempty => exact h.keeps rfl nofun (h.sync.step hS (.take p) trivial hempty)
    case isFalse => exact h
  | receive p => exact h.receive hS p
  | timeout p => exact h.timeout p
  | other p n accepted => exact h.other hS p n accepted hok
  | close p => exact h.keeps rfl nofun (h.sync.step hS (.close p) trivial trivial)

end

variable [DecidableEq Key]

/-! ## Every run -/

theorem start_inv (hS : Ideal C.suite) {client server : EncryptedCarrier Key}
    (hclient : newEncryptedCarrier C.suite .client (C.suite.sessionKeys C.base) = some client)
    (hserver : newEncryptedCarrier C.suite .server (C.suite.sessionKeys C.base) = some server) :
    Inv C (start C client server) := by
  have hkeys : ¬((C.suite.sessionKeys C.base).clientToServer = C.suite.zero ∨
      (C.suite.sessionKeys C.base).serverToClient = C.suite.zero) :=
    not_or.mpr ⟨hS.session_ne_zero C.base .client, hS.session_ne_zero C.base .server⟩
  refine ⟨start_sync hS C.base hclient hserver, fun _ _ h => (by cases h), fun p i entry e hi => ?_, .inl rfl,
    fun h => (by cases h), fun h => (by cases h), fun _ => ?_, fun _ _ h => (by cases h), fun _ h => (by cases h),
    ⟨rfl, rfl, rfl⟩, rfl⟩
  · cases p <;> cases hi
  rw [newEncryptedCarrier, if_neg hkeys] at hclient
  cases hclient
  exact ⟨.base, .base, rfl, rfl, rfl, fun _ h => by cases h⟩

/-- **The barrier is safe.** For every interleaving of the negotiators, the read loops, delays and time-outs in which a side sends
other cells only after its negotiation has succeeded: every record authenticates; when the server's negotiation succeeds both sides
hold the same derived keys and both record layers are in their generation; and what the server opens of the client's records is
opened with the new keys if it was sent after the client verified the confirmation, and with the old ones if it was sent before. -/
theorem barrier_safe [DecidableEq Public] [DecidableEq Proof] (C : Config Secret Key Private Public Proof Record) (hS : Ideal C.suite)
    (hX : Agrees C.exchange) {client server : EncryptedCarrier Key}
    (hclient : newEncryptedCarrier C.suite .client (C.suite.sessionKeys C.base) = some client)
    (hserver : newEncryptedCarrier C.suite .server (C.suite.sessionKeys C.base) = some server) (ops : List Op)
    (hg : Machine.Guarded (step C) Completed (start C client server) ops) :
    (∀ p, RecordError.recordAuthentication ∉ (((start C client server).run C ops).pair.peers p).errors) ∧
      (((start C client server).run C ops).server = .done →
        ∃ k, C.shared = some k ∧ ∀ p, ((start C client server).run C ops).keys p = k ∧
          Gen C.suite k p (((start C client server).run C ops).pair.peers p)) ∧
      ∀ i entry, (((start C client server).run C ops).pair.peers .server).opened[i]? = some entry →
        (((start C client server).run C ops).pair.peers .client).sealed[i]? = some entry ∧
        (∀ n, ((start C client server).run C ops).verifiedAt = some n → n ≤ i →
          ¬Chain C.suite C.base .client entry.context.key) ∧
        ((∀ n, ((start C client server).run C ops).verifiedAt = some n → i < n) → ∀ k, C.shared = some k →
          ¬Chain C.suite k .client entry.context.key) := by
  have h : Inv C ((start C client server).run C ops) :=
    Machine.run_inv_guarded (I := Inv C) (fun _ o h hok => h.step hS hX o hok) (start_inv hS hclient hserver) ops hg
  generalize (start C client server).run C ops = b at h ⊢
  refine ⟨fun p => (h.sync.sound p).clean, fun hdone => ?_, fun i entry hi => ?_⟩
  · have hsv := h.server
    rw [hdone] at hsv
    obtain ⟨-, hmany, k, hk, hkey, hgen⟩ := hsv
    obtain ⟨-, -, ⟨k', hk', hkey', hgen'⟩, -⟩ := h.switched hmany
    obtain rfl : k' = k := Option.some.inj (hk'.symm.trans hk)
    refine ⟨k', hk, fun p => ?_⟩
    cases p with
    | client => exact ⟨hkey', hgen'⟩
    | server => exact ⟨hkey, hgen⟩
  · have hsealed : (b.pair.peers .client).sealed[i]? = some entry := by
      obtain ⟨rest, hrest⟩ := (h.sync.inbound .server).in_order
      have hlt : i < (b.pair.peers .server).opened.length := (List.getElem?_eq_some_iff.mp hi).1
      have hclient : (b.pair.peers .server).opened ++ rest = (b.pair.peers .client).sealed := hrest
      rw [← hclient, List.getElem?_append_left hlt]
      exact hi
    obtain ⟨hzero, hpos⟩ := h.sent i entry hsealed
    refine ⟨hsealed, fun n hn hle hbase => ?_, fun hbefore k hk hnew => ?_⟩
    · obtain rfl := h.verified n hn
      obtain ⟨k, hk, hnew⟩ := hpos (by omega)
      exact hX.derive_ne _ _ _ _ _ _ hk (hnew.unique hS hbase).1
    -- after the first record the confirmation had been verified
    rcases Nat.eq_zero_or_pos i with rfl | hi
    · exact hX.derive_ne _ _ _ _ _ _ hk (hnew.unique hS (hzero rfl)).1
    have hlt : i < (b.pair.peers .client).sealed.length := (List.getElem?_eq_some_iff.mp hsealed).1
    obtain ⟨n, hn⟩ := Option.ne_none_iff_exists'.mp (h.switched (by omega)).2.2.2
    have hn' := hbefore n hn
    have := h.verified n hn
    omega

/-! ## Runs -/

open Pair (Term Sealed symbolic symbolic_ideal symbolicCarrier)

omit [DecidableEq Key] in
instance (b : Barrier Secret Key Public Proof Record) (o : Op) : Decidable (b.Completed o) :=
  match o with
  | .other _ _ _ => inferInstanceAs (Decidable (_ = _))
  | .negotiate _ _ | .sendReturn _ | .take _ | .receive _ | .timeout _ | .close _ => isTrue trivial

omit [DecidableEq Key] in
instance (b : Barrier Secret Key Public Proof Record) (o : Op) : Decidable (b.Paused o) :=
  match o with
  | .other _ _ _ => inferInstanceAs (Decidable (_ = _))
  | .negotiate _ _ | .sendReturn _ | .take _ | .receive _ | .timeout _ | .close _ => isTrue trivial

/-- a key exchange on numbers -/
def numbers : Exchange ℕ ℕ ℕ ℕ where
  publicKey := id
  derive := fun base own peer _ _ => some (base + own * peer + 1)
  confirmation := fun k _ _ => 2 * k
  acknowledgement := fun k _ _ => 2 * k + 1

theorem numbers_agrees : Agrees numbers where
  derive_eq := fun base a b => by simp only [numbers, id, Nat.mul_comm]
  derive_ne := fun base a b _ _ k hk => by
    cases hk
    omega

def symbolicConfig : Config ℕ Term ℕ ℕ ℕ (Sealed (Cell ℕ ℕ)) where
  suite := symbolic fun _ => 32
  exchange := numbers
  kind := 3
  base := 0
  clientPrivate := 5
  serverPrivate := 7

/-- the negotiation up to the server's confirmation, which is on its way -/
def confirmed : List Op :=
  [.negotiate .server true, .sendReturn .server, .take .client, .receive .client, .negotiate .client true, .negotiate .client true,
    .sendReturn .client, .take .server, .receive .server, .negotiate .server true, .negotiate .server true, .negotiate .server true]

/-- the rest, with the client's next cell right behind its acknowledgement and before the server's `Send` has returned -/
def acknowledged : List Op :=
  confirmed ++ [.take .client, .receive .client, .negotiate .client true, .negotiate .client true, .negotiate .client true,
    .sendReturn .client, .other .client 1 true, .take .server, .sendReturn .server, .receive .server, .take .server, .receive .server,
    .negotiate .server true]

theorem barrier_safe_acknowledged :
    ∃ b, (start symbolicConfig (symbolicCarrier .client) (symbolicCarrier .server)).run symbolicConfig acknowledged = b ∧
      b.server = .done ∧
      ∃ k, symbolicConfig.shared = some k ∧ ∀ p, b.keys p = k ∧ Gen symbolicConfig.suite k p (b.pair.peers p) :=
  ⟨_, rfl, by decide, (barrier_safe symbolicConfig (symbolic_ideal _) numbers_agrees rfl rfl acknowledged (by decide)).2.1 (by decide)⟩

/-- **A cell after a failed negotiation is rejected.** The server's context ends while it waits for the acknowledgement. It is in the
new generation by then and its mux goes on, so its next cell reaches a client that has not changed its keys yet. -/
theorem late_cell_rejected :
    ¬∀ (C : Config ℕ Term ℕ ℕ ℕ (Sealed (Cell ℕ ℕ))) (_ : Ideal C.suite) (_ : Agrees C.exchange) (client server : EncryptedCarrier Term)
      (_ : newEncryptedCarrier C.suite .client (C.suite.sessionKeys C.base) = some client)
      (_ : newEncryptedCarrier C.suite .server (C.suite.sessionKeys C.base) = some server) (ops : List Op),
      Machine.Guarded (step C) Paused (start C client server) ops →
        ∀ p, RecordError.recordAuthentication ∉ (((start C client server).run C ops).pair.peers p).errors := by
  intro h
  have hclean := h symbolicConfig (symbolic_ideal _) numbers_agrees (symbolicCarrier .client) (symbolicCarrier .server) rfl rfl
    (confirmed ++ [.sendReturn .server, .timeout .server, .other .server 1 true, .sendReturn .server, .take .client, .receive .client,
      .take .client, .receive .client]) (by decide) .client
  revert hclean
  decide

end Barrier

end NeProto.Session.Record
