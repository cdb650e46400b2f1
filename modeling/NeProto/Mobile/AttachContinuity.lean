/-
The mobile client's sessions and their continuity routes (`mobile/np2mobile/controller.go`). `newMobileContinuity` creates the
constellation over the first session; after that `NetworkChanged` and `warmCarrierPool` call `attachContinuity` on new
sessions, any number of them at once. All of them share one `ClientControl`: `Attach` stores the lease key of its session
under the lock, and `attachContinuity` reads it back with `State` in a second critical section.

- The exchanges with the server are those of `Constellation.LeaseExchange`; sessions are named by their carriers.
- A call ends by handing a route to the router (`AddRoute`, `SwitchRoute`) or by closing its session.
- `stateFirst`: an exchange ends only while no call stands between its `Attach` and its `State`.
- `route_binds_own_session`: in every run that meets it, every route carries the key the server bound to its session.
- `route_binds_other_session`: two attaches overlap, and the route of one carries the key of the other.
-/
import NeProto.Constellation.LeaseExchange
import NeProto.Proxy.ContinuityRuntime
import NeProto.Tunstack.ContinuityRouter

namespace NeProto.Mobile

open Function

open Constellation (Frame ClientControl Carrier Serving Attachment Hub Phase)
open Constellation.St (key onCarrier_of startMessageID startMessageID_eq takeMessageID_eq)
open Tunstack (Route Router)

/-! ## State -/

/-- `attachContinuity`, or the creation, on one session -/
inductive Call where
  /-- in `Attach` or `Create` -/
  | attaching
  /-- it returned nil -/
  | attached
  /-- `State` returned -/
  | stated (state : ClientControl)
  | ended
deriving DecidableEq

structure St where
  exchange : Constellation.St
  calls : ℕ → Option Call
  /-- `newMobileContinuity` has called `Create` -/
  created : Bool
  router : Option Router
  /-- every route the router was given, with its session -/
  handed : List (ℕ × Route)

def init (hub : Hub) : St where
  exchange := Constellation.init hub
  calls := fun _ => none
  created := false
  router := none
  handed := []

namespace St

/-! ## Operations -/

def setCall (w : St) (s : ℕ) (c : Call) : St := { w with calls := update w.calls s (some c) }

/-- a call has begun on the session of a new carrier, if the client could send -/
def began (w : St) (exchange : Constellation.St) (sent : Bool) : St :=
  let w' := { w with exchange := exchange }
  if exchange.nextCarrier = w.exchange.nextCarrier then w'
  else w'.setCall w.exchange.nextCarrier (if sent then .attaching else .ended)

/-- `Create` in `newMobileContinuity`, before there is a runtime -/
def create (principal : ℕ) (w : St) (forwardSecret : Bool) (id : ℕ) (sent delivered : Bool) : St :=
  if w.created then w
  else ({ w with created := true }).began (w.exchange.create principal forwardSecret id sent delivered) sent

/-- `attachContinuity` up to the wait in `Attach` -/
def attach (principal : ℕ) (w : St) (sent delivered : Bool) : St :=
  if w.router.isNone then w else w.began (w.exchange.attach principal sent delivered) sent

/-- the exchange ends with an answer; `Attach` returns nil exactly when it has stored the session's lease key -/
def receive (w : St) : St :=
  match w.exchange.phase with
  | .idle => w
  | .waiting s _ =>
    let exchange := w.exchange.receive
    let w' := { w with exchange := exchange }
    if exchange.phase ≠ .idle then w'
    else w'.setCall s (if exchange.client.leaseKey = key s then .attached else .ended)

/-- the exchange ends without one -/
def giveUp (w : St) : St :=
  match w.exchange.phase with
  | .idle => w
  | .waiting s _ => { w with exchange := w.exchange.giveUp }.setCall s .ended

/-- `State`, once the lock is free -/
def state (w : St) (s : ℕ) : St :=
  if w.calls s = some .attached ∧ w.exchange.phase = .idle then
    w.setCall s (if w.exchange.client.ready then .stated w.exchange.client else .ended)
  else w

/-- the route goes to the router; the first one makes it -/
def hand (maxFlows : ℕ) (w : St) (s id : ℕ) (switch : Bool) : St :=
  match w.calls s with
  | some (.stated state) =>
    let route : Route := ⟨id, s, state.constellationID, state.leaseKey⟩
    { w.setCall s .ended with
      router := some (match w.router with
        | none => Tunstack.init maxFlows route
        | some r => if switch then r.switchRoute route else r.addRoute route)
      handed := w.handed ++ [(s, route)] }
  | _ => w

/-- a carrier failed or was retired -/
def removeRoute (w : St) (id : ℕ) : St := { w with router := w.router.map fun r => r.removeRoute id }

/-- the operations that are not this client's -/
def environment : Constellation.St.Op → Bool
  | .create .. | .attach .. | .receive | .giveUp => false
  | _ => true

inductive Op where
  | create (forwardSecret : Bool) (id : ℕ) (sent delivered : Bool)
  | attach (sent delivered : Bool)
  | receive
  | giveUp
  | state (s : ℕ)
  | hand (s id : ℕ) (switch : Bool)
  | removeRoute (id : ℕ)
  /-- the server, the network, the clock and other clients -/
  | other (o : Constellation.St.Op)

def step (principal maxFlows : ℕ) (w : St) : Op → St
  | .create forwardSecret id sent delivered => w.create principal forwardSecret id sent delivered
  | .attach sent delivered => w.attach principal sent delivered
  | .receive => w.receive
  | .giveUp => w.giveUp
  | .state s => w.state s
  | .hand s id switch => w.hand maxFlows s id switch
  | .removeRoute id => w.removeRoute id
  | .other o => if environment o then { w with exchange := Constellation.St.step principal w.exchange o } else w

/-- every interleaving -/
def run (principal maxFlows : ℕ) (w : St) (ops : List Op) : St := Machine.run (step principal maxFlows) w ops

/-- the lease the server made for the session of a carrier -/
def lease (c : Carrier) (a : Attachment) : Proxy.Lease := ⟨c.principal, a.constellationID, a.leaseKey⟩

/-- the metadata of an OPEN over a route -/
def metadata (route : Route) (flowID epoch : ℕ) : Proxy.OpenMetadata := ⟨route.constellationID, flowID, route.leaseKey, epoch⟩

/-! ## The condition -/

/-- an exchange ends only while every `Attach` that returned has been followed by its `State` -/
def stateFirst (w : St) : Op → Bool
  | .receive => decide (∀ s < w.exchange.nextCarrier, w.calls s ≠ some .attached)
  | _ => true

/-! ## What the server binds to a session -/

/-- the attachment of a session -/
def attachment : Serving → Option Attachment
  | .waiting | .closed => none
  | .sending a _ | .closing a _ | .released a | .serving a => some a

/-- the attachment belongs to this session and to the request it came with -/
def OwnAttachment (s : ℕ) (c : Carrier) : Prop :=
  ∀ a, attachment c.server = some a → a.leaseKey = key s ∧ a.constellationID = c.request.constellationID ∧
    c.principal ≠ 0 ∧ a.constellationID ≠ 0

structure Bound (e : Constellation.St) : Prop where
  fresh : ∀ s, e.nextCarrier ≤ s → e.carriers s = none
  own : ∀ s c, e.carriers s = some c → OwnAttachment s c

/-- a step goes on from the requests there are -/
structure Goes (e e' : Constellation.St) : Prop where
  bound : Bound e'
  nextCarrier : e.nextCarrier ≤ e'.nextCarrier
  requests : ∀ s c, e.carriers s = some c → ∃ c', e'.carriers s = some c' ∧ c'.request = c.request

variable {e e' : Constellation.St} {k s leaseKey principal : ℕ} {c : Carrier} {w : St}

section

variable (h : Bound e)
include h

/-- the carriers stay -/
theorem Bound.same (hcar : e'.carriers = e.carriers) (hnext : e'.nextCarrier = e.nextCarrier) : Goes e e' :=
  ⟨⟨hnext ▸ hcar ▸ h.fresh, hcar ▸ h.own⟩, hnext.ge, fun _ c hc => ⟨c, hcar ▸ hc, rfl⟩⟩

/-- a step of the server, the network or another client -/
structure Serves (e e' : Constellation.St) : Prop extends Goes e e' where
  client : e'.client = e.client
  phase : e'.phase = e.phase

theorem Serves.refl : Serves e e := ⟨h.same rfl rfl, rfl, rfl⟩

section

variable {c' : Carrier} (hc : e.carriers s = some c) (hcar : e'.carriers = update e.carriers s (some c'))
  (hnext : e'.nextCarrier = e.nextCarrier) (hreq : c'.request = c.request)
include hc hcar hnext hreq

/-- one carrier changes -/
theorem Bound.setCarrier (hown : OwnAttachment s c') : Goes e e' := by
  have hlt : s < e.nextCarrier := by
    by_contra hge
    rw [h.fresh s (not_lt.1 hge)] at hc
    cases hc
  refine ⟨⟨fun s' hs' => ?_, fun s' x hx => ?_⟩, hnext.ge, fun s' x hx => ?_⟩
  · rw [hcar, update_of_ne (by omega)]
    exact h.fresh s' (by omega)
  · rw [hcar] at hx
    by_cases hs : s' = s
    · subst hs
      rw [update_self] at hx
      exact Option.some.inj hx ▸ hown
    · rw [update_of_ne hs] at hx
      exact h.own s' x hx
  · rw [hcar]
    by_cases hs : s' = s
    · subst hs
      cases hc.symm.trans hx
      exact ⟨c', update_self .., hreq⟩
    · exact ⟨x, (update_of_ne hs ..).trans hx, rfl⟩

/-- the session of a carrier goes on with the attachment it has -/
theorem Bound.setServer (hp : c'.principal = c.principal)
    (hsame : ∀ a, attachment c'.server = some a → ∃ b, attachment c.server = some b ∧ a.leaseKey = b.leaseKey ∧
      a.constellationID = b.constellationID) : Goes e e' := by
  refine h.setCarrier hc hcar hnext hreq fun a ha => ?_
  obtain ⟨b, hb, hk, hid⟩ := hsame a ha
  rw [hk, hid, hreq, hp]
  exact h.own s c hc b hb

end

/-- a request goes out on a new carrier -/
theorem Bound.newCarrier (hcar : e'.carriers = update e.carriers e.nextCarrier (some c))
    (hnext : e'.nextCarrier = e.nextCarrier + 1) (hserver : c.server = .waiting) : Goes e e' := by
  refine ⟨⟨fun s hs => ?_, fun s x hx => ?_⟩, by omega, fun s x hx => ?_⟩
  · rw [hcar, update_of_ne (by omega)]
    exact h.fresh s (by omega)
  · rw [hcar] at hx
    by_cases hs : s = e.nextCarrier
    · subst hs
      rw [update_self] at hx
      cases hx
      intro a ha
      rw [hserver] at ha
      cases ha
    · rw [update_of_ne hs] at hx
      exact h.own s x hx
  · have hs : s ≠ e.nextCarrier := by
      rintro rfl
      rw [h.fresh _ le_rfl] at hx
      cases hx
    exact ⟨x, by rw [hcar, update_of_ne hs]; exact hx, rfl⟩

theorem admitRequest_serves (s : ℕ) (drawn : List ℕ) : Serves e (e.admitRequest s drawn) := by
  refine onCarrier_of (.refl h) fun c hc => ?_
  have hclosed : OwnAttachment s { c with server := .closed } := nofun
  split
  · exact .refl h
  split
  · exact ⟨h.setCarrier hc rfl rfl rfl hclosed, rfl, rfl⟩
  extract_lets x
  have hkey : ∀ h' a, x = (h', .ok a) → a.leaseKey = key s ∧ a.constellationID = c.request.constellationID ∧
      c.principal ≠ 0 ∧ c.request.constellationID ≠ 0 := by
    intro h' a hx
    unfold x at hx
    split at hx
    · have hcases := e.hub.createPending_cases e.now c.principal c.request.constellationID (key s) (key s) drawn
      rw [hx] at hcases
      cases hcases with
      | created hp hk _ _ _ ha => exact ⟨ha.2.1, ha.1, hp, hk⟩
    · have hcases := e.hub.attachPending_cases e.now c.request.token c.principal c.request.constellationID (key s) (key s) drawn
      rw [hx] at hcases
      cases hcases with
      | attached hp hk _ ha => exact ⟨ha.2.1, ha.1, hp, hk⟩
    · cases hx
  rcases x with ⟨hub, err | a⟩
  · exact ⟨h.setCarrier hc rfl rfl rfl hclosed, rfl, rfl⟩
  refine ⟨h.setCarrier hc rfl rfl rfl fun b hb => ?_, rfl, rfl⟩
  obtain rfl : a = b := by simpa [attachment] using hb
  obtain ⟨hk, hid, hp, hk0⟩ := hkey hub a rfl
  exact ⟨hk, hid, hp, hid ▸ hk0⟩

theorem step_serves (principal : ℕ) (o : Constellation.St.Op) (henv : environment o = true) :
    Serves e (Constellation.St.step principal e o) := by
  cases o with
  | tick d | cleanup => exact ⟨h.same rfl rfl, rfl, rfl⟩
  | admitRequest s drawn => exact admitRequest_serves h s drawn
  | put s | close s =>
    refine onCarrier_of (.refl h) fun c hc => ?_
    split
    · rename_i a ha
      exact ⟨h.setServer hc rfl rfl rfl rfl fun b hb => ⟨b, by rw [ha]; exact hb, rfl, rfl⟩, rfl, rfl⟩
    · exact .refl h
  | sendReturn s ok =>
    refine onCarrier_of (.refl h) fun c hc => ?_
    split
    · rename_i a put ha
      split_ifs
      · refine ⟨h.setServer hc rfl rfl rfl rfl fun b hb => ⟨a, by rw [ha]; rfl, ?_⟩, rfl, rfl⟩
        cases hb
        exact ⟨rfl, rfl⟩
      · exact .refl h
      · refine ⟨h.setServer hc rfl rfl rfl rfl fun b hb => ⟨a, by rw [ha]; rfl, ?_⟩, rfl, rfl⟩
        cases hb
        exact ⟨rfl, rfl⟩
    · exact .refl h
  | release s =>
    refine onCarrier_of (.refl h) fun c hc => ?_
    split
    · exact ⟨h.setServer hc rfl rfl rfl rfl nofun, rfl, rfl⟩
    · rename_i a ha
      refine ⟨h.setServer hc rfl rfl rfl rfl fun b hb => ⟨b, ?_, rfl, rfl⟩, rfl, rfl⟩
      rw [ha]
      split at hb
      · exact hb
      · cases hb
    · exact ⟨h.setServer hc rfl rfl rfl rfl nofun, rfl, rfl⟩
    · exact .refl h
  | lose s =>
    refine onCarrier_of (.refl h) fun c hc => ?_
    exact ⟨h.setServer hc rfl rfl rfl rfl fun b hb => ⟨b, hb, rfl, rfl⟩, rfl, rfl⟩
  | foreign p request =>
    change Serves e (e.foreign principal p request)
    unfold Constellation.St.foreign
    split
    · exact .refl h
    · exact ⟨h.newCarrier rfl rfl rfl, rfl, rfl⟩
  | create _ _ _ _ | attach _ _ | receive | giveUp => cases henv

end

/-! ## The invariant -/

/-- a lease key and constellation that are those of session `s` -/
def OfSession (w : St) (s leaseKey constellationID : ℕ) : Prop :=
  leaseKey = key s ∧ ∃ c, w.exchange.carriers s = some c ∧ c.request.constellationID = constellationID

structure Inv (w : St) : Prop where
  bound : Bound w.exchange
  leaseKey : w.exchange.client.leaseKey ≤ w.exchange.nextCarrier
  waiting : ∀ s request, w.exchange.phase = .waiting s request → w.exchange.client.leaseKey ≠ key s ∧
    (∃ c, w.exchange.carriers s = some c ∧ c.request = request) ∧
    (request.type = .leaseAttach → request.constellationID = w.exchange.client.constellationID)
  attached : ∀ s, w.calls s = some .attached →
    w.OfSession s w.exchange.client.leaseKey w.exchange.client.constellationID
  stated : ∀ s state, w.calls s = some (.stated state) → w.OfSession s state.leaseKey state.constellationID
  handed : ∀ s route, (s, route) ∈ w.handed → w.OfSession s route.leaseKey route.constellationID

theorem init_inv (hub : Hub) : (init hub).Inv where
  bound := ⟨fun _ _ => rfl, fun _ _ h => by cases h⟩
  leaseKey := le_rfl
  waiting := nofun
  attached := nofun
  stated := nofun
  handed := nofun

theorem OfSession.goes (h : w.OfSession s leaseKey k) (w' : St)
    (hg : Goes w.exchange w'.exchange) : w'.OfSession s leaseKey k := by
  obtain ⟨hk, c, hc, hid⟩ := h
  obtain ⟨c', hc', hreq⟩ := hg.requests s c hc
  exact ⟨hk, c', hc', by rw [hreq]; exact hid⟩

/-- the client's key and constellation stay, and no call gets further -/
theorem Inv.frame {w' : St} (h : w.Inv) (hg : Goes w.exchange w'.exchange)
    (hkey : w'.exchange.client.leaseKey = w.exchange.client.leaseKey)
    (hid : w'.exchange.client.constellationID = w.exchange.client.constellationID)
    (hwait : ∀ s request, w'.exchange.phase = .waiting s request → w.exchange.client.leaseKey ≠ key s ∧
      (∃ c, w'.exchange.carriers s = some c ∧ c.request = request) ∧
      (request.type = .leaseAttach → request.constellationID = w.exchange.client.constellationID))
    (hcalls : ∀ s c, w'.calls s = some c → w.calls s = some c ∨ c = .attaching ∨ c = .ended)
    (hhanded : w'.handed = w.handed) : w'.Inv where
  bound := hg.bound
  leaseKey := by rw [hkey]; exact h.leaseKey.trans hg.nextCarrier
  waiting := by rw [hkey, hid]; exact hwait
  attached := fun s hc => by
    rw [hkey, hid]
    rcases hcalls s _ hc with hold | hnew | hnew
    · exact (h.attached s hold).goes w' hg
    · cases hnew
    · cases hnew
  stated := fun s state hc => by
    rcases hcalls s _ hc with hold | hnew | hnew
    · exact (h.stated s state hold).goes w' hg
    · cases hnew
    · cases hnew
  handed := fun s route hm => (h.handed s route (hhanded ▸ hm)).goes w' hg

/-! ## Steps -/

theorem setCall_cases {s' : ℕ} {x x' : Call} (h : (w.setCall s x).calls s' = some x') :
    s' = s ∧ x' = x ∨ s' ≠ s ∧ w.calls s' = some x' := by
  by_cases hs : s' = s
  · subst hs
    have hx : (w.setCall s' x).calls s' = some x := update_self ..
    exact .inl ⟨rfl, Option.some.inj (h.symm.trans hx)⟩
  · exact .inr ⟨hs, (update_of_ne hs ..).symm.trans h⟩

section

variable (h : w.Inv)
include h

/-- a request goes out: the call on the new session begins -/
theorem Inv.sent {client : ClientControl} {ids : List ℕ} (hkey : client.leaseKey = w.exchange.client.leaseKey)
    (hid : client.constellationID = w.exchange.client.constellationID) (principal : ℕ) (request : Frame) (sent delivered : Bool)
    (hreq : request.type = .leaseAttach → request.constellationID = w.exchange.client.constellationID) :
    (w.began (({ w.exchange with client := client, ids := ids } : Constellation.St).send principal request sent delivered)
      sent).Inv := by
  have hne : w.exchange.nextCarrier + 1 ≠ w.exchange.nextCarrier := Nat.succ_ne_self _
  unfold began
  simp only [Constellation.St.send, hne, if_false]
  refine h.frame (h.bound.newCarrier rfl rfl rfl) hkey hid (fun s request' hph => ?_) (fun s c hc => ?_) rfl
  · simp only [setCall] at hph
    split_ifs at hph
    cases hph
    exact ⟨(Nat.lt_succ_of_le h.leaseKey).ne, ⟨_, update_self .., rfl⟩, hreq⟩
  · rcases setCall_cases hc with ⟨-, rfl⟩ | ⟨-, hold⟩
    · cases sent with
      | true => exact .inr (.inl rfl)
      | false => exact .inr (.inr rfl)
    · exact .inl hold

/-- the client takes a message ID, or does not -/
theorem Inv.unsent (client : ClientControl)
    (hkey : client.leaseKey = w.exchange.client.leaseKey) (hid : client.constellationID = w.exchange.client.constellationID)
    (sent : Bool) : (w.began { w.exchange with client := client } sent).Inv := by
  unfold began
  simp only [if_true]
  exact h.frame (h.bound.same rfl rfl) hkey hid (fun s request => h.waiting s request)
    (fun s c hc => .inl hc) rfl

theorem create_inv (principal : ℕ) (forwardSecret : Bool) (id : ℕ) (sent delivered : Bool) :
    (w.create principal forwardSecret id sent delivered).Inv := by
  unfold create
  split
  · exact h
  have h' : ({ w with created := true } : St).Inv := { h with }
  obtain ⟨n, hn, -⟩ := startMessageID_eq w.exchange.client forwardSecret
  have hkey : (startMessageID w.exchange.client forwardSecret).leaseKey = w.exchange.client.leaseKey := by rw [hn]
  have hid : (startMessageID w.exchange.client forwardSecret).constellationID =
      w.exchange.client.constellationID := by rw [hn]
  unfold Constellation.St.create
  split
  · exact h'.unsent w.exchange.client rfl rfl sent
  extract_lets e
  split
  · exact h'.unsent _ hkey hid sent
  split
  · exact h'.unsent _ hkey hid sent
  rename_i messageID client hm
  obtain ⟨rfl, -⟩ := takeMessageID_eq hm
  refine h'.sent ?_ ?_ principal _ sent delivered nofun
  · exact hkey
  · exact hid

theorem attach_inv (principal : ℕ) (sent delivered : Bool) : (w.attach principal sent delivered).Inv := by
  unfold attach
  split
  · exact h
  unfold Constellation.St.attach
  split
  · exact h.unsent w.exchange.client rfl rfl sent
  split
  · exact h.unsent w.exchange.client rfl rfl sent
  rename_i messageID client hm
  obtain ⟨rfl, -⟩ := takeMessageID_eq hm
  refine h.sent ?_ ?_ principal _ sent delivered (fun _ => rfl)
  · rfl
  · rfl

theorem giveUp_inv : w.giveUp.Inv := by
  unfold giveUp
  split
  · exact h
  refine h.frame (h.bound.same rfl rfl) rfl rfl nofun
    (fun s' c hc => ?_) rfl
  rcases setCall_cases hc with ⟨-, hx⟩ | ⟨-, hold⟩
  · exact .inr (.inr hx)
  · exact .inl hold

theorem other_inv (principal : ℕ) (o : Constellation.St.Op) (henv : environment o = true) :
    ({ w with exchange := Constellation.St.step principal w.exchange o } : St).Inv := by
  have hg := step_serves h.bound principal o henv
  refine h.frame hg.toGoes (by rw [hg.client]) (by rw [hg.client]) (fun s request hph => ?_) (fun s c hc => .inl hc) rfl
  obtain ⟨hne, ⟨c, hc, hreq⟩, hid⟩ := h.waiting s request (hg.phase ▸ hph)
  obtain ⟨c', hc', hreq'⟩ := hg.requests s c hc
  exact ⟨hne, ⟨c', hc', hreq'.trans hreq⟩, hid⟩

theorem state_inv (s : ℕ) : (w.state s).Inv := by
  unfold state
  split
  · rename_i hcond
    refine { h with attached := fun s' hc => ?_, stated := fun s' state hc => ?_ }
    · rcases setCall_cases hc with ⟨-, hx⟩ | ⟨-, hold⟩
      · split_ifs at hx
      · exact h.attached s' hold
    · rcases setCall_cases hc with ⟨rfl, hx⟩ | ⟨-, hold⟩
      · split_ifs at hx
        cases hx
        exact h.attached s' hcond.1
      · exact h.stated s' state hold
  · exact h

theorem hand_inv (maxFlows s id : ℕ) (switch : Bool) : (w.hand maxFlows s id switch).Inv := by
  unfold hand
  split
  · rename_i state hst
    refine ⟨h.bound, h.leaseKey, h.waiting, fun s' hc => ?_, fun s' state' hc => ?_, fun s' route hm => ?_⟩
    · exact (setCall_cases hc).elim (fun hx => nomatch hx.2) fun hx => h.attached s' hx.2
    · exact (setCall_cases hc).elim (fun hx => nomatch hx.2) fun hx => h.stated s' state' hx.2
    rcases List.mem_append.1 hm with hm | hm
    · exact h.handed s' route hm
    · obtain ⟨rfl, rfl⟩ := Prod.mk.inj (List.mem_singleton.1 hm)
      exact h.stated s' state hst
  · exact h

end

/-- what the client can read on the session it waits for -/
inductive Received (e : Constellation.St) (s : ℕ) (request : Frame) : Constellation.St → Prop where
  | nothing : Received e s request e
  | refused {e' : Constellation.St} (hg : Goes e e') (hph : e'.phase = .idle) (hclient : e'.client = e.client) :
    Received e s request e'
  | accepted {e' : Constellation.St} (hg : Goes e e') (hph : e'.phase = .idle) (hkey : e'.client.leaseKey = key s)
    (hid : e'.client.constellationID = request.constellationID ∨
      request.type = .leaseAttach ∧ e'.client.constellationID = e.client.constellationID) : Received e s request e'

theorem receive_cases (h : Bound e) {request : Frame} (hph : e.phase = .waiting s request) :
    Received e s request e.receive := by
  unfold Constellation.St.receive
  rw [hph]
  simp only
  unfold Constellation.St.onCarrier
  cases hc : e.carriers s with
  | none => exact .nothing
  | some c =>
    simp only
    cases hr : c.response with
    | none => exact .nothing
    | some fr =>
      simp only
      have hgoes : ∀ e' : Constellation.St, e'.carriers = update e.carriers s (some { c with response := none }) →
          e'.nextCarrier = e.nextCarrier → Goes e e' := fun e' hcar hnext =>
        h.setServer hc hcar hnext rfl rfl fun b hb => ⟨b, hb, rfl, rfl⟩
      split
      · exact .refused (hgoes _ rfl rfl) rfl rfl
      split
      · exact .accepted (hgoes _ rfl rfl) rfl rfl (.inl rfl)
      · rename_i htype _
        exact .accepted (hgoes _ rfl rfl) rfl rfl (.inr ⟨htype, rfl⟩)
      · exact .refused (hgoes _ rfl rfl) rfl rfl

theorem receive_inv (h : w.Inv) (hg : w.stateFirst .receive = true) : w.receive.Inv := by
  unfold receive
  split
  · exact h
  rename_i s request hph
  have hcases := receive_cases h.bound hph
  obtain ⟨hne, ⟨c, hc, hreq⟩, hid⟩ := h.waiting s request hph
  have hlt : ∀ s' x, w.exchange.carriers s' = some x → s' < w.exchange.nextCarrier := by
    intro s' x hx
    by_contra hge
    rw [h.bound.fresh s' (not_lt.1 hge)] at hx
    cases hx
  have hnone : ∀ s', w.calls s' ≠ some .attached := by
    intro s' hs'
    obtain ⟨-, x, hx, -⟩ := h.attached s' hs'
    exact of_decide_eq_true hg s' (hlt s' x hx) hs'
  generalize w.exchange.receive = e at hcases
  cases hcases with
  | nothing =>
    rw [if_pos (by rw [hph]; exact nofun)]
    exact h
  | refused hgoes hidle hclient =>
    rw [if_neg (not_not.2 hidle), hclient, if_neg hne]
    refine h.frame hgoes (by rw [← hclient]; rfl) (by rw [← hclient]; rfl) (fun s' request' hx => ?_) (fun s' x hx => ?_) rfl
    · cases hidle.symm.trans hx
    rcases setCall_cases hx with ⟨-, hx⟩ | ⟨-, hold⟩
    · exact .inr (.inr hx)
    · exact .inl hold
  | accepted hgoes hidle hkey hid' =>
    rw [if_neg (not_not.2 hidle), if_pos hkey]
    have hK : e.client.constellationID = request.constellationID := hid'.elim id fun ⟨ht, hx⟩ => hx.trans (hid ht).symm
    refine ⟨hgoes.bound, ?_, fun s' request' hx => ?_, fun s' hx => ?_, fun s' state hx => ?_, fun s' route hm => ?_⟩
    · change e.client.leaseKey ≤ e.nextCarrier
      rw [hkey]
      exact (Nat.succ_le_of_lt (hlt s c hc)).trans hgoes.nextCarrier
    · cases hidle.symm.trans hx
    · rcases setCall_cases hx with ⟨rfl, -⟩ | ⟨-, hold⟩
      · obtain ⟨c', hc', hreq'⟩ := hgoes.requests s' c hc
        exact ⟨hkey, c', hc', by rw [hreq', hreq]; exact hK.symm⟩
      · exact absurd hold (hnone s')
    · rcases setCall_cases hx with ⟨-, hst⟩ | ⟨-, hold⟩
      · cases hst
      · exact (h.stated s' state hold).goes { w with exchange := e } hgoes
    · exact (h.handed s' route hm).goes { w with exchange := e } hgoes

theorem step_inv {maxFlows : ℕ} (w : St) (o : Op) (h : w.Inv) (hg : w.stateFirst o = true) :
    (step principal maxFlows w o).Inv := by
  cases o with
  | create forwardSecret id sent delivered => exact create_inv h principal forwardSecret id sent delivered
  | attach sent delivered => exact attach_inv h principal sent delivered
  | receive => exact receive_inv h hg
  | giveUp => exact giveUp_inv h
  | state s => exact state_inv h s
  | hand s id switch => exact hand_inv h maxFlows s id switch
  | removeRoute id => exact { h with }
  | other o =>
    simp only [step]
    split
    · exact other_inv h principal o ‹_›
    · exact h

/-- **Routes.** In every run in which each `State` is read before another exchange ends, every route handed to the router
carries the lease key of its own session. That is the key the server bound, so an OPEN over the route passes the lease check
while the session lives, and routes of different sessions have different keys. -/
theorem route_binds_own_session (principal maxFlows : ℕ) (hub : Hub) (ops : List Op)
    (hg : Machine.Guarded (step principal maxFlows) (fun w o => w.stateFirst o = true) (init hub) ops) :
    let w := run principal maxFlows (init hub) ops
    (∀ s route, (s, route) ∈ w.handed → route.leaseKey = key s ∧
      ∀ c a flowID epoch, w.exchange.carriers s = some c → c.server = .serving a →
        a.leaseKey = route.leaseKey ∧ Proxy.validContinuityLease (lease c a) (metadata route flowID epoch) = true) ∧
    ∀ s s' route route', (s, route) ∈ w.handed → (s', route') ∈ w.handed → s ≠ s' → route.leaseKey ≠ route'.leaseKey := by
  intro w
  have h : w.Inv := Machine.run_inv_guarded step_inv (init_inv hub) ops hg
  refine ⟨fun s route hm => ?_, fun s s' route route' hm hm' hne => ?_⟩
  · obtain ⟨hkey, x, hx, hid⟩ := h.handed s route hm
    refine ⟨hkey, fun c a flowID epoch hc hserver => ?_⟩
    obtain rfl : c = x := Option.some.inj (hc.symm.trans hx)
    obtain ⟨hak, hak', hp, hk0⟩ := h.bound.own s c hc a (hserver ▸ rfl)
    refine ⟨hak.trans hkey.symm, decide_eq_true ⟨hp, hk0, ?_, ?_, ?_⟩⟩
    · change a.leaseKey ≠ 0
      rw [hak]
      exact Nat.succ_ne_zero s
    · exact hid.symm.trans hak'.symm
    · exact hkey.trans hak.symm
  · rw [(h.handed s route hm).1, (h.handed s' route' hm').1]
    exact fun heq => hne (Nat.succ_injective heq)

/-- the first session creates the constellation and the router -/
def started : List Op :=
  [.create false 5 true true, .other (.admitRequest 0 [11]), .other (.put 0), .other (.sendReturn 0 true), .receive, .state 0,
    .hand 0 1 false]

/-- session `s` attaches -/
def attaches (s ticket : ℕ) : List Op :=
  [.attach true true, .other (.admitRequest s [ticket]), .other (.put s), .other (.sendReturn s true), .receive]

/-- a second session is attached and its route added -/
theorem route_binds_own_session_pool :
    let w := run 1 4 (init (Hub.new 100 3 3 300 300 60)) (started ++ attaches 1 12 ++ [.state 1, .hand 1 2 false])
    (1, ⟨2, 1, 5, 2⟩) ∈ w.handed ∧ (⟨2, 1, 5, 2⟩ : Route).leaseKey = key 1 :=
  ⟨by decide, ((route_binds_own_session 1 4 (Hub.new 100 3 3 300 300 60)
    (started ++ attaches 1 12 ++ [.state 1, .hand 1 2 false]) (by decide)).1 1 ⟨2, 1, 5, 2⟩ (by decide)).1⟩

/-- **Two attaches overlap.** Session 1 attaches, session 2 attaches before session 1 reads the state, and the route of
session 1 takes the place of the others with the key of session 2: the server refuses every OPEN over it. -/
theorem route_binds_other_session :
    let w := run 1 4 (init (Hub.new 100 3 3 300 300 60)) (started ++ attaches 1 12 ++ attaches 2 13 ++
      [.state 1, .hand 1 1 true])
    ∃ route c a, (1, route) ∈ w.handed ∧ w.router.map Router.routes = some [route] ∧ route.leaseKey ≠ key 1 ∧
      w.exchange.carriers 1 = some c ∧ c.server = .serving a ∧
      Proxy.validContinuityLease (lease c a) (metadata route 1 1) = false :=
  ⟨⟨1, 1, 5, 3⟩, ⟨1, true, ⟨.leaseAttach, 4, 5, 11⟩, true, true, .serving ⟨5, 2, 2, 12, false, none⟩, none⟩,
    ⟨5, 2, 2, 12, false, none⟩, by decide⟩

end St

end NeProto.Mobile
