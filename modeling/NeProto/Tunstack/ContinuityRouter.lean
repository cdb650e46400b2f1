/-
The client's migration of flows between carriers (`internal/tunstack/continuity_router.go`): any number of flows, each
with its own resumable stream, one migration worker and one queue. MODEL: each region under `r.mu` or `flow.mu` is one
operation, the worker's calls of `DetachPhysical` and `Replace` go through the operations of the flow's stream, and so do
the application's calls; everything interleaves.

- A flow object is named by a number; `active` and `pending` are the keys of `r.flows` and `r.pending`.
- A `requestMigration` call is its locked check (`requestMigration`) and its select (`send`). `SwitchRoute` and `RemoveRoute`
  collect flows under the lock and call it for each afterwards (`requests`). An `OnUnavailable` callback is owed from the
  moment `markUnavailable` drops the stream (`St.callbacks`).
- The environment decides which healthy route is selected, how `Mux.Open` and `ControlChannel.Register` answer, when a
  context ends, and when the application finishes a flow.
- `Effect`, `step_effect`: everything a step can do.
Not modelled: route metrics and standby marks (they only steer the choice of the route), what is sent on the control
channels, and nil arguments.
-/
import NeProto.Continuity.ResumableStream

namespace NeProto.Tunstack

open Continuity (St Op Config Result Offsets)

/-! ## State -/

structure Route where
  id : ℕ
  control : ℕ
  constellationID : ℕ
  leaseKey : ℕ
deriving DecidableEq

/-- `clientContinuityFlow` -/
structure Flow where
  stream : St
  control : Option ℕ
  leaseKey : ℕ
  routeID : ℕ
  epoch : ℕ
  migrating : Bool
  finished : Bool
  /-- `openStream` failed after it had made the stream -/
  abandoned : Bool

/-- the variables of one round of `migrate` -/
structure Round where
  oldControl : Option ℕ
  oldLeaseKey : ℕ
  epoch : ℕ
  route : Route
  offsets : Offsets
deriving DecidableEq

/-- the migration worker -/
inductive Worker where
  | idle
  /-- in `DetachPhysical` -/
  | detach (f : ℕ)
  /-- at the head of the loop -/
  | head (f : ℕ)
  | select (f : ℕ) (oldControl : Option ℕ) (oldLeaseKey epoch : ℕ)
  /-- in one of the selects that wait for a route -/
  | wait (f : ℕ)
  /-- in `Mux.Open` -/
  | opening (f : ℕ) (m : Round)
  /-- in `Control.Register` -/
  | bind (f : ℕ) (m : Round) (p : ℕ)
  | install (f : ℕ) (m : Round) (p : ℕ)
  /-- in `Replace` -/
  | replace (f : ℕ) (m : Round) (p : ℕ)
  /-- `Replace` failed -/
  | restore (f : ℕ) (m : Round)
  /-- `Replace` returned nil, `migrating` is still set -/
  | published (f : ℕ) (m : Round)
  | unregister (f : ℕ)
  /-- about to call `finish(true)` -/
  | giveUp (f : ℕ)
  | stopped
deriving DecidableEq

structure Router where
  maxFlows : ℕ
  routes : List Route
  flows : ℕ → Option Flow
  active : List ℕ
  pending : List (ℕ × Route)
  nextID : ℕ
  /-- the router's context has ended -/
  cancelled : Bool
  closed : Bool
  migrations : List ℕ
  /-- `requestMigration` calls that set `migrating` and have not reached their select -/
  sending : List ℕ
  /-- `requestMigration` calls that `SwitchRoute` and `RemoveRoute` still have to make -/
  requests : List ℕ
  worker : Worker

/-- `NewClientContinuityRouter` -/
def init (maxFlows : ℕ) (route : Route) : Router where
  maxFlows := maxFlows
  routes := [route]
  flows := fun _ => none
  active := []
  pending := []
  nextID := 0
  cancelled := false
  closed := false
  migrations := []
  sending := []
  requests := []
  worker := .idle

namespace Router

variable (r : Router)

def setFlow (f : ℕ) (F : Flow) : Router := { r with flows := Function.update r.flows f (some F) }

/-- the flow object, if there is one -/
def onFlow (f : ℕ) (g : Flow → Router) : Router :=
  match r.flows f with
  | some F => g F
  | none => r

/-! ## Flows -/

/-- the locked check of `requestMigration` -/
def requestMigration (f : ℕ) : Router :=
  r.onFlow f fun F =>
    if F.finished ∨ F.migrating then r
    else { r.setFlow f { F with migrating := true } with sending := r.sending ++ [f] }

/-- the locked part of `finish` -/
def finish (f : ℕ) : Router := r.onFlow f fun F => r.setFlow f { F with finished := true, control := none }

/-- the select of `requestMigration`; with both cases ready it takes either -/
def send (i : ℕ) (done : Bool) : Router :=
  match r.sending[i]? with
  | none => r
  | some f =>
    let r := { r with sending := r.sending.eraseIdx i }
    if r.migrations.length < r.maxFlows ∧ ¬ (r.cancelled ∧ done) then { r with migrations := r.migrations ++ [f] }
    else r.finish f

/-- `finish` closes the stream and then forgets the flow -/
def finishClose (C : Config) (r : Router) (f : ℕ) (o : Op) : Router :=
  r.onFlow f fun F =>
    if F.finished ∧ (o = .close ∨ o = .closeJournal) then r.setFlow f { F with stream := Continuity.step C F.stream o } else r

def finishRemove (f : ℕ) : Router :=
  r.onFlow f fun F => if F.finished ∧ F.stream.closed then { r with active := r.active.filter (· ≠ f) } else r

/-- a call on the control binding of flow `f`: `Abort` with `ErrControlChannelClosed`, or with another error -/
def abort (f leaseKey : ℕ) (channelClosed : Bool) : Router :=
  if channelClosed then r.requestMigration f
  else r.onFlow f fun F => if F.leaseKey = leaseKey then r.finish f else r

/-- the operations of the application's `Read`, `Write` and `CloseWrite` and of `Ack` -/
def ofApplication : Op → Bool
  | .replace _ _ _ | .replaceAck | .replaceState | .replaceReplay | .replayPut _ | .replayWrite _ _ | .replaceFin
  | .replaceCloseWrite _ | .replacePublish | .detachPhysical | .detachDone | .close | .closeJournal | .callback => false
  | _ => true

def stream (C : Config) (r : Router) (f : ℕ) (o : Op) : Router :=
  r.onFlow f fun F => if ofApplication o then r.setFlow f { F with stream := Continuity.step C F.stream o } else r

/-- an owed `OnUnavailable` callback calls `requestMigration` -/
def callback (C : Config) (r : Router) (f : ℕ) : Router :=
  r.onFlow f fun F =>
    if 0 < F.stream.callbacks then
      (r.setFlow f { F with stream := Continuity.step C F.stream .callback }).requestMigration f
    else r

/-! ## Routes -/

def addRoute (route : Route) : Router :=
  if r.closed ∨ 3 ≤ r.routes.length ∨ ∃ e ∈ r.routes, e.id = route.id ∨ e.leaseKey = route.leaseKey ∨
      e.constellationID ≠ route.constellationID then r
  else { r with routes := r.routes ++ [route] }

def switchRoute (route : Route) : Router :=
  if r.closed then r else { r with routes := [route], requests := r.requests ++ r.active }

/-- the flow uses the route -/
def usesRoute (id f : ℕ) : Bool :=
  match r.flows f with
  | some F => decide (F.routeID = id)
  | none => false

def removeRoute (id : ℕ) : Router :=
  if r.closed ∨ ∀ e ∈ r.routes, e.id ≠ id then r
  else { r with routes := r.routes.filter fun e => e.id ≠ id
                requests := r.requests ++ r.active.filter fun f => r.usesRoute id f }

/-- `SwitchRoute` or `RemoveRoute` makes the `i`-th call it owes -/
def request (i : ℕ) : Router :=
  match r.requests[i]? with
  | none => r
  | some f => { r with requests := r.requests.eraseIdx i }.requestMigration f

/-! ## openStream -/

/-- reserve an ID over the selected route -/
def openReserve (id : ℕ) : Router :=
  if r.closed ∨ r.maxFlows ≤ r.active.length + r.pending.length then r
  else match r.routes.find? fun e => e.id = id with
    | none => r
    | some route => { r with pending := r.pending ++ [(r.nextID, route)], nextID := r.nextID + 1 }

def unreserve (f : ℕ) : Router := { r with pending := r.pending.filter fun x => x.1 ≠ f }

section

variable (C : Config) (r : Router) (f : ℕ)

/-- `Mux.Open` returned: without a stream, or with the physical stream `p` -/
def openPhysical (p : Option ℕ) : Router :=
  match r.flows f, r.pending.find? fun x => x.1 = f with
  | none, some (_, route) =>
    match p with
    | none => r.unreserve f
    | some p => r.setFlow f
        { stream := Continuity.init C p, control := some route.control, leaseKey := route.leaseKey, routeID := route.id
          epoch := 1, migrating := false, finished := false, abandoned := false }
  | _, _ => r

/-- `openStream` fails after it made the stream (`Register` refused, or the router is closed) and closes it -/
def abandon : Router :=
  r.onFlow f fun F =>
    (r.setFlow f { F with stream := Continuity.step C (Continuity.step C F.stream .close) .closeJournal
                          abandoned := true }).unreserve f

/-- the second locked region of `openStream` -/
def openRegister : Router :=
  match r.flows f, r.pending.find? fun x => x.1 = f with
  | some _, some _ => if r.closed then r.abandon C f else { r.unreserve f with active := r.active ++ [f] }
  | _, _ => r

def openRefused : Router :=
  match r.flows f, r.pending.find? fun x => x.1 = f with
  | some _, some _ => r.abandon C f
  | _, _ => r

end

/-! ## The worker -/

def take : Router :=
  match r.worker, r.migrations with
  | .idle, f :: rest => { r with migrations := rest, worker := .detach f }
  | _, _ => r

def stop : Router := if r.worker = .idle ∧ r.cancelled then { r with worker := .stopped } else r

def workerDetach (C : Config) (r : Router) (o : Op) : Router :=
  match r.worker with
  | .detach f => r.onFlow f fun F =>
    if o = .detachPhysical ∨ o = .detachDone then
      let s := Continuity.step C F.stream o
      let r := r.setFlow f { F with stream := s }
      match Continuity.news F.stream s with
      | [.detach none] => { r with worker := .head f }
      | [.detach (some e)] => { r with worker := if e = .resumableClosed then .idle else .giveUp f }
      | _ => r
    else r
  | _ => r

def workerHead : Router :=
  match r.worker with
  | .head f => r.onFlow f fun F =>
    { r with worker := if F.finished then .idle else .select f F.control F.leaseKey (F.epoch + 1) }
  | _ => r

/-- `ContinuityOpenMetadata.validate` of a resume request; the identifiers are never zero -/
def validResume (epoch : ℕ) (offsets : Offsets) : Bool :=
  decide (2 ≤ epoch ∧ epoch ≤ Continuity.maxSequence ∧ offsets.sendBase ≤ Continuity.maxSequence ∧
    offsets.receive ≤ Continuity.maxSequence)

/-- `selectRouteLocked` chose the route, or none; then the offsets are read and the request is encoded -/
def workerSelect (id : Option ℕ) : Router :=
  match r.worker with
  | .select f oldControl oldLeaseKey epoch => r.onFlow f fun F =>
    match r.routes.find? fun e => some e.id = id ∧ e.leaseKey ≠ oldLeaseKey with
    | none => { r with worker := .wait f }
    | some route =>
      let offsets := Continuity.offsets F.stream
      { r with worker := if validResume epoch offsets then .opening f ⟨oldControl, oldLeaseKey, epoch, route, offsets⟩
                         else .giveUp f }
  | _ => r

/-- the wait for a route ends: with a change or the timer, or with the context -/
def workerWait (again : Bool) : Router :=
  match r.worker with
  | .wait f => { r with worker := if again then .head f else .giveUp f }
  | _ => r

/-- `Mux.Open` returned a stream or an error; `none` is a failure of `NewTransportStream` -/
def workerOpen (result : Option (Option ℕ)) : Router :=
  match r.worker with
  | .opening f m =>
    match result with
    | none => { r with worker := .giveUp f }
    | some none => { r with worker := .wait f }
    | some (some p) => { r with worker := if m.oldControl ≠ some m.route.control then .bind f m p else .install f m p }
  | _ => r

def workerBind (ok : Bool) : Router :=
  match r.worker with
  | .bind f m p => { r with worker := if ok then .install f m p else .wait f }
  | _ => r

def workerInstall : Router :=
  match r.worker with
  | .install f m p => r.onFlow f fun F =>
    { r.setFlow f { F with control := some m.route.control, leaseKey := m.route.leaseKey, routeID := m.route.id } with
      worker := .replace f m p }
  | _ => r

/-- the operations of this `Replace` -/
def ofReplace (m : Round) (p : ℕ) : Op → Bool
  | .replace q peer recv => decide (q = p ∧ peer = m.offsets.sendBase ∧ recv = m.offsets.receive)
  | .replaceAck | .replaceState | .replaceReplay | .replayPut _ | .replayWrite _ _ | .replaceFin | .replaceCloseWrite _
  | .replacePublish => true
  | _ => false

def workerReplace (C : Config) (r : Router) (o : Op) : Router :=
  match r.worker with
  | .replace f m p => r.onFlow f fun F =>
    if ofReplace m p o then
      let s := Continuity.step C F.stream o
      let r := r.setFlow f { F with stream := s }
      match Continuity.news F.stream s with
      | [.replace none] => { r with worker := .published f m }
      | [.replace (some _)] => { r with worker := .restore f m }
      | _ => r
    else r
  | _ => r

/-- after a failed `Replace`; `routeID` stays -/
def workerRestore : Router :=
  match r.worker with
  | .restore f m => r.onFlow f fun F =>
    { r.setFlow f { F with control := m.oldControl, leaseKey := m.oldLeaseKey } with worker := .wait f }
  | _ => r

/-- the flow is migrated -/
def workerClear : Router :=
  match r.worker with
  | .published f m => r.onFlow f fun F =>
    { r.setFlow f { F with epoch := m.epoch, migrating := false } with worker := .unregister f }
  | _ => r

def workerUnregister : Router :=
  match r.worker with
  | .unregister _ => { r with worker := .idle }
  | _ => r

def workerGiveUp : Router :=
  match r.worker with
  | .giveUp f => { r.finish f with worker := .idle }
  | _ => r

/-! ## The machine -/

inductive ROp where
  | addRoute (route : Route)
  | switchRoute (route : Route)
  | removeRoute (id : ℕ)
  | request (i : ℕ)
  | openReserve (id : ℕ)
  | openPhysical (f : ℕ) (p : Option ℕ)
  | openRefused (f : ℕ)
  | openRegister (f : ℕ)
  | stream (f : ℕ) (o : Op)
  | callback (f : ℕ)
  | abort (f leaseKey : ℕ) (channelClosed : Bool)
  | send (i : ℕ) (done : Bool)
  | finish (f : ℕ)
  | finishClose (f : ℕ) (o : Op)
  | finishRemove (f : ℕ)
  | cancel
  | close
  | take
  | stop
  | workerDetach (o : Op)
  | workerHead
  | workerSelect (id : Option ℕ)
  | workerWait (again : Bool)
  | workerOpen (result : Option (Option ℕ))
  | workerBind (ok : Bool)
  | workerInstall
  | workerReplace (o : Op)
  | workerRestore
  | workerClear
  | workerUnregister
  | workerGiveUp

def step (C : Config) (r : Router) : ROp → Router
  | .addRoute route => r.addRoute route
  | .switchRoute route => r.switchRoute route
  | .removeRoute id => r.removeRoute id
  | .request i => r.request i
  | .openReserve id => r.openReserve id
  | .openPhysical f p => r.openPhysical C f p
  | .openRefused f => r.openRefused C f
  | .openRegister f => r.openRegister C f
  | .stream f o => r.stream C f o
  | .callback f => r.callback C f
  | .abort f leaseKey channelClosed => r.abort f leaseKey channelClosed
  | .send i done => r.send i done
  | .finish f => r.finish f
  | .finishClose f o => r.finishClose C f o
  | .finishRemove f => r.finishRemove f
  | .cancel => { r with cancelled := true }
  | .close => { r with closed := r.cancelled || r.closed }
  | .take => r.take
  | .stop => r.stop
  | .workerDetach o => r.workerDetach C o
  | .workerHead => r.workerHead
  | .workerSelect id => r.workerSelect id
  | .workerWait again => r.workerWait again
  | .workerOpen result => r.workerOpen result
  | .workerBind ok => r.workerBind ok
  | .workerInstall => r.workerInstall
  | .workerReplace o => r.workerReplace C o
  | .workerRestore => r.workerRestore
  | .workerClear => r.workerClear
  | .workerUnregister => r.workerUnregister
  | .workerGiveUp => r.workerGiveUp

/-- every interleaving -/
def run (C : Config) (r : Router) (ops : List ROp) : Router := Machine.run (step C) r ops

/-! ## What a step can do -/

/-- the worker goes on with its flow -/
inductive Onward : Worker → Worker → Prop where
  | noRoute {f control leaseKey epoch} : Onward (.select f control leaseKey epoch) (.wait f)
  | invalid {f control leaseKey epoch} : Onward (.select f control leaseKey epoch) (.giveUp f)
  | again {f} : Onward (.wait f) (.head f)
  | ended {f} : Onward (.wait f) (.giveUp f)
  | unopened {f m} : Onward (.opening f m) (.giveUp f)
  | refused {f m} : Onward (.opening f m) (.wait f)
  | opened {f m p} : Onward (.opening f m) (.bind f m p)
  | sameControl {f m p} : Onward (.opening f m) (.install f m p)
  | bound {f m p} : Onward (.bind f m p) (.install f m p)
  | unbound {f m p} : Onward (.bind f m p) (.wait f)
  | unregistered {f} : Onward (.unregister f) .idle

variable (C : Config) (r : Router) (o : ROp)

/-- everything a step can do -/
inductive Effect : Router → Prop where
  | rest {routes requests cancelled closed} :
    Effect { r with routes := routes, requests := requests, cancelled := cancelled, closed := closed }
  | reserve {route} : Effect { r with pending := r.pending ++ [(r.nextID, route)], nextID := r.nextID + 1 }
  | unreserve {f} : Effect (r.unreserve f)
  | made {f p} {route : Route} (hf : r.flows f = none) (hp : ∃ y ∈ r.pending, y.1 = f) :
    Effect (r.setFlow f ⟨Continuity.init C p, some route.control, route.leaseKey, route.id, 1, false, false, false⟩)
  | abandon {f} (hp : ∃ y ∈ r.pending, y.1 = f) : Effect (r.abandon C f)
  | register {f F} (hf : r.flows f = some F) (hp : ∃ y ∈ r.pending, y.1 = f) :
    Effect { r.unreserve f with active := r.active ++ [f] }
  | remove {f} : Effect { r with active := r.active.filter (· ≠ f) }
  /-- `requestMigration`, which a callback calls when it is done with the stream -/
  | asks {f F stream requests} (hf : r.flows f = some F) (hm : F.migrating = false)
      (hs : stream = F.stream ∨ o = .callback f ∧ stream = Continuity.step C F.stream .callback) :
    Effect { r.setFlow f { F with stream := stream, migrating := true } with sending := r.sending ++ [f], requests := requests }
  | ignored {f F} (ho : o = .callback f) (hf : r.flows f = some F) (hm : F.finished = true ∨ F.migrating = true) :
    Effect (r.setFlow f { F with stream := Continuity.step C F.stream .callback })
  | queue {i f} (hi : r.sending[i]? = some f) :
    Effect { r with sending := r.sending.eraseIdx i, migrations := r.migrations ++ [f] }
  | full {i f} (hi : r.sending[i]? = some f) : Effect ({ r with sending := r.sending.eraseIdx i }.finish f)
  | finish {f} : Effect (r.finish f)
  | stream {f F op} (hf : r.flows f = some F) (ho : ofApplication op = true) :
    Effect (r.setFlow f { F with stream := Continuity.step C F.stream op })
  | close {f F stream} (hf : r.flows f = some F) (hfin : F.finished = true) : Effect (r.setFlow f { F with stream := stream })
  | take {f rest} (hw : r.worker = .idle) (hm : r.migrations = f :: rest) :
    Effect { r with migrations := rest, worker := .detach f }
  | stop (hw : r.worker = .idle) : Effect { r with worker := .stopped }
  | onward {w} (h : Onward r.worker w) : Effect { r with worker := w }
  | detach {f F op w} (hw : r.worker = .detach f) (hf : r.flows f = some F) (ho : op = .detachPhysical ∨ op = .detachDone)
      (h : w = .detach f ∨ w = .head f ∨ ∃ e, Continuity.news F.stream (Continuity.step C F.stream op) = [.detach (some e)] ∧
        w = if e = .resumableClosed then .idle else .giveUp f) :
    Effect { r.setFlow f { F with stream := Continuity.step C F.stream op } with worker := w }
  | gone {f F} (hw : r.worker = .head f) (hf : r.flows f = some F) (hfin : F.finished = true) :
    Effect { r with worker := .idle }
  | plans {f F} (hw : r.worker = .head f) (hf : r.flows f = some F) :
    Effect { r with worker := .select f F.control F.leaseKey (F.epoch + 1) }
  | sends {f control leaseKey m} (hw : r.worker = .select f control leaseKey m.epoch)
      (hm : 2 ≤ m.epoch ∧ m.epoch ≤ Continuity.maxSequence) : Effect { r with worker := .opening f m }
  | install {f m p F control leaseKey routeID} (hw : r.worker = .install f m p) (hf : r.flows f = some F) :
    Effect { r.setFlow f { F with control := control, leaseKey := leaseKey, routeID := routeID } with worker := .replace f m p }
  | replace {f m p F op w} (hw : r.worker = .replace f m p) (hf : r.flows f = some F) (ho : ofReplace m p op = true)
      (h : w = .replace f m p ∨ w = .restore f m ∨
        Continuity.news F.stream (Continuity.step C F.stream op) = [.replace none] ∧ w = .published f m) :
    Effect { r.setFlow f { F with stream := Continuity.step C F.stream op } with worker := w }
  | restore {f m F control leaseKey} (hw : r.worker = .restore f m) (hf : r.flows f = some F) :
    Effect { r.setFlow f { F with control := control, leaseKey := leaseKey } with worker := .wait f }
  | clear {f m F} (hw : r.worker = .published f m) (hf : r.flows f = some F) :
    Effect { r.setFlow f { F with epoch := m.epoch, migrating := false } with worker := .unregister f }
  | giveUp {f} (hw : r.worker = .giveUp f) : Effect { r.finish f with worker := .idle }

variable {C r o}

theorem Effect.same : Effect C r o r := .rest

theorem onFlow_effect {f : ℕ} {g : Flow → Router} (hg : ∀ F, r.flows f = some F → Effect C r o (g F)) :
    Effect C r o (r.onFlow f g) := by
  unfold onFlow
  split
  · exact hg _ ‹_›
  · exact .same

theorem mem_pending {f : ℕ} {y : ℕ × Route} (h : r.pending.find? (fun x => x.1 = f) = some y) : ∃ y ∈ r.pending, y.1 = f :=
  ⟨y, List.mem_of_find?_eq_some h, by simpa using List.find?_some h⟩

theorem requestMigration_effect (requests : List ℕ) (f : ℕ) :
    Effect C r o ({ r with requests := requests }.requestMigration f) := by
  unfold requestMigration onFlow
  split
  · rename_i F hf
    dsimp only
    split_ifs with hm
    · exact .rest
    · exact .asks hf (by simpa using (not_or.1 hm).2) (.inl rfl)
  · exact .rest

theorem callback_effect (f : ℕ) : Effect C r (.callback f) (r.callback C f) := by
  refine onFlow_effect fun F hf => ?_
  split_ifs
  · unfold requestMigration onFlow
    rw [show (r.setFlow f { F with stream := Continuity.step C F.stream .callback }).flows f =
      some { F with stream := Continuity.step C F.stream .callback } from Function.update_self ..]
    simp only
    split_ifs with hm
    · exact .ignored rfl hf hm
    · simp only [setFlow, Function.update_idem]
      exact .asks hf (by simpa using (not_or.1 hm).2) (.inr ⟨rfl, rfl⟩)
  · exact .same

theorem workerDetach_effect (op : Op) : Effect C r o (r.workerDetach C op) := by
  unfold workerDetach
  split
  · rename_i f hw
    refine onFlow_effect fun F hf => ?_
    split_ifs with ho
    · dsimp only
      split
      · exact .detach hw hf ho (.inr (.inl rfl))
      · exact .detach hw hf ho (.inr (.inr ⟨_, ‹_›, rfl⟩))
      · have := Effect.detach (C := C) (o := o) hw hf ho (.inl rfl)
        rwa [← hw] at this
    · exact .same
  · exact .same

theorem workerReplace_effect (op : Op) : Effect C r o (r.workerReplace C op) := by
  unfold workerReplace
  split
  · rename_i f m p hw
    refine onFlow_effect fun F hf => ?_
    split_ifs with ho
    · dsimp only
      split
      · exact .replace hw hf ho (.inr (.inr ⟨‹_›, rfl⟩))
      · exact .replace hw hf ho (.inr (.inl rfl))
      · have := Effect.replace (C := C) (o := o) hw hf ho (.inl rfl)
        rwa [← hw] at this
    · exact .same
  · exact .same

/-- **Every step has one of the effects.** -/
theorem step_effect (C : Config) (r : Router) (o : ROp) : Effect C r o (step C r o) := by
  cases o with dsimp only [step]
  | addRoute | switchRoute | removeRoute =>
    dsimp only [addRoute, switchRoute, removeRoute]
    split_ifs
    · exact .same
    · exact .rest
  | request =>
    unfold request
    split
    · exact .same
    · exact requestMigration_effect _ _
  | openReserve =>
    unfold openReserve
    split_ifs
    · exact .same
    split
    · exact .same
    · exact .reserve
  | openPhysical f p =>
    unfold openPhysical
    split
    · cases p with
      | none => exact .unreserve
      | some p => exact .made ‹_› (mem_pending ‹_›)
    · exact .same
  | openRefused =>
    unfold openRefused
    split
    · exact .abandon (mem_pending ‹_›)
    · exact .same
  | openRegister =>
    unfold openRegister
    split
    · split_ifs
      · exact .abandon (mem_pending ‹_›)
      · exact .register ‹_› (mem_pending ‹_›)
    · exact .same
  | stream =>
    refine onFlow_effect fun F hf => ?_
    split_ifs with ho
    · exact .stream hf ho
    · exact .same
  | callback f => exact callback_effect f
  | abort f =>
    unfold abort
    split_ifs
    · exact requestMigration_effect r.requests f
    refine onFlow_effect fun F hf => ?_
    split_ifs
    · exact .finish
    · exact .same
  | send =>
    unfold send
    split
    · exact .same
    dsimp only
    split_ifs
    · exact .queue ‹_›
    · exact .full ‹_›
  | finish => exact .finish
  | finishClose =>
    refine onFlow_effect fun F hf => ?_
    split_ifs with hc
    · exact .close hf hc.1
    · exact .same
  | finishRemove =>
    refine onFlow_effect fun F hf => ?_
    split_ifs
    · exact .remove
    · exact .same
  | cancel | close => exact .rest
  | take =>
    unfold take
    split
    · exact .take ‹_› ‹_›
    · exact .same
  | stop =>
    unfold stop
    split_ifs with h
    · exact .stop h.1
    · exact .same
  | workerDetach op => exact workerDetach_effect op
  | workerHead =>
    unfold workerHead
    split
    · refine onFlow_effect fun F hf => ?_
      split_ifs with hfin
      · exact .gone ‹_› hf hfin
      · exact .plans ‹_› hf
    · exact .same
  | workerSelect =>
    unfold workerSelect
    split
    · rename_i hw
      refine onFlow_effect fun F _ => ?_
      dsimp only
      split
      · exact .onward (hw ▸ .noRoute)
      split_ifs with hv
      · exact .sends hw ⟨(of_decide_eq_true hv).1, (of_decide_eq_true hv).2.1⟩
      · exact .onward (hw ▸ .invalid)
    · exact .same
  | workerWait =>
    unfold workerWait
    split
    · rename_i hw
      split_ifs
      · exact .onward (hw ▸ .again)
      · exact .onward (hw ▸ .ended)
    · exact .same
  | workerOpen =>
    unfold workerOpen
    split
    · rename_i hw
      split
      · exact .onward (hw ▸ .unopened)
      · exact .onward (hw ▸ .refused)
      split_ifs
      · exact .onward (hw ▸ .opened)
      · exact .onward (hw ▸ .sameControl)
    · exact .same
  | workerBind =>
    unfold workerBind
    split
    · rename_i hw
      split_ifs
      · exact .onward (hw ▸ .bound)
      · exact .onward (hw ▸ .unbound)
    · exact .same
  | workerInstall =>
    unfold workerInstall
    split
    · exact onFlow_effect fun F hf => .install ‹_› hf
    · exact .same
  | workerReplace op => exact workerReplace_effect op
  | workerRestore =>
    unfold workerRestore
    split
    · exact onFlow_effect fun F hf => .restore ‹_› hf
    · exact .same
  | workerClear =>
    unfold workerClear
    split
    · exact onFlow_effect fun F hf => .clear ‹_› hf
    · exact .same
  | workerUnregister =>
    unfold workerUnregister
    split
    · rename_i hw
      exact .onward (hw ▸ .unregistered)
    · exact .same
  | workerGiveUp =>
    unfold workerGiveUp
    split
    · exact .giveUp ‹_›
    · exact .same

end Router

end NeProto.Tunstack
