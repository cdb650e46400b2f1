/-
The pool of sessions that new flows are spread over (`internal/tunstack/session_router.go`).

- `Router`: the pool with its primary; each call runs under the lock, so an interleaving is a list of calls (`step`).
- `Pool`: the router with the identifiers it has returned, each with the session it was returned for.
- `handles_sound`: short of 2^64 calls of `Add` the pool is well formed, and identifiers never alias if no `Add` comes behind a
  `Switch` that follows an `Add`.
- `switch_reuses_identifier`: `Switch` starts the identifiers again.
A session stands for its `Mux`, which is not nil. The counters, continuity and UDP are left out.
-/
import NeProto.Lib.Machine
import NeProto.Proxy.UDPRecord

namespace NeProto.Tunstack.SessionRouter

open Machine List

inductive Err where
  | invalidStackConfig | carrierPoolFull

/-- `datagrams`: whether the datagram multiplexer, if there is one, is enabled -/
structure SessionRoute where
  id : ℕ
  session : ℕ
  maxUDPPayload : ℕ
  datagrams : Option Bool
  standby : Bool
deriving DecidableEq

/-- the check of `makeSessionRoute`, `switchRoute` and `addRoute` -/
def SessionRoute.refused (route : SessionRoute) : Bool :=
  (route.maxUDPPayload ≠ 0 && (route.maxUDPPayload < 1200 || Proxy.maxUDPDatagramPayload < route.maxUDPPayload)) ||
    (route.datagrams.isSome && (route.maxUDPPayload = 0 || route.datagrams ≠ some true))

structure Router where
  active : SessionRoute
  routes : List SessionRoute
  nextRouteID : ℕ
  tieCursor : ℕ

def newSessionRouter (route : SessionRoute) : Except Err Router :=
  if route.refused then .error .invalidStackConfig else .ok ⟨{ route with id := 1 }, [{ route with id := 1 }], 2, 0⟩

namespace Router

variable (r : Router)

def switchRoute (route : SessionRoute) : Router × Option Err :=
  if route.refused then (r, some .invalidStackConfig)
  else (⟨{ route with id := 1 }, [{ route with id := 1 }], 2, 0⟩, none)

/-- the identifier the next `Add` returns -/
def identifier : ℕ := if r.nextRouteID < 2 then 2 else r.nextRouteID

def addRoute (route : SessionRoute) : Router × Except Err ℕ :=
  if route.refused then (r, .error .invalidStackConfig)
  else
    let r := if r.routes = [] then
        { r with active := { r.active with id := 1 }, routes := [{ r.active with id := 1 }], nextRouteID := 2 }
      else r
    if 3 ≤ r.routes.length then (r, .error .carrierPoolFull)
    else
      ({ r with
        routes := r.routes ++ [{ route with id := r.identifier }], nextRouteID := (r.identifier + 1) % 2 ^ 64 },
        .ok r.identifier)

/-- the loop of `Promote` and `SetStandby`: the first route of that identifier changes -/
def mark (id : ℕ) (standby : Bool) : List SessionRoute → List SessionRoute
  | [] => []
  | route :: rest => if route.id = id then { route with standby := standby } :: rest else route :: mark id standby rest

def promote (id : ℕ) : Router × Bool :=
  match if id = 0 then none else r.routes.find? (·.id = id) with
  | none => (r, false)
  | some route => ({ r with routes := mark id false r.routes, active := { route with standby := false } }, true)

def setStandby (id : ℕ) (standby : Bool) : Router × Bool :=
  match if id = 0 then none else r.routes.find? (·.id = id) with
  | none => (r, false)
  | some route =>
    ({ r with
      routes := mark id standby r.routes
      active := if r.active.id = id then { route with standby := standby } else r.active }, true)

def removeRoute (id : ℕ) : Router × Bool :=
  if id = 0 ∨ r.routes.find? (fun route => route.id = id ∧ route.id ≠ r.active.id) = none then (r, false)
  else ({ r with routes := r.routes.eraseP fun route => route.id = id ∧ route.id ≠ r.active.id }, true)

/-- the routes a flow may go to -/
def candidates : List SessionRoute :=
  let routes := if r.routes = [] then [r.active] else r.routes
  let activeRoutes := routes.filter fun route => !route.standby
  if activeRoutes = [] then routes else activeRoutes

def load (streams : ℕ → ℕ) (route : SessionRoute) : ℕ := streams route.session % 2 ^ 64

/-- one round of the loop over the candidates, with the minimum and the ties so far -/
def compare (streams : ℕ → ℕ) (acc : ℕ × List SessionRoute) (route : SessionRoute) : ℕ × List SessionRoute :=
  if load streams route < acc.1 then (load streams route, [route])
  else if load streams route = acc.1 then (acc.1, acc.2 ++ [route])
  else acc

def selectLeastLoaded (streams : ℕ → ℕ) : Router × Option SessionRoute :=
  let ties := (r.candidates.foldl (compare streams) (2 ^ 64 - 1, [])).2
  ({ r with tieCursor := (r.tieCursor + 1) % 2 ^ 64 }, ties[r.tieCursor % ties.length]?)

end Router

/-- `issued`: what `Add` and `AddStandby` have returned, with the session each was returned for -/
structure Pool where
  router : Router
  issued : List (ℕ × ℕ)

inductive Op where
  | switch (route : SessionRoute)
  | add (standby : Bool) (route : SessionRoute)
  | promote (id : ℕ) | setStandby (id : ℕ) (standby : Bool) | remove (id : ℕ)
  | select (streams : ℕ → ℕ)

def step (s : Pool) : Op → Pool
  | .switch route => { s with router := (s.router.switchRoute route).1 }
  | .add standby route => match s.router.addRoute { route with standby := standby } with
    | (router, .ok id) => ⟨router, s.issued ++ [(id, route.session)]⟩
    | (router, .error _) => { s with router := router }
  | .promote id => { s with router := (s.router.promote id).1 }
  | .setStandby id standby => { s with router := (s.router.setStandby id standby).1 }
  | .remove id => { s with router := (s.router.removeRoute id).1 }
  | .select streams => { s with router := (s.router.selectLeastLoaded streams).1 }

/-- what a pool is -/
structure WellFormed (s : Pool) : Prop where
  size : 1 ≤ s.router.routes.length ∧ s.router.routes.length ≤ 3
  distinct : (s.router.routes.map SessionRoute.id).Nodup
  primary : s.router.active ∈ s.router.routes
  chosen : s.router.candidates = s.router.routes.filter (fun route => !route.standby) ∨
    (∀ route ∈ s.router.routes, route.standby = true) ∧ s.router.candidates = s.router.routes
  least : ∀ streams, ∃ route ∈ s.router.candidates, (s.router.selectLeastLoaded streams).2 = some route ∧
    ∀ other ∈ s.router.candidates, Router.load streams route ≤ Router.load streams other

/-- what the pool promises -/
structure Sound (s : Pool) : Prop extends WellFormed s where
  denotes : ∀ h ∈ s.issued, ∀ route ∈ s.router.routes, route.id = h.1 → route.session = h.2
  inert : ∀ h ∈ s.issued, (∀ route ∈ s.router.routes, route.id = h.1 → route.session ≠ h.2) →
    (s.router.removeRoute h.1).1 = s.router ∧ (s.router.promote h.1).1 = s.router ∧
      ∀ standby, (s.router.setStandby h.1 standby).1 = s.router

/-- what a call may do to the identifiers -/
inductive Kind where
  | add | switch | other
deriving DecidableEq

def Op.kind : Op → Kind
  | .add _ _ => .add
  | .switch _ => .switch
  | _ => .other

/-- an `Add` behind a `Switch` that follows an `Add` -/
def Restarts (ops : List Op) : Prop := [.add, .switch, .add] <+ ops.map Op.kind

open SessionRouter.Router

/-! ## Selection -/

/-- what the loop has found in the routes so far -/
structure Least (streams : ℕ → ℕ) (l : List SessionRoute) (acc : ℕ × List SessionRoute) : Prop where
  found : l ≠ [] → acc.2 ≠ []
  ties : ∀ route ∈ acc.2, route ∈ l ∧ Router.load streams route = acc.1
  least : ∀ route ∈ l, acc.1 ≤ Router.load streams route
  bound : l = [] → acc.1 = 2 ^ 64 - 1

theorem Least.compare {streams : ℕ → ℕ} {l : List SessionRoute} {acc : ℕ × List SessionRoute} (h : Least streams l acc)
    (route : SessionRoute) : Least streams (l ++ [route]) (Router.compare streams acc route) := by
  have hlt : load streams route < 2 ^ 64 := Nat.mod_lt _ (by norm_num)
  have hall : ∀ m, m ≤ acc.1 → m ≤ load streams route → ∀ x ∈ l ++ [route], m ≤ load streams x := by
    intro m h1 h2 x hx
    rcases mem_append.1 hx with hx | hx
    · exact h1.trans (h.least x hx)
    · rwa [mem_singleton.1 hx]
  have hold : ∀ x ∈ acc.2, x ∈ l ++ [route] ∧ load streams x = acc.1 := fun x hx =>
    ⟨mem_append_left _ (h.ties x hx).1, (h.ties x hx).2⟩
  unfold Router.compare
  split_ifs with h1 h2
  · exact ⟨by simp, by simp, hall _ h1.le le_rfl, by simp⟩
  · refine ⟨by simp, fun x hx => ?_, hall _ le_rfl h2.ge, by simp⟩
    rcases mem_append.1 hx with hx | hx
    · exact hold x hx
    · exact ⟨mem_append_right _ hx, by rw [mem_singleton.1 hx, h2]⟩
  · -- a route that is passed over has more load than one before it
    exact ⟨fun _ => h.found fun hl => by have := h.bound hl; omega, hold, hall _ le_rfl (not_lt.1 h1), by simp⟩

theorem select_least (r : Router) (streams : ℕ → ℕ) (hne : r.candidates ≠ []) : ∃ route ∈ r.candidates,
    (r.selectLeastLoaded streams).2 = some route ∧
      ∀ other ∈ r.candidates, Router.load streams route ≤ Router.load streams other := by
  have h : ∀ l, Least streams l (l.foldl (compare streams) (2 ^ 64 - 1, [])) := fun l => by
    induction l using reverseRecOn with
    | nil => exact ⟨by simp, by simp, by simp, fun _ => rfl⟩
    | append_singleton l route ih =>
      rw [foldl_append]
      exact ih.compare route
  have hlt := Nat.mod_lt r.tieCursor (length_pos_iff.2 ((h r.candidates).found hne))
  obtain ⟨hin, hload⟩ := (h r.candidates).ties _ (getElem_mem hlt)
  exact ⟨_, hin, getElem?_eq_getElem hlt, fun other ho => hload ▸ (h r.candidates).least other ho⟩

/-! ## The invariant -/

/-- the pool after these calls -/
structure Inv (calls : List Kind) (s : Pool) : Prop where
  few : s.router.routes.length ≤ 3
  distinct : (s.router.routes.map SessionRoute.id).Nodup
  primary : s.router.active ∈ s.router.routes
  next : 2 ≤ s.router.nextRouteID ∧ s.router.nextRouteID ≤ calls.count .add + 2
  below : ∀ route ∈ s.router.routes, route.id < s.router.nextRouteID
  known : ∀ route ∈ s.router.routes, route.id = 1 ∨ (route.id, route.session) ∈ s.issued
  above : ∀ h ∈ s.issued, 2 ≤ h.1
  /-- since the last `Switch` the counter has passed what it issued; before it there may be more -/
  passed : ¬[.add, .switch] <+ calls → ∀ h ∈ s.issued, h.1 < s.router.nextRouteID
  unused : .add ∉ calls → s.issued = []
  once : ¬[.add, .switch, .add] <+ calls → (s.issued.map Prod.fst).Nodup

variable {s : Pool} {calls : List Kind}

theorem Inv.wellFormed (h : Inv calls s) : WellFormed s := by
  have hne : s.router.routes ≠ [] := ne_nil_of_mem h.primary
  have hchosen : s.router.candidates ≠ [] ∧ (s.router.candidates = s.router.routes.filter (fun route => !route.standby) ∨
      (∀ route ∈ s.router.routes, route.standby = true) ∧ s.router.candidates = s.router.routes) := by
    simp only [candidates, if_neg hne]
    split_ifs with hx
    · exact ⟨hne, .inr ⟨by simpa [filter_eq_nil_iff] using hx, rfl⟩⟩
    · exact ⟨hx, .inl rfl⟩
  exact ⟨⟨length_pos_iff.2 hne, h.few⟩, h.distinct, h.primary, hchosen.2, fun streams => select_least _ streams hchosen.1⟩

theorem Inv.sound (h : Inv calls s) (hn : ¬[.add, .switch, .add] <+ calls) : Sound s := by
  have hdenotes : ∀ x ∈ s.issued, ∀ route ∈ s.router.routes, route.id = x.1 → route.session = x.2 := by
    intro x hx route hr hid
    have habove := h.above x hx
    rcases h.known route hr with hone | hmem
    · omega
    · exact congrArg Prod.snd (inj_on_of_nodup_map (h.once hn) hmem hx hid)
  refine ⟨h.wellFormed, hdenotes, fun x hx hgone => ?_⟩
  have hnone : ∀ route ∈ s.router.routes, route.id ≠ x.1 := fun route hr hid => hgone route hr hid (hdenotes x hx route hr hid)
  have hfind : s.router.routes.find? (·.id = x.1) = none := by simpa [find?_eq_none] using hnone
  refine ⟨?_, by simp only [promote, hfind, ite_self], fun standby => by simp only [setStandby, hfind, ite_self]⟩
  rw [removeRoute, if_pos]
  exact .inr (find?_eq_none.2 fun route hr hx => hnone route hr (of_decide_eq_true hx).1)

/-- a call that leaves the pool alone -/
theorem Inv.call (h : Inv calls s) (k : Kind) : Inv (calls ++ [k]) s := by
  have hsub : ∀ {l}, ¬l <+ calls ++ [k] → ¬l <+ calls := fun hn hl => hn (hl.trans (sublist_append_left ..))
  refine { h with next := ⟨h.next.1, ?_⟩, passed := fun hn => h.passed (hsub hn), unused := fun hn => ?_,
                  once := fun hn => h.once (hsub hn) }
  · rw [count_append]
    exact h.next.2.trans (by omega)
  · exact h.unused fun hx => hn (mem_append_left _ hx)

/-- the pool changes, and every route in it is one that was there -/
theorem Inv.change (h : Inv calls s) {r : Router} (hmem : ∀ x ∈ r.routes, ∃ y ∈ s.router.routes, x.id = y.id ∧ x.session = y.session)
    (hdistinct : (r.routes.map SessionRoute.id).Nodup) (hfew : r.routes.length ≤ 3) (hactive : r.active ∈ r.routes)
    (hnext : r.nextRouteID = s.router.nextRouteID) : Inv calls { s with router := r } := by
  refine ⟨hfew, hdistinct, hactive, hnext ▸ h.next, fun x hx => ?_, fun x hx => ?_, h.above, hnext ▸ h.passed, h.unused, h.once⟩
  all_goals obtain ⟨y, hy, hid, hsession⟩ := hmem x hx
  · rw [hnext, hid]
    exact h.below y hy
  · rw [hid, hsession]
    exact h.known y hy

theorem mark_spec (id : ℕ) (standby : Bool) (l : List SessionRoute) :
    (Router.mark id standby l).map (fun x => (x.id, x.session)) = l.map (fun x => (x.id, x.session)) ∧
      (∀ route, l.find? (·.id = id) = some route → { route with standby := standby } ∈ mark id standby l) ∧
      ∀ x ∈ l, x.id ≠ id → x ∈ mark id standby l := by
  induction l with
  | nil => simp [mark]
  | cons route rest ih =>
    obtain ⟨h1, h2, h3⟩ := ih
    unfold mark
    split_ifs with hid
    · refine ⟨rfl, fun y hy => ?_, fun x hx hne => ?_⟩
      · rw [find?_cons_of_pos (by simpa using hid)] at hy
        cases hy
        exact mem_cons_self
      · rcases mem_cons.1 hx with rfl | hx
        · exact absurd hid hne
        · exact mem_cons_of_mem _ hx
    · refine ⟨by rw [map_cons, map_cons, h1], fun y hy => ?_, fun x hx hne => ?_⟩
      · rw [find?_cons_of_neg (by simpa using hid)] at hy
        exact mem_cons_of_mem _ (h2 y hy)
      · exact mem_cons.2 ((mem_cons.1 hx).imp_right fun hx => h3 x hx hne)

/-- `Promote` and `SetStandby` -/
theorem Inv.mark (h : Inv calls s) (id : ℕ) (standby : Bool) {active : SessionRoute}
    (hactive : active ∈ Router.mark id standby s.router.routes) :
    Inv calls { s with router := { s.router with routes := mark id standby s.router.routes, active := active } } := by
  have hkeys := (mark_spec id standby s.router.routes).1
  have hids := congrArg (map Prod.fst) hkeys
  have hlength := congrArg length hkeys
  rw [map_map, map_map] at hids
  rw [length_map, length_map] at hlength
  refine h.change (fun x hx => ?_) (hids ▸ h.distinct) (hlength ▸ h.few) hactive rfl
  obtain ⟨y, hy, hxy⟩ := mem_map.1 (hkeys ▸ mem_map_of_mem hx)
  exact ⟨y, hy, (Prod.mk.inj hxy).1.symm, (Prod.mk.inj hxy).2.symm⟩

/-- `Switch` starts again with one route; nothing was issued if no `Add` came before it -/
theorem Inv.switch (h : Inv calls s) {route : SessionRoute} (hid : route.id = 1) :
    Inv (calls ++ [.switch]) { s with router := ⟨route, [route], 2, 0⟩ } := by
  have hroute : ∀ x ∈ [route], x.id = 1 := fun x hx => mem_singleton.1 hx ▸ hid
  refine { h.call .switch with
    few := by simp, distinct := nodup_singleton _, primary := mem_singleton_self _, next := ⟨le_rfl, Nat.le_add_left ..⟩
    below := fun x hx => by rw [hroute x hx]; exact Nat.one_lt_two
    known := fun x hx => .inl (hroute x hx), passed := fun hn => ?_ }
  have hadd : Kind.add ∉ calls := fun hx => hn ((singleton_sublist.2 hx).append (.refl [Kind.switch]))
  rw [h.unused hadd]
  exact nofun

theorem Inv.add (h : Inv calls s) (standby : Bool) (route : SessionRoute) (hcount : calls.count .add + 1 < 2 ^ 64 - 2) :
    Inv (calls ++ [.add]) (step s (.add standby route)) := by
  obtain ⟨htwo, hle⟩ := h.next
  have hidentifier : s.router.identifier = s.router.nextRouteID := if_neg (by omega)
  simp only [step, addRoute, if_neg (ne_nil_of_mem h.primary), hidentifier]
  split_ifs with hbad hfull
  · exact h.call .add
  · exact h.call .add
  have hnew : s.router.nextRouteID ∉ s.router.routes.map SessionRoute.id := by
    intro hx
    obtain ⟨x, hx, hid⟩ := mem_map.1 hx
    exact (h.below x hx).ne hid
  rw [Nat.mod_eq_of_lt (by omega)]
  have hlast := Nat.lt_succ_self s.router.nextRouteID
  refine ⟨?_, ?_, mem_append_left _ h.primary, ⟨htwo.trans hlast.le, ?_⟩, ?_, ?_, ?_, fun hn => ?_, fun hn => ?_, fun hn => ?_⟩
  · simp only [length_append, length_singleton]
    omega
  · rw [map_append]
    exact h.distinct.append (nodup_singleton _) (by simpa using hnew)
  · rw [count_append, count_singleton_self]
    exact Nat.succ_le_succ hle
  · exact forall_mem_append.2 ⟨fun x hx => (h.below x hx).trans hlast, forall_mem_singleton.2 hlast⟩
  · exact forall_mem_append.2 ⟨fun x hx => (h.known x hx).imp_right (mem_append_left _),
      forall_mem_singleton.2 (.inr (mem_append_right _ (mem_singleton_self _)))⟩
  · exact forall_mem_append.2 ⟨h.above, forall_mem_singleton.2 htwo⟩
  · have hpassed := h.passed fun hl => hn (hl.trans (sublist_append_left ..))
    exact forall_mem_append.2 ⟨fun x hx => (hpassed x hx).trans hlast, forall_mem_singleton.2 hlast⟩
  · exact absurd (mem_append_right _ (mem_singleton_self _)) hn
  · -- no `Switch` has followed an `Add`, so the counter is above all it has issued
    have hpassed := h.passed fun hl => hn (hl.append (.refl [Kind.add]))
    have hfresh : s.router.nextRouteID ∉ s.issued.map Prod.fst := by
      intro hx
      obtain ⟨x, hx, hid⟩ := mem_map.1 hx
      exact (hpassed x hx).ne hid
    rw [map_append]
    exact (h.once fun hl => hn (hl.trans (sublist_append_left ..))).append (nodup_singleton _) (by simpa using hfresh)

theorem Inv.step (h : Inv calls s) (o : Op) (hcount : (calls ++ [o.kind]).count .add < 2 ^ 64 - 2) :
    Inv (calls ++ [o.kind]) (step s o) := by
  cases o with
  | switch route =>
    simp only [SessionRouter.step, switchRoute]
    split_ifs
    · exact h.call _
    · exact h.switch rfl
  | add standby route => exact h.add standby route (by simpa [Op.kind] using hcount)
  | promote id =>
    apply Inv.call
    simp only [SessionRouter.step, promote]
    split
    · exact h
    rename_i route hr
    split_ifs at hr
    exact h.mark id false ((mark_spec id false _).2.1 route hr)
  | setStandby id standby =>
    apply Inv.call
    simp only [SessionRouter.step, setStandby]
    split
    · exact h
    rename_i route hr
    split_ifs at hr
    refine h.mark id standby ?_
    split_ifs with hid
    · exact (mark_spec id standby _).2.1 route hr
    · exact (mark_spec id standby _).2.2 _ h.primary hid
  | remove id =>
    apply Inv.call
    simp only [SessionRouter.step, removeRoute]
    split_ifs
    · exact h
    have hsub := eraseP_sublist (l := s.router.routes) (p := fun route => decide (route.id = id ∧ route.id ≠ s.router.active.id))
    exact h.change (fun x hx => ⟨x, hsub.subset hx, rfl, rfl⟩) (h.distinct.sublist (hsub.map _)) (hsub.length_le.trans h.few)
      ((mem_eraseP_of_neg (by simp)).2 h.primary) rfl
  | select streams =>
    apply Inv.call
    exact { h with }

theorem run_inv_calls (h : Inv [] s) (ops : List Op) (hcount : (ops.map Op.kind).count .add < 2 ^ 64 - 2) :
    Inv (ops.map Op.kind) (run step s ops) := by
  induction ops using reverseRecOn with
  | nil => exact h
  | append_singleton ops o ih =>
    rw [map_append] at hcount ⊢
    rw [run_append]
    refine (ih ?_).step o hcount
    rw [count_append] at hcount
    omega

/-- **Handles.** Short of 2^64 - 2 calls of `Add` the pool is well formed and flows go to a route of least load, whatever the calls.
If no `Add` comes behind a `Switch` that follows an `Add`, an identifier denotes the session it was returned for or nothing. -/
theorem handles_sound (route : SessionRoute) {r : Router} (hnew : newSessionRouter route = .ok r) (ops : List Op)
    (hcount : (ops.map Op.kind).count .add < 2 ^ 64 - 2) :
    WellFormed (run step ⟨r, []⟩ ops) ∧ (¬Restarts ops → Sound (run step ⟨r, []⟩ ops)) := by
  unfold newSessionRouter at hnew
  split_ifs at hnew
  cases hnew
  have hinit : Inv [] ⟨⟨{ route with id := 1 }, [{ route with id := 1 }], 2, 0⟩, []⟩ :=
    ⟨by simp, nodup_singleton _, mem_singleton_self _, ⟨le_rfl, le_rfl⟩, by simp, by simp, nofun, fun _ => nofun, fun _ => rfl,
      fun _ => nodup_nil⟩
  have hinv := run_inv_calls hinit ops hcount
  exact ⟨hinv.wellFormed, hinv.sound⟩

/-- a route for a session without UDP -/
def plain (session : ℕ) : SessionRoute := ⟨1, session, 0, none, false⟩

/-- a `Switch`, then a second session, promoted and removed again -/
theorem handles_sound_two : Sound (run step ⟨⟨plain 0, [plain 0], 2, 0⟩, []⟩
    [.switch (plain 4), .add false (plain 1), .promote 2, .promote 1, .remove 2, .switch (plain 5)]) :=
  (handles_sound (plain 0) rfl _ (by decide)).2 (by unfold Restarts; decide)

/-- **Reuse.** Session 1 gets identifier 2 and is dropped by `Switch`; session 3 gets identifier 2 as well. -/
theorem switch_reuses_identifier : ¬∀ (route : SessionRoute) (r : Router), newSessionRouter route = .ok r →
    ∀ ops, Sound (run step ⟨r, []⟩ ops) := by
  intro h
  have hs := h (plain 0) _ rfl [.add false (plain 1), .switch (plain 2), .add false (plain 3)]
  exact absurd (hs.denotes (2, 1) (by decide) { plain 3 with id := 2 } (by decide) rfl) (by decide)

end NeProto.Tunstack.SessionRouter
