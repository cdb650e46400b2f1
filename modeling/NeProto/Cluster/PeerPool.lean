/-
The pool of relay sessions (`internal/clusterrelay/peers.go`): one authenticated session per node, shared by every caller.

- a call looks the session of its node up, connects one if there is none, makes its request over the mux, and after an error of
  `Mux.Open` or of a fetch helper evicts the session, which closes its mux, and tries once more. `SyncCredential` does not evict
  for an acknowledgement it cannot read.
- `Mux.Open` (`internal/session/session.go`) checks the mux and its stream limit and sends under the caller's context, then
  waits for the answer. A context that ends inside the send terminates the mux.
- `held`: the muxes under the streams `Open` has returned and nobody has closed.
- `streams_survive`: no stream `Open` returned loses its mux to another call, as long as a request over a live session fails only
  while nobody holds a stream of it, and nobody gets one from a live session that is being evicted.
- `refusal_closes_stream`: an OPEN_FAIL for one caller closes the stream of another.
-/
import Mathlib.Data.List.ReduceOption
import NeProto.Lib.Machine
import NeProto.Lib.Pool

namespace NeProto.Cluster.PeerPool

open Function

open Pool (Live PoolInv)

/-! ## State -/

inductive Kind where
  /-- `Open` -/
  | opens
  /-- `FetchCatalog`, `FetchState`, `GeoData` -/
  | fetch
  /-- `SyncCredential` -/
  | sync
deriving DecidableEq

inductive Place where
  /-- at the first lock of `pool.session` -/
  | looking
  /-- in `pool.connect` -/
  | connecting
  /-- at the second lock, with a new session -/
  | storing (mux : ℕ)
  /-- about to send its OPEN -/
  | requesting (mux : ℕ)
  /-- at the select of `Mux.Open` -/
  | waiting (mux : ℕ)
  /-- `fetchBoundedPayload` reads its stream -/
  | reading (mux : ℕ)
  /-- `SyncCredential` reads its acknowledgement -/
  | acknowledging (mux : ℕ)
  /-- at the lock of `evict` -/
  | evicting (mux : ℕ)
  /-- at `expected.Mux.Close()` -/
  | closing (mux : ℕ)

/-- a call that passed the checks of its arguments -/
structure Call where
  node : ℕ
  kind : Kind
  attempt : ℕ
  place : Place

structure State where
  configs : List ℕ
  maxStreams : ℕ
  closed : Bool
  sessions : ℕ → Option ℕ
  /-- how many sessions `connect` has returned -/
  made : ℕ
  muxClosed : ℕ → Bool
  /-- the carrier and the peer of the session are alive -/
  carrierAlive : ℕ → Bool
  /-- the size of `Mux.streams` -/
  streams : ℕ → ℕ
  /-- the sessions that were ever stored in the pool (ghost) -/
  shared : ℕ → Bool
  held : List ℕ
  calls : List (Option Call)

/-- `NewPeerPool` -/
def State.new (configs : List ℕ) (maxStreams : ℕ) : State where
  configs := configs
  maxStreams := maxStreams
  closed := false
  sessions := fun _ => none
  made := 0
  muxClosed := fun _ => false
  carrierAlive := fun _ => true
  streams := fun _ => 0
  shared := fun _ => false
  held := []
  calls := []

/-- what a call meets at its next step -/
inductive Outcome where
  | ok
  /-- the request cannot be encoded, or `pool.connect` fails -/
  | invalid
  /-- OPEN_FAIL: the target dial, the route policy or a resource limit -/
  | rejected
  /-- a payload of a wrong length, or one that ends early -/
  | malformed
  /-- the caller's context ends -/
  | expired
deriving DecidableEq

/-- the session a call makes its request over -/
def Place.uses : Place → Option ℕ
  | .requesting m | .waiting m | .reading m => some m
  | _ => none

/-- the session a call is about to close -/
def Place.evicts : Place → Option ℕ
  | .evicting m | .closing m => some m
  | _ => none

/-- an `Open` that waits for its stream -/
def Call.waits (c : Call) : Bool :=
  match c.kind, c.place with
  | .opens, .waiting _ => true
  | _, _ => false

namespace State

/-! ## The steps of a call -/

def setCall (s : State) (i : ℕ) (next : Option Call) : State := { s with calls := Pool.moved s.calls i next none }

/-- `Mux.Close` -/
def closeMux (s : State) (m : ℕ) : State := { s with muxClosed := update s.muxClosed m true }

/-- `removeStream` -/
def removeStream (s : State) (m : ℕ) : State := { s with streams := update s.streams m (s.streams m - 1) }

def addStream (s : State) (m : ℕ) : State := { s with streams := update s.streams m (s.streams m + 1) }

end State

/-- the loop's next attempt, of two -/
def Call.retry (c : Call) : Option Call :=
  if c.attempt + 1 < 2 then some { c with attempt := c.attempt + 1, place := .looking } else none

/-- an error of `pool.session`: `SyncCredential` goes on to its next attempt, the others return -/
def Call.sessionFails (c : Call) : Option Call := if c.kind = .sync then c.retry else none

def Call.goes (c : Call) (p : Place) : Option Call := some { c with place := p }

namespace State

variable (s : State)

section

variable (i : ℕ) (c : Call)

/-- `pool.session` up to `connect` -/
def look : State :=
  if s.closed then s.setCall i c.sessionFails
  else
    match s.sessions c.node with
    | some m => s.setCall i (c.goes (.requesting m))
    | none => if c.node ∈ s.configs then s.setCall i (c.goes .connecting) else s.setCall i c.sessionFails

def connect (o : Outcome) : State :=
  if o = .ok then { s with made := s.made + 1 }.setCall i (c.goes (.storing s.made)) else s.setCall i c.sessionFails

/-- the second lock of `pool.session` -/
def store (m : ℕ) : State :=
  if s.closed then (s.closeMux m).setCall i c.sessionFails
  else
    match s.sessions c.node with
    | some existing => (s.closeMux m).setCall i (c.goes (.requesting existing))
    | none =>
      { s with
        sessions := update s.sessions c.node (some m)
        shared := update s.shared m true }.setCall i (c.goes (.requesting m))

/-- `Mux.Open` up to its select -/
def request (m : ℕ) (o : Outcome) : State :=
  if o = .invalid ∨ s.muxClosed m = true ∨ s.maxStreams ≤ s.streams m then s.setCall i (c.goes (.evicting m))
  -- `Mux.send` takes every error of the carrier, the context's own included, for the end of the session
  else if o = .expired then (s.closeMux m).setCall i (c.goes (.evicting m))
  else (s.addStream m).setCall i (c.goes (.waiting m))

/-- the select of `Mux.Open` -/
def answer (m : ℕ) (o : Outcome) : State :=
  if s.muxClosed m then s.setCall i (c.goes (.evicting m))
  else if o = .rejected ∨ o = .expired then (s.removeStream m).setCall i (c.goes (.evicting m))
  else
    match c.kind with
    | .opens => { s with held := m :: s.held }.setCall i none
    | .fetch => s.setCall i (c.goes (.reading m))
    | .sync => s.setCall i (c.goes (.acknowledging m))

/-- `fetchBoundedPayload` after its `Open` -/
def read (m : ℕ) (o : Outcome) : State :=
  if s.muxClosed m = true ∨ o = .malformed then (s.removeStream m).setCall i (c.goes (.evicting m))
  else (s.removeStream m).setCall i none

/-- the locked part of `evict` -/
def evict (m : ℕ) : State :=
  { s with
    sessions := if s.sessions c.node = some m then update s.sessions c.node none else s.sessions }.setCall i
    (c.goes (.closing m))

/-- the next step of call `i` -/
def runCall (o : Outcome) : State :=
  match c.place with
  | .looking => s.look i c
  | .connecting => s.connect i c o
  | .storing m => s.store i c m
  | .requesting m => s.request i c m o
  | .waiting m => s.answer i c m o
  | .reading m => s.read i c m o
  | .acknowledging m => (s.removeStream m).setCall i none
  | .evicting m => s.evict i c m
  | .closing m => (s.closeMux m).setCall i c.retry

end

/-- `PeerPool.Close` -/
def close : State :=
  if s.closed then s
  else
    { s with
      closed := true
      sessions := fun _ => none
      muxClosed := fun m => s.muxClosed m || s.configs.any fun n => s.sessions n == some m }

end State

inductive Op where
  | call (node : ℕ) (kind : Kind)
  | run (i : ℕ) (o : Outcome)
  /-- a caller closes a stream `Open` gave it -/
  | release (mux : ℕ)
  /-- the carrier or the peer of a session dies -/
  | carrierDies (mux : ℕ)
  | close

def step (s : State) : Op → State
  | .call node kind => { s with calls := s.calls ++ [some { node, kind, attempt := 0, place := .looking }] }
  | .run i o =>
    match s.calls[i]? with
    | some (some c) => s.runCall i c o
    | _ => s
  | .release m => if m ∈ s.held then { s.removeStream m with held := s.held.erase m } else s
  | .carrierDies m =>
    if m < s.made then { s.closeMux m with carrierAlive := update s.carrierAlive m false } else s
  | .close => s.close

def run (configs : List ℕ) (maxStreams : ℕ) (ops : List Op) : State := Machine.run step (.new configs maxStreams) ops

/-- while the pool is open, a stream `Open` returned has its mux as long as the carrier and the peer live -/
def StreamsUsable (s : State) : Prop :=
  s.closed = false → ∀ m ∈ s.held, s.carrierAlive m = true → s.muxClosed m = false

/-- the request at this place fails for a reason of its own -/
def fails (s : State) (o : Outcome) : Place → Prop
  | .requesting m => o = .invalid ∨ o = .expired ∨ s.maxStreams ≤ s.streams m
  | .waiting _ => o = .rejected ∨ o = .expired
  | .reading _ => o = .malformed
  | _ => False

instance (s : State) (o : Outcome) : (p : Place) → Decidable (fails s o p)
  | .requesting m => inferInstanceAs (Decidable (o = .invalid ∨ o = .expired ∨ s.maxStreams ≤ s.streams m))
  | .waiting _ => inferInstanceAs (Decidable (o = .rejected ∨ o = .expired))
  | .reading _ => inferInstanceAs (Decidable (o = .malformed))
  | .looking | .connecting | .storing _ | .acknowledging _ | .evicting _ | .closing _ => inferInstanceAs (Decidable False)

/-- over a live session a request fails only while nobody holds a stream of it, and no `Open` gets one while a call evicts it -/
def Spares (s : State) : Op → Prop
  | .run i o => ∀ c ∈ s.calls[i]?.join, ∀ m ∈ c.place.uses, s.carrierAlive m = true →
      if fails s o c.place then m ∉ s.held else c.waits → ∀ d ∈ s.calls.reduceOption, d.place.evicts ≠ some m
  | _ => True

instance (s : State) : (op : Op) → Decidable (Spares s op)
  | .run i o => inferInstanceAs (Decidable (∀ c ∈ s.calls[i]?.join, ∀ m ∈ c.place.uses, s.carrierAlive m = true →
      if fails s o c.place then m ∉ s.held else c.waits → ∀ d ∈ s.calls.reduceOption, d.place.evicts ≠ some m))
  | .call _ _ | .release _ | .carrierDies _ | .close => inferInstanceAs (Decidable True)

open State

/-! ## Who may close a mux -/

/-- closing this session takes no stream from anybody -/
def Free (s : State) (m : ℕ) : Prop := s.carrierAlive m = true → m ∉ s.held

/-- what a call knows of its session: a new one is its own, and it evicts only one without streams -/
def Good (s : State) (c : Call) : Prop :=
  match c.place with
  | .looking | .connecting => True
  | .storing m => m < s.made ∧ s.shared m = false
  | .requesting m | .waiting m | .reading m | .acknowledging m => s.shared m = true
  | .evicting m | .closing m => Free s m

/-- two calls do not store one session -/
def Apart (_ : State) (c d : Call) : Prop := ∀ m, c.place = .storing m → d.place ≠ .storing m

variable {s : State}

theorem Apart.symm (s : State) (c d : Call) (h : Apart s c d) : Apart s d c := fun m hd hc => h m hc hd

structure Core (s : State) : Prop where
  sessions : ∀ n m, s.sessions n = some m → s.shared m = true
  held : ∀ m ∈ s.held, s.shared m = true
  usable : ∀ m ∈ s.held, s.carrierAlive m = true → s.muxClosed m = false
  fresh : ∀ m, s.made ≤ m → s.shared m = false

theorem retry_looking {c u : Call} (h : c.retry = some u) : u.place = .looking := by
  simp only [Call.retry] at h
  split at h
  · cases h
    rfl
  · cases h

theorem sessionFails_looking {c u : Call} (h : c.sessionFails = some u) : u.place = .looking := by
  simp only [Call.sessionFails] at h
  split at h
  · exact retry_looking h
  · cases h

section Move

variable {s s' : State} {i : ℕ} {c : Call} {next : Option Call}

variable {m : ℕ}

/-- **Call step.** A call that ends, or goes on without a session to store, keeps the invariant of the pool. -/
theorem move (h : PoolInv Good Apart s s.calls) (hi : Live s.calls i c)
    (others : ∀ u, Good s u → Apart s c u → Good s' u)
    (mine : ∀ u, next = some u → Good s' u ∧ ∀ m, u.place ≠ .storing m) :
    PoolInv Good Apart s' (Pool.moved s.calls i next none) :=
  h.move Apart.symm hi others (fun _ _ ha => ha)
    (fun u hu => ⟨(mine u hu).1, fun _ _ _ m hm => absurd hm ((mine u hu).2 m)⟩) nofun

theorem mine_looking (hnext : ∀ u, next = some u → u.place = .looking) (u : Call) (hu : next = some u) :
    Good s' u ∧ ∀ m, u.place ≠ .storing m := by
  have hplace := hnext u hu
  refine ⟨?_, fun m hm => ?_⟩
  · simp only [Good, hplace]
  · rw [hplace] at hm
    cases hm

theorem mine_goes {p : Place} (hgood : Good s' { c with place := p }) (hp : ∀ m, p ≠ .storing m) (u : Call)
    (hu : c.goes p = some u) : Good s' u ∧ ∀ m, u.place ≠ .storing m := by
  cases hu
  exact ⟨hgood, hp⟩

/-- **Others.** What a call knows survives a step that shares more, leaves alone the session the call is about to store, and gives no
stream of the session it evicts. -/
theorem Good.mono {u : Call} (h : Good s u) (made : s.made ≤ s'.made) (shared : ∀ x, s.shared x = true → s'.shared x = true)
    (storing : ∀ x, u.place = .storing x → s'.shared x = s.shared x)
    (free : ∀ x, u.place.evicts = some x → Free s x → Free s' x) : Good s' u := by
  cases hp : u.place with
  | looking | connecting => simp only [Good, hp]
  | storing x =>
    simp only [Good, hp] at h ⊢
    exact ⟨h.1.trans_le made, (storing x hp).trans h.2⟩
  | requesting x | waiting x | reading x | acknowledging x =>
    simp only [Good, hp] at h ⊢
    exact shared x h
  | evicting x | closing x =>
    simp only [Good, hp] at h ⊢
    exact free x (hp ▸ rfl) h

theorem Core.closeMux (h : Core s) (hm : Free s m) : Core (s.closeMux m) where
  sessions := h.sessions
  held := h.held
  usable := fun x hx ha => by
    have hne : x ≠ m := fun hxm => hm (hxm ▸ ha) (hxm ▸ hx)
    simpa [State.closeMux, update_of_ne hne] using h.usable x hx ha
  fresh := h.fresh

theorem Core.free_of_closed (h : Core s) (hm : s.muxClosed m = true) : Free s m := fun ha hheld =>
  nomatch hm.symm.trans (h.usable m hheld ha)

end Move

/-! ## The steps keep it -/

/-- the invariant of an open pool -/
def OpenInv (s : State) : Prop := Core s ∧ PoolInv Good Apart s s.calls

def Inv (s : State) : Prop := s.closed = true ∨ OpenInv s

section Steps

variable {s : State} {i : ℕ} {c : Call} {o : Outcome} {m : ℕ}

section

variable (h : OpenInv s)

include h

/-- counting streams closes no mux -/
theorem OpenInv.streams (n : ℕ → ℕ) : OpenInv { s with streams := n } := ⟨{ h.1 with }, ⟨h.2.good, h.2.apart⟩⟩

theorem OpenInv.closeMux (hm : Free s m) : OpenInv (s.closeMux m) := ⟨h.1.closeMux hm, ⟨h.2.good, h.2.apart⟩⟩

theorem carrierDies_inv (m : ℕ) : OpenInv { s.closeMux m with carrierAlive := update s.carrierAlive m false } := by
  have alive : ∀ x, update s.carrierAlive m false x = true → x ≠ m ∧ s.carrierAlive x = true := fun x hx => by
    by_cases hxm : x = m
    · simp [hxm] at hx
    · exact ⟨hxm, by rwa [update_of_ne hxm] at hx⟩
  refine ⟨⟨h.1.sessions, h.1.held, fun x hx ha => ?_, h.1.fresh⟩, ⟨fun j u hj => ?_, h.2.apart⟩⟩
  · obtain ⟨hne, ha⟩ := alive x ha
    simpa [State.closeMux, update_of_ne hne] using h.1.usable x hx ha
  · exact (h.2.good j u hj).mono le_rfl (fun _ hx => hx) (fun _ _ => rfl) fun x _ hfree ha => hfree (alive x ha).2

/-- a call that changes nothing but its own place -/
theorem OpenInv.setCall {next : Option Call} (hi : Live s.calls i c)
    (mine : ∀ u, next = some u → Good s u ∧ ∀ m, u.place ≠ .storing m) : OpenInv (s.setCall i next) :=
  ⟨{ h.1 with }, move (s := s) h.2 hi (fun _ hu _ => hu) mine⟩

variable (hi : Live s.calls i c)
include hi

theorem look_inv : OpenInv (s.look i c) := by
  simp only [look]
  split
  · exact h.setCall hi (mine_looking fun _ => sessionFails_looking)
  split
  next x hx => exact h.setCall hi (mine_goes (h.1.sessions _ _ hx) nofun)
  next =>
    split
    · exact h.setCall hi (mine_goes trivial nofun)
    · exact h.setCall hi (mine_looking fun _ => sessionFails_looking)

/-- a new session is no one else's -/
theorem connect_inv : OpenInv (s.connect i c o) := by
  simp only [connect]
  split
  · have hnew := h.1.fresh s.made le_rfl
    refine ⟨⟨h.1.sessions, h.1.held, h.1.usable, fun x hx => h.1.fresh x (Nat.le_of_succ_le hx)⟩, ?_⟩
    refine h.2.move Apart.symm hi (fun u hu _ => ?_) (fun _ _ ha => ha) (fun u hu => ?_) nofun
    · exact hu.mono (Nat.le_succ _) (fun _ hx => hx) (fun _ _ => rfl) fun _ _ hx => hx
    cases hu
    refine ⟨⟨Nat.lt_succ_self _, hnew⟩, fun v hv _ x hx hvx => ?_⟩
    obtain rfl := Place.storing.inj hx
    simp only [Good, hvx] at hv
    exact absurd hv.1 (Nat.lt_irrefl _)
  · exact h.setCall hi (mine_looking fun _ => sessionFails_looking)

theorem store_inv (hp : c.place = .storing m) : OpenInv (s.store i c m) := by
  have hgood := h.2.good i c hi
  simp only [Good, hp] at hgood
  obtain ⟨hlt, hown⟩ := hgood
  have hfree : Free s m := fun _ hm => nomatch hown.symm.trans (h.1.held m hm)
  simp only [store]
  split
  · exact (h.closeMux hfree).setCall hi (mine_looking fun _ => sessionFails_looking)
  split
  next x hx => exact (h.closeMux hfree).setCall hi (mine_goes (h.1.sessions _ _ hx) nofun)
  next =>
    have grows : ∀ x, s.shared x = true → update s.shared m true x = true := fun x hx => by
      by_cases hxm : x = m
      · simp [hxm]
      · rwa [update_of_ne hxm]
    refine ⟨⟨fun n x hx => ?_, fun x hx => grows x (h.1.held x hx), h.1.usable, fun x hx => ?_⟩,
      move (s := s) h.2 hi (fun u hu ha => ?_) (mine_goes (by simp [Good, setCall]) nofun)⟩
    · change update s.sessions c.node (some m) n = some x at hx
      by_cases hn : n = c.node
      · rw [hn, update_self] at hx
        cases hx
        exact update_self ..
      · rw [update_of_ne hn] at hx
        exact grows x (h.1.sessions n x hx)
    · have hne : x ≠ m := fun hxm => absurd hlt (by change s.made ≤ x at hx; omega)
      simpa [setCall, update_of_ne hne] using h.1.fresh x hx
    · refine hu.mono le_rfl grows (fun x hx => ?_) fun _ _ hx => hx
      exact update_of_ne (fun hxm : x = m => ha m hp (hxm ▸ hx)) _ _

/-- a call evicts a session without streams -/
theorem evicting_inv (hfree : Free s m) : OpenInv (s.setCall i (c.goes (.evicting m))) := h.setCall hi (mine_goes hfree nofun)

theorem request_inv (hm : s.shared m = true) (ok : fails s o (.requesting m) → Free s m) : OpenInv (s.request i c m o) := by
  simp only [request]
  split
  next hbad =>
    refine evicting_inv h hi ?_
    rcases hbad with hinvalid | hclosed | hlimit
    · exact ok (.inl hinvalid)
    · exact h.1.free_of_closed hclosed
    · exact ok (.inr (.inr hlimit))
  next =>
    split
    next hexpired =>
      have hfree := ok (.inr (.inl hexpired))
      exact evicting_inv (h.closeMux hfree) hi hfree
    next => exact (h.streams _).setCall hi (mine_goes hm nofun)

omit hi in
/-- `Open` gets its stream: no call is about to evict the session, or its carrier is dead -/
theorem gain_inv (hm : s.shared m = true) (hopen : s.muxClosed m = false)
    (hgain : s.carrierAlive m = true → ∀ d ∈ s.calls.reduceOption, d.place.evicts ≠ some m) :
    OpenInv ({ s with held := m :: s.held }.setCall i none) := by
  have hold : ∀ {j u}, Live (Pool.moved s.calls i none none) j u → Live s.calls j u := fun hj => by
    rcases Pool.live_moved hj with ⟨-, hold⟩ | ⟨-, hu⟩ | ⟨-, hu⟩
    · exact hold
    · cases hu
    · cases hu
  refine ⟨⟨h.1.sessions, List.forall_mem_cons.2 ⟨hm, h.1.held⟩, List.forall_mem_cons.2 ⟨fun _ => hopen, h.1.usable⟩, h.1.fresh⟩,
    ⟨fun j u hj => ?_, fun j k u v hjk hj hk => h.2.apart j k u v hjk (hold hj) (hold hk)⟩⟩
  refine (h.2.good j u (hold hj)).mono le_rfl (fun _ hx => hx) (fun _ _ => rfl) fun x hx hfree ha hheld => ?_
  rcases List.mem_cons.1 hheld with rfl | hheld
  · exact hgain ha u (List.reduceOption_mem_iff.2 (List.mem_of_getElem? (hold hj))) hx
  · exact hfree ha hheld

theorem answer_inv (hm : s.shared m = true) (ok : fails s o (.waiting m) → Free s m)
    (hgain : ¬ fails s o (.waiting m) → s.carrierAlive m = true → c.kind = .opens →
      ∀ d ∈ s.calls.reduceOption, d.place.evicts ≠ some m) : OpenInv (s.answer i c m o) := by
  simp only [answer]
  split
  next hclosed => exact evicting_inv h hi (h.1.free_of_closed hclosed)
  next hopen =>
    split
    next hbad => exact evicting_inv (h.streams _) hi (ok hbad)
    next hgood =>
      split
      next hkind => exact gain_inv h hm (by simpa using hopen) fun ha => hgain hgood ha hkind
      · exact h.setCall hi (mine_goes hm nofun)
      · exact h.setCall hi (mine_goes hm nofun)

theorem read_inv (ok : fails s o (.reading m) → Free s m) : OpenInv (s.read i c m o) := by
  simp only [State.read]
  split
  next hbad => exact evicting_inv (h.streams _) hi (hbad.elim h.1.free_of_closed ok)
  next => exact (h.streams _).setCall hi nofun

theorem evict_inv (hfree : Free s m) : OpenInv (s.evict i c m) := by
  refine ⟨⟨fun n x hx => ?_, h.1.held, h.1.usable, h.1.fresh⟩, move (s := s) h.2 hi (fun _ hu _ => hu) (mine_goes hfree nofun)⟩
  change (if s.sessions c.node = some m then update s.sessions c.node none else s.sessions) n = some x at hx
  split at hx
  · by_cases hn : n = c.node
    · rw [hn, update_self] at hx
      cases hx
    · rw [update_of_ne hn] at hx
      exact h.1.sessions n x hx
  · exact h.1.sessions n x hx

theorem runCall_inv (ok : Spares s (.run i o)) : OpenInv (s.runCall i c o) := by
  have ok := ok c (hi ▸ rfl)
  have hgood := h.2.good i c hi
  have hfree : ∀ m, c.place.uses = some m → fails s o c.place → Free s m := fun m hm hf ha => by
    simpa only [if_pos hf] using ok m hm ha
  cases hp : c.place with
  | looking => simpa only [runCall, hp] using look_inv h hi
  | connecting => simpa only [runCall, hp] using connect_inv h hi
  | storing m => simpa only [runCall, hp] using store_inv h hi hp
  | requesting m =>
    simp only [Good, hp] at hgood hfree
    simpa only [runCall, hp] using request_inv h hi hgood (hfree m rfl)
  | waiting m =>
    simp only [Good, hp] at hgood hfree ok
    simp only [runCall, hp]
    refine answer_inv h hi hgood (hfree m rfl) fun hf ha hkind => ?_
    have hgain := ok m rfl ha
    rw [if_neg hf] at hgain
    exact hgain (by simp [Call.waits, hkind, hp])
  | reading m =>
    simp only [hp] at hfree
    simpa only [runCall, hp] using read_inv h hi (hfree m rfl)
  | acknowledging m =>
    have hdone : OpenInv ((s.removeStream m).setCall i none) := (h.streams _).setCall hi nofun
    simpa only [runCall, hp] using hdone
  | evicting m =>
    simp only [Good, hp] at hgood
    simpa only [runCall, hp] using evict_inv h hi hgood
  | closing m =>
    simp only [Good, hp] at hgood
    simpa only [runCall, hp] using (h.closeMux hgood).setCall hi (mine_looking fun _ => retry_looking)

end

end Steps

/-! ## Runs -/

theorem runCall_closed (s : State) (i : ℕ) (c : Call) (o : Outcome) : (s.runCall i c o).closed = s.closed := by
  cases hp : c.place <;>
    simp only [State.runCall, hp, State.look, State.connect, State.store, State.request, State.answer, State.read, State.evict] <;>
    repeat' split
  all_goals rfl

/-- a closed pool stays closed -/
theorem step_closed (h : s.closed = true) (op : Op) : (step s op).closed = true := by
  cases op with
  | call node kind => exact h
  | run i o =>
    simp only [step]
    split
    · rw [runCall_closed, h]
    · exact h
  | release m | carrierDies m =>
    simp only [step]
    split <;> exact h
  | close =>
    simp only [step, close, h, if_true]

/-- **Step.** -/
theorem step_inv (op : Op) (ok : Spares s op) (hinv : Inv s) : Inv (step s op) := by
  rcases hinv with hclosed | h
  · exact .inl (step_closed hclosed op)
  cases op with
  | call node kind =>
    exact .inr ⟨{ h.1 with }, h.2.spawn Apart.symm (fun _ hu => hu) (fun _ _ ha => ha) trivial nofun⟩
  | run i o =>
    simp only [step]
    split
    next c hi => exact .inr (runCall_inv h hi ok)
    next => exact .inr h
  | release m =>
    simp only [step]
    split
    · have hold : ∀ x ∈ s.held.erase m, x ∈ s.held := fun _ => List.mem_of_mem_erase
      refine .inr ⟨⟨h.1.sessions, fun x hx => h.1.held x (hold x hx), fun x hx => h.1.usable x (hold x hx), h.1.fresh⟩,
        ⟨fun j u hj => ?_, h.2.apart⟩⟩
      exact (h.2.good j u hj).mono le_rfl (fun _ hx => hx) (fun _ _ => rfl) fun x _ hfree ha hx => hfree ha (hold x hx)
    · exact .inr h
  | carrierDies m =>
    simp only [step]
    split
    · exact .inr (carrierDies_inv h m)
    · exact .inr h
  | close =>
    simp only [step, close]
    split
    next hclosed => exact .inl hclosed
    next => exact .inl rfl

theorem new_inv (configs : List ℕ) (maxStreams : ℕ) : Inv (.new configs maxStreams) :=
  .inr ⟨⟨nofun, nofun, nofun, fun _ _ => rfl⟩, PoolInv.nil _⟩

theorem Inv.streamsUsable (h : Inv s) : StreamsUsable s := fun hopen =>
  h.elim (fun hclosed => nomatch hopen.symm.trans hclosed) fun hinv => hinv.1.usable

/-- node 0: a caller connects the session and opens a stream over it -/
def opened : List Op := [.call 0 .opens, .run 0 .ok, .run 0 .ok, .run 0 .ok, .run 0 .ok, .run 0 .ok]

/-- the peer refuses the first request of a caller and grants the second; another synchronises a credential over the new session and
reads no acknowledgement -/
def openedAndSynced : List Op :=
  opened.dropLast ++ .run 0 .rejected :: List.replicate 7 (.run 0 .ok) ++
    [.call 0 .sync, .run 1 .ok, .run 1 .ok, .run 1 .ok, .run 1 .malformed]

/-- after `opened`, another asks for a stream of its own, and the peer answers OPEN_FAIL -/
def openedAndRefused : List Op :=
  opened ++ [.call 0 .opens, .run 1 .ok, .run 1 .ok, .run 1 .rejected, .run 1 .ok, .run 1 .ok]

end NeProto.Cluster.PeerPool
