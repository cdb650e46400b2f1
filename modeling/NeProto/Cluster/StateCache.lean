/-
The master's state on an edge (`internal/clusterrelay/state_cache.go`).

- `load` is `StateCache.Load`. It holds the mutex, so calls come one after another; `elapsed` is the time since the last one.
- `never_outdated`: a state that `Load` returns is the newest accepted one, at most `maximumStale` old and of the cluster of every
  other, it has this node and the master enabled, and no earlier call returned a later revision.
-/
import NeProto.Lib.Machine
import NeProto.Cluster.Routes

namespace NeProto.Cluster

open List

/-! ## Model -/

structure Edge (Addr : Type) where
  platform : Platform Addr
  /-- the JSON value of a payload that holds nothing else -/
  decode : Str → Option State
  nodeID : Str
  masterNodeID : Str

/-- what `Load` changes; times are in nanoseconds -/
structure StateCache where
  state : State
  refreshedAt : ℕ
  clusterID : Str
  /-- ghost: the accepted states with the clock readings of their calls, the newest first -/
  accepted : List (ℕ × State)

def ttl : ℕ := 30 * 10 ^ 9

def maximumStale : ℕ := 300 * 10 ^ 9

def maxClusterStatePayload : ℕ := 4 * 2 ^ 20

inductive LoadError where
  | peerUnavailable
  | invalidConfig
deriving DecidableEq

/-- a flag of the loop in `accepts`: the last node with this ID decides -/
def nodeFound (id : Str) (ok : Node → Bool) (nodes : List Node) : Bool :=
  nodes.foldl (fun found node => if node.id = id then ok node else found) false

structure Load where
  elapsed : ℕ
  /-- what `fetch` returns; `none` is an error -/
  fetched : Option Str

structure Calls where
  cache : StateCache
  now : ℕ
  returned : List State

/-- after `NewStateCache` -/
def Calls.init (now : ℕ) : Calls := ⟨⟨⟨0, [], 0, [], [], [], 0⟩, 0, [], []⟩, now, []⟩

namespace Edge

variable {Addr : Type} (E : Edge Addr)

def decodeClusterState (payload : Str) : Option State :=
  if payload = [] ∨ maxClusterStatePayload < payload.length then none
  else (E.decode payload).filter fun state => validateState E.platform state = .ok ()

def accepts (cache : StateCache) (state : State) : Bool :=
  if cache.clusterID ≠ [] ∧ state.clusterID ≠ cache.clusterID then false
  else if cache.state.revision ≠ 0 ∧ state.revision < cache.state.revision then false
  else nodeFound E.masterNodeID (fun node => node.enabled && node.roles.contains .master) state.nodes &&
    nodeFound E.nodeID Node.enabled state.nodes

def load (cache : StateCache) (now : ℕ) (fetched : Option Str) : StateCache × Except LoadError State :=
  if cache.refreshedAt ≠ 0 ∧ now - cache.refreshedAt < ttl then (cache, .ok cache.state)
  else match fetched with
    | none =>
      if cache.refreshedAt ≠ 0 ∧ now - cache.refreshedAt ≤ maximumStale then (cache, .ok cache.state)
      else (cache, .error .peerUnavailable)
    | some payload =>
      match E.decodeClusterState payload with
      | none => (cache, .error .invalidConfig)
      | some state =>
        if E.accepts cache state then (⟨state, now, state.clusterID, (now, state) :: cache.accepted⟩, .ok state)
        else (cache, .error .invalidConfig)

def call (w : Calls) (c : Load) : StateCache × Except LoadError State := E.load w.cache (w.now + c.elapsed) c.fetched

def step (w : Calls) (c : Load) : Calls where
  cache := (E.call w c).1
  now := w.now + c.elapsed
  returned := (E.call w c).2.toOption.toList ++ w.returned

/-! ## One call -/

/-- what every accepted state satisfies -/
structure Suits (state : State) : Prop where
  valid : validateState E.platform state = .ok ()
  master : ∃ node ∈ state.nodes, node.id = E.masterNodeID ∧ node.enabled = true ∧ .master ∈ node.roles
  current : ∃ node ∈ state.nodes, node.id = E.nodeID ∧ node.enabled = true

inductive Loaded (cache : StateCache) (now : ℕ) : StateCache × Except LoadError State → Prop
  | failed (err : LoadError) : Loaded cache now (cache, .error err)
  | cached (hset : cache.refreshedAt ≠ 0) (hage : now ≤ cache.refreshedAt + maximumStale) :
      Loaded cache now (cache, .ok cache.state)
  | accepted (state : State) (hsuits : E.Suits state) (hcluster : cache.clusterID ≠ [] → state.clusterID = cache.clusterID)
      (hrevision : cache.state.revision ≤ state.revision) :
      Loaded cache now (⟨state, now, state.clusterID, (now, state) :: cache.accepted⟩, .ok state)

theorem nodeFound_mem {id : Str} {ok : Node → Bool} (nodes : List Node) (h : nodeFound id ok nodes = true) :
    ∃ node ∈ nodes, node.id = id ∧ ok node = true := by
  induction nodes using reverseRecOn with
  | nil => cases h
  | append_singleton nodes last ih =>
    rw [nodeFound, foldl_append, foldl_cons, foldl_nil] at h
    split_ifs at h with hid
    · exact ⟨last, by simp, hid, h⟩
    · obtain ⟨node, hnode, hfound⟩ := ih h
      exact ⟨node, mem_append_left _ hnode, hfound⟩

variable {E} {w : Calls}

/-- an accepted state has a cluster -/
theorem Suits.cluster {state : State} (h : E.Suits state) : state.clusterID ≠ [] := by
  intro hnil
  have hvalid := h.valid
  simp [validateState, validHeader, hnil, validIdentifier] at hvalid

theorem accepts_spec {cache : StateCache} {state : State} (hvalid : validateState E.platform state = .ok ())
    (h : E.accepts cache state = true) :
    E.Suits state ∧ (cache.clusterID ≠ [] → state.clusterID = cache.clusterID) ∧ cache.state.revision ≤ state.revision := by
  unfold accepts at h
  split_ifs at h with hcluster hrevision
  rw [Bool.and_eq_true] at h
  refine ⟨⟨hvalid, ?_, nodeFound_mem _ h.2⟩, ?_, by omega⟩
  · simpa using nodeFound_mem _ h.1
  · intro hset
    by_contra hne
    exact hcluster ⟨hset, hne⟩

theorem decodeClusterState_valid {payload : Str} {state : State} (h : E.decodeClusterState payload = some state) :
    validateState E.platform state = .ok () := by
  unfold decodeClusterState at h
  split_ifs at h
  simpa using (Option.filter_eq_some_iff.1 h).2

theorem load_loaded (cache : StateCache) (now : ℕ) (fetched : Option Str) : E.Loaded cache now (E.load cache now fetched) := by
  unfold load
  split
  case isTrue hfresh =>
    have hage : now - cache.refreshedAt < 30 * 10 ^ 9 := hfresh.2
    exact .cached hfresh.1 (by unfold maximumStale; omega)
  cases fetched with
  | none =>
    dsimp only
    split_ifs with hstale
    · exact .cached hstale.1 (Nat.sub_le_iff_le_add'.1 hstale.2)
    · exact .failed _
  | some payload =>
    dsimp only
    cases hdecode : E.decodeClusterState payload with
    | none => exact .failed _
    | some state =>
      dsimp only
      split_ifs with haccepts
      · obtain ⟨hsuits, hcluster, hrevision⟩ := accepts_spec (decodeClusterState_valid hdecode) haccepts
        exact .accepted state hsuits hcluster hrevision
      · exact .failed _

/-! ## Every sequence of calls -/

structure Inv (E : Edge Addr) (w : Calls) : Prop where
  newest : w.cache.refreshedAt ≠ 0 → ∃ older, w.cache.accepted = (w.cache.refreshedAt, w.cache.state) :: older
  accepted : ∀ x ∈ w.cache.accepted, E.Suits x.2 ∧ x.2.clusterID = w.cache.clusterID
  returned : ∀ state ∈ w.returned, state.revision ≤ w.cache.state.revision

/-- what a call returns is what it leaves in the cache, and its newest accepted state -/
theorem Inv.step (h : E.Inv w) (c : Load) : E.Inv (E.step w c) ∧ ∀ state, (E.call w c).2 = .ok state →
    state = (E.call w c).1.state ∧ ∃ t older, (E.call w c).1.accepted = (t, state) :: older ∧
      w.now + c.elapsed ≤ t + maximumStale := by
  have hloaded := E.load_loaded w.cache (w.now + c.elapsed) c.fetched
  unfold Edge.step call
  generalize E.load w.cache (w.now + c.elapsed) c.fetched = result at hloaded ⊢
  cases hloaded with
  | failed err => exact ⟨{ h with }, nofun⟩
  | cached hset hage =>
    obtain ⟨older, hnewest⟩ := h.newest hset
    refine ⟨⟨h.newest, h.accepted, forall_mem_cons.2 ⟨le_rfl, h.returned⟩⟩, ?_⟩
    rintro _ ⟨⟩
    exact ⟨rfl, _, older, hnewest, hage⟩
  | accepted state hsuits hcluster hrevision =>
    have hsame : ∀ x ∈ w.cache.accepted, E.Suits x.2 ∧ x.2.clusterID = state.clusterID := by
      intro x hx
      obtain ⟨hx', hid⟩ := h.accepted x hx
      exact ⟨hx', hid.trans (hcluster (hid ▸ hx'.cluster)).symm⟩
    refine ⟨⟨fun _ => ⟨_, rfl⟩, forall_mem_cons.2 ⟨⟨hsuits, rfl⟩, hsame⟩,
      forall_mem_cons.2 ⟨le_rfl, fun s hs => (h.returned s hs).trans hrevision⟩⟩, ?_⟩
    rintro _ ⟨⟩
    exact ⟨rfl, _, _, rfl, Nat.le_add_right _ _⟩

theorem run_inv (E : Edge Addr) (now : ℕ) (calls : List Load) : E.Inv (Machine.run E.step (.init now) calls) :=
  Machine.run_inv (fun _ c h => (h.step c).1) ⟨fun h => absurd rfl h, nofun, nofun⟩ calls

/-- **Never outdated.** Whatever the calls before, this holds of a state that `Load` returns. -/
theorem never_outdated (E : Edge Addr) (now : ℕ) (calls : List Load) (c : Load) (state : State)
    (hload : (E.call (Machine.run E.step (.init now) calls) c).2 = .ok state) :
    let w := Machine.run E.step (.init now) calls
    let w' := E.step w c
    (∃ t older, w'.cache.accepted = (t, state) :: older ∧ w'.now ≤ t + maximumStale) ∧ E.Suits state ∧
      (∀ x ∈ w'.cache.accepted, x.2.clusterID = state.clusterID) ∧ ∀ earlier ∈ w.returned, earlier.revision ≤ state.revision := by
  obtain ⟨hinv, hload'⟩ := (run_inv E now calls).step c
  obtain ⟨rfl, t, older, hnewest, hage⟩ := hload' state hload
  have hmem := hinv.accepted
  rw [show (E.step _ c).cache.accepted = _ from hnewest] at hmem
  obtain ⟨⟨hsuits, hid⟩, -⟩ := List.forall_mem_cons.1 hmem
  exact ⟨⟨t, older, hnewest, hage⟩, hsuits, fun x hx => (hinv.accepted x hx).2.trans hid.symm,
    fun s hs => hinv.returned s (List.mem_append_right _ hs)⟩

/-- an edge whose master always sends `twoNodes` -/
def ofTwo : Edge (List ℕ) := ⟨asciiPlatform, fun _ => some (twoNodes [] []), ascii "edge", ascii "hub"⟩

/-- a minute after the first call `fetch` fails and the cached state is returned -/
theorem never_outdated_cached :
    (ofTwo.call (Machine.run ofTwo.step (.init 1) [⟨0, some [0]⟩]) ⟨2 * ttl, none⟩).2 = .ok (twoNodes [] []) ∧
      ofTwo.Suits (twoNodes [] []) :=
  ⟨by decide +kernel, (never_outdated ofTwo 1 [⟨0, some [0]⟩] ⟨2 * ttl, none⟩ _ (by decide +kernel)).2.1⟩

end Edge

end NeProto.Cluster
