/-
Two muxes on one carrier (`internal/session/session.go`): every stream of both sides, the stream limits, the bounded list of
retired IDs, and one order of cells in each direction.

- `Net`: a link for each ID, what each mux keeps besides its streams, and the order in which the cells arrive. A stream is opened by
  the client when its ID is odd and by the server when it is even.
- `step`: `Open` takes the next ID; any call on any stream; the read loop takes the next cell. An ID that leaves `m.streams` is
  appended to the retired ones, of which the oldest is forgotten beyond the limit.
- `no_protocol_error`: under `netSafe` no cell makes `Mux.handleCell` return `ErrProtocol`.
- `cancelled_open_ends_session`: an `Open` that is cancelled while the peer refuses it at its stream limit ends the session.
- `streams_limited`: in every run neither mux has more than `MaxStreams` streams.
-/
import NeProto.Session.Known

namespace NeProto.Session

open Endpoint Function List

/-! ## State -/

inductive Party where
  | client
  | server
deriving DecidableEq

/-- `nextID` of a new mux -/
def Party.firstID : Party → ℕ
  | .client => 1
  | .server => 2

/-- the side a party has in the stream with this ID (`validRemoteStreamID`) -/
def Party.side (p : Party) (id : ℕ) : Side := if id % 2 = p.firstID % 2 then .opener else .acceptor

/-- the party on a side of the stream with this ID -/
def partyOf (id : ℕ) (x : Side) : Party := if Party.client.side id = x then .client else .server

def maxStreamID : ℕ := 2 ^ 62 - 1

/-- what `New` accepts, and a limit of zero, which it does not -/
structure Config where
  window : Window
  maxStreams : ℕ

/-- `retiredLimit` -/
def Config.retiredLimit (c : Config) : ℕ := max 1024 (c.maxStreams * 8)

structure Mux where
  nextID : ℕ
  /-- the keys of `m.streams` -/
  streams : List ℕ
  /-- `retiredOrder` -/
  retired : List ℕ

structure Net where
  links : ℕ → Link
  muxes : Party → Mux
  /-- the IDs of the cells in flight to a party, in the order of the carrier -/
  carrier : Party → List ℕ

/-- a call on a stream; the rest is up to its muxes -/
def Link.Op.isCall : Link.Op → Bool
  | .openRegister | .deliver _ _ | .evict _ => false
  | _ => true

namespace Net

section

variable (cfg : Party → Config)

def windows (id : ℕ) (x : Side) : Window := (cfg (partyOf id x)).window

def init : Net where
  links := fun id => .init (windows cfg id)
  muxes := fun p => ⟨p.firstID, [], []⟩
  carrier := fun _ => []

/-! ## The machine -/

variable (n : Net)

def setLink (id : ℕ) (w : Link) : Net := { n with links := update n.links id w }

def setMux (p : Party) (m : Mux) : Net := { n with muxes := update n.muxes p m }

/-- `len(m.streams) >= m.maxStreams` -/
def full (p : Party) : Bool := decide ((cfg p).maxStreams ≤ (n.muxes p).streams.length)

/-- `retireStreamLocked` -/
def retire (p : Party) (id : ℕ) : Net :=
  let m := n.muxes p
  let m := { m with streams := m.streams.erase id }
  match m.retired with
  | oldest :: rest =>
    if (cfg p).retiredLimit ≤ m.retired.length then
      (n.setMux p { m with retired := rest ++ [id] }).setLink oldest ((n.links oldest).step (.evict (p.side oldest)))
    else n.setMux p { m with retired := m.retired ++ [id] }
  | [] => n.setMux p { m with retired := [id] }

/-- a cell is on the carrier -/
def sent (p : Party) (id : ℕ) : Net := { n with carrier := update n.carrier p (n.carrier p ++ [id]) }

/-- what follows for a party from a step of a stream that was `before` -/
def settle (p : Party) (id : ℕ) (before : Link) : Net :=
  let x := p.side id
  let w := n.links id
  let n := if (before.toward x).length < (w.toward x).length then n.sent p id else n
  if (before.ends x).registered = false ∧ (w.ends x).registered = true then
    n.setMux p { n.muxes p with streams := (n.muxes p).streams ++ [id] }
  else if (before.ends x).registered = true ∧ (w.ends x).registered = false then n.retire cfg p id
  else n

/-- a step of one stream -/
def onLink (id : ℕ) (o : Link.Op) : Net :=
  let before := n.links id
  ((n.setLink id (before.step o)).settle cfg .client id before).settle cfg .server id before

inductive Op where
  /-- `Open` up to its OPEN -/
  | opens (p : Party)
  /-- a call on a stream, at any of its points -/
  | call (id : ℕ) (o : Link.Op)
  /-- the read loop of a party takes a cell -/
  | deliver (p : Party)

def step (n : Net) : Op → Net
  | .opens p =>
    let m := n.muxes p
    if n.full cfg p ∨ maxStreamID < m.nextID then n
    else (n.setMux p { m with nextID := m.nextID + 2 }).onLink cfg m.nextID .openRegister
  | .call id o => if o.isCall then n.onLink cfg id o else n
  | .deliver p =>
    match n.carrier p with
    | [] => n
    | id :: rest =>
      ({ n with carrier := update n.carrier p rest }).onLink cfg id (.deliver (p.side id) (n.full cfg p))

def run (ops : List Op) : Net := Machine.run (step cfg) (init cfg) ops

end

end Net

/-! ## One link -/

namespace Link

variable {w : Link}

/-- what a step makes of an end: it stays in use, and only `Open` and an OPEN within the stream limit register it -/
structure Fate (w : Link) (o : Op) (x : Side) (e : Endpoint) : Prop where
  phase : e.phase = .absent → (w.ends x).phase = .absent
  registered : e.registered = true → (w.ends x).registered = true ∨
    x = .opener ∧ o = .openRegister ∧ (w.ends .opener).phase = .absent ∨
    x = .acceptor ∧ o = .deliver .acceptor false ∧ ∃ c ∈ w.toward .acceptor, c.body.opens = true

theorem Step.fate {w' : Link} {o : Op} (hstep : Step w o w') (x : Side) : w.Fate o x (w'.ends x) := by
  have hset : ∀ (z : Side) (e : Endpoint), w.Fate o z e → w.Fate o x ((w.setEnd z e).ends x) := by
    intro z e h
    rcases z.eq_or x with rfl | rfl
    · rwa [setEnd_self]
    · rw [setEnd_other]
      exact ⟨id, .inl⟩
  cases hstep with
  | idle | refuse hto hb => exact ⟨id, .inl⟩
  | @call o z e hcall => exact hset z e ⟨fun hx => hcall.phase ▸ hx, fun hr => .inl (hcall.registered hr)⟩
  | @graceful z hu hg =>
    refine hset z _ ⟨fun hx => ?_, fun hr => .inl (retireIfComplete_registered hr)⟩
    rw [retireIfComplete_eq] at hx
    exact hx
  | @evict z => exact hset z _ ⟨id, .inl⟩
  | register ha => exact hset .opener _ ⟨nofun, fun _ => .inr (.inl ⟨rfl, rfl, ha⟩)⟩
  | request ha | opened ha hr | denied ha hr | cancel ha => exact hset .opener _ ⟨nofun, .inl⟩
  | accept ha | reject ha => exact hset .acceptor _ ⟨nofun, .inl⟩
  | @transmit z c sender ho =>
    obtain ⟨-, -, -, -, hph, hreg⟩ := sent_views (w.ends z) sender
    exact hset z _ ⟨fun hx => hph ▸ hx, fun hr => .inl (hreg.symm.trans hr)⟩
  | @offer c rest window hto hb hc hreg hret =>
    exact hset .acceptor _ ⟨nofun, fun _ => .inr (.inr ⟨rfl, rfl, c, hto ▸ mem_cons_self, hb ▸ rfl⟩)⟩
  | @handle z full c rest hto hb hreg =>
    obtain ⟨-, hph, -, -⟩ := handleCell_frame c hreg
    exact hset z _ ⟨fun hx => hph ▸ hx, fun _ => .inl hreg⟩
  | @invalid z full c rest hto hb hx => exact hset z _ ⟨id, .inl⟩
  | @ignore z full c rest hto hb hreg hret | @unknown z full c rest hto hb hreg hret => exact hset z _ ⟨id, .inl⟩

/-- an ID that has left its mux does not come back -/
theorem Step.gone {W : Side → Window} {w' : Link} {o : Op} (hi : w.Inv W) (hstep : Step w o w') (x : Side)
    (hp : (w.ends x).phase ≠ .absent) :
    (w'.ends x).phase ≠ .absent ∧ ((w.ends x).registered = false → (w'.ends x).registered = false) := by
  obtain ⟨hphase, hreg⟩ := hstep.fate x
  refine ⟨fun hx => hp (hphase hx), fun hr => ?_⟩
  by_contra hx
  rcases hreg (by simpa using hx) with hold | ⟨rfl, -, habs⟩ | ⟨rfl, -, c, hc, hopen⟩
  · cases hr.symm.trans hold
  · exact hp habs
  · exact hp (hi.requests .acceptor c hc hopen).2.1

/-- everything that holds of a link in a run whose steps are all safe -/
structure KnownInv (W : Side → Window) (w : Link) : Prop where
  inv : w.Inv W
  tidy : w.Tidy
  requested : w.Requested
  known : w.Known

theorem init_knownInv (W : Side → Window) : (init W).KnownInv W :=
  ⟨init_inv W, fun _ => absent_tidy _, fun hp => absurd rfl hp, init_known W⟩

theorem KnownInv.step {W : Side → Window} (h : w.KnownInv W) {o : Op} (hsafe : w.keepSafe o) : (w.step o).KnownInv W := by
  have hstep := step_cases w o
  exact ⟨step_inv h.inv o, hstep.tidy h.inv h.tidy, hstep.requested h.requested h.inv,
    hstep.known h.inv h.tidy h.requested h.known hsafe⟩

theorem evict_ends (w : Link) (y x : Side) : ((w.step (.evict y)).ends x).phase = (w.ends x).phase ∧
    ((w.step (.evict y)).ends x).registered = (w.ends x).registered := by
  rcases y.eq_or x with rfl | rfl <;> simp only [Link.step, onEnd, setEnd_self, setEnd_other, and_self]

theorem Forgettable.evict {x : Side} (h : w.Forgettable x) (y : Side) : (w.step (.evict y)).Forgettable x := by
  simp only [Forgettable, Link.step, onEnd] at h ⊢
  rcases y.eq_or x.other with hx | hx
  · rw [hx, setEnd_self]
    rw [hx] at h
    exact h
  · rw [hx, setEnd_other]
    rw [hx] at h
    exact h

end Link

namespace Net

variable {cfg : Party → Config}

/-! ## The condition -/

/-- the ID a full mux forgets next can be forgotten -/
def evictSafe (cfg : Party → Config) (n : Net) (p : Party) : Prop :=
  (cfg p).retiredLimit ≤ (n.muxes p).retired.length →
    ∀ oldest ∈ (n.muxes p).retired.head?, (n.links oldest).Forgettable (p.side oldest)

/-- `keepSafe` for every step of a stream, and for every ID that may be forgotten in it -/
def netSafe (cfg : Party → Config) (n : Net) (o : Op) : Prop :=
  (n.evictSafe cfg .client ∧ n.evictSafe cfg .server) ∧
    match o with
    | .opens _ => True
    | .call id o => (n.links id).keepSafe o
    | .deliver p => ∀ id ∈ (n.carrier p).head?, (n.links id).keepSafe (.deliver (p.side id) (n.full cfg p))

/-! ## Invariant -/

structure NetInv (cfg : Party → Config) (n : Net) : Prop where
  known : ∀ id, (n.links id).KnownInv (windows cfg id)
  /-- a retired ID has been in use and is no longer -/
  retired : ∀ p, ∀ id ∈ (n.muxes p).retired,
    ((n.links id).ends (p.side id)).phase ≠ .absent ∧ ((n.links id).ends (p.side id)).registered = false

variable {n n' : Net} {id : ℕ} {p q : Party}

theorem init_netInv (cfg : Party → Config) : NetInv cfg (init cfg) := ⟨fun _ => Link.init_knownInv _, nofun⟩

theorem NetInv.frame (h : NetInv cfg n) (hl : n'.links = n.links)
    (hm : ∀ p, (n'.muxes p).retired = (n.muxes p).retired) : NetInv cfg n' where
  known := by rw [hl]; exact h.known
  retired := by
    intro p id hid
    rw [hm] at hid
    rw [hl]
    exact h.retired p id hid

theorem setLink_self (n : Net) (id : ℕ) (w : Link) : (n.setLink id w).links id = w := update_self ..

theorem setLink_of_ne (n : Net) {i : ℕ} (w : Link) (h : i ≠ id) : (n.setLink id w).links i = n.links i :=
  update_of_ne h ..

theorem NetInv.setLink (h : NetInv cfg n) (id : ℕ) {o : Link.Op} (hsafe : (n.links id).keepSafe o) :
    NetInv cfg (n.setLink id ((n.links id).step o)) where
  known := by
    intro i
    by_cases hi : i = id
    · subst hi
      rw [setLink_self]
      exact (h.known i).step hsafe
    · rw [setLink_of_ne n _ hi]
      exact h.known i
  retired := by
    intro p i hmem
    have hold := h.retired p i hmem
    by_cases hi : i = id
    · subst hi
      rw [setLink_self]
      have hgone := (Link.step_cases (n.links i) o).gone (h.known i).inv _ hold.1
      exact ⟨hgone.1, hgone.2 hold.2⟩
    · rw [setLink_of_ne n _ hi]
      exact hold

/-! ## Forgetting an ID -/

/-- the links are the same but for IDs that have been forgotten -/
def Evicted (n n' : Net) : Prop := ∀ i, n'.links i = n.links i ∨ ∃ x, n'.links i = (n.links i).step (.evict x)

theorem Evicted.of_eq (h : n'.links = n.links) : Evicted n n' := fun i => .inl (congrFun h i)

theorem Evicted.ends (h : Evicted n n') (i : ℕ) (x : Side) : ((n'.links i).ends x).phase = ((n.links i).ends x).phase ∧
      ((n'.links i).ends x).registered = ((n.links i).ends x).registered := by
  rcases h i with hi | ⟨y, hi⟩
  · rw [hi]
    exact ⟨rfl, rfl⟩
  · rw [hi]
    exact Link.evict_ends _ y x

theorem Evicted.forgettable (h : Evicted n n') {i : ℕ} {x : Side} (hf : (n.links i).Forgettable x) :
    (n'.links i).Forgettable x := by
  rcases h i with hi | ⟨y, hi⟩
  · rw [hi]
    exact hf
  · rw [hi]
    exact hf.evict y

/-- the two outcomes of `retireStreamLocked` -/
theorem retire_cases (cfg : Party → Config) (n : Net) (p : Party) (id : ℕ) :
    (∃ m : Mux, m.retired = (n.muxes p).retired ++ [id] ∧ n.retire cfg p id = n.setMux p m) ∨
      ∃ (m : Mux) (oldest : ℕ) (rest : List ℕ), (n.muxes p).retired = oldest :: rest ∧ m.retired = rest ++ [id] ∧
        (cfg p).retiredLimit ≤ (n.muxes p).retired.length ∧
        n.retire cfg p id = (n.setMux p m).setLink oldest ((n.links oldest).step (.evict (p.side oldest))) := by
  simp only [Net.retire]
  cases hret : (n.muxes p).retired with
  | nil =>
    refine .inl ⟨_, ?_, rfl⟩
    rfl
  | cons oldest rest =>
    by_cases hlim : (cfg p).retiredLimit ≤ (oldest :: rest).length
    · refine .inr ⟨_, oldest, rest, rfl, ?_, hlim, if_pos hlim⟩
      rfl
    · refine .inl ⟨_, ?_, if_neg hlim⟩
      rfl

theorem setMux_self (n : Net) (p : Party) (m : Mux) : (n.setMux p m).muxes p = m := update_self ..

theorem setMux_of_ne (n : Net) (m : Mux) (h : q ≠ p) : (n.setMux p m).muxes q = n.muxes q := update_of_ne h ..

theorem setMux_retired {m : Mux} (h : m.retired = (n.muxes p).retired) (q : Party) :
    ((n.setMux p m).muxes q).retired = (n.muxes q).retired := by
  by_cases hq : q = p
  · subst hq
    rwa [setMux_self]
  · rw [setMux_of_ne n m hq]

theorem retire_evicted (cfg : Party → Config) (n : Net) (p : Party) (id : ℕ) : Evicted n (n.retire cfg p id) := by
  rcases retire_cases cfg n p id with ⟨m, -, h⟩ | ⟨m, oldest, rest, -, -, -, h⟩
  · exact .of_eq (h ▸ rfl)
  intro i
  rw [h]
  by_cases hi : i = oldest
  · subst hi
    exact .inr ⟨_, setLink_self _ _ _⟩
  · exact .inl (setLink_of_ne _ _ hi)

theorem retire_muxes (n : Net) (id : ℕ) (hq : q ≠ p) : (n.retire cfg p id).muxes q = n.muxes q := by
  rcases retire_cases cfg n p id with ⟨m, -, h⟩ | ⟨m, oldest, rest, -, -, -, h⟩ <;> rw [h] <;> exact setMux_of_ne n m hq

theorem retire_retired (n : Net) (p : Party) (id : ℕ) :
    ((n.retire cfg p id).muxes p).retired ⊆ (n.muxes p).retired ++ [id] := by
  rcases retire_cases cfg n p id with ⟨m, hm, h⟩ | ⟨m, oldest, rest, hret, hm, -, h⟩
  · rw [h, setMux_self, hm]
    exact List.Subset.refl _
  · have hmux : ((n.retire cfg p id).muxes p).retired = rest ++ [id] := by
      rw [h, ← hm]
      exact congrArg Mux.retired (setMux_self n p m)
    rw [hmux, hret]
    exact subset_cons_self oldest _

theorem retire_known (h : NetInv cfg n) (id : ℕ) (hev : n.evictSafe cfg p) (i : ℕ) :
    ((n.retire cfg p id).links i).KnownInv (windows cfg i) := by
  rcases retire_cases cfg n p id with ⟨m, -, hn⟩ | ⟨m, oldest, rest, hret, -, hlim, hn⟩
  · rw [hn]
    exact h.known i
  · have hsafe : (n.links oldest).keepSafe (.evict (p.side oldest)) := hev hlim oldest (hret ▸ rfl)
    rw [hn]
    exact (h.setLink oldest hsafe).known i

/-- an ID that has just left `m.streams` -/
theorem NetInv.retire (h : NetInv cfg n) (hev : n.evictSafe cfg p)
    (hp : ((n.links id).ends (p.side id)).phase ≠ .absent) (hr : ((n.links id).ends (p.side id)).registered = false) :
    NetInv cfg (n.retire cfg p id) where
  known := retire_known h id hev
  retired := by
    intro q i hi
    obtain ⟨hph, hreg⟩ := (retire_evicted cfg n p id).ends i (q.side i)
    rw [hph, hreg]
    by_cases hq : q = p
    · subst hq
      rcases mem_append.mp (retire_retired n q id hi) with hi | hi
      · exact h.retired q i hi
      · rw [mem_singleton.mp hi]
        exact ⟨hp, hr⟩
    · rw [retire_muxes n id hq] at hi
      exact h.retired q i hi

/-! ## A step of one stream -/

/-- what `settle` needs to know of the stream before and after its step -/
structure Settles (cfg : Party → Config) (n : Net) (p : Party) (id : ℕ) (before : Link) : Prop where
  evict : (cfg p).retiredLimit ≤ (n.muxes p).retired.length →
    ∀ oldest ∈ (n.muxes p).retired.head?, oldest ≠ id → (n.links oldest).Forgettable (p.side oldest)
  current : (before.ends (p.side id)).registered = true → id ∉ (n.muxes p).retired
  used : (before.ends (p.side id)).registered = true → ((n.links id).ends (p.side id)).phase ≠ .absent

theorem sent_frame (n : Net) (p : Party) (id : ℕ) (b : Prop) [Decidable b] :
    (if b then n.sent p id else n).links = n.links ∧ (if b then n.sent p id else n).muxes = n.muxes := by
  split <;> exact ⟨rfl, rfl⟩

theorem NetInv.settle (h : NetInv cfg n) {before : Link} (hs : Settles cfg n p id before) :
    NetInv cfg (n.settle cfg p id before) := by
  have hsent : ∀ b : Prop, [Decidable b] → NetInv cfg (if b then n.sent p id else n) := by
    intro b _
    split
    · exact h.frame rfl fun _ => rfl
    · exact h
  simp only [Net.settle]
  obtain ⟨hl, hm⟩ := sent_frame n p id ((before.toward (p.side id)).length < ((n.links id).toward (p.side id)).length)
  split
  · exact (hsent _).frame rfl (setMux_retired rfl)
  · split
    case isTrue hgone =>
      refine (hsent _).retire ?_ ?_ ?_
      · intro hlim oldest hold
        rw [hm] at hlim hold
        rw [hl]
        exact hs.evict hlim oldest hold fun heq => hs.current hgone.1 (heq ▸ mem_of_mem_head? hold)
      · rw [hl]
        exact hs.used hgone.1
      · rw [hl]
        exact hgone.2
    case isFalse => exact hsent _

theorem settle_evicted (cfg : Party → Config) (n : Net) (p : Party) (id : ℕ) (before : Link) :
    Evicted n (n.settle cfg p id before) := by
  simp only [Net.settle]
  split
  · split <;> exact .of_eq rfl
  split
  · split
    · exact fun i => retire_evicted cfg (n.sent p id) p id i
    · exact retire_evicted cfg n p id
  · split <;> exact .of_eq rfl

theorem settle_muxes (n : Net) (id : ℕ) (before : Link) (h : q ≠ p) : (n.settle cfg p id before).muxes q = n.muxes q := by
  simp only [Net.settle]
  split
  · rw [setMux_of_ne _ _ h, (sent_frame ..).2]
  · split
    · rw [retire_muxes _ id h, (sent_frame ..).2]
    · rw [(sent_frame ..).2]

/-- the mux of one party does not touch that of the other -/
theorem Settles.settle {before : Link} (h : Settles cfg n q id before) (hq : q ≠ p) :
    Settles cfg (n.settle cfg p id before) q id before := by
  have hev := settle_evicted cfg n p id before
  refine ⟨?_, ?_, ?_⟩
  · rw [settle_muxes n id before hq]
    exact fun hlim oldest hold hne => hev.forgettable (h.evict hlim oldest hold hne)
  · rw [settle_muxes n id before hq]
    exact h.current
  · rw [(hev.ends id _).1]
    exact h.used

theorem NetInv.onLink (h : NetInv cfg n) (id : ℕ) {o : Link.Op} (hev : ∀ p, n.evictSafe cfg p)
    (hsafe : (n.links id).keepSafe o) : NetInv cfg (n.onLink cfg id o) := by
  have hs : ∀ p, Settles cfg (n.setLink id ((n.links id).step o)) p id (n.links id) := by
    intro p
    refine ⟨fun hlim oldest hold hne => ?_, fun hreg hmem => ?_, fun hreg => ?_⟩
    · rw [setLink_of_ne n _ hne]
      exact hev p hlim oldest hold
    · cases hreg.symm.trans (h.retired p id hmem).2
    · rw [setLink_self]
      exact ((Link.step_cases _ o).gone (h.known id).inv _ (Link.heard_of ((h.known id).inv.sound _) (.inl hreg))).1
  exact ((h.setLink id hsafe).settle (hs .client)).settle ((hs .server).settle nofun)

/-! ## Every run -/

theorem NetInv.step (h : NetInv cfg n) {o : Op} (hsafe : netSafe cfg n o) : NetInv cfg (n.step cfg o) := by
  obtain ⟨⟨hc, hs⟩, hop⟩ := hsafe
  have hev : ∀ p, n.evictSafe cfg p := fun
    | .client => hc
    | .server => hs
  cases o with
  | opens p =>
    simp only [Net.step]
    split
    · exact h
    have h' : NetInv cfg (n.setMux p { n.muxes p with nextID := (n.muxes p).nextID + 2 }) := h.frame rfl (setMux_retired rfl)
    refine h'.onLink _ (fun q => ?_) trivial
    rw [evictSafe, setMux_retired (by rfl)]
    exact hev q
  | call id o =>
    simp only [Net.step]
    split
    · exact h.onLink id hev hop
    · exact h
  | deliver p =>
    simp only [Net.step]
    split
    case h_1 => exact h
    case h_2 id rest hto =>
      have h' : NetInv cfg { n with carrier := update n.carrier p rest } := h.frame rfl fun _ => rfl
      exact h'.onLink id hev (hop id (hto ▸ rfl))

/-- **No session ends with `ErrProtocol`.** For any limits and windows of the two muxes and for every interleaving of calls, cells
in flight and read loops whose steps all meet `netSafe`, no cell makes `Mux.handleCell` fail. -/
theorem no_protocol_error (cfg : Party → Config) (ops : List Op)
    (hg : Machine.Guarded (step cfg) (netSafe cfg) (init cfg) ops) (id : ℕ) : ((run cfg ops).links id).failed = false := by
  have hinv : NetInv cfg (run cfg ops) :=
    Machine.run_inv_guarded (I := NetInv cfg) (fun _ _ h hsafe => h.step hsafe) (init_netInv cfg) ops hg
  exact (hinv.known id).known.failed

instance (n : Net) (p : Party) : Decidable (n.evictSafe cfg p) := inferInstanceAs (Decidable (_ → _))

instance (n : Net) : ∀ o, Decidable (netSafe cfg n o)
  | .opens _ => inferInstanceAs (Decidable ((_ ∧ _) ∧ True))
  | .call id o => inferInstanceAs (Decidable ((_ ∧ _) ∧ (n.links id).keepSafe o))
  | .deliver _ => inferInstanceAs (Decidable ((_ ∧ _) ∧ ∀ _ ∈ _, _))

/-- the server takes one stream, the client would take two -/
def limited : Party → Config
  | .client => ⟨.short, 2⟩
  | .server => ⟨.short, 1⟩

/-- stream 1 is open; the OPEN of stream 3 is on its way -/
def busy : List Op :=
  [.opens .client, .call 1 .openSend, .deliver .server, .call 1 .accept, .deliver .client, .call 1 .openReturn,
    .opens .client, .call 3 .openSend]

/-- the server refuses stream 3 while `Open` waits for the answer, and a byte goes over stream 1 -/
theorem no_protocol_error_refused :
    ((run limited (busy ++ [.deliver .server, .call 1 (.write .opener [7]), .call 1 (.writeChunk .opener),
      .call 1 (.transmit .opener), .deliver .client, .call 3 .openReturn, .call 3 (.removeStream .opener 0), .deliver .server,
      .call 1 (.read .acceptor 1)])).links 3).failed = false :=
  no_protocol_error limited _ (by decide) 3

/-- **A cancelled `Open` ends the session.** The client gives up on stream 3, whose OPEN the server refuses at its limit. The ID is
then neither among the server's streams nor among its retired ones, so the RESET is for an unknown stream. -/
theorem cancelled_open_ends_session :
    ¬∀ (cfg : Party → Config) (ops : List Op) (id : ℕ), ((run cfg ops).links id).failed = false := by
  intro h
  have hfailed := h limited (busy ++ [.call 3 .openCancel, .call 3 (.sendReset .opener 0), .call 3 (.transmit .opener),
    .deliver .server, .deliver .server]) 3
  revert hfailed
  decide

/-! ## The stream limit -/

theorem side_inj (h : p.side id = q.side id) : p = q := by
  by_contra hne
  cases p <;> cases q <;> simp only [Party.side, Party.firstID] at h <;> grind

/-- the mux of a party is within its limits, and its next ID is one of its own -/
structure Limited (cfg : Party → Config) (p : Party) (m : Mux) : Prop where
  streams : m.streams.length ≤ (cfg p).maxStreams
  retired : m.retired.length ≤ (cfg p).retiredLimit
  own : p.side m.nextID = .opener

section

variable (h : Limited cfg p (n.muxes p))
include h

theorem Limited.retire (id : ℕ) : Limited cfg p ((n.retire cfg p id).muxes p) := by
  have herase : ∀ l : List ℕ, l.length ≤ (cfg p).retiredLimit →
      Limited cfg p { n.muxes p with streams := (n.muxes p).streams.erase id, retired := l } := fun _ hl =>
    ⟨length_erase_le.trans h.streams, hl, h.own⟩
  have hret := h.retired
  simp only [Net.retire]
  split
  case h_1 oldest rest heq =>
    rw [heq] at hret ⊢
    split
    · simp only [setMux, setLink, update_self]
      exact herase _ (by simpa using hret)
    · rw [setMux_self]
      exact herase _ (by rw [length_append, length_singleton]; omega)
  case h_2 =>
    rw [setMux_self]
    exact herase _ (le_max_of_le_left (by simp))

theorem Limited.settle {before : Link}
    (hroom : (before.ends (p.side id)).registered = false ∧ ((n.links id).ends (p.side id)).registered = true →
      (n.muxes p).streams.length < (cfg p).maxStreams) : Limited cfg p ((n.settle cfg p id before).muxes p) := by
  simp only [Net.settle]
  split
  case isTrue hnew =>
    rw [setMux_self, (sent_frame ..).2]
    exact ⟨length_append ▸ hroom hnew, h.retired, h.own⟩
  · split
    · refine Limited.retire ?_ id
      rwa [(sent_frame ..).2]
    · rwa [(sent_frame ..).2]

/-- only `Open` and an OPEN within the limit need room for a stream -/
theorem Limited.onLink (id : ℕ) {o : Link.Op}
    (hroom : o = .openRegister ∧ p.side id = .opener ∨ o = .deliver .acceptor false ∧ p.side id = .acceptor →
      (n.muxes p).streams.length < (cfg p).maxStreams) : Limited cfg p ((n.onLink cfg id o).muxes p) := by
  have hnew : ((n.links id).ends (p.side id)).registered = false ∧
      (((n.links id).step o).ends (p.side id)).registered = true → (n.muxes p).streams.length < (cfg p).maxStreams := by
    intro ⟨hold, hreg⟩
    rcases ((Link.step_cases _ o).fate _).registered hreg with hx | ⟨hx, ho, -⟩ | ⟨hx, ho, -⟩
    · cases hold.symm.trans hx
    · exact hroom (.inl ⟨ho, hx⟩)
    · exact hroom (.inr ⟨ho, hx⟩)
  rw [← setLink_self n id ((n.links id).step o)] at hnew
  cases p with
  | client =>
    simp only [Net.onLink]
    rw [settle_muxes _ _ _ (by decide : Party.client ≠ .server)]
    exact Limited.settle (n := n.setLink id _) h hnew
  | server =>
    have hmux : ((n.setLink id ((n.links id).step o)).settle cfg .client id (n.links id)).muxes .server = n.muxes .server :=
      settle_muxes _ _ _ (by decide)
    have hev := settle_evicted cfg (n.setLink id ((n.links id).step o)) .client id (n.links id)
    refine Limited.settle (hmux ▸ h) fun hreg => ?_
    rw [(hev.ends id _).2] at hreg
    rw [hmux]
    exact hnew hreg

end

theorem Limited.step (h : ∀ p, Limited cfg p (n.muxes p)) (o : Op) (p : Party) : Limited cfg p ((n.step cfg o).muxes p) := by
  have hroom : ∀ {q : Party}, n.full cfg q = false → (n.muxes q).streams.length < (cfg q).maxStreams := by simp [Net.full]
  cases o with
  | opens q =>
    simp only [Net.step]
    split
    case isTrue => exact h p
    case isFalse hfull =>
      rw [not_or, Bool.not_eq_true] at hfull
      by_cases hp : p = q
      · subst hp
        have hown : p.side ((n.muxes p).nextID + 2) = .opener := by
          rw [← (h p).own]
          simp only [Party.side, Nat.add_mod_right]
        refine Limited.onLink ?_ _ fun _ => ?_ <;> rw [setMux_self]
        · exact ⟨(h p).streams, (h p).retired, hown⟩
        · exact hroom hfull.1
      · refine Limited.onLink ?_ _ fun hnew => ?_
        · rw [setMux_of_ne _ _ hp]
          exact h p
        · obtain ⟨-, hx⟩ | ⟨ho, -⟩ := hnew
          · exact absurd (side_inj (hx.trans (h q).own.symm)) hp
          · cases ho
  | call id o =>
    simp only [Net.step]
    split
    case isTrue hcall =>
      refine (h p).onLink id fun hnew => ?_
      rcases hnew with ⟨rfl, -⟩ | ⟨rfl, -⟩ <;> cases hcall
    case isFalse => exact h p
  | deliver q =>
    simp only [Net.step]
    split
    case h_1 => exact h p
    case h_2 id rest hto =>
      refine Limited.onLink (n := { n with carrier := update n.carrier q rest }) (h p) id fun hnew => ?_
      obtain ⟨ho, -⟩ | ⟨ho, hx⟩ := hnew
      · cases ho
      · obtain ⟨hq, hfull⟩ := Link.Op.deliver.inj ho
        rw [side_inj (hx.trans hq.symm)]
        exact hroom hfull

/-- **Neither mux exceeds `MaxStreams`**, nor `retiredLimit`, whatever the applications call and in whatever order the cells
arrive. -/
theorem streams_limited (cfg : Party → Config) (ops : List Op) (p : Party) :
    ((run cfg ops).muxes p).streams.length ≤ (cfg p).maxStreams ∧
      ((run cfg ops).muxes p).retired.length ≤ (cfg p).retiredLimit := by
  have hinit : ∀ p, Limited cfg p ((init cfg).muxes p) := fun _ => ⟨Nat.zero_le _, Nat.zero_le _, if_pos rfl⟩
  have hlim := Machine.run_inv (I := fun n : Net => ∀ p, Limited cfg p (n.muxes p)) (fun _ o h => Limited.step h o) hinit ops
  exact ⟨(hlim p).streams, (hlim p).retired⟩

end Net

end NeProto.Session
