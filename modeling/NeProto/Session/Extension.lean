/-
The extension messages of a mux (`internal/session/extension.go`): a filter on message IDs in front of a bounded queue.

- `Inbox`: what `handleExtensionPayload` keeps. No remembered ID is above the highest one.
- `handleExtensionPayload`: a repeated message is ignored, a different one under the same ID is refused, an older one is dropped, and
  a new one is queued if there is room.
- `received_exact`: the messages it lets pass are those a filter with an unbounded memory lets pass, with ascending IDs.
-/
import NeProto.Lib.GoMap
import NeProto.Lib.Machine

namespace NeProto.Session

open List

def maxQueuedExtensionMessages : ℕ := 16

def maxRememberedExtensionIDs : ℕ := 64

/-- the errors of `handleExtensionPayload`; both wrap `ErrProtocol` -/
inductive ExtensionError where
  | conflictingMessageID
  | receiveQueueFull

structure Inbox (E D : Type) where
  /-- `extensionSeen` -/
  seen : GoMap D
  /-- `extensionOrder` -/
  order : List ℕ
  highestExtensionID : ℕ
  /-- the channel `extensions` -/
  extensions : List E
  le_highest : ∀ id ∈ seen, id ≤ highestExtensionID

namespace Inbox

variable {E D : Type}

def empty : Inbox E D := ⟨∅, [], 0, [], nofun⟩

/-- the oldest ID is forgotten when the list is full -/
def forget (m : Inbox E D) : Inbox E D :=
  match m.order with
  | oldest :: rest =>
    if m.order.length = maxRememberedExtensionIDs then
      { m with
        seen := m.seen.erase oldest
        order := rest
        le_highest := fun id hid => m.le_highest id (AList.mem_erase.mp hid).2 }
    else m
  | [] => m

theorem forget_frame (m : Inbox E D) :
    m.forget.highestExtensionID = m.highestExtensionID ∧ m.forget.extensions = m.extensions := by
  unfold forget
  split
  · split <;> exact ⟨rfl, rfl⟩
  · exact ⟨rfl, rfl⟩

/-- a new ID above all others -/
def remember (m : Inbox E D) (id : ℕ) (digest : D) (h : m.highestExtensionID < id) : Inbox E D where
  seen := m.seen.insert id digest
  order := m.order ++ [id]
  highestExtensionID := id
  extensions := m.extensions
  le_highest := by
    intro k hk
    rcases (AList.mem_insert m.seen).mp hk with rfl | hk
    · exact le_refl _
    · exact (m.le_highest k hk).trans h.le

/-- a well-formed envelope arrives -/
def handleExtensionPayload [DecidableEq D] (digest : E → D) (messageID : E → ℕ) (m : Inbox E D) (e : E) :
    Except ExtensionError (Inbox E D) :=
  match m.seen.lookup (messageID e) with
  | some previous => if previous = digest e then .ok m else .error .conflictingMessageID
  | none =>
    if h : m.highestExtensionID < messageID e then
      let m := m.forget.remember (messageID e) (digest e) (m.forget_frame.1.trans_lt h)
      if m.extensions.length < maxQueuedExtensionMessages then .ok { m with extensions := m.extensions ++ [e] }
      else .error .receiveQueueFull
    else .ok m

variable [DecidableEq D] {digest : E → D} {messageID : E → ℕ} {m m' : Inbox E D} {e : E}

/-- an arrival changes nothing, or queues a message above all before it -/
theorem handle_ok (h : m.handleExtensionPayload digest messageID e = .ok m') :
    m' = m ∧ messageID e ≤ m.highestExtensionID ∨ m.highestExtensionID < messageID e ∧
      m'.highestExtensionID = messageID e ∧ m'.extensions = m.extensions ++ [e] := by
  unfold handleExtensionPayload at h
  split at h
  case h_1 hseen =>
    split at h
    · exact .inl ⟨(Except.ok.inj h).symm, m.le_highest _ (AList.lookup_isSome.1 (hseen ▸ rfl))⟩
    · cases h
  case h_2 =>
    split at h
    case isTrue hid =>
      simp only at h
      split at h
      · obtain rfl := Except.ok.inj h
        exact .inr ⟨hid, rfl, congrArg (· ++ [e]) m.forget_frame.2⟩
      · cases h
    case isFalse hid => exact .inl ⟨(Except.ok.inj h).symm, not_lt.1 hid⟩

/-- what is queued was queued before or has just arrived -/
theorem handle_mem (h : m.handleExtensionPayload digest messageID e = .ok m') {e' : E}
    (he : e' ∈ m'.extensions) : e' ∈ m.extensions ∨ e' = e := by
  rcases handle_ok h with ⟨rfl, -⟩ | ⟨-, -, hx⟩
  · exact .inl he
  · rwa [hx, mem_append, mem_singleton] at he

/-- the inbox with what was handled without an error and what `ReceiveExtension` has returned; an error ends the session -/
structure Mailbox (E D : Type) where
  inbox : Inbox E D
  handled : List E
  received : List E
  ended : Bool

namespace Mailbox

variable {w : Mailbox E D}

/-- an envelope arrives, or `ReceiveExtension` takes the first one of the queue -/
def step (digest : E → D) (messageID : E → ℕ) (w : Mailbox E D) : Option E → Mailbox E D
  | some e =>
    if w.ended then w
    else match w.inbox.handleExtensionPayload digest messageID e with
      | .ok inbox => { w with inbox := inbox, handled := w.handled ++ [e] }
      | .error _ => { w with ended := true }
  | none =>
    match w.inbox.extensions with
    | [] => w
    | e :: rest => { w with inbox := { w.inbox with extensions := rest }, received := w.received ++ [e] }

def run (digest : E → D) (messageID : E → ℕ) (ops : List (Option E)) : Mailbox E D :=
  Machine.run (step digest messageID) ⟨empty, [], [], false⟩ ops

/-- the plain filter: a message passes if its ID is above those of all that passed -/
def pass (messageID : E → ℕ) (passed : List E) (e : E) : List E :=
  if 0 < messageID e ∧ ∀ a ∈ passed, messageID a < messageID e then passed ++ [e] else passed

structure Exact (messageID : E → ℕ) (w : Mailbox E D) : Prop where
  passed : w.received ++ w.inbox.extensions = w.handled.foldl (pass messageID) []
  highest : ∀ n, w.inbox.highestExtensionID < n ↔ 0 < n ∧ ∀ a ∈ w.received ++ w.inbox.extensions, messageID a < n

theorem Exact.step (digest : E → D) (h : w.Exact messageID) (o : Option E) : (w.step digest messageID o).Exact messageID := by
  unfold Mailbox.step
  split
  · split
    · exact h
    split
    · rename_i e _ _ m hm
      have hpassed : (w.handled ++ [e]).foldl (pass messageID) [] =
          if w.inbox.highestExtensionID < messageID e then w.received ++ w.inbox.extensions ++ [e]
          else w.received ++ w.inbox.extensions := by
        simp only [foldl_append, foldl_cons, foldl_nil, ← h.passed, pass, h.highest]
      rcases handle_ok hm with ⟨rfl, hle⟩ | ⟨hid, hhigh, hext⟩
      · exact ⟨by rw [hpassed, if_neg (not_lt.2 hle)], h.highest⟩
      rw [if_pos hid, append_assoc, ← hext] at hpassed
      refine ⟨hpassed.symm, fun n => ?_⟩
      have hbelow := (h.highest _).1 hid
      simp only [hhigh, hext]
      grind
    · exact { h with }
  · split
    · exact h
    · rename_i hx
      exact ⟨by simpa [hx] using h.passed, by simpa [hx] using h.highest⟩

theorem run_exact (digest : E → D) (messageID : E → ℕ) (ops : List (Option E)) : (run digest messageID ops).Exact messageID :=
  Machine.run_inv (fun _ o hw => hw.step digest o) ⟨rfl, fun n => by simp [empty]⟩ ops

/-- **The bounded filter is exact.** What was received and what waits is what the plain filter lets pass of the messages handled:
each at most once and in the order of the IDs, although only 64 IDs are remembered. -/
theorem received_exact (digest : E → D) (messageID : E → ℕ) (ops : List (Option E)) :
    (run digest messageID ops).received ++ (run digest messageID ops).inbox.extensions =
      (run digest messageID ops).handled.foldl (pass messageID) [] :=
  (run_exact digest messageID ops).passed

theorem foldl_pass_ascending (l : List E) {passed : List E} (h : passed.Pairwise (messageID · < messageID ·)) :
    (l.foldl (pass messageID) passed).Pairwise (messageID · < messageID ·) := by
  induction l generalizing passed with
  | nil => exact h
  | cons e l ih =>
    refine ih ?_
    unfold pass
    split
    · rename_i he
      exact pairwise_append.2 ⟨h, pairwise_singleton .., fun a ha b hb => mem_singleton.1 hb ▸ he.2 a ha⟩
    · exact h

/-- the IDs of what was received ascend strictly -/
theorem received_ascending (digest : E → D) (messageID : E → ℕ) (ops : List (Option E)) :
    (run digest messageID ops).received.Pairwise (messageID · < messageID ·) := by
  have h : ((run digest messageID ops).handled.foldl (pass messageID) []).Pairwise _ := foldl_pass_ascending _ .nil
  rw [← (run_exact digest messageID ops).passed] at h
  exact (pairwise_append.1 h).1

end Mailbox

end Inbox

end NeProto.Session
