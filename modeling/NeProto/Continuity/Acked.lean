/-
Nothing is retired that the peer has not received. `Acked a r`: every acknowledgement that has reached `a`, at whatever
point of its way to the journal, is at most `r`. With `r` the peer's receive offset this holds in every state of a link,
since each acknowledgement and each `PeerReceiveOffset` is an offset the peer has reached.
-/
import NeProto.Continuity.Sender

namespace NeProto.Continuity

structure Acked (a : St) (r : ℕ) : Prop where
  base : a.journal.baseOffset ≤ r
  ackers : ∀ k ∈ a.ackers, k ≤ r
  pending : a.pendingAck ≤ r
  deferred : a.writer.deferred ≤ r
  peer : ∀ q peer recv, a.replacer = .ack q peer recv → peer ≤ r

variable {a : St} {r : ℕ}

theorem Acked.mono {r' : ℕ} (h : Acked a r) (hr : r ≤ r') : Acked a r' :=
  ⟨h.base.trans hr, fun k hk => (h.ackers k hk).trans hr, h.pending.trans hr, h.deferred.trans hr,
    fun q p v hx => (h.peer q p v hx).trans hr⟩

/-- the journal retires up to an offset the peer has reached -/
theorem Acked.retire {offset : ℕ} {j : Journal} (h : Acked a r) (hj : Retires offset a.journal j)
    (ho : offset ≤ r) : Acked { a with journal := j } r :=
  { h with base := hj.base_max.trans (max_le h.base ho) }

/-- **Honest retirement.** Every step keeps it whose acknowledgement, if it brings one, is an offset the peer has
reached. -/
theorem step_acked (C : Config) (h : Acked a r) (o : Op)
    (hack : ∀ k, o = .ack k → k ≤ r) (hrep : ∀ q peer recv, o = .replace q peer recv → peer ≤ r) : Acked (step C a o) r := by
  have he := step_effect C a o
  generalize step C a o = a' at he
  cases he with
  | none => exact h
  | moves hm =>
    cases hm with
    | enter | put | ret => exact { h with deferred := Nat.zero_le _ }
    | account _ _ hp hd => exact { h with pending := hp.trans h.pending, deferred := hd.trans h.pending }
    | start => exact { h with peer := fun q' peer' recv' hx => by cases hx; exact hrep _ _ _ rfl }
    | replayed | publish => exact { h with peer := nofun }
    | wrote r' hr _ _ hx => rcases hx with ⟨rfl, -⟩ | rfl <;> exact { h with peer := nofun }
  | turn _ hm => exact { h with deferred := hm.deferred.trans_le (Nat.zero_le r) }
  | append _ hj =>
    obtain ⟨-, -, hb, -⟩ := Journal.append_spec hj
    exact { h with base := hb.trans_le h.base, deferred := Nat.zero_le _ }
  | settle hw hj hx =>
    have hd := h.deferred
    rw [hw] at hd
    rcases hx with rfl | rfl | rfl <;> exact { h.retire hj hd with deferred := Nat.zero_le _ }
  | failed | captured | chunk | drained => exact { h with peer := nofun }
  | acked hr hj => exact { h.retire hj (h.peer _ _ _ hr) with peer := nofun }
  | finish _ _ hx => rcases hx with rfl | ⟨localFIN, rfl⟩ <;> exact { h with peer := nofun }
  | detach _ hr => exact { h with peer := fun q peer recv hx => by cases (congrArg Replacer.busy hx).symm.trans hr }
  | ack ha hp =>
    refine { h with ackers := fun k hk => ?_, pending := ?_ }
    · rcases ha with rfl | rfl
      · exact h.ackers k hk
      rcases List.mem_append.1 hk with hk | hk
      · exact h.ackers k hk
      · rw [List.mem_singleton.1 hk]; exact hack _ rfl
    · rcases hp with rfl | rfl
      · exact h.pending
      · exact max_le h.pending (hack _ rfl)
  | retire hk hj =>
    exact { h.retire hj (h.ackers _ (List.mem_of_getElem? hk)) with
      ackers := fun k hk => h.ackers k (List.mem_of_mem_eraseIdx hk) }
  | closeJournal => exact { h with base := by rw [Journal.close_base]; exact h.base }
  | reads | close | callback => exact { h with }

end NeProto.Continuity
