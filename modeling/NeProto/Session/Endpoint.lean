/-
What the calls on one end of a stream do, seen from the peer.

- `Endpoint.Sound`: the facts about one end that every call keeps (`Call.sound`).
- `Endpoint.Effect`: a call on an end that stays alive sends DATA, FIN or credit, takes credit from what was read, or does
  nothing the peer could see.
-/
import NeProto.Session.Calls
import NeProto.Session.Flow

namespace NeProto.Session

open List

open Continuity (maxSequence)

namespace Endpoint

/-! ## Views -/

variable (e : Endpoint)

/-- the chunk that is not yet counted -/
def inProgress : List UInt8 :=
  match e.writer with
  | .sending chunk _ => chunk
  | _ => []

def sends : Sends :=
  ⟨e.stream.window, e.stream.sendWindow, e.stream.sendSequence, e.stream.sendCredit, e.stream.localFIN,
    e.reported ++ e.inProgress⟩

def recvs : Recvs :=
  ⟨e.stream.recvSequence, e.stream.recvCredit, e.stream.peerFIN, e.returned ++ e.stream.buffered, e.credits.sum + e.stranded⟩

/-- the cell that has its sequence number -/
def out : List Cell := (e.outgoing.map Prod.fst).toList

/-- it is not failed, reset, closed by force, rejected or cancelled -/
def Alive : Prop := e.stream.writeErr = none ∧ e.phase ≠ .absent ∧ e.phase ≠ .cancelled ∧ e.phase ≠ .dropped

instance : Decidable e.Alive := by
  unfold Alive
  infer_instance

variable {e} {rest : List UInt8}

theorem Alive.of_eq {e' : Endpoint} (ha : e'.Alive) (hw : e'.stream.writeErr = e.stream.writeErr)
    (hp : e'.phase = e.phase) : e.Alive := by
  simp only [Alive, hw, hp] at ha
  exact ha

theorem Alive.of_phase {p : Phase} (hw : e.stream.writeErr = none) (hp : e.phase = p)
    (hne : p ≠ .absent ∧ p ≠ .cancelled ∧ p ≠ .dropped) : e.Alive := ⟨hw, hp ▸ hne⟩

/-! ## What one end keeps -/

structure Sound (e : Endpoint) : Prop where
  stream : e.stream.Sound
  absent : e.phase = .absent → e = .absent e.stream.window
  credits : ∀ c ∈ e.credits, 0 < c
  writing : ∀ rest, e.writer = .writing rest → rest ≠ []
  unused : e.phase ≠ .usable → e.writer = .idle ∧ e.credits = [] ∧ e.reported = [] ∧ e.returned = [] ∧ e.stranded = 0
  resets : e.Alive → e.resets = [] ∧ e.removals = [] ∧ ∀ c cause, e.outgoing ≠ some (c, .reset cause)
  silent : e.Alive → e.phase ≠ .usable → e.outgoing = none
  heard : e.Alive → e.phase = .usable ∨ e.phase = .incoming ∨ e.stream.openResult ≠ none → e.stream.recvSequence ≠ 0
  retired : e.Alive → e.registered = false → e.stream.canRetire = true

theorem absent_sound (window : ℕ) : (absent window).Sound where
  stream := Stream.new_sound ..
  absent := fun _ => rfl
  credits := nofun
  writing := nofun
  unused := fun _ => ⟨rfl, rfl, rfl, rfl, rfl⟩
  resets := fun h => absurd rfl h.2.1
  silent := fun h => absurd rfl h.2.1
  heard := fun h => absurd rfl h.2.1
  retired := fun h => absurd rfl h.2.1

/-- an end that is not alive: what is left concerns the buffer -/
theorem Sound.dead (h : e.Sound) (hp : e.phase ≠ .absent) {stream : Stream} (hs : stream.Sound)
    (hdead : ¬({ e with stream := stream } : Endpoint).Alive) (outgoing : Option (Cell × Sender)) (resets removals : List Cause)
    (closed registered retired : Bool) :
    ({ e with stream := stream, outgoing := outgoing, resets := resets, removals := removals, closed := closed
              registered := registered, retired := retired } : Endpoint).Sound where
  stream := hs
  absent := fun hx => absurd hx hp
  credits := h.credits
  writing := h.writing
  unused := h.unused
  resets := fun ha => absurd ha hdead
  silent := fun ha => absurd ha hdead
  heard := fun ha => absurd ha hdead
  retired := fun ha => absurd ha hdead

theorem Sound.of_usable (hp : e.phase = .usable) (stream : e.stream.Sound) (credits : ∀ c ∈ e.credits, 0 < c)
    (writing : ∀ rest, e.writer = .writing rest → rest ≠ [])
    (resets : e.Alive → e.resets = [] ∧ e.removals = [] ∧ ∀ c cause, e.outgoing ≠ some (c, .reset cause))
    (heard : e.Alive → e.stream.recvSequence ≠ 0) (retired : e.Alive → e.registered = false → e.stream.canRetire = true) :
    e.Sound :=
  ⟨stream, (fun ha => by cases hp.symm.trans ha), credits, writing, fun hu => absurd hp hu, resets, fun _ hu => absurd hp hu,
    fun ha _ => heard ha, retired⟩

section

variable (h : e.Sound)

include h

theorem Sound.remove (hr : e.Alive → e.stream.canRetire = true) : e.remove.Sound := by
  simp only [Endpoint.remove]
  split
  · rename_i hreg
    refine { h with absent := fun hp => ?_, retired := fun ha _ => hr ha }
    have := h.absent hp
    rw [this] at hreg
    cases hreg
  · exact h

theorem Sound.retireIfComplete : e.retireIfComplete.Sound := by
  simp only [Endpoint.retireIfComplete]
  split
  · exact h.remove fun _ => ‹_›
  · exact h

theorem Sound.hearing (hp : e.phase = .usable) (ha : e.Alive) : e.stream.recvSequence ≠ 0 := h.heard ha (.inl hp)

/-- an end with a `Write` in progress is usable -/
theorem Sound.writing_usable (hw : e.writer ≠ .idle) : e.phase = .usable := by
  by_contra hu
  exact hw (h.unused hu).1

/-- an end with a `Read` in progress is usable -/
theorem Sound.reading {i credit : ℕ} (hi : e.credits[i]? = some credit) : e.phase = .usable := by
  by_contra hu
  rw [(h.unused hu).2.1] at hi
  cases hi

theorem Sound.resetting {i : ℕ} {cause : Cause} (hi : e.resets[i]? = some cause) : ¬e.Alive := by
  intro ha
  rw [(h.resets ha).1] at hi
  cases hi

theorem Sound.removing {i : ℕ} {cause : Cause} (hi : e.removals[i]? = some cause) : ¬e.Alive := by
  intro ha
  rw [(h.resets ha).2.1] at hi
  cases hi

/-- an end that can still write is registered -/
theorem Sound.unfinished (hfin : e.stream.localFIN = false) (ha : e.Alive) : e.registered ≠ false := by
  intro hreg
  have := ((Stream.canRetire_iff e.stream).1 (h.retired ha hreg)).1
  rw [hfin] at this
  cases this

/-- `Read` leaves an end usable -/
theorem Sound.took (hp : e.phase = .usable) (n : ℕ) (returned : List UInt8) (checks : ℕ) {credits : List ℕ}
    (hc : ∀ c ∈ credits, 0 < c) :
    ({ e with stream := (e.stream.read n).1, returned := returned, checks := checks, credits := credits } : Endpoint).Sound := by
  obtain ⟨hframe, hs, -⟩ := Stream.read_spec h.stream n
  have hret : e.stream.canRetire = true → (e.stream.read n).1 = e.stream := fun hr => Stream.read_retired hr n
  generalize (e.stream.read n).1 = stream at hframe hs hret
  have hwrite : stream.writeErr = e.stream.writeErr := by rw [hframe]
  refine .of_usable hp hs hc h.writing (fun ha => h.resets (ha.of_eq hwrite rfl)) (fun ha => ?_) fun ha hreg => ?_
  · have := h.hearing hp (ha.of_eq hwrite rfl)
    rwa [hframe]
  · have hold := h.retired (ha.of_eq hwrite rfl) hreg
    rw [hret hold]
    exact hold

end

theorem removed_alive {i : ℕ} {cause : Cause} (ha : (e.removed i cause).Alive) : e.Alive := by
  rw [removed, remove_eq] at ha
  obtain ⟨hw, hp⟩ := ha
  split at hw
  · cases hw
  · exact ⟨hw, hp⟩

theorem Call.sound {e' : Endpoint} (hcall : Call e e') (h : e.Sound) : e'.Sound := by
  cases hcall with
  | same => exact h
  | start hp hw hne =>
    exact .of_usable hp h.stream h.credits (fun rest hw => Writer.writing.inj hw ▸ hne) h.resets (h.hearing hp) h.retired
  | stop hw =>
    have hp := h.writing_usable (by simp [hw])
    exact .of_usable hp h.stream h.credits nofun h.resets (h.hearing hp) h.retired
  | exhausted hw =>
    exact .of_usable (h.writing_usable (by simp [hw])) (.fail (h.stream.frame ..) _) h.credits nofun (fun ha => by cases ha.1)
      (fun ha => by cases ha.1) (fun ha => by cases ha.1)
  | data hw _ _ hfin =>
    have hp := h.writing_usable (by simp [hw])
    exact .of_usable hp (h.stream.frame ..) h.credits nofun (fun ha => ⟨(h.resets ha).1, (h.resets ha).2.1, nofun⟩)
      (h.hearing hp) fun ha hreg => absurd hreg (h.unfinished hfin ha)
  | count hw =>
    have hp := h.writing_usable (by simp [hw])
    refine .of_usable hp h.stream h.credits (fun rest hw => ?_) h.resets (h.hearing hp) h.retired
    split at hw
    · cases hw
    · exact Writer.writing.inj hw ▸ ‹_›
  | read hp => exact h.took hp _ _ _ h.credits
  | take hp hz =>
    refine h.took hp _ _ _ fun c hm => ?_
    rcases mem_append.1 hm with hm | hm
    · exact h.credits c hm
    · rw [mem_singleton.1 hm]
      exact Nat.pos_of_ne_zero hz
  | strand hi =>
    exact .of_usable (h.reading hi) h.stream (fun c hc => h.credits c (mem_of_mem_eraseIdx hc)) h.writing h.resets
      (h.hearing (h.reading hi)) h.retired
  | update hi =>
    exact .of_usable (h.reading hi) (h.stream.frame ..) (fun c hc => h.credits c (mem_of_mem_eraseIdx hc)) h.writing
      (fun ha => ⟨(h.resets ha).1, (h.resets ha).2.1, nofun⟩) (h.hearing (h.reading hi)) h.retired
  | mute hp _ hfin =>
    exact .of_usable hp (h.stream.frame ..) h.credits h.writing h.resets (h.hearing hp) fun ha hreg =>
      absurd hreg (h.unfinished hfin ha)
  | fin hp _ _ hfin =>
    exact .of_usable hp (h.stream.frame ..) h.credits h.writing (fun ha => ⟨(h.resets ha).1, (h.resets ha).2.1, nofun⟩)
      (h.hearing hp) fun ha hreg => absurd hreg (h.unfinished hfin ha)
  | force hp =>
    exact .of_usable hp (h.stream.frame ..) h.credits h.writing (fun ha => by cases ha.1) (fun ha => by cases ha.1)
      (fun ha => by cases ha.1)
  | skip hi | resetMute hi | reset hi =>
    refine h.dead (fun hp => ?_) (h.stream.frame ..) ?_ ..
    · rw [h.absent hp] at hi
      cases hi
    · exact h.resetting hi
  | @remove i cause hi =>
    have hdead : ¬(e.removed i cause).Alive := fun ha => h.removing hi (removed_alive ha)
    rw [removed, remove_eq] at hdead ⊢
    refine h.dead (fun hp => ?_) ?_ hdead ..
    · rw [h.absent hp] at hi
      cases hi
    · split
      · exact h.stream.fail _
      · exact h.stream
  | check hpos =>
    refine Sound.retireIfComplete { h with absent := fun hp => ?_ }
    rw [h.absent hp] at hpos
    exact absurd hpos (lt_irrefl 0)

/-! ## Effects -/

/-- what a call can do to an end that stays alive -/
inductive Effect (e e' : Endpoint) : Prop where
  | quiet (hs : e'.sends = e.sends) (hr : e'.recvs = e.recvs) (ho : e'.out = e.out)
  | data (chunk : List UInt8) (hne : chunk ≠ []) (hle : chunk.length ≤ e.stream.sendCredit) (hfin : e.stream.localFIN = false)
    (hs : e'.sends = { e.sends with sequence := e.stream.sendSequence + 1, credit := e.stream.sendCredit - chunk.length
                                    bytes := e.sends.bytes ++ chunk })
    (hr : e'.recvs = e.recvs) (ho : e.out = []) (ho' : e'.out = [⟨e.stream.sendSequence, .data chunk⟩])
  | fin (hfin : e.stream.localFIN = false)
    (hs : e'.sends = { e.sends with sequence := e.stream.sendSequence + 1, fin := true })
    (hr : e'.recvs = e.recvs) (ho : e.out = []) (ho' : e'.out = [⟨e.stream.sendSequence, .fin⟩])
  | mute (hs : e'.sends = { e.sends with fin := true }) (hr : e'.recvs = e.recvs) (ho : e'.out = e.out)
  | update (credit : ℕ) (hpos : 0 < credit)
    (hs : e'.sends = { e.sends with sequence := e.stream.sendSequence + 1 })
    (hr : e.recvs = { e'.recvs with owed := e'.recvs.owed + credit }) (ho : e.out = [])
    (ho' : e'.out = [⟨e.stream.sendSequence, .windowUpdate credit⟩])
  | read (credit : ℕ) (hs : e'.sends = e.sends)
    (hr : e'.recvs = { e.recvs with credit := e.recvs.credit + credit, owed := e.recvs.owed + credit }) (ho : e'.out = e.out)

theorem chunk_spec (hne : rest ≠ []) (hc : e.stream.sendCredit ≠ 0) :
    e.chunk rest ≠ [] ∧ (e.chunk rest).length ≤ e.stream.sendCredit := by
  have hpos : 0 < rest.length := length_pos_iff.2 hne
  have hlen : (e.chunk rest).length = min (min e.stream.sendCredit maxCellPayloadSize) rest.length := by
    simp only [chunk, length_take]
  refine ⟨length_pos_iff.1 ?_, by omega⟩
  simp only [maxCellPayloadSize] at hlen
  omega

theorem sum_eraseIdx {l : List ℕ} {i c : ℕ} (h : l[i]? = some c) : (l.eraseIdx i).sum + c = l.sum := by
  induction l generalizing i with
  | nil => cases h
  | cons a l ih =>
    cases i with
    | zero =>
      obtain rfl : a = c := by simpa using h
      simp [add_comm]
    | succ i =>
      have := ih (i := i) (by simpa using h)
      simp only [eraseIdx_cons_succ, sum_cons]
      omega

theorem out_nil (ho : e.outgoing = none) : e.out = [] := by rw [out, ho]; rfl

/-- what is read and the credit that is taken -/
theorem read_effect (h : e.Sound) (n checks : ℕ) {credits : List ℕ} (hsum : credits.sum = e.credits.sum + (e.stream.read n).2.2) :
    Effect e { e with stream := (e.stream.read n).1, returned := e.returned ++ (e.stream.read n).2.1.bytes
                      checks := checks, credits := credits } := by
  obtain ⟨hframe, -, hb, hc⟩ := Stream.read_spec h.stream n
  generalize e.stream.read n = x at hframe hb hc hsum ⊢
  have hrec : x.1.recvSequence = e.stream.recvSequence ∧ x.1.peerFIN = e.stream.peerFIN := by
    rw [hframe]
    exact ⟨rfl, rfl⟩
  refine .read x.2.2 ?_ ?_ rfl
  · rw [hframe]
    rfl
  · simp only [recvs, hrec, hc, hb, hsum, append_assoc, add_right_comm]

theorem Call.effect {e' : Endpoint} (hcall : Call e e') (h : e.Sound) (ha : e'.Alive) : Effect e e' := by
  cases hcall with
  | same => exact .quiet rfl rfl rfl
  | start hp hw | stop hw => exact .quiet (by simp only [sends, inProgress, hw]) rfl rfl
  | exhausted | force => cases ha.1
  | @data rest hw ho herr hfin hc =>
    obtain ⟨hne, hle⟩ := chunk_spec (h.writing rest hw) hc
    refine .data (e.chunk rest) hne hle hfin ?_ rfl (out_nil ho) rfl
    simp only [sends, inProgress, hw, append_nil]
  | @count chunk rest hw =>
    refine .quiet ?_ rfl rfl
    by_cases hrest : rest = []
    · simp only [sends, inProgress, hw, hrest, if_true, append_nil]
    · simp only [sends, inProgress, hw, hrest, if_false, append_nil]
  | read hp hz => exact read_effect h _ _ (by rw [hz]; rfl)
  | take => exact read_effect h _ _ (by rw [sum_append, sum_singleton])
  | strand hi =>
    have hsum := sum_eraseIdx hi
    refine .quiet rfl ?_ rfl
    simp only [recvs, Recvs.mk.injEq, true_and]
    omega
  | @update i credit hi ho =>
    have hsum := sum_eraseIdx hi
    refine .update credit (h.credits credit (mem_of_getElem? hi)) rfl ?_ (out_nil ho) rfl
    simp only [recvs, Stream.buffered, Recvs.mk.injEq, true_and]
    omega
  | mute => exact .mute rfl rfl rfl
  | fin hp ho herr hfin => exact .fin hfin rfl rfl (out_nil ho) rfl
  | skip hi | resetMute hi | reset hi => exact absurd ha (h.resetting hi)
  | remove hi => exact absurd (removed_alive ha) (h.removing hi)
  | check =>
    rw [retireIfComplete_eq]
    exact .quiet rfl rfl rfl

/-! ## Opening, sending and receiving -/

section

variable (h : e.Sound)

include h

theorem Sound.register (hp : e.phase = .absent) :
    ({ e with stream := .new e.stream.window 0 true, registered := true, phase := .opening } : Endpoint).Sound := by
  rw [h.absent hp]
  exact ⟨Stream.new_sound .., nofun, nofun, nofun, fun _ => ⟨rfl, rfl, rfl, rfl, rfl⟩, fun _ => ⟨rfl, rfl, nofun⟩, fun _ _ => rfl,
    fun _ hx => by simp [Stream.new] at hx, nofun⟩

/-- an accepted stream, or an opened one with its answer, becomes usable -/
theorem Sound.enabled (hp : e.phase = .incoming ∨ e.phase = .waiting)
    (hheard : e.phase = .incoming ∨ e.stream.openResult ≠ none) : ({ e with phase := .usable } : Endpoint).Sound := by
  have hback : ({ e with phase := .usable } : Endpoint).Alive → e.Alive := fun ha =>
    hp.elim (fun hp => .of_phase ha.1 hp (by decide)) fun hp => .of_phase ha.1 hp (by decide)
  exact .of_usable rfl h.stream h.credits h.writing (fun ha => h.resets (hback ha))
    (fun ha => h.heard (hback ha) (.inr hheard)) fun ha => h.retired (hback ha)

/-- a stream that is given up before it is usable -/
theorem Sound.dropped (hp : e.phase ≠ .usable) {phase : Phase} (hphase : phase = .cancelled ∨ phase = .dropped) {stream : Stream}
    (hs : stream.Sound) (resets removals : List Cause) :
    ({ e with phase := phase, stream := stream, resets := resets, removals := removals } : Endpoint).Sound := by
  have hdead : ¬({ e with phase := phase, stream := stream, resets := resets, removals := removals } : Endpoint).Alive :=
    fun ha => hphase.elim ha.2.2.1 ha.2.2.2
  refine ⟨hs, fun hx => ?_, h.credits, h.writing, fun _ => h.unused hp, fun ha => absurd ha hdead, fun ha => absurd ha hdead,
    fun ha => absurd ha hdead, fun ha => absurd ha hdead⟩
  rcases hphase with rfl | rfl <;> cases hx

theorem Sound.openIncoming (hp : e.phase = .absent) (window : ℕ) : (e.openIncoming window).Sound := by
  rw [h.absent hp]
  exact ⟨(Stream.new_sound e.stream.window window false).frame .., nofun, nofun, nofun, fun _ => ⟨rfl, rfl, rfl, rfl, rfl⟩,
    fun _ => ⟨rfl, rfl, nofun⟩, fun _ _ => rfl, fun _ _ => Nat.one_ne_zero, nofun⟩

theorem Sound.request (hp : e.phase = .opening) : ({ e with phase := .waiting } : Endpoint).Sound := by
  have hback : ({ e with phase := .waiting } : Endpoint).Alive → e.Alive := fun ha => .of_phase ha.1 hp (by decide)
  have hu : e.phase ≠ .usable := by simp [hp]
  exact ⟨h.stream, nofun, h.credits, h.writing, fun _ => h.unused hu, fun ha => h.resets (hback ha),
    fun ha _ => h.silent (hback ha) hu, fun ha hx => h.heard (hback ha) (hx.imp nofun (.imp_left nofun)),
    fun ha => h.retired (hback ha)⟩

theorem Sound.sent {c : Cell} {sender : Sender} (ho : e.outgoing = some (c, sender)) : (e.sent sender).Sound := by
  have hp : e.phase ≠ .absent := by
    intro hp
    rw [h.absent hp] at ho
    cases ho
  cases sender with
  | reset =>
    have hnot : ¬e.Alive := fun ha => (h.resets ha).2.2 _ _ ho
    exact h.dead hp h.stream hnot ..
  | _ =>
    exact { h with absent := fun hx => absurd hx hp,
                   resets := fun ha => ⟨(h.resets ha).1, (h.resets ha).2.1, nofun⟩, silent := fun _ _ => rfl }

theorem Took.sound {c : Cell} {e' : Endpoint} (hreg : e.registered = true) (htook : Took e c e') : e'.Sound := by
  have hp : e.phase ≠ .absent := by
    intro hp
    rw [h.absent hp] at hreg
    cases hreg
  cases htook with
  | failed => exact h.dead hp (.fail (h.stream.frame ..) _) (fun ha => by cases ha.1) ..
  | reset => exact h.dead hp (h.stream.frame ..) (fun ha => by cases ha.1) ..
  | passed hs hb hw =>
    exact Sound.retireIfComplete ⟨hs.sound h.stream, fun hx => absurd hx hp, h.credits, h.writing, h.unused,
      fun ha => h.resets (ha.of_eq hw rfl), fun ha => h.silent (ha.of_eq hw rfl), fun _ _ => hs.passed.1,
      fun _ hr => by cases hreg.symm.trans hr⟩

end

/-- the fields the read loop leaves alone -/
theorem handleCell_frame (c : Cell) (hreg : e.registered = true) :
    (e.handleCell c).stream.window = e.stream.window ∧ (e.handleCell c).phase = e.phase ∧ (e.handleCell c).out = e.out ∧
      ((e.handleCell c).Alive → e.Alive) := by
  have htook := handleCell_took c hreg
  generalize e.handleCell c = e' at htook
  cases htook with
  | failed | reset => exact ⟨rfl, rfl, rfl, fun ha => by cases ha.1⟩
  | passed hs hb hw =>
    rw [retireIfComplete_eq]
    exact ⟨hs.passed.2, rfl, rfl, fun ha => ha.of_eq hw rfl⟩

/-- sending changes nothing but the place of the cell -/
theorem sent_views (e : Endpoint) (sender : Sender) :
    (e.sent sender).sends = e.sends ∧ (e.sent sender).recvs = e.recvs ∧ (e.sent sender).out = [] ∧
      (e.sent sender).stream = e.stream ∧ (e.sent sender).phase = e.phase ∧ (e.sent sender).registered = e.registered := by
  cases sender <;> exact ⟨rfl, rfl, rfl, rfl, rfl, rfl⟩

end Endpoint

end NeProto.Session
