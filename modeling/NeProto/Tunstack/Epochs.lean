/-
Epoch agreement: the client's router and the server's registry migrate one flow together. MODEL: the router with all its
flows, the server's runtime with all its flows, and between them the OPEN requests the client makes for flow `f`. Each
request is a message the server may take up at any later moment, once, or never; the client learns nothing from the server
but the OPEN answer, which is sent before `Resume` runs, so `workerOpen` answers freely.

- `Attempts`: the client asks for the epoch after the last one it confirmed.
- `Matches`: the record stands at the last attempt that was attached.
- `attachSafe`: attempts reach the registry in the order they were made, after every confirmed one before them, and a
  retry of an epoch that is already attached comes over the same lease.
- `epochs_agree`: in every run that meets it `Attach` never answers `ErrFlowConflict`.
- `retry_conflicts`: the retry over another carrier after the first attempt was attached and its answer was lost.
-/
import NeProto.Proxy.ContinuityRuntime
import NeProto.Tunstack.Attempts
import NeProto.Tunstack.Migration

namespace NeProto.Tunstack

open Function List

open Continuity (Config FlowRegistry FlowRecord maxSequence)
open Proxy (Runtime Lease OpenMetadata RuntimeErr)

/-! ## Client and server -/

/-- how far `AdmitNew` has come for the flow -/
inductive Admission where
  | waiting
  | creating
  | done

structure Peers where
  client : Router
  server : Runtime
  /-- the OPEN that creates the flow -/
  opened : Option Route
  admission : Admission
  /-- the resume requests, in the order the client made them -/
  sent : List Attempt
  /-- the requests whose migration the client completed -/
  confirmed : List ℕ
  /-- the requests a `Resume` call has taken up -/
  received : List ℕ
  /-- those that have looked the flow up and not attached it yet -/
  found : List ℕ
  /-- those `Attach` accepted, in the order it did -/
  accepted : List ℕ
  /-- what the attaching part of `Resume` answered -/
  answers : List (Except RuntimeErr Unit)

namespace Peers

/-- the router of one carrier and a server without flows -/
def init (maxFlows : ℕ) (route : Route) (serverFlows perPrincipal : ℕ) : Peers where
  client := Tunstack.init maxFlows route
  server := ⟨FlowRegistry.new serverFlows perPrincipal, fun _ => false, false⟩
  opened := none
  admission := .waiting
  sent := []
  confirmed := []
  received := []
  found := []
  accepted := []
  answers := []

inductive POp where
  | client (o : Router.ROp)
  | admitCreate (upstream : ℕ)
  | admitRegister (bound : Bool)
  | resumeLookup (i : ℕ)
  | resumeAttach (i : ℕ) (replaced : Bool)
  /-- the flow's `finish`, by its relay, its migration timer, an `Abort` or `Close` -/
  | finish
  /-- a call for another flow -/
  | elsewhere (o : Runtime.RtOp)
  | close
  | closeRegistry

section

variable (C : Config) (f principal : ℕ)

/-- the flow's identifier on the wire -/
def flowID : ℕ := f + 1

/-- the lease of the carrier a request came in on -/
def leaseOf (constellationID leaseKey : ℕ) : Lease := ⟨principal, constellationID, leaseKey⟩

def metadataOf (a : Attempt) : OpenMetadata := ⟨a.constellationID, flowID f, a.leaseKey, a.epoch⟩

variable (w : Peers)

/-- the client takes a step; the requests it makes are recorded -/
def clientStep (o : Router.ROp) : Peers :=
  let client := w.client.step C o
  { w with client := client
           opened := w.opened.or (opens f w.client client)
           sent := w.sent ++ (sends f w.client.worker client.worker).toList
           confirmed := if confirms f w.client.worker client.worker then w.confirmed ++ [w.sent.length - 1] else w.confirmed }

/-- the metadata of the OPEN that creates the flow -/
def newMetadata (route : Route) : OpenMetadata := ⟨route.constellationID, flowID f, route.leaseKey, 1⟩

def admitCreate (upstream : ℕ) : Peers :=
  match w.admission, w.opened with
  | .waiting, some route =>
    let x := w.server.admitCreate (leaseOf principal route.constellationID route.leaseKey) (newMetadata f route) upstream
    { w with server := x.1, admission := if x.2 = .ok () then .creating else .done }
  | _, _ => w

def admitRegister (bound : Bool) : Peers :=
  match w.admission, w.opened with
  | .creating, some route =>
    { w with server := (w.server.admitRegister (leaseOf principal route.constellationID route.leaseKey) (newMetadata f route)
                          bound).1
             admission := .done }
  | _, _ => w

/-- `Resume` takes up the `i`-th request -/
def resumeLookup (i : ℕ) : Peers :=
  match w.sent[i]? with
  | none => w
  | some a =>
    if i ∈ w.received then w
    else
      let w := { w with received := w.received ++ [i] }
      match w.server.resumeLookup (leaseOf principal a.constellationID a.leaseKey) (metadataOf f a) with
      | .ok _ => { w with found := w.found ++ [i] }
      | .error _ => w

def resumeAttach (i : ℕ) (replaced : Bool) : Peers :=
  match w.sent[i]? with
  | none => w
  | some a =>
    if i ∈ w.found then
      let x := w.server.resumeAttach (leaseOf principal a.constellationID a.leaseKey) (metadataOf f a) replaced
      { w with server := x.1
               found := w.found.filter (· ≠ i)
               accepted := if Runtime.attached x.2 then w.accepted ++ [i] else w.accepted
               answers := w.answers ++ [x.2] }
    else w

def finish : Peers :=
  match w.opened with
  | some route => { w with server := w.server.finish principal route.constellationID (flowID f) }
  | none => w

def elsewhere (o : Runtime.RtOp) : Peers := if o.flowID = flowID f then w else { w with server := w.server.step o }

def step : POp → Peers
  | .client o => w.clientStep C f o
  | .admitCreate upstream => w.admitCreate f principal upstream
  | .admitRegister bound => w.admitRegister f principal bound
  | .resumeLookup i => w.resumeLookup f principal i
  | .resumeAttach i replaced => w.resumeAttach f principal i replaced
  | .finish => w.finish f principal
  | .elsewhere o => w.elsewhere f o
  | .close => { w with server := w.server.close }
  | .closeRegistry => { w with server := w.server.closeRegistry }

/-- every interleaving -/
def run (ops : List POp) : Peers := Machine.run (step C f principal) w ops

/-! ## The condition -/

/-- no attempt after the `i`-th one has been attached -/
def inOrder (i : ℕ) : Prop := ∀ j ∈ w.accepted, j < i

/-- the attempts before the `i`-th one that the client holds for confirmed have been attached -/
def upToDate (i : ℕ) : Prop := ∀ j ∈ w.confirmed, j < i → j ∈ w.accepted

/-- an attached attempt of the same epoch came over the same lease -/
def sameLease (i : ℕ) : Prop :=
  ∀ j ∈ w.accepted, w.sent[j]?.map Attempt.epoch = w.sent[i]?.map Attempt.epoch →
    w.sent[j]?.map Attempt.leaseKey = w.sent[i]?.map Attempt.leaseKey

instance (i : ℕ) : Decidable (w.inOrder i) := inferInstanceAs (Decidable (∀ j ∈ w.accepted, j < i))

instance (i : ℕ) : Decidable (w.upToDate i) :=
  inferInstanceAs (Decidable (∀ j ∈ w.confirmed, j < i → j ∈ w.accepted))

instance (i : ℕ) : Decidable (w.sameLease i) := inferInstanceAs (Decidable (∀ j ∈ w.accepted, _ → _))

/-- while the server has the flow, only such attempts come to `Attach` -/
def attachSafe : POp → Bool
  | .resumeAttach i _ => decide (w.server.registry.flows (flowID f) = none ∨ w.inOrder i ∧ w.upToDate i ∧ w.sameLease i)
  | _ => true

end

/-! ## The attempts -/

section

variable {C : Config} {f principal : ℕ}

/-- the `i`-th request asks for `epoch` -/
def Asks (sent : List Attempt) (i epoch : ℕ) : Prop := ∃ a, sent[i]? = some a ∧ a.epoch = epoch

variable {sent : List Attempt} {i : ℕ} {r r' : Router} {confirmed : List ℕ} {a : Attempt} {record : FlowRecord} {w : Peers}

theorem Asks.append {epoch : ℕ} (h : Asks sent i epoch) (more : List Attempt) : Asks (sent ++ more) i epoch := by
  obtain ⟨a, ha, he⟩ := h
  exact ⟨a, by rw [List.getElem?_append_left (List.getElem?_eq_some_iff.1 ha).1]; exact ha, he⟩

/-- the client asks for the epoch after the last one it confirmed -/
structure Attempts (f : ℕ) (r : Router) (sent : List Attempt) (confirmed : List ℕ) : Prop where
  planned : ∀ e, r.worker.planned f = some e → e = r.epoch f + 1
  current : ∀ a, r.worker.attempt f = some a → a.epoch = r.epoch f + 1 ∧ sent[sent.length - 1]? = some a
  epoch : r.epoch f = 1 ∨ ∃ j ∈ confirmed, Asks sent j (r.epoch f)
  bounds : ∀ a ∈ sent, 2 ≤ a.epoch ∧ a.epoch ≤ maxSequence ∧ a.epoch ≤ r.epoch f + 1
  follows : ∀ (i : ℕ) (a : Attempt), sent[i]? = some a → a.epoch = 2 ∨ ∃ j ∈ confirmed, j < i ∧ Asks sent j (a.epoch - 1)
  sorted : ∀ (i j : ℕ) (a b : Attempt), i ≤ j → sent[i]? = some a → sent[j]? = some b → a.epoch ≤ b.epoch

section

variable (h : Attempts f r sent confirmed)
include h

/-- no attempt is made -/
theorem Attempts.keep (he : r'.epoch f = r.epoch f)
    (hp : ∀ e, r'.worker.planned f = some e → e = r.epoch f + 1)
    (ha : ∀ a, r'.worker.attempt f = some a → r.worker.attempt f = some a) : Attempts f r' sent confirmed :=
  ⟨he ▸ hp, fun a hq => he ▸ h.current a (ha a hq), he ▸ h.epoch, he ▸ h.bounds, h.follows, h.sorted⟩

/-- the client makes the attempt it planned -/
theorem Attempts.send (he : r'.epoch f = r.epoch f) (hp : r.worker.planned f = some a.epoch)
    (hp' : r'.worker.planned f = none) (ha : r'.worker.attempt f = some a) (hm : 2 ≤ a.epoch ∧ a.epoch ≤ maxSequence) :
    Attempts f r' (sent ++ [a]) confirmed := by
  have hepoch := h.planned _ hp
  have hsplit : ∀ i b, (sent ++ [a])[i]? = some b → sent[i]? = some b ∨ i = sent.length ∧ b = a := by
    intro i b hb
    rcases Nat.lt_or_ge i sent.length with hi | hi
    · rw [getElem?_append_left hi] at hb
      exact .inl hb
    · have hlt := (List.getElem?_eq_some_iff.1 hb).1
      have hi' : i = sent.length := by simp at hlt; omega
      subst hi'
      simp at hb
      exact .inr ⟨rfl, hb.symm⟩
  constructor
  · intro e hq
    rw [hp'] at hq
    cases hq
  · intro b hb
    cases ha.symm.trans hb
    exact ⟨by rw [he, hepoch], by simp⟩
  · rw [he]
    exact h.epoch.imp_right fun ⟨j, hj, hasks⟩ => ⟨j, hj, hasks.append _⟩
  · intro b hb
    rw [he]
    rcases mem_append.1 hb with hb | hb
    · exact h.bounds b hb
    · obtain rfl := mem_singleton.1 hb
      exact ⟨hm.1, hm.2, hepoch.le⟩
  · intro i b hb
    rcases hsplit i b hb with hb | ⟨rfl, rfl⟩
    · exact (h.follows i b hb).imp_right fun ⟨j, hj, hlt, hasks⟩ => ⟨j, hj, hlt, hasks.append _⟩
    -- the confirmed epoch is the client's own
    rcases h.epoch with h1 | ⟨j, hj, hasks⟩
    · exact .inl (by omega)
    · obtain ⟨c, hc, hce⟩ := hasks
      exact .inr ⟨j, hj, (List.getElem?_eq_some_iff.1 hc).1, Asks.append ⟨c, hc, by omega⟩ _⟩
  · intro i j b c hij hb hc
    rcases hsplit j c hc with hc | ⟨rfl, rfl⟩
    · rw [List.getElem?_append_left (lt_of_le_of_lt hij (List.getElem?_eq_some_iff.1 hc).1)] at hb
      exact h.sorted i j b c hij hb hc
    · rcases hsplit i b hb with hb | ⟨-, rfl⟩
      · exact (h.bounds b (mem_of_getElem? hb)).2.2.trans hepoch.ge
      · exact le_rfl

/-- the attempt under way is completed -/
theorem Attempts.confirm (he : r'.epoch f = a.epoch) (ha : r.worker.attempt f = some a) (hp' : r'.worker.planned f = none)
    (ha' : r'.worker.attempt f = none) : Attempts f r' sent (confirmed ++ [sent.length - 1]) := by
  obtain ⟨hae, hlast⟩ := h.current a ha
  constructor
  · intro e hq
    rw [hp'] at hq
    cases hq
  · intro b hb
    rw [ha'] at hb
    cases hb
  · exact .inr ⟨sent.length - 1, by simp, a, hlast, he.symm⟩
  · intro b hb
    obtain ⟨h1, h2, h3⟩ := h.bounds b hb
    exact ⟨h1, h2, by omega⟩
  · intro i b hb
    exact (h.follows i b hb).imp_right fun ⟨j, hj, hlt, hasks⟩ => ⟨j, mem_append_left _ hj, hlt, hasks⟩
  · exact h.sorted

theorem Attempts.step (hr : Router.Moved f r r') :
    Attempts f r' (sent ++ (sends f r.worker r'.worker).toList)
      (if confirms f r.worker r'.worker then confirmed ++ [sent.length - 1] else confirmed) := by
  cases hr with
  | quiet he hp ha hs hc =>
    rw [hs, hc]
    simp only [Option.toList_none, append_nil, Bool.false_eq_true, if_false]
    exact h.keep he (fun e hq => h.planned e (hp e hq)) ha
  | plans he hp ha hs hc =>
    rw [hs, hc]
    simp only [Option.toList_none, append_nil, Bool.false_eq_true, if_false]
    refine h.keep he (fun e hq => ?_) fun a hq => ?_
    · exact (Option.some.inj (hp.symm.trans hq)).symm
    · cases ha.symm.trans hq
  | sends a he hp hp' ha hm hs hc =>
    rw [hs, hc]
    exact h.send he hp hp' ha hm
  | confirms a he ha hp' ha' hs hc =>
    rw [hs, hc]
    simp only [Option.toList_none, append_nil, if_true]
    exact h.confirm he ha hp' ha'

end

/-! ## The record -/

/-- the record is new, or stands at the last attempt that was attached -/
def Matches (sent : List Attempt) (accepted : List ℕ) (record : FlowRecord) : Prop :=
  accepted = [] ∧ record.epoch = 1 ∨ ∃ i a, i ∈ accepted ∧ (∀ j ∈ accepted, j ≤ i) ∧ sent[i]? = some a ∧
    record.epoch = a.epoch ∧ record.leaseKey = a.leaseKey

theorem Matches.append {accepted : List ℕ} (h : Matches sent accepted record)
    (more : List Attempt) : Matches (sent ++ more) accepted record := by
  refine h.imp_right fun ⟨i, a, hi, hmax, ha, hrest⟩ => ⟨i, a, hi, hmax, ?_, hrest⟩
  rw [List.getElem?_append_left (List.getElem?_eq_some_iff.1 ha).1]
  exact ha

/-- The next attempt is one the record takes. -/
theorem follows_of_safe (hw : Attempts f w.client w.sent w.confirmed)
    (hr : Matches w.sent w.accepted record) (ha : w.sent[i]? = some a) (hord : w.inOrder i)
    (hup : w.upToDate i) (hlease : w.sameLease i) : FlowRegistry.Follows record a.epoch a.leaseKey := by
  have hmax : maxSequence < maxUint64 := by decide
  have hone' : 1 < maxUint64 := by decide
  rcases hr with ⟨hnil, hone⟩ | ⟨k, b, hk, hlast, hb, hepoch, hkey⟩
  · -- nothing is attached, so nothing was confirmed before this attempt
    rcases hw.follows i a ha with htwo | ⟨j, hj, hlt, -⟩
    · exact .inr ⟨by omega, by omega⟩
    have hmem := hup j hj hlt
    rw [hnil] at hmem
    cases hmem
  · have hba : b.epoch ≤ a.epoch := hw.sorted k i b a (hord k hk).le hb ha
    obtain ⟨hb2, hbmax, -⟩ := hw.bounds b (mem_of_getElem? hb)
    have hclose : a.epoch ≤ b.epoch + 1 := by
      rcases hw.follows i a ha with htwo | ⟨j, hj, hlt, c, hc, hce⟩
      · omega
      -- the confirmed attempt before this one is attached, so the record has reached it
      have hcb := hw.sorted j k c b (hlast j (hup j hj hlt)) hc hb
      omega
    rcases Nat.lt_or_ge b.epoch a.epoch with hlt | hge
    · exact .inr ⟨by omega, by omega⟩
    have heq : b.epoch = a.epoch := le_antisymm hba hge
    have hsame := hlease k hk (by rw [hb, ha, Option.map_some, Option.map_some, heq])
    rw [hb, ha] at hsame
    exact .inl ⟨by omega, (Option.some.inj hsame).symm.trans hkey.symm⟩

structure Inv (f : ℕ) (w : Peers) : Prop where
  attempts : Attempts f w.client w.sent w.confirmed
  record : ∀ record, w.server.registry.flows (flowID f) = some record → Matches w.sent w.accepted record
  waiting : w.admission = .waiting → w.server.registry.flows (flowID f) = none ∧ w.accepted = []
  answers : ∀ answer ∈ w.answers, answer ≠ .error (.flow .conflict)

theorem init_inv (maxFlows : ℕ) (route : Route) (serverFlows perPrincipal : ℕ) :
    (init maxFlows route serverFlows perPrincipal).Inv f where
  attempts := by
    refine ⟨fun _ h => ?_, fun _ h => ?_, .inl rfl, fun _ h => ?_, fun _ _ h => ?_, fun _ _ _ _ _ h => ?_⟩
    all_goals cases h
  record := nofun
  waiting := fun _ => ⟨rfl, rfl⟩
  answers := nofun

/-- the server only loses the record -/
theorem Inv.lose (h : w.Inv f) {server : Runtime} {admission : Admission} (hadm : admission = .waiting → w.admission = .waiting)
    (hr : ∀ record, server.registry.flows (flowID f) = some record → w.server.registry.flows (flowID f) = some record) :
    ({ w with server := server, admission := admission } : Peers).Inv f where
  attempts := h.attempts
  record := fun record hrec => h.record record (hr record hrec)
  waiting := by
    intro hwait
    obtain ⟨hnone, hacc⟩ := h.waiting (hadm hwait)
    refine ⟨?_, hacc⟩
    cases hrec : server.registry.flows (flowID f) with
    | none => rfl
    | some record => exact absurd (hnone.symm.trans (hr record hrec)) nofun
  answers := h.answers

theorem admitCreate_inv (h : w.Inv f) (upstream : ℕ) : (w.admitCreate f principal upstream).Inv f := by
  unfold admitCreate
  split
  · rename_i route hwait _
    obtain ⟨hnone, hacc⟩ := h.waiting hwait
    refine ⟨h.attempts, fun record hrec => ?_, fun hx => ?_, h.answers⟩
    · -- the record that was made is new
      refine .inl ⟨hacc, ?_⟩
      rcases Runtime.admitCreate_flows w.server (leaseOf principal route.constellationID route.leaseKey)
        (newMetadata f route) upstream with he | ⟨-, new, hnew, he⟩
      · exact absurd (hnone.symm.trans ((congrFun he _).symm.trans hrec)) nofun
      obtain rfl : new = record := by
        have hx := (congrFun he (flowID f)).symm.trans hrec
        exact Option.some.inj ((update_self (newMetadata f route).flowID _ _).symm.trans hx)
      exact hnew
    · simp only at hx
      split_ifs at hx
  · exact h

theorem admitRegister_inv (h : w.Inv f) (bound : Bool) : (w.admitRegister f principal bound).Inv f := by
  unfold admitRegister
  split
  · rename_i route _ _
    refine h.lose nofun fun record hrec => ?_
    rcases Runtime.admitRegister_flows w.server (leaseOf principal route.constellationID route.leaseKey)
      (newMetadata f route) bound with he | he
    · exact (congrFun he _).symm.trans hrec
    · have hx := (congrFun he (flowID f)).symm.trans hrec
      exact absurd ((update_self (newMetadata f route).flowID _ _).symm.trans hx) nofun
  · exact h

theorem resumeLookup_inv (h : w.Inv f) (i : ℕ) : (w.resumeLookup f principal i).Inv f := by
  unfold resumeLookup
  split
  · exact h
  split_ifs
  · exact h
  simp only
  split <;> exact { h with }

/-- the attached attempt becomes the record -/
theorem matches_attached (ha : w.sent[i]? = some a) (hord : w.inOrder i)
    (he : record.epoch = a.epoch) (hl : record.leaseKey = a.leaseKey) : Matches w.sent (w.accepted ++ [i]) record := by
  refine .inr ⟨i, a, by simp, fun j hj => ?_, ha, he, hl⟩
  rcases mem_append.1 hj with hj | hj
  · exact (hord j hj).le
  · exact (mem_singleton.1 hj).le

theorem resumeAttach_inv (h : w.Inv f) (i : ℕ) (replaced : Bool)
    (hg : w.attachSafe f (.resumeAttach i replaced) = true) : (w.resumeAttach f principal i replaced).Inv f := by
  have hsafe := of_decide_eq_true hg
  unfold resumeAttach
  split
  · exact h
  rename_i a ha
  split_ifs
  swap
  · exact h
  generalize hx : w.server.resumeAttach (leaseOf principal a.constellationID a.leaseKey) (metadataOf f a) replaced = x
  have hc := Runtime.resumeAttach_cases w.server (leaseOf principal a.constellationID a.leaseKey) (metadataOf f a) replaced
  rw [hx] at hc
  cases hc with
  | refused he =>
    refine { h with answers := fun answer hans => ?_ }
    rcases mem_append.1 hans with hans | hans
    · exact h.answers answer hans
    · rw [mem_singleton.1 hans]
      simpa using he
  | @attached rt' answer record record' hatt hrec hrec' he hl =>
    -- a record exists, so the condition speaks about this attempt
    have hsome : w.server.registry.flows (flowID f) = some record := hrec
    rw [hsome] at hsafe
    obtain ⟨hord, -, -⟩ := hsafe.resolve_left nofun
    have hnew : rt'.registry.flows (flowID f) = some record' :=
      (congrFun hrec' _).trans (update_self (metadataOf f a).flowID _ _)
    simp only [hatt, if_true]
    refine ⟨h.attempts, fun R hR => ?_, fun hwait => ?_, fun x hx => ?_⟩
    · cases hnew.symm.trans hR
      exact matches_attached ha hord he hl
    · exact absurd ((h.waiting hwait).1.symm.trans hsome) nofun
    · rcases mem_append.1 hx with hx | hx
      · exact h.answers x hx
      rw [mem_singleton.1 hx]
      rintro rfl
      cases hatt
  | @conflict rt' record hrec hn hrec' =>
    have hsome : w.server.registry.flows (flowID f) = some record := hrec
    rw [hsome] at hsafe
    obtain ⟨hord, hup, hlease⟩ := hsafe.resolve_left nofun
    exact absurd (follows_of_safe h.attempts (h.record record hsome) ha hord hup hlease) hn

theorem step_inv (w : Peers) (o : POp) (h : w.Inv f) (hg : w.attachSafe f o = true) : (step C f principal w o).Inv f := by
  cases o with
  | client o =>
    refine ⟨h.attempts.step (w.client.step_moved C f o), fun record hrec => ?_, h.waiting, h.answers⟩
    exact (h.record record hrec).append _
  | admitCreate upstream => exact admitCreate_inv h upstream
  | admitRegister bound => exact admitRegister_inv h bound
  | resumeLookup i => exact resumeLookup_inv h i
  | resumeAttach i replaced => exact resumeAttach_inv h i replaced hg
  | finish =>
    change (w.finish f principal).Inv f
    unfold finish
    split
    · exact h.lose id fun record hrec => Runtime.release_self _ _ _ _ hrec
    · exact h
  | elsewhere o =>
    change (w.elsewhere f o).Inv f
    unfold elsewhere
    split_ifs with ho
    · exact h
    · refine h.lose id fun record hrec => ?_
      exact (Runtime.step_elsewhere w.server o (Ne.symm ho)).symm.trans hrec
  | close => exact h.lose id fun _ hrec => hrec
  | closeRegistry =>
    refine h.lose id fun record hrec => ?_
    change (FlowRegistry.close _).flows _ = _ at hrec
    unfold FlowRegistry.close at hrec
    split_ifs at hrec
    exact hrec

end

/-- only the client makes and confirms attempts -/
theorem step_attempts (C : Config) {f : ℕ} (principal : ℕ) (w : Peers) (o : POp) (h : Attempts f w.client w.sent w.confirmed) :
    Attempts f (step C f principal w o).client (step C f principal w o).sent (step C f principal w o).confirmed := by
  cases o with
  | client o => exact h.step (w.client.step_moved C f o)
  | close | closeRegistry => exact h
  | admitCreate | admitRegister | resumeLookup | resumeAttach | finish | elsewhere =>
    simp only [step, admitCreate, admitRegister, resumeLookup, resumeAttach, finish, elsewhere]
    repeat' split
    all_goals exact h

/-- **One epoch after the other**: whatever the server answers, the client asks for epochs in ascending order from 2 on, and
for a later one only after it has confirmed an attempt for the one before. -/
theorem epochs_ascend (C : Config) (f principal maxFlows : ℕ) (route : Route) (serverFlows perPrincipal : ℕ) (ops : List POp) :
    let w := run C f principal (init maxFlows route serverFlows perPrincipal) ops
    w.sent.Pairwise (fun a b => a.epoch ≤ b.epoch) ∧ ∀ i a, w.sent[i]? = some a →
      (2 ≤ a.epoch ∧ a.epoch ≤ maxSequence) ∧ (a.epoch = 2 ∨ ∃ j ∈ w.confirmed, j < i ∧ Asks w.sent j (a.epoch - 1)) := by
  have h := Machine.run_inv (I := fun w : Peers => Attempts f w.client w.sent w.confirmed) (step_attempts C principal)
    (init_inv maxFlows route serverFlows perPrincipal).attempts ops
  refine ⟨pairwise_iff_getElem.2 fun i j hi hj hij => ?_, fun i a ha => ⟨?_, h.follows i a ha⟩⟩
  · exact h.sorted i j _ _ hij.le (getElem?_eq_getElem hi) (getElem?_eq_getElem hj)
  · exact (h.bounds a (mem_of_getElem? ha)).imp_right And.left

/-- **Epoch agreement.** While the attempts reach the registry in the order they were made, none that the client holds for
confirmed is missing, and a retry of an attached epoch keeps its lease, the server never answers the flow's own client with
a conflict. -/
theorem epochs_agree (C : Config) (f principal maxFlows : ℕ) (route : Route) (serverFlows perPrincipal : ℕ) (ops : List POp)
    (hg : Machine.Guarded (step C f principal) (fun w o => w.attachSafe f o = true)
      (init maxFlows route serverFlows perPrincipal) ops) :
    ∀ answer ∈ (run C f principal (init maxFlows route serverFlows perPrincipal) ops).answers,
      answer ≠ .error (.flow .conflict) :=
  (Machine.run_inv_guarded step_inv (init_inv maxFlows route serverFlows perPrincipal) ops hg).answers

/-- the flow is open on both sides, its carrier is lost, and the worker makes the first attempt over route 2, which the
server takes up -/
def firstAttempt : List POp :=
  Router.lostFlow.map .client ++ [.admitCreate 7, .admitRegister true] ++
    [.take, .workerDetach .detachPhysical, .workerHead, .workerSelect (some 2)].map .client ++
    [.resumeLookup 0, .resumeAttach 0 true]

/-- the answer to the OPEN does not come and the worker tries again -/
def retryOver (route : ℕ) : List POp :=
  [.workerOpen (some none), .addRoute ⟨3, 3, 1, 3⟩, .workerWait true, .workerHead, .workerSelect (some route)].map .client ++
    [.resumeLookup 1, .resumeAttach 1 true]

/-- a retry over the same carrier is the same attempt for the registry -/
theorem epochs_agree_retry :
    let w := run Continuity.production 0 1 (init 8 Router.route 8 8) (firstAttempt ++ retryOver 2)
    w.answers = [.ok (), .ok ()] ∧ ∀ answer ∈ w.answers, answer ≠ .error (.flow .conflict) :=
  ⟨by decide, epochs_agree Continuity.production 0 1 8 Router.route 8 8 (firstAttempt ++ retryOver 2) (by decide)⟩

/-- **A retry kills the flow.** The first attempt is attached, its answer is lost, and the retry of the same epoch comes over
another carrier: the registry answers with a conflict and the flow is gone, while the client still migrates it. -/
theorem retry_conflicts :
    let w := run Continuity.production 0 1 (init 8 Router.route 8 8) (firstAttempt ++ retryOver 3)
    w.sent = [⟨2, 1, 2⟩, ⟨2, 1, 3⟩] ∧ w.answers = [.ok (), .error (.flow .conflict)] ∧
      w.server.registry.flows (flowID 0) = none ∧ w.server.flows (flowID 0) = false ∧
      (w.client.flows 0).any (fun F => !F.finished && F.epoch == 1) = true := by
  decide

end Peers

end NeProto.Tunstack
