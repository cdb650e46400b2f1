/-
Deciding on a byte string that arrives in chunks, with a limit on what is kept.

`decided` looks at everything that has arrived: none asks for more. A chunk that would take the kept bytes past `cap` is not looked
at, the answer is then `beyond`.

- `answer`: what a run beyond the chunks decides.
- `answer_eq`: if every prefix of a short string leaves the question open or answers it as the whole does, no cut of the string
  matters.
- `answer_beyond`: if no prefix of a long string within the limit answers anything but `beyond`, every cut answers `beyond`.
-/
import Mathlib.Tactic

namespace NeProto.Chunks

open List

variable {α β : Type} (decided : List α → Option β) (cap : ℕ) (beyond : β)

def answer : List α → List (List α) → Option β
  | _, [] => none
  | pending, chunk :: chunks =>
    if cap - pending.length < chunk.length then some beyond
    else match decided (pending ++ chunk) with
      | some outcome => some outcome
      | none => answer (pending ++ chunk) chunks

variable {decided cap beyond}

variable {pending : List α}

/-- an answer is `beyond` or was decided on -/
theorem answer_source {chunks : List (List α)} {outcome : β}
    (h : answer decided cap beyond pending chunks = some outcome) : outcome = beyond ∨ ∃ q, decided q = some outcome := by
  induction chunks generalizing pending with
  | nil => cases h
  | cons chunk chunks ih =>
    rw [answer] at h
    split at h
    · exact .inl (Option.some.inj h).symm
    split at h
    · next hd => exact .inr ⟨_, hd.trans h⟩
    · exact ih h

/-- **No cut of a short string matters.** -/
theorem answer_eq {b : List α} (hlen : b.length ≤ cap) (hstable : ∀ q, q <+: b → decided q = none ∨ decided q = decided b)
    (chunks : List (List α)) (hb : pending ++ chunks.flatten = b) (hopen : decided pending = none) :
    answer decided cap beyond pending chunks = decided b := by
  induction chunks generalizing pending with
  | nil =>
    rw [flatten_nil, append_nil] at hb
    rw [answer, ← hb, hopen]
  | cons chunk chunks ih =>
    rw [flatten_cons, ← append_assoc] at hb
    have hpre : pending ++ chunk <+: b := ⟨chunks.flatten, hb⟩
    have hfits : ¬cap - pending.length < chunk.length := by
      have hle := hpre.length_le
      rw [length_append] at hle
      omega
    rw [answer, if_neg hfits]
    cases hd : decided (pending ++ chunk) with
    | none => exact ih hb hd
    | some outcome =>
      have hsame := (hstable _ hpre).resolve_left (by rw [hd]; exact Option.some_ne_none outcome)
      rw [← hsame, hd]

/-- **Every cut of a long string gives `beyond`.** -/
theorem answer_beyond {b : List α} (hlen : cap < b.length)
    (hbeyond : ∀ q, q <+: b → q.length ≤ cap → decided q = none ∨ decided q = some beyond)
    (chunks : List (List α)) (hb : pending ++ chunks.flatten = b) (hpending : pending.length ≤ cap) :
    answer decided cap beyond pending chunks = some beyond := by
  induction chunks generalizing pending with
  | nil =>
    rw [flatten_nil, append_nil] at hb
    rw [hb] at hpending
    exact absurd hpending (by omega)
  | cons chunk chunks ih =>
    rw [flatten_cons, ← append_assoc] at hb
    rw [answer]
    by_cases hfits : cap - pending.length < chunk.length
    · rw [if_pos hfits]
    rw [if_neg hfits]
    have hkept : (pending ++ chunk).length ≤ cap := by
      rw [length_append]
      omega
    cases hd : decided (pending ++ chunk) with
    | none => exact ih hb hkept
    | some outcome =>
      have hsame := (hbeyond _ ⟨chunks.flatten, hb⟩ hkept).resolve_left (by rw [hd]; exact Option.some_ne_none outcome)
      rw [← hsame, hd]

end NeProto.Chunks
