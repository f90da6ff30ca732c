import Mathlib.Tactic.Common

set_option autoImplicit false

-- A popper looks at the front of a buffer and takes an item off it, waits for more bytes, or stops
-- for good. When more bytes never change what it decided, it does not matter how a stream is cut
-- into chunks.

namespace SystemProg.Stream

variable {B R : Type}

inductive Popped (B R : Type) where
  | stopped
  | waiting (left : List B)
  | item (result : R) (left : List B)

-- Pop until the popper waits or stops, with what it leaves when it waits. An item that takes
-- nothing would be popped for ever.
def drain (pop : List B → Popped B R) (buffer : List B) : Option (List R × Option (List B)) :=
  match pop buffer with
  | .stopped => some ([], none)
  | .waiting left => some ([], some left)
  | .item result left =>
      if left.length < buffer.length then
        (drain pop left).map fun later => (result :: later.1, later.2)
      else none
termination_by buffer.length

def feed (pop : List B → Popped B R) : List B → List (List B) → Option (List R × Option (List B))
  | buffer, [] => some ([], some buffer)
  | buffer, chunk :: rest =>
      match drain pop (buffer ++ chunk) with
      | none => none
      | some (results, none) => some (results, none)
      | some (results, some left) =>
          (feed pop left rest).map fun later => (results ++ later.1, later.2)

-- What the popper decides about a buffer below the limit, it decides about every extension.
structure Stable (pop : List B → Popped B R) (limit : Nat) : Prop where
  stopped : ∀ buffer more, (buffer ++ more).length < limit → pop buffer = .stopped →
    pop (buffer ++ more) = .stopped
  waiting : ∀ buffer left, buffer.length < limit → pop buffer = .waiting left → left = buffer
  item : ∀ buffer more result left, (buffer ++ more).length < limit →
    pop buffer = .item result left →
      left.length < buffer.length ∧ pop (buffer ++ more) = .item result (left ++ more)

section Rules

variable {pop : List B → Popped B R}

theorem drain_stopped {buffer : List B} (popped : pop buffer = .stopped) :
    drain pop buffer = some ([], none) := by
  rw [drain, popped]

theorem drain_waiting {buffer left : List B} (popped : pop buffer = .waiting left) :
    drain pop buffer = some ([], some left) := by
  rw [drain, popped]

theorem drain_item {buffer left : List B} {result : R} (popped : pop buffer = .item result left)
    (shorter : left.length < buffer.length) :
    drain pop buffer = (drain pop left).map fun later => (result :: later.1, later.2) := by
  rw [drain, popped]
  simp only [if_pos shorter]

variable {limit : Nat} (stable : Stable pop limit)

include stable

theorem drain_append (buffer more : List B) (bounded : (buffer ++ more).length < limit) :
    (∃ results, drain pop buffer = some (results, none) ∧
      drain pop (buffer ++ more) = some (results, none)) ∨
    ∃ results left, drain pop buffer = some (results, some left) ∧
      left.length ≤ buffer.length ∧ pop left = .waiting left ∧
      drain pop (buffer ++ more) =
        (drain pop (left ++ more)).map fun later => (results ++ later.1, later.2) := by
  induction length : buffer.length using Nat.strongRecOn generalizing buffer with
  | _ size ih =>
  cases popped : pop buffer with
  | stopped =>
      exact Or.inl ⟨[], drain_stopped popped,
        drain_stopped (stable.stopped buffer more bounded popped)⟩
  | waiting left =>
      have short : buffer.length < limit := by
        rw [List.length_append] at bounded
        omega
      cases stable.waiting buffer left short popped
      refine Or.inr ⟨[], buffer, drain_waiting popped, by omega, popped, ?_⟩
      simp
  | item result left =>
      obtain ⟨shorter, extended⟩ := stable.item buffer more result left bounded popped
      have longer : (left ++ more).length < (buffer ++ more).length := by
        simpa using shorter
      rcases ih left.length (by omega) left (by omega) rfl with
        ⟨results, front, whole⟩ | ⟨results, last, front, size, waits, whole⟩
      · refine Or.inl ⟨result :: results, ?_, ?_⟩
        · rw [drain_item popped shorter, front]
          rfl
        · rw [drain_item extended longer, whole]
          rfl
      · refine Or.inr ⟨result :: results, last, ?_, by omega, waits, ?_⟩
        · rw [drain_item popped shorter, front]
          rfl
        · rw [drain_item extended longer, whole, Option.map_map]
          rfl

theorem drain_isSome (buffer : List B) (bounded : buffer.length < limit) :
    (drain pop buffer).isSome := by
  rcases drain_append stable buffer [] (by simpa using bounded) with
    ⟨results, front, -⟩ | ⟨results, left, front, -⟩ <;> simp [front]

-- However a stream is cut into chunks, the items and the bytes left are the same.
theorem feed_eq_drain (buffer : List B) (chunks : List (List B))
    (waits : pop buffer = .waiting buffer) (bounded : (buffer ++ chunks.flatten).length < limit) :
    feed pop buffer chunks = drain pop (buffer ++ chunks.flatten) := by
  induction chunks generalizing buffer with
  | nil => simp [feed, drain_waiting waits]
  | cons chunk rest ih =>
      have regrouped : buffer ++ (chunk :: rest).flatten = (buffer ++ chunk) ++ rest.flatten := by
        simp
      rw [regrouped] at bounded ⊢
      rw [feed]
      rcases drain_append stable (buffer ++ chunk) rest.flatten bounded with
        ⟨results, front, whole⟩ | ⟨results, left, front, size, waits', whole⟩
      · rw [front, whole]
      · have next := ih left waits' (by
          simp only [List.length_append] at bounded size ⊢
          omega)
        rw [front, whole, ← next]

end Rules

end SystemProg.Stream
