import Mathlib.Tactic.Common

set_option autoImplicit false

-- A stream arrives in pieces, and a line is complete once its separator has arrived.

namespace SystemProg.Lines

variable {B : Type} [DecidableEq B]

-- The lines completed by the bytes, and what is then left of the line in progress.
def scan (sep : B) (current : List B) : List B → List (List B) × List B
  | [] => ([], current)
  | head :: rest =>
      if head = sep then
        let after := scan sep [] rest
        (current :: after.1, after.2)
      else scan sep (current ++ [head]) rest

def complete (sep : B) (stream : List B) : List (List B) := (scan sep [] stream).1

def pending (sep : B) (stream : List B) : List B := (scan sep [] stream).2

variable {sep : B}

theorem scan_append (current front rest : List B) :
    scan sep current (front ++ rest) =
      ((scan sep current front).1 ++ (scan sep (scan sep current front).2 rest).1,
        (scan sep (scan sep current front).2 rest).2) := by
  induction front generalizing current with
  | nil => simp [scan]
  | cons head front ih =>
      rw [List.cons_append, scan]
      split
      · next ends => simp [scan, ends, ih]
      · next goesOn => rw [ih, scan, if_neg goesOn]

theorem scan_free (current line : List B) (free : sep ∉ line) :
    scan sep current line = ([], current ++ line) := by
  induction line generalizing current with
  | nil => simp [scan]
  | cons head line ih =>
      rw [List.mem_cons, not_or] at free
      rw [scan, if_neg (Ne.symm free.1), ih _ free.2, List.append_assoc, List.singleton_append]

theorem scan_snd_free (current stream : List B) (free : sep ∉ current) :
    sep ∉ (scan sep current stream).2 := by
  induction stream generalizing current with
  | nil => exact free
  | cons head stream ih =>
      rw [scan]
      split
      · exact ih [] (by simp)
      · next goesOn => exact ih _ (by simp [free, Ne.symm goesOn])

theorem pending_free (stream : List B) : sep ∉ pending sep stream :=
  scan_snd_free [] stream (by simp)

theorem scan_pending (stream rest : List B) :
    scan sep [] (pending sep stream ++ rest) = scan sep (pending sep stream) rest := by
  rw [scan_append, scan_free [] _ (pending_free stream)]
  simp

theorem complete_append (front rest : List B) :
    complete sep (front ++ rest) =
      complete sep front ++ complete sep (pending sep front ++ rest) := by
  rw [complete, scan_append, complete, complete, scan_pending]
  rfl

theorem pending_append (front rest : List B) :
    pending sep (front ++ rest) = pending sep (pending sep front ++ rest) := by
  rw [pending, scan_append]
  exact (congrArg Prod.snd (scan_pending front rest)).symm

theorem complete_line {line : List B} (free : sep ∉ line) (rest : List B) :
    complete sep (line ++ sep :: rest) = line :: complete sep rest := by
  rw [complete, scan_append, scan_free [] line free, List.nil_append, List.nil_append, scan,
    if_pos rfl]
  rfl

theorem pending_line {line : List B} (free : sep ∉ line) (rest : List B) :
    pending sep (line ++ sep :: rest) = pending sep rest := by
  rw [pending, scan_append, scan_free [] line free, List.nil_append, scan, if_pos rfl]
  rfl

theorem complete_of_free {line : List B} (free : sep ∉ line) : complete sep line = [] := by
  rw [complete, scan_free [] line free]

theorem pending_of_free {line : List B} (free : sep ∉ line) : pending sep line = line := by
  rw [pending, scan_free [] line free, List.nil_append]

theorem pending_ended (stream : List B) : pending sep (stream ++ [sep]) = [] := by
  rw [pending, scan_append, scan, if_pos rfl]
  rfl

theorem splitOn_eq (stream : List B) :
    stream.splitOn sep = complete sep stream ++ [pending sep stream] := by
  induction length : stream.length using Nat.strongRecOn generalizing stream with
  | _ n ih =>
      by_cases mem : sep ∈ stream
      · obtain ⟨line, rest, same, free⟩ := List.eq_append_cons_of_mem mem
        have shorter : rest.length < n := by
          rw [← length, same, List.length_append, List.length_cons]
          omega
        rw [same, List.splitOn_append_cons_self_of_not_mem free, complete_line free,
          pending_line free, List.cons_append, ih rest.length shorter rest rfl]
      · rw [List.splitOn_eq_singleton mem, complete_of_free mem, pending_of_free mem,
          List.nil_append]

theorem complete_eq (stream : List B) : complete sep stream = (stream.splitOn sep).dropLast := by
  rw [splitOn_eq, List.dropLast_concat]

theorem pending_eq (stream : List B) : pending sep stream = (stream.splitOn sep).getLastD [] := by
  rw [splitOn_eq, List.getLastD_concat]

end SystemProg.Lines
