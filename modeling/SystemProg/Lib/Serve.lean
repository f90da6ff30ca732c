import SystemProg.Lib.Stream

set_option autoImplicit false

-- A server handles each item as soon as it is popped, and may end at one. It handles the items that
-- are popped without it, up to the one that ends it.

namespace SystemProg.Stream

variable {B R S E : Type}

inductive Served (B S E : Type) where
  | waiting (state : S) (left : List B)
  | stopped (state : S)
  | ended (last : E)

def serve (pop : List B → Popped B R) (handle : S → R → Except E S) (buffer : List B) (state : S) :
    Option (Served B S E) :=
  match pop buffer with
  | .stopped => some (.stopped state)
  | .waiting left => some (.waiting state left)
  | .item result left =>
      match handle state result with
      | .error last => some (.ended last)
      | .ok state =>
          if left.length < buffer.length then serve pop handle left state else none
termination_by buffer.length

def serveAll (pop : List B → Popped B R) (handle : S → R → Except E S) :
    List B → S → List (List B) → Option (Served B S E)
  | buffer, state, [] => some (.waiting state buffer)
  | buffer, state, chunk :: rest =>
      match serve pop handle (buffer ++ chunk) state with
      | some (.waiting state left) => serveAll pop handle left state rest
      | done => done

-- Handle the items that have been popped, with what is left behind them.
def settle (handle : S → R → Except E S) : S → List R → Option (List B) → Served B S E
  | state, [], none => .stopped state
  | state, [], some left => .waiting state left
  | state, result :: rest, left =>
      match handle state result with
      | .error last => .ended last
      | .ok state => settle handle state rest left

section Rules

variable {pop : List B → Popped B R} {handle : S → R → Except E S}

theorem serve_drain {buffer : List B} {results : List R} {left : Option (List B)} (state : S)
    (drained : drain pop buffer = some (results, left)) :
    serve pop handle buffer state = some (settle handle state results left) := by
  induction length : buffer.length using Nat.strongRecOn generalizing buffer results state with
  | _ size ih =>
  rw [drain] at drained
  rw [serve]
  cases popped : pop buffer with
  | stopped | waiting =>
      rw [popped] at drained
      cases drained
      rfl
  | item result next =>
      rw [popped] at drained
      dsimp only at drained ⊢
      split at drained
      · next shorter =>
          rw [Option.map_eq_some_iff] at drained
          obtain ⟨⟨later, left'⟩, drained, same⟩ := drained
          cases same
          rw [settle]
          cases handle state result with
          | error last => rfl
          | ok state =>
              dsimp only
              rw [if_pos shorter]
              exact ih next.length (by omega) state drained rfl
      · cases drained

theorem settle_append (state : S) (front back : List R) (middle : List B)
    (left : Option (List B)) : settle handle state (front ++ back) left =
      match settle handle state front (some middle) with
      | .waiting state _ => settle handle state back left
      | .stopped state => .stopped state
      | .ended last => .ended last := by
  induction front generalizing state with
  | nil => rfl
  | cons result front ih =>
      rw [List.cons_append, settle, settle]
      cases handle state result with
      | error last => rfl
      | ok state => exact ih state

theorem settle_none (state : S) (results : List R) :
    (∃ state', settle (B := B) handle state results none = .stopped state') ∨
      ∃ last, settle (B := B) handle state results none = .ended last := by
  induction results generalizing state with
  | nil => exact Or.inl ⟨state, rfl⟩
  | cons result results ih =>
      rw [settle]
      cases handle state result with
      | error last => exact Or.inr ⟨last, rfl⟩
      | ok state => exact ih state

theorem settle_some (state : S) (results : List R) (left : List B) :
    (∃ state', settle handle state results (some left) = .waiting state' left) ∨
      ∃ last, settle handle state results (some left) = .ended last := by
  induction results generalizing state with
  | nil => exact Or.inl ⟨state, rfl⟩
  | cons result results ih =>
      rw [settle]
      cases handle state result with
      | error last => exact Or.inr ⟨last, rfl⟩
      | ok state => exact ih state

theorem serveAll_feed {buffer : List B} {chunks : List (List B)} {results : List R}
    {left : Option (List B)} (state : S) (fed : feed pop buffer chunks = some (results, left)) :
    serveAll pop handle buffer state chunks = some (settle handle state results left) := by
  induction chunks generalizing buffer results state with
  | nil =>
      cases fed
      rfl
  | cons chunk rest ih =>
      rw [feed] at fed
      rw [serveAll]
      cases drained : drain pop (buffer ++ chunk) with
      | none =>
          rw [drained] at fed
          cases fed
      | some found =>
          obtain ⟨front, middle⟩ := found
          rw [drained] at fed
          rw [serve_drain state drained]
          cases middle with
          | none =>
              have ends : (∃ state', settle (B := B) handle state front none = .stopped state') ∨
                  ∃ last, settle (B := B) handle state front none = .ended last :=
                settle_none state front
              cases fed
              rcases ends with ⟨_, done⟩ | ⟨_, done⟩ <;> rw [done]
          | some middle =>
              dsimp only at fed
              rw [Option.map_eq_some_iff] at fed
              obtain ⟨⟨back, left'⟩, fed, same⟩ := fed
              cases same
              rw [settle_append state front back middle]
              have goes : (∃ state', settle handle state front (some middle) = .waiting state' middle) ∨
                  ∃ last, settle handle state front (some middle) = .ended last :=
                settle_some state front middle
              rcases goes with ⟨_, done⟩ | ⟨_, done⟩
              · rw [done]
                exact ih _ fed
              · rw [done]

end Rules

end SystemProg.Stream
