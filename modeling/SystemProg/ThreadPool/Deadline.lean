import SystemProg.Lib.TowardZero
import SystemProg.ThreadPool.Model

set_option autoImplicit false

-- The deadline of `thread_task_timed_join`. The timeout is read as a rational, and `time_t` and
-- `long` have 64 bits. `none` stands for an overflow, whose behaviour is undefined.

namespace SystemProg.ThreadPool

def Fits (x : Int) : Prop := -9223372036854775808 ≤ x ∧ x < 9223372036854775808

instance (x : Int) : Decidable (Fits x) := by
  unfold Fits
  infer_instance

def int64 (x : Int) : Option Int := if Fits x then some x else none

structure Timespec where
  sec : Int
  nsec : Int
deriving DecidableEq

namespace Timespec

def Normalised (ts : Timespec) : Prop := 0 ≤ ts.nsec ∧ ts.nsec < 1000000000

instance (ts : Timespec) : Decidable ts.Normalised := by
  unfold Normalised
  infer_instance

def seconds (ts : Timespec) : ℚ := ts.sec + ts.nsec / 1000000000

def Rounds (ts : Timespec) (moment : ℚ) : Prop := |ts.seconds - moment| < 1 / 1000000000

def latest : Timespec := { sec := 9223372036854775807, nsec := 999999999 }

end Timespec

-- What `clock_gettime` answers.
structure ClockReading extends Timespec where
  fits : Fits sec
  normalised : toTimespec.Normalised

def Representable (moment : ℚ) : Prop :=
  ∃ reading : ClockReading, reading.Rounds moment

-- The `struct timespec` that `thread_task_timed_join` makes from the clock and the timeout. The
-- nanoseconds are an exact product here, where the program rounds it to a `double`.
def deadline (ts : Timespec) (timeout : ℚ) : Option Timespec :=
  (int64 (towardZero timeout)).bind fun whole =>
  (int64 (ts.sec + whole)).bind fun sec =>
  (int64 (towardZero ((timeout - whole) * 1000000000))).bind fun part =>
  (int64 (ts.nsec + part)).bind fun nsec =>
    if 1000000000 ≤ nsec then
      (int64 (sec + nsec.tdiv 1000000000)).map fun sec =>
        { sec := sec, nsec := nsec.tmod 1000000000 }
    else some { sec := sec, nsec := nsec }

inductive WaitResult where
  | ok
  | timedOut
  | invalid
deriving DecidableEq

-- How a wait ends: whether the time has passed, and the state of the task by then.
structure Wake where
  timedOut : Bool
  state : TaskState

-- A time that is not normalised is refused at once, with the mutex held all the time.
def condTimedwait (ts : Timespec) (state : TaskState) (wake : Wake) : WaitResult × TaskState :=
  if ts.Normalised then (if wake.timedOut then .timedOut else .ok, wake.state)
  else (.invalid, state)

-- The code that the loop leaves with, and `none` as long as it goes on.
def waitLoop (ts : Timespec) (state : TaskState) : List Wake → Option Code
  | [] => if state = .finished ∨ state = .joined then some .ok else none
  | wake :: wakes =>
      if state = .finished ∨ state = .joined then some .ok
      else
        match condTimedwait ts state wake with
        | (.timedOut, _) => some .timeout
        | (_, state) => waitLoop ts state wakes

namespace ClockReading

structure Waits (now : ClockReading) (timeout : ℚ) (ts : Timespec) : Prop where
  normalised : ts.Normalised
  rounds : Representable (now.seconds + timeout) → ts.Rounds (now.seconds + timeout)
  saturates : ¬Representable (now.seconds + timeout) → ts = .latest
  accepted : ∀ state wake, (condTimedwait ts state wake).1 ≠ .invalid
  leaves : ∀ state wakes, (∃ wake ∈ wakes, wake.timedOut = true) → waitLoop ts state wakes ≠ none

def MeetsDeadline (now : ClockReading) (timeout : ℚ) : Prop :=
  ∃ ts, deadline now.toTimespec timeout = some ts ∧ now.Waits timeout ts

-- The timeout fits into 64 bits, its sum with the clock is representable, and what a negative
-- timeout has behind the point is less than the nanoseconds of the clock and one more.
def Handles (now : ClockReading) (timeout : ℚ) : Prop :=
  (-9223372036854775809 < timeout ∧ timeout < 9223372036854775808) ∧
    Representable (now.seconds + timeout) ∧
      -(now.nsec + 1 : ℚ) < (timeout - towardZero timeout) * 1000000000

end ClockReading

theorem representable_iff (moment : ℚ) : Representable moment ↔
    -9223372036854775808 - 1 / 1000000000 < moment ∧ moment < 9223372036854775808 := by
  constructor
  · rintro ⟨⟨⟨sec, nsec⟩, ⟨lowest, highest⟩, notNegative, below⟩, rounds⟩
    obtain ⟨above, beneath⟩ := abs_lt.mp rounds
    have lowest : (-9223372036854775808 : ℚ) ≤ sec := by exact_mod_cast lowest
    have highest : (sec : ℚ) ≤ 9223372036854775807 := by exact_mod_cast Int.le_of_lt_add_one highest
    have notNegative : (0 : ℚ) ≤ nsec := by exact_mod_cast notNegative
    have below : (nsec : ℚ) ≤ 999999999 := by exact_mod_cast Int.le_of_lt_add_one below
    simp only [Timespec.seconds] at above beneath
    constructor <;> linarith
  · rintro ⟨above, below⟩
    rcases lt_or_ge moment (-9223372036854775808) with early | inside
    · refine ⟨⟨⟨-9223372036854775808, 0⟩, by decide, by decide⟩, abs_lt.mpr ?_⟩
      simp only [Timespec.seconds]
      constructor <;> push_cast <;> linarith
    · have le := Rat.floor_le moment
      have lt : moment < moment.floor + 1 := by exact_mod_cast Rat.lt_floor_add_one moment
      have le' := Rat.floor_le ((moment - moment.floor) * 1000000000)
      have lt' : (moment - moment.floor) * 1000000000 <
          ((moment - moment.floor) * 1000000000).floor + 1 := by
        exact_mod_cast Rat.lt_floor_add_one ((moment - moment.floor) * 1000000000)
      have lowest : -9223372036854775808 ≤ moment.floor :=
        Rat.le_floor_iff.mpr (by exact_mod_cast inside)
      have highest : moment.floor < 9223372036854775808 :=
        Rat.floor_lt_iff.mpr (by exact_mod_cast below)
      have notNegative : 0 ≤ ((moment - moment.floor) * 1000000000).floor :=
        Rat.le_floor_iff.mpr (by push_cast; linarith)
      have beneath : ((moment - moment.floor) * 1000000000).floor < 1000000000 :=
        Rat.floor_lt_iff.mpr (by push_cast; linarith)
      refine ⟨⟨⟨moment.floor, ((moment - moment.floor) * 1000000000).floor⟩, ⟨lowest, highest⟩,
        notNegative, beneath⟩, abs_lt.mpr ?_⟩
      simp only [Timespec.seconds]
      constructor <;> linarith

def nanoseconds (timeout : ℚ) : Int := towardZero ((timeout - towardZero timeout) * 1000000000)

theorem nanoseconds_nonneg {timeout : ℚ} (sign : 0 ≤ timeout) :
    0 ≤ nanoseconds timeout ∧ nanoseconds timeout < 1000000000 ∧
      (nanoseconds timeout : ℚ) ≤ (timeout - towardZero timeout) * 1000000000 := by
  obtain ⟨-, le, lt⟩ := towardZero_nonneg sign
  obtain ⟨notNegative, le', -⟩ := towardZero_nonneg
    (show 0 ≤ (timeout - towardZero timeout) * 1000000000 by linarith)
  refine ⟨notNegative, ?_, le'⟩
  have below : (nanoseconds timeout : ℚ) < 1000000000 := by
    refine lt_of_le_of_lt le' ?_
    linarith
  exact_mod_cast below

theorem nanoseconds_neg {timeout : ℚ} (sign : timeout < 0) :
    nanoseconds timeout ≤ 0 ∧ -1000000000 < nanoseconds timeout ∧
      (timeout - towardZero timeout) * 1000000000 ≤ nanoseconds timeout := by
  obtain ⟨-, le, lt⟩ := towardZero_neg sign
  have part : (timeout - towardZero timeout) * 1000000000 ≤ 0 := by linarith
  have rounded : nanoseconds timeout ≤ 0 ∧
      (timeout - towardZero timeout) * 1000000000 ≤ nanoseconds timeout := by
    rcases lt_or_eq_of_le part with negative | none
    · obtain ⟨notPositive, le', -⟩ := towardZero_neg negative
      exact ⟨notPositive, le'⟩
    · rw [nanoseconds, none]
      decide
  refine ⟨rounded.1, ?_, rounded.2⟩
  have above : (-1000000000 : ℚ) < nanoseconds timeout := by
    refine lt_of_lt_of_le ?_ rounded.2
    linarith
  exact_mod_cast above

theorem int64_eq_some {x y : Int} : int64 x = some y ↔ Fits x ∧ x = y := by
  rw [int64]
  split <;> simp_all

theorem deadline_eq_some (now : ClockReading) {timeout : ℚ} {ts : Timespec} :
    deadline now.toTimespec timeout = some ts ↔
      Fits (towardZero timeout) ∧ Fits (now.sec + towardZero timeout) ∧
        if 1000000000 ≤ now.nsec + nanoseconds timeout then
          Fits (now.sec + towardZero timeout + 1) ∧
            ts = { sec := now.sec + towardZero timeout + 1
                   nsec := now.nsec + nanoseconds timeout - 1000000000 }
        else
          ts = { sec := now.sec + towardZero timeout, nsec := now.nsec + nanoseconds timeout } := by
  obtain ⟨notNegative, below⟩ := now.normalised
  have small : -1000000000 < nanoseconds timeout ∧ nanoseconds timeout < 1000000000 := by
    rcases le_or_gt 0 timeout with sign | sign
    · have bounds := nanoseconds_nonneg sign
      omega
    · have bounds := nanoseconds_neg sign
      omega
  have part : Fits (nanoseconds timeout) ∧ Fits (now.nsec + nanoseconds timeout) := by
    unfold Fits
    omega
  have carried : 1000000000 ≤ now.nsec + nanoseconds timeout →
      (now.nsec + nanoseconds timeout).tdiv 1000000000 = 1 ∧
        (now.nsec + nanoseconds timeout).tmod 1000000000 =
          now.nsec + nanoseconds timeout - 1000000000 := by
    intro carry
    rw [Int.tdiv_eq_ediv_of_nonneg (by omega), Int.tmod_eq_emod_of_nonneg (by omega)]
    omega
  have whole : deadline now.toTimespec timeout = some ts ↔
      Fits (towardZero timeout) ∧ Fits (now.sec + towardZero timeout) ∧
        (if 1000000000 ≤ now.nsec + nanoseconds timeout then
          (int64 (now.sec + towardZero timeout +
            (now.nsec + nanoseconds timeout).tdiv 1000000000)).map fun sec =>
              { sec := sec, nsec := (now.nsec + nanoseconds timeout).tmod 1000000000 }
        else some { sec := now.sec + towardZero timeout
                    nsec := now.nsec + nanoseconds timeout }) = some ts := by
    simp only [deadline, Option.bind_eq_some_iff, int64_eq_some]
    constructor
    · rintro ⟨_, ⟨fits, rfl⟩, _, ⟨fits', rfl⟩, _, ⟨-, rfl⟩, _, ⟨-, rfl⟩, rest⟩
      exact ⟨fits, fits', rest⟩
    · rintro ⟨fits, fits', rest⟩
      exact ⟨_, ⟨fits, rfl⟩, _, ⟨fits', rfl⟩, _, ⟨part.1, rfl⟩, _, ⟨part.2, rfl⟩, rest⟩
  rw [whole]
  refine and_congr_right fun _ => and_congr_right fun _ => ?_
  split
  · next carry =>
      obtain ⟨one, left⟩ := carried carry
      simp only [one, left, Option.map_eq_some_iff, int64_eq_some]
      constructor
      · rintro ⟨_, ⟨fits, rfl⟩, rfl⟩
        exact ⟨fits, rfl⟩
      · rintro ⟨fits, rfl⟩
        exact ⟨_, ⟨fits, rfl⟩, rfl⟩
  · rw [Option.some.injEq, eq_comm]

namespace ClockReading

variable {now : ClockReading} {timeout : ℚ} {ts : Timespec}

theorem deadline_rounds (made : deadline now.toTimespec timeout = some ts) :
    ts.Rounds (now.seconds + timeout) := by
  obtain ⟨-, -, rest⟩ := (deadline_eq_some now).mp made
  obtain ⟨above, below⟩ :=
    abs_lt.mp (towardZero_near ((timeout - towardZero timeout) * 1000000000))
  rw [← nanoseconds] at above below
  refine abs_lt.mpr ?_
  split at rest
  · obtain ⟨-, rfl⟩ := rest
    simp only [Timespec.seconds]
    push_cast
    constructor <;> linarith
  · subst rest
    simp only [Timespec.seconds]
    push_cast
    constructor <;> linarith

theorem deadline_fits (made : deadline now.toTimespec timeout = some ts) : Fits ts.sec := by
  obtain ⟨-, fits, rest⟩ := (deadline_eq_some now).mp made
  split at rest
  · obtain ⟨fits', rfl⟩ := rest
    exact fits'
  · subst rest
    exact fits

-- There is no borrow: the nanoseconds are normalised if they are not negative.
theorem deadline_normalised (made : deadline now.toTimespec timeout = some ts) :
    ts.Normalised ↔ 0 ≤ now.nsec + nanoseconds timeout := by
  obtain ⟨-, -, rest⟩ := (deadline_eq_some now).mp made
  obtain ⟨notNegative, below⟩ := now.normalised
  have small : nanoseconds timeout < 1000000000 := by
    rcases le_or_gt 0 timeout with sign | sign
    · exact (nanoseconds_nonneg sign).2.1
    · have bounds := nanoseconds_neg sign
      omega
  unfold Timespec.Normalised
  split at rest
  · obtain ⟨-, rfl⟩ := rest
    dsimp only
    omega
  · subst rest
    dsimp only
    omega

theorem borrows_iff : -(now.nsec + 1 : ℚ) < (timeout - towardZero timeout) * 1000000000 ↔
    0 ≤ now.nsec + nanoseconds timeout := by
  obtain ⟨notNegative, -⟩ := now.normalised
  have positive : (0 : ℚ) ≤ now.nsec := by exact_mod_cast notNegative
  rcases le_or_gt 0 timeout with sign | sign
  · obtain ⟨part, -, le⟩ := nanoseconds_nonneg sign
    have part' : (0 : ℚ) ≤ nanoseconds timeout := by exact_mod_cast part
    constructor
    · intro _
      omega
    · intro _
      linarith
  · obtain ⟨-, -, le⟩ := nanoseconds_neg sign
    obtain ⟨-, below⟩ :=
      abs_lt.mp (towardZero_near ((timeout - towardZero timeout) * 1000000000))
    rw [← nanoseconds] at below
    constructor
    · intro above
      have later : (-1 : ℚ) < now.nsec + nanoseconds timeout := by linarith
      have later : -1 < now.nsec + nanoseconds timeout := by exact_mod_cast later
      omega
    · intro enough
      have enough : (0 : ℚ) ≤ now.nsec + nanoseconds timeout := by exact_mod_cast enough
      linarith

theorem deadline_made (fits : -9223372036854775809 < timeout ∧ timeout < 9223372036854775808)
    (representable : Representable (now.seconds + timeout)) :
    ∃ ts, deadline now.toTimespec timeout = some ts := by
  obtain ⟨above, below⟩ := (representable_iff _).mp representable
  obtain ⟨notNegative, beneath⟩ := now.normalised
  have late : (now.nsec : ℚ) ≤ 999999999 := by exact_mod_cast Int.le_of_lt_add_one beneath
  have early : (0 : ℚ) ≤ now.nsec := by exact_mod_cast notNegative
  simp only [Timespec.seconds] at above below
  have inside := now.fits
  have whole : Fits (towardZero timeout) ∧ Fits (now.sec + towardZero timeout) ∧
      (1000000000 ≤ now.nsec + nanoseconds timeout →
        Fits (now.sec + towardZero timeout + 1)) := by
    unfold Fits at *
    rcases le_or_gt 0 timeout with sign | sign
    · obtain ⟨positive, le, -⟩ := towardZero_nonneg sign
      obtain ⟨-, -, le'⟩ := nanoseconds_nonneg sign
      have small : (towardZero timeout : ℚ) < 9223372036854775808 := by linarith
      have small : towardZero timeout < 9223372036854775808 := by exact_mod_cast small
      have sum : (now.sec + towardZero timeout : ℚ) < 9223372036854775808 := by linarith
      have sum : now.sec + towardZero timeout < 9223372036854775808 := by exact_mod_cast sum
      refine ⟨by omega, by omega, fun carry => ?_⟩
      have carry : (1000000000 : ℚ) ≤ now.nsec + nanoseconds timeout := by exact_mod_cast carry
      have more : (now.sec + towardZero timeout + 1 : ℚ) < 9223372036854775808 := by linarith
      have more : now.sec + towardZero timeout + 1 < 9223372036854775808 := by exact_mod_cast more
      omega
    · obtain ⟨negative, le, -⟩ := towardZero_neg sign
      obtain ⟨part, -, -⟩ := nanoseconds_neg sign
      have large : (-9223372036854775809 : ℚ) < towardZero timeout := by linarith
      have large : -9223372036854775809 < towardZero timeout := by exact_mod_cast large
      have sum : (-9223372036854775809 : ℚ) < now.sec + towardZero timeout := by linarith
      have sum : -9223372036854775809 < now.sec + towardZero timeout := by exact_mod_cast sum
      refine ⟨by omega, by omega, fun carry => ?_⟩
      omega
  by_cases carry : 1000000000 ≤ now.nsec + nanoseconds timeout
  · exact ⟨_, (deadline_eq_some now).mpr ⟨whole.1, whole.2.1, by
      rw [if_pos carry]
      exact ⟨whole.2.2 carry, rfl⟩⟩⟩
  · exact ⟨_, (deadline_eq_some now).mpr ⟨whole.1, whole.2.1, by rw [if_neg carry]⟩⟩

end ClockReading

theorem condTimedwait_invalid {ts : Timespec} {state : TaskState} {wake : Wake} :
    (condTimedwait ts state wake).1 = .invalid ↔ ¬ts.Normalised := by
  unfold condTimedwait
  split
  · next normalised => cases wake.timedOut <;> simp [normalised]
  · next not => simp [not]

theorem waitLoop_leaves {ts : Timespec} (normalised : ts.Normalised) {state : TaskState}
    {wakes : List Wake} (passes : ∃ wake ∈ wakes, wake.timedOut = true) :
    waitLoop ts state wakes ≠ none := by
  induction wakes generalizing state with
  | nil =>
      obtain ⟨wake, member, -⟩ := passes
      cases member
  | cons wake wakes ih =>
      unfold waitLoop
      split
      · simp
      · unfold condTimedwait
        rw [if_pos normalised]
        cases timedOut : wake.timedOut with
        | true => simp
        | false =>
            obtain ⟨later, member, passed⟩ := passes
            rcases List.mem_cons.mp member with rfl | member
            · rw [timedOut] at passed
              cases passed
            · exact ih ⟨later, member, passed⟩

theorem waitLoop_spins {ts : Timespec} (unnormalised : ¬ts.Normalised) {state : TaskState}
    (busy : state ≠ .finished ∧ state ≠ .joined) (wakes : List Wake) :
    waitLoop ts state wakes = none := by
  induction wakes with
  | nil => simp [waitLoop, busy]
  | cons wake wakes ih =>
      unfold waitLoop
      rw [if_neg (by simp [busy]), condTimedwait, if_neg unnormalised]
      exact ih

theorem ClockReading.meetsDeadline_iff (now : ClockReading) (timeout : ℚ) :
    now.MeetsDeadline timeout ↔ now.Handles timeout := by
  constructor
  · rintro ⟨ts, made, waits⟩
    have enough := (deadline_normalised made).mp waits.normalised
    obtain ⟨whole, -, -⟩ := (deadline_eq_some now).mp made
    refine ⟨?_, ⟨⟨ts, deadline_fits made, waits.normalised⟩, deadline_rounds made⟩,
      borrows_iff.mpr enough⟩
    obtain ⟨above, below⟩ := whole
    have above : (-9223372036854775808 : ℚ) ≤ towardZero timeout := by exact_mod_cast above
    have below : (towardZero timeout : ℚ) ≤ 9223372036854775807 := by
      exact_mod_cast Int.le_of_lt_add_one below
    obtain ⟨high, low⟩ := abs_lt.mp (towardZero_near timeout)
    constructor <;> linarith
  · rintro ⟨fits, representable, enough⟩
    have enough := borrows_iff.mp enough
    obtain ⟨ts, made⟩ := deadline_made fits representable
    have normalised := (deadline_normalised made).mpr enough
    exact ⟨ts, made, normalised, fun _ => deadline_rounds made,
      fun not => absurd representable not,
      fun _ _ refused => condTimedwait_invalid.mp refused normalised,
      fun _ _ => waitLoop_leaves normalised⟩

def wholeSecond : ClockReading where
  sec := 100
  nsec := 0
  fits := by decide
  normalised := by decide

theorem deadline_spins : ¬wholeSecond.MeetsDeadline (-1 / 2) ∧
    ∀ ts, deadline wholeSecond.toTimespec (-1 / 2) = some ts →
      ∀ wakes, waitLoop ts .running wakes = none := by
  have made : deadline wholeSecond.toTimespec (-1 / 2) =
      some { sec := 100, nsec := -500000000 } := by decide +kernel
  have unnormalised : ¬Timespec.Normalised { sec := 100, nsec := -500000000 } := by decide
  constructor
  · rintro ⟨ts, made', waits⟩
    cases made.symm.trans made'
    exact unnormalised waits.normalised
  · intro ts made'
    cases made.symm.trans made'
    exact waitLoop_spins unnormalised (by decide)

end SystemProg.ThreadPool
