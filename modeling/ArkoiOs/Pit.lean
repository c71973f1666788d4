import Mathlib.Data.UInt
import Mathlib.Data.Nat.Notation

/-!
# Waiting for the timer

`pit_wait` of `drivers/pit.c`, interrupted by `pit_handler`.  A wait sees any
sequence of handler invocations and polls of its loop.  The target is a 32-bit sum
with a 32-bit product, compared with a counter that wraps: the wait is never short
exactly where neither the product nor the sum wraps.
-/

namespace ArkoiOs

/-- `PIT_FREQUENCY`. -/
def pitFrequency : UInt32 := 1000

/-- `pit_handler` on `g_ticks`. -/
def pitHandler (ticks : UInt32) : UInt32 := ticks + 1

/-- What `pit_wait` adds to `g_ticks`. -/
def waitTicks (milliseconds : UInt32) : UInt32 := milliseconds * pitFrequency / 1000

/-- A call of `pit_wait`: `g_ticks`, its target, how often the handler was invoked
since the call, and whether the call has returned. -/
structure PitWait where
  ticks : UInt32
  targetTicks : UInt32
  handled : ℕ
  returned : Bool
  deriving DecidableEq, Repr

/-- What happens next: an interrupt of the timer, or one test of the loop. -/
inductive PitEvent
  | handler
  | poll
  deriving DecidableEq, Repr

namespace PitWait

/-- The call, with `g_ticks` as it finds it. -/
def call (ticks milliseconds : UInt32) : PitWait where
  ticks := ticks
  targetTicks := ticks + waitTicks milliseconds
  handled := 0
  returned := false

/-- The wait after the event; `while (g_ticks < target_ticks)` ends at the first
poll that finds the target reached. -/
def step (wait : PitWait) : PitEvent → PitWait
  | .handler => { wait with ticks := pitHandler wait.ticks, handled := wait.handled + 1 }
  | .poll => if wait.ticks < wait.targetTicks then wait else { wait with returned := true }

/-- The wait after the events. -/
def run (wait : PitWait) (events : List PitEvent) : PitWait := events.foldl step wait

/-- However handler and polls interleave, the call has not returned before the
handler was invoked as often as it was asked to wait. -/
def NeverEarly (ticks milliseconds : UInt32) : Prop :=
  ∀ events, ((call ticks milliseconds).run events).returned = true →
    milliseconds.toNat ≤ ((call ticks milliseconds).run events).handled

/-! ## The counter along a wait -/

/-- The counter has wrapped with the handler invocations, and the target stays. -/
structure Counts (ticks target : UInt32) (wait : PitWait) : Prop where
  ticks : wait.ticks.toNat = (ticks.toNat + wait.handled) % 2 ^ 32
  target : wait.targetTicks = target

section Run

variable {ticks target milliseconds : UInt32} {wait : PitWait}

theorem counts_call (ticks milliseconds : UInt32) :
    Counts ticks (ticks + waitTicks milliseconds) (call ticks milliseconds) :=
  ⟨(Nat.mod_eq_of_lt ticks.toNat_lt).symm, rfl⟩

theorem Counts.step (counts : Counts ticks target wait) (event : PitEvent) :
    Counts ticks target (wait.step event) := by
  cases event with
  | handler =>
      refine ⟨?_, counts.target⟩
      change (wait.ticks + 1).toNat = (ticks.toNat + (wait.handled + 1)) % 2 ^ 32
      rw [UInt32.toNat_add, counts.ticks, Nat.mod_add_mod]
      rfl
  | poll =>
      rw [PitWait.step]
      split
      · exact counts
      · exact ⟨counts.ticks, counts.target⟩

/-- With `target` not reached before `n` invocations, the call returns after `n`. -/
theorem Counts.step_not_early {n : ℕ} (counts : Counts ticks target wait)
    (before : ∀ k < n, (ticks.toNat + k) % 2 ^ 32 < target.toNat)
    (late : wait.returned = true → n ≤ wait.handled) (event : PitEvent) :
    (wait.step event).returned = true → n ≤ (wait.step event).handled := by
  cases event with
  | handler => exact fun returned => Nat.le_succ_of_le (late returned)
  | poll =>
      rw [PitWait.step]
      split
      · exact late
      · rename_i reached
        intro _
        rw [UInt32.lt_iff_toNat_lt, counts.ticks, counts.target] at reached
        exact Nat.le_of_not_lt fun short => reached (before wait.handled short)

theorem run_not_early {n : ℕ} (counts : Counts ticks target wait)
    (before : ∀ k < n, (ticks.toNat + k) % 2 ^ 32 < target.toNat)
    (late : wait.returned = true → n ≤ wait.handled) (events : List PitEvent) :
    (wait.run events).returned = true → n ≤ (wait.run events).handled := by
  induction events generalizing wait with
  | nil => exact late
  | cons event events ih => exact ih (counts.step event) (counts.step_not_early before late event)

theorem run_concat (wait : PitWait) (events : List PitEvent) (event : PitEvent) :
    wait.run (events ++ [event]) = (wait.run events).step event := by
  rw [run, List.foldl_append]
  rfl

/-- The wait after some handler invocations and nothing else. -/
theorem run_handlers (wait : PitWait) (n : ℕ) :
    (wait.run (List.replicate n .handler)).handled = wait.handled + n := by
  induction n generalizing wait with
  | zero => rfl
  | succ n ih =>
      change (run (wait.step .handler) (List.replicate n .handler)).handled = _
      rw [ih]
      change wait.handled + 1 + n = _
      omega

theorem counts_run (counts : Counts ticks target wait) (events : List PitEvent) :
    Counts ticks target (wait.run events) := by
  induction events generalizing wait with
  | nil => exact counts
  | cons event events ih => exact ih (counts.step event)

/-- A poll after `n` invocations returns when the counter is at the target. -/
theorem returns_after (ticks milliseconds : UInt32) {n : ℕ}
    (reached : (ticks + waitTicks milliseconds).toNat ≤ (ticks.toNat + n) % 2 ^ 32) :
    ((call ticks milliseconds).run (List.replicate n .handler ++ [.poll])).returned = true ∧
      ((call ticks milliseconds).run (List.replicate n .handler ++ [.poll])).handled = n := by
  have counts := counts_run (counts_call ticks milliseconds) (List.replicate n .handler)
  have handled : ((call ticks milliseconds).run (List.replicate n .handler)).handled = n :=
    (run_handlers _ n).trans (Nat.zero_add n)
  rw [run_concat]
  generalize (call ticks milliseconds).run (List.replicate n .handler) = wait at counts handled
  have stop : ¬ wait.ticks < wait.targetTicks := by
    rw [UInt32.lt_iff_toNat_lt, counts.ticks, counts.target, handled]
    exact Nat.not_lt.2 reached
  rw [step, if_neg stop]
  exact ⟨rfl, handled⟩

end Run

/-! ## The target -/

section Target

variable {ticks milliseconds : UInt32}

theorem waitTicks_toNat (milliseconds : UInt32) :
    (waitTicks milliseconds).toNat = milliseconds.toNat * 1000 % 2 ^ 32 / 1000 := by
  rw [waitTicks, UInt32.toNat_div, UInt32.toNat_mul]
  rfl

/-- A product that wraps is cut to fewer ticks. -/
theorem waitTicks_lt (wraps : 2 ^ 32 ≤ milliseconds.toNat * 1000) :
    (waitTicks milliseconds).toNat < milliseconds.toNat := by
  rw [waitTicks_toNat]
  omega

theorem waitTicks_eq (fits : milliseconds.toNat * 1000 < 2 ^ 32) :
    (waitTicks milliseconds).toNat = milliseconds.toNat := by
  rw [waitTicks_toNat, Nat.mod_eq_of_lt fits]
  exact Nat.mul_div_cancel _ (by omega)

/-- `pit_wait` never returns early if and only if neither the product nor the sum
of its target wraps. -/
theorem neverEarly_iff (ticks milliseconds : UInt32) :
    NeverEarly ticks milliseconds ↔
      milliseconds.toNat * 1000 < 2 ^ 32 ∧ ticks.toNat + milliseconds.toNat < 2 ^ 32 := by
  have width := ticks.toNat_lt
  have sum : (ticks + waitTicks milliseconds).toNat =
      (ticks.toNat + (waitTicks milliseconds).toNat) % 2 ^ 32 := UInt32.toNat_add ..
  constructor
  · intro never
    -- a poll that finds the counter at the target after fewer invocations
    have late : ∀ n, (ticks + waitTicks milliseconds).toNat ≤ (ticks.toNat + n) % 2 ^ 32 →
        milliseconds.toNat ≤ n := by
      intro n reached
      obtain ⟨returned, handled⟩ := returns_after ticks milliseconds reached
      rw [← handled]
      exact never _ returned
    have fits : milliseconds.toNat * 1000 < 2 ^ 32 := by
      by_contra wraps
      have short := waitTicks_lt (Nat.le_of_not_lt wraps)
      exact Nat.not_le.2 short (late _ sum.le)
    refine ⟨fits, ?_⟩
    by_contra wraps
    have all := waitTicks_eq fits
    have now := late 0 (by omega)
    omega
  · intro ⟨fits, below⟩ events
    have all := waitTicks_eq fits
    refine run_not_early (counts_call ticks milliseconds) (fun k short => ?_) nofun events
    omega

end Target

/-- At one tick before the counter wraps, a wait for one millisecond returns at its
first poll. -/
theorem lastTick_returns_early :
    ((call 0xFFFFFFFF 1).run [.poll]).returned = true ∧
      ((call 0xFFFFFFFF 1).run [.poll]).handled = 0 ∧ ¬ NeverEarly 0xFFFFFFFF 1 := by
  have returned : ((call 0xFFFFFFFF 1).run [.poll]).returned = true := by decide
  have handled : ((call 0xFFFFFFFF 1).run [.poll]).handled = 0 := by decide
  refine ⟨returned, handled, fun never => ?_⟩
  have late := never [.poll] returned
  rw [handled] at late
  exact absurd late (by decide)

end PitWait

end ArkoiOs
