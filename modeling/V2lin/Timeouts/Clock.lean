import V2lin.Arith.Words
import Mathlib.Tactic.Ring

/-! Timeouts in ticks, and the deadlines made of them.

A wait of some ticks is turned into microseconds in `int`, added to the time of day and
split into seconds and nanoseconds. What comes out is the time that the ticks denote if the
product fits an `int`, and for no other number of ticks; it is a time of day unless the sum
is one second, which is not carried. The time of day and the deadlines made of it are
integers here, and what the polling loops make of a deadline is the `long`s and the unsigned
word that they store it in. -/
namespace V2lin.Timeouts
open V2lin.Arith

/-- `V2PT_TICK`, in milliseconds. -/
def v2ptTick : ℤ := 10

/-- `struct timeval`, as `gettimeofday` fills it. -/
structure Timeval where
  tvSec : ℤ
  tvUsec : ℤ
  usec_nonneg : 0 ≤ tvUsec
  usec_lt : tvUsec < 1000000

/-- `struct timespec`. -/
structure Timespec where
  tvSec : ℤ
  tvNsec : ℤ

/-- The time in nanoseconds. -/
def Timeval.ns (now : Timeval) : ℤ := now.tvSec * 1000000000 + now.tvUsec * 1000

/-- The time in nanoseconds. -/
def Timespec.ns (timeout : Timespec) : ℤ := timeout.tvSec * 1000000000 + timeout.tvNsec

/-! ### From ticks to a deadline -/

/-- `ticks * V2PT_TICK * 1000`, an `int`. -/
def delayUsec (ticks : ℤ) : ℤ := toSigned 32 (toSigned 32 (ticks * v2ptTick) * 1000)

/-- The calculation that the timed waits share. -/
def deadline (ticks : ℤ) (now : Timeval) : Timespec :=
  let usec := delayUsec ticks + now.tvUsec
  if usec > 1000000 then ⟨now.tvSec + usec.tdiv 1000000, usec.tmod 1000000 * 1000⟩
  else ⟨now.tvSec, usec * 1000⟩

/-- The deadline in `wait_for_token`. -/
def waitForTokenDeadline (maxWait : ℤ) (now : Timeval) : Timespec := deadline maxWait now

/-- The deadline in `waitToSend`. -/
def waitToSendDeadline (wait : ℤ) (now : Timeval) : Timespec := deadline wait now

/-- The deadline in `msgQReceive`. -/
def msgQReceiveDeadline (maxWait : ℤ) (now : Timeval) : Timespec := deadline maxWait now

/-- What `taskDelay` passes to `usleep`, whose argument is unsigned. -/
def taskDelayUsec (interval : ℤ) : ℤ := toUnsigned 32 (delayUsec interval)

variable {w : ℤ} {now : Timeval} {timeout : Timespec}

theorem delayUsec_of_fits (hpos : 0 < w) (h : FitsSigned 32 (w * v2ptTick * 1000)) :
    delayUsec w = w * v2ptTick * 1000 := by
  have hticks : FitsSigned 32 (w * v2ptTick) := by
    unfold FitsSigned v2ptTick at h ⊢
    omega
  rw [delayUsec, toSigned_of_fits hticks, toSigned_of_fits h]

/-- The product is the interval only if it fits. -/
theorem delayUsec_eq_iff (hpos : 0 < w) : delayUsec w = w * v2ptTick * 1000 ↔ FitsSigned 32 (w * v2ptTick * 1000) := by
  constructor
  · intro heq
    rw [← heq]
    exact toSigned_fits 32 _
  · exact delayUsec_of_fits hpos

theorem fits_iff (hpos : 0 < w) : FitsSigned 32 (w * v2ptTick * 1000) ↔ w ≤ 214748 := by
  unfold FitsSigned v2ptTick
  omega

/-- The carry moves whole seconds only. -/
theorem deadline_ns (w : ℤ) (now : Timeval) : (deadline w now).ns = now.ns + delayUsec w * 1000 := by
  unfold deadline Timespec.ns Timeval.ns
  simp only
  split
  · have hsplit := Int.mul_tdiv_add_tmod (delayUsec w + now.tvUsec) 1000000
    simp only
    omega
  · simp only
    ring

theorem deadline_exact_iff (now : Timeval) (hpos : 0 < w) :
    (deadline w now).ns = now.ns + w * v2ptTick * 1000000 ↔ w ≤ 214748 := by
  rw [deadline_ns, ← fits_iff hpos, ← delayUsec_eq_iff hpos]
  omega

theorem taskDelayUsec_of_fits (hpos : 0 < w) (h : FitsSigned 32 (w * v2ptTick * 1000)) :
    taskDelayUsec w = w * v2ptTick * 1000 := by
  rw [taskDelayUsec, delayUsec_of_fits hpos h]
  refine toUnsigned_of_fits ⟨?_, ?_⟩
  · unfold v2ptTick
    omega
  · unfold FitsSigned at h
    omega

/-- A `tv_nsec` that denotes a part of a second. -/
def Timespec.Proper (timeout : Timespec) : Prop := 0 ≤ timeout.tvNsec ∧ timeout.tvNsec < 1000000000

instance (timeout : Timespec) : Decidable timeout.Proper := inferInstanceAs (Decidable (_ ∧ _))

/-- The carry is left out when the sum is one second, and that is the only time. -/
theorem deadline_proper_iff (hpos : 0 < w) (hfits : FitsSigned 32 (w * v2ptTick * 1000)) :
    (deadline w now).Proper ↔ w * v2ptTick * 1000 + now.tvUsec ≠ 1000000 := by
  have hnow := now.usec_nonneg
  have hdelay : 0 < w * v2ptTick * 1000 := by
    unfold v2ptTick
    omega
  simp only [Timespec.Proper, deadline, delayUsec_of_fits hpos hfits]
  split
  · have hcarry : (w * v2ptTick * 1000 + now.tvUsec).tmod 1000000 = (w * v2ptTick * 1000 + now.tvUsec) % 1000000 :=
      Int.tmod_eq_emod_of_nonneg (by omega)
    simp only [hcarry]
    omega
  · simp only
    omega

/-- The deadline is a time, and it is `w` ticks after `now`. -/
structure Denotes (timeout : Timespec) (w : ℤ) (now : Timeval) : Prop where
  proper : timeout.Proper
  ns : timeout.ns = now.ns + w * v2ptTick * 1000000

/-- The interval that each timed operation uses is `w` ticks, and nothing overflows on the way. -/
structure Exact (w : ℤ) (now : Timeval) : Prop where
  product : FitsSigned 32 (w * v2ptTick * 1000)
  token : Denotes (waitForTokenDeadline w now) w now
  space : Denotes (waitToSendDeadline w now) w now
  message : Denotes (msgQReceiveDeadline w now) w now
  delay : taskDelayUsec w = w * v2ptTick * 1000

/-- The intervals are exact up to the largest number of ticks whose product fits an `int`,
unless the delay and the microseconds of the clock make one second. -/
theorem intervals_exact_iff (hpos : 0 < w) :
    Exact w now ↔ w ≤ 214748 ∧ w * v2ptTick * 1000 + now.tvUsec ≠ 1000000 := by
  constructor
  · intro h
    exact ⟨(fits_iff hpos).mp h.product, (deadline_proper_iff hpos h.product).mp h.token.proper⟩
  · intro ⟨hle, hcarried⟩
    have hfits := (fits_iff hpos).mpr hle
    have hdenotes : Denotes (deadline w now) w now :=
      ⟨(deadline_proper_iff hpos hfits).mpr hcarried, (deadline_exact_iff now hpos).mpr hle⟩
    exact ⟨hfits, hdenotes, hdenotes, hdenotes, taskDelayUsec_of_fits hpos hfits⟩

theorem hundred_ticks_exact : Exact 100 ⟨7, 20000, by decide, by decide⟩ :=
  (intervals_exact_iff (by decide)).mpr (by decide)

/-- A wait of 1000000 ticks is one of 23.5 minutes, where 10000 seconds have been asked for. -/
theorem million_ticks_shortened :
    ¬ Exact 1000000 ⟨0, 0, by decide, by decide⟩ ∧
      (waitForTokenDeadline 1000000 ⟨0, 0, by decide, by decide⟩).ns = 1410065408000 := by
  refine ⟨fun h => ?_, by decide⟩
  exact absurd h.product (by decide)

/-! ### The time that remains -/

/-- `time_expired` -/
def timeExpired (timeout : Timespec) (now : Timeval) : Bool :=
  if timeout.tvSec < now.tvSec then true
  else if timeout.tvSec > now.tvSec then false
  else decide (timeout.tvNsec ≤ now.tvUsec * 1000)

/-- The microseconds that the polling loops of the queues compute. The differences and the
product are `long`, and `usec` is an `ulong`. -/
def remaining (timeout : Timespec) (now : Timeval) : ℤ :=
  if timeout.tvNsec > now.tvUsec * 1000 then
    let usec := toUnsigned 64 ((timeout.tvNsec - now.tvUsec * 1000).tdiv 1000)
    if timeout.tvSec < now.tvSec then 0
    else toUnsigned 64 (usec + toSigned 64 (toSigned 64 (timeout.tvSec - now.tvSec) * 1000000))
  else
    let usec := toUnsigned 64 ((timeout.tvNsec + 1000000000 - now.tvUsec * 1000).tdiv 1000)
    let sec := toSigned 64 (timeout.tvSec - 1)
    if sec < now.tvSec then 0
    else toUnsigned 64 (usec + toSigned 64 (toSigned 64 (sec - now.tvSec) * 1000000))

/-- `usec` in `waiting_on_q_space`. -/
def waitingOnQSpaceUsec (timeout : Timespec) (now : Timeval) : ℤ := remaining timeout now

/-- `usec` in `waiting_on_q_msg`. -/
def waitingOnQMsgUsec (timeout : Timespec) (now : Timeval) : ℤ := remaining timeout now

theorem timeExpired_iff (h0 : 0 ≤ timeout.tvNsec) (h1 : timeout.tvNsec < 1000000000) :
    timeExpired timeout now = true ↔ timeout.ns ≤ now.ns := by
  have hnow := now.usec_nonneg
  have hlt := now.usec_lt
  unfold timeExpired Timespec.ns Timeval.ns
  split
  · simp only [true_iff]
    omega
  · split
    · simp only [Bool.false_eq_true, false_iff]
      omega
    · simp only [decide_eq_true_eq]
      omega

/-- What is left of the microseconds and the seconds in an unsigned word. -/
theorem remaining_words (usec sec : ℤ) :
    toUnsigned 64 (toUnsigned 64 usec + toSigned 64 (toSigned 64 sec * 1000000)) =
      toUnsigned 64 (usec + sec * 1000000) := by
  unfold toUnsigned toSigned
  have hsec : (sec.bmod (2 ^ 64) * 1000000).bmod (2 ^ 64) % (2 : ℤ) ^ 64 = sec * 1000000 % (2 : ℤ) ^ 64 := by
    rw [← two_pow_cast, Int.bmod_emod, Int.mul_emod, Int.bmod_emod, ← Int.mul_emod]
  rw [Int.add_emod, hsec, Int.emod_emod_of_dvd _ (dvd_refl _), ← Int.add_emod]

/-- The borrowed second makes both differences come out as one, as far as the unsigned word
holds it. -/
theorem remaining_mod (now : Timeval) (h0 : 0 ≤ timeout.tvNsec) (h1 : timeout.tvNsec < 1000000000)
    (hwhole : timeout.tvNsec % 1000 = 0) (hsec : FitsSigned 64 (timeout.tvSec - 1)) :
    remaining timeout now = toUnsigned 64 (max 0 (timeout.ns - now.ns) / 1000) := by
  have hnow := now.usec_nonneg
  have hlt := now.usec_lt
  have hzero : toUnsigned 64 0 = 0 := rfl
  simp only [remaining, toSigned_of_fits hsec, remaining_words]
  unfold Timespec.ns Timeval.ns
  split
  · rw [Int.tdiv_eq_ediv_of_nonneg (by omega)]
    split
    · rw [← hzero]
      congr 1
      omega
    · congr 1
      omega
  · rw [Int.tdiv_eq_ediv_of_nonneg (by omega)]
    split
    · rw [← hzero]
      congr 1
      omega
    · congr 1
      omega

/-- The time that remains, unless that is more than half a million years. -/
theorem remaining_eq (now : Timeval) (h0 : 0 ≤ timeout.tvNsec) (h1 : timeout.tvNsec < 1000000000)
    (hwhole : timeout.tvNsec % 1000 = 0) (hsec : FitsSigned 64 (timeout.tvSec - 1))
    (hnear : timeout.ns - now.ns < 2 ^ 64 * 1000) :
    remaining timeout now * 1000 = max 0 (timeout.ns - now.ns) := by
  have hdiv : (timeout.ns - now.ns) % 1000 = 0 := by
    unfold Timespec.ns Timeval.ns
    omega
  rw [remaining_mod now h0 h1 hwhole hsec, toUnsigned_of_fits ⟨by omega, by omega⟩]
  omega

/-- The queues' loops compute the time that remains, to the microsecond, and stop when the
semaphores' would. -/
theorem remaining_exact (timeout : Timespec) (now : Timeval) (h0 : 0 ≤ timeout.tvNsec)
    (h1 : timeout.tvNsec < 1000000000) (hwhole : timeout.tvNsec % 1000 = 0)
    (hsec : FitsSigned 64 (timeout.tvSec - 1)) (hnear : timeout.ns - now.ns < 2 ^ 64 * 1000) :
    (waitingOnQSpaceUsec timeout now * 1000 = max 0 (timeout.ns - now.ns) ∧
      waitingOnQMsgUsec timeout now * 1000 = max 0 (timeout.ns - now.ns)) ∧
    (waitingOnQSpaceUsec timeout now = 0 ↔ timeout.ns ≤ now.ns) ∧
    (waitingOnQMsgUsec timeout now = 0 ↔ timeout.ns ≤ now.ns) ∧
    (timeExpired timeout now = true ↔ timeout.ns ≤ now.ns) := by
  have heq := remaining_eq now h0 h1 hwhole hsec hnear
  have hzero : remaining timeout now = 0 ↔ timeout.ns ≤ now.ns := by omega
  exact ⟨⟨heq, heq⟩, hzero, hzero, timeExpired_iff h0 h1⟩

theorem second_borrowed :
    waitingOnQSpaceUsec ⟨3, 200000⟩ ⟨1, 999900, by decide, by decide⟩ * 1000 =
      max 0 ((⟨3, 200000⟩ : Timespec).ns - (⟨1, 999900, by decide, by decide⟩ : Timeval).ns) :=
  (remaining_exact ⟨3, 200000⟩ ⟨1, 999900, by decide, by decide⟩ (by decide) (by decide) (by decide)
    (by decide) (by decide)).1.1

/-- A deadline that lies 2 ^ 64 microseconds ahead leaves 0 in the unsigned word: the queues'
loops give up at once, the semaphores' goes on. At the least `tv_sec` the borrowed second comes
round, and the queues' loops go on past a deadline that has been reached. -/
theorem far_deadline_stored :
    (waitingOnQSpaceUsec ⟨18446744073709, 551616000⟩ ⟨0, 0, by decide, by decide⟩ = 0 ∧
      waitingOnQMsgUsec ⟨18446744073709, 551616000⟩ ⟨0, 0, by decide, by decide⟩ = 0 ∧
      timeExpired ⟨18446744073709, 551616000⟩ ⟨0, 0, by decide, by decide⟩ = false ∧
      (⟨0, 0, by decide, by decide⟩ : Timeval).ns < (⟨18446744073709, 551616000⟩ : Timespec).ns) ∧
    waitingOnQSpaceUsec ⟨-9223372036854775808, 0⟩ ⟨1, 0, by decide, by decide⟩ ≠ 0 ∧
      (⟨-9223372036854775808, 0⟩ : Timespec).ns ≤ (⟨1, 0, by decide, by decide⟩ : Timeval).ns := by
  decide

end V2lin.Timeouts
