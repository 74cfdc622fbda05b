import V2lin.Timeouts.Clock
import V2lin.Sem.Control
import V2lin.Queue.Control

/-! The timed wait loops.

`wait_for_token`, `waitToSend` and `msgQReceive` wait in one way: look at the object, and
sleep on its condition variable until the deadline unless there is something for the
caller. A `Watch` is what such a loop looks at. With a deadline that
`pthread_cond_timedwait` accepts the loop ends soon after it; with one that it refuses the
loop goes round for ever, and nobody else gets the lock. -/
namespace V2lin.Timeouts
open V2lin.Arith V2lin.Queue

/-! ### A timed wait -/

/-- What `pthread_cond_timedwait` returns. -/
inductive TimedWait where
  | ok
  | etimedout
  | einval
  deriving DecidableEq

/-- `pthread_cond_timedwait`, called at `now`. It refuses a time with no proper nanoseconds
before it lets go of the lock; one that has passed is a timeout. -/
def condTimedwait (timeout : Timespec) (now : Timeval) (woken : Bool) : TimedWait :=
  if timeout.tvNsec < 0 ∨ 1000000000 ≤ timeout.tvNsec then .einval
  else if timeout.ns ≤ now.ns then .etimedout
  else if woken = true then .ok
  else .etimedout

/-- What a wait loop looks at under the lock of its object. -/
structure Watch (α : Type) where
  /-- The object has been deleted or flushed. -/
  closed : α → Bool
  turn : α → Turn
  expired : Timespec → Timeval → Bool

/-- The object when the loop looks at it, the time, and whether the sleep that may follow is
ended by a wakeup. -/
structure Look (α : Type) where
  object : α
  now : Timeval
  woken : Bool

/-- Where the loop is. -/
inductive Loop where
  /-- It looks, with the code that the last sleep has returned. -/
  | enter (retcode : TimedWait)
  /-- It looks again after a `taskDelay`, for what was there was another task's. -/
  | again (retcode : TimedWait)
  | left (retcode : TimedWait)
  deriving DecidableEq

namespace Watch
variable {α : Type}

/-- The test of the outer loop when there is nothing for the caller. -/
def sleep (timeout : Timespec) (retcode : TimedWait) (x : Look α) : Loop :=
  if retcode = .etimedout then .left .etimedout else .enter (condTimedwait timeout x.now x.woken)

/-- The inner loop, which goes on as long as there is something for anybody. -/
def test (W : Watch α) (timeout : Timespec) (retcode : TimedWait) (x : Look α) : Loop :=
  match W.turn x.object with
  | .ours => .left .ok
  | .notOurs => .again retcode
  | .unavailable => sleep timeout retcode x

def next (W : Watch α) (timeout : Timespec) : Loop → Look α → Loop
  | .enter retcode, x => if W.closed x.object = true then .left .ok else W.test timeout retcode x
  | .again retcode, x =>
    if W.expired timeout x.now = true then sleep timeout retcode x else W.test timeout retcode x
  | .left retcode, _ => .left retcode

def run (W : Watch α) (timeout : Timespec) (p : Loop) : List (Look α) → Loop
  | [] => p
  | x :: rest => run W timeout (W.next timeout p x) rest

theorem run_append (W : Watch α) (timeout : Timespec) (p : Loop) (before after : List (Look α)) :
    W.run timeout p (before ++ after) = W.run timeout (W.run timeout p before) after := by
  induction before generalizing p with
  | nil => rfl
  | cons x rest ih => exact ih _

theorem run_left (W : Watch α) (timeout : Timespec) (retcode : TimedWait) (looks : List (Look α)) :
    W.run timeout (.left retcode) looks = .left retcode := by
  induction looks with
  | nil => rfl
  | cons x rest ih => exact ih

/-- The deadline has passed, and there is nothing. -/
def Late (W : Watch α) (timeout : Timespec) (x : Look α) : Prop :=
  timeout.ns ≤ x.now.ns ∧ W.turn x.object = .unavailable

/-- Some looks after the deadline end the loop, if they find nothing. -/
def Ends (W : Watch α) (timeout : Timespec) : Prop :=
  ∃ n, ∀ before after : List (Look α), (∀ x ∈ after, W.Late timeout x) → n ≤ after.length →
    ∃ retcode, W.run timeout (.enter .ok) (before ++ after) = .left retcode

variable {W : Watch α} {timeout : Timespec} {x : Look α} {p : Loop}

theorem sleep_late (hvalid : 0 ≤ timeout.tvNsec ∧ timeout.tvNsec < 1000000000) (hlate : timeout.ns ≤ x.now.ns)
    (retcode : TimedWait) : sleep timeout retcode x = .left .etimedout ∨ sleep timeout retcode x = .enter .etimedout := by
  unfold sleep
  split
  · exact .inl rfl
  · rw [condTimedwait, if_neg (by omega), if_pos hlate]
    exact .inr rfl

/-- A look after the deadline ends the loop, or the sleep after it has timed out. -/
theorem next_late (p : Loop) (hvalid : 0 ≤ timeout.tvNsec ∧ timeout.tvNsec < 1000000000) (hx : W.Late timeout x) :
    (∃ retcode, W.next timeout p x = .left retcode) ∨ W.next timeout p x = .enter .etimedout := by
  have hsleep : ∀ retcode, (∃ r, sleep timeout retcode x = .left r) ∨ sleep timeout retcode x = .enter .etimedout :=
    fun retcode => (sleep_late hvalid hx.1 retcode).imp (fun h => ⟨_, h⟩) id
  have htest : ∀ retcode, W.test timeout retcode x = sleep timeout retcode x := by
    intro retcode
    simp only [test, hx.2]
  cases p with
  | enter retcode =>
    simp only [next, htest]
    split
    · exact .inl ⟨_, rfl⟩
    · exact hsleep retcode
  | again retcode =>
    simp only [next, htest, ite_self]
    exact hsleep retcode
  | left retcode => exact .inl ⟨retcode, rfl⟩

/-- After a sleep that has timed out one more look is the last. -/
theorem next_timedout (hx : W.Late timeout x) : ∃ retcode, W.next timeout (.enter .etimedout) x = .left retcode := by
  simp only [next, test, hx.2, sleep, if_true]
  split
  · exact ⟨_, rfl⟩
  · exact ⟨_, rfl⟩

/-- With a deadline that is accepted two looks after it are enough. -/
theorem ends (hvalid : 0 ≤ timeout.tvNsec ∧ timeout.tvNsec < 1000000000) : W.Ends timeout := by
  refine ⟨2, fun before after hlate hlen => ?_⟩
  match after, hlate, hlen with
  | x :: y :: rest, hlate, _ =>
    rw [run_append]
    obtain ⟨retcode, hleft⟩ | htimedout := next_late (W.run timeout (.enter .ok) before) hvalid
      (hlate x (List.mem_cons_self ..))
    · exact ⟨retcode, by rw [run, hleft, run_left]⟩
    · obtain ⟨retcode, hleft⟩ := next_timedout (hlate y (List.mem_cons_of_mem _ (List.mem_cons_self ..)))
      exact ⟨retcode, by rw [run, htimedout, run, hleft, run_left]⟩

/-- A deadline that is refused never ends the wait for an object with nothing to give. -/
theorem next_refused (hinvalid : ¬ (0 ≤ timeout.tvNsec ∧ timeout.tvNsec < 1000000000)) {retcode : TimedWait}
    (hcode : retcode ≠ .etimedout) (hover : W.closed x.object = false) (hturn : W.turn x.object = .unavailable) :
    W.next timeout (.enter retcode) x = .enter .einval := by
  have heinval : condTimedwait timeout x.now x.woken = .einval := by
    rw [condTimedwait, if_pos (by omega)]
  simp only [next, hover, Bool.false_eq_true, if_false, test, hturn, sleep, if_neg hcode, heinval]

theorem spins (hinvalid : ¬ (0 ≤ timeout.tvNsec ∧ timeout.tvNsec < 1000000000)) {looks : List (Look α)}
    (hidle : ∀ x ∈ looks, W.closed x.object = false ∧ W.turn x.object = .unavailable) (retcode : TimedWait)
    (hcode : retcode ≠ .etimedout) : ∃ r, r ≠ .etimedout ∧ W.run timeout (.enter retcode) looks = .enter r := by
  induction looks generalizing retcode with
  | nil => exact ⟨retcode, hcode, rfl⟩
  | cons x rest ih =>
    obtain ⟨hover, hturn⟩ := hidle x (List.mem_cons_self ..)
    rw [run, next_refused hinvalid hcode hover hturn]
    exact ih (fun y hy => hidle y (List.mem_cons_of_mem _ hy)) .einval (by decide)

/-- A time after any deadline. -/
def after (timeout : Timespec) : Timeval :=
  ⟨timeout.ns.natAbs, 0, by decide, by decide⟩

theorem ns_le_after (timeout : Timespec) : timeout.ns ≤ (after timeout).ns := by
  simp only [after, Timeval.ns]
  omega

/-- The loop ends just for the deadlines that are accepted. -/
theorem ends_iff (idle : α) (hover : W.closed idle = false) (hturn : W.turn idle = .unavailable) :
    W.Ends timeout ↔ 0 ≤ timeout.tvNsec ∧ timeout.tvNsec < 1000000000 := by
  refine ⟨fun ⟨n, hends⟩ => ?_, ends⟩
  by_contra hinvalid
  have hlook : ∀ x ∈ List.replicate n (⟨idle, after timeout, false⟩ : Look α), x = ⟨idle, after timeout, false⟩ :=
    fun x hx => List.eq_of_mem_replicate hx
  obtain ⟨retcode, hleft⟩ := hends [] (List.replicate n ⟨idle, after timeout, false⟩)
    (fun x hx => by rw [hlook x hx]; exact ⟨ns_le_after timeout, hturn⟩) (List.length_replicate ..).ge
  obtain ⟨r, _, henter⟩ := W.spins hinvalid
    (fun x hx => by rw [hlook x hx]; exact ⟨hover, hturn⟩) .ok (by decide)
  rw [List.nil_append, henter] at hleft
  cases hleft

end Watch

/-! ### What the three loops look at -/

section
variable {θ : Type} [DecidableEq θ]

/-- `waiting_on_sem`, for the thread whose control block is `me`; the priorities may change
while it waits. -/
def tokenWatch (me : Option θ) : Watch (Sem.V2lsem θ × (θ → ℤ)) where
  closed x := decide (x.1.sendType ≠ .send)
  turn x := match Sem.tokenFor x.2 x.1 me with
    | .taken _ => .ours
    | .notOurs => .notOurs
    | .unavailable => .unavailable
  expired := timeExpired

/-- `waiting_on_q_space` -/
def spaceWatch (me : Option θ) : Watch (V2ptMqueue θ × (θ → ℤ)) where
  closed x := decide (x.1.sendType = .killd)
  turn x := x.1.spaceFor x.2 me
  expired timeout now := decide (waitingOnQSpaceUsec timeout now = 0)

/-- `waiting_on_q_msg` -/
def messageWatch (me : Option θ) : Watch (V2ptMqueue θ × (θ → ℤ)) where
  closed x := decide (x.1.sendType = .killd)
  turn x := x.1.msgFor x.2 me
  expired timeout now := decide (waitingOnQMsgUsec timeout now = 0)

/-- The deadline is one, no timed wait for it is refused, and the loop that waits for it ends. -/
structure Waits {α : Type} (W : Watch α) (timeout : Timespec) : Prop where
  nsec : 0 ≤ timeout.tvNsec ∧ timeout.tvNsec < 1000000000
  accepted : ∀ now woken, condTimedwait timeout now woken ≠ .einval
  ends : W.Ends timeout

theorem waits_iff {α : Type} {W : Watch α} {timeout : Timespec} :
    Waits W timeout ↔ 0 ≤ timeout.tvNsec ∧ timeout.tvNsec < 1000000000 := by
  refine ⟨Waits.nsec, fun hvalid => ⟨hvalid, fun now woken => ?_, Watch.ends hvalid⟩⟩
  rw [condTimedwait, if_neg (by omega)]
  split
  · decide
  · split <;> decide

end

/-- Each of the three timed waits has a proper deadline and ends. -/
structure AllWait {θ : Type} [DecidableEq θ] (me : Option θ) (w : ℤ) (now : Timeval) : Prop where
  token : Waits (tokenWatch me) (waitForTokenDeadline w now)
  space : Waits (spaceWatch me) (waitToSendDeadline w now)
  message : Waits (messageWatch me) (msgQReceiveDeadline w now)

/-- The timed waits end unless the delay and the microseconds of the clock make one second. -/
theorem waits_end_iff {θ : Type} [DecidableEq θ] (me : Option θ) {w : ℤ} {now : Timeval} (hpos : 0 < w)
    (hfits : FitsSigned 32 (w * v2ptTick * 1000)) :
    AllWait me w now ↔ w * v2ptTick * 1000 + now.tvUsec ≠ 1000000 := by
  rw [← deadline_proper_iff hpos hfits]
  refine ⟨fun h => h.token.nsec, fun hvalid => ⟨?_, ?_, ?_⟩⟩
  all_goals exact waits_iff.mpr hvalid

theorem tick_waits : AllWait (some 0 : Option (Fin 1)) 1 ⟨0, 0, by decide, by decide⟩ :=
  (waits_end_iff (some 0) (by decide) (by decide)).mpr (by decide)

/-- A wait of 100 ticks that begins on a full second: the deadline is refused, and however
often the loop looks at an empty semaphore after it, it goes on. -/
theorem full_second_spins :
    ¬ AllWait (none : Option (Fin 1)) 100 ⟨7, 0, by decide, by decide⟩ ∧
      condTimedwait (waitForTokenDeadline 100 ⟨7, 0, by decide, by decide⟩) ⟨7, 0, by decide, by decide⟩ true = .einval ∧
      ¬ (tokenWatch (none : Option (Fin 1))).Ends (waitForTokenDeadline 100 ⟨7, 0, by decide, by decide⟩) := by
  have hinvalid : ¬ (0 ≤ (waitForTokenDeadline 100 ⟨7, 0, by decide, by decide⟩).tvNsec ∧
      (waitForTokenDeadline 100 ⟨7, 0, by decide, by decide⟩).tvNsec < 1000000000) := by decide
  refine ⟨fun h => hinvalid h.token.nsec, by decide, fun h => hinvalid ?_⟩
  exact (Watch.ends_iff (Sem.newSem (Fin 1) 0, fun _ => 0) (by decide) (by decide)).mp h

end V2lin.Timeouts
