import V2lin.Sem.Code
import V2lin.Threads.Linearize

/-! What a semaphore is for.

A desk has a stock of tokens, or the one key of a mutex, and a line of customers. A
customer joins the line at its end and is served at its head; it may leave the line
without being served when its patience is over or when the line is called off. The key
stays with its holder, who may take it again and gives it back as often. -/
namespace V2lin.Sem
open Threads

section
variable {θ : Type} [DecidableEq θ]

/-- What there is to give: tokens, or a key with its holder and the holder's depth. -/
inductive Stock (θ : Type) where
  | tokens (n : Int)
  | key (holder : Option (θ × ℕ))
  deriving DecidableEq

namespace Stock

def made : Create → Stock θ
  | .binary _ initialState => .tokens (if initialState = 0 then 0 else 1)
  | .counting _ initialCount => .tokens initialCount
  | .mutex _ => .key none

def take (t : θ) : Stock θ → Option (Stock θ)
  | .tokens n => if 0 < n then some (.tokens (n - 1)) else none
  | .key none => some (.key (some (t, 1)))
  | .key (some _) => none

def retake (t : θ) : Stock θ → Option (Stock θ)
  | .key (some (u, depth)) => if u = t then some (.key (some (u, depth + 1))) else none
  | _ => none

/-- Giving back, and whether it is allowed. -/
def give (t : θ) : Stock θ → Stock θ × Status
  | .tokens n => (.tokens (n + 1), .ok)
  | .key none => (.key none, .invalidOperation)
  | .key (some (u, depth)) =>
    if u = t then (if depth = 1 then .key none else .key (some (u, depth - 1)), .ok)
    else (.key (some (u, depth)), .invalidOperation)

omit [DecidableEq θ] in
theorem take_cases {t : θ} {k k' : Stock θ} (h : k.take t = some k') :
    (∃ n, k = .tokens n ∧ 0 < n ∧ k' = .tokens (n - 1)) ∨ (k = .key none ∧ k' = .key (some (t, 1))) := by
  cases k with
  | tokens n =>
    simp only [take, Option.ite_none_right_eq_some, Option.some.injEq] at h
    exact .inl ⟨n, rfl, h.1, h.2.symm⟩
  | key holder =>
    cases holder with
    | none => exact .inr ⟨rfl, (Option.some.inj h).symm⟩
    | some held => cases h

theorem retake_cases {t : θ} {k k' : Stock θ} (h : k.retake t = some k') :
    ∃ depth, k = .key (some (t, depth)) ∧ k' = .key (some (t, depth + 1)) := by
  cases k with
  | tokens n => cases h
  | key holder =>
    cases holder with
    | none => cases h
    | some held =>
      simp only [retake, Option.ite_none_right_eq_some, Option.some.injEq] at h
      exact ⟨held.2, by rw [← h.1], by rw [← h.2, h.1]⟩

theorem give_cases {t : θ} {k k' : Stock θ} (h : k.give t = (k', .ok)) :
    (∃ n, k = .tokens n ∧ k' = .tokens (n + 1)) ∨
      ∃ depth, k = .key (some (t, depth)) ∧ k' = if depth = 1 then .key none else .key (some (t, depth - 1)) := by
  cases k with
  | tokens n => exact .inl ⟨n, rfl, (Prod.mk.inj h).1.symm⟩
  | key holder =>
    cases holder with
    | none => cases h
    | some held =>
      obtain ⟨u, depth⟩ := held
      by_cases hu : u = t
      · subst hu
        rw [give, if_pos rfl] at h
        exact .inr ⟨depth, rfl, (Prod.mk.inj h).1.symm⟩
      · rw [give, if_neg hu] at h
        cases h

theorem give_refused {t : θ} {k : Stock θ} (h : (k.give t).2 ≠ .ok) : (k.give t).1 = k := by
  cases k with
  | tokens n => exact absurd rfl h
  | key holder =>
    cases holder with
    | none => rfl
    | some held =>
      by_cases hu : held.1 = t
      · rw [give, if_pos hu] at h
        exact absurd rfl h
      · rw [give, if_neg hu]

/-- How many customers the stock serves at a time. -/
def places : Stock θ → Int
  | .tokens n => n
  | .key _ => 1

end Stock

structure Desk (θ : Type) where
  listed : Bool
  mode : SendType
  stock : Stock θ
  line : List θ
  deriving DecidableEq

/-- What happens at a desk, with the result that the customer gets. -/
inductive Deed (θ : Type) where
  | opens
  | refuse (t : θ) (op : Op)
  | join (t : θ) (maxWait : Int)
  | take (t : θ) (maxWait : Int) (error : Status)
  | retake (t : θ) (maxWait : Int)
  /-- `expired`: because its patience is over, not because the line has been called off. -/
  | leave (t : θ) (maxWait : Int) (expired : Bool) (error : Status)
  | give (t : θ) (error : Status)
  | flush (t : θ) (error : Status)
  | kill (t : θ)
  | reset (t : θ)
  | close (t : θ)
  deriving DecidableEq

/-- The call that a deed settles. -/
def Deed.settles : Deed θ → Option (θ × Op × Status)
  | .refuse t op => some (t, op, .objIdError)
  | .take t maxWait error => some (t, .take maxWait, error)
  | .retake t maxWait => some (t, .take maxWait, .ok)
  | .leave t maxWait _ error => some (t, .take maxWait, error)
  | .give t error => some (t, .give, error)
  | .flush t error => some (t, .flush, error)
  | .close t => some (t, .delete, .ok)
  | _ => none

namespace Desk

def made (args : Create) : Desk θ := ⟨false, .send, .made args, []⟩

/-- What a customer is told that leaves the line. A customer without patience is told
`OK`. -/
def answer (d : Desk θ) (maxWait : Int) (expired : Bool) : Status :=
  if d.mode = .killd then .objIdError
  else if expired = true ∧ maxWait ≠ noWait then .objTimeout
  else .ok

def act : Deed θ → Desk θ → Option (Desk θ)
  | .opens, d => if d.listed then none else some {d with listed := true}
  | .refuse _ _, d => if d.listed then none else some d
  | .join t _, d => if t ∈ d.line then none else some {d with line := d.line ++ [t]}
  | .take t maxWait error, d =>
    if d.line.head? = some t ∧ error = d.answer maxWait false then
      (d.stock.take t).map fun k => {d with stock := k, line := d.line.tail}
    else none
  | .retake t _, d => (d.stock.retake t).map fun k => {d with stock := k}
  | .leave t maxWait expired error, d =>
    if t ∈ d.line ∧ (expired = true ∨ d.mode ≠ .send) ∧ error = d.answer maxWait expired then
      some {d with line := d.line.erase t}
    else none
  | .give t error, d => if (d.stock.give t).2 = error then some {d with stock := (d.stock.give t).1} else none
  | .flush _ error, d =>
    match d.stock with
    | .tokens _ => if error = .ok then some {d with mode := if d.line = [] then d.mode else .flush} else none
    | .key _ => if error = .invalidOperation then some d else none
  | .kill _, d => some {d with mode := .killd}
  | .reset _, d => if d.line = [] then some {d with mode := .send} else none
  | .close _, d => some {d with listed := false}

variable {d : Desk θ} {t : θ} {maxWait : Int} {expired : Bool} {error : Status} {k : Stock θ}

theorem act_take (hhead : d.line.head? = some t) (hanswer : error = d.answer maxWait false)
    (hstock : d.stock.take t = some k) :
    act (.take t maxWait error) d = some {d with stock := k, line := d.line.erase t} := by
  have htail : d.line.tail = d.line.erase t := by
    cases hl : d.line with
    | nil =>
      rw [hl] at hhead
      cases hhead
    | cons u line =>
      rw [hl] at hhead
      cases hhead
      simp
  simp only [act]
  rw [if_pos ⟨hhead, hanswer⟩, hstock, htail]
  rfl

theorem act_leave (hin : t ∈ d.line) (hwhy : expired = true ∨ d.mode ≠ .send)
    (hanswer : error = d.answer maxWait expired) :
    act (.leave t maxWait expired error) d = some {d with line := d.line.erase t} :=
  if_pos ⟨hin, hwhy, hanswer⟩

theorem act_give (hstock : d.stock.give t = (k, error)) : act (.give t error) d = some {d with stock := k} := by
  simp only [act, hstock]
  rfl

theorem act_retake (hstock : d.stock.retake t = some k) :
    act (.retake t maxWait) d = some {d with stock := k} := by
  simp only [act, hstock, Option.map_some]

end Desk

end

end V2lin.Sem
