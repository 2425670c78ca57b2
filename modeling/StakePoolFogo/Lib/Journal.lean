import Mathlib

/-!
# Journals

Fallible computations that note what they do.  `Erases` says that a computation does the same as one
that notes nothing, `Notes` what it returns and what it notes.
-/

namespace StakePoolFogo.Journal

/-- A fallible computation with a journal of events. -/
abbrev Journaled (ω ε : Type) := StateT (List ω) (Except ε)

variable {ω ε α β : Type}

def note (event : ω) : Journaled ω ε Unit := fun journal => .ok ((), journal ++ [event])

/-- Apart from the journal, `m` is `x`. -/
def Erases (m : Journaled ω ε α) (x : Except ε α) : Prop := ∀ journal, Prod.fst <$> m journal = x

/-- `m` returns `a` and notes `events`. -/
def Notes (m : Journaled ω ε α) (events : List ω) (a : α) : Prop :=
  ∀ journal, m journal = .ok (a, journal ++ events)

namespace Erases

variable {m : Journaled ω ε α} {x : Except ε α}

theorem pure (a : α) : Erases (Pure.pure a : Journaled ω ε α) (Pure.pure a) := fun _ => rfl

theorem lift (x : Except ε α) : Erases (liftM x : Journaled ω ε α) x := by
  intro journal
  cases x <;> rfl

theorem bind {f : α → Journaled ω ε β} {g : α → Except ε β} (h : Erases m x)
    (hf : ∀ a, Erases (f a) (g a)) : Erases (m >>= f) (x >>= g) := by
  intro journal
  have hm := h journal
  show Prod.fst <$> (m journal >>= fun r => f r.1 r.2) = x >>= g
  cases hrun : m journal with
  | error e =>
    rw [hrun] at hm
    rw [← hm]
    rfl
  | ok r =>
    rw [hrun] at hm
    rw [← hm]
    exact hf r.1 r.2

/-- A note leaves no trace. -/
theorem note_bind {event : ω} {f : Unit → Journaled ω ε α} (h : Erases (f ()) x) :
    Erases (note event >>= f) x := fun journal => h (journal ++ [event])

theorem ite {c : Prop} [Decidable c] {m' : Journaled ω ε α} {x' : Except ε α} (h : Erases m x)
    (h' : Erases m' x') : Erases (if c then m else m') (if c then x else x') := by
  split
  · exact h
  · exact h'

theorem foldlM {f : β → α → Journaled ω ε β} {g : β → α → Except ε β}
    (h : ∀ b a, Erases (f b a) (g b a)) (as : List α) (b : β) :
    Erases (as.foldlM f b) (as.foldlM g b) := by
  induction as generalizing b with
  | nil => exact pure b
  | cons a as ih =>
    rw [List.foldlM_cons, List.foldlM_cons]
    exact (h b a).bind ih

end Erases

namespace Notes

variable {m : Journaled ω ε α} {events events' : List ω} {a : α} {b : β}

theorem pure (a : α) : Notes (Pure.pure a : Journaled ω ε α) [] a := by
  intro journal
  rw [List.append_nil]
  rfl

theorem lift {x : Except ε α} (h : x = .ok a) : Notes (liftM x : Journaled ω ε α) [] a := by
  intro journal
  rw [h, List.append_nil]
  rfl

theorem bind {f : α → Journaled ω ε β} (h : Notes m events a) (hf : Notes (f a) events' b) :
    Notes (m >>= f) (events ++ events') b := by
  intro journal
  show (m journal >>= fun r => f r.1 r.2) = _
  rw [h journal]
  show f a (journal ++ events) = _
  rw [hf (journal ++ events), List.append_assoc]

theorem note_bind {event : ω} {f : Unit → Journaled ω ε α} (h : Notes (f ()) events a) :
    Notes (note event >>= f) (event :: events) a := by
  have hnote : Notes (note event : Journaled ω ε Unit) [event] () := fun _ => rfl
  exact hnote.bind h

/-- What is returned is what the computation without a journal returns. -/
theorem erased {x : Except ε α} (h : Notes m events a) (herase : Erases m x) : x = .ok a := by
  have hx := herase []
  rw [h []] at hx
  exact hx.symm

end Notes

end StakePoolFogo.Journal
