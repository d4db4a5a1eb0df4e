import ExecutionControl.Proofs.Delivery.Calls
import Mathlib.Data.List.Basic

/-! # Where tickets are

    A ticket that was published waits in a queue, is in flight, was given up or is done
    with. All places together, with what lies there, are a `Layout`.

    Every call moves tickets from one place to another, one at a time (`Layout.Moves`), or
    adds a ticket that was nowhere before (`Layout.Adds`). Neither makes a ticket that lies
    in one place only (`Layout.Sole`) lie in two, or in none.
-/

namespace ExecutionControl

/-- The same ticket after `k` more failures of its message. -/
def Ticket.failed (t : Ticket) (k : Nat) : Ticket :=
  { t with message := { t.message with failures := t.message.failures + k } }

namespace Ticket

@[simp] theorem failed_number (t : Ticket) (k : Nat) : (t.failed k).number = t.number := rfl

@[simp] theorem failed_zero (t : Ticket) : t.failed 0 = t := rfl

theorem failed_failed (t : Ticket) (j k : Nat) : (t.failed j).failed k = t.failed (j + k) := by
  simp [failed, Nat.add_assoc]

theorem failedOnce_eq {t t' : Ticket} (h : CountsFailures.failedOnce t = .ok t') :
    t' = t.failed 1 := by
  simp only [CountsFailures.failedOnce, TaskMessage.failedOnce] at h
  split at h <;> cases h
  rfl

end Ticket

namespace Broker

/-! ### Layouts -/

/-- Where a ticket can be. -/
inductive Place where
  | queue (name : String)
  | inFlight (tag : Nat)
  | deadLetters
  | done
  deriving DecidableEq

/-- A ticket as it lies at a place. -/
structure Item where
  ticket : Ticket
  /-- The queue that the ticket belongs to, if the place tells. -/
  queue : Option String

/-- The number of its ticket. -/
def Item.number (i : Item) : Nat := i.ticket.number

/-- What lies at every place. -/
abbrev Layout := Place → List Item

/-- The items with a number. -/
def copies (n : Nat) (is : List Item) : List Item := is.filter fun i => i.number = n

/-- No ticket with this number is anywhere. -/
def Layout.Absent (A : Layout) (n : Nat) : Prop := ∀ place, copies n (A place) = []

/-- The ticket is at this place, once, and its number is nowhere else. -/
structure Layout.Sole (A : Layout) (i : Item) (place : Place) : Prop where
  here : copies i.number (A place) = [i]
  only : ∀ other, other ≠ place → copies i.number (A other) = []

/-- Every place holds the same items with this number in both layouts. -/
def Layout.SameCopies (A A' : Layout) (n : Nat) : Prop :=
  ∀ place, (copies n (A' place)).Perm (copies n (A place))

/-- A ticket leaves one place and arrives at another, where it may have changed. -/
structure Layout.Moves (A A' : Layout) (src : Place) (i : Item) (dst : Place) (i' : Item) :
    Prop where
  number_eq : i'.number = i.number
  ne : src ≠ dst
  leaves : (A src).Perm (i :: A' src)
  arrives : (A' dst).Perm (i' :: A dst)
  frame : ∀ p, p ≠ src → p ≠ dst → A' p = A p

/-- A ticket arrives at a place. -/
structure Layout.Adds (A A' : Layout) (dst : Place) (i : Item) : Prop where
  arrives : (A' dst).Perm (i :: A dst)
  frame : ∀ p, p ≠ dst → A' p = A p

section Copies

variable {n : Nat} {i : Item} {is js : List Item}

theorem copies_cons_self (i : Item) (is : List Item) :
    copies i.number (i :: is) = i :: copies i.number is := by
  simp [copies]

theorem copies_cons_of_ne (h : i.number ≠ n) : copies n (i :: is) = copies n is := by
  simp [copies, h]

theorem copies_perm (h : is.Perm js) : (copies n is).Perm (copies n js) := h.filter _

end Copies

namespace Layout

variable {A A' : Layout} {src dst place : Place} {i i' k : Item} {n : Nat}

/-- A ticket that lies in one place only is found nowhere else, and no other ticket with its
    number is found there. -/
theorem Sole.eq_of_mem (h : A.Sole k place) (hmem : i ∈ A src) (hn : i.number = k.number) :
    src = place ∧ i = k := by
  have hcopy : i ∈ copies k.number (A src) := by simpa [copies, hn] using hmem
  by_cases hsrc : src = place
  · subst hsrc
    exact ⟨rfl, by simpa [h.here] using hcopy⟩
  · rw [h.only src hsrc] at hcopy
    cases hcopy

theorem SameCopies.sole (h : SameCopies A A' k.number) (hsole : A.Sole k place) :
    A'.Sole k place where
  here := (hsole.here ▸ h place).eq_singleton
  only other hother := (hsole.only other hother ▸ h other).eq_nil

theorem SameCopies.absent (h : SameCopies A A' n) (habsent : A.Absent n) : A'.Absent n :=
  fun p => (habsent p ▸ h p).eq_nil

/-! ### Moving a ticket -/

theorem Moves.mem (h : Moves A A' src i dst i') : i ∈ A src :=
  h.leaves.mem_iff.mpr List.mem_cons_self

theorem Moves.sameCopies (h : Moves A A' src i dst i') (hn : i.number ≠ n) :
    SameCopies A A' n := by
  intro p
  by_cases hsrc : p = src
  · subst hsrc
    simpa [copies_cons_of_ne hn] using (copies_perm (n := n) h.leaves).symm
  by_cases hdst : p = dst
  · subst hdst
    simpa [copies_cons_of_ne (h.number_eq.trans_ne hn)] using copies_perm (n := n) h.arrives
  · rw [h.frame p hsrc hdst]

/-- The ticket that is moved lies at its new place only, if it lay at its old place only. -/
theorem Moves.sole (h : Moves A A' src i dst i') (hsole : A.Sole i src) : A'.Sole i' dst := by
  have hleft : copies i.number (A' src) = [] := by
    have hperm := copies_perm (n := i.number) h.leaves
    rw [copies_cons_self, hsole.here] at hperm
    simpa using hperm.singleton_eq
  constructor
  · have hperm := copies_perm (n := i'.number) h.arrives
    rw [copies_cons_self, h.number_eq, hsole.only dst h.ne.symm] at hperm
    rw [h.number_eq]
    exact hperm.eq_singleton
  · intro other hother
    rw [h.number_eq]
    by_cases hsrc : other = src
    · exact hsrc ▸ hleft
    · rw [h.frame other hsrc hother]
      exact hsole.only other hsrc

theorem Moves.ne_of_absent (h : Moves A A' src i dst i') (habsent : A.Absent n) :
    i.number ≠ n := by
  rintro rfl
  have hcopy : i ∈ copies i.number (A src) := by simpa [copies] using h.mem
  rw [habsent src] at hcopy
  cases hcopy

theorem Moves.absent (h : Moves A A' src i dst i') (habsent : A.Absent n) : A'.Absent n :=
  (h.sameCopies (h.ne_of_absent habsent)).absent habsent

/-! ### Adding a ticket -/

theorem Adds.sameCopies (h : Adds A A' dst i) (hn : i.number ≠ n) : SameCopies A A' n := by
  intro p
  by_cases hdst : p = dst
  · subst hdst
    simpa [copies_cons_of_ne hn] using copies_perm (n := n) h.arrives
  · rw [h.frame p hdst]

theorem Adds.sole (h : Adds A A' dst i) (habsent : A.Absent i.number) : A'.Sole i dst where
  here := by
    have hperm := copies_perm (n := i.number) h.arrives
    rw [copies_cons_self, habsent dst] at hperm
    exact hperm.eq_singleton
  only other hother := by rw [h.frame other hother, habsent other]

end Layout

end Broker

end ExecutionControl
