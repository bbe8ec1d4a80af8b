import Mathlib.Algebra.Order.Group.Multiset

/-! Accounts of what a program acquires and releases.

`account` follows the operations with what is held, as often as it is held: only what is held can be used or released. So
operations that are accounted for from nothing to nothing release all that they acquire, once, and use nothing outside. -/
namespace Sunshine.Ledger
set_option autoImplicit false

variable {R : Type}

inductive Op (R : Type) where
  | acquire (resource : R)
  | use (resource : R)
  | release (resource : R)
  deriving DecidableEq

/-- At most one resource, as a multiset. -/
def one (resource : Option R) : Multiset R := resource.elim 0 fun resource => {resource}

@[simp] theorem one_none : one (none : Option R) = 0 := rfl

@[simp] theorem one_some (resource : R) : one (some resource) = {resource} := rfl

/-- The release of what there is. -/
def releases (resource : Option R) : List (Op R) := resource.elim [] fun resource => [.release resource]

section Account
variable [DecidableEq R]

/-- What is held after the operations; none where one of them is on a resource that is not held. -/
def account : Multiset R → List (Op R) → Option (Multiset R)
  | held, [] => some held
  | held, .acquire resource :: ops => account (resource ::ₘ held) ops
  | held, .use resource :: ops => if resource ∈ held then account held ops else none
  | held, .release resource :: ops => if resource ∈ held then account (held.erase resource) ops else none

variable {held held' : Multiset R} {ops ops' : List (Op R)}

@[simp] theorem account_nil (held : Multiset R) : account held [] = some held := rfl

theorem account_append (held : Multiset R) (ops ops' : List (Op R)) :
    account held (ops ++ ops') = (account held ops).bind fun held' => account held' ops' := by
  induction ops generalizing held with
  | nil => rfl
  | cons op ops ih =>
    cases op with
    | acquire resource => exact ih _
    | use resource =>
      simp only [List.cons_append, account]
      split_ifs
      · exact ih _
      · rfl
    | release resource =>
      simp only [List.cons_append, account]
      split_ifs
      · exact ih _
      · rfl

theorem account_acquire (held : Multiset R) (resource : R) (ops : List (Op R)) :
    account held (.acquire resource :: ops) = account ({resource} + held) ops := rfl

theorem account_use (held : Multiset R) (resource : R) (ops : List (Op R)) :
    account ({resource} + held) (.use resource :: ops) = account ({resource} + held) ops :=
  if_pos (Multiset.mem_cons_self resource held)

theorem account_release (held : Multiset R) (resource : R) (ops : List (Op R)) :
    account ({resource} + held) (.release resource :: ops) = account held ops := by
  have hmem : resource ∈ {resource} + held := Multiset.mem_cons_self resource held
  rw [account, if_pos hmem]
  exact congrArg (fun held => account held ops) (Multiset.erase_cons_head resource held)

theorem account_releases (held : Multiset R) (resource : Option R) (ops : List (Op R)) :
    account (one resource + held) (releases resource ++ ops) = account held ops := by
  cases resource with
  | none => exact congrArg (fun held => account held ops) (zero_add held)
  | some resource => exact account_release held resource ops

theorem account_releases_only (held : Multiset R) (resource : Option R) :
    account (one resource + held) (releases resource) = some held := by
  have h := account_releases held resource []
  rwa [List.append_nil] at h

/-- Further operations, from what the first ones leave. -/
theorem account_then (h : account 0 ops = some held) (h' : account held ops' = some held') :
    account 0 (ops ++ ops') = some held' := by
  rw [account_append, h]
  exact h'

end Account

end Sunshine.Ledger
