import Mathlib.Data.List.Basic

/-!
# Order-preserving partitions of a list

`Interleaved xs ys zs`: the list `zs` is `xs` and `ys` interleaved. Every position of `zs` went
to exactly one of the two lists, and both keep the order of `zs`.
-/

namespace Lists

variable {α : Type}

inductive Interleaved : List α → List α → List α → Prop
  | nil : Interleaved [] [] []
  | left (x : α) {xs ys zs : List α} : Interleaved xs ys zs → Interleaved (x :: xs) ys (x :: zs)
  | right (y : α) {xs ys zs : List α} : Interleaved xs ys zs → Interleaved xs (y :: ys) (y :: zs)

namespace Interleaved

variable {xs ys zs xs' ys' zs' : List α}

theorem all_left : ∀ xs : List α, Interleaved xs [] xs
  | [] => .nil
  | x :: xs => .left x (all_left xs)

theorem all_right : ∀ ys : List α, Interleaved [] ys ys
  | [] => .nil
  | y :: ys => .right y (all_right ys)

theorem append (h : Interleaved xs ys zs) (h' : Interleaved xs' ys' zs') :
    Interleaved (xs ++ xs') (ys ++ ys') (zs ++ zs') := by
  induction h with
  | nil => exact h'
  | left x _ ih => exact .left x ih
  | right y _ ih => exact .right y ih

end Interleaved

end Lists
