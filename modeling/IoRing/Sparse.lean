/-!
# Sparse rows

A `Sparse` row has a value at every natural number, and all but finitely many of
them are the default value.  It is a binary search tree over the numbers.  The
value at 0 sits at the root, the odd numbers go to the left and the even ones to
the right.

No subtree holds only default values, so a row has one tree.  Two rows with the
same values are therefore equal (`Sparse.ext`).  A value read is the one stored
last (`Sparse.get_set`).
-/

namespace IoRing

/-- A binary tree with a value at each inner node. -/
inductive SparseTree (α : Type) where
  /-- A tree of default values. -/
  | leaf
  /-- A value and two subtrees. -/
  | node (left : SparseTree α) (value : α) (right : SparseTree α)
deriving DecidableEq

namespace SparseTree

variable {α : Type} [Inhabited α]

/-- The value at the root. -/
def value : SparseTree α → α
  | leaf => default
  | node _ a _ => a

/-- The subtree of the odd numbers. -/
def left : SparseTree α → SparseTree α
  | leaf => leaf
  | node l _ _ => l

/-- The subtree of the even numbers but 0. -/
def right : SparseTree α → SparseTree α
  | leaf => leaf
  | node _ _ r => r

/-- The value at a number. -/
def get : SparseTree α → Nat → α
  | leaf, _ => default
  | node l a r, n =>
      if n = 0 then a
      else if n % 2 = 1 then l.get ((n - 1) / 2)
      else r.get ((n - 1) / 2)

/-- No subtree holds only default values. -/
def Canonical : SparseTree α → Prop
  | leaf => True
  | node l a r => l.Canonical ∧ r.Canonical ∧ ¬ (l = leaf ∧ a = default ∧ r = leaf)

theorem get_eq (t : SparseTree α) (n : Nat) :
    t.get n =
      if n = 0 then t.value
      else if n % 2 = 1 then t.left.get ((n - 1) / 2)
      else t.right.get ((n - 1) / 2) := by
  cases t with
  | leaf => simp [get, value, left, right]
  | node l a r => rfl

theorem Canonical.left {t : SparseTree α} (h : t.Canonical) : t.left.Canonical := by
  cases t with
  | leaf => exact h
  | node l a r => exact h.1

theorem Canonical.right {t : SparseTree α} (h : t.Canonical) : t.right.Canonical := by
  cases t with
  | leaf => exact h
  | node l a r => exact h.2.1

/-- A canonical tree of default values is the leaf. -/
theorem Canonical.eq_leaf {t : SparseTree α} (h : t.Canonical) (hget : ∀ n, t.get n = default) :
    t = leaf := by
  induction t with
  | leaf => rfl
  | node l a r ihl ihr =>
    have ha : a = default := hget 0
    have hl : l = leaf := ihl h.1 fun n => by
      have := hget (2 * n + 1)
      rwa [get, if_neg (by omega), if_pos (by omega), show (2 * n + 1 - 1) / 2 = n by omega]
        at this
    have hr : r = leaf := ihr h.2.1 fun n => by
      have := hget (2 * n + 2)
      rwa [get, if_neg (by omega), if_neg (by omega), show (2 * n + 2 - 1) / 2 = n by omega]
        at this
    exact absurd ⟨hl, ha, hr⟩ h.2.2

/-- Canonical trees with the same values are equal. -/
theorem Canonical.ext {t u : SparseTree α} (ht : t.Canonical) (hu : u.Canonical)
    (hget : ∀ n, t.get n = u.get n) : t = u := by
  induction t generalizing u with
  | leaf => exact (hu.eq_leaf fun n => (hget n).symm).symm
  | node l a r ihl ihr =>
    cases u with
    | leaf => exact ht.eq_leaf hget
    | node l' a' r' =>
      have ha : a = a' := hget 0
      have hl : l = l' := ihl ht.1 hu.1 fun n => by
        have := hget (2 * n + 1)
        rwa [get, get, if_neg (by omega), if_pos (by omega), if_neg (by omega),
          if_pos (by omega), show (2 * n + 1 - 1) / 2 = n by omega] at this
      have hr : r = r' := ihr ht.2.1 hu.2.1 fun n => by
        have := hget (2 * n + 2)
        rwa [get, get, if_neg (by omega), if_neg (by omega), if_neg (by omega),
          if_neg (by omega), show (2 * n + 2 - 1) / 2 = n by omega] at this
      rw [ha, hl, hr]

variable [DecidableEq α]

/-- A node, or the leaf if all its values are default values. -/
def join (l : SparseTree α) (a : α) (r : SparseTree α) : SparseTree α :=
  match l, r with
  | leaf, leaf => if a = default then leaf else node leaf a leaf
  | l, r => node l a r

theorem get_join (l : SparseTree α) (a : α) (r : SparseTree α) (n : Nat) :
    (join l a r).get n = (node l a r).get n := by
  unfold join
  split
  · split
    · next h => simp [get, h]
    · rfl
  · rfl

theorem canonical_join {l r : SparseTree α} (hl : l.Canonical) (a : α) (hr : r.Canonical) :
    (join l a r).Canonical := by
  unfold join
  split
  · split
    · trivial
    · next h => exact ⟨hl, hr, fun hall => h hall.2.1⟩
  · next h => exact ⟨hl, hr, fun hall => h hall.1 hall.2.2⟩

/-- The tree with a value replaced.  The first number bounds the depth and may be
any number that is not below the place. -/
def setWithin : (depth : Nat) → SparseTree α → (place : Nat) → α → SparseTree α
  | 0, t, _, a => join t.left a t.right
  | depth + 1, t, n, a =>
      if n = 0 then join t.left a t.right
      else if n % 2 = 1 then join (setWithin depth t.left ((n - 1) / 2) a) t.value t.right
      else join t.left t.value (setWithin depth t.right ((n - 1) / 2) a)

theorem canonical_setWithin (depth : Nat) {t : SparseTree α} (ht : t.Canonical) (n : Nat) (a : α) :
    (setWithin depth t n a).Canonical := by
  induction depth generalizing t n with
  | zero => exact canonical_join ht.left a ht.right
  | succ depth ih =>
    rw [setWithin]
    split
    · exact canonical_join ht.left a ht.right
    · split
      · exact canonical_join (ih ht.left _) _ ht.right
      · exact canonical_join ht.left _ (ih ht.right _)

theorem get_setWithin (depth : Nat) (t : SparseTree α) (n : Nat) (a : α) (h : n ≤ depth) (k : Nat) :
    (setWithin depth t n a).get k = if k = n then a else t.get k := by
  induction depth generalizing t n k with
  | zero =>
    obtain rfl : n = 0 := by omega
    rw [setWithin, get_join, get, t.get_eq k]
    split <;> rfl
  | succ depth ih =>
    rw [setWithin]
    split
    · next hn =>
      subst hn
      rw [get_join, get, t.get_eq k]
      split <;> rfl
    · next hn =>
      by_cases hk : k = 0
      · subst hk
        rw [if_neg (show ¬ 0 = n by omega), t.get_eq 0]
        split <;> simp [get_join, get]
      · split
        · next hodd =>
          rw [get_join, get, t.get_eq k, if_neg hk, if_neg hk]
          by_cases hkodd : k % 2 = 1
          · rw [if_pos hkodd, if_pos hkodd, ih _ _ (by omega)]
            by_cases hkn : k = n
            · simp [hkn]
            · rw [if_neg (by omega), if_neg hkn]
          · rw [if_neg hkodd, if_neg hkodd, if_neg (by omega)]
        · next heven =>
          rw [get_join, get, t.get_eq k, if_neg hk, if_neg hk]
          by_cases hkodd : k % 2 = 1
          · rw [if_pos hkodd, if_pos hkodd, if_neg (by omega)]
          · rw [if_neg hkodd, if_neg hkodd, ih _ _ (by omega)]
            by_cases hkn : k = n
            · simp [hkn]
            · rw [if_neg (by omega), if_neg hkn]

end SparseTree

/-! ## Rows -/

/-- A value at every natural number, mostly the default one. -/
structure Sparse (α : Type) [Inhabited α] where
  /-- The tree of the values. -/
  tree : SparseTree α
  /-- The tree is the only one with these values. -/
  canonical : tree.Canonical

namespace Sparse

variable {α : Type} [Inhabited α]

/-- The row of default values. -/
def empty : Sparse α := ⟨.leaf, trivial⟩

instance : Inhabited (Sparse α) := ⟨empty⟩

/-- The value at a number. -/
def get (s : Sparse α) (n : Nat) : α := s.tree.get n

/-- Rows with the same values are equal. -/
@[ext] theorem ext {s t : Sparse α} (h : ∀ n, s.get n = t.get n) : s = t := by
  have := s.canonical.ext t.canonical h
  cases s
  cases t
  cases this
  rfl

@[simp] theorem get_default (n : Nat) : (default : Sparse α).get n = default := rfl

variable [DecidableEq α]

instance : DecidableEq (Sparse α) := fun s t =>
  decidable_of_iff (s.tree = t.tree) ⟨fun h => by cases s; cases t; cases h; rfl, fun h => h ▸ rfl⟩

/-- The row with a value replaced. -/
def set (s : Sparse α) (n : Nat) (a : α) : Sparse α :=
  ⟨s.tree.setWithin n n a, SparseTree.canonical_setWithin n s.canonical n a⟩

/-- A value read is the one stored last. -/
theorem get_set (s : Sparse α) (n : Nat) (a : α) (k : Nat) :
    (s.set n a).get k = if k = n then a else s.get k :=
  SparseTree.get_setWithin n s.tree n a (Nat.le_refl n) k

/-- The row with consecutive values replaced. -/
def setAll (s : Sparse α) (n : Nat) : List α → Sparse α
  | [] => s
  | a :: as => (s.set n a).setAll (n + 1) as

theorem get_setAll (s : Sparse α) (n : Nat) (as : List α) (k : Nat) :
    (s.setAll n as).get k = if n ≤ k then as[k - n]?.getD (s.get k) else s.get k := by
  induction as generalizing s n with
  | nil => simp [setAll]
  | cons a as ih =>
    rw [setAll, ih, get_set]
    by_cases hk : k = n
    · subst hk
      rw [if_neg (by omega), if_pos rfl, if_pos (Nat.le_refl k)]
      simp
    · by_cases hlt : n + 1 ≤ k
      · rw [if_pos hlt, if_neg hk, if_pos (by omega), show k - n = k - (n + 1) + 1 by omega,
          List.getElem?_cons_succ]
      · rw [if_neg hlt, if_neg hk, if_neg (by omega)]

end Sparse

end IoRing
