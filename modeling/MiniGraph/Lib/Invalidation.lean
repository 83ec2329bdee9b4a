import Mathlib.Data.Set.Insert
import Mathlib.Order.Basic

/-!
# Invalidation

A store that changes, and keys for what is known about it. What a change touches is announced; that is sound
if whatever is known under the other keys is known as before (`SoundInvalidation`). Then what is not known any
more has been announced in between (`exists_touching`). The last section has a table whose rows are inserted,
updated and deleted.
-/

namespace Lib
variable {σ χ κ α ρ : Type}

/-- What is known under `key` of a store is known of every later one (`keeps`), unless a change touches it. -/
structure SoundInvalidation (apply : χ → σ → σ) (keeps : κ → σ → σ → Prop) (touches : χ → κ → Prop) :
    Prop where
  refl : ∀ key s, keeps key s s
  trans : ∀ key s s' s'', keeps key s s' → keeps key s' s'' → keeps key s s''
  kept : ∀ change s key, ¬ touches change key → keeps key s (apply change s)

theorem soundInvalidation_of_answer {apply : χ → σ → σ} {answer : κ → σ → α} {touches : χ → κ → Prop}
    (h : ∀ change s key, ¬ touches change key → answer key (apply change s) = answer key s) :
    SoundInvalidation apply (fun key s s' => answer key s = answer key s') touches where
  refl _ _ := rfl
  trans _ _ _ _ := Eq.trans
  kept change s key hkey := (h change s key hkey).symm

/-- The store after `changes`. -/
def afterChanges (apply : χ → σ → σ) (s : σ) (changes : List χ) : σ :=
  changes.foldl (fun s change => apply change s) s

theorem afterChanges_append (apply : χ → σ → σ) (s : σ) (changes changes' : List χ) :
    afterChanges apply s (changes ++ changes') = afterChanges apply (afterChanges apply s changes) changes' :=
  List.foldl_append

/-- The store after the first `n` of some transactions. -/
def afterFirst (apply : χ → σ → σ) (s : σ) (transactions : List (List χ)) (n : Nat) : σ :=
  afterChanges apply s (transactions.take n).flatten

namespace SoundInvalidation
variable {apply : χ → σ → σ} {keeps : κ → σ → σ → Prop} {touches : χ → κ → Prop} {s : σ} {key : κ}
  {transactions : List (List χ)} {i j n : Nat}

theorem afterChanges_kept (h : SoundInvalidation apply keeps touches) {changes : List χ}
    (hchanges : ∀ change ∈ changes, ¬ touches change key) : keeps key s (afterChanges apply s changes) := by
  induction changes generalizing s with
  | nil => exact h.refl key s
  | cons change changes ih =>
    have hfirst := h.kept change s key (hchanges change List.mem_cons_self)
    exact h.trans _ _ _ _ hfirst (ih fun change' hmem => hchanges change' (List.mem_cons_of_mem _ hmem))

theorem afterFirst_kept (h : SoundInvalidation apply keeps touches)
    (hchanges : ∀ changes, transactions[n]? = some changes → ∀ change ∈ changes, ¬ touches change key) :
    keeps key (afterFirst apply s transactions n) (afterFirst apply s transactions (n + 1)) := by
  unfold afterFirst
  rw [List.take_add_one, List.flatten_append, afterChanges_append]
  refine h.afterChanges_kept fun change hmem => ?_
  cases hnext : transactions[n]? with
  | none => simp [hnext] at hmem
  | some changes =>
    rw [hnext, Option.toList_some, List.flatten_singleton] at hmem
    exact hchanges changes hnext change hmem

/-- **What is not known any more has been announced**, by a transaction in between. -/
theorem exists_touching (h : SoundInvalidation apply keeps touches) (hij : i ≤ j)
    (hlost : ¬ keeps key (afterFirst apply s transactions i) (afterFirst apply s transactions j)) :
    ∃ k changes change, i ≤ k ∧ k < j ∧ transactions[k]? = some changes ∧ change ∈ changes ∧
      touches change key := by
  induction j, hij using Nat.le_induction with
  | base => exact absurd (h.refl _ _) hlost
  | succ j hij ih =>
    by_cases hkept : keeps key (afterFirst apply s transactions i) (afterFirst apply s transactions j)
    · -- it is lost in the last transaction
      by_contra hnone
      refine hlost (h.trans _ _ _ _ hkept (h.afterFirst_kept fun changes hnext change hmem htouches => ?_))
      exact hnone ⟨j, changes, change, hij, Nat.lt_succ_self j, hnext, hmem, htouches⟩
    · obtain ⟨k, changes, change, hik, hkj, hfound⟩ := ih hkept
      exact ⟨k, changes, change, hik, Nat.lt_succ_of_lt hkj, hfound⟩

end SoundInvalidation

/-! ### Tables -/

inductive TableChange (ρ : Type) where
  | insert (new : ρ)
  | update (old new : ρ)
  | delete (old : ρ)
deriving DecidableEq, Repr

namespace TableChange

/-- The rows that a change is about. -/
def rows : TableChange ρ → List ρ
  | .insert new => [new]
  | .update old new => [old, new]
  | .delete old => [old]

/-- The row that is no longer there, unless it is the new one, too. -/
def removed : TableChange ρ → Option ρ
  | .insert _ => none
  | .update old _ => some old
  | .delete old => some old

def apply : TableChange ρ → Set ρ → Set ρ
  | .insert new, table => {new} ∪ table
  | .update old new, table => {new} ∪ table \ {old}
  | .delete old, table => table \ {old}

theorem mem_apply_iff {change : TableChange ρ} {row : ρ} (h : row ∉ change.rows) (table : Set ρ) :
    row ∈ change.apply table ↔ row ∈ table := by
  cases change <;> simp_all [rows, apply]

theorem mem_apply_of_mem {change : TableChange ρ} {row : ρ} (h : change.removed ≠ some row) {table : Set ρ}
    (hmem : row ∈ table) : row ∈ change.apply table := by
  cases change with
  | insert new => exact .inr hmem
  | update old new => exact .inr ⟨hmem, fun heq => h (congrArg some heq.symm)⟩
  | delete old => exact ⟨hmem, fun heq => h (congrArg some heq.symm)⟩

theorem select_apply {kind : ρ → Prop} {change : TableChange ρ} (h : ∀ row ∈ change.rows, ¬ kind row)
    (table : Set ρ) : {row ∈ change.apply table | kind row} = {row ∈ table | kind row} := by
  ext row
  simp only [Set.mem_ofPred_eq, and_congr_left_iff]
  intro hkind
  exact mem_apply_iff (fun hmem => h row hmem hkind) table

end TableChange
end Lib
