import Mathlib.Data.List.Infix

/-!
# Subsequences with repetition

`Stutters l' l`: the list `l'` goes through `l` in order, and may leave out an element or come to it
several times in a row. What it goes through in order stays in order (`Stutters.pairwise`).
-/

namespace Lib
variable {α : Type} {l l' : List α} {a b : α}

inductive Stutters : List α → List α → Prop
  | nil : Stutters [] []
  /-- one more element, which is left out so far -/
  | skip {l' l : List α} (a : α) : Stutters l' l → Stutters l' (l ++ [a])
  /-- the last element, once more -/
  | again {l' l : List α} {a : α} : Stutters l' (l ++ [a]) → Stutters (l' ++ [a]) (l ++ [a])

namespace Stutters

theorem append (h : Stutters l' l) (r : List α) : Stutters l' (l ++ r) := by
  induction r using List.reverseRecOn with
  | nil =>
    rw [List.append_nil]
    exact h
  | append_singleton r a ih =>
    rw [← List.append_assoc]
    exact ih.skip a

theorem mem (h : Stutters l' l) (ha : a ∈ l') : a ∈ l := by
  induction h with
  | nil => exact ha
  | skip b _ ih => exact List.mem_append_left _ (ih ha)
  | again _ ih =>
    rcases List.mem_append.1 ha with ha | ha
    · exact ih ha
    · exact List.mem_append_right _ ha

/-- Two elements of `l'` are equal or in the order of `l`. -/
theorem pairwise {R : α → α → Prop} (h : Stutters l' l) (hl : l.Pairwise R) :
    l'.Pairwise fun a b => a = b ∨ R a b := by
  induction h with
  | nil => exact List.Pairwise.nil
  | skip b _ ih => exact ih (List.pairwise_append.1 hl).1
  | again h ih =>
    refine List.pairwise_append.2 ⟨ih hl, List.pairwise_singleton _ _, ?_⟩
    intro a ha b hb
    rw [List.mem_singleton.1 hb]
    rcases List.mem_append.1 (h.mem ha) with ha | ha
    · exact .inr ((List.pairwise_append.1 hl).2.2 a ha _ List.mem_cons_self)
    · exact .inl (List.mem_singleton.1 ha)

end Stutters
end Lib
