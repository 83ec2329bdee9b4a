import Mathlib.Order.Interval.Finset.Nat

/-!
# Gaps

How many numbers an increasing sequence leaves out. What is left out between the first and the last is what
is missing to make the sequence an interval (`gaps_add_length`), so whoever knows where each of these numbers
has gone can bound the gaps (`gaps_le_length`). Of a sequence that passes by, a listener who tunes in only
once misses nothing but what is lost on the way to it (`Heard.between`).
-/

namespace Lib

/-- How many numbers there are between each entry and the next. -/
def gaps : List Nat → Nat
  | a :: b :: xs => b - a - 1 + gaps (b :: xs)
  | _ => 0

@[simp] theorem gaps_nil : gaps [] = 0 := rfl

@[simp] theorem gaps_singleton (a : Nat) : gaps [a] = 0 := rfl

@[simp] theorem gaps_cons_cons (a b : Nat) (xs : List Nat) :
    gaps (a :: b :: xs) = b - a - 1 + gaps (b :: xs) := rfl

theorem gaps_add_length {a : Nat} {xs : List Nat} (h : (a :: xs).Pairwise (· < ·)) :
    gaps (a :: xs) + (a :: xs).length + a = (a :: xs).getLast (List.cons_ne_nil a xs) + 1 := by
  induction xs generalizing a with
  | nil => simp [Nat.add_comm]
  | cons b xs ih =>
    obtain ⟨hfirst, hrest⟩ := List.pairwise_cons.1 h
    have hab := hfirst b List.mem_cons_self
    have htail := ih hrest
    rw [List.getLast_cons (List.cons_ne_nil b xs), gaps_cons_cons]
    simp only [List.length_cons] at htail ⊢
    omega

/-- **Where the numbers in the gaps have gone.** -/
theorem gaps_le_length {xs lost : List Nat} (h : xs.Pairwise (· < ·))
    (hlost : ∀ x ∈ xs, ∀ y ∈ xs, ∀ k, x < k → k < y → k ∈ xs ∨ k ∈ lost) : gaps xs ≤ lost.length := by
  cases xs with
  | nil => exact Nat.zero_le _
  | cons a xs =>
    let last := (a :: xs).getLast (List.cons_ne_nil a xs)
    have hmem : last ∈ a :: xs := List.getLast_mem _
    have hsub : Finset.Icc a last ⊆ (a :: xs).toFinset ∪ lost.toFinset := by
      intro k hk
      obtain ⟨hak, hkl⟩ := Finset.mem_Icc.1 hk
      rw [Finset.mem_union, List.mem_toFinset, List.mem_toFinset]
      rcases hak.eq_or_lt with rfl | hak
      · exact .inl List.mem_cons_self
      · rcases hkl.eq_or_lt with rfl | hkl
        · exact .inl hmem
        · exact hlost a List.mem_cons_self last hmem k hak hkl
    have hcard := (Finset.card_le_card hsub).trans (Finset.card_union_le _ _)
    have hxs := List.toFinset_card_le (a :: xs)
    have hls := List.toFinset_card_le lost
    have hinterval := gaps_add_length h
    have hfirst : a ≤ last := by
      rcases List.mem_cons.1 hmem with heq | hmem
      · exact heq.symm.le
      · exact (List.rel_of_pairwise_cons h hmem).le
    rw [Nat.card_Icc] at hcard
    simp only [last] at hcard hfirst
    omega

theorem mem_piece_of_lt {piece xs : List Nat} (h : piece <:+: xs) (hsorted : xs.Pairwise (· < ·)) {x y k : Nat}
    (hx : x ∈ piece) (hy : y ∈ piece) (hk : k ∈ xs) (hxk : x < k) (hky : k < y) : k ∈ piece := by
  obtain ⟨before, after, rfl⟩ := h
  obtain ⟨hleft, -, hright⟩ := List.pairwise_append.1 hsorted
  rcases List.mem_append.1 hk with hk | hk
  · rcases List.mem_append.1 hk with hk | hk
    · have hlt := (List.pairwise_append.1 hleft).2.2 k hk x hx
      omega
    · exact hk
  · have hlt := hright y (List.mem_append_right _ hy) k hk
    omega

/-! ### Listening -/

/-- The sequence `passed` goes by a listener, who is tuned in or not; what it gets is `got`, and `lost` is what
it does not get although it is tuned in. It does not tune in after it has got something. -/
inductive Heard {α : Type} : List α → Bool → List α → List α → Prop
  | start : Heard [] false [] []
  | tuneIn (passed lost : List α) (tuned : Bool) (before : Heard passed tuned [] lost) :
    Heard passed true [] lost
  | tuneOut (passed got lost : List α) (tuned : Bool) (before : Heard passed tuned got lost) :
      Heard passed false got lost
  | gets (passed got lost : List α) (a : α) (before : Heard passed true got lost) :
      Heard (passed ++ [a]) true (got ++ [a]) lost
  | loses (passed got lost : List α) (a : α) (before : Heard passed true got lost) :
      Heard (passed ++ [a]) true got (lost ++ [a])
  | misses (passed got lost : List α) (a : α) (before : Heard passed false got lost) :
      Heard (passed ++ [a]) false got lost

namespace Heard

theorem sublist {α : Type} {passed got lost : List α} {tuned : Bool} (h : Heard passed tuned got lost) :
    got.Sublist passed := by
  induction h with
  | start => exact .slnil
  | tuneIn passed lost tuned before ih => exact ih
  | tuneOut passed got lost tuned before ih => exact ih
  | gets passed got lost a before ih => exact ih.append (List.Sublist.refl _)
  | loses passed got lost a before ih => exact ih.trans (List.sublist_append_left _ _)
  | misses passed got lost a before ih => exact ih.trans (List.sublist_append_left _ _)

variable {passed got lost : List Nat} {tuned : Bool}

theorem lt_of_concat {xs : List Nat} {a x : Nat} (h : (xs ++ [a]).Pairwise (· < ·)) (hx : x ∈ xs) : x < a :=
  (List.pairwise_append.1 h).2.2 x hx a (List.mem_singleton_self a)

theorem after (h : Heard passed tuned got lost) (hsorted : passed.Pairwise (· < ·)) :
    (tuned = true → ∀ x ∈ got, ∀ k ∈ passed, x < k → k ∈ got ∨ k ∈ lost) ∧
      ∀ x ∈ got, ∀ y ∈ got, ∀ k ∈ passed, x < k → k < y → k ∈ got ∨ k ∈ lost := by
  induction h with
  | start => exact ⟨fun _ x hx => absurd hx List.not_mem_nil, fun x hx => absurd hx List.not_mem_nil⟩
  | tuneIn passed lost tuned before ih =>
    exact ⟨fun _ x hx => absurd hx List.not_mem_nil, fun x hx => absurd hx List.not_mem_nil⟩
  | tuneOut passed got lost tuned before ih => exact ⟨by rintro ⟨⟩, (ih hsorted).2⟩
  | gets passed got lost a before ih =>
    have hafter := (ih (List.pairwise_append.1 hsorted).1).1 rfl
    have hall : ∀ x ∈ got ++ [a], ∀ k ∈ passed ++ [a], x < k → k ∈ got ++ [a] ∨ k ∈ lost := by
      intro x hx k hk hxk
      rcases List.mem_append.1 hk with hpassed | hlast
      · rcases List.mem_append.1 hx with hx | hx
        · exact (hafter x hx k hpassed hxk).imp_left (List.mem_append_left _)
        · obtain rfl := List.mem_singleton.1 hx
          exact absurd hxk (lt_of_concat hsorted hpassed).asymm
      · exact .inl (List.mem_append_right _ hlast)
    exact ⟨fun _ => hall, fun x hx y hy k hk hxk _ => hall x hx k hk hxk⟩
  | loses passed got lost a before ih =>
    obtain ⟨hafter, -⟩ := ih (List.pairwise_append.1 hsorted).1
    have hall : ∀ x ∈ got, ∀ k ∈ passed ++ [a], x < k → k ∈ got ∨ k ∈ lost ++ [a] := by
      intro x hx k hk hxk
      rcases List.mem_append.1 hk with hk | hk
      · exact (hafter rfl x hx k hk hxk).imp_right (List.mem_append_left _)
      · exact .inr (List.mem_append_right _ hk)
    exact ⟨fun _ => hall, fun x hx y hy k hk hxk _ => hall x hx k hk hxk⟩
  | misses passed got lost a before ih =>
    refine ⟨by rintro ⟨⟩, fun x hx y hy k hk hxk hky => ?_⟩
    rcases List.mem_append.1 hk with hpassed | hlast
    · exact (ih (List.pairwise_append.1 hsorted).1).2 x hx y hy k hpassed hxk hky
    · -- it has got nothing that comes later
      obtain rfl := List.mem_singleton.1 hlast
      exact absurd hky (lt_of_concat hsorted (before.sublist.subset hy)).asymm

/-- **A listener misses nothing in between** but what is lost. -/
theorem between (h : Heard passed tuned got lost) (hsorted : passed.Pairwise (· < ·)) {x y k : Nat}
    (hx : x ∈ got) (hy : y ∈ got) (hk : k ∈ passed) (hxk : x < k) (hky : k < y) : k ∈ got ∨ k ∈ lost :=
  (h.after hsorted).2 x hx y hy k hk hxk hky

end Heard
end Lib
