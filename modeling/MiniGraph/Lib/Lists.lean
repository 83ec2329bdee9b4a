import Mathlib.Algebra.BigOperators.Group.List.Basic
import Mathlib.Algebra.GroupWithZero.Nat
import Mathlib.Data.List.Basic
import Mathlib.Data.List.Forall2
import Mathlib.Data.List.Nodup
import Mathlib.Data.Set.Function
import Mathlib.Tactic.SplitIfs

/-!
# Lists

Where a list is cut that has a separator in it, what a list is known from, how long the lists are that
are made of others, and what matches an entry of a list.
-/

namespace Lib
variable {α β : Type}

/-! ### Separators -/

theorem append_cons_cases {xs ys zs ws : List α} {a b : α} (hb : b ∉ xs)
    (h : xs ++ a :: ys = zs ++ b :: ws) :
    zs = xs ∧ a = b ∧ ys = ws ∨ ∃ zs', zs = xs ++ a :: zs' ∧ ys = zs' ++ b :: ws := by
  rcases List.append_eq_append_iff.1 h with ⟨zs', rfl, hrest⟩ | ⟨xs', rfl, hrest⟩
  · cases zs' with
    | nil =>
      obtain ⟨rfl, rfl⟩ := List.cons.inj hrest
      exact .inl ⟨List.append_nil _, rfl, rfl⟩
    | cons a' zs' =>
      obtain ⟨rfl, rfl⟩ := List.cons.inj hrest
      exact .inr ⟨zs', rfl, rfl⟩
  · cases xs' with
    | nil =>
      obtain ⟨rfl, rfl⟩ := List.cons.inj hrest
      exact .inl ⟨(List.append_nil _).symm, rfl, rfl⟩
    | cons b' xs' =>
      obtain rfl := (List.cons.inj hrest).1
      exact absurd (List.mem_append_right _ List.mem_cons_self) hb

/-- A list is cut in one way at its first separator, whatever comes after it. -/
theorem cut_inj {sep : α} {front front' rest rest' : List α} (hfront : sep ∉ front)
    (hfront' : sep ∉ front') (h : front ++ sep :: rest = front' ++ sep :: rest') :
    front = front' ∧ rest = rest' := by
  rcases append_cons_cases hfront h with ⟨rfl, -, rfl⟩ | ⟨between, rfl, -⟩
  · exact ⟨rfl, rfl⟩
  · exact absurd (List.mem_append_right _ List.mem_cons_self) hfront'

theorem prefix_append_cons {xs ys zs : List α} {a : α} (h : xs <+: ys ++ a :: zs) :
    xs <+: ys ∨ ∃ ws, xs = ys ++ a :: ws := by
  obtain ⟨later, hlater⟩ := h
  rcases List.append_eq_append_iff.1 hlater with ⟨between, rfl, -⟩ | ⟨between, rfl, hrest⟩
  · exact .inl ⟨between, rfl⟩
  · cases between with
    | nil => exact .inl ⟨[], by simp⟩
    | cons b between =>
      obtain ⟨rfl, -⟩ := List.cons.inj hrest
      exact .inr ⟨between, rfl⟩

/-! ### Entries after others -/

/-- `P` holds of every entry of a list, next to the entries before it. -/
def EachAfter (P : List α → α → Prop) (as : List α) : Prop :=
  ∀ before a after, as = before ++ a :: after → P before a

theorem eachAfter_nil {P : List α → α → Prop} : EachAfter P [] := by
  intro before a after h
  simp at h

theorem eachAfter_concat {P : List α → α → Prop} {as : List α} {a : α} :
    EachAfter P (as ++ [a]) ↔ EachAfter P as ∧ P as a := by
  constructor
  · intro h
    refine ⟨fun before b after hsplit => ?_, h as a [] rfl⟩
    exact h before b (after ++ [a]) (by rw [hsplit, List.append_assoc, List.cons_append])
  · rintro ⟨hall, ha⟩ before b after hsplit
    rcases List.eq_nil_or_concat after with rfl | ⟨after', last, rfl⟩
    · obtain ⟨rfl, hlast⟩ := List.append_inj' hsplit rfl
      obtain rfl := (List.cons.inj hlast).1
      exact ha
    · rw [List.concat_eq_append, ← List.cons_append, ← List.append_assoc] at hsplit
      exact hall before b after' (List.append_inj' hsplit rfl).1

/-! ### Images -/

/-- A list whose elements a function tells apart is known from its image, up to the order. -/
theorem perm_of_map_perm {f : α → β} {s : Set α} (hf : Set.InjOn f s) {as as' : List α}
    (has : ∀ a ∈ as, a ∈ s) (has' : ∀ a ∈ as', a ∈ s) (h : (as.map f).Perm (as'.map f)) :
    as.Perm as' := by
  cases as with
  | nil =>
    have hnil : as'.map f = [] := List.perm_nil.1 h.symm
    rw [List.map_eq_nil_iff.1 hnil]
  | cons a as =>
    have : Nonempty α := ⟨a⟩
    have hinv : ∀ {bs : List α}, (∀ b ∈ bs, b ∈ s) → (bs.map f).map (Function.invFunOn f s) = bs := by
      intro bs hbs
      rw [List.map_map]
      exact (List.map_congr_left fun b hb => hf.leftInvOn_invFunOn (hbs b hb)).trans (List.map_id bs)
    have hperm := h.map (Function.invFunOn f s)
    rwa [hinv has, hinv has'] at hperm

/-! ### Bounds -/

theorem length_le_flatMap {f : α → List β} (hf : ∀ a, 0 < (f a).length) (as : List α) :
    as.length ≤ (as.flatMap f).length := by
  induction as with
  | nil => exact Nat.le_refl _
  | cons a as ih =>
    have ha := hf a
    rw [List.flatMap_cons, List.length_append, List.length_cons]
    omega

theorem countP_zip_le {p : α → Bool} {r : α × β → Bool} (hr : ∀ x, r x → p x.1)
    (as : List α) (bs : List β) : (as.zip bs).countP r ≤ as.countP p := by
  induction as generalizing bs with
  | nil => simp
  | cons a as ih =>
    cases bs with
    | nil => simp
    | cons b bs =>
      have h := ih bs
      have hab := hr (a, b)
      rw [List.zip_cons_cons, List.countP_cons, List.countP_cons]
      split_ifs with hrab hpa hpa
      · omega
      · exact absurd (hab hrab) hpa
      · omega
      · omega

/-! ### Matching lists -/

theorem exists_right_of_forall₂ {R : α → β → Prop} {as : List α} {bs : List β}
    (h : List.Forall₂ R as bs) {a : α} (ha : a ∈ as) : ∃ b ∈ bs, R a b := by
  induction h with
  | nil => cases ha
  | cons hab _ ih =>
    rcases List.mem_cons.1 ha with rfl | ha
    · exact ⟨_, List.mem_cons_self, hab⟩
    · obtain ⟨b, hb, hR⟩ := ih ha
      exact ⟨b, List.mem_cons_of_mem _ hb, hR⟩

theorem exists_left_of_forall₂ {R : α → β → Prop} {as : List α} {bs : List β}
    (h : List.Forall₂ R as bs) {b : β} (hb : b ∈ bs) : ∃ a ∈ as, R a b :=
  exists_right_of_forall₂ h.flip hb

theorem forall₂_split {R : α → β → Prop} {as : List α} {bs : List β} (h : List.Forall₂ R as bs) {i : Nat}
    {a : α} (ha : as[i]? = some a) :
    ∃ bs₁ b bs₂, bs = bs₁ ++ b :: bs₂ ∧ List.Forall₂ R (as.take i) bs₁ ∧ R a b := by
  induction h generalizing i with
  | nil => simp at ha
  | @cons a' b' as bs hab h ih =>
    cases i with
    | zero =>
      obtain rfl := Option.some.inj ha
      exact ⟨[], b', bs, rfl, .nil, hab⟩
    | succ i =>
      obtain ⟨bs₁, b, bs₂, rfl, hbefore, hR⟩ := ih ha
      exact ⟨b' :: bs₁, b, bs₂, rfl, .cons hab hbefore, hR⟩

theorem forall₂_getElem? {R : α → β → Prop} {as : List α} {bs : List β} (h : List.Forall₂ R as bs) {i : Nat}
    {a : α} (ha : as[i]? = some a) : ∃ b, bs[i]? = some b ∧ R a b := by
  obtain ⟨bs₁, b, bs₂, rfl, hbefore, hR⟩ := forall₂_split h ha
  have hlength : bs₁.length = i := by
    rw [← hbefore.length_eq]
    exact List.length_take_of_le (List.getElem?_eq_some_iff.1 ha).1.le
  exact ⟨b, by simp [← hlength], hR⟩

theorem mem_prefix_of_lt {r : α → α → Prop} {as bs : List α} (h : as <+: bs)
    (hsorted : bs.Pairwise r) {a b : α} (ha : a ∈ as) (hb : b ∈ bs) (hlt : ¬ r a b) : b ∈ as := by
  obtain ⟨later, rfl⟩ := h
  rcases List.mem_append.1 hb with hb | hb
  · exact hb
  · exact absurd ((List.pairwise_append.1 hsorted).2.2 a ha b hb) hlt

theorem lookup_of_nodup [BEq α] [LawfulBEq α] {entries : List (α × β)} (h : (entries.map Prod.fst).Nodup)
    {entry : α × β} (hmem : entry ∈ entries) : entries.lookup entry.1 = some entry.2 := by
  obtain ⟨before, after, rfl⟩ := List.append_of_mem hmem
  refine List.lookup_eq_some_iff.2 ⟨before, after, rfl, fun other hother => ?_⟩
  rw [List.map_append, List.map_cons] at h
  have hdisjoint := (List.nodup_append.1 h).2.2
  have hne := hdisjoint other.1 (List.mem_map_of_mem hother) entry.1 List.mem_cons_self
  simpa using Ne.symm hne

theorem countP_of_single [DecidableEq α] [DecidableEq β] {entries : List (α × β)} {a : α} {b : β}
    (hmem : (a, b) ∈ entries) (hone : entries.countP (fun x => x.1 = a) ≤ 1) (b' : β) :
    entries.countP (fun x => x = (a, b')) = if b = b' then 1 else 0 := by
  obtain ⟨before, after, rfl⟩ := List.append_of_mem hmem
  have hle : ∀ xs : List (α × β), xs.countP (fun x => x = (a, b')) ≤ xs.countP fun x => x.1 = a := by
    intro xs
    refine List.countP_mono_left fun x _ hx => ?_
    rw [of_decide_eq_true hx]
    exact decide_eq_true rfl
  have hbefore := hle before
  have hafter := hle after
  rw [List.countP_append, List.countP_cons, if_pos (decide_eq_true rfl)] at hone
  rw [List.countP_append, List.countP_cons]
  simp only [Prod.mk.injEq, true_and, decide_eq_true_eq]
  omega

theorem sum_map_ite_eq_count [DecidableEq α] (keys : List α) (a : α) :
    (keys.map fun a' => if a = a' then 1 else 0).sum = keys.count a := by
  induction keys with
  | nil => rfl
  | cons a' keys ih =>
    rw [List.map_cons, List.sum_cons, ih, List.count_cons, Nat.add_comm]
    by_cases ha : a = a'
    · simp [ha]
    · simp [ha, Ne.symm ha]

theorem sum_countP_le [DecidableEq α] [DecidableEq β] {keys : List α} (h : keys.Nodup) (b : β)
    (entries : List (α × β)) : (keys.map fun a => entries.countP fun x => x = (a, b)).sum ≤
      entries.countP fun x => x.2 = b := by
  induction entries with
  | nil => simp
  | cons entry entries ih =>
    have hentry : (keys.map fun a => if entry = (a, b) then 1 else 0).sum ≤ if entry.2 = b then 1 else 0 := by
      obtain ⟨a', b'⟩ := entry
      by_cases hb : b' = b
      · subst hb
        simp only [Prod.mk.injEq, and_true, if_true, sum_map_ite_eq_count]
        exact List.nodup_iff_count_le_one.1 h a'
      · simp [hb]
    simp only [List.countP_cons, decide_eq_true_eq, List.sum_map_add]
    exact Nat.add_le_add ih hentry

end Lib
