import Mathlib.Data.Finmap
import Mathlib.Data.Finset.Sort

/-!
# Hash tables

A hash set is a `Finset`, a hash map a `Finmap`. What a program can see beyond their contents is the
order in which a loop visits them, which is unspecified: an `Iteration` is a choice of one order for
every set, and a program with such loops takes it as an argument.

`Buckets` are the maps from keys to sets that are edited by `entry(k).or_default().insert(v)` and by
removing `v` from the bucket of `k` and then the bucket if nothing is left in it. On `Tight` tables,
which have no empty bucket, the bucket contents determine the table (`Tight.ext`). `updateAll` is a loop
over the values of a map, and `retainUnseen` drops from a list what has occurred before, with a set of
what has been seen (`retainUnseen_empty`).
-/

namespace Lib

/-! ### Iteration order -/

section Iteration
variable {α : Type}

/-- An order in which a loop visits the elements of `s`, each once. -/
structure Enumeration (s : Finset α) where
  toList : List α
  nodup : toList.Nodup
  mem_iff : ∀ a, a ∈ toList ↔ a ∈ s

/-- The order a hash table's iterator happens to use, for every set. -/
abbrev Iteration (α : Type) := (s : Finset α) → Enumeration s

/-- One possible order. -/
def Iteration.sorted [LinearOrder α] : Iteration α := fun s =>
  ⟨s.sort (· ≤ ·), Finset.sort_nodup s _, fun _ => Finset.mem_sort _⟩

end Iteration

/-! ### Buckets -/

/-- A map from keys to sets of values. -/
abbrev Buckets (κ ν : Type) := Finmap fun _ : κ => Finset ν

namespace Buckets
variable {κ ν : Type} [DecidableEq κ]

/-- The bucket of `k`, empty if there is none. -/
def bucket (b : Buckets κ ν) (k : κ) : Finset ν := (b.lookup k).getD ∅

theorem bucket_eq_of_lookup {b : Buckets κ ν} {k : κ} {vs : Finset ν} (h : b.lookup k = some vs) :
    b.bucket k = vs := by
  rw [bucket, h, Option.getD_some]

/-- No key has an empty bucket. -/
def Tight (b : Buckets κ ν) : Prop := ∀ k, b.lookup k ≠ some ∅

variable {b b' : Buckets κ ν} {k k' : κ} {v v' : ν}

theorem tight_empty : Tight (∅ : Buckets κ ν) := fun k => by
  rw [Finmap.lookup_empty]; nofun

/-- In a tight table a key is present exactly if its bucket has an element. -/
theorem Tight.lookup_eq_none (h : b.Tight) : b.lookup k = none ↔ b.bucket k = ∅ := by
  cases hk : b.lookup k with
  | none => simp [bucket, hk]
  | some vs =>
    have hvs : vs ≠ ∅ := fun he => h k (he ▸ hk)
    simp [bucket_eq_of_lookup hk, hvs]

theorem Tight.lookup_eq_some (h : b.Tight) (hb : (b.bucket k).Nonempty) :
    b.lookup k = some (b.bucket k) := by
  cases hk : b.lookup k with
  | none => exact absurd (h.lookup_eq_none.1 hk) hb.ne_empty
  | some vs => rw [bucket_eq_of_lookup hk]

/-- A tight table is determined by the contents of its buckets. -/
theorem Tight.ext (h : b.Tight) (h' : b'.Tight) (he : ∀ k, b.bucket k = b'.bucket k) : b = b' := by
  refine Finmap.ext_lookup fun k => ?_
  rcases Finset.eq_empty_or_nonempty (b.bucket k) with hk | hk
  · rw [h.lookup_eq_none.2 hk, h'.lookup_eq_none.2 (he k ▸ hk)]
  · rw [h.lookup_eq_some hk, h'.lookup_eq_some (he k ▸ hk), he]

/-! ### Editing -/

variable [DecidableEq ν]

/-- `entry(k).or_default().insert(v)`. -/
def link (v : ν) (b : Buckets κ ν) (k : κ) : Buckets κ ν := b.insert k (insert v (b.bucket k))

/-- Removes `v` from the bucket of `k`, and the bucket if it is then empty. -/
def unlink (v : ν) (b : Buckets κ ν) (k : κ) : Buckets κ ν :=
  match b.lookup k with
  | none => b
  | some vs => if vs.erase v = ∅ then b.erase k else b.insert k (vs.erase v)

theorem lookup_link_self : (b.link v k).lookup k = some (insert v (b.bucket k)) :=
  Finmap.lookup_insert _

theorem lookup_link_of_ne (h : k' ≠ k) : (b.link v k).lookup k' = b.lookup k' :=
  Finmap.lookup_insert_of_ne _ h

theorem lookup_unlink_of_ne (h : k' ≠ k) : (b.unlink v k).lookup k' = b.lookup k' := by
  unfold unlink
  cases hk : b.lookup k with
  | none => rfl
  | some vs =>
    simp only
    split_ifs
    · exact Finmap.lookup_erase_ne h
    · exact Finmap.lookup_insert_of_ne _ h

theorem bucket_unlink_self : (b.unlink v k).bucket k = (b.bucket k).erase v := by
  unfold unlink
  cases hk : b.lookup k with
  | none =>
    have hb : b.bucket k = ∅ := by rw [bucket, hk, Option.getD_none]
    simp [hb]
  | some vs =>
    rw [bucket_eq_of_lookup hk]
    simp only
    split_ifs with he
    · rw [he, bucket, Finmap.lookup_erase, Option.getD_none]
    · rw [bucket, Finmap.lookup_insert, Option.getD_some]

@[simp] theorem mem_bucket_link :
    v' ∈ (b.link v k).bucket k' ↔ v' ∈ b.bucket k' ∨ v' = v ∧ k' = k := by
  by_cases hk : k' = k
  · subst hk
    rw [bucket_eq_of_lookup lookup_link_self, Finset.mem_insert]
    tauto
  · rw [bucket, lookup_link_of_ne hk, ← bucket]
    simp [hk]

@[simp] theorem mem_bucket_unlink :
    v' ∈ (b.unlink v k).bucket k' ↔ v' ∈ b.bucket k' ∧ ¬ (v' = v ∧ k' = k) := by
  by_cases hk : k' = k
  · subst hk
    rw [bucket_unlink_self, Finset.mem_erase]
    tauto
  · rw [bucket, lookup_unlink_of_ne hk, ← bucket]
    simp [hk]

theorem Tight.link (h : b.Tight) : (b.link v k).Tight := fun k' => by
  by_cases hk : k' = k
  · subst hk
    rw [lookup_link_self]
    exact fun he => Finset.insert_ne_empty _ _ (Option.some.inj he)
  · rw [lookup_link_of_ne hk]
    exact h k'

theorem Tight.unlink (h : b.Tight) : (b.unlink v k).Tight := fun k' => by
  by_cases hk : k' = k
  · subst hk
    unfold Buckets.unlink
    cases hb : b.lookup k' with
    | none =>
      simp only
      rw [hb]
      nofun
    | some vs =>
      simp only
      split_ifs with he
      · rw [Finmap.lookup_erase]
        nofun
      · rw [Finmap.lookup_insert]
        exact fun hs => he (Option.some.inj hs)
  · rw [lookup_unlink_of_ne hk]
    exact h k'

/-! ### Loops over keys -/

variable {ks : List κ}

/-- `v` is put into the bucket of every key of `ks`. -/
def linkAll (v : ν) (ks : List κ) (b : Buckets κ ν) : Buckets κ ν := ks.foldl (link v) b

/-- `v` is removed from the bucket of every key of `ks`. -/
def unlinkAll (v : ν) (ks : List κ) (b : Buckets κ ν) : Buckets κ ν := ks.foldl (unlink v) b

@[simp] theorem mem_bucket_linkAll :
    v' ∈ (b.linkAll v ks).bucket k' ↔ v' ∈ b.bucket k' ∨ v' = v ∧ k' ∈ ks := by
  unfold linkAll
  induction ks generalizing b with
  | nil => simp
  | cons k ks ih =>
    rw [List.foldl_cons, ih, mem_bucket_link, List.mem_cons]
    tauto

@[simp] theorem mem_bucket_unlinkAll :
    v' ∈ (b.unlinkAll v ks).bucket k' ↔ v' ∈ b.bucket k' ∧ ¬ (v' = v ∧ k' ∈ ks) := by
  unfold unlinkAll
  induction ks generalizing b with
  | nil => simp
  | cons k ks ih =>
    rw [List.foldl_cons, ih, mem_bucket_unlink, List.mem_cons]
    tauto

theorem Tight.linkAll (h : b.Tight) : (b.linkAll v ks).Tight :=
  List.foldlRecOn ks (Buckets.link v) h fun _ hb _ _ => hb.link

theorem Tight.unlinkAll (h : b.Tight) : (b.unlinkAll v ks).Tight :=
  List.foldlRecOn ks (Buckets.unlink v) h fun _ hb _ _ => hb.unlink

end Buckets

/-! ### Entries -/

section Entries
variable {κ ν : Type} [DecidableEq κ] {m : Finmap fun _ : κ => ν} {k : κ} {v : ν}

/-- The entries of a map in the order `order` of its keys. -/
def entries (order : Iteration κ) (m : Finmap fun _ : κ => ν) : List (κ × ν) :=
  (order m.keys).toList.filterMap fun k => (m.lookup k).map (Prod.mk k)

theorem mem_entries (order : Iteration κ) : (k, v) ∈ entries order m ↔ m.lookup k = some v := by
  unfold entries
  rw [List.mem_filterMap]
  constructor
  · rintro ⟨k', -, h⟩
    obtain ⟨v', hv, he⟩ := Option.map_eq_some_iff.1 h
    obtain ⟨rfl, rfl⟩ := Prod.mk.inj he
    exact hv
  · intro h
    refine ⟨k, ?_, by rw [h]; rfl⟩
    rw [Enumeration.mem_iff, Finmap.mem_keys, ← Finmap.lookup_isSome, h]
    rfl

theorem nodup_entries_keys (order : Iteration κ) : ((entries order m).map Prod.fst).Nodup := by
  have hfst : (entries order m).map Prod.fst = (order m.keys).toList.filter fun k => (m.lookup k).isSome := by
    unfold entries
    induction (order m.keys).toList with
    | nil => rfl
    | cons k ks ih =>
      cases h : m.lookup k <;> simp [h, ih]
  rw [hfst]
  exact (order m.keys).nodup.filter _

end Entries

/-! ### Updating every value -/

section Updating
variable {κ ν : Type} [DecidableEq κ]

/-- `for v in m.values_mut() { *v = f(v) }`. -/
def updateAll (order : Iteration κ) (f : ν → ν) (m : Finmap fun _ : κ => ν) : Finmap fun _ : κ => ν :=
  (order m.keys).toList.foldl (fun m k => (m.lookup k).elim m fun v => m.insert k (f v)) m

theorem lookup_foldl_update {f : ν → ν} {ks : List κ} (hks : ks.Nodup) (m : Finmap fun _ : κ => ν)
    (k : κ) : (ks.foldl (fun m k => (m.lookup k).elim m fun v => m.insert k (f v)) m).lookup k =
      if k ∈ ks then (m.lookup k).map f else m.lookup k := by
  induction ks generalizing m with
  | nil => rfl
  | cons k' ks ih =>
    obtain ⟨hk', hks⟩ := List.nodup_cons.1 hks
    rw [List.foldl_cons, ih hks]
    by_cases hk : k = k'
    · subst hk
      rw [if_neg hk', if_pos List.mem_cons_self]
      cases h : m.lookup k with
      | none => exact h
      | some v => exact Finmap.lookup_insert _
    · have hlookup : ((m.lookup k').elim m fun v => m.insert k' (f v)).lookup k = m.lookup k := by
        cases m.lookup k' with
        | none => rfl
        | some v => exact Finmap.lookup_insert_of_ne _ hk
      simp only [hlookup, List.mem_cons, hk, false_or]

theorem lookup_updateAll (order : Iteration κ) (f : ν → ν) (m : Finmap fun _ : κ => ν) (k : κ) :
    (updateAll order f m).lookup k = (m.lookup k).map f := by
  unfold updateAll
  rw [lookup_foldl_update (order m.keys).nodup]
  split_ifs with hk
  · rfl
  · rw [Enumeration.mem_iff, Finmap.mem_keys, ← Finmap.lookup_eq_none] at hk
    rw [hk]
    rfl

end Updating

/-! ### First occurrences -/

section FirstOccurrences
variable {α : Type} [DecidableEq α]

/-- `as.retain(|a| seen.insert(a))`: an element is kept if it was not in the set yet. -/
def retainUnseen (seen : Finset α) : List α → List α
  | [] => []
  | a :: as => if a ∈ seen then retainUnseen seen as else a :: retainUnseen (insert a seen) as

/-- The elements of a list at the positions that no equal element comes before. -/
def firstOccurrences (as : List α) : List α :=
  (as.zipIdx.filter fun p => p.1 ∉ as.take p.2).map Prod.fst

/-- The set holds what came before. -/
theorem retainUnseen_eq {seen : Finset α} {before : List α} (hseen : ∀ a, a ∈ seen ↔ a ∈ before)
    (as : List α) : retainUnseen seen as =
      ((as.zipIdx before.length).filter fun p => p.1 ∉ (before ++ as).take p.2).map Prod.fst := by
  induction as generalizing seen before with
  | nil => rfl
  | cons a as ih =>
    have hrest : before ++ a :: as = (before ++ [a]) ++ as := by simp
    have hlength : before.length + 1 = (before ++ [a]).length := by simp
    rw [List.zipIdx_cons, List.filter_cons, retainUnseen]
    by_cases ha : a ∈ seen
    · have hseen' : ∀ x, x ∈ seen ↔ x ∈ before ++ [a] := by
        intro x
        rw [List.mem_append, List.mem_singleton, ← hseen]
        exact ⟨.inl, fun hx => hx.elim id fun hx => hx ▸ ha⟩
      rw [if_pos ha, if_neg (by simpa using (hseen a).1 ha), hlength, ih hseen', hrest]
    · have hseen' : ∀ x, x ∈ insert a seen ↔ x ∈ before ++ [a] := by
        intro x
        rw [Finset.mem_insert, List.mem_append, List.mem_singleton, hseen]
        exact or_comm
      rw [if_neg ha, if_pos (by simpa using mt (hseen a).2 ha), hlength, ih hseen', hrest, List.map_cons]

theorem retainUnseen_empty (as : List α) : retainUnseen ∅ as = firstOccurrences as := by
  have hseen : ∀ a, a ∈ (∅ : Finset α) ↔ a ∈ ([] : List α) := by simp
  exact retainUnseen_eq hseen as

theorem mem_retainUnseen {seen : Finset α} {as : List α} {a : α} :
    a ∈ retainUnseen seen as ↔ a ∈ as ∧ a ∉ seen := by
  induction as generalizing seen with
  | nil => simp [retainUnseen]
  | cons b as ih =>
    unfold retainUnseen
    split_ifs with hb
    · rw [ih, List.mem_cons]
      refine ⟨fun h => ⟨.inr h.1, h.2⟩, ?_⟩
      rintro ⟨rfl | ha, hseen⟩
      · exact absurd hb hseen
      · exact ⟨ha, hseen⟩
    · rw [List.mem_cons, List.mem_cons, ih, Finset.mem_insert, not_or]
      by_cases hab : a = b
      · simp [hab, hb]
      · simp [hab]

theorem nodup_retainUnseen (seen : Finset α) (as : List α) : (retainUnseen seen as).Nodup := by
  induction as generalizing seen with
  | nil => exact List.nodup_nil
  | cons a as ih =>
    unfold retainUnseen
    split_ifs
    · exact ih seen
    · refine List.nodup_cons.2 ⟨fun hmem => ?_, ih _⟩
      exact (mem_retainUnseen.1 hmem).2 (Finset.mem_insert_self a seen)

theorem retainUnseen_of_nodup {seen : Finset α} {as : List α} (hnodup : as.Nodup)
    (hnew : ∀ a ∈ as, a ∉ seen) : retainUnseen seen as = as := by
  induction as generalizing seen with
  | nil => rfl
  | cons a as ih =>
    obtain ⟨ha, hnodup⟩ := List.nodup_cons.1 hnodup
    rw [retainUnseen, if_neg (hnew a List.mem_cons_self), ih hnodup]
    intro b hb
    rw [Finset.mem_insert, not_or]
    exact ⟨fun hba => ha (hba ▸ hb), hnew b (List.mem_cons_of_mem a hb)⟩

theorem retainUnseen_retainUnseen (as : List α) :
    retainUnseen ∅ (retainUnseen ∅ as) = retainUnseen ∅ as :=
  retainUnseen_of_nodup (nodup_retainUnseen ∅ as) (by simp)

end FirstOccurrences

/-! ### Groups -/

/-- A map from keys to lists of values. -/
abbrev Groups (κ ν : Type) := Finmap fun _ : κ => List ν

namespace Groups
variable {κ ν : Type} [DecidableEq κ]

/-- `entry(k).or_default().push(v)` with `k` the key of `v`, if it has one. -/
def push (key : ν → Option κ) (g : Groups κ ν) (v : ν) : Groups κ ν :=
  match key v with
  | some k => g.insert k ((g.lookup k).getD [] ++ [v])
  | none => g

theorem lookup_foldl_push (key : ν → Option κ) (vs : List ν) (g : Groups κ ν) (k : κ) :
    (vs.foldl (push key) g).lookup k =
      if vs.filter (fun v => key v = some k) = [] then g.lookup k
      else some ((g.lookup k).getD [] ++ vs.filter fun v => key v = some k) := by
  induction vs generalizing g with
  | nil => simp
  | cons v vs ih =>
    rw [List.foldl_cons, ih]
    unfold push
    cases hv : key v with
    | none => simp [hv]
    | some k' =>
      by_cases hk : k' = k
      · subst hk
        have hfilter : (v :: vs).filter (fun v => key v = some k') =
            v :: vs.filter fun v => key v = some k' := by simp [hv]
        rw [hfilter, if_neg (List.cons_ne_nil _ _), Finmap.lookup_insert, Option.getD_some]
        by_cases hnil : vs.filter (fun v => key v = some k') = []
        · rw [if_pos hnil, hnil]
        · rw [if_neg hnil, List.append_assoc, List.singleton_append]
      · have hk' : k ≠ k' := fun h => hk h.symm
        simp [hv, hk, Finmap.lookup_insert_of_ne _ hk']

/-- Grouping a list by key: each group holds the values with its key, in their order, and there is
no empty group. -/
theorem lookup_group (key : ν → Option κ) (vs : List ν) (k : κ) (group : List ν) :
    (vs.foldl (push key) (∅ : Groups κ ν)).lookup k = some group ↔
      group ≠ [] ∧ group = vs.filter fun v => key v = some k := by
  rw [lookup_foldl_push, Finmap.lookup_empty, Option.getD_none, List.nil_append]
  split_ifs with h
  · rw [h]
    simp
  · rw [Option.some.injEq]
    constructor
    · rintro rfl
      exact ⟨h, rfl⟩
    · exact fun hg => hg.2.symm

end Groups
end Lib
