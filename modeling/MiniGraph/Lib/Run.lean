import Mathlib.Data.List.Induction

/-!
# Runs

Runs of a machine that answers every input (`runs`), and of a machine some of whose steps are not
enabled in every state (`exec`). `runs_simulation` relates two of the first; `exec_preserves` and
`exec_invariant` lift what a step preserves to the runs of the second, the latter for runs all of
whose steps satisfy a condition. `exec_history` is for invariants that speak of the steps so far; a
`log` is what is read off them one by one, and a `record` is kept along them. `exec_simulation` relates the
two kinds of machines.
-/

namespace Lib
variable {σ τ α β : Type}

/-! ### Machines that answer -/

/-- The answers to the inputs, in order, and the state left behind. -/
def runs (step : σ → α → β × σ) (s : σ) : List α → List β × σ
  | [] => ([], s)
  | a :: as => ((step s a).1 :: (runs step (step s a).2 as).1, (runs step (step s a).2 as).2)

section Answering
variable {step : σ → α → β × σ} {s : σ}

theorem runs_append (as as' : List α) : runs step s (as ++ as') =
    ((runs step s as).1 ++ (runs step (runs step s as).2 as').1,
      (runs step (runs step s as).2 as').2) := by
  induction as generalizing s with
  | nil => rfl
  | cons a as ih =>
    rw [List.cons_append, runs, ih]
    rfl

theorem runs_concat (as : List α) (a : α) : runs step s (as ++ [a]) =
    ((runs step s as).1 ++ [(step (runs step s as).2 a).1], (step (runs step s as).2 a).2) :=
  runs_append as [a]

theorem length_runs (as : List α) : (runs step s as).1.length = as.length := by
  induction as generalizing s with
  | nil => rfl
  | cons a as ih => rw [runs, List.length_cons, List.length_cons, ih]

/-- A simulation: related machines give the same answers and stay related. -/
theorem runs_simulation {step' : τ → α → β × τ} {t : τ} {R : σ → τ → Prop} (h : R s t)
    (hstep : ∀ s t a, R s t → (step s a).1 = (step' t a).1 ∧ R (step s a).2 (step' t a).2)
    (as : List α) :
    (runs step s as).1 = (runs step' t as).1 ∧ R (runs step s as).2 (runs step' t as).2 := by
  induction as generalizing s t with
  | nil => exact ⟨rfl, h⟩
  | cons a as ih =>
    have ha := hstep s t a h
    have has := ih ha.2
    refine ⟨?_, has.2⟩
    show _ :: _ = _ :: _
    rw [ha.1, has.1]

theorem runs_flatMap {γ : Type} {β : Type} {step : σ → α → List β × σ} {step' : τ → γ → List β × τ}
    {f : α → List γ} {abs : σ → τ}
    (h : ∀ s a, (step s a).1 = (runs step' (abs s) (f a)).1.flatten ∧
      abs (step s a).2 = (runs step' (abs s) (f a)).2) (s : σ) (as : List α) :
    (runs step s as).1.flatten = (runs step' (abs s) (as.flatMap f)).1.flatten ∧
      abs (runs step s as).2 = (runs step' (abs s) (as.flatMap f)).2 := by
  induction as generalizing s with
  | nil => exact ⟨rfl, rfl⟩
  | cons a as ih =>
    obtain ⟨hanswers, hstate⟩ := h s a
    obtain ⟨hanswers', hstate'⟩ := ih (step s a).2
    rw [List.flatMap_cons, runs_append, runs, List.flatten_cons, List.flatten_append, hanswers', hanswers,
      hstate', hstate]
    exact ⟨rfl, rfl⟩

theorem runs_invariant (inv : List β → σ → Prop) (h0 : inv [] s)
    (hstep : ∀ bs s a, inv bs s → inv (bs ++ [(step s a).1]) (step s a).2) (as : List α) :
    inv (runs step s as).1 (runs step s as).2 := by
  induction as using List.reverseRecOn with
  | nil => exact h0
  | append_singleton as a ih =>
    rw [runs_concat]
    exact hstep _ _ a ih

theorem runs_getElem? (as : List α) (i : Nat) : (runs step s as).1[i]? =
    as[i]?.map fun a => (step (runs step s (as.take i)).2 a).1 := by
  induction as generalizing s i with
  | nil => rfl
  | cons a as ih =>
    cases i with
    | zero => rfl
    | succ i =>
      rw [runs, List.getElem?_cons_succ, List.getElem?_cons_succ, ih]
      rfl

end Answering

/-! ### Reading a history -/

theorem filterMap_concat (f : α → Option β) (as : List α) (a : α) :
    (as ++ [a]).filterMap f = as.filterMap f ++ (f a).toList := by
  rw [List.filterMap_append]
  cases h : f a with
  | none => rw [List.filterMap_cons_none h]; rfl
  | some b => rw [List.filterMap_cons_some h]; rfl

/-! ### Sums along a history -/

/-- The sum over `as`, each term depending on the history before it. -/
def tally (f : List α → α → Nat) : List α → List α → Nat
  | _, [] => 0
  | before, a :: as => f before a + tally f (before ++ [a]) as

theorem tally_concat (f : List α → α → Nat) (before as : List α) (a : α) :
    tally f before (as ++ [a]) = tally f before as + f (before ++ as) a := by
  induction as generalizing before with
  | nil => simp [tally]
  | cons a' as ih =>
    simp only [List.cons_append, tally, ih, List.append_assoc, List.nil_append]
    omega

/-! ### Machines with disabled steps -/

/-- The state after the steps, if all of them were enabled. -/
def exec (step : σ → α → Option σ) (s : σ) : List α → Option σ
  | [] => some s
  | a :: as => (step s a).bind fun s' => exec step s' as

section Executing
variable {step : σ → α → Option σ} {s s' : σ} {as as' : List α} {a : α}

theorem exec_append : exec step s (as ++ as') = (exec step s as).bind fun s' => exec step s' as' := by
  induction as generalizing s with
  | nil => rfl
  | cons a as ih =>
    rw [List.cons_append, exec, exec, Option.bind_assoc]
    exact congrArg _ (funext fun _ => ih)

theorem exec_append_eq_some : exec step s (as ++ as') = some s' ↔
    ∃ s₁, exec step s as = some s₁ ∧ exec step s₁ as' = some s' := by
  rw [exec_append, Option.bind_eq_some_iff]

theorem exec_cons_eq_some : exec step s (a :: as) = some s' ↔
    ∃ s₁, step s a = some s₁ ∧ exec step s₁ as = some s' := by
  rw [exec, Option.bind_eq_some_iff]

theorem exec_concat_eq_some : exec step s (as ++ [a]) = some s' ↔
    ∃ s₁, exec step s as = some s₁ ∧ step s₁ a = some s' := by
  rw [exec_append_eq_some]
  refine exists_congr fun s₁ => and_congr_right fun _ => ?_
  rw [exec_cons_eq_some]
  exact ⟨fun ⟨s₂, h, h'⟩ => Option.some.inj h' ▸ h, fun h => ⟨s', h, rfl⟩⟩

theorem exec_runs (answer : σ → α → β × σ) (s : σ) (as : List α) :
    exec (fun s a => some (answer s a).2) s as = some (runs answer s as).2 := by
  induction as generalizing s with
  | nil => rfl
  | cons a as ih => exact ih (answer s a).2

theorem exec_split {s₁ : σ} (h : exec step s (as ++ a :: as') = some s') (h₁ : exec step s as = some s₁) :
    ∃ s₂, step s₁ a = some s₂ ∧ exec step s (as ++ [a]) = some s₂ ∧ exec step s₂ as' = some s' := by
  rw [exec_append, h₁, Option.bind_some] at h
  obtain ⟨s₂, ha, h₂⟩ := exec_cons_eq_some.1 h
  exact ⟨s₂, ha, exec_concat_eq_some.2 ⟨s₁, h₁, ha⟩, h₂⟩

/-- What holds at the start and is preserved by every step holds at the end of every run. -/
theorem exec_preserves (inv : σ → Prop) (h : exec step s as = some s') (h0 : inv s)
    (hstep : ∀ s₁ a s₂, inv s₁ → step s₁ a = some s₂ → inv s₂) : inv s' := by
  induction as generalizing s with
  | nil => exact Option.some.inj h ▸ h0
  | cons a as ih =>
    obtain ⟨s₁, h₁, hs⟩ := exec_cons_eq_some.1 h
    exact ih hs (hstep s a s₁ h0 h₁)

/-- Every step of the run satisfies `P`, in the state in which it is taken. -/
def EveryStep (step : σ → α → Option σ) (P : σ → α → Prop) (s : σ) : List α → Prop
  | [] => True
  | a :: as => P s a ∧ ∀ s' ∈ step s a, EveryStep step P s' as

instance EveryStep.decidable (step : σ → α → Option σ) (P : σ → α → Prop) [∀ s a, Decidable (P s a)] :
    ∀ s as, Decidable (EveryStep step P s as)
  | _, [] => .isTrue trivial
  | s, a :: as =>
    have : Decidable (∀ s' ∈ step s a, EveryStep step P s' as) :=
      match h : step s a with
      | none => .isTrue nofun
      | some s' =>
        have := EveryStep.decidable step P s' as
        decidable_of_iff (EveryStep step P s' as) (by simp)
    inferInstanceAs (Decidable (_ ∧ _))

variable {P : σ → α → Prop}

theorem everyStep_append (h : exec step s as = some s') :
    EveryStep step P s (as ++ as') ↔ EveryStep step P s as ∧ EveryStep step P s' as' := by
  induction as generalizing s with
  | nil =>
    obtain rfl := Option.some.inj h
    exact ⟨fun ha => ⟨trivial, ha⟩, fun ha => ha.2⟩
  | cons a as ih =>
    obtain ⟨s₁, h₁, hs⟩ := exec_cons_eq_some.1 h
    simp only [List.cons_append, EveryStep, h₁, Option.mem_some_iff, forall_eq', ih hs, and_assoc]

theorem EveryStep.and {Q : σ → α → Prop} (hP : EveryStep step P s as) (hQ : EveryStep step Q s as) :
    EveryStep step (fun s a => P s a ∧ Q s a) s as := by
  induction as generalizing s with
  | nil => exact trivial
  | cons a as ih => exact ⟨⟨hP.1, hQ.1⟩, fun s' hs' => ih (hP.2 s' hs') (hQ.2 s' hs')⟩

theorem everyStep_iff (h : exec step s as = some s') : EveryStep step P s as ↔
    ∀ before a after s₁, as = before ++ a :: after → exec step s before = some s₁ → P s₁ a := by
  constructor
  · rintro hall before a after s₁ rfl h₁
    exact ((everyStep_append h₁).1 hall).2.1
  · intro hall
    induction as generalizing s with
    | nil => exact trivial
    | cons a as ih =>
      obtain ⟨s₁, h₁, hs⟩ := exec_cons_eq_some.1 h
      refine ⟨hall [] a as s rfl rfl, fun s₂ h₂ => ?_⟩
      obtain rfl := Option.mem_unique h₁ h₂
      refine ih hs fun before a' after s₃ hsplit h₃ => ?_
      exact hall (a :: before) a' after s₃ (by rw [hsplit, List.cons_append])
        (exec_cons_eq_some.2 ⟨s₁, h₁, h₃⟩)

theorem exec_invariant (inv : σ → Prop) (h : exec step s as = some s')
    (hall : EveryStep step P s as) (h0 : inv s)
    (hstep : ∀ s₁ a s₂, inv s₁ → P s₁ a → step s₁ a = some s₂ → inv s₂) : inv s' := by
  induction as generalizing s with
  | nil => exact Option.some.inj h ▸ h0
  | cons a as ih =>
    obtain ⟨s₁, h₁, hs⟩ := exec_cons_eq_some.1 h
    exact ih hs (hall.2 s₁ h₁) (hstep s a s₁ h0 hall.1 h₁)

/-- What holds at the start and is preserved by every step, together with the steps so far. -/
theorem exec_history (inv : List α → σ → Prop) (h : exec step s as = some s') (h0 : inv [] s)
    (hstep : ∀ before s₁ a s₂, exec step s before = some s₁ → inv before s₁ → step s₁ a = some s₂ →
      inv (before ++ [a]) s₂) : inv as s' := by
  induction as using List.reverseRecOn generalizing s' with
  | nil => exact Option.some.inj h ▸ h0
  | append_singleton as a ih =>
    obtain ⟨s₁, h₁, ha⟩ := exec_concat_eq_some.1 h
    exact hstep as s₁ a s' h₁ (ih h₁) ha

/-- A simulation: if every step is matched by inputs of a machine that answers, so is every run. -/
theorem exec_simulation {γ : Type} {answer : τ → γ → β × τ} {t : τ}
    (R : List α → σ → List β → τ → Prop) (h : exec step s as = some s') (h0 : R [] s [] t)
    (hstep : ∀ before s₁ a s₂ bs t₁, exec step s before = some s₁ → step s₁ a = some s₂ →
      R before s₁ bs t₁ → ∃ cs, R (before ++ [a]) s₂ (bs ++ (runs answer t₁ cs).1) (runs answer t₁ cs).2) :
    ∃ cs, R as s' (runs answer t cs).1 (runs answer t cs).2 := by
  refine exec_history (fun as s' => ∃ cs, R as s' (runs answer t cs).1 (runs answer t cs).2) h
    ⟨[], h0⟩ ?_
  rintro before s₁ a s₂ h₁ ⟨cs, hcs⟩ ha
  obtain ⟨cs', hcs'⟩ := hstep before s₁ a s₂ _ _ h₁ ha hcs
  refine ⟨cs ++ cs', ?_⟩
  rw [runs_append]
  exact hcs'

/-- What is on record after a run, when `note` adds to it at every step. -/
def record {ρ : Type} (step : σ → α → Option σ) (note : ρ → σ → α → σ → ρ) (r : ρ) (s : σ) : List α → ρ
  | [] => r
  | a :: as =>
    match step s a with
    | none => r
    | some s' => record step note (note r s a s') s' as

theorem record_append {ρ : Type} {note : ρ → σ → α → σ → ρ} {r : ρ} (h : exec step s as = some s') :
    record step note r s (as ++ as') = record step note (record step note r s as) s' as' := by
  induction as generalizing r s with
  | nil =>
    obtain rfl := Option.some.inj h
    rfl
  | cons a as ih =>
    obtain ⟨s₁, h₁, hs⟩ := exec_cons_eq_some.1 h
    rw [List.cons_append, record, record, h₁]
    exact ih hs

theorem record_concat {ρ : Type} {note : ρ → σ → α → σ → ρ} {r : ρ} {s₁ : σ} (h : exec step s as = some s₁)
    (ha : step s₁ a = some s') :
    record step note r s (as ++ [a]) = note (record step note r s as) s₁ a s' := by
  rw [record_append h, record, ha]
  rfl

/-- What `f` reads off the steps of a run. -/
def log (step : σ → α → Option σ) (f : σ → α → σ → List β) (s : σ) : List α → List β
  | [] => []
  | a :: as =>
    match step s a with
    | none => []
    | some s' => f s a s' ++ log step f s' as

variable {f : σ → α → σ → List β}

theorem log_cons (h : step s a = some s') : log step f s (a :: as) = f s a s' ++ log step f s' as := by
  rw [log, h]

theorem log_append (h : exec step s as = some s') :
    log step f s (as ++ as') = log step f s as ++ log step f s' as' := by
  induction as generalizing s with
  | nil =>
    obtain rfl := Option.some.inj h
    rfl
  | cons a as ih =>
    obtain ⟨s₁, h₁, hs⟩ := exec_cons_eq_some.1 h
    rw [List.cons_append, log_cons h₁, log_cons h₁, ih hs, List.append_assoc]

theorem log_prefix_log (h : exec step s as = some s') (hle : as' <+: as) :
    log step f s as' <+: log step f s as := by
  obtain ⟨rest, rfl⟩ := hle
  obtain ⟨s₁, h₁, -⟩ := exec_append_eq_some.1 h
  rw [log_append h₁]
  exact List.prefix_append _ _

theorem log_concat {s₁ : σ} (h : exec step s as = some s₁) (ha : step s₁ a = some s') :
    log step f s (as ++ [a]) = log step f s as ++ f s₁ a s' := by
  rw [log_append h, log_cons ha]
  exact congrArg _ (List.append_nil _)

/-- Where an entry of the log comes from. -/
theorem log_split {bs bs' : List β} {b : β} (h : log step f s as = bs ++ b :: bs') :
    ∃ before a after s₁ s₂ cs cs', as = before ++ a :: after ∧ exec step s before = some s₁ ∧
      step s₁ a = some s₂ ∧ f s₁ a s₂ = cs ++ b :: cs' ∧ bs = log step f s before ++ cs := by
  induction as generalizing s bs with
  | nil => simp [log] at h
  | cons a as ih =>
    unfold log at h
    split at h
    · simp at h
    · rename_i s' hstep
      have hlater : ∀ {cs}, bs = f s a s' ++ cs → log step f s' as = cs ++ b :: bs' →
          ∃ before a' after s₁ s₂ cs cs', a :: as = before ++ a' :: after ∧ exec step s before = some s₁ ∧
            step s₁ a' = some s₂ ∧ f s₁ a' s₂ = cs ++ b :: cs' ∧ bs = log step f s before ++ cs := by
        rintro cs rfl hrest
        obtain ⟨before, a', after, s₁, s₂, cs', cs'', rfl, h₁, h₂, hf, rfl⟩ := ih hrest
        refine ⟨a :: before, a', after, s₁, s₂, cs', cs'', rfl, ?_, h₂, hf, ?_⟩
        · exact exec_cons_eq_some.2 ⟨s', hstep, h₁⟩
        · rw [log_cons hstep, List.append_assoc]
      rcases List.append_eq_append_iff.1 h with ⟨cs, hbs, hrest⟩ | ⟨cs, hf, hrest⟩
      · exact hlater hbs hrest
      · cases cs with
        | nil =>
          rw [List.append_nil] at hf
          exact @hlater [] (by rw [hf, List.append_nil]) hrest.symm
        | cons c cs =>
          obtain ⟨rfl, -⟩ := List.cons.inj hrest
          exact ⟨[], a, as, s, s', bs, cs, rfl, rfl, hstep, hf, (List.nil_append _).symm⟩

theorem mem_log {b : β} (h : b ∈ log step f s as) : ∃ before a after s₁ s₂, as = before ++ a :: after ∧
    exec step s before = some s₁ ∧ step s₁ a = some s₂ ∧ b ∈ f s₁ a s₂ := by
  obtain ⟨bs, bs', hsplit⟩ := List.append_of_mem h
  obtain ⟨before, a, after, s₁, s₂, cs, cs', rfl, h₁, h₂, hf, -⟩ := log_split hsplit
  exact ⟨before, a, after, s₁, s₂, rfl, h₁, h₂, hf ▸ List.mem_append_right _ List.mem_cons_self⟩

end Executing
end Lib
