import Mathlib.Data.List.Infix
import MiniGraph.Lib.Cursor

/-!
# Readers that do not look around

`view p xs` is what a reader makes of a sequence `xs` alone. A reader is `Local` if that is all it does:
what it returns at a cursor is decided by what is ahead. It `Cuts` if moreover it looks no further than
it reads: what follows makes no difference, and where some of it is missing it fails with one of the
errors `T`. The rules below compose both notions the way the readers compose. A loop that reads items to
the end is `Local` only, and the last section says what it makes of two sequences one after the other
(`untilEnd_append`) and of the beginning of one (`untilEnd_prefix`).
-/

namespace Lib

universe u v
variable {α β γ σ : Type u} {ε : Type v}

/-- What a reader makes of a cursor: the value, and what is ahead then. -/
def outcome (p : Reader β ε α) (c : Cursor β) : Except ε (α × List β) :=
  (p.run c).map fun r => (r.1, r.2.rest)

/-- What a reader makes of a sequence. -/
def view (p : Reader β ε α) (xs : List β) : Except ε (α × List β) := outcome p (.start xs)

section Outcome
variable {p : Reader β ε α} {c c' : Cursor β} {a : α} {us : List β} {e : ε}

theorem outcome_of_ok (h : p.run c = .ok (a, c')) : outcome p c = .ok (a, c'.rest) := by
  rw [outcome, h]
  rfl

theorem outcome_of_error (h : p.run c = .error e) : outcome p c = .error e := by
  rw [outcome, h]
  rfl

theorem outcome_eq_ok : outcome p c = .ok (a, us) ↔ ∃ c', p.run c = .ok (a, c') ∧ c'.rest = us := by
  unfold outcome
  constructor
  · intro h
    cases hp : p.run c with
    | error e =>
      rw [hp] at h
      cases h
    | ok r =>
      rw [hp] at h
      obtain ⟨rfl, rfl⟩ := Prod.mk.inj (Except.ok.inj h)
      exact ⟨r.2, rfl, rfl⟩
  · rintro ⟨c', h, rfl⟩
    rw [h]
    rfl

theorem outcome_eq_error : outcome p c = .error e ↔ p.run c = .error e := by
  unfold outcome
  cases p.run c with
  | error e' => exact ⟨fun h => congrArg _ (Except.error.inj h), fun h => congrArg _ (Except.error.inj h)⟩
  | ok r => exact ⟨nofun, nofun⟩

end Outcome

/-- First `F`, then `H` on what it has left. -/
def andThen (F : List β → Except ε (α × List β)) (H : α → List β → Except ε (γ × List β))
    (xs : List β) : Except ε (γ × List β) :=
  F xs >>= fun r => H r.1 r.2

section AndThen
variable {F : List β → Except ε (α × List β)} {H : α → List β → Except ε (γ × List β)} {xs us : List β}
  {a : α} {e : ε}

theorem andThen_of_ok (h : F xs = .ok (a, us)) : andThen F H xs = H a us := by
  rw [andThen, h]
  rfl

theorem andThen_of_error (h : F xs = .error e) : andThen F H xs = .error e := by
  rw [andThen, h]
  rfl

end AndThen

/-! ### Local readers -/

/-- What is ahead decides. -/
def Local (p : Reader β ε α) : Prop := ∀ c, outcome p c = view p c.rest

/-- A reader given by what it makes of what is ahead. -/
theorem view_eq {p : Reader β ε α} {F : List β → Except ε (α × List β)}
    (h : ∀ c, outcome p c = F c.rest) : view p = F :=
  funext fun xs => (h _).trans (congrArg F (Cursor.rest_start xs))

namespace Local
variable {p q : Reader β ε α} {f : α → Reader β ε γ}

theorem of_eq {F : List β → Except ε (α × List β)} (h : ∀ c, outcome p c = F c.rest) : Local p :=
  fun c => by rw [h, view_eq h]

theorem pure (a : α) : Local (Pure.pure a : Reader β ε α) := by
  intro c
  show Except.ok (a, c.rest) = Except.ok (a, (Cursor.start c.rest).rest)
  rw [Cursor.rest_start]

theorem throw (e : ε) : Local (throw e : Reader β ε α) := fun _ => rfl

/-- `f` goes on with what `p` has left. -/
theorem outcome_bind (hf : ∀ a, Local (f a)) (c : Cursor β) :
    outcome (p >>= f) c = outcome p c >>= fun r => view (f r.1) r.2 := by
  unfold outcome
  rw [StateT.run_bind]
  cases p.run c with
  | error e => rfl
  | ok r => exact hf r.1 r.2

theorem view_bind (hf : ∀ a, Local (f a)) :
    view (p >>= f) = andThen (view p) fun a => view (f a) := funext fun _ => outcome_bind hf _

theorem bind (hp : Local p) (hf : ∀ a, Local (f a)) : Local (p >>= f) := by
  intro c
  rw [outcome_bind hf, view_bind hf, hp]
  rfl

end Local

/-! ### Readers that look no further than they read -/

/-- What `F` makes of `xs` depends on the part it reads only, and if something of that part is missing
`F` fails with a `T`. -/
def CutsAt (T : ε → Prop) (F : List β → Except ε (α × List β)) (xs : List β) : Prop :=
  ∀ a us, F xs = .ok (a, us) → ∃ ws, xs = ws ++ us ∧ (∀ ys, F (ws ++ ys) = .ok (a, ys)) ∧
    ∀ vs, vs <+: ws → vs ≠ ws → ∃ e, T e ∧ F vs = .error e

theorem prefix_append_cases {vs ws us : List β} (h : vs <+: ws ++ us) :
    vs <+: ws ∧ vs ≠ ws ∨ ∃ vs', vs = ws ++ vs' ∧ vs' <+: us := by
  rcases List.prefix_or_prefix_of_prefix h (List.prefix_append ws us) with hvs | ⟨vs', rfl⟩
  · by_cases heq : vs = ws
    · exact .inr ⟨[], by rw [heq, List.append_nil], List.nil_prefix⟩
    · exact .inl ⟨hvs, heq⟩
  · exact .inr ⟨vs', rfl, (List.prefix_append_right_inj ws).1 h⟩

theorem CutsAt.andThen {T : ε → Prop} {F : List β → Except ε (α × List β)}
    {H : α → List β → Except ε (γ × List β)} {xs : List β} (hF : CutsAt T F xs)
    (hH : ∀ a us, F xs = .ok (a, us) → CutsAt T (H a) us) : CutsAt T (andThen F H) xs := by
  intro b us h
  obtain ⟨⟨a, us₁⟩, hFa, hHb⟩ := Except.bind_eq_ok.1 h
  obtain ⟨ws, rfl, hmore, hless⟩ := hF a us₁ hFa
  obtain ⟨ws', rfl, hmore', hless'⟩ := hH a us₁ hFa b us hHb
  refine ⟨ws ++ ws', by rw [List.append_assoc], ?_, ?_⟩
  · intro ys
    rw [List.append_assoc, andThen_of_ok (hmore _)]
    exact hmore' ys
  · intro vs hvs hne
    rcases prefix_append_cases hvs with ⟨hvs, hne⟩ | ⟨vs', rfl, hvs'⟩
    · obtain ⟨e, he, hFe⟩ := hless vs hvs hne
      exact ⟨e, he, andThen_of_error hFe⟩
    · rw [andThen_of_ok (hmore _)]
      exact hless' vs' hvs' fun heq => hne (by rw [heq])

structure Cuts (T : ε → Prop) (p : Reader β ε α) : Prop where
  isLocal : Local p
  cut : ∀ xs, CutsAt T (view p) xs

theorem Reads.view_eq_ok {p : Reader β ε α} {G : Format α β} (h : Reads p G) {xs us : List β} {a : α} :
    view p xs = .ok (a, us) ↔ ∃ ws, G a ws ∧ xs = ws ++ us := by
  unfold view
  rw [outcome_eq_ok]
  constructor
  · rintro ⟨c', hrun, rfl⟩
    obtain ⟨ws, hG, he⟩ := (h _ a c').1 hrun
    have hrest := he.rest
    rw [Cursor.rest_start] at hrest
    exact ⟨ws, hG, hrest⟩
  · rintro ⟨ws, hG, rfl⟩
    obtain ⟨c', he, hrest⟩ := Cursor.Eats.of_rest (Cursor.rest_start (ws ++ us))
    exact ⟨c', (h _ a c').2 ⟨ws, hG, he⟩, hrest⟩

namespace Cuts
variable {T : ε → Prop} {p q : Reader β ε α} {f : α → Reader β ε γ}

/-- For a reader whose format is known there is only the missing part to look at. -/
theorem of_reads {G : Format α β} (hp : Local p) (h : Reads p G)
    (hless : ∀ a ws, G a ws → ∀ vs, vs <+: ws → vs ≠ ws → ∃ e, T e ∧ view p vs = .error e) :
    Cuts T p := by
  refine ⟨hp, fun xs a us hview => ?_⟩
  obtain ⟨ws, hG, rfl⟩ := h.view_eq_ok.1 hview
  exact ⟨ws, rfl, fun ys => h.view_eq_ok.2 ⟨ws, hG, rfl⟩, hless a ws hG⟩

theorem pure (a : α) : Cuts T (Pure.pure a : Reader β ε α) := by
  refine ⟨Local.pure a, fun xs a' us h => ?_⟩
  have hview : ∀ ys : List β, view (Pure.pure a : Reader β ε α) ys = .ok (a, ys) := fun ys =>
    congrArg (fun ys => Except.ok (a, ys)) (Cursor.rest_start ys)
  rw [hview] at h
  obtain ⟨rfl, rfl⟩ := Prod.mk.inj (Except.ok.inj h)
  refine ⟨[], rfl, hview, ?_⟩
  intro vs hvs hne
  exact absurd (List.prefix_nil.1 hvs) hne

theorem throw (e : ε) : Cuts T (throw e : Reader β ε α) := by
  refine ⟨Local.throw e, fun xs a us h => ?_⟩
  cases h

theorem ite {P : Prop} [Decidable P] (hp : Cuts T p) (hq : Cuts T q) :
    Cuts T (if P then p else q) := by
  split
  · exact hp
  · exact hq

theorem bind (hp : Cuts T p) (hf : ∀ a, Cuts T (f a)) : Cuts T (p >>= f) := by
  have hlocal : ∀ a, Local (f a) := fun a => (hf a).isLocal
  refine ⟨hp.isLocal.bind hlocal, fun xs => ?_⟩
  rw [Local.view_bind hlocal]
  exact (hp.cut xs).andThen fun a us _ => (hf a).cut us

theorem times (hp : Cuts T p) (n : Nat) : Cuts T (times n p) := by
  induction n with
  | zero => exact Cuts.pure []
  | succ n ih => exact hp.bind fun a => ih.bind fun as => Cuts.pure (a :: as)

end Cuts

/-! ### Loops -/

section Loop
variable {T : ε → Prop} {body : σ → Reader β ε (σ ⊕ α)} {hb : Progress body}

/-- What a loop goes on with after a round. -/
def afterRound (F : σ → List β → Except ε (α × List β)) : σ ⊕ α → List β → Except ε (α × List β)
  | .inl s', us => F s' us
  | .inr a, us => .ok (a, us)

theorem Local.loop (hbody : ∀ s, Local (body s)) (s : σ) : Local (loop body hb s) := by
  intro c
  induction hl : c.rest.length using Nat.strongRecOn generalizing s c with
  | _ l ih =>
    have hsame := hbody s c
    unfold view at hsame ⊢
    match hm : (body s).run c with
    | .error e =>
      rw [outcome_of_error hm] at hsame
      rw [outcome_of_error (loop_error hm), outcome_of_error (loop_error (outcome_eq_error.1 hsame.symm))]
    | .ok (.inr a, c₁) =>
      rw [outcome_of_ok hm] at hsame
      obtain ⟨c₂, hm₂, hrest⟩ := outcome_eq_ok.1 hsame.symm
      rw [outcome_of_ok (loop_done hm), outcome_of_ok (loop_done hm₂), hrest]
    | .ok (.inl s', c₁) =>
      rw [outcome_of_ok hm] at hsame
      obtain ⟨c₂, hm₂, hrest⟩ := outcome_eq_ok.1 hsame.symm
      have hlt := hb s c s' c₁ hm
      have h₁ := ih _ (hl ▸ hlt) s' c₁ rfl
      have h₂ := ih _ (hl ▸ hlt) s' c₂ (by rw [hrest])
      unfold outcome at h₁ h₂ ⊢
      rw [loop_again hm, loop_again hm₂, h₁, h₂, hrest]

theorem view_loop (hbody : ∀ s, Local (body s)) (s : σ) :
    view (loop body hb s) = andThen (view (body s)) (afterRound fun s' => view (loop body hb s')) := by
  funext xs
  match hm : (body s).run (.start xs) with
  | .error e =>
    rw [andThen_of_error (outcome_of_error hm)]
    exact outcome_of_error (loop_error hm)
  | .ok (.inr a, c₁) =>
    rw [andThen_of_ok (outcome_of_ok hm)]
    exact outcome_of_ok (loop_done hm)
  | .ok (.inl s', c₁) =>
    rw [andThen_of_ok (outcome_of_ok hm), afterRound, ← Local.loop hbody s' c₁]
    unfold view outcome
    rw [loop_again hm]

theorem Cuts.loop (hbody : ∀ s, Cuts T (body s)) (s : σ) : Cuts T (loop body hb s) := by
  have hlocal : ∀ s, Local (body s) := fun s => (hbody s).isLocal
  refine ⟨Local.loop hlocal s, fun xs => ?_⟩
  induction hl : xs.length using Nat.strongRecOn generalizing s xs with
  | _ l ih =>
    rw [view_loop hlocal s]
    refine ((hbody s).cut xs).andThen ?_
    rintro (s' | a) us hround
    · obtain ⟨c', hm, rfl⟩ := outcome_eq_ok.1 hround
      have hlt := hb s _ s' c' hm
      rw [Cursor.rest_start] at hlt
      exact ih _ (hl ▸ hlt) s' c'.rest rfl
    · exact (Cuts.pure a).cut us

end Loop

/-! ### Reading to the end -/

section UntilEnd
variable {T : ε → Prop} {item : Reader β ε α} {hp : Shrinks item} {out as as' : List α} {xs us : List β}
  {n : Nat}

theorem outcome_untilEndBody {c : Cursor β} (h : c.rest ≠ []) : outcome (untilEndBody item out) c =
    (outcome item c).map fun r => (.inl (out ++ [r.1]), r.2) := by
  unfold outcome
  rw [untilEndBody_ahead item out h]
  cases item.run c <;> rfl

theorem Local.untilEndBody (h : Local item) (out : List α) : Local (untilEndBody item out) := by
  intro c
  by_cases hc : c.rest = []
  · have hstart : (Cursor.start c.rest).rest = [] := by rw [Cursor.rest_start, hc]
    rw [view, outcome_of_ok (untilEndBody_atEnd item out hc),
      outcome_of_ok (untilEndBody_atEnd item out hstart), hstart, hc]
  · have hstart : (Cursor.start c.rest).rest ≠ [] := by rwa [Cursor.rest_start]
    rw [view, outcome_untilEndBody hc, outcome_untilEndBody hstart, h]
    rfl

/-- What `untilEnd` makes of a sequence when it has `out` already. -/
def itemsAfter (item : Reader β ε α) (hp : Shrinks item) (out : List α) :
    List β → Except ε (List α × List β) :=
  view (loop (untilEndBody item) (untilEndBody_progress hp) out)

theorem itemsAfter_nil (hp : Shrinks item) (out : List α) : itemsAfter item hp out [] = .ok (out, []) := by
  have hdone : (loop (untilEndBody item) (untilEndBody_progress hp) out).run (.start []) =
      .ok (out, .start []) := loop_done (untilEndBody_atEnd item out (Cursor.rest_start []))
  exact outcome_of_ok hdone

theorem itemsAfter_ahead (h : Local item) (hxs : xs ≠ []) : itemsAfter item hp out xs =
    andThen (view item) (fun a => itemsAfter item hp (out ++ [a])) xs := by
  have hahead : (Cursor.start xs).rest ≠ [] := by rwa [Cursor.rest_start]
  unfold itemsAfter
  rw [view_loop h.untilEndBody]
  unfold andThen view
  rw [outcome_untilEndBody hahead]
  cases outcome item (.start xs) <;> rfl

theorem itemsAfter_eq (hp : Shrinks item) (h : Local item) (out : List α) (xs : List β) : itemsAfter item hp out xs =
    (itemsAfter item hp [] xs).map fun r => (out ++ r.1, r.2) := by
  induction hl : xs.length using Nat.strongRecOn generalizing out xs with
  | _ l ih =>
    by_cases hxs : xs = []
    · rw [hxs, itemsAfter_nil, itemsAfter_nil]
      show Except.ok (out, []) = Except.ok (out ++ [], [])
      rw [List.append_nil]
    · rw [itemsAfter_ahead h hxs, itemsAfter_ahead h hxs]
      cases hi : view item xs with
      | error e => rw [andThen_of_error hi, andThen_of_error hi]; rfl
      | ok r =>
        obtain ⟨a, us⟩ := r
        obtain ⟨c', hrun, rfl⟩ := outcome_eq_ok.1 hi
        have hlt := hp _ a c' hrun
        rw [Cursor.rest_start, hl] at hlt
        rw [andThen_of_ok hi, andThen_of_ok hi, ih _ hlt (out ++ [a]) c'.rest rfl,
          ih _ hlt ([] ++ [a]) c'.rest rfl]
        cases itemsAfter item hp [] c'.rest with
        | error e => rfl
        | ok r => exact congrArg (fun as => Except.ok (as, r.2)) (List.append_assoc _ _ _)

theorem view_item_ne_nil (hp : Shrinks item) {a : α} (h : view item xs = .ok (a, us)) : xs ≠ [] := by
  obtain ⟨c', hrun, -⟩ := outcome_eq_ok.1 h
  have hlt := hp _ a c' hrun
  rw [Cursor.rest_start] at hlt
  rintro rfl
  exact absurd hlt (Nat.not_lt_zero _)

/-! Some items -/

theorem view_times_zero : view (times 0 item) xs = .ok (as, us) ↔ as = [] ∧ us = xs := by
  have hview : view (times 0 item) xs = .ok ([], xs) :=
    congrArg (fun ys => Except.ok ([], ys)) (Cursor.rest_start xs)
  rw [hview]
  simp [eq_comm]

theorem view_times_succ (h : Local item) : view (times (n + 1) item) xs = .ok (as, us) ↔
    ∃ a ys as', view item xs = .ok (a, ys) ∧ view (times n item) ys = .ok (as', us) ∧ as = a :: as' := by
  have hview : view (times (n + 1) item) =
      andThen (view item) fun a => andThen (view (times n item)) fun as' ys => .ok (a :: as', ys) := by
    have htimes : ∀ n, Local (times n item) := by
      intro n
      induction n with
      | zero => exact Local.pure []
      | succ n ih => exact h.bind fun a => ih.bind fun as => Local.pure (a :: as)
    rw [times, Local.view_bind fun a => (htimes n).bind fun as => Local.pure (a :: as)]
    congr
    funext a
    rw [Local.view_bind fun as => Local.pure (a :: as)]
    congr
  rw [hview]
  unfold andThen
  constructor
  · intro hok
    obtain ⟨⟨a, ys⟩, ha, hok⟩ := Except.bind_eq_ok.1 hok
    obtain ⟨⟨as', zs⟩, has, hok⟩ := Except.bind_eq_ok.1 hok
    obtain ⟨rfl, rfl⟩ := Prod.mk.inj (Except.ok.inj hok)
    exact ⟨a, ys, as', ha, has, rfl⟩
  · rintro ⟨a, ys, as', ha, has, rfl⟩
    exact Except.bind_eq_ok.2 ⟨(a, ys), ha, Except.bind_eq_ok.2 ⟨(as', us), has, rfl⟩⟩

theorem length_times (h : Local item) (hview : view (times n item) xs = .ok (as, us)) : as.length = n := by
  induction n generalizing xs as with
  | zero => rw [(view_times_zero.1 hview).1, List.length_nil]
  | succ n ih =>
    obtain ⟨a, ys, as', -, has, rfl⟩ := (view_times_succ h).1 hview
    rw [List.length_cons, ih has]

/-- Reading to the end begins with reading some items. -/
theorem itemsAfter_times (hp : Shrinks item) (h : Local item)
    (hview : view (times n item) xs = .ok (as, us)) :
    itemsAfter item hp out xs = itemsAfter item hp (out ++ as) us := by
  induction n generalizing out xs as with
  | zero =>
    obtain ⟨rfl, rfl⟩ := view_times_zero.1 hview
    rw [List.append_nil]
  | succ n ih =>
    obtain ⟨a, ys, as', ha, has, rfl⟩ := (view_times_succ h).1 hview
    rw [itemsAfter_ahead h (view_item_ne_nil hp ha), andThen_of_ok ha, ih has, List.append_assoc]
    rfl

/-- Reading to the end reads a number of items, and nothing is left. -/
theorem times_of_itemsAfter (hp : Shrinks item) (h : Local item)
    (hview : itemsAfter item hp out xs = .ok (as, us)) :
    us = [] ∧ ∃ as', as = out ++ as' ∧ view (times as'.length item) xs = .ok (as', []) := by
  induction hl : xs.length using Nat.strongRecOn generalizing out xs with
  | _ l ih =>
    by_cases hxs : xs = []
    · rw [hxs, itemsAfter_nil] at hview
      obtain ⟨rfl, rfl⟩ := Prod.mk.inj (Except.ok.inj hview)
      exact ⟨rfl, [], (List.append_nil _).symm, hxs ▸ view_times_zero.2 ⟨rfl, rfl⟩⟩
    · rw [itemsAfter_ahead h hxs] at hview
      obtain ⟨⟨a, ys⟩, ha, hview⟩ := Except.bind_eq_ok.1 hview
      obtain ⟨c', hrun, rfl⟩ := outcome_eq_ok.1 ha
      have hlt := hp _ a c' hrun
      rw [Cursor.rest_start, hl] at hlt
      obtain ⟨hus, as', rfl, has⟩ := ih _ hlt hview rfl
      exact ⟨hus, a :: as', List.append_assoc _ _ _, (view_times_succ h).2 ⟨a, _, as', ha, has, rfl⟩⟩

/-! Two sequences, and the beginning of one -/

/-- **Reading to the end is a homomorphism**: what follows is read as if it stood alone. -/
theorem untilEnd_append (h : Cuts T item) (hview : view (untilEnd item hp) xs = .ok (as, us))
    (ys : List β) : view (untilEnd item hp) (xs ++ ys) =
      (view (untilEnd item hp) ys).map fun r => (as ++ r.1, r.2) := by
  obtain ⟨-, as', has, htimes⟩ := times_of_itemsAfter hp h.isLocal hview
  obtain rfl : as = as' := has
  obtain ⟨ws, hws, hmore, -⟩ := (h.times as.length).cut xs _ _ htimes
  rw [List.append_nil] at hws
  subst hws
  exact (itemsAfter_times hp h.isLocal (hmore ys)).trans (itemsAfter_eq hp h.isLocal _ ys)

/-- A beginning of the sequence that ends behind some items is read as these items. -/
theorem untilEnd_times (h : Cuts T item) (hview : view (untilEnd item hp) xs = .ok (as, us))
    {vs ys : List β} (hvs : xs = vs ++ ys) (htimes : view (times n item) xs = .ok (as', ys)) :
    as' = as.take n ∧ view (untilEnd item hp) vs = .ok (as', []) := by
  obtain ⟨ws, hws, hmore, -⟩ := (h.times n).cut xs _ _ htimes
  obtain rfl : vs = ws := List.append_cancel_right (hvs.symm.trans hws)
  constructor
  · have hall : view (untilEnd item hp) xs = (itemsAfter item hp [] ys).map fun r => (as' ++ r.1, r.2) :=
      (itemsAfter_times hp h.isLocal htimes).trans (itemsAfter_eq hp h.isLocal _ ys)
    rw [hview] at hall
    cases hrest : itemsAfter item hp [] ys with
    | error e =>
      rw [hrest] at hall
      cases hall
    | ok r =>
      rw [hrest] at hall
      obtain ⟨rfl, -⟩ := Prod.mk.inj (Except.ok.inj hall)
      exact (List.take_left' (length_times h.isLocal htimes)).symm
  · have hself := hmore []
    rw [List.append_nil] at hself
    exact (itemsAfter_times hp h.isLocal hself).trans (itemsAfter_nil hp _)

theorem itemsAfter_beginning (hp : Shrinks item) (h : Cuts T item)
    (hview : itemsAfter item hp out xs = .ok (as, us))
    {vs : List β} (hvs : vs <+: xs) :
    (∃ n as' ys, xs = vs ++ ys ∧ view (times n item) xs = .ok (as', ys)) ∨
      ∃ e, T e ∧ itemsAfter item hp out vs = .error e := by
  induction hl : xs.length using Nat.strongRecOn generalizing out xs vs with
  | _ l ih =>
    by_cases hnil : vs = []
    · subst hnil
      exact .inl ⟨0, [], xs, rfl, view_times_zero.2 ⟨rfl, rfl⟩⟩
    · have hxs : xs ≠ [] := fun hxs => hnil (List.prefix_nil.1 (hxs ▸ hvs))
      rw [itemsAfter_ahead h.isLocal hxs] at hview
      obtain ⟨⟨a, us₁⟩, ha, hrest⟩ := Except.bind_eq_ok.1 hview
      obtain ⟨ws, rfl, hmore, hless⟩ := h.cut xs a us₁ ha
      rcases prefix_append_cases hvs with ⟨hshort, hne⟩ | ⟨vs', rfl, hvs'⟩
      · -- the first item is cut
        right
        obtain ⟨e, he, herror⟩ := hless vs hshort hne
        exact ⟨e, he, (itemsAfter_ahead h.isLocal hnil).trans (andThen_of_error herror)⟩
      · have hws : ws ++ us₁ ≠ [] := view_item_ne_nil hp ha
        have hlt : us₁.length < l := by
          obtain ⟨c', hrun, rfl⟩ := outcome_eq_ok.1 ha
          have hlt := hp _ a c' hrun
          rwa [Cursor.rest_start, hl] at hlt
        rcases ih _ hlt hrest hvs' rfl with ⟨n, as', ys, rfl, has⟩ | ⟨e, he, herror⟩
        · exact .inl ⟨n + 1, a :: as', ys, (List.append_assoc _ _ _).symm,
            (view_times_succ h.isLocal).2 ⟨a, _, as', ha, has, rfl⟩⟩
        · exact .inr ⟨e, he, (itemsAfter_ahead h.isLocal hnil).trans
            ((andThen_of_ok (hmore vs')).trans herror)⟩

/-- **Truncation is detected**: a beginning of the sequence that does not end behind some items fails
with a `T`. -/
theorem untilEnd_prefix (h : Cuts T item) (hview : view (untilEnd item hp) xs = .ok (as, us))
    {vs ys : List β} (hvs : xs = vs ++ ys) (hcut : ∀ n as', view (times n item) xs ≠ .ok (as', ys)) :
    ∃ e, T e ∧ view (untilEnd item hp) vs = .error e := by
  refine (itemsAfter_beginning hp h hview ⟨ys, hvs.symm⟩).resolve_left ?_
  rintro ⟨n, as', ys', hvs', htimes⟩
  obtain rfl : ys' = ys := List.append_cancel_left (hvs'.symm.trans hvs)
  exact hcut n as' htimes

end UntilEnd
end Lib
