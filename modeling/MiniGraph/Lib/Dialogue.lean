import Mathlib.Data.List.Induction
import Mathlib.Logic.Function.Basic
import Mathlib.Order.Defs.Unbundled

/-!
# Dialogues with a server

A program that asks a server and goes on with the answers, one request at a time. Several of them take turns
with each other, and with whoever else uses the server (`TakeTurns`). `Ensures` is the weakest precondition of
a dialogue under such interference: what the others do keeps to a preorder, and so does the dialogue itself.
Each party may then be proved on its own (`TakeTurns.ensures`). `Meets` is the same for a dialogue that may
fail.
-/

namespace Lib
variable {ρ σ ε α γ ι : Type} {β : ρ → Type}

inductive Dialogue (β : ρ → Type) (α : Type) where
  | done (a : α)
  | ask (request : ρ) (next : β request → Dialogue β α)

namespace Dialogue

def bind : Dialogue β α → (α → Dialogue β γ) → Dialogue β γ
  | done a, f => f a
  | ask request next, f => ask request fun b => (next b).bind f

instance : Monad (Dialogue β) where
  pure := done
  bind := bind

/-- One request. -/
def call (request : ρ) : Dialogue β (β request) := ask request done

/-- From `s` on, whatever others do that `keeps` allows: each request does what `keeps` allows, too, and at
the end there is `post`. -/
def Ensures (server : (request : ρ) → σ → β request → σ → Prop) (keeps : σ → σ → Prop) (post : α → σ → Prop) :
    Dialogue β α → σ → Prop
  | done a, s => ∀ s', keeps s s' → post a s'
  | ask request next, s => ∀ s' b s'', keeps s s' → server request s' b s'' →
      keeps s' s'' ∧ (next b).Ensures server keeps post s''

/-- What a dialogue that may fail ensures: `ok` if it does not, and `error` if it does. -/
def outcome (ok : α → σ → Prop) (error : ε → σ → Prop) : Except ε α → σ → Prop
  | .ok a => ok a
  | .error e => error e

def Meets (server : (request : ρ) → σ → β request → σ → Prop) (keeps : σ → σ → Prop) (ok : α → σ → Prop)
    (error : ε → σ → Prop) (d : ExceptT ε (Dialogue β) α) (s : σ) : Prop :=
  Ensures server keeps (outcome ok error) d.run s

section Rules
variable {server : (request : ρ) → σ → β request → σ → Prop} {keeps : σ → σ → Prop}
  {post post' : α → σ → Prop} {ok : α → σ → Prop} {error : ε → σ → Prop} {d : Dialogue β α} {s s' : σ}

theorem Ensures.mono (hpost : ∀ a s, post a s → post' a s) (h : d.Ensures server keeps post s) :
    d.Ensures server keeps post' s := by
  induction d generalizing s with
  | done a => exact fun s' hkeeps => hpost a s' (h s' hkeeps)
  | ask request next ih =>
    intro s' b s'' hkeeps hanswer
    obtain ⟨hown, hrest⟩ := h s' b s'' hkeeps hanswer
    exact ⟨hown, ih b hrest⟩

theorem Meets.mono {ok' : α → σ → Prop} {error' : ε → σ → Prop} {d : ExceptT ε (Dialogue β) α}
    (hok : ∀ a s, ok a s → ok' a s) (herror : ∀ e s, error e s → error' e s)
    (h : Meets server keeps ok error d s) : Meets server keeps ok' error' d s := by
  refine Ensures.mono (fun result s hresult => ?_) h
  cases result with
  | ok a => exact hok a s hresult
  | error e => exact herror e s hresult

theorem Meets.pure {a : α} (h : ∀ s', keeps s s' → ok a s') :
    Meets server keeps ok error (Pure.pure a : ExceptT ε (Dialogue β) α) s := h

theorem Meets.throw {e : ε} (h : ∀ s', keeps s s' → error e s') :
    Meets server keeps ok error (MonadExcept.throw e : ExceptT ε (Dialogue β) α) s := h

theorem Meets.call_bind {request : ρ} {f : β request → ExceptT ε (Dialogue β) α}
    (h : ∀ s' b s'', keeps s s' → server request s' b s'' →
      keeps s' s'' ∧ Meets server keeps ok error (f b) s'') :
    Meets server keeps ok error (ExceptT.lift (call request) >>= f) s := h

variable [IsPreorder σ keeps]

theorem Ensures.of_keeps (h : d.Ensures server keeps post s) (hkeeps : keeps s s') :
    d.Ensures server keeps post s' := by
  cases d with
  | done a => exact fun s'' hkeeps' => h s'' (trans_of keeps hkeeps hkeeps')
  | ask request next => exact fun s₁ b s₂ hkeeps' => h s₁ b s₂ (trans_of keeps hkeeps hkeeps')

theorem Ensures.stable (h : d.Ensures server keeps post s) :
    d.Ensures server keeps (fun a s => ∀ s', keeps s s' → post a s') s := by
  induction d generalizing s with
  | done a => exact fun s' hkeeps s'' hkeeps' => h s'' (trans_of keeps hkeeps hkeeps')
  | ask request next ih =>
    intro s' b s'' hkeeps hanswer
    obtain ⟨hown, hrest⟩ := h s' b s'' hkeeps hanswer
    exact ⟨hown, ih b hrest⟩

theorem Ensures.bind {f : α → Dialogue β γ} {post : γ → σ → Prop}
    (h : d.Ensures server keeps (fun a => (f a).Ensures server keeps post) s) :
    (d.bind f).Ensures server keeps post s := by
  induction d generalizing s with
  | done a => exact h s (refl_of keeps s)
  | ask request next ih =>
    intro s' b s'' hkeeps hanswer
    obtain ⟨hown, hrest⟩ := h s' b s'' hkeeps hanswer
    exact ⟨hown, ih b hrest⟩

/-- One after the other; an error ends them. -/
theorem Meets.bind {d : ExceptT ε (Dialogue β) α} {f : α → ExceptT ε (Dialogue β) γ} {ok : γ → σ → Prop}
    (h : Meets server keeps (fun a => Meets server keeps ok error (f a)) error d s) :
    Meets server keeps ok error (d >>= f) s := by
  refine Ensures.bind (Ensures.mono ?_ (Ensures.stable h))
  intro result s hresult
  cases result with
  | ok a => exact hresult s (refl_of keeps s)
  | error e => exact hresult

theorem Meets.seq {d : ExceptT ε (Dialogue β) α} {f : α → ExceptT ε (Dialogue β) γ} {ok' : γ → σ → Prop}
    (h : Meets server keeps ok error d s) (hnext : ∀ a s', ok a s' → Meets server keeps ok' error (f a) s') :
    Meets server keeps ok' error (d >>= f) s := .bind (h.mono hnext fun _ _ => id)

theorem Meets.tryCatch {d : ExceptT ε (Dialogue β) α} {handle : ε → ExceptT ε (Dialogue β) α}
    (h : Meets server keeps ok (fun e => Meets server keeps ok error (handle e)) d s) :
    Meets server keeps ok error (MonadExcept.tryCatch d handle) s := by
  refine Ensures.bind (Ensures.mono ?_ (Ensures.stable h))
  intro result s hresult
  cases result with
  | ok a => exact hresult
  | error e => exact hresult s (refl_of keeps s)

end Rules

/-- What a dialogue has ended with. -/
def result? : Dialogue β α → Option α
  | done a => some a
  | ask _ _ => none

theorem result?_eq_some {d : Dialogue β α} {a : α} : d.result? = some a ↔ d = done a := by
  cases d with
  | done a' => simp [result?]
  | ask request next => simp [result?]

end Dialogue

/-! ### Taking turns -/

open Dialogue

/-- From the dialogues `ds` at `s`: each turn is a request of one of the parties, or something that the others
do. -/
inductive TakeTurns [DecidableEq ι] (server : (request : ρ) → σ → β request → σ → Prop)
    (keeps : σ → σ → Prop) (s : σ) (ds : ι → Dialogue β α) : σ → (ι → Dialogue β α) → Prop
  | start : TakeTurns server keeps s ds s ds
  | turn (s' s'' : σ) (ds' : ι → Dialogue β α) (before : TakeTurns server keeps s ds s' ds') (i : ι)
      (request : ρ) (next : β request → Dialogue β α) (b : β request) (pending : ds' i = .ask request next)
      (answer : server request s' b s'') :
      TakeTurns server keeps s ds s'' (Function.update ds' i (next b))
  | others (s' s'' : σ) (ds' : ι → Dialogue β α) (before : TakeTurns server keeps s ds s' ds')
      (kept : keeps s' s'') : TakeTurns server keeps s ds s'' ds'

/-- A turn of the party `i`, if the server is a function. -/
def takeTurn [DecidableEq ι] (handle : (request : ρ) → σ → β request × σ) (x : σ × (ι → Dialogue β α)) (i : ι) :
    σ × (ι → Dialogue β α) :=
  match x.2 i with
  | .done _ => x
  | .ask request next => ((handle request x.1).2, Function.update x.2 i (next (handle request x.1).1))

theorem takeTurns_foldl [DecidableEq ι] (handle : (request : ρ) → σ → β request × σ) (keeps : σ → σ → Prop)
    (s : σ) (ds : ι → Dialogue β α) (turns : List ι) :
    TakeTurns (fun request s b s' => (b, s') = handle request s) keeps s ds
      (turns.foldl (takeTurn handle) (s, ds)).1 (turns.foldl (takeTurn handle) (s, ds)).2 := by
  induction turns using List.reverseRecOn with
  | nil => exact .start
  | append_singleton turns i ih =>
    rw [List.foldl_append, List.foldl_cons, List.foldl_nil]
    generalize turns.foldl (takeTurn handle) (s, ds) = x at ih
    unfold takeTurn
    cases hi : x.2 i with
    | done a => exact ih
    | ask request next => exact .turn _ _ _ ih i request next _ hi rfl

namespace TakeTurns
variable [DecidableEq ι] {server : (request : ρ) → σ → β request → σ → Prop} {keeps : σ → σ → Prop}
  [IsPreorder σ keeps] {post : ι → α → σ → Prop} {ds ds' : ι → Dialogue β α} {s s' : σ}

/-- **Each party ensures what it ensures on its own**, in every run. -/
theorem ensures (h : TakeTurns server keeps s ds s' ds')
    (hds : ∀ i, (ds i).Ensures server keeps (post i) s) :
    keeps s s' ∧ ∀ i, (ds' i).Ensures server keeps (post i) s' := by
  induction h with
  | start => exact ⟨refl_of keeps s, hds⟩
  | turn s' s'' ds' before i request next b pending answer ih =>
    obtain ⟨hkeeps, hall⟩ := ih
    have hi := hall i
    rw [pending] at hi
    obtain ⟨hown, hnext⟩ := hi s' b s'' (refl_of keeps s') answer
    refine ⟨trans_of keeps hkeeps hown, fun j => ?_⟩
    by_cases hj : j = i
    · subst hj
      rwa [Function.update_self]
    · -- for the other parties it is interference
      rw [Function.update_of_ne hj]
      exact (hall j).of_keeps hown
  | others s' s'' ds' before kept ih =>
    obtain ⟨hkeeps, hall⟩ := ih
    exact ⟨trans_of keeps hkeeps kept, fun j => (hall j).of_keeps kept⟩

theorem post_of_done (h : TakeTurns server keeps s ds s' ds')
    (hds : ∀ i, (ds i).Ensures server keeps (post i) s) {i : ι} {a : α} (hdone : ds' i = .done a) :
    post i a s' := by
  have hi := (h.ensures hds).2 i
  rw [hdone] at hi
  exact hi s' (refl_of keeps s')

end TakeTurns
end Lib
