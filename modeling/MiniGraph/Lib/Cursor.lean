import Mathlib.Data.List.Basic
import Mathlib.Tactic.Common

/-!
# Readers over a cursor, and the formats they read

A `Cursor` is a position in a fixed sequence, never past its end; a `Reader` is a state-passing
function on cursors that may fail. `Reads p G` ties a reader to a *format* `G` (which values are
spelled by which sequences): `p` succeeds at a cursor exactly when the sequence ahead starts with a
spelling of a value, and then it returns that value and stops right behind the spelling. The rules
below (`pure`, `bind`, `times`, `loop`, `untilEnd`) compose formats the way the readers compose.

Loops take the proof that their body makes progress, so they are total without any default result.
-/

namespace Lib

universe u v

/-- A position in a fixed sequence, never past its end. -/
@[ext] structure Cursor (β : Type u) where
  data : List β
  pos : Nat
  pos_le : pos ≤ data.length

namespace Cursor
variable {β : Type u} {c c' c'' : Cursor β} {xs ys : List β}

def start (data : List β) : Cursor β := ⟨data, 0, Nat.zero_le _⟩

/-- What is still ahead of the cursor. -/
def rest (c : Cursor β) : List β := c.data.drop c.pos

def advance (c : Cursor β) (n : Nat) (h : c.pos + n ≤ c.data.length) : Cursor β :=
  ⟨c.data, c.pos + n, h⟩

@[simp] theorem rest_start (data : List β) : (start data).rest = data := by simp [rest, start]

theorem length_rest (c : Cursor β) : c.rest.length = c.data.length - c.pos := by simp [rest]

theorem rest_advance (c : Cursor β) (n : Nat) (h : c.pos + n ≤ c.data.length) :
    (c.advance n h).rest = c.rest.drop n := by
  simp [rest, advance, List.drop_drop]

/-- `c'` is `c` after `xs` has been read. -/
structure Eats (c : Cursor β) (xs : List β) (c' : Cursor β) : Prop where
  data : c'.data = c.data
  rest : c.rest = xs ++ c'.rest

namespace Eats

theorem refl (c : Cursor β) : c.Eats [] c := ⟨rfl, rfl⟩

theorem trans (h : c.Eats xs c') (h' : c'.Eats ys c'') : c.Eats (xs ++ ys) c'' :=
  ⟨h'.data.trans h.data, by rw [h.rest, h'.rest, List.append_assoc]⟩

theorem pos (h : c.Eats xs c') : c'.pos = c.pos + xs.length := by
  have hl := congrArg List.length h.rest
  have hc := c.pos_le
  have hc' := c'.pos_le
  rw [List.length_append, length_rest, length_rest, h.data] at hl
  rw [h.data] at hc'
  omega

theorem length_rest (h : c.Eats xs c') : c.rest.length = xs.length + c'.rest.length := by
  rw [h.rest, List.length_append]

theorem cursor_unique (h : c.Eats xs c') (h' : c.Eats xs c'') : c' = c'' := by
  ext1
  · rw [h.data, h'.data]
  · rw [h.pos, h'.pos]

theorem unique (h : c.Eats xs c') (h' : c.Eats ys c') : xs = ys :=
  List.append_cancel_right (h.rest.symm.trans h'.rest)

theorem of_rest (h : c.rest = xs ++ ys) : ∃ c', c.Eats xs c' ∧ c'.rest = ys := by
  have hl := congrArg List.length h
  rw [List.length_append, Cursor.length_rest] at hl
  have hc := c.pos_le
  have hn : c.pos + xs.length ≤ c.data.length := by omega
  have hr : (c.advance xs.length hn).rest = ys := by rw [rest_advance, h, List.drop_left]
  exact ⟨c.advance xs.length hn, ⟨rfl, by rw [hr]; exact h⟩, hr⟩

theorem split (h : c.Eats (xs ++ ys) c'') : ∃ c', c.Eats xs c' ∧ c'.Eats ys c'' := by
  obtain ⟨c', h', hr⟩ := of_rest (h.rest.trans (List.append_assoc ..))
  exact ⟨c', h', h.data.trans h'.data.symm, hr⟩

theorem advance (n : Nat) (h : c.pos + n ≤ c.data.length) : c.Eats (c.rest.take n) (c.advance n h) :=
  ⟨rfl, by rw [rest_advance, List.take_append_drop]⟩

end Eats
end Cursor

/-- A stateful function on cursors that may fail with an `ε`. -/
abbrev Reader (β : Type u) (ε : Type v) (α : Type u) := StateT (Cursor β) (Except ε) α

/-- Which values are spelled by which sequences. -/
abbrev Format (α β : Type u) := α → List β → Prop

namespace Format
variable {α β γ : Type u}

def pure (a : α) : Format α β := fun a' xs => a' = a ∧ xs = []

def bind (G : Format α β) (H : α → Format γ β) : Format γ β :=
  fun b zs => ∃ a xs ys, G a xs ∧ H a b ys ∧ zs = xs ++ ys

/-- Spells nothing: the format of a reader that always fails. -/
def fail : Format α β := fun _ _ => False

/-- The spellings of the values that stand one after another in a list. -/
inductive Each (G : Format α β) : List α → List β → Prop
  | nil : Each G [] []
  | cons {a as xs ys} : G a xs → Each G as ys → Each G (a :: as) (xs ++ ys)

/-- Zero or more rounds `B s (.inl s')` that lead from one state to the next, and a last round
`B s (.inr a)` that ends with the value. -/
inductive Iter {σ : Type u} (B : σ → Format (σ ⊕ α) β) : σ → Format α β
  | done {s a xs} : B s (.inr a) xs → Iter B s a xs
  | again {s s' a xs ys} : B s (.inl s') xs → Iter B s' a ys → Iter B s a (xs ++ ys)

/-- The format given by an encoder `enc` of the well-formed `w` and the value `dec w` it stands
for. -/
def coded (P : γ → Prop) (enc : γ → List β) (dec : γ → α) : Format α β :=
  fun a xs => ∃ w, P w ∧ dec w = a ∧ enc w = xs

theorem bind.intro {G : Format α β} {H : α → Format γ β} {a : α} {b : γ} {xs ys : List β}
    (hG : G a xs) (hH : H a b ys) : bind G H b (xs ++ ys) :=
  ⟨a, xs, ys, hG, hH, rfl⟩

theorem bind.cons {G : Format α β} {H : α → Format γ β} {a : α} {b : γ} {x : β} {ys : List β}
    (hG : G a [x]) (hH : H a b ys) : bind G H b (x :: ys) :=
  ⟨a, [x], ys, hG, hH, rfl⟩

theorem bind.map {G : Format α β} {a : α} {xs : List β} (f : α → γ) (hG : G a xs) :
    bind G (fun a => pure (f a)) (f a) xs :=
  ⟨a, xs, [], hG, ⟨rfl, rfl⟩, (List.append_nil xs).symm⟩

variable {P : γ → Prop} {enc : γ → List β} {dec : γ → α}

theorem each_coded {as : List α} {xs : List β} :
    Each (coded P enc dec) as xs ↔ coded (∀ w ∈ ·, P w) (List.flatMap enc) (List.map dec) as xs := by
  constructor
  · intro h
    induction h with
    | nil => exact ⟨[], by simp, rfl, rfl⟩
    | cons h _ ih =>
      obtain ⟨w, hw, rfl, rfl⟩ := h
      obtain ⟨ws, hws, rfl, rfl⟩ := ih
      exact ⟨w :: ws, by simpa using ⟨hw, hws⟩, rfl, rfl⟩
  · rintro ⟨ws, hws, rfl, rfl⟩
    induction ws with
    | nil => exact .nil
    | cons w ws ih =>
      exact .cons ⟨w, hws w (by simp), rfl, rfl⟩ (ih fun w' h => hws w' (by simp [h]))

end Format

variable {α β γ σ : Type u} {ε : Type v}

theorem Except.bind_eq_ok {α γ : Type u} {x : Except ε α} {f : α → Except ε γ} {b : γ} :
    x >>= f = .ok b ↔ ∃ a, x = .ok a ∧ f a = .ok b := by
  cases x with
  | error e => simp [bind, Except.bind]
  | ok a => simp [bind, Except.bind]

/-- `p` succeeds exactly on the spellings of `G`, and stops right behind the one it read. -/
def Reads (p : Reader β ε α) (G : Format α β) : Prop :=
  ∀ c a c', p.run c = .ok (a, c') ↔ ∃ xs, G a xs ∧ c.Eats xs c'

namespace Reads
variable {p : Reader β ε α} {G G' : Format α β}

theorem congr (h : Reads p G) (hG : ∀ a xs, G a xs ↔ G' a xs) : Reads p G' :=
  fun c a c' => (h c a c').trans (exists_congr fun xs => and_congr_left' (hG a xs))

theorem pure (a : α) : Reads (Pure.pure a : Reader β ε α) (Format.pure a) := by
  intro c a' c'
  constructor
  · intro h
    obtain ⟨rfl, rfl⟩ := Prod.mk.inj (Except.ok.inj h)
    exact ⟨[], ⟨rfl, rfl⟩, .refl _⟩
  · rintro ⟨_, ⟨rfl, rfl⟩, h⟩
    rw [← (Cursor.Eats.refl c).cursor_unique h]; rfl

theorem throw (e : ε) : Reads (throw e : Reader β ε α) Format.fail := by
  intro c a c'
  constructor
  · intro h; cases h
  · rintro ⟨_, h, _⟩; exact h.elim

theorem bind {f : α → Reader β ε γ} {H : α → Format γ β} (hp : Reads p G) (hf : ∀ a, Reads (f a) (H a)) :
    Reads (p >>= f) (Format.bind G H) := by
  intro c b c''
  rw [StateT.run_bind, Except.bind_eq_ok]
  constructor
  · rintro ⟨⟨a, c'⟩, h, h'⟩
    obtain ⟨xs, hG, hxs⟩ := (hp c a c').1 h
    obtain ⟨ys, hH, hys⟩ := (hf a c' b c'').1 h'
    exact ⟨xs ++ ys, ⟨a, xs, ys, hG, hH, rfl⟩, hxs.trans hys⟩
  · rintro ⟨_, ⟨a, xs, ys, hG, hH, rfl⟩, h⟩
    obtain ⟨c', hxs, hys⟩ := h.split
    exact ⟨(a, c'), (hp c a c').2 ⟨xs, hG, hxs⟩, (hf a c' b c'').2 ⟨ys, hH, hys⟩⟩

theorem ite {q : Reader β ε α} {P : Prop} [Decidable P] (hp : Reads p G) (hq : Reads q G') :
    Reads (if P then p else q) (if P then G else G') := by
  split
  · exact hp
  · exact hq

/-- A format that is read cannot be ambiguous, not even up to what follows. -/
theorem unambiguous (h : Reads p G) {a b : α} {xs ys us vs : List β} (ha : G a xs) (hb : G b ys)
    (he : xs ++ us = ys ++ vs) : a = b ∧ xs = ys := by
  obtain ⟨c₁, h₁, -⟩ := Cursor.Eats.of_rest (c := .start (xs ++ us)) (Cursor.rest_start _)
  obtain ⟨c₂, h₂, -⟩ := Cursor.Eats.of_rest ((Cursor.rest_start (xs ++ us)).trans he)
  have e := ((h _ a c₁).2 ⟨xs, ha, h₁⟩).symm.trans ((h _ b c₂).2 ⟨ys, hb, h₂⟩)
  obtain ⟨rfl, rfl⟩ := Prod.mk.inj (Except.ok.inj e)
  exact ⟨rfl, h₁.unique h₂⟩

end Reads

/-! ### Repetition -/

/-- The body `n` times, the results in a list. -/
def times : Nat → Reader β ε α → Reader β ε (List α)
  | 0, _ => pure []
  | n + 1, p => do
    let a ← p
    let as ← times n p
    pure (a :: as)

theorem Reads.times {p : Reader β ε α} {G : Format α β} (h : Reads p G) (n : Nat) :
    Reads (times n p) fun as xs => as.length = n ∧ Format.Each G as xs := by
  induction n with
  | zero =>
    refine (Reads.pure []).congr fun as xs => ?_
    constructor
    · rintro ⟨rfl, rfl⟩; exact ⟨rfl, .nil⟩
    · rintro ⟨hl, hE⟩
      obtain rfl := List.length_eq_zero_iff.1 hl
      cases hE; exact ⟨rfl, rfl⟩
  | succ n ih =>
    refine (h.bind fun a => ih.bind fun as => Reads.pure (a :: as)).congr fun as xs => ?_
    constructor
    · rintro ⟨a, xs, _, hG, ⟨as, ys, _, ⟨hl, hE⟩, ⟨rfl, rfl⟩, rfl⟩, rfl⟩
      rw [List.append_nil]
      exact ⟨by simp [hl], .cons hG hE⟩
    · rintro ⟨hl, hE⟩
      cases hE with
      | nil => simp at hl
      | @cons a as xs ys hG hE =>
        exact ⟨a, xs, ys, hG, ⟨as, ys, [], ⟨by simpa using hl, hE⟩, ⟨rfl, rfl⟩, by simp⟩, rfl⟩

/-- Leaves no more ahead of the cursor than there was. -/
def Keeps (p : Reader β ε α) : Prop :=
  ∀ c a c', p.run c = .ok (a, c') → c'.rest.length ≤ c.rest.length

/-- Leaves less ahead of the cursor than there was. -/
def Shrinks (p : Reader β ε α) : Prop :=
  ∀ c a c', p.run c = .ok (a, c') → c'.rest.length < c.rest.length

namespace Keeps
variable {p : Reader β ε α} {f : α → Reader β ε γ}

theorem pure (a : α) : Keeps (Pure.pure a : Reader β ε α) := by
  intro c a' c' h
  obtain ⟨rfl, rfl⟩ := Prod.mk.inj (Except.ok.inj h)
  exact Nat.le_refl _

theorem throw (e : ε) : Keeps (throw e : Reader β ε α) := fun _ _ _ h => by cases h

theorem bind (hp : Keeps p) (hf : ∀ a, Keeps (f a)) : Keeps (p >>= f) := by
  intro c b c'' h
  rw [StateT.run_bind, Except.bind_eq_ok] at h
  obtain ⟨⟨a, c'⟩, h, h'⟩ := h
  exact Nat.le_trans (hf a c' b c'' h') (hp c a c' h)

theorem ite {P : Prop} [Decidable P] {q : Reader β ε α} (hp : Keeps p) (hq : Keeps q) :
    Keeps (if P then p else q) := by
  split
  · exact hp
  · exact hq

theorem times (hp : Keeps p) (n : Nat) : Keeps (times n p) := by
  induction n with
  | zero => exact Keeps.pure []
  | succ n ih => exact hp.bind fun a => ih.bind fun as => Keeps.pure (a :: as)

end Keeps

namespace Shrinks
variable {p : Reader β ε α} {f : α → Reader β ε γ}

theorem keeps (h : Shrinks p) : Keeps p := fun c a c' hp => Nat.le_of_lt (h c a c' hp)

theorem bind (hp : Shrinks p) (hf : ∀ a, Keeps (f a)) : Shrinks (p >>= f) := by
  intro c b c'' h
  rw [StateT.run_bind, Except.bind_eq_ok] at h
  obtain ⟨⟨a, c'⟩, h, h'⟩ := h
  exact Nat.lt_of_le_of_lt (hf a c' b c'' h') (hp c a c' h)

end Shrinks

theorem Reads.keeps {p : Reader β ε α} {G : Format α β} (h : Reads p G) : Keeps p := by
  intro c a c' hp
  obtain ⟨xs, -, he⟩ := (h c a c').1 hp
  rw [he.length_rest]
  exact Nat.le_add_left ..

theorem Reads.shrinks {p : Reader β ε α} {G : Format α β} (h : Reads p G)
    (hne : ∀ a xs, G a xs → xs ≠ []) : Shrinks p := by
  intro c a c' hp
  obtain ⟨xs, hG, he⟩ := (h c a c').1 hp
  have hl := List.length_pos_iff.2 (hne a xs hG)
  rw [he.length_rest]
  omega

/-- A loop body makes progress: every round after which the loop goes on leaves less ahead. -/
def Progress (body : σ → Reader β ε (σ ⊕ α)) : Prop :=
  ∀ s c s' c', (body s).run c = .ok (.inl s', c') → c'.rest.length < c.rest.length

theorem Shrinks.progress {body : σ → Reader β ε (σ ⊕ α)} (h : ∀ s, Shrinks (body s)) : Progress body :=
  fun s c s' c' hb => h s c (.inl s') c' hb

/-- The rounds of `loop`, at most `n` of them; progress makes `n` large enough. -/
def rounds (body : σ → Reader β ε (σ ⊕ α)) (hb : Progress body) :
    (n : Nat) → σ → (c : Cursor β) → c.rest.length < n → Except ε (α × Cursor β)
  | 0, _, _, h => absurd h (Nat.not_lt_zero _)
  | n + 1, s, c, h =>
    match hm : (body s).run c with
    | .error e => .error e
    | .ok (.inr a, c') => .ok (a, c')
    | .ok (.inl s', c') =>
      rounds body hb n s' c' (Nat.lt_of_lt_of_le (hb s c s' c' hm) (Nat.le_of_lt_succ h))

/-- `loop { s = body(s)? }` until the body breaks with a value. -/
def loop (body : σ → Reader β ε (σ ⊕ α)) (hb : Progress body) (s : σ) : Reader β ε α :=
  fun c => rounds body hb (c.rest.length + 1) s c (Nat.lt_succ_self _)

section
variable {body : σ → Reader β ε (σ ⊕ α)} {hb : Progress body} {s s' : σ} {c c₁ : Cursor β} {a : α}

theorem rounds_error {n : Nat} {e : ε} (hm : (body s).run c = .error e) (h : c.rest.length < n) :
    rounds body hb n s c h = .error e := by
  cases n with
  | zero => exact absurd h (Nat.not_lt_zero _)
  | succ n =>
    rw [rounds]
    split
    · next he => rw [← Except.error.inj (hm.symm.trans he)]
    · next he => rw [hm] at he; cases he
    · next he => rw [hm] at he; cases he

theorem rounds_done {n : Nat} (hm : (body s).run c = .ok (.inr a, c₁)) (h : c.rest.length < n) :
    rounds body hb n s c h = .ok (a, c₁) := by
  cases n with
  | zero => exact absurd h (Nat.not_lt_zero _)
  | succ n =>
    rw [rounds]
    split
    · next he => rw [hm] at he; cases he
    · next a' c' he =>
      obtain ⟨ha, rfl⟩ := Prod.mk.inj (Except.ok.inj (hm.symm.trans he))
      rw [Sum.inr.inj ha]
    · next he => rw [hm] at he; cases he

theorem rounds_again {n : Nat} (hm : (body s).run c = .ok (.inl s', c₁)) (h : c.rest.length < n + 1) :
    rounds body hb (n + 1) s c h =
      rounds body hb n s' c₁ (Nat.lt_of_lt_of_le (hb s c s' c₁ hm) (Nat.le_of_lt_succ h)) := by
  rw [rounds]
  split
  · next he => rw [hm] at he; cases he
  · next he => rw [hm] at he; cases he
  · next s'' c'' he =>
    obtain ⟨hs, rfl⟩ := Prod.mk.inj (Except.ok.inj (hm.symm.trans he))
    obtain rfl := Sum.inl.inj hs
    rfl

theorem rounds_bound {n m : Nat} (hn : c.rest.length < n) (hm : c.rest.length < m) :
    rounds body hb n s c hn = rounds body hb m s c hm := by
  induction n generalizing m s c with
  | zero => exact absurd hn (Nat.not_lt_zero _)
  | succ n ih =>
    cases m with
    | zero => exact absurd hm (Nat.not_lt_zero _)
    | succ m =>
      match hr : (body s).run c with
      | .error e => rw [rounds_error hr, rounds_error hr]
      | .ok (.inr a, c₁) => rw [rounds_done hr, rounds_done hr]
      | .ok (.inl s', c₁) => rw [rounds_again hr, rounds_again hr]; exact ih _ _

theorem loop_error {e : ε} (hm : (body s).run c = .error e) : (loop body hb s).run c = .error e :=
  rounds_error hm _

theorem loop_done (hm : (body s).run c = .ok (.inr a, c₁)) : (loop body hb s).run c = .ok (a, c₁) :=
  rounds_done hm _

theorem loop_again (hm : (body s).run c = .ok (.inl s', c₁)) :
    (loop body hb s).run c = (loop body hb s').run c₁ :=
  (rounds_again hm (Nat.lt_succ_self _)).trans (rounds_bound _ (Nat.lt_succ_self _))

theorem Keeps.loop (hk : ∀ s, Keeps (body s)) : Keeps (loop body hb s) := by
  intro c a c' h
  induction hl : c.rest.length using Nat.strongRecOn generalizing s c with
  | _ l ih =>
    match hr : (body s).run c with
    | .error e => rw [loop_error hr] at h; cases h
    | .ok (.inr a', c₁) =>
      rw [loop_done hr] at h
      obtain ⟨rfl, rfl⟩ := Prod.mk.inj (Except.ok.inj h)
      exact hl ▸ hk s c _ _ hr
    | .ok (.inl s', c₁) =>
      rw [loop_again hr] at h
      have hlt := hb s c s' c₁ hr
      exact Nat.le_trans (ih _ (hl ▸ hlt) c₁ h rfl) (hl ▸ Nat.le_of_lt hlt)

theorem Reads.loop {B : σ → Format (σ ⊕ α) β} (hB : ∀ s, Reads (body s) (B s)) :
    Reads (loop body hb s) (Format.Iter B s) := by
  intro c a c'
  constructor
  · intro h
    induction hl : c.rest.length using Nat.strongRecOn generalizing s c with
    | _ l ih =>
      match hr : (body s).run c with
      | .error e => rw [loop_error hr] at h; cases h
      | .ok (.inr a', c₁) =>
        rw [loop_done hr] at h
        obtain ⟨rfl, rfl⟩ := Prod.mk.inj (Except.ok.inj h)
        obtain ⟨xs, hx, he⟩ := (hB s c _ _).1 hr
        exact ⟨xs, .done hx, he⟩
      | .ok (.inl s', c₁) =>
        rw [loop_again hr] at h
        obtain ⟨xs, hx, he⟩ := (hB s c _ _).1 hr
        obtain ⟨ys, hy, he'⟩ := ih _ (hl ▸ hb s c s' c₁ hr) c₁ h rfl
        exact ⟨xs ++ ys, .again hx hy, he.trans he'⟩
  · rintro ⟨zs, hz, he⟩
    induction hz generalizing c with
    | done hx => exact loop_done ((hB _ c _ _).2 ⟨_, hx, he⟩)
    | again hx _ ih =>
      obtain ⟨c₁, hx', hy'⟩ := he.split
      rw [loop_again ((hB _ c _ _).2 ⟨_, hx, hx'⟩)]
      exact ih c₁ hy'

end

/-! ### Reading to the end -/

def Cursor.atEnd (c : Cursor β) : Bool := decide (c.data.length ≤ c.pos)

theorem Cursor.atEnd_iff {c : Cursor β} : c.atEnd = true ↔ c.rest = [] := by
  simp [Cursor.atEnd, Cursor.rest]

/-- One round of `untilEnd`. -/
def untilEndBody (item : Reader β ε α) (out : List α) : Reader β ε (List α ⊕ List α) := do
  if (← get).atEnd then
    pure (.inr out)
  else
    let a ← item
    pure (.inl (out ++ [a]))

section
variable {item : Reader β ε α} {G : Format α β} {out as : List α} {c c' : Cursor β}

theorem untilEndBody_atEnd (item : Reader β ε α) (out : List α) (h : c.rest = []) :
    (untilEndBody item out).run c = .ok (.inr out, c) := by
  show (if c.atEnd then (pure (.inr out) : Reader β ε (List α ⊕ List α)) else _).run c = _
  rw [if_pos (Cursor.atEnd_iff.2 h)]; rfl

theorem untilEndBody_ahead (item : Reader β ε α) (out : List α) (h : c.rest ≠ []) :
    (untilEndBody item out).run c = (item.run c >>= fun r => .ok (.inl (out ++ [r.1]), r.2)) := by
  show (if c.atEnd then (pure (.inr out) : Reader β ε (List α ⊕ List α)) else _).run c = _
  rw [if_neg (mt Cursor.atEnd_iff.1 h)]; rfl

theorem untilEndBody_progress (hp : Shrinks item) : Progress (untilEndBody item) := by
  intro out c out' c' h
  by_cases hc : c.rest = []
  · rw [untilEndBody_atEnd item _ hc] at h; cases h
  · rw [untilEndBody_ahead item out hc, Except.bind_eq_ok] at h
    obtain ⟨⟨a, c₁⟩, ha, h⟩ := h
    obtain ⟨-, rfl⟩ := Prod.mk.inj (Except.ok.inj h)
    exact hp c a _ ha

/-- `while !reader.is_empty() { out.push(item(reader)?) }` -/
def untilEnd (item : Reader β ε α) (hp : Shrinks item) : Reader β ε (List α) :=
  loop (untilEndBody item) (untilEndBody_progress hp) []

theorem Shrinks.ne_nil (hp : Shrinks item) (h : Reads item G) {a : α} {xs : List β} (ha : G a xs) :
    xs ≠ [] := by
  rintro rfl
  exact absurd (hp _ a _ ((h (.start []) a _).2 ⟨[], ha, .refl _⟩)) (Nat.lt_irrefl _)

/-- A sequence splits into encodings in one way only. -/
theorem Reads.coded_unique {P : γ → Prop} {enc : γ → List β} {dec : γ → α} (hp : Shrinks item)
    (h : Reads item (Format.coded P enc dec)) {ws ws' : List γ} (hws : ∀ w ∈ ws, P w)
    (hws' : ∀ w ∈ ws', P w) (he : ws.flatMap enc = ws'.flatMap enc) : ws.map enc = ws'.map enc := by
  have hne : ∀ w, P w → enc w ≠ [] := fun w hw => hp.ne_nil h ⟨w, hw, rfl, rfl⟩
  induction ws generalizing ws' with
  | nil =>
    cases ws' with
    | nil => rfl
    | cons w' ws' =>
      rw [List.flatMap_nil, List.flatMap_cons] at he
      exact absurd (List.append_eq_nil_iff.1 he.symm).1 (hne w' (hws' w' (by simp)))
  | cons w ws ih =>
    cases ws' with
    | nil =>
      rw [List.flatMap_nil, List.flatMap_cons] at he
      exact absurd (List.append_eq_nil_iff.1 he).1 (hne w (hws w (by simp)))
    | cons w' ws' =>
      rw [List.flatMap_cons, List.flatMap_cons] at he
      obtain ⟨-, hw⟩ := h.unambiguous ⟨w, hws w (by simp), rfl, rfl⟩ ⟨w', hws' w' (by simp), rfl, rfl⟩ he
      rw [hw] at he
      rw [List.map_cons, List.map_cons, hw, ih (fun w h => hws w (by simp [h]))
        (fun w h => hws' w (by simp [h])) (List.append_cancel_left he)]

/-- A list of spellings that reaches to the end is empty only at the end. -/
theorem each_ahead (hp : Shrinks item) (h : Reads item G) {xs : List β} (hE : Format.Each G as xs)
    (he : c.Eats xs c') (hc' : c'.rest = []) : as = [] ↔ c.rest = [] := by
  rw [he.rest, hc', List.append_nil]
  cases hE with
  | nil => simp
  | cons hG _ => simp [hp.ne_nil h hG]

theorem loop_untilEnd (hp : Shrinks item) (h : Reads item G) :
    (loop (untilEndBody item) (untilEndBody_progress hp) out).run c = .ok (as, c') ↔
      ∃ as' xs, as = out ++ as' ∧ Format.Each G as' xs ∧ c.Eats xs c' ∧ c'.rest = [] := by
  constructor
  · intro hr
    induction hl : c.rest.length using Nat.strongRecOn generalizing out c with
    | _ l ih =>
      by_cases hc : c.rest = []
      · rw [loop_done (untilEndBody_atEnd item out hc)] at hr
        obtain ⟨rfl, rfl⟩ := Prod.mk.inj (Except.ok.inj hr)
        exact ⟨[], [], by simp, .nil, .refl _, hc⟩
      · have hb := untilEndBody_ahead item out hc
        match ha : item.run c with
        | .error e => rw [ha] at hb; rw [loop_error hb] at hr; cases hr
        | .ok (a, c₁) =>
          rw [ha] at hb; rw [loop_again hb] at hr
          obtain ⟨xs, hG, he⟩ := (h c a c₁).1 ha
          obtain ⟨as', ys, rfl, hE, he', hc'⟩ := ih _ (hl ▸ hp c a c₁ ha) hr rfl
          exact ⟨a :: as', xs ++ ys, by simp, .cons hG hE, he.trans he', hc'⟩
  · rintro ⟨as', xs, rfl, hE, he, hc'⟩
    induction hE generalizing out c with
    | nil =>
      obtain rfl := (Cursor.Eats.refl c).cursor_unique he
      rw [loop_done (untilEndBody_atEnd item out hc'), List.append_nil]
    | @cons a as' xs ys hG hE ih =>
      have hc : c.rest ≠ [] := fun hc =>
        by
        cases (each_ahead hp h (.cons hG hE) he hc').2 hc
      obtain ⟨c₁, he₁, he₂⟩ := he.split
      have hb := untilEndBody_ahead item out hc
      rw [(h c a c₁).2 ⟨xs, hG, he₁⟩] at hb
      rw [loop_again hb, ih he₂, List.append_assoc, List.singleton_append]

/-- Reading to the end succeeds exactly when what is ahead is a list of spellings and no more. -/
theorem untilEnd_eq_ok (hp : Shrinks item) (h : Reads item G) :
    (untilEnd item hp).run c = .ok (as, c') ↔
      ∃ xs, Format.Each G as xs ∧ c.Eats xs c' ∧ c'.rest = [] := by
  refine (loop_untilEnd hp h).trans ⟨?_, ?_⟩
  · rintro ⟨as', xs, rfl, hE⟩; exact ⟨xs, hE⟩
  · rintro ⟨xs, hE⟩; exact ⟨as, xs, rfl, hE⟩

end

end Lib
