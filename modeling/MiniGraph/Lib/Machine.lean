import Mathlib.Algebra.Group.Nat.Defs
import MiniGraph.Lib.Cursor

/-!
# Readers on a machine

A `Reader` has a cursor that cannot leave its sequence, and loops that come with a proof that they end.
A `Machine` has neither: its position is a number, and every step that can go wrong on a machine stops
it with a `Fault`; a loop stops when it has used up its rounds. `Simulates` says that a machine does
what a reader does, and so that none of this happens, on sequences that are not too long. The rules
below compose simulations the way both compose.
-/

namespace Lib

variable {α β γ σ ε : Type}

/-- What must not happen: a sum that does not fit, a slice or an index out of bounds, a negative number
taken for an unsigned one, or a position behind the end. -/
inductive Fault where
  | overflow
  | slice
  | index
  | cast
  | position
deriving DecidableEq, Repr

/-- Why a machine stops without a value. -/
inductive Stop (ε : Type) where
  | error (e : ε)
  | fault (fault : Fault)
  | stillRunning
deriving DecidableEq, Repr

/-- A number for a position. -/
structure RawCursor (β : Type) where
  data : List β
  pos : Nat
deriving DecidableEq, Repr

def Cursor.raw (c : Cursor β) : RawCursor β := ⟨c.data, c.pos⟩

abbrev Machine (β ε α : Type) := StateT (RawCursor β) (Except (Stop ε)) α

/-! ### Steps -/

namespace Machine

def fail (e : ε) : Machine β ε α := throw (.error e)

def fault (f : Fault) : Machine β ε α := throw (.fault f)

/-- The sum of two words of `bits` bits. -/
def add (bits a b : Nat) : Machine β ε Nat := if a + b < 2 ^ bits then pure (a + b) else fault .overflow

/-- `xs[start..stop]` -/
def slice (xs : List γ) (start stop : Nat) : Machine β ε (List γ) :=
  if start ≤ stop ∧ stop ≤ xs.length then pure ((xs.drop start).take (stop - start)) else fault .slice

/-- `xs[i]` -/
def index (xs : List γ) (i : Nat) : Machine β ε γ :=
  match xs[i]? with
  | some x => pure x
  | none => fault .index

/-- A signed number as an unsigned one. -/
def cast (n : Int) : Machine β ε Nat := if 0 ≤ n then pure n.toNat else fault .cast

/-- Moves the cursor. The machine itself would not notice a position behind the end here. -/
def setPos (pos : Nat) : Machine β ε Unit := do
  let c ← get
  if pos ≤ c.data.length then set { c with pos } else fault .position

/-- The body `n` times, the results in a list. -/
def times : Nat → Machine β ε α → Machine β ε (List α)
  | 0, _ => pure []
  | n + 1, m => do
    let a ← m
    let as ← times n m
    return a :: as

/-- `loop { s = body(s)? }` until the body breaks with a value, for `fuel` rounds at most. -/
def loop (body : σ → Machine β ε (σ ⊕ α)) : Nat → σ → Machine β ε α
  | 0, _ => throw .stillRunning
  | fuel + 1, s => do
    match ← body s with
    | .inl s' => loop body fuel s'
    | .inr a => return a

/-- One round of `while !reader.is_empty() { out.push(item(reader)?) }`. -/
def untilEndBody (item : Machine β ε α) (out : List α) : Machine β ε (List α ⊕ List α) := do
  let c ← get
  if c.pos ≥ c.data.length then
    return .inr out
  else
    let a ← item
    return .inl (out ++ [a])

variable {bits a b start stop : Nat} {xs : List γ} {n : Int} {c : RawCursor β}

theorem run_untilEndBody (item : Machine β ε α) (out : List α) (c : RawCursor β) :
    (untilEndBody item out).run c = (if c.pos ≥ c.data.length then pure (.inr out)
      else item >>= fun a => pure (.inl (out ++ [a])) : Machine β ε (List α ⊕ List α)).run c := rfl

theorem add_eq_pure (h : a + b < 2 ^ bits) : (add bits a b : Machine β ε Nat) = pure (a + b) := if_pos h

theorem slice_eq_pure (hstart : start ≤ stop) (hstop : stop ≤ xs.length) :
    (slice xs start stop : Machine β ε (List γ)) = pure ((xs.drop start).take (stop - start)) :=
  if_pos ⟨hstart, hstop⟩

theorem cast_eq_pure (h : 0 ≤ n) : (cast n : Machine β ε Nat) = pure n.toNat := if_pos h

theorem setPos_run (h : a ≤ c.data.length) :
    (setPos a : Machine β ε Unit).run c = .ok ((), { c with pos := a }) := by
  have hset : (setPos a : Machine β ε Unit).run c =
      (if a ≤ c.data.length then set { c with pos := a } else fault .position : Machine β ε Unit).run c := rfl
  rw [hset, if_pos h]
  rfl

end Machine

/-! ### Simulation -/

/-- What a reader returns, for a machine. -/
def toRaw : Except ε (α × Cursor β) → Except (Stop ε) (α × RawCursor β)
  | .ok (a, c) => .ok (a, c.raw)
  | .error e => .error (.error e)

/-- On sequences of at most `bound` elements the machine does what the reader does. -/
structure Simulates (bound : Nat) (m : Machine β ε α) (p : Reader β ε α) : Prop where
  run : ∀ c, c.data.length ≤ bound → m.run c.raw = toRaw (p.run c)
  data : ∀ c a c', p.run c = .ok (a, c') → c'.data = c.data

/-- `p` can return `a`. -/
def Returns (p : Reader β ε α) (a : α) : Prop := ∃ c c', p.run c = .ok (a, c')

namespace Simulates
variable {bound bound' : Nat} {m m' : Machine β ε α} {p q : Reader β ε α}

theorem mono (hm : Simulates bound m p) (h : bound' ≤ bound) : Simulates bound' m p where
  run := fun c hc => hm.run c (Nat.le_trans hc h)
  data := hm.data

theorem pure (a : α) : Simulates bound (Pure.pure a : Machine β ε α) (Pure.pure a) where
  run := fun _ _ => rfl
  data := by
    intro c a' c' h
    rw [← (Prod.mk.inj (Except.ok.inj h)).2]

theorem fail (e : ε) : Simulates bound (Machine.fail e : Machine β ε α) (throw e) where
  run := fun _ _ => rfl
  data := fun _ _ _ h => by cases h

theorem bind {f : α → Machine β ε γ} {g : α → Reader β ε γ} (hm : Simulates bound m p)
    (hf : ∀ a, Returns p a → Simulates bound (f a) (g a)) : Simulates bound (m >>= f) (p >>= g) where
  run := by
    intro c hc
    rw [StateT.run_bind, StateT.run_bind, hm.run c hc]
    cases hp : p.run c with
    | error e => rfl
    | ok r =>
      obtain ⟨a, c'⟩ := r
      have hc' : c'.data.length ≤ bound := by rwa [hm.data c a c' hp]
      exact (hf a ⟨c, c', hp⟩).run c' hc'
  data := by
    intro c b c'' h
    rw [StateT.run_bind, Except.bind_eq_ok] at h
    obtain ⟨⟨a, c'⟩, hp, hg⟩ := h
    rw [(hf a ⟨c, c', hp⟩).data c' b c'' hg, hm.data c a c' hp]

theorem ite {P : Prop} [Decidable P] (hp : P → Simulates bound m p) (hq : ¬ P → Simulates bound m' q) :
    Simulates bound (if P then m else m') (if P then p else q) := by
  split_ifs with h
  · exact hp h
  · exact hq h

theorem times (hm : Simulates bound m p) (n : Nat) : Simulates bound (Machine.times n m) (Lib.times n p) := by
  induction n with
  | zero => exact .pure []
  | succ n ih => exact hm.bind fun a _ => ih.bind fun as _ => .pure (a :: as)

/-- With a round for every element and one to spare, a loop that makes progress ends. -/
theorem loop {mbody : σ → Machine β ε (σ ⊕ α)} {body : σ → Reader β ε (σ ⊕ α)} {hb : Progress body}
    (hbody : ∀ s, Simulates bound (mbody s) (body s)) {fuel : Nat} (hfuel : bound < fuel) (s : σ) :
    Simulates bound (Machine.loop mbody fuel s) (Lib.loop body hb s) where
  run := by
    intro c hc
    have hrest : c.rest.length < fuel := by
      rw [c.length_rest]
      omega
    clear hfuel
    induction fuel generalizing s c with
    | zero => exact absurd hrest (Nat.not_lt_zero _)
    | succ fuel ih =>
      rw [Machine.loop, StateT.run_bind, (hbody s).run c hc]
      match hr : (body s).run c with
      | .error e => rw [loop_error hr]; rfl
      | .ok (.inr a, c') => rw [loop_done hr]; rfl
      | .ok (.inl s', c') =>
        have hc' : c'.data.length ≤ bound := by rwa [(hbody s).data c _ c' hr]
        have hshorter := hb s c s' c' hr
        rw [loop_again hr]
        exact ih s' c' hc' (by omega)
  data := by
    intro c a c' h
    induction hl : c.rest.length using Nat.strongRecOn generalizing s c with
    | _ l ih =>
      match hr : (body s).run c with
      | .error e => rw [loop_error hr] at h; cases h
      | .ok (.inr a', c₁) =>
        rw [loop_done hr] at h
        obtain ⟨-, rfl⟩ := Prod.mk.inj (Except.ok.inj h)
        exact (hbody s).data c _ c₁ hr
      | .ok (.inl s', c₁) =>
        rw [loop_again hr] at h
        rw [ih _ (hl ▸ hb s c s' c₁ hr) s' c₁ h rfl, (hbody s).data c _ c₁ hr]

theorem untilEndBody (hm : Simulates bound m p) (out : List α) :
    Simulates bound (Machine.untilEndBody m out) (Lib.untilEndBody p out) where
  run := by
    intro c hc
    rw [Machine.run_untilEndBody]
    by_cases hend : c.rest = []
    · have hpos : c.raw.pos ≥ c.raw.data.length := of_decide_eq_true (Cursor.atEnd_iff.2 hend)
      rw [untilEndBody_atEnd p out hend, if_pos hpos]
      rfl
    · have hpos : ¬ c.raw.pos ≥ c.raw.data.length := fun hpos => hend (Cursor.atEnd_iff.1 (decide_eq_true hpos))
      rw [untilEndBody_ahead p out hend, if_neg hpos, StateT.run_bind, hm.run c hc]
      cases p.run c <;> rfl
  data := by
    intro c a c' h
    by_cases hend : c.rest = []
    · rw [untilEndBody_atEnd p out hend] at h
      rw [(Prod.mk.inj (Except.ok.inj h)).2]
    · rw [untilEndBody_ahead p out hend, Except.bind_eq_ok] at h
      obtain ⟨⟨a', c₁⟩, ha, h⟩ := h
      obtain ⟨-, rfl⟩ := Prod.mk.inj (Except.ok.inj h)
      exact hm.data c a' _ ha

theorem untilEnd (hm : Simulates bound m p) (hp : Shrinks p) {fuel : Nat} (hfuel : bound < fuel) :
    Simulates bound (Machine.loop (Machine.untilEndBody m) fuel []) (Lib.untilEnd p hp) :=
  loop hm.untilEndBody hfuel []

end Simulates

/-! ### Progress -/

namespace Machine

/-- The machine reports an error, or it moves forward and stays within the sequence. -/
def Advances (m : Machine β ε α) (c : RawCursor β) : Prop :=
  (∃ e, m.run c = .error (.error e)) ∨
    ∃ a c', m.run c = .ok (a, c') ∧ c'.data = c.data ∧ c.pos < c'.pos ∧ c'.pos ≤ c'.data.length

theorem Advances.untilEndBody {m : Machine β ε α} {c : RawCursor β} (h : m.Advances c)
    (hahead : c.pos < c.data.length) (out : List α) : (Machine.untilEndBody m out).Advances c := by
  unfold Advances
  rw [run_untilEndBody, if_neg (Nat.not_le.2 hahead), StateT.run_bind]
  rcases h with ⟨e, hm⟩ | ⟨a, c', hm, hmoves⟩
  · rw [hm]
    exact .inl ⟨e, rfl⟩
  · rw [hm]
    exact .inr ⟨_, c', rfl, hmoves⟩

end Machine

theorem Simulates.advances {bound : Nat} {m : Machine β ε α} {p : Reader β ε α} (h : Simulates bound m p)
    (hp : Shrinks p) {c : RawCursor β} (hpos : c.pos ≤ c.data.length) (hlength : c.data.length ≤ bound) :
    m.Advances c := by
  have hrun := h.run ⟨c.data, c.pos, hpos⟩ hlength
  cases hr : p.run ⟨c.data, c.pos, hpos⟩ with
  | error e =>
    rw [hr] at hrun
    exact .inl ⟨e, hrun⟩
  | ok r =>
    obtain ⟨a, c'⟩ := r
    rw [hr] at hrun
    have hdata := h.data _ a c' hr
    have hshorter := hp _ a c' hr
    rw [Cursor.length_rest, Cursor.length_rest, hdata] at hshorter
    simp only at hshorter
    refine .inr ⟨a, c'.raw, hrun, hdata, ?_, c'.pos_le⟩
    show c.pos < c'.pos
    omega

end Lib
