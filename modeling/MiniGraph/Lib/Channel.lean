import Mathlib.Tactic.SplitIfs

/-!
# Bounded channels

A bounded multi-producer single-consumer queue, as seen by `try_send` and by the consumer. It holds
at most `capacity` values, and once its receiver is gone it is closed for good.
-/

namespace Lib

structure Mpsc (capacity : Nat) (α : Type) where
  buffer : List α
  closed : Bool
  length_le : buffer.length ≤ capacity

inductive TrySendError where
  | full
  | closed
deriving DecidableEq, Repr

namespace Mpsc
variable {capacity : Nat} {α : Type}

def empty : Mpsc capacity α := ⟨[], false, Nat.zero_le _⟩

/-- Appends a value, unless the channel is closed or full. -/
def trySend (a : α) (c : Mpsc capacity α) : Except TrySendError (Mpsc capacity α) :=
  if c.closed then .error .closed
  else if h : c.buffer.length < capacity then .ok ⟨c.buffer ++ [a], false, by simpa [Nat.succ_le_iff] using h⟩
  else .error .full

/-- Takes the oldest value out. -/
def recv (c : Mpsc capacity α) : Option (α × Mpsc capacity α) :=
  match h : c.buffer with
  | [] => none
  | a :: rest => some (a, ⟨rest, c.closed, by have := c.length_le; rw [h] at this; simp at this; omega⟩)

/-- The receiver is dropped, and with it what it has not received. -/
def close (_ : Mpsc capacity α) : Mpsc capacity α := ⟨[], true, Nat.zero_le _⟩

variable {a : α} {c c' : Mpsc capacity α}

theorem eq_of_buffer (h : c.buffer = c'.buffer) (hclosed : c.closed = c'.closed) : c = c' := by
  obtain ⟨buffer, closed, hlen⟩ := c
  obtain ⟨buffer', closed', hlen'⟩ := c'
  obtain rfl : buffer = buffer' := h
  obtain rfl : closed = closed' := hclosed
  rfl

theorem trySend_eq_ok : c.trySend a = .ok c' ↔
    c.closed = false ∧ c'.closed = false ∧ c'.buffer = c.buffer ++ [a] ∧
      c.buffer.length < capacity := by
  unfold trySend
  obtain ⟨buffer', closed', hlen'⟩ := c'
  split_ifs with hclosed hlen
  · simp [hclosed]
  · simp only [Except.ok.injEq, mk.injEq]
    constructor
    · rintro ⟨rfl, rfl⟩
      exact ⟨by simpa using hclosed, rfl, rfl, hlen⟩
    · rintro ⟨-, rfl, rfl, -⟩
      exact ⟨rfl, rfl⟩
  · simp [hlen]

theorem trySend_eq_closed : c.trySend a = .error .closed ↔ c.closed = true := by
  unfold trySend
  split_ifs with hclosed hlen <;> simp [hclosed]

theorem trySend_eq_full : c.trySend a = .error .full ↔ c.closed = false ∧ c.buffer.length = capacity := by
  have := c.length_le
  unfold trySend
  split_ifs with hclosed hlen
  · simp [hclosed]
  · simp; omega
  · simp [hclosed]; omega

theorem recv_eq_some : c.recv = some (a, c') ↔ c.buffer = a :: c'.buffer ∧ c'.closed = c.closed := by
  obtain ⟨buffer, closed, hlen⟩ := c
  obtain ⟨buffer', closed', hlen'⟩ := c'
  cases buffer with
  | nil => simp [recv]
  | cons b rest =>
    simp only [recv, Option.some.injEq, Prod.mk.injEq, mk.injEq, List.cons.injEq]
    constructor
    · rintro ⟨rfl, rfl, rfl⟩
      exact ⟨⟨rfl, rfl⟩, rfl⟩
    · rintro ⟨⟨rfl, rfl⟩, rfl⟩
      exact ⟨rfl, rfl, rfl⟩

theorem recv_eq_none : c.recv = none ↔ c.buffer = [] := by
  obtain ⟨_ | ⟨a, rest⟩, closed, hlen⟩ := c <;> simp [recv]

theorem exists_recv {a : α} {rest : List α} (h : c.buffer = a :: rest) :
    ∃ c', c.recv = some (a, c') ∧ c'.buffer = rest := by
  have hle : rest.length ≤ capacity := by
    have hlength := c.length_le
    rw [h] at hlength
    exact Nat.le_of_succ_le hlength
  exact ⟨⟨rest, c.closed, hle⟩, recv_eq_some.2 ⟨h, rfl⟩, rfl⟩

end Mpsc
end Lib
