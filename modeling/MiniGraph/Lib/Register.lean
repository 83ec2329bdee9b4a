import Mathlib.Data.List.Basic

/-!
# Registers

The value of a register after a history of operations, each of which overwrites it or leaves it alone.
The last write decides; `written_remove_iff` says when a write in the middle does not matter.
-/

namespace Lib
variable {α : Type} {v v' a : α} {ops before after : List (Option α)}

/-- The value after `ops`, of which `none` leaves it alone. -/
def written (v : α) (ops : List (Option α)) : α := ops.foldl (fun v op => op.getD v) v

@[simp] theorem written_nil : written v [] = v := rfl
@[simp] theorem written_cons_none : written v (none :: ops) = written v ops := rfl
@[simp] theorem written_cons_some : written v (some a :: ops) = written a ops := rfl

theorem written_append : written v (before ++ after) = written (written v before) after :=
  List.foldl_append

theorem written_of_write (h : ∃ op ∈ ops, op ≠ none) : written v ops = written v' ops := by
  induction ops generalizing v v' with
  | nil =>
    obtain ⟨op, hmem, -⟩ := h
    cases hmem
  | cons op ops ih =>
    cases op with
    | some a => rfl
    | none =>
      obtain ⟨op, hmem, hne⟩ := h
      rcases List.mem_cons.1 hmem with rfl | hmem
      · exact absurd rfl hne
      · exact ih ⟨op, hmem, hne⟩

/-- Nothing else is written. -/
theorem written_of_same (h : ∀ op ∈ ops, op.getD v = v) : written v ops = v := by
  induction ops with
  | nil => rfl
  | cons op ops ih =>
    show written (op.getD v) ops = v
    rw [h op List.mem_cons_self]
    exact ih fun op hmem => h op (List.mem_cons_of_mem _ hmem)

theorem written_of_keep (h : ∀ op ∈ ops, op = none) : written v ops = v :=
  written_of_same fun op hmem => by
    rw [h op hmem]
    rfl

theorem written_eq_iff : written v ops = written v' ops ↔ v = v' ∨ ∃ op ∈ ops, op ≠ none := by
  by_cases h : ∃ op ∈ ops, op ≠ none
  · exact ⟨fun _ => .inr h, fun _ => written_of_write h⟩
  · have hkeep : ∀ op ∈ ops, op = none := by simpa using h
    rw [written_of_keep hkeep, written_of_keep hkeep]
    exact ⟨.inl, fun h' => h'.resolve_right h⟩

/-- A write makes no difference exactly if it writes what is there, or something is written later. -/
theorem written_remove_iff : written v (before ++ some a :: after) = written v (before ++ after) ↔
    written v before = a ∨ ∃ op ∈ after, op ≠ none := by
  rw [written_append, written_append, written_cons_some, written_eq_iff, eq_comm]

theorem written_remove_none : written v (before ++ none :: after) = written v (before ++ after) := by
  rw [written_append, written_append, written_cons_none]

end Lib
