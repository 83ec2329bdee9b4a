import MiniGraph.FailedJoin

/-!
# The commands that are accepted

What the channel accepts in a run of the world is what the coordinator processes, in order, and what is still
in the channel.
-/

namespace MiniGraph
open Lib

namespace World

/-- The commands that the channel accepts in a run. -/
def accepted (w : World) : List WorldAction → List RoomCommand
  | [] => []
  | a :: as =>
    match w.step a with
    | none => []
    | some w' =>
      (if a = .coordinate then [] else w'.commands.buffer.drop w.commands.buffer.length) ++
        accepted w' as

variable {w w' w₁ : World} {a : WorldAction} {as bs : List WorldAction}

theorem accepted_cons (h : w.step a = some w') : accepted w (a :: as) =
    (if a = .coordinate then [] else w'.commands.buffer.drop w.commands.buffer.length) ++
      accepted w' as := by
  rw [accepted, h]

theorem accepted_takes (h : w.step a = some w') (haction : a = .coordinate) :
    accepted w (a :: as) = accepted w' as := by
  rw [accepted_cons h, if_pos haction, List.nil_append]

theorem accepted_puts {cmds : List RoomCommand} (h : w.step a = some w') (haction : a ≠ .coordinate)
    (hbuffer : w'.commands.buffer = w.commands.buffer ++ cmds) :
    accepted w (a :: as) = cmds ++ accepted w' as := by
  rw [accepted_cons h, if_neg haction, hbuffer, List.drop_left]

theorem accepted_append (h : exec step w as = some w₁) :
    accepted w (as ++ bs) = accepted w as ++ accepted w₁ bs := by
  induction as generalizing w with
  | nil =>
    obtain rfl := Option.some.inj h
    rfl
  | cons a as ih =>
    obtain ⟨w', hstep, hrest⟩ := exec_cons_eq_some.1 h
    rw [List.cons_append, accepted_cons hstep, accepted_cons hstep, ih hrest, List.append_assoc]

/-- What has been accepted is what has been processed and what is still in the channel. -/
theorem accepted_eq (c : ClientId) (h : exec step w as = some w') :
    w.commands.buffer ++ accepted w as = (processed c w as).map Prod.fst ++ w'.commands.buffer := by
  induction as generalizing w with
  | nil =>
    obtain rfl := Option.some.inj h
    simp [accepted, processed]
  | cons a as ih =>
    obtain ⟨w₁, hstep, hrest⟩ := exec_cons_eq_some.1 h
    have htail := ih hrest
    rw [processed_cons hstep]
    cases (step_effect hstep).channel with
    | takes cmd action buffer =>
      rw [accepted_takes hstep action, if_pos action, buffer]
      simpa using htail
    | puts cmds action buffer =>
      rw [accepted_puts hstep action buffer, if_neg action, ← List.append_assoc, ← buffer, htail]
      rfl

end World
end MiniGraph
