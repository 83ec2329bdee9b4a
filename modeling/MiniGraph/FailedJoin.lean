import MiniGraph.Lib.Register
import MiniGraph.WorldInv

/-!
# Failed joins

A call of `handle_client_message` with a `Join` fails if the channel refuses the command or no
acknowledgement arrives in time. In the second case the command is still in the channel, and the
coordinator will put the client into the room as if nothing had happened. `noTrace_iff` says when this
makes no difference: if the client is in the room by then, or if a later command decides about it.

The commands that the coordinator processes are followed for one client: each of them overwrites its
membership of a room, or leaves it alone.
-/

namespace MiniGraph
open Lib

namespace RoomCommand

/-- What a command says about the membership of `clientId` in `room`, if anything. -/
def verdict (room : DocumentId) (clientId : ClientId) (closed : Bool) : RoomCommand → Option Bool
  | .join room' clientId' _ _ => if room' = room ∧ clientId' = clientId then some true else none
  | .leave room' clientId' => if room' = room ∧ clientId' = clientId then some false else none
  | .broadcast room' _ => if room' = room ∧ closed then some false else none

/-- The command is the join with the acknowledgement `ack`. -/
def answers (ack : AckId) : RoomCommand → Bool
  | .join _ _ _ respondTo => respondTo = ack
  | _ => false

theorem verdict_join_self (room : DocumentId) (clientId : ClientId) (tx : Sender) (respondTo : AckId)
    (closed : Bool) : (join room clientId tx respondTo).verdict room clientId closed = some true :=
  if_pos ⟨rfl, rfl⟩

theorem verdict_join_of_ne {room room' : DocumentId} (h : room' ≠ room) (clientId : ClientId)
    (tx : Sender) (respondTo : AckId) (closed : Bool) :
    (join room' clientId tx respondTo).verdict room clientId closed = none :=
  if_neg fun heq => h heq.1

theorem member_eq_verdict (cmd : RoomCommand) (room : DocumentId) (clientId : ClientId)
    (closed listed : Bool) :
    cmd.member room clientId closed listed = (cmd.verdict room clientId closed).getD listed := by
  cases cmd <;> simp only [member, verdict] <;> split_ifs <;> rfl

end RoomCommand

namespace World

/-! ### The commands that are processed -/

/-- The commands that the coordinator processes in a run, each with whether the queue of `c` was
closed at that moment. -/
def processed (c : ClientId) (w : World) : List WorldAction → List (RoomCommand × Bool)
  | [] => []
  | a :: as =>
    (if a = .coordinate then (w.commands.buffer.take 1).map (·, w.rooms.closed ⟨c⟩) else []) ++
      match w.step a with
      | none => []
      | some w' => processed c w' as

/-- What they say about the membership of `c` in a room. -/
def verdicts (c : ClientId) (d : DocumentId) (cmds : List (RoomCommand × Bool)) : List (Option Bool) :=
  cmds.map fun x => x.1.verdict d c x.2

variable {w w' w₁ w₂ : World} {a : WorldAction} {as call rest : List WorldAction} {c : ClientId}
  {s s' : Session} {d : DocumentId} {k : AckId}

theorem processed_cons (h : w.step a = some w') : processed c w (a :: as) =
    (if a = .coordinate then (w.commands.buffer.take 1).map (·, w.rooms.closed ⟨c⟩) else []) ++
      processed c w' as := by
  rw [processed, h]

/-- **Membership after a run**: the last command that says something about it decides. -/
theorem lists_processed (hc : w.Consistent) (h : exec step w as = some w') (c : ClientId)
    (d : DocumentId) :
    w'.rooms.lists d c = written (w.rooms.lists d c) (verdicts c d (processed c w as)) := by
  induction as generalizing w with
  | nil =>
    obtain rfl := Option.some.inj h
    rfl
  | cons a as ih =>
    obtain ⟨w₁, hstep, hrest⟩ := exec_cons_eq_some.1 h
    rw [ih (hc.step hstep) hrest, processed_cons hstep]
    cases (step_effect hstep).channel with
    | takes cmd action buffer rooms =>
      rw [rooms, Rooms.lists_process hc.entries, RoomCommand.member_eq_verdict, if_pos action, buffer]
      rfl
    | puts cmds action buffer rooms =>
      rw [lists_congr rooms, if_neg action]
      rfl

/-- The channel is a queue: what has been processed was in it at the start or has been sent since, with
a new acknowledgement if it is a join. -/
theorem processed_fifo (h : exec step w as = some w') : ∃ sent,
    w.commands.buffer ++ sent = (processed c w as).map Prod.fst ++ w'.commands.buffer ∧
      w.nextAck ≤ w'.nextAck ∧ ∀ cmd ∈ sent, ∀ k < w.nextAck, cmd.answers k = false := by
  induction as generalizing w with
  | nil =>
    obtain rfl := Option.some.inj h
    exact ⟨[], by simp [processed], Nat.le_refl _, nofun⟩
  | cons a as ih =>
    obtain ⟨w₁, hstep, hrest⟩ := exec_cons_eq_some.1 h
    obtain ⟨sent, hfifo, hnext, hnew⟩ := ih hrest
    rw [processed_cons hstep]
    cases (step_effect hstep).channel with
    | takes cmd action buffer rooms nextAck =>
      refine ⟨sent, ?_, nextAck ▸ hnext, nextAck ▸ hnew⟩
      rw [if_pos action, buffer]
      simpa using hfifo
    | puts cmds action buffer rooms acked hsent nextAck =>
      refine ⟨cmds ++ sent, ?_, nextAck.trans hnext, fun cmd hmem k hk => ?_⟩
      · rw [if_neg action, ← List.append_assoc, ← buffer, List.nil_append]
        exact hfifo
      · rcases List.mem_append.1 hmem with hmem | hmem
        · cases cmd with
          | join d c tx k' =>
            obtain ⟨-, rfl, -⟩ := hsent.join d c tx k' hmem
            exact decide_eq_false (Nat.ne_of_gt hk)
          | _ => rfl
        · exact hnew cmd hmem k (hk.trans_le nextAck)

theorem length_processed (h : exec step w as = some w') :
    (processed c w as).length = as.count .coordinate := by
  induction as generalizing w with
  | nil => rfl
  | cons a as ih =>
    obtain ⟨w₁, hstep, hrest⟩ := exec_cons_eq_some.1 h
    rw [processed_cons hstep, List.length_append, ih hrest, List.count_cons, Nat.add_comm]
    cases (step_effect hstep).channel with
    | takes cmd action buffer => simp [action, buffer]
    | puts cmds action => simp [action]

/-- Once as many commands have been processed as were in the channel at `w₁`, all that were in it
before that have been, too. -/
theorem processed_drained (h : exec step w call = some w₁) (hrest : exec step w₁ rest = some w₂)
    (hdone : w₁.commands.buffer.length ≤ rest.count .coordinate) : ∃ later,
      (processed c w (call ++ rest)).map Prod.fst = w.commands.buffer ++ later ∧
        ∀ cmd ∈ later, ∀ k < w.nextAck, cmd.answers k = false := by
  have hrun : exec step w (call ++ rest) = some w₂ := exec_append_eq_some.2 ⟨w₁, h, hrest⟩
  obtain ⟨sent, hfifo, -, hnew⟩ := processed_fifo (c := c) hrun
  have hlength : w.commands.buffer.length ≤ ((processed c w (call ++ rest)).map Prod.fst).length := by
    obtain ⟨sent₁, hfifo₁, -⟩ := processed_fifo (c := c) h
    have hcount := congrArg List.length hfifo₁
    rw [List.length_append, List.length_append, List.length_map, length_processed h] at hcount
    rw [List.length_map, length_processed hrun, List.count_append]
    omega
  obtain ⟨later, hprefix⟩ := List.prefix_of_prefix_length_le ⟨sent, hfifo⟩ (List.prefix_append _ _) hlength
  refine ⟨later, hprefix.symm, fun cmd hmem => hnew cmd ?_⟩
  rw [← hprefix, List.append_assoc] at hfifo
  rw [List.append_cancel_left hfifo]
  exact List.mem_append_left _ hmem

/-! ### A failed call -/

/-- A call of `handle_client_message` with `Join { document_id: d }` by the client `c` that returns
`Err`: the steps from the state `w` before it to the state in which it returns. Other tasks take steps
while it waits for its acknowledgement. -/
inductive FailedJoin (w : World) (c : ClientId) (d : DocumentId) : List WorldAction → World → Prop
  | refused (s : Session) (now : UInt64) (w' : World) : w.sessions c = some s →
      s.recvTask = .handling (.join d) → w.refuses (.handle c now) = true →
      w.step (.handle c now) = some w' → FailedJoin w c d [.handle c now] w'
  | unanswered (s s₁ : Session) (now : UInt64) (as : List WorldAction) (outcome : AckOutcome)
      (w₁ w' : World) : w.sessions c = some s → s.recvTask = .handling (.join d) →
      w.refuses (.handle c now) = false → exec step w (.handle c now :: as) = some w₁ →
      w₁.sessions c = some s₁ → s₁.recvTask = .awaitingAck d w.nextAck → outcome ≠ .acked →
      w₁.step (.resume c outcome) = some w' →
      FailedJoin w c d (.handle c now :: as ++ [.resume c outcome]) w'

/-- What the handler of a `Join` does at once. -/
structure HandledJoin (w w' : World) (s : Session) (c : ClientId) (d : DocumentId) (refused : Bool) :
    Prop where
  nextAck : w'.nextAck = w.nextAck + 1
  session : ∃ s', w'.sessions c = some s' ∧ s'.currentRoom = s.currentRoom
  buffer : w'.commands.buffer =
    w.commands.buffer ++ if refused then [] else [.join d c s.tx w.nextAck]

theorem nextAck_handle_join {now : UInt64} (hs : w.sessions c = some s)
    (ht : s.recvTask = .handling (.join d)) (hstep : w.step (.handle c now) = some w') :
    w'.nextAck = w.nextAck + 1 := by
  simp only [step, clientOf, Option.bind_some, hs, sessionStep, ht, Option.some.injEq] at hstep
  subst hstep
  unfold handleClientMessage
  simp only
  split
  · rfl
  · exact (quiet_finishMessage _ _ _).nextAck.trans (quiet_countDrop _ _).nextAck

theorem handle_join {now : UInt64} (hs : w.sessions c = some s) (ht : s.recvTask = .handling (.join d))
    (hstep : w.step (.handle c now) = some w') :
    w.HandledJoin w' s c d (w.refuses (.handle c now)) := by
  have hnext := nextAck_handle_join hs ht hstep
  obtain ⟨s₀, s', cmds, hs₀, hs', moves, moved⟩ := (step_effect hstep).moves rfl nofun nofun
  obtain rfl := Option.some.inj (hs.symm.trans hs₀)
  cases moves with
  | joinSent _ _ d' ht' haccepted =>
    obtain rfl : d = d' := by simpa [ht] using ht'
    rw [haccepted]
    exact ⟨hnext, ⟨_, hs', rfl⟩, by rw [moved.buffer, w.clientId_eq c s hs]; rfl⟩
  | joinRefused _ _ d' ht' hrefused =>
    rw [hrefused]
    exact ⟨hnext, ⟨_, hs', rfl⟩, moved.buffer⟩
  | sent _ _ msg cmd ht' hcmd =>
    rw [ht] at ht'
    cases ht'
    cases hcmd
  | sendRefused _ _ msg cmd ht' hcmd =>
    rw [ht] at ht'
    cases ht'
    cases hcmd
  | notInRoom _ _ text ht' =>
    rw [ht] at ht'
    cases ht'

theorem waiting_step {r : Option DocumentId} (hk : k < w.nextAck)
    (h : ∀ s, w.sessions c = some s → s.recvTask = .awaitingAck d k → s.currentRoom = r)
    (hstep : w.step a = some w') (hs' : w'.sessions c = some s') (ht' : s'.recvTask = .awaitingAck d k) :
    s'.currentRoom = r := by
  rcases (step_effect hstep).awaiting hs' ht' with ⟨s, hs, ht, hroom⟩ | ⟨rfl, -⟩
  · exact hroom.trans (h s hs ht)
  · exact absurd hk (Nat.lt_irrefl _)

theorem waiting_run {r : Option DocumentId} (hrun : exec step w as = some w') (hk : k < w.nextAck)
    (h : ∀ s, w.sessions c = some s → s.recvTask = .awaitingAck d k → s.currentRoom = r)
    (hs' : w'.sessions c = some s') (ht' : s'.recvTask = .awaitingAck d k) : s'.currentRoom = r := by
  have hinv : k < w'.nextAck ∧
      ∀ s, w'.sessions c = some s → s.recvTask = .awaitingAck d k → s.currentRoom = r := by
    refine exec_preserves (fun w => k < w.nextAck ∧
      ∀ s, w.sessions c = some s → s.recvTask = .awaitingAck d k → s.currentRoom = r) hrun ⟨hk, h⟩ ?_
    rintro w₁ a w₂ ⟨hk₁, h₁⟩ hstep
    exact ⟨hk₁.trans_le (step_effect hstep).nextAck_le, fun s hs ht => waiting_step hk₁ h₁ hstep hs ht⟩
  exact hinv.2 s' hs' ht'

namespace FailedJoin
theorem run (h : w.FailedJoin c d call w₁) : exec step w call = some w₁ := by
  cases h with
  | refused s now _ hs ht hrefused hstep => exact exec_cons_eq_some.2 ⟨w₁, hstep, rfl⟩
  | unanswered s s₁ now as outcome w' _ hs ht haccepted hrun hs₁ ht₁ hne hstep =>
    exact exec_concat_eq_some.2 ⟨w', hrun, hstep⟩

/-- A failed call begins with the handler of the message. -/
theorem handled (h : w.FailedJoin c d call w₁) : ∃ s now w₀ as, call = .handle c now :: as ∧
    w.HandledJoin w₀ s c d (w.refuses (.handle c now)) ∧ w.step (.handle c now) = some w₀ ∧
    exec step w₀ as = some w₁ := by
  cases h with
  | refused s now _ hs ht hrefused hstep =>
    exact ⟨s, now, w₁, [], rfl, handle_join hs ht hstep, hstep, rfl⟩
  | unanswered s s₁ now as outcome w' _ hs ht haccepted hrun hs₁ ht₁ hne hstep =>
    obtain ⟨w₀, hhandle, hwait⟩ := exec_cons_eq_some.1 hrun
    exact ⟨s, now, w₀, as ++ [.resume c outcome], rfl, handle_join hs ht hhandle, hhandle,
      exec_concat_eq_some.2 ⟨w', hwait, hstep⟩⟩

theorem currentRoom (h : w.FailedJoin c d call w₁) :
    (w₁.sessions c).map Session.currentRoom = (w.sessions c).map Session.currentRoom := by
  cases h with
  | refused s now _ hs ht hrefused hstep =>
    obtain ⟨s', hs', hroom⟩ := (handle_join hs ht hstep).session
    rw [hs, hs', Option.map_some, Option.map_some, hroom]
  | unanswered s s₁ now as outcome w' _ hs ht haccepted hrun hs₁ ht₁ hne hstep =>
    obtain ⟨w₂, hhandle, hrest⟩ := exec_cons_eq_some.1 hrun
    have hsame : s₁.currentRoom = s.currentRoom := by
      have hj := handle_join hs ht hhandle
      obtain ⟨s', hs', hroom⟩ := hj.session
      refine waiting_run hrest (by rw [hj.nextAck]; exact Nat.lt_succ_self _) ?_ hs₁ ht₁
      rintro s'' hs'' -
      obtain rfl := Option.some.inj (hs'.symm.trans hs'')
      exact hroom
    obtain ⟨s₂, s₃, cmds, hs₂, hs₃, moves, -⟩ := (step_effect hstep).moves rfl nofun nofun
    obtain rfl := Option.some.inj (hs₁.symm.trans hs₂)
    have hroom : s₃.currentRoom = s₁.currentRoom := by
      cases moves with
      | acked => exact absurd rfl hne
      | failed => rfl
    rw [hs, hs₃, Option.map_some, Option.map_some, hroom, hsame]

/-- The commands that are processed up to the moment when those in the channel at the end of the call
have been: its join is one of them, unless it was refused, and no other has its acknowledgement. -/
theorem processed_eq (h : w.FailedJoin c d call w₁) (hc : w.Consistent)
    (hrest : exec step w₁ rest = some w₂)
    (hdone : w₁.commands.buffer.length ≤ rest.count .coordinate) :
    (∀ x ∈ processed c w (call ++ rest), x.1.answers w.nextAck = false) ∨
    ∃ before tx closed after,
      processed c w (call ++ rest) = before ++ (.join d c tx w.nextAck, closed) :: after ∧
      (∀ x ∈ before, x.1.answers w.nextAck = false) ∧ ∀ x ∈ after, x.1.answers w.nextAck = false := by
  have hpending : ∀ cmd ∈ w.commands.buffer, cmd.answers w.nextAck = false := by
    intro cmd hmem
    cases cmd with
    | join d c tx k => exact decide_eq_false (Nat.ne_of_lt (hc.joins d c tx k hmem).2)
    | _ => rfl
  obtain ⟨s, now, w₀, as, rfl, ⟨hnext, -, hbuffer⟩, hstep, hrun⟩ := h.handled
  obtain ⟨later, hmap, hlater⟩ := processed_drained (c := c) hrun hrest hdone
  have hnew : ∀ cmd ∈ later, cmd.answers w.nextAck = false := fun cmd hmem =>
    hlater cmd hmem _ (by rw [hnext]; exact Nat.lt_succ_self _)
  rw [List.cons_append, processed_cons hstep, if_neg nofun, List.nil_append]
  rw [hbuffer] at hmap
  cases hrefused : w.refuses (.handle c now) with
  | true =>
    left
    intro x hx
    have hmem := List.mem_map_of_mem hx (f := Prod.fst)
    rw [hmap, hrefused] at hmem
    simp only [if_true, List.append_nil] at hmem
    exact (List.mem_append.1 hmem).elim (hpending _) (hnew _)
  | false =>
    right
    rw [hrefused] at hmap
    simp only [Bool.false_eq_true, if_false, List.append_assoc, List.singleton_append] at hmap
    obtain ⟨before, tail, heq, hbefore, htail⟩ := List.map_eq_append_iff.1 hmap
    obtain ⟨⟨cmd, closed⟩, after, rfl, rfl, hafter⟩ := List.map_eq_cons_iff.1 htail
    refine ⟨before, s.tx, closed, after, heq, fun x hx => ?_, fun x hx => ?_⟩
    · exact hpending _ (hbefore ▸ List.mem_map_of_mem hx)
    · exact hnew _ (hafter ▸ List.mem_map_of_mem hx)

end FailedJoin

/-! ### No trace -/

/-- The commands other than the join with the acknowledgement `k`. -/
def others (k : AckId) (cmds : List (RoomCommand × Bool)) : List (RoomCommand × Bool) :=
  cmds.filter fun x => !x.1.answers k

/-- A call between `w` and `w₁`, and what follows it up to `w₂`, leave no trace of the call:
`current_room` is as before, and the rooms that list the client are what the other commands make of
those that listed it before. -/
structure NoTrace (w : World) (c : ClientId) (call : List WorldAction) (w₁ : World)
    (rest : List WorldAction) (w₂ : World) : Prop where
  currentRoom : (w₁.sessions c).map Session.currentRoom = (w.sessions c).map Session.currentRoom
  listed : ∀ d, w₂.rooms.lists d c =
    written (w.rooms.lists d c) (verdicts c d (others w.nextAck (processed c w (call ++ rest))))

/-- If the coordinator processes the join of the call, then the client is in the room already, or a
later command decides about its membership of the room. -/
def Masked (w : World) (c : ClientId) (d : DocumentId) (as : List WorldAction) : Prop :=
  ∀ before x after, processed c w as = before ++ x :: after → x.1.answers w.nextAck = true →
    written (w.rooms.lists d c) (verdicts c d before) = true ∨
      ∃ verdict ∈ verdicts c d after, verdict ≠ none

theorem verdicts_split {before after : List (RoomCommand × Bool)} {x : RoomCommand × Bool} :
    verdicts c d (before ++ x :: after) =
      verdicts c d before ++ x.1.verdict d c x.2 :: verdicts c d after :=
  List.map_append

/-- The join of a call is the only command with its acknowledgement. -/
theorem masked_iff {before after : List (RoomCommand × Bool)} {x : RoomCommand × Bool}
    (heq : processed c w as = before ++ x :: after) (hx : x.1.answers w.nextAck = true)
    (hbefore : ∀ y ∈ before, y.1.answers w.nextAck = false)
    (hafter : ∀ y ∈ after, y.1.answers w.nextAck = false) : w.Masked c d as ↔
      written (w.rooms.lists d c) (verdicts c d before) = true ∨
        ∃ verdict ∈ verdicts c d after, verdict ≠ none := by
  constructor
  · exact fun h => h before x after heq hx
  · intro h before' y after' heq' hy
    have hnot : ∀ ys : List (RoomCommand × Bool), (∀ z ∈ ys, z.1.answers w.nextAck = false) → y ∉ ys := by
      intro ys hys hmem
      rw [hys y hmem] at hy
      cases hy
    obtain ⟨rfl, -, rfl⟩ := (List.append_cons_inj_of_notMem (hnot _ hbefore) (hnot _ hafter)).1
      (heq.symm.trans heq')
    exact h

theorem others_eq_self {cmds : List (RoomCommand × Bool)} (h : ∀ x ∈ cmds, x.1.answers k = false) :
    others k cmds = cmds :=
  List.filter_eq_self.2 fun x hx => by rw [h x hx]; rfl

/-- **Failed joins**: a failed call leaves no trace exactly if its join is masked. -/
theorem noTrace_iff (metrics : Metrics) (as call rest : List WorldAction) (w w₁ w₂ : World)
    (c : ClientId) (d : DocumentId) (h : Run metrics as w) (hcall : w.FailedJoin c d call w₁)
    (hrest : exec step w₁ rest = some w₂)
    (hdone : w₁.commands.buffer.length ≤ rest.count .coordinate) :
    w.NoTrace c call w₁ rest w₂ ↔ w.Masked c d (call ++ rest) := by
  have hc := consistent_run h
  have hlists := lists_processed hc (exec_append_eq_some.2 ⟨w₁, hcall.run, hrest⟩) c
  have htrace : w.NoTrace c call w₁ rest w₂ ↔ ∀ e,
      written (w.rooms.lists e c) (verdicts c e (processed c w (call ++ rest))) =
        written (w.rooms.lists e c) (verdicts c e (others w.nextAck (processed c w (call ++ rest)))) :=
    ⟨fun ht e => (hlists e).symm.trans (ht.listed e), fun ht =>
      ⟨hcall.currentRoom, fun e => (hlists e).trans (ht e)⟩⟩
  rw [htrace]
  rcases hcall.processed_eq hc hrest hdone with hnone | ⟨before, tx, closed, after, heq, hbefore, hafter⟩
  · -- the join was refused: there is nothing to mask
    rw [others_eq_self hnone]
    refine ⟨fun _ before x after heq hx => ?_, fun _ _ => rfl⟩
    have hmem : x ∈ processed c w (call ++ rest) := by rw [heq]; simp
    rw [hnone x hmem] at hx
    cases hx
  · have hx : (RoomCommand.join d c tx w.nextAck).answers w.nextAck = true := decide_eq_true rfl
    have hothers : others w.nextAck (processed c w (call ++ rest)) = before ++ after := by
      have hb := others_eq_self hbefore
      have ha := others_eq_self hafter
      unfold others at hb ha ⊢
      rw [heq, List.filter_append, List.filter_cons, hx, hb, ha]
      rfl
    rw [masked_iff heq hx hbefore hafter, hothers, heq, ← written_remove_iff]
    have hsplit : ∀ e, verdicts c e (before ++ after) = verdicts c e before ++ verdicts c e after :=
      fun e => List.map_append
    simp only [verdicts_split, hsplit]
    constructor
    · intro hall
      have hd := hall d
      rwa [RoomCommand.verdict_join_self] at hd
    · intro hd e
      by_cases he : d = e
      · subst he
        rwa [RoomCommand.verdict_join_self]
      · rw [RoomCommand.verdict_join_of_ne he]
        exact written_remove_none

/-- A client asks to join room `r`. -/
def asksToJoin : List WorldAction := [.connect "a", .receive "a" (.text (.ok (.join "r")))]

/-- The acknowledgement does not come in time. -/
def lateJoin : List WorldAction := [.handle "a" 0, .resume "a" .elapsed]

theorem run_lateJoin : ∃ w w₁ w₂, Run {} asksToJoin w ∧ w.FailedJoin "a" "r" lateJoin w₁ ∧
    exec step w₁ [.coordinate] = some w₂ ∧ w₁.commands.buffer.length = 1 ∧
    w₂.rooms.lists "r" "a" = true ∧ w.rooms.lists "r" "a" = false ∧
    others w.nextAck (processed "a" w (lateJoin ++ [.coordinate])) = [] :=
  ⟨_, _, _, rfl, .unanswered _ _ 0 [] .elapsed _ _ rfl rfl rfl rfl rfl rfl nofun rfl, rfl, rfl, rfl, rfl,
    rfl⟩

theorem noTrace_iff_lateJoin : ∃ w w₁ w₂, Run {} asksToJoin w ∧ w.FailedJoin "a" "r" lateJoin w₁ ∧
    exec step w₁ [.coordinate] = some w₂ ∧
    (w.NoTrace "a" lateJoin w₁ [.coordinate] w₂ ↔ w.Masked "a" "r" (lateJoin ++ [.coordinate])) := by
  obtain ⟨w, w₁, w₂, hw, hcall, hrest, hlength, -⟩ := run_lateJoin
  exact ⟨w, w₁, w₂, hw, hcall, hrest,
    noTrace_iff {} asksToJoin lateJoin [.coordinate] w w₁ w₂ "a" "r" hw hcall hrest (by rw [hlength]; rfl)⟩

theorem lateJoin_trace : ∃ w w₁ w₂, Run {} asksToJoin w ∧ w.FailedJoin "a" "r" lateJoin w₁ ∧
    exec step w₁ [.coordinate] = some w₂ ∧ w₁.commands.buffer.length = 1 ∧
    ¬ w.NoTrace "a" lateJoin w₁ [.coordinate] w₂ := by
  obtain ⟨w, w₁, w₂, hw, hcall, hrest, hlength, hafter, hbefore, hothers⟩ := run_lateJoin
  refine ⟨w, w₁, w₂, hw, hcall, hrest, hlength, fun h => ?_⟩
  have hlisted := h.listed "r"
  rw [hothers, hafter, hbefore] at hlisted
  exact absurd hlisted (by decide)

end World
end MiniGraph
