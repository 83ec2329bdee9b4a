import MiniGraph.WorldInv

/-!
# No ghosts

The end of `handle_socket` sends one `Leave`, for the room in `current_room`. `noGhost` says that this
is enough to take the client out of every room once the commands in the channel have been processed,
provided that `current_room` is then the only room that the client is in or is about to enter, and
that its `recv_task` does not send another join. A join that is under way when `recv_task` is aborted
breaks this, as does one that has timed out, or a switch of rooms.
-/

namespace MiniGraph
open Lib
namespace World

/-- `current_room` is the only room that the client is in, or will be once its joins in the channel
have been processed. -/
structure LeavesAll (w : World) (s : Session) : Prop where
  listed : ∀ d, w.rooms.lists d s.clientId = true → s.currentRoom = some d
  joins : ∀ d tx k, .join d s.clientId tx k ∈ w.commands.buffer → s.currentRoom = some d

/-- A connection that ends leaves all its rooms, and after that it sends no join any more. -/
def EndsCleanly (w : World) : WorldAction → Prop
  | .leave c => ∀ s ∈ w.sessions c, w.LeavesAll s
  | .handle c _ => ∀ s ∈ w.sessions c, s.socket = .ended → s.recvTask.joinAhead = none
  | _ => True

/-! ### On the way out -/

/-- The client is not in the room, and no join of it is on its way. -/
structure Gone (w : World) (d : DocumentId) (c : ClientId) : Prop where
  listed : w.rooms.lists d c = false
  joins : ∀ tx k, .join d c tx k ∉ w.commands.buffer

/-- The client is gone from the room once the coordinator has processed `n` more commands. -/
def GoneWithin (w : World) (n : Nat) (d : DocumentId) (c : ClientId) : Prop :=
  w.Gone d c ∨ ∃ before after, w.commands.buffer = before ++ .leave d c :: after ∧
    before.length < n ∧ ∀ tx k, .join d c tx k ∉ after

/-- The number of commands that a step takes out of the channel. -/
def taken (a : WorldAction) : Nat := if a = .coordinate then 1 else 0

variable {w w' : World} {a : WorldAction} {c : ClientId} {s s' : Session} {d : DocumentId} {n : Nat}

theorem GoneWithin.zero (h : w.GoneWithin 0 d c) : w.Gone d c := by
  rcases h with h | ⟨before, after, -, hlt, -⟩
  · exact h
  · omega

theorem GoneWithin.mono {m : Nat} (h : w.GoneWithin n d c) (hnm : n ≤ m) : w.GoneWithin m d c := by
  refine h.imp_right ?_
  rintro ⟨before, after, hbuffer, hlt, hafter⟩
  exact ⟨before, after, hbuffer, by omega, hafter⟩

/-- A command other than a join of the client does not bring it into the room. -/
theorem member_of_not_join {cmd : RoomCommand} {closed : Bool} (h : ∀ tx k, cmd ≠ .join d c tx k) :
    cmd.member d c closed false = false := by
  cases cmd with
  | join d' c' tx k =>
    refine if_neg ?_
    rintro ⟨rfl, rfl⟩
    exact h tx k rfl
  | leave d' c' => simp [RoomCommand.member]
  | broadcast d' m => simp [RoomCommand.member]

theorem Gone.coordinate (h : w.Gone d c) (hc : w.Consistent) {cmd : RoomCommand}
    (buffer : w.commands.buffer = cmd :: w'.commands.buffer) (rooms : w'.rooms = w.rooms.process cmd) :
    w'.Gone d c where
  listed := by
    rw [rooms, Rooms.lists_process hc.entries, h.listed]
    refine member_of_not_join fun tx k hcmd => h.joins tx k ?_
    rw [buffer, hcmd]
    exact List.mem_cons_self
  joins := fun tx k hmem => h.joins tx k (buffer ▸ List.mem_cons_of_mem _ hmem)

theorem GoneWithin.coordinate (h : w.GoneWithin n d c) (hc : w.Consistent) {cmd : RoomCommand}
    (buffer : w.commands.buffer = cmd :: w'.commands.buffer) (rooms : w'.rooms = w.rooms.process cmd) :
    w'.GoneWithin (n - 1) d c := by
  rcases h with h | ⟨before, after, hbuffer, hlt, hafter⟩
  · exact .inl (h.coordinate hc buffer rooms)
  · rw [buffer] at hbuffer
    cases before with
    | nil =>
      obtain ⟨rfl, hrest⟩ := List.cons.inj hbuffer
      refine .inl ⟨?_, hrest ▸ hafter⟩
      rw [rooms, Rooms.lists_process hc.entries]
      simp [RoomCommand.member]
    | cons cmd' before =>
      obtain ⟨-, hrest⟩ := List.cons.inj hbuffer
      refine .inr ⟨before, after, hrest, ?_, hafter⟩
      rw [List.length_cons] at hlt
      omega

/-- New commands behind those in the channel, none of them a join of the client. -/
theorem GoneWithin.append (h : w.GoneWithin n d c) {cmds : List RoomCommand}
    (buffer : w'.commands.buffer = w.commands.buffer ++ cmds) (rooms : w'.rooms.rooms = w.rooms.rooms)
    (hcmds : ∀ tx k, .join d c tx k ∉ cmds) : w'.GoneWithin n d c := by
  rcases h with h | ⟨before, after, hbuffer, hlt, hafter⟩
  · left
    refine ⟨by rw [lists_congr rooms]; exact h.listed, fun tx k hmem => ?_⟩
    rw [buffer] at hmem
    exact (List.mem_append.1 hmem).elim (h.joins tx k) (hcmds tx k)
  · right
    refine ⟨before, after ++ cmds, ?_, hlt, fun tx k hmem => ?_⟩
    · rw [buffer, hbuffer, List.append_assoc, List.cons_append]
    · exact (List.mem_append.1 hmem).elim (hafter tx k) (hcmds tx k)

/-! ### Every step and every run -/

/-- The session of `c` is past the cleanup of `handle_socket`. -/
def Ended (w : World) (c : ClientId) : Prop := ∃ s, w.sessions c = some s ∧ s.socket = .ended

theorem Moves.ended {cmds : List RoomCommand} (h : Moves w s a s' cmds) (hended : s.socket = .ended) :
    s'.socket = .ended := by
  cases h with
  | teardown c' hserving =>
    rw [hended] at hserving
    cases hserving
  | leaveSent => rfl
  | leaveRefused => rfl
  | leaveNothing => rfl
  | _ => exact hended

theorem Ended.step (h : w.Ended c) (hstep : w.step a = some w') : w'.Ended c := by
  obtain ⟨s, hs, hended⟩ := h
  cases (step_effect hstep).stepped c with
  | same sessions => exact ⟨s, sessions.trans hs, hended⟩
  | connected action before =>
    rw [before] at hs
    cases hs
  | moved s₀ s' cmds client before after moves =>
    obtain rfl := Option.some.inj (before.symm.trans hs)
    exact ⟨s', after, moves.ended hended⟩

theorem GoneWithin.step (h : w.GoneWithin n d c) (hc : w.Consistent) (hended : w.Ended c)
    (hclean : w.EndsCleanly a) (hstep : w.step a = some w') : w'.GoneWithin (n - taken a) d c := by
  cases (step_effect hstep).channel with
  | takes cmd action buffer rooms =>
    subst action
    exact h.coordinate hc buffer rooms
  | puts cmds action buffer rooms acked hsent =>
    rw [taken, if_neg action]
    refine h.append buffer rooms fun tx k hmem => ?_
    obtain ⟨-, -, -, s, s', now, rfl, hs, -, ht, -⟩ := hsent.join d c tx k hmem
    obtain ⟨s₀, hs₀, hsocket⟩ := hended
    obtain rfl := Option.some.inj (hs.symm.trans hs₀)
    have hahead := hclean s hs hsocket
    rw [ht] at hahead
    cases hahead

theorem length_step (hstep : w.step a = some w') :
    w.commands.buffer.length - taken a ≤ w'.commands.buffer.length := by
  cases (step_effect hstep).channel with
  | takes cmd action buffer =>
    rw [buffer, taken, if_pos action]
    exact Nat.le_refl _
  | puts cmds action buffer =>
    rw [buffer, List.length_append]
    omega

/-- The cleanup, if its `Leave` goes through and is for all that there is to leave. -/
theorem Moves.left {cmds : List RoomCommand} (hm : Moves w s (.leave c) s' cmds) (hid : s.clientId = c)
    (moved : Moved w w' s' cmds) (haccepted : w.Accepted (.leave c)) (hclean : w.LeavesAll s)
    (d : DocumentId) : w'.GoneWithin w'.commands.buffer.length d c := by
  have hgone : s.currentRoom ≠ some d → w.Gone d c := fun hne =>
    ⟨Bool.eq_false_iff.2 fun hl => hne (hclean.listed d (hid ▸ hl)),
      fun tx k hmem => hne (hclean.joins d tx k (hid ▸ hmem))⟩
  cases hm with
  | leaveSent c' d' hclosing hroom =>
    by_cases hd : d' = d
    · subst hd
      refine .inr ⟨w.commands.buffer, [], by rw [moved.buffer, hid], ?_, by simp⟩
      rw [moved.buffer, List.length_append]
      exact Nat.lt_succ_self _
    · have hne : s.currentRoom ≠ some d := by
        rw [hroom]
        exact fun heq => hd (Option.some.inj heq)
      exact GoneWithin.append (.inl (hgone hne)) moved.buffer moved.rooms (by simp)
  | leaveRefused c' d' hclosing hroom hrefused =>
    rw [Accepted, hrefused] at haccepted
    cases haccepted
  | leaveNothing c' hclosing hroom =>
    have hne : s.currentRoom ≠ some d := by
      rw [hroom]
      nofun
    exact GoneWithin.append (.inl (hgone hne)) moved.buffer moved.rooms (by simp)

/-- A session ends only in its cleanup. -/
theorem Moves.eq_leave {cmds : List RoomCommand} (h : Moves w s a s' cmds) (hs : s.socket ≠ .ended)
    (hended : s'.socket = .ended) (hc : clientOf a = some c) : a = .leave c := by
  cases h with
  | leaveSent => exact congrArg WorldAction.leave (Option.some.inj hc)
  | leaveRefused => exact congrArg WorldAction.leave (Option.some.inj hc)
  | leaveNothing => exact congrArg WorldAction.leave (Option.some.inj hc)
  | teardown => cases hended
  | _ => exact absurd hended hs

theorem Ended.of_step (h : w'.Ended c) (hstep : w.step a = some w') (hbefore : ¬ w.Ended c) :
    a = .leave c ∧ ∃ s s' cmds, w.sessions c = some s ∧ Moves w s a s' cmds ∧ Moved w w' s' cmds := by
  obtain ⟨s', hs', hended⟩ := h
  cases (step_effect hstep).stepped c with
  | same sessions => exact absurd ⟨s', sessions ▸ hs', hended⟩ hbefore
  | connected action before after =>
    obtain rfl := Option.some.inj (after.symm.trans hs')
    cases hended
  | moved s s₁ cmds client before after moves moved =>
    obtain rfl := Option.some.inj (after.symm.trans hs')
    have hopen : s.socket ≠ .ended := fun hend => hbefore ⟨s, before, hend⟩
    exact ⟨moves.eq_leave hopen hended client, s, s₁, cmds, before, moves, moved⟩

/-- Whoever has left is gone once the commands in the channel have been processed. -/
def AllLeft (w : World) : Prop :=
  ∀ c d, w.Ended c → w.GoneWithin w.commands.buffer.length d c

theorem allLeft_step (h : w.AllLeft) (hc : w.Consistent) (haccepted : w.Accepted a)
    (hclean : w.EndsCleanly a) (hstep : w.step a = some w') : w'.AllLeft := by
  intro c d hended
  by_cases hbefore : w.Ended c
  · exact ((h c d hbefore).step hc hbefore hclean hstep).mono (length_step hstep)
  · obtain ⟨rfl, s, s', cmds, hs, moves, moved⟩ := hended.of_step hstep hbefore
    exact moves.left (w.clientId_eq c s hs) moved haccepted (hclean s hs) d

theorem goneWithin_run {as : List WorldAction} (h : w.GoneWithin n d c) (hc : w.Consistent)
    (hended : w.Ended c) (hrun : exec step w as = some w') (hclean : EveryStep step EndsCleanly w as) :
    w'.GoneWithin (n - as.count .coordinate) d c := by
  induction as generalizing w n with
  | nil => exact Option.some.inj hrun ▸ h
  | cons a as ih =>
    obtain ⟨w₁, hstep, hrest⟩ := exec_cons_eq_some.1 hrun
    have hnext := ih (h.step hc hended hclean.1 hstep) (hc.step hstep) (hended.step hstep) hrest
      (hclean.2 w₁ hstep)
    refine hnext.mono (le_of_eq ?_)
    rw [List.count_cons, taken, Nat.sub_sub, Nat.add_comm]
    simp

/-- **No ghosts**: once the commands that were in the channel when a client had left have been
processed, no room lists it, if every connection has ended cleanly. -/
theorem noGhost (metrics : Metrics) (as bs : List WorldAction) (w w' : World) (c : ClientId)
    (h : Run metrics as w) (hended : w.Ended c) (hrest : exec step w bs = some w')
    (hdone : w.commands.buffer.length ≤ bs.count .coordinate)
    (haccepted : EveryStep step Accepted (init metrics) as)
    (hclean : EveryStep step EndsCleanly (init metrics) (as ++ bs)) (d : DocumentId) :
    w'.rooms.lists d c = false := by
  obtain ⟨hbefore, hafter⟩ := (everyStep_append h).1 hclean
  have hinv : w.Consistent ∧ w.AllLeft := by
    refine exec_invariant (fun w => w.Consistent ∧ w.AllLeft) h (haccepted.and hbefore)
      ⟨consistent_init metrics, ?_⟩ ?_
    · rintro c d ⟨s, hs, -⟩
      cases hs
    · rintro w₁ a w₂ ⟨hc, hall⟩ ⟨ha, hcl⟩ hstep
      exact ⟨hc.step hstep, allLeft_step hall hc ha hcl hstep⟩
  have hwithin := goneWithin_run (hinv.2 c d hended) hinv.1 hended hrest hafter
  rw [Nat.sub_eq_zero_of_le hdone] at hwithin
  exact hwithin.zero.listed

/-- `cmd` is not a join that takes the client into another room than `room`. -/
def staysIn (c : ClientId) (room : Option DocumentId) : RoomCommand → Bool
  | .join d c' _ _ => c' = c → room = some d
  | _ => true

theorem leavesAll_iff : w.LeavesAll s ↔
    (∀ d ∈ w.rooms.rooms.keys, w.rooms.lists d s.clientId = true → s.currentRoom = some d) ∧
      ∀ cmd ∈ w.commands.buffer, staysIn s.clientId s.currentRoom cmd = true := by
  constructor
  · rintro ⟨hlisted, hjoins⟩
    refine ⟨fun d _ => hlisted d, fun cmd hmem => ?_⟩
    cases cmd with
    | join d c tx k =>
      refine decide_eq_true fun hc => ?_
      subst hc
      exact hjoins d tx k hmem
    | _ => rfl
  · rintro ⟨hlisted, hjoins⟩
    constructor
    · intro d hl
      refine hlisted d ?_ hl
      by_contra hd
      have hnil := Rooms.clients_eq_nil (Finmap.lookup_eq_none.2 fun hmem => hd (Finmap.mem_keys.2 hmem))
      simp [Rooms.lists, hnil] at hl
    · intro d tx k hmem
      have hstays := hjoins _ hmem
      simpa [staysIn] using hstays

instance (w : World) (s : Session) : Decidable (w.LeavesAll s) := decidable_of_iff _ leavesAll_iff.symm

instance (w : World) : DecidablePred w.EndsCleanly
  | .leave c => inferInstanceAs (Decidable (∀ s ∈ w.sessions c, w.LeavesAll s))
  | .handle c _ => inferInstanceAs (Decidable (∀ s ∈ w.sessions c, s.socket = .ended → _))
  | .connect _ | .receive _ _ | .resume _ _ | .record _ | .recvEnds _ | .drain _ | .sendEnds _
  | .teardown _ | .cancel _ | .coordinate | .sinkBroadcast _ _ => .isTrue trivial

/-- A client joins room `r`, and then its connection ends. -/
def joinAndEnd : List WorldAction :=
  [.connect "a", .receive "a" (.text (.ok (.join "r"))), .handle "a" 0, .coordinate, .resume "a" .acked,
    .record "a", .recvEnds "a", .teardown "a", .leave "a"]

theorem noGhost_joinAndEnd : ∃ w w', Run {} joinAndEnd w ∧ exec step w [.coordinate] = some w' ∧
    ∀ d, w'.rooms.lists d "a" = false := by
  have hrun : ∃ w w', exec step (init {}) joinAndEnd = some w ∧
      (∃ s, w.sessions "a" = some s ∧ s.socket = .ended) ∧ exec step w [.coordinate] = some w' ∧
      w.commands.buffer.length = 1 := ⟨_, _, rfl, ⟨_, rfl, rfl⟩, rfl, rfl⟩
  obtain ⟨w, w', hw, hended, hw', hlength⟩ := hrun
  exact ⟨w, w', hw, hw', noGhost {} joinAndEnd [.coordinate] w w' "a" hw hended hw'
    (by rw [hlength]; rfl) (by decide +kernel) (by decide +kernel)⟩

/-- `send_task` ends while `recv_task` waits for the acknowledgement of its join. -/
def abortedJoin : List WorldAction :=
  [.connect "a", .receive "a" (.text (.ok (.join "r"))), .handle "a" 0, .sendEnds "a", .teardown "a",
    .cancel "a", .leave "a"]

theorem abortedJoin_ghost : ∃ w w', Run {} abortedJoin w ∧ w.Ended "a" ∧
    exec step w [.coordinate] = some w' ∧ w'.commands.buffer = [] ∧
    EveryStep step Accepted (init {}) (abortedJoin ++ [.coordinate]) ∧
    w'.rooms.lists "r" "a" = true := by
  have hrun : ∃ w w', exec step (init {}) abortedJoin = some w ∧
      (∃ s, w.sessions "a" = some s ∧ s.socket = .ended) ∧ exec step w [.coordinate] = some w' ∧
      w'.commands.buffer = [] ∧ w'.rooms.lists "r" "a" = true :=
    ⟨_, _, rfl, ⟨_, rfl, rfl⟩, rfl, rfl, rfl⟩
  obtain ⟨w, w', hw, hended, hw', hbuffer, hlisted⟩ := hrun
  exact ⟨w, w', hw, hended, hw', hbuffer, by decide +kernel, hlisted⟩

end World
end MiniGraph
