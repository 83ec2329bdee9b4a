import MiniGraph.WorldSteps

/-!
# What holds in every run

`Consistent` collects what the rest of the development takes for granted in every reachable state:
entries and joins carry the queue of their own client, and acknowledgements are never reused. On
consistent states it is enough to follow a client through the commands: `lists_process` says what each
of them does to its membership of a room.
-/

namespace MiniGraph
open Lib

/-! ### Membership -/

namespace Rooms

/-- `clientId` is in the list of `room`. -/
def lists (s : Rooms) (room : DocumentId) (clientId : ClientId) : Bool :=
  clientId ∈ (s.clients room).map Prod.fst

theorem lists_iff {s : Rooms} {room : DocumentId} {clientId : ClientId} :
    s.lists room clientId = true ↔ ∃ tx, (clientId, tx) ∈ s.clients room := by
  simp [lists]

/-- Every entry carries the queue of its own client. -/
def OwnQueues (s : Rooms) : Prop := ∀ room, ∀ client ∈ s.clients room, client.2 = ⟨client.1⟩

end Rooms

/-- What a command does to the membership of `clientId` in `room`; `closed` says whether the client's
queue is. -/
def RoomCommand.member (room : DocumentId) (clientId : ClientId) (closed listed : Bool) :
    RoomCommand → Bool
  | .join room' clientId' _ _ => if room' = room ∧ clientId' = clientId then true else listed
  | .leave room' clientId' => if room' = room ∧ clientId' = clientId then false else listed
  | .broadcast room' _ => if room' = room ∧ closed then false else listed

namespace Rooms
variable {s : Rooms} {room : DocumentId} {clientId : ClientId}

theorem mem_closed_iff (h : s.OwnQueues) :
    clientId ∈ ((s.clients room).filter fun client => s.closed client.2).map Prod.fst ↔
      s.lists room clientId = true ∧ s.closed ⟨clientId⟩ = true := by
  rw [lists_iff]
  simp only [List.mem_map, List.mem_filter, Prod.exists, exists_and_right, exists_eq_right]
  constructor
  · rintro ⟨tx, hmem, hclosed⟩
    obtain rfl : tx = ⟨clientId⟩ := h room _ hmem
    exact ⟨⟨_, hmem⟩, hclosed⟩
  · rintro ⟨⟨tx, hmem⟩, hclosed⟩
    obtain rfl : tx = ⟨clientId⟩ := h room _ hmem
    exact ⟨_, hmem, hclosed⟩

/-- **Membership after a command.** -/
theorem lists_process (h : s.OwnQueues) (cmd : RoomCommand) (room : DocumentId) (clientId : ClientId) :
    (s.process cmd).lists room clientId =
      cmd.member room clientId (s.closed ⟨clientId⟩) (s.lists room clientId) := by
  rw [Bool.eq_iff_iff, lists_iff, clients_process]
  cases cmd with
  | join room' clientId' tx respondTo =>
    unfold RoomCommand.apply RoomCommand.member
    by_cases hroom : room = room'
    · subst hroom
      simp only [if_true, List.mem_append, List.mem_singleton, exists_or, true_and, ← lists_iff]
      by_cases hid : clientId' = clientId
      · simp [hid]
      · simp [hid, Ne.symm hid]
    · simp [hroom, Ne.symm hroom, ← lists_iff]
  | leave room' clientId' =>
    unfold RoomCommand.apply RoomCommand.member
    by_cases hroom : room = room'
    · subst hroom
      simp only [if_true, List.mem_filter, true_and]
      by_cases hid : clientId' = clientId
      · simp [hid]
      · simp [hid, Ne.symm hid, ← lists_iff]
    · simp [hroom, Ne.symm hroom, ← lists_iff]
  | broadcast room' message =>
    unfold RoomCommand.apply RoomCommand.member
    by_cases hroom : room = room'
    · subst hroom
      simp only [if_true, List.mem_filter, true_and, mem_closed_iff h, decide_eq_true_eq]
      by_cases hclosed : s.closed ⟨clientId⟩ = true
      · simp [hclosed, ← lists_iff]
      · simp [hclosed, ← lists_iff]
    · simp [hroom, Ne.symm hroom, ← lists_iff]

theorem lists_broadcast {room : DocumentId} {message : ServerMessage} {clientId : ClientId} (h : s.OwnQueues)
    (hl : s.lists room clientId = true) :
    (s.broadcast room message).lists room clientId = !s.closed ⟨clientId⟩ := by
  have hmember := lists_process h (.broadcast room message) room clientId
  rw [hl] at hmember
  refine hmember.trans ?_
  cases hclosed : s.closed ⟨clientId⟩ <;> simp [RoomCommand.member]

theorem OwnQueues.process (h : s.OwnQueues) {cmd : RoomCommand}
    (hjoin : ∀ d c tx k, cmd = .join d c tx k → tx = ⟨c⟩) : (s.process cmd).OwnQueues := by
  intro room client hmem
  rw [clients_process] at hmem
  cases cmd with
  | join room' clientId' tx respondTo =>
    simp only [RoomCommand.apply] at hmem
    split_ifs at hmem
    · rcases List.mem_append.1 hmem with hmem | hmem
      · exact h room client hmem
      · rw [List.mem_singleton.1 hmem]
        exact hjoin _ _ _ _ rfl
    · exact h room client hmem
  | leave room' clientId' =>
    simp only [RoomCommand.apply] at hmem
    split_ifs at hmem
    · exact h room client (List.mem_of_mem_filter hmem)
    · exact h room client hmem
  | broadcast room' message =>
    simp only [RoomCommand.apply] at hmem
    split_ifs at hmem
    · exact h room client (List.mem_of_mem_filter hmem)
    · exact h room client hmem

end Rooms

/-! ### Consistent worlds -/

namespace World

structure Consistent (w : World) : Prop where
  channel : w.commands.closed = false
  entries : w.rooms.OwnQueues
  joins : ∀ d c tx k, .join d c tx k ∈ w.commands.buffer → tx = ⟨c⟩ ∧ k < w.nextAck
  acked : ∀ k ∈ w.rooms.acked, k < w.nextAck
  awaiting : ∀ c s d k, w.sessions c = some s → s.recvTask = .awaitingAck d k → k < w.nextAck ∧
    ∀ d' c' tx, .join d' c' tx k ∈ w.commands.buffer → d' = d ∧ c' = c
  answered : ∀ c s d k, w.sessions c = some s → s.recvTask = .awaitingAck d k →
    (∃ tx, .join d c tx k ∈ w.commands.buffer) ∨ k ∈ w.rooms.acked
  connected : ∀ d c, w.rooms.lists d c = true → w.sessions c ≠ none
  senders : ∀ c d tx k, .join d c tx k ∈ w.commands.buffer → w.sessions c ≠ none
  leavers : ∀ c d, .leave d c ∈ w.commands.buffer → w.sessions c ≠ none

theorem consistent_init (metrics : Metrics) : (init metrics).Consistent := by
  have hclients : ∀ room, (init metrics).rooms.clients room = [] := fun room =>
    Rooms.clients_eq_nil (Finmap.lookup_empty room)
  have hbuffer : ∀ cmd, cmd ∉ (init metrics).commands.buffer := fun cmd => List.not_mem_nil
  have hsessions : ∀ c s, (init metrics).sessions c ≠ some s := by
    intro c s hs
    cases hs
  exact {
    channel := rfl
    entries := by
      intro room client hmem
      rw [hclients] at hmem
      cases hmem
    joins := fun d c tx k hmem => absurd hmem (hbuffer _)
    acked := fun k hk => absurd hk (Finset.notMem_empty k)
    awaiting := fun c s d k hs => absurd hs (hsessions c s)
    answered := fun c s d k hs => absurd hs (hsessions c s)
    connected := by
      intro d c hl
      simp [Rooms.lists, hclients] at hl
    senders := fun c d tx k hmem => absurd hmem (hbuffer _)
    leavers := fun c d hmem => absurd hmem (hbuffer _) }

variable {w w' : World} {a : WorldAction}

theorem lists_congr (h : w'.rooms.rooms = w.rooms.rooms) : w'.rooms.lists = w.rooms.lists := by
  funext room c
  unfold Rooms.lists
  rw [Rooms.clients_congr h]

theorem ownQueues_congr (h : w'.rooms.rooms = w.rooms.rooms) (ho : w.rooms.OwnQueues) :
    w'.rooms.OwnQueues := by
  unfold Rooms.OwnQueues
  rw [Rooms.clients_congr h]
  exact ho

/-! ### Every step -/

namespace Consistent
variable (h : w.Consistent)
include h

theorem joins_step (heff : Effect w a w') (d : DocumentId) (c : ClientId) (tx : Sender) (k : AckId)
    (hmem : .join d c tx k ∈ w'.commands.buffer) : tx = ⟨c⟩ ∧ k < w'.nextAck := by
  rcases heff.mem_buffer hmem with hmem | ⟨cmds, hsent, hmem⟩
  · obtain ⟨htx, hk⟩ := h.joins d c tx k hmem
    exact ⟨htx, hk.trans_le heff.nextAck_le⟩
  · obtain ⟨-, -, hnext, s, s', now, -, hs, -, -, -, rfl⟩ := hsent.join d c tx k hmem
    have hid := w.clientId_eq c s hs
    refine ⟨by rw [s.tx_eq, hid], ?_⟩
    rw [hnext]
    exact Nat.lt_succ_self k

theorem acked_step (heff : Effect w a w') (k : AckId) (hk : k ∈ w'.rooms.acked) : k < w'.nextAck := by
  refine Nat.lt_of_lt_of_le ?_ heff.nextAck_le
  cases heff.channel with
  | takes cmd action buffer rooms =>
    rw [rooms, Rooms.acked_process] at hk
    cases cmd with
    | join d c tx k' =>
      rcases Finset.mem_insert.1 hk with rfl | hk
      · exact (h.joins d c tx k (by rw [buffer]; exact List.mem_cons_self)).2
      · exact h.acked k hk
    | _ => exact h.acked k hk
  | puts cmds action buffer rooms acked =>
    rw [acked] at hk
    exact h.acked k hk

theorem awaiting_step (heff : Effect w a w') (c : ClientId) (s' : Session) (d : DocumentId) (k : AckId)
    (hs' : w'.sessions c = some s') (ht' : s'.recvTask = .awaitingAck d k) : k < w'.nextAck ∧
      ∀ d' c' tx, .join d' c' tx k ∈ w'.commands.buffer → d' = d ∧ c' = c := by
  rcases heff.awaiting hs' ht' with ⟨s, hs, ht, -⟩ | ⟨rfl, hnext, hclient, -⟩
  · obtain ⟨hk, howner⟩ := h.awaiting c s d k hs ht
    refine ⟨hk.trans_le heff.nextAck_le, fun d' c' tx hmem => ?_⟩
    rcases heff.mem_buffer hmem with hmem | ⟨cmds, hsent, hmem⟩
    · exact howner d' c' tx hmem
    · -- the acknowledgement of a new join is a new one
      have hnew := (hsent.join d' c' tx k hmem).2.1
      exact absurd hnew (Nat.ne_of_lt hk)
  · refine ⟨by rw [hnext]; exact Nat.lt_succ_self _, fun d' c' tx hmem => ?_⟩
    rcases heff.mem_buffer hmem with hmem | ⟨cmds, hsent, hmem⟩
    · have hold := (h.joins d' c' tx _ hmem).2
      exact absurd hold (Nat.lt_irrefl _)
    · obtain ⟨hclient', -, -, s, s₁, now, -, -, hs₁, -, ht₁, -⟩ := hsent.join d' c' tx _ hmem
      obtain rfl : c' = c := Option.some.inj (hclient'.symm.trans hclient)
      obtain rfl := Option.some.inj (hs₁.symm.trans hs')
      have hsame : RecvTask.awaitingAck d' w.nextAck = .awaitingAck d w.nextAck := ht₁.symm.trans ht'
      exact ⟨(RecvTask.awaitingAck.inj hsame).1, rfl⟩

theorem answered_step (heff : Effect w a w') (c : ClientId) (s' : Session) (d : DocumentId) (k : AckId)
    (hs' : w'.sessions c = some s') (ht' : s'.recvTask = .awaitingAck d k) :
    (∃ tx, .join d c tx k ∈ w'.commands.buffer) ∨ k ∈ w'.rooms.acked := by
  rcases heff.awaiting hs' ht' with ⟨s, hs, ht, -⟩ | ⟨-, -, -, hpending⟩
  · have hbefore := h.answered c s d k hs ht
    cases heff.channel with
    | takes cmd action buffer rooms =>
      rw [buffer] at hbefore
      rw [rooms, Rooms.acked_process]
      rcases hbefore with ⟨tx, hmem⟩ | hk
      · rcases List.mem_cons.1 hmem with rfl | hmem
        · exact .inr (Finset.mem_insert_self k _)
        · exact .inl ⟨tx, hmem⟩
      · right
        cases cmd with
        | join => exact Finset.mem_insert_of_mem hk
        | _ => exact hk
    | puts cmds action buffer rooms acked =>
      rw [buffer, acked]
      refine hbefore.imp_left ?_
      rintro ⟨tx, hmem⟩
      exact ⟨tx, List.mem_append_left _ hmem⟩
  · exact .inl hpending

theorem connected_step (heff : Effect w a w') (d : DocumentId) (c : ClientId)
    (hl : w'.rooms.lists d c = true) : w'.sessions c ≠ none := by
  refine heff.sessions_ne_none ?_
  cases heff.channel with
  | takes cmd action buffer rooms =>
    rw [rooms, Rooms.lists_process h.entries] at hl
    by_cases hlisted : w.rooms.lists d c = true
    · exact h.connected d c hlisted
    · cases cmd with
      | join d' c' tx k =>
        simp only [RoomCommand.member, hlisted] at hl
        split_ifs at hl with hj
        obtain ⟨rfl, rfl⟩ := hj
        exact h.senders c' d' tx k (by rw [buffer]; exact List.mem_cons_self)
      | leave d' c' => simp [RoomCommand.member, hlisted] at hl
      | broadcast d' m => simp [RoomCommand.member, hlisted] at hl
  | puts cmds action buffer rooms =>
    rw [lists_congr rooms] at hl
    exact h.connected d c hl

theorem entries_step (heff : Effect w a w') : w'.rooms.OwnQueues := by
  cases heff.channel with
  | takes cmd action buffer rooms =>
    rw [rooms]
    refine h.entries.process fun d c tx k hcmd => (h.joins d c tx k ?_).1
    rw [buffer, hcmd]
    exact List.mem_cons_self
  | puts cmds action buffer rooms => exact ownQueues_congr rooms h.entries

theorem senders_step (heff : Effect w a w') (c : ClientId) (d : DocumentId) (tx : Sender) (k : AckId)
    (hmem : .join d c tx k ∈ w'.commands.buffer) : w'.sessions c ≠ none := by
  rcases heff.mem_buffer hmem with hmem | ⟨cmds, hsent, hmem⟩
  · exact heff.sessions_ne_none (h.senders c d tx k hmem)
  · obtain ⟨-, -, -, s, s', now, -, -, hs', -⟩ := hsent.join d c tx k hmem
    rw [hs']
    nofun

theorem leavers_step (heff : Effect w a w') (c : ClientId) (d : DocumentId)
    (hmem : .leave d c ∈ w'.commands.buffer) : w'.sessions c ≠ none := by
  rcases heff.mem_buffer hmem with hmem | ⟨cmds, hsent, hmem⟩
  · exact heff.sessions_ne_none (h.leavers c d hmem)
  · obtain ⟨-, s, s', -, hs', -⟩ := hsent.leave d c hmem
    rw [hs']
    nofun

theorem step (hstep : w.step a = some w') : w'.Consistent :=
  have heff := step_effect hstep
  { channel := heff.channel_closed.trans h.channel
    entries := h.entries_step heff
    joins := h.joins_step heff
    acked := h.acked_step heff
    awaiting := h.awaiting_step heff
    answered := h.answered_step heff
    connected := h.connected_step heff
    senders := h.senders_step heff
    leavers := h.leavers_step heff }

end Consistent

/-- A run of the world from its start. -/
def Run (metrics : Metrics) (as : List WorldAction) (w : World) : Prop :=
  exec step (init metrics) as = some w

theorem consistent_run {metrics : Metrics} {as : List WorldAction} (h : Run metrics as w) :
    w.Consistent :=
  exec_preserves Consistent h (consistent_init metrics) fun _ _ _ => Consistent.step

theorem connect_mem_of_exec {as : List WorldAction} (h : exec step w as = some w') {c : ClientId}
    (hc : w'.sessions c ≠ none) : w.sessions c ≠ none ∨ .connect c ∈ as := by
  induction as generalizing w with
  | nil => exact .inl (Option.some.inj h ▸ hc)
  | cons a as ih =>
    obtain ⟨w₁, hstep, hrest⟩ := exec_cons_eq_some.1 h
    rcases ih hrest with hc₁ | hmem
    · cases (step_effect hstep).stepped c with
      | same sessions => exact .inl (sessions ▸ hc₁)
      | connected action => exact .inr (by simp [action])
      | moved s s' cmds client before =>
        left
        rw [before]
        nofun
    · exact .inr (List.mem_cons_of_mem _ hmem)

theorem connect_mem {metrics : Metrics} {as : List WorldAction} (h : Run metrics as w) {c : ClientId}
    (hc : w.sessions c ≠ none) : .connect c ∈ as :=
  (connect_mem_of_exec h hc).resolve_left fun hne => hne rfl

end World
end MiniGraph
