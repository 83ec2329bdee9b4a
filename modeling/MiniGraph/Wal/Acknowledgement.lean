import MiniGraph.Lib.Lists
import MiniGraph.Wal.ReaderRuns

/-!
# Acknowledgements

What the reader does is one part for each commit it gets to, in their order: the delivery attempts that
the commit's transaction is due, then `wal_lsn`, then the acknowledgement (`CommitPart`, `parts_run`). So an
acknowledgement is never ahead of the attempts, and none is left out, however the reader ends
(`neverAhead`).
-/

namespace MiniGraph
open Lib WalReader

/-! ### The specification -/

/-- The commits of `stream`, each with the events before it. `before` is what came before `stream`. -/
def commitsOf (before : Stream) : Stream → List (Stream × UInt64)
  | [] => []
  | e :: rest =>
    match e.2 with
    | .commit endLsn => (before, endLsn) :: commitsOf (before ++ [e]) rest
    | _ => commitsOf (before ++ [e]) rest

/-- The LSN of a commit. -/
def ReplicationEvent.committed : ReplicationEvent → Option UInt64
  | .commit endLsn => some endLsn
  | _ => none

/-- The LSN that `action` acknowledges, if it does. -/
def Action.acked : Action → Option UInt64
  | .updateAppliedLsn lsn => some lsn
  | _ => none

/-- What the reader does at the commit `c`: the calls that deliver its transaction, whatever is answered,
and the acknowledgement. -/
def CommitPart (c : Stream × UInt64) (part : List Action) : Prop :=
  ∃ sends, part = sends ++ [.setWalLsn c.2, .updateAppliedLsn c.2] ∧
    (∀ action ∈ sends, action.call.isSome) ∧ Delivers c.1 (sends.filterMap Action.call)

/-- `trace` has an attempt for every document that the transaction of a commit behind `before` affects. -/
def Attempted (before : Stream) (trace : List Action) : Prop :=
  ∀ p b mid, LastBegin before p b mid → ∀ hint documentId, Produced (p ++ [b]) mid hint →
    HintRouter.routeKey hint = some documentId →
      ∃ hints timestamp answer, Action.sendInvalidation documentId hints timestamp answer ∈ trace

/-! ### The parts -/

variable {cs : List (Stream × UInt64)} {parts : List (List Action)} {before stream : Stream}
  {pre post sends : List Action} {lsn : UInt64}

theorem deliver_isCall (o : Outside) (timestamp : UInt64) (metrics : Metrics)
    (routed : Groups DocumentId QueryHint) :
    ∀ action ∈ (deliver o timestamp metrics routed).1, action.call.isSome := by
  unfold deliver
  induction entries o.documentOrder routed generalizing metrics with
  | nil => exact nofun
  | cons entry rest ih =>
    intro action hmem
    rcases List.mem_cons.1 hmem with rfl | hmem
    · rfl
    · exact ih _ action hmem

theorem handleCommit_sends (o : Outside) (r : WalReader) (endLsn : UInt64) :
    ∃ sends, (handleCommit o r endLsn).1 = sends ++ [.setWalLsn endLsn, .updateAppliedLsn endLsn] ∧
      ∀ action ∈ sends, action.call.isSome := by
  unfold handleCommit
  cases r.transaction with
  | none => exact ⟨[], rfl, nofun⟩
  | some tx => exact ⟨_, rfl, deliver_isCall o o.now r.metrics _⟩

theorem handleCommit_part {r : WalReader} (h : Buffers r before) (o : Outside) (endLsn : UInt64) :
    CommitPart (before, endLsn) (handleCommit o r endLsn).1 := by
  have hdelivers := handleCommit_delivers h o endLsn
  obtain ⟨sends, hactions, hcalls⟩ := handleCommit_sends o r endLsn
  refine ⟨sends, hactions, hcalls, ?_⟩
  rw [hactions, List.filterMap_append] at hdelivers
  have hnil : [Action.setWalLsn endLsn, .updateAppliedLsn endLsn].filterMap Action.call = [] := rfl
  rwa [hnil, List.append_nil] at hdelivers

theorem commitsOf_cons_of_commit (before rest : Stream) (o : Outside) (endLsn : UInt64) :
    commitsOf before ((o, .commit endLsn) :: rest) =
      (before, endLsn) :: commitsOf (before ++ [(o, .commit endLsn)]) rest := rfl

theorem commitsOf_cons_of_ne {e : Outside × ReplicationEvent} {rest : Stream}
    (h : ∀ endLsn, e.2 ≠ .commit endLsn) : commitsOf before (e :: rest) = commitsOf (before ++ [e]) rest := by
  obtain ⟨o, event⟩ := e
  cases event with
  | commit endLsn => exact absurd rfl (h endLsn)
  | _ => rfl

theorem commitsOf_of_ends {relations : Relations} {w : Outside × Wake} (hw : w.2.Ends relations) :
    commitsOf before (eventsOf [w]) = [] := by
  obtain ⟨o, w⟩ := w
  cases hevent : w.event with
  | none => rw [eventsOf_cons_of_none hevent]; rfl
  | some event =>
    obtain rfl := event_eq_some.1 hevent
    have hcommit : ∀ endLsn, event ≠ .commit endLsn := by
      rintro endLsn rfl
      exact hw
    rw [eventsOf_cons_of_some hevent, commitsOf_cons_of_ne hcommit]
    rfl

/-- **The parts of a run**, however it ends. -/
theorem parts_run {r : WalReader} (h : r.Tracks stream) (wakes : List (Outside × Wake)) :
    ∃ parts stop, r.trace wakes = parts.flatten ++ stop ∧ (stop = [] ∨ stop = [.stopReplication]) ∧
      List.Forall₂ CommitPart (commitsOf stream (eventsOf (handled r.relations wakes))) parts := by
  induction wakes generalizing r stream with
  | nil => exact ⟨[], [], rfl, .inl rfl, .nil⟩
  | cons w wakes ih =>
    unfold handled
    split
    · next hw =>
      -- the reader ends here, and what it still does is the stop
      obtain ⟨hended, hactions⟩ := turn_ends h.follows.looping hw
      refine ⟨[], (r.turn w).1, ?_, hactions, ?_⟩
      · rw [trace_cons, trace_of_ended hended, List.append_nil]
        rfl
      · rw [commitsOf_of_ends hw]
        exact .nil
    · next hw =>
      obtain ⟨parts, stop, htrace, hstop, hparts⟩ := ih (h.turn hw)
      rw [trace_cons, htrace]
      rw [h.relations_turn hw] at hparts
      by_cases hcommit : ∃ endLsn, w.2.event = some (.commit endLsn)
      · obtain ⟨endLsn, hevent⟩ := hcommit
        have hturn : r.turn w = handleCommit w.1 r endLsn := turn_event h.follows.looping hevent
        refine ⟨(handleCommit w.1 r endLsn).1 :: parts, stop, ?_, hstop, ?_⟩
        · rw [hturn, List.flatten_cons, List.append_assoc]
        · rw [eventsOf_cons_of_some hevent] at hparts
          rw [eventsOf_cons_of_some hevent, commitsOf_cons_of_commit]
          exact .cons (handleCommit_part h.buffers w.1 endLsn) hparts
      · have hne : ∀ endLsn, w.2.event ≠ some (.commit endLsn) := fun endLsn hevent =>
          hcommit ⟨endLsn, hevent⟩
        refine ⟨parts, stop, ?_, hstop, ?_⟩
        · rw [turn_of_no_commit h.follows.looping hw hne]
          rfl
        · cases hevent : w.2.event with
          | none =>
            rw [eventsOf_cons_of_none hevent, eventsOf, List.filterMap_nil, List.append_nil] at hparts
            rwa [eventsOf_cons_of_none hevent]
          | some event =>
            rw [eventsOf_cons_of_some hevent] at hparts
            rw [eventsOf_cons_of_some hevent, commitsOf_cons_of_ne]
            · exact hparts
            · rintro endLsn rfl
              exact hne endLsn hevent

/-! ### What the parts say -/

theorem calls_acked (h : ∀ action ∈ sends, action.call.isSome) : sends.filterMap Action.acked = [] := by
  rw [List.filterMap_eq_nil_iff]
  intro action haction
  have hcall := h action haction
  cases action with
  | updateAppliedLsn lsn => cases hcall
  | _ => rfl

theorem part_acked {c : Stream × UInt64} {part : List Action} (h : CommitPart c part) :
    part.filterMap Action.acked = [c.2] := by
  obtain ⟨sends, rfl, hcalls, -⟩ := h
  rw [List.filterMap_append, calls_acked hcalls]
  rfl

theorem parts_acked (h : List.Forall₂ CommitPart cs parts) :
    parts.flatten.filterMap Action.acked = cs.map Prod.snd := by
  induction h with
  | nil => rfl
  | cons hpart _ ih => rw [List.flatten_cons, List.filterMap_append, part_acked hpart, ih]; rfl

theorem commitsOf_committed (before stream : Stream) :
    (commitsOf before stream).map Prod.snd = stream.filterMap fun e => e.2.committed := by
  induction stream generalizing before with
  | nil => rfl
  | cons e stream ih =>
    obtain ⟨o, event⟩ := e
    cases event with
    | commit endLsn =>
      rw [commitsOf_cons_of_commit, List.map_cons, ih]
      rfl
    | _ => exact ih _

/-- **What is before an acknowledgement**: the parts of the commits before its commit, the attempts for
this one, and `wal_lsn`. -/
theorem before_ack {stop : List Action} (h : List.Forall₂ CommitPart cs parts)
    (hstop : stop = [] ∨ stop = [.stopReplication])
    (htrace : parts.flatten ++ stop = pre ++ .updateAppliedLsn lsn :: post) :
    ∃ done before rest parts' sends, cs = done ++ (before, lsn) :: rest ∧
      List.Forall₂ CommitPart done parts' ∧ pre = parts'.flatten ++ (sends ++ [.setWalLsn lsn]) ∧
      (∀ action ∈ sends, action.call.isSome) ∧ Delivers before (sends.filterMap Action.call) := by
  induction h generalizing pre with
  | nil =>
    have hmem : Action.updateAppliedLsn lsn ∈ stop := by
      have hstop' : stop = pre ++ .updateAppliedLsn lsn :: post := htrace
      rw [hstop']
      simp
    rcases hstop with rfl | rfl
    · cases hmem
    · simp at hmem
  | @cons c part cs parts hpart hparts ih =>
    obtain ⟨sends, rfl, hcalls, hdelivers⟩ := id hpart
    have hfirst : Action.updateAppliedLsn lsn ∉ sends ++ [.setWalLsn c.2] := by
      intro hmem
      rcases List.mem_append.1 hmem with hmem | hmem
      · exact absurd (hcalls _ hmem) nofun
      · simp at hmem
    have htrace' : (sends ++ [.setWalLsn c.2]) ++ .updateAppliedLsn c.2 :: (parts.flatten ++ stop) =
        pre ++ .updateAppliedLsn lsn :: post := by
      rw [← htrace]
      simp
    -- a part has one acknowledgement, at its end: it is this one, or this one is in a later part
    rcases append_cons_cases hfirst htrace' with ⟨rfl, heq, -⟩ | ⟨pre', rfl, hrest⟩
    · obtain ⟨before, lsn'⟩ := c
      obtain rfl : lsn' = lsn := Action.updateAppliedLsn.inj heq
      exact ⟨[], before, cs, [], sends, rfl, .nil, rfl, hcalls, hdelivers⟩
    · obtain ⟨done, before, rest, parts', sends', rfl, hdone, rfl, hcalls', hdelivers'⟩ := ih hrest
      refine ⟨c :: done, before, rest, _ :: parts', sends', rfl, .cons hpart hdone, ?_, hcalls', hdelivers'⟩
      simp

theorem Delivers.attempted (h : Delivers before (sends.filterMap Action.call)) {trace : List Action}
    (hsends : ∀ action ∈ sends, action ∈ trace) : Attempted before trace := by
  intro p b mid hl hint documentId hproduced hroute
  have hmem := ((h.opened p b mid hl).affected documentId).2 ⟨hint, hproduced, hroute⟩
  obtain ⟨⟨documentId', hints⟩, hcall, rfl⟩ := List.mem_map.1 hmem
  obtain ⟨action, haction, hcall⟩ := List.mem_filterMap.1 hcall
  cases action with
  | sendInvalidation documentId hints' timestamp answer =>
    obtain ⟨rfl, rfl⟩ := Prod.mk.inj (Option.some.inj hcall)
    exact ⟨_, timestamp, answer, hsends _ haction⟩
  | _ => cases hcall

theorem parts_attempted (h : List.Forall₂ CommitPart cs parts) {trace : List Action}
    (hparts : ∀ part ∈ parts, ∀ action ∈ part, action ∈ trace) : ∀ c ∈ cs, Attempted c.1 trace := by
  induction h with
  | nil => exact nofun
  | cons hpart _ ih =>
    intro c hc
    rcases List.mem_cons.1 hc with rfl | hc
    · obtain ⟨sends, rfl, -, hdelivers⟩ := hpart
      refine hdelivers.attempted fun action haction => ?_
      exact hparts _ List.mem_cons_self action (List.mem_append_left _ haction)
    · exact ih (fun part hpart => hparts part (List.mem_cons_of_mem _ hpart)) c hc

/-! ### Never ahead -/

/-- What a fresh reader `r` does over `wakes`, and the commits that it gets to. -/
structure NeverAhead (r : WalReader) (wakes : List (Outside × Wake)) : Prop where
  /-- one part for each commit, in the order of the stream -/
  parts : ∃ parts stop, r.trace wakes = parts.flatten ++ stop ∧ (stop = [] ∨ stop = [.stopReplication]) ∧
    List.Forall₂ CommitPart (commitsOf [] (eventsOf (handled r.relations wakes))) parts
  acked : (r.trace wakes).filterMap Action.acked =
    (eventsOf (handled r.relations wakes)).filterMap fun e => e.2.committed
  walLsn : ∀ pre lsn post, r.trace wakes = pre ++ .updateAppliedLsn lsn :: post →
    ∃ pre', pre = pre' ++ [.setWalLsn lsn]
  /-- an acknowledgement comes after the attempts for its commit and for all earlier ones -/
  attempted : ∀ pre lsn post, r.trace wakes = pre ++ .updateAppliedLsn lsn :: post →
    ∃ done before rest, commitsOf [] (eventsOf (handled r.relations wakes)) = done ++ (before, lsn) :: rest ∧
      pre.filterMap Action.acked = done.map Prod.snd ∧
      ∀ c ∈ done ++ [(before, lsn)], Attempted c.1 pre
  /-- no transaction is open when something is acknowledged -/
  unbuffered : ∀ before w after lsn, wakes = before ++ w :: after →
    .updateAppliedLsn lsn ∈ ((r.run before).2.turn w).1 →
      w.2.event = some (.commit lsn) ∧ ((r.run before).2.turn w).2.transaction = none
  /-- nothing is done for a transaction that is not committed -/
  unfinished : ∀ before b mid, handled r.relations wakes = before ++ b :: mid → b.2.event = some .begin →
    (∀ w ∈ mid, ∀ endLsn, w.2.event ≠ some (.commit endLsn)) →
      r.trace wakes = r.trace before ∨ r.trace wakes = r.trace before ++ [.stopReplication]

theorem turn_acked {r : WalReader} {w : Outside × Wake}
    (h : .updateAppliedLsn lsn ∈ (r.turn w).1) :
    w.2.event = some (.commit lsn) ∧ (r.turn w).2.transaction = none := by
  by_cases hr : r.status = .looping
  · by_cases hw : w.2.Ends r.relations
    · rcases (turn_ends hr hw).2 with hnil | hstop
      · rw [hnil] at h
        cases h
      · rw [hstop] at h
        simp at h
    · by_cases hcommit : ∃ endLsn, w.2.event = some (.commit endLsn)
      · obtain ⟨endLsn, hevent⟩ := hcommit
        have hturn : r.turn w = handleCommit w.1 r endLsn := turn_event hr hevent
        rw [hturn] at h ⊢
        obtain ⟨sends, hactions, hcalls⟩ := handleCommit_sends w.1 r endLsn
        rw [hactions] at h
        rcases List.mem_append.1 h with h | h
        · exact absurd (hcalls _ h) nofun
        · obtain rfl : lsn = endLsn := by simpa using h
          exact ⟨hevent, rfl⟩
      · have hne : ∀ endLsn, w.2.event ≠ some (.commit endLsn) := fun endLsn hevent =>
          hcommit ⟨endLsn, hevent⟩
        rw [turn_of_no_commit hr hw hne] at h
        cases h
  · rw [turn_of_ended hr] at h
    cases h

/-- **Acknowledgements never run ahead of delivery attempts, and never stall**: in every run, whatever the
sink answers and however the reader ends. -/
theorem neverAhead (sqlClient : Bool) (metrics : Metrics) (wakes : List (Outside × Wake)) :
    NeverAhead (start sqlClient metrics) wakes := by
  have htracks := tracks_start sqlClient metrics
  obtain ⟨parts, stop, htrace, hstop, hparts⟩ := parts_run htracks wakes
  have hbefore : ∀ pre lsn post, (start sqlClient metrics).trace wakes =
      pre ++ .updateAppliedLsn lsn :: post → _ := fun pre lsn post heq =>
    before_ack hparts hstop (htrace.symm.trans heq)
  refine ⟨⟨parts, stop, htrace, hstop, hparts⟩, ?_, ?_, ?_, ?_, ?_⟩
  · have hnone : stop.filterMap Action.acked = [] := by
      rcases hstop with rfl | rfl <;> rfl
    rw [htrace, List.filterMap_append, hnone, List.append_nil, parts_acked hparts, commitsOf_committed]
  · intro pre lsn post heq
    obtain ⟨done, before, rest, parts', sends, -, -, rfl, -, -⟩ := hbefore pre lsn post heq
    exact ⟨parts'.flatten ++ sends, (List.append_assoc _ _ _).symm⟩
  · intro pre lsn post heq
    obtain ⟨done, before, rest, parts', sends, hcommits, hdone, rfl, hcalls, hdelivers⟩ :=
      hbefore pre lsn post heq
    refine ⟨done, before, rest, hcommits, ?_, fun c hc => ?_⟩
    · rw [List.filterMap_append, List.filterMap_append, parts_acked hdone, calls_acked hcalls]
      exact List.append_nil _
    · rcases List.mem_append.1 hc with hc | hc
      · refine parts_attempted hdone (fun part hpart action haction => ?_) c hc
        exact List.mem_append_left _ (List.mem_flatten_of_mem hpart haction)
      · obtain rfl := List.mem_singleton.1 hc
        refine hdelivers.attempted fun action haction => ?_
        exact List.mem_append_right _ (List.mem_append_left _ haction)
  · rintro before w after lsn rfl hmem
    exact turn_acked hmem
  · intro before b mid hsplit hbegin hcommit
    rw [trace_handled htracks, hsplit, trace_append]
    have hquiet := quiet_of_begin hbegin hcommit
    rcases trace_of_no_commit ((start sqlClient metrics).run before).2 hquiet with hnil | ⟨hstop', -⟩
    · rw [hnil, List.append_nil]
      exact .inl rfl
    · rw [hstop']
      exact .inr rfl

end MiniGraph
