import Mathlib.Algebra.Order.BigOperators.Group.List
import MiniGraph.DebugMetrics
import MiniGraph.EndToEnd
import MiniGraph.Sequence

/-!
# The load test (`src/bin/loadtest.rs`)

A producer sends numbered messages to a document, subscribers count the gaps in the numbers that they hear, and
in the end the gaps are reported beside the two drop counters of the server. The counters explain the gaps
(`gaps_explained`): every message that a subscriber misses between two that it hears was dropped by the server
and counted. Deadlines are up to the environment, and latencies are not modelled; `u64` arithmetic is that of a
release build.
-/

namespace MiniGraph
open Lib

namespace LoadTest

structure Payload where
  seq : UInt64
  sentAtUs : UInt64
deriving DecidableEq, Repr

/-- `serde_json::to_string` and `serde_json::from_str` for payloads. -/
structure PayloadFormat where
  encode : Payload → String
  decode : String → Option Payload
  decode_encode : ∀ payload, decode (encode payload) = some payload

/-! ### Payloads in JSON -/

def toJson (payload : Payload) : String :=
  "\x7b\"seq\":" ++ payload.seq.toNat.repr ++ ",\"sent_at_us\":" ++ payload.sentAtUs.toNat.repr ++ "\x7d"

def parseText (text : String) (input : List Char) : Option (List Char) :=
  if text.toList <+: input then some (input.drop text.length) else none

def parseNumber (input : List Char) : Option (Nat × List Char) :=
  let digits := input.takeWhile Char.isDigit
  if digits = [] then none else some (Nat.ofDigitChars 10 digits 0, input.dropWhile Char.isDigit)

/-- For the layout that `toJson` writes. -/
def fromJson (text : String) : Option Payload := do
  let input ← parseText "\x7b\"seq\":" text.toList
  let (seq, input) ← parseNumber input
  let input ← parseText ",\"sent_at_us\":" input
  let (sentAtUs, input) ← parseNumber input
  let input ← parseText "\x7d" input
  if input = [] ∧ seq < UInt64.size ∧ sentAtUs < UInt64.size then
    some ⟨UInt64.ofNat seq, UInt64.ofNat sentAtUs⟩
  else
    none

theorem parseText_append (text : String) (rest : List Char) :
    parseText text (text.toList ++ rest) = some rest := by
  rw [parseText, if_pos (List.prefix_append _ _), ← String.length_toList, List.drop_left]

theorem parseNumber_append (n : Nat) {rest : List Char} (h : ∀ c ∈ rest.head?, c.isDigit = false) :
    parseNumber (n.repr.toList ++ rest) = some (n, rest) := by
  have hdigits : ∀ c ∈ n.repr.toList, c.isDigit = true := by
    intro c hc
    rw [Nat.toList_repr] at hc
    exact Nat.isDigit_of_mem_toDigits (by decide) (by decide) hc
  have hne : n.repr.toList ≠ [] := by
    rw [Nat.toList_repr]
    exact Nat.toDigits_ne_nil
  have hrest : rest.takeWhile Char.isDigit = [] ∧ rest.dropWhile Char.isDigit = rest := by
    cases rest with
    | nil => exact ⟨rfl, rfl⟩
    | cons c rest =>
      have hc := h c rfl
      exact ⟨by rw [List.takeWhile_cons, hc]; rfl, by rw [List.dropWhile_cons, hc]; rfl⟩
  rw [parseNumber, List.takeWhile_append_of_pos hdigits, List.dropWhile_append_of_pos hdigits, hrest.1,
    hrest.2, List.append_nil, if_neg hne, Nat.toList_repr, Nat.ofDigitChars_ten_toDigits]

theorem fromJson_toJson (payload : Payload) : fromJson (toJson payload) = some payload := by
  have hcomma : ∀ rest, ∀ c ∈ (",\"sent_at_us\":".toList ++ rest).head?, c.isDigit = false := by
    intro rest c hc
    obtain rfl : ',' = c := by simpa using hc
    rfl
  have hbrace : ∀ rest, ∀ c ∈ ("\x7d".toList ++ rest).head?, c.isDigit = false := by
    intro rest c hc
    obtain rfl : '\x7d' = c := by simpa using hc
    rfl
  have hlist : (toJson payload).toList = "\x7b\"seq\":".toList ++ (payload.seq.toNat.repr.toList ++
      (",\"sent_at_us\":".toList ++ (payload.sentAtUs.toNat.repr.toList ++ ("\x7d".toList ++ [])))) := by
    simp only [toJson, String.toList_append, List.append_assoc, List.append_nil]
  rw [fromJson, hlist]
  simp only [parseText_append, parseNumber_append _ (hcomma _), parseNumber_append _ (hbrace _),
    Option.bind_eq_bind, Option.bind_some]
  rw [if_pos ⟨trivial, payload.seq.toNat_lt, payload.sentAtUs.toNat_lt⟩, UInt64.ofNat_toNat, UInt64.ofNat_toNat]

def json : PayloadFormat where
  encode := toJson
  decode := fromJson
  decode_encode := fromJson_toJson

/-! ### The tasks -/

structure SubscriberResult where
  received : UInt64
  seqGaps : UInt64
deriving DecidableEq, Repr

/-- What `run_subscriber` counts after the start. -/
structure Counting where
  received : UInt64 := 0
  seqGaps : UInt64 := 0
  lastSeq : Option UInt64 := none
deriving DecidableEq, Repr

variable (format : PayloadFormat)

/-- The payload of a message that is counted. -/
def payloadOf : ServerMessage → Option Payload
  | .message _ text _ => format.decode text
  | _ => none

def Counting.count (counting : Counting) (payload : Payload) : Counting where
  received := counting.received + 1
  seqGaps :=
    match counting.lastSeq with
    | some prev =>
      if payload.seq > prev + 1 then counting.seqGaps + (payload.seq - prev - 1) else counting.seqGaps
    | none => counting.seqGaps
  lastSeq := some payload.seq

/-- One pass of the second loop of `run_subscriber`. -/
def hear (counting : Counting) (message : ServerMessage) : Counting :=
  match payloadOf format message with
  | some payload => counting.count payload
  | none => counting

def isJoined : ServerMessage → Bool
  | .joined _ _ => true
  | _ => false

/-- What follows the acknowledgement of the join. -/
def afterJoined (messages : List ServerMessage) : List ServerMessage :=
  (messages.dropWhile fun message => !isJoined message).drop 1

/-- `messages` is what comes before the deadlines; what comes before the acknowledgement is skipped. -/
def runSubscriber (messages : List ServerMessage) : SubscriberResult :=
  let counting := (afterJoined messages).foldl (hear format) {}
  { received := counting.received, seqGaps := counting.seqGaps }

/-- The loop of `run_producer`: for each pass before the deadline, the clock and whether the message could be
sent. A message that could not may have arrived, too. -/
def runProducer (documentId : DocumentId) (sent : UInt64) : List (UInt64 × Bool) → UInt64 × List ClientMessage
  | [] => (sent, [])
  | (now, ok) :: passes =>
    let message := .sendMessageTo documentId (format.encode ⟨sent, now⟩)
    if ok then
      let (total, messages) := runProducer documentId (sent + 1) passes
      (total, message :: messages)
    else
      (sent, [message])

/-- `u64::saturating_sub`. -/
def saturatingSub (a b : UInt64) : UInt64 := if b ≤ a then a - b else 0

structure Report where
  producerSentTotal : UInt64
  subscriberReceivedTotal : UInt64
  subscriberSeqGapsTotal : UInt64
  serverActorCmdDropsTotal : UInt64
  serverFanoutDropsTotal : UInt64
deriving DecidableEq, Repr

/-- The totals that `main` prints. -/
def report (sent : UInt64) (results : List SubscriberResult) (startMetrics endMetrics : MetricsSnapshot) :
    Report where
  producerSentTotal := sent
  subscriberReceivedTotal := results.foldl (fun total result => total + result.received) 0
  subscriberSeqGapsTotal := results.foldl (fun total result => total + result.seqGaps) 0
  serverActorCmdDropsTotal := saturatingSub endMetrics.actorCmdDropsTotal startMetrics.actorCmdDropsTotal
  serverFanoutDropsTotal := saturatingSub endMetrics.fanoutDropsTotal startMetrics.fanoutDropsTotal

/-! ### What a subscriber counts -/

variable {format}

theorem seqGaps_count {counting : Counting} {payload : Payload} {prev : UInt64}
    (hlast : counting.lastSeq = some prev) (hlt : prev.toNat < payload.seq.toNat) :
    (counting.count payload).seqGaps =
      counting.seqGaps + UInt64.ofNat (payload.seq.toNat - prev.toNat - 1) := by
  have hseq := payload.seq.toNat_lt
  have hnext : (prev + 1).toNat = prev.toNat + 1 := by
    rw [UInt64.toNat_add, UInt64.toNat_one, Nat.mod_eq_of_lt (by omega)]
  simp only [Counting.count, hlast]
  split_ifs with hgap
  · have hgap' := UInt64.lt_iff_toNat_lt.1 hgap
    have hle : prev ≤ payload.seq := UInt64.le_iff_toNat_le.2 hlt.le
    have hsub : (payload.seq - prev).toNat = payload.seq.toNat - prev.toNat := UInt64.toNat_sub_of_le _ _ hle
    refine congrArg (counting.seqGaps + ·) (UInt64.toNat_inj.1 ?_)
    rw [UInt64.toNat_sub_of_le _ _ (UInt64.le_iff_toNat_le.2 (by rw [UInt64.toNat_one]; omega)), hsub,
      UInt64.toNat_one, UInt64.toNat_ofNat_of_lt' (by unfold UInt64.size; omega)]
  · have hgap' : ¬ prev.toNat + 1 < payload.seq.toNat := fun hlt' =>
      hgap (UInt64.lt_iff_toNat_lt.2 (hnext.symm ▸ hlt'))
    have hzero : payload.seq.toNat - prev.toNat - 1 = 0 := by omega
    rw [hzero]
    exact (UInt64.add_zero _).symm

theorem foldl_count (counting : Counting) {prev : UInt64} (hlast : counting.lastSeq = some prev)
    {payloads : List Payload}
    (hsorted : (prev.toNat :: payloads.map fun payload => payload.seq.toNat).Pairwise (· < ·)) :
    (payloads.foldl Counting.count counting).received = counting.received + UInt64.ofNat payloads.length ∧
      (payloads.foldl Counting.count counting).seqGaps = counting.seqGaps +
        UInt64.ofNat (gaps (prev.toNat :: payloads.map fun payload => payload.seq.toNat)) := by
  induction payloads generalizing counting prev with
  | nil => exact ⟨(UInt64.add_zero _).symm, (UInt64.add_zero _).symm⟩
  | cons payload payloads ih =>
    obtain ⟨hfirst, hrest⟩ := List.pairwise_cons.1 hsorted
    obtain ⟨hreceived, hgaps⟩ := ih (counting.count payload) rfl hrest
    have hcount := seqGaps_count hlast (hfirst _ List.mem_cons_self)
    refine ⟨?_, ?_⟩
    · rw [List.foldl_cons, hreceived, List.length_cons, Nat.add_comm, UInt64.ofNat_add]
      exact (UInt64.add_assoc _ _ _)
    · rw [List.foldl_cons, hgaps, hcount, List.map_cons, gaps_cons_cons, UInt64.ofNat_add, UInt64.add_assoc]

/-- The number of a message. -/
def numberOf (format : PayloadFormat) (message : ServerMessage) : Option Nat :=
  (payloadOf format message).map fun payload => payload.seq.toNat

/-- The numbers that a subscriber hears. -/
def heardNumbers (format : PayloadFormat) (messages : List ServerMessage) : List Nat :=
  (afterJoined messages).filterMap (numberOf format)

theorem foldl_hear (counting : Counting) (messages : List ServerMessage) :
    messages.foldl (hear format) counting =
      (messages.filterMap (payloadOf format)).foldl Counting.count counting := by
  induction messages generalizing counting with
  | nil => rfl
  | cons message messages ih =>
    rw [List.foldl_cons, ih, hear]
    cases hpayload : payloadOf format message with
    | none => rw [List.filterMap_cons_none hpayload]
    | some payload => rw [List.filterMap_cons_some hpayload, List.foldl_cons]

/-- **What a subscriber counts**, if the numbers increase. -/
theorem runSubscriber_eq {messages : List ServerMessage}
    (hsorted : (heardNumbers format messages).Pairwise (· < ·)) :
    runSubscriber format messages =
      { received := UInt64.ofNat (heardNumbers format messages).length
        seqGaps := UInt64.ofNat (gaps (heardNumbers format messages)) } := by
  have hnumbers : heardNumbers format messages = ((afterJoined messages).filterMap (payloadOf format)).map
      fun payload => payload.seq.toNat := by
    rw [List.map_filterMap]
    rfl
  rw [hnumbers] at hsorted ⊢
  unfold runSubscriber
  simp only [foldl_hear]
  generalize (afterJoined messages).filterMap (payloadOf format) = payloads at hsorted ⊢
  cases payloads with
  | nil => rfl
  | cons payload payloads =>
    obtain ⟨hreceived, hgaps⟩ :=
      foldl_count (({} : Counting).count payload) rfl hsorted
    rw [List.foldl_cons, hreceived, hgaps, List.map_cons, List.length_cons, List.length_map, Nat.add_comm,
      UInt64.ofNat_add]
    refine congrArg₂ SubscriberResult.mk rfl ?_
    exact UInt64.zero_add _

/-! ### What the producer sends -/

variable {documentId : DocumentId}

theorem runProducer_getElem? {sent : UInt64} {passes : List (UInt64 × Bool)} {i : Nat} {msg : ClientMessage}
    (h : (runProducer format documentId sent passes).2[i]? = some msg) : i < passes.length ∧
      ∃ now, msg = .sendMessageTo documentId (format.encode ⟨sent + UInt64.ofNat i, now⟩) := by
  induction passes generalizing sent i with
  | nil => cases h
  | cons pass passes ih =>
    obtain ⟨now, ok⟩ := pass
    have hhead : sent + UInt64.ofNat 0 = sent := UInt64.add_zero sent
    cases ok with
    | false =>
      cases i with
      | zero => exact ⟨Nat.zero_lt_succ _, now, by rw [hhead]; exact (Option.some.inj h).symm⟩
      | succ i => cases h
    | true =>
      cases i with
      | zero => exact ⟨Nat.zero_lt_succ _, now, by rw [hhead]; exact (Option.some.inj h).symm⟩
      | succ i =>
        have hrest : (runProducer format documentId (sent + 1) passes).2[i]? = some msg := h
        obtain ⟨hi, now', hmsg⟩ := ih hrest
        refine ⟨Nat.succ_lt_succ hi, now', ?_⟩
        rw [hmsg, Nat.add_comm i 1, UInt64.ofNat_add, ← UInt64.add_assoc]
        rfl

/-- The last message may be one that could not be sent. -/
theorem length_runProducer (format : PayloadFormat) (documentId : DocumentId) (sent : UInt64)
    (passes : List (UInt64 × Bool)) : ∃ n ≤ passes.length,
      (runProducer format documentId sent passes).1 = sent + UInt64.ofNat n ∧
        (runProducer format documentId sent passes).2.length ≤ n + 1 ∧
          (runProducer format documentId sent passes).2.length ≤ passes.length := by
  induction passes generalizing sent with
  | nil => exact ⟨0, Nat.le_refl _, (UInt64.add_zero sent).symm, Nat.zero_le _, Nat.le_refl _⟩
  | cons pass passes ih =>
    obtain ⟨now, ok⟩ := pass
    cases ok with
    | false =>
      exact ⟨0, Nat.zero_le _, (UInt64.add_zero sent).symm, Nat.le_refl _, Nat.succ_le_succ (Nat.zero_le _)⟩
    | true =>
      obtain ⟨n, hn, htotal, hlength, hlength'⟩ := ih (sent + 1)
      refine ⟨n + 1, Nat.succ_le_succ hn, ?_, Nat.succ_le_succ hlength, Nat.succ_le_succ hlength'⟩
      refine htotal.trans ?_
      rw [Nat.add_comm n 1, UInt64.ofNat_add, ← UInt64.add_assoc]
      rfl

/-! ### The whole test -/

/-- A load test during a run of the server. -/
structure Setting (format : PayloadFormat) (documentId : DocumentId) (producer : ClientId)
    (subscribers : List ClientId) (passes : List (UInt64 × Bool)) (earlier was : List WorldAction) : Prop where
  messages : World.framesOf producer was <+:
    (runProducer format documentId 0 passes).2.map fun msg => .text (.ok msg)
  bounded : passes.length < 2 ^ 64
  joins : ∀ c ∈ subscribers, World.framesOf c was <+: [.text (.ok (.join documentId))]
  distinct : subscribers.Nodup
  /-- nobody else sends payloads -/
  others : ∀ c ≠ producer, ∀ text, (.text (.ok (.sendMessage text)) ∈ World.framesOf c was ∨
    ∃ d, .text (.ok (.sendMessageTo d text)) ∈ World.framesOf c was) → format.decode text = none
  /-- they all connect after the metrics have been fetched for the first time -/
  later : ∀ c ∈ producer :: subscribers, ∀ a ∈ earlier, World.clientOf a ≠ some c

variable {producer : ClientId} {subscribers : List ClientId} {passes : List (UInt64 × Bool)}
  {earlier was : List WorldAction}

theorem Setting.numbered (h : Setting format documentId producer subscribers passes earlier was)
    (hsink : ∀ d message, .sinkBroadcast d message ∈ was →
      ∃ hints timestamp, message = RoomsInvalidationSink.invalidation hints timestamp) :
    World.Numbered (numberOf format) producer documentId was where
  frames i frame hi := by
    have hget : ((runProducer format documentId 0 passes).2.map fun msg => Frame.text (.ok msg))[i]? =
        some frame := by
      obtain ⟨rest, hrest⟩ := h.messages
      rw [← hrest, List.getElem?_append_left (List.getElem?_eq_some_iff.1 hi).1, hi]
    rw [List.getElem?_map] at hget
    obtain ⟨msg, hmsg, rfl⟩ := Option.map_eq_some_iff.1 hget
    obtain ⟨hlt, now, rfl⟩ := runProducer_getElem? hmsg
    refine ⟨_, rfl, fun now' => ?_⟩
    have hsize : i < UInt64.size := hlt.trans h.bounded
    simp [numberOf, payloadOf, ServerMessage.newMessage, format.decode_encode,
      UInt64.toNat_ofNat_of_lt' hsize]
  others c hc text now := by
    rintro ⟨msg, hmem, hmsg⟩
    have hframe := World.Numbered.mem_framesOf.2 hmem
    have hnone : format.decode text = none := by
      refine h.others c hc text ?_
      rcases hmsg with rfl | ⟨d, rfl⟩
      · exact .inl hframe
      · exact .inr ⟨d, hframe⟩
    simp [numberOf, payloadOf, ServerMessage.newMessage, hnone]
  sink d message hmem := by
    obtain ⟨hints, timestamp, rfl⟩ := hsink d message hmem
    rfl
  answers c frame message hanswers := by
    cases hanswers <;> rfl

theorem heardNumbers_piece {metrics : Metrics} {w : World} {c : ClientId} {messages : List ServerMessage}
    (h : World.Run metrics was w) (hmessages : messages <+: World.sentTo c (World.init metrics) was) :
    heardNumbers format messages <:+: World.numbersInto (numberOf format) c (World.init metrics) was := by
  obtain ⟨lost, hfifo, -⟩ := World.fifo h c
  have hprefix : messages <+: (World.putInto c (World.init metrics) was).map Prod.snd := by
    rw [hfifo]
    exact hmessages.trans (List.prefix_append _ _)
  have hsuffix : afterJoined messages <:+ messages :=
    (List.drop_suffix _ _).trans (List.dropWhile_suffix _)
  have hinfix := (hsuffix.isInfix.trans hprefix.isInfix).filterMap (numberOf format)
  rwa [List.filterMap_map] at hinfix

theorem toNat_sum_le (f : SubscriberResult → UInt64) (results : List SubscriberResult) (total : UInt64) :
    (results.foldl (fun total result => total + f result) total).toNat ≤
      total.toNat + (results.map fun result => (f result).toNat).sum := by
  induction results generalizing total with
  | nil => exact Nat.le_refl _
  | cons result results ih =>
    have hhead : (total + f result).toNat ≤ total.toNat + (f result).toNat := by
      rw [UInt64.toNat_add]
      exact Nat.mod_le _ _
    have htail := ih (total + f result)
    rw [List.foldl_cons, List.map_cons, List.sum_cons]
    omega

theorem saturatingSub_eq {a b : UInt64} {n : Nat} (h : b = a + UInt64.ofNat n) (hn : a.toNat + n < 2 ^ 64) :
    (saturatingSub b a).toNat = n := by
  have hsum : b.toNat = a.toNat + n := by
    rw [h, UInt64.toNat_add, UInt64.toNat_ofNat_of_lt' (by unfold UInt64.size; omega), Nat.mod_eq_of_lt hn]
  have hle : a ≤ b := UInt64.le_iff_toNat_le.2 (by omega)
  rw [saturatingSub, if_pos hle, UInt64.toNat_sub_of_le _ _ hle]
  omega

/-- What a test reports of what its subscribers have heard. -/
structure Explained (format : PayloadFormat) (subscribers : List ClientId)
    (heard : ClientId → List ServerMessage) (report : Report) : Prop where
  counted : ∀ c ∈ subscribers, (heardNumbers format (heard c)).Pairwise (· < ·) ∧
    (runSubscriber format (heard c)).received.toNat = (heardNumbers format (heard c)).length ∧
      (runSubscriber format (heard c)).seqGaps.toNat = gaps (heardNumbers format (heard c))
  /-- a message that could not be sent may have arrived -/
  sent : ∀ c ∈ subscribers, (runSubscriber format (heard c)).received.toNat +
    (runSubscriber format (heard c)).seqGaps.toNat ≤ report.producerSentTotal.toNat + 1
  gaps : report.subscriberSeqGapsTotal.toNat ≤
    subscribers.length * report.serverActorCmdDropsTotal.toNat + report.serverFanoutDropsTotal.toNat

theorem counted_of_setting {metrics : Metrics} {w : World}
    (h : Setting format documentId producer subscribers passes earlier was) (hrun : World.Run metrics was w)
    (hn : World.Numbered (numberOf format) producer documentId was) {c : ClientId} (hc : c ∈ subscribers)
    {messages : List ServerMessage} (hmessages : messages <+: World.sentTo c (World.init metrics) was) :
    (heardNumbers format messages).Pairwise (· < ·) ∧
      (runSubscriber format messages).received.toNat = (heardNumbers format messages).length ∧
      (runSubscriber format messages).seqGaps.toNat = gaps (heardNumbers format messages) ∧
      (heardNumbers format messages).length + gaps (heardNumbers format messages) ≤
        (runProducer format documentId 0 passes).1.toNat + 1 ∧
      gaps (heardNumbers format messages) ≤ ((World.refused (World.init metrics) was).countP fun x =>
          World.clientOf x.1 = some producer) +
        (World.offers (World.init metrics) was).countP fun x => x = (c, .error .full) := by
  have honce : (World.framesOf c was).length ≤ 1 := (h.joins c hc).length_le
  obtain ⟨hsorted, hlt, hgaps⟩ := World.gaps_run hrun hn honce (heardNumbers_piece hrun hmessages)
  obtain ⟨n, hn', htotal, hlength, hlength'⟩ := length_runProducer format documentId 0 passes
  have hframes := h.messages.length_le
  rw [List.length_map] at hframes
  have hbounded := h.bounded
  have hsent : (runProducer format documentId 0 passes).1.toNat = n := by
    rw [htotal, UInt64.zero_add, UInt64.toNat_ofNat_of_lt' (hn'.trans_lt hbounded)]
  have hinterval : (heardNumbers format messages).length + gaps (heardNumbers format messages) ≤
      (World.framesOf producer was).length := by
    cases hnumbers : heardNumbers format messages with
    | nil => exact Nat.zero_le _
    | cons a numbers =>
      rw [hnumbers] at hsorted hlt
      have hadd := gaps_add_length hsorted
      have hlast := hlt _ (List.getLast_mem (List.cons_ne_nil a numbers))
      omega
  have hsize : UInt64.size = 2 ^ 64 := rfl
  rw [runSubscriber_eq hsorted]
  refine ⟨hsorted, UInt64.toNat_ofNat_of_lt' ?_, UInt64.toNat_ofNat_of_lt' ?_, ?_, hgaps⟩
  · omega
  · omega
  · omega

theorem sum_gaps_le {refused : Nat} {offers : List (ClientId × Except TrySendError Unit)}
    (hdistinct : subscribers.Nodup) {gapsOf : ClientId → Nat}
    (h : ∀ c ∈ subscribers, gapsOf c ≤ refused + offers.countP fun x => x = (c, .error .full)) :
    (subscribers.map gapsOf).sum ≤
      subscribers.length * refused + offers.countP fun x => x.2 = .error .full := by
  calc (subscribers.map gapsOf).sum
      ≤ (subscribers.map fun c => refused + offers.countP fun x => x = (c, .error .full)).sum :=
        List.sum_le_sum h
    _ = subscribers.length * refused +
          (subscribers.map fun c => offers.countP fun x => x = (c, .error .full)).sum := by
        rw [List.sum_map_add]
        simp
    _ ≤ _ := Nat.add_le_add_left (sum_countP_le hdistinct _ offers) _

/-! ### What happens during the test -/

/-- A look at the metrics of a server: what has happened, and what the server is like, at each of the loads. -/
structure Look (sqlClient : Bool) (metrics : Metrics) where
  as : Atomic → List ServerAction
  s : Atomic → Server
  run : ∀ x, Server.Run sqlClient metrics (as x) (s x)

namespace Look
variable {sqlClient : Bool} {metrics : Metrics} (look : Look sqlClient metrics)

/-- `fetch_metrics`. -/
def snapshot : MetricsSnapshot := Server.debugMetricsHandler look.s

/-- The commands that the channel has refused by then. -/
def refused : List (WorldAction × RoomCommand) := World.refused (World.init metrics)
  (Server.worldActions (Server.init sqlClient metrics) (look.as .actorCmdDropsTotal))

def offers : List (ClientId × Except TrySendError Unit) := World.offers (World.init metrics)
  (Server.worldActions (Server.init sqlClient metrics) (look.as .fanoutDropsTotal))

def refusedCount : Nat := look.refused.countP fun x => (World.clientOf x.1).isSome

def droppedCount : Nat := look.offers.countP fun x => x.2 = .error .full

theorem actorCmdDropsTotal_eq :
    look.snapshot.actorCmdDropsTotal = metrics.actorCmdDropsTotal + UInt64.ofNat look.refusedCount :=
  congrArg Metrics.actorCmdDropsTotal
    (World.metrics_run (Server.run_worldActions (look.run .actorCmdDropsTotal)))

theorem fanoutDropsTotal_eq :
    look.snapshot.fanoutDropsTotal = metrics.fanoutDropsTotal + UInt64.ofNat look.droppedCount :=
  congrArg Metrics.fanoutDropsTotal (World.metrics_run (Server.run_worldActions (look.run .fanoutDropsTotal)))

end Look

section
variable {sqlClient : Bool} {metrics : Metrics} {as before during : List ServerAction} {s : Server}

theorem log_during {β : Type} {f : World → WorldAction → World → List β}
    (h : Server.Run sqlClient metrics as s) (hle : before <+: as) :
    log World.step f (World.init metrics) (Server.worldActions (Server.init sqlClient metrics) before) <+:
      log World.step f (World.init metrics) (Server.worldActions (Server.init sqlClient metrics) as) :=
  log_prefix_log (Server.run_worldActions h) (log_prefix_log h hle)

theorem countP_between {α : Type} {first between last all : List α} {p : α → Bool} (hall : all <+: last)
    (hlast : first ++ between = last) (hnone : first.countP p = 0) : all.countP p ≤ between.countP p := by
  have hle := hall.sublist.countP_le (p := p)
  rwa [← hlast, List.countP_append, hnone, Nat.zero_add] at hle

namespace Look
variable {first last : Look sqlClient metrics}

theorem refused_between (h : first.as .actorCmdDropsTotal <+: last.as .actorCmdDropsTotal) :
    ∃ refused, first.refused ++ refused = last.refused ∧
      last.refusedCount - first.refusedCount = refused.countP (fun x => (World.clientOf x.1).isSome) ∧
        last.snapshot.actorCmdDropsTotal = first.snapshot.actorCmdDropsTotal +
          UInt64.ofNat (last.refusedCount - first.refusedCount) := by
  obtain ⟨refused, hrefused⟩ : first.refused <+: last.refused := log_during (last.run _) h
  have hcount : last.refusedCount = first.refusedCount +
      refused.countP fun x => (World.clientOf x.1).isSome := by
    rw [refusedCount, ← hrefused, List.countP_append, refusedCount]
  refine ⟨refused, hrefused, by rw [hcount, Nat.add_sub_cancel_left], ?_⟩
  rw [last.actorCmdDropsTotal_eq, first.actorCmdDropsTotal_eq, hcount, Nat.add_sub_cancel_left,
    UInt64.ofNat_add, UInt64.add_assoc]

theorem offers_between (h : first.as .fanoutDropsTotal <+: last.as .fanoutDropsTotal) :
    ∃ offers, first.offers ++ offers = last.offers ∧
      last.droppedCount - first.droppedCount = offers.countP (fun x => x.2 = .error .full) ∧
        last.snapshot.fanoutDropsTotal = first.snapshot.fanoutDropsTotal +
          UInt64.ofNat (last.droppedCount - first.droppedCount) := by
  obtain ⟨offers, hoffers⟩ : first.offers <+: last.offers := log_during (last.run _) h
  have hcount : last.droppedCount = first.droppedCount + offers.countP fun x => x.2 = .error .full := by
    rw [droppedCount, ← hoffers, List.countP_append, droppedCount]
  refine ⟨offers, hoffers, by rw [hcount, Nat.add_sub_cancel_left], ?_⟩
  rw [last.fanoutDropsTotal_eq, first.fanoutDropsTotal_eq, hcount, Nat.add_sub_cancel_left,
    UInt64.ofNat_add, UInt64.add_assoc]

end Look

end

/-- **The drop counters explain the gaps**: the subscribers miss no more numbers in between than the server
says that it has dropped of the commands, once for each of them, and of the copies. -/
theorem gaps_explained (format : PayloadFormat) (documentId : DocumentId) (producer : ClientId)
    (subscribers : List ClientId) (passes : List (UInt64 × Bool)) (sqlClient : Bool) (metrics : Metrics)
    (first last : Look sqlClient metrics) (before during : List ServerAction)
    (hfirst : ∀ x, first.as x <+: before) (hlast : ∀ x, before ++ during <+: last.as x)
    (h : Setting format documentId producer subscribers passes
      (Server.worldActions (Server.init sqlClient metrics) before)
      (Server.worldActions (Server.init sqlClient metrics) (before ++ during)))
    (heard : ClientId → List ServerMessage)
    (hheard : ∀ c ∈ subscribers, heard c <+: World.sentTo c (World.init metrics)
      (Server.worldActions (Server.init sqlClient metrics) (before ++ during)))
    (hactor : first.snapshot.actorCmdDropsTotal.toNat + (last.refusedCount - first.refusedCount) < 2 ^ 64)
    (hfanout : first.snapshot.fanoutDropsTotal.toNat + (last.droppedCount - first.droppedCount) < 2 ^ 64) :
    Explained format subscribers heard (report (runProducer format documentId 0 passes).1
      (subscribers.map fun c => runSubscriber format (heard c)) first.snapshot last.snapshot) := by
  obtain ⟨s, hrun⟩ : ∃ s, Server.Run sqlClient metrics (before ++ during) s := by
    obtain ⟨rest, hrest⟩ := hlast .actorCmdDropsTotal
    have hall := last.run .actorCmdDropsTotal
    rw [← hrest] at hall
    obtain ⟨s, hs, -⟩ := exec_append_eq_some.1 hall
    exact ⟨s, hs⟩
  have hworld := Server.run_worldActions hrun
  have hn := h.numbered fun d message hmem => by
    obtain ⟨hints, timestamp, -, hmessage, -⟩ := Server.call_of_sinkBroadcast hmem
    exact ⟨hints, timestamp, hmessage⟩
  have hcounted := fun c hc => counted_of_setting h hworld hn hc (hheard c hc)
  refine ⟨fun c hc => ⟨(hcounted c hc).1, (hcounted c hc).2.1, (hcounted c hc).2.2.1⟩, fun c hc => ?_, ?_⟩
  · rw [(hcounted c hc).2.1, (hcounted c hc).2.2.1]
    exact (hcounted c hc).2.2.2.1
  · have hfirst' : ∀ x, first.as x <+: last.as x := fun x =>
      ((hfirst x).trans (List.prefix_append _ _)).trans (hlast x)
    obtain ⟨refused, hrefused, hrefusedCount, hactor'⟩ := Look.refused_between (hfirst' .actorCmdDropsTotal)
    obtain ⟨offers, hoffers, hdroppedCount, hfanout'⟩ := Look.offers_between (hfirst' .fanoutDropsTotal)
    -- before the producer and the subscribers have come, nothing of theirs is dropped
    have habsent : ∀ x, ∀ c ∈ producer :: subscribers,
        ∀ a ∈ Server.worldActions (Server.init sqlClient metrics) (first.as x),
          World.clientOf a ≠ some c := by
      intro x c hc a ha
      obtain ⟨u, hu, -⟩ := exec_append_eq_some.1 hrun
      exact h.later c hc a ((log_prefix_log hu (hfirst x)).subset ha)
    have hgaps : ∀ c ∈ subscribers, (runSubscriber format (heard c)).seqGaps.toNat ≤
        (refused.countP fun x => (World.clientOf x.1).isSome) +
          offers.countP fun x => x = (c, .error .full) := by
      intro c hc
      obtain ⟨-, -, hcount, -, hle⟩ := hcounted c hc
      have hproducer := countP_between (log_during (last.run _) (hlast _)) hrefused
        (World.refused_absent (habsent _ producer List.mem_cons_self))
      have hsubscriber := countP_between (log_during (last.run _) (hlast _)) hoffers
        (World.offers_absent (habsent _ c (List.mem_cons_of_mem _ hc)) (.error .full))
      have hconnection : (refused.countP fun x => World.clientOf x.1 = some producer) ≤
          refused.countP fun x => (World.clientOf x.1).isSome := by
        refine List.countP_mono_left fun x _ hx => ?_
        rw [of_decide_eq_true hx]
        rfl
      rw [hcount]
      exact hle.trans (Nat.add_le_add (hproducer.trans hconnection) hsubscriber)
    have htotal := toNat_sum_le SubscriberResult.seqGaps
      (subscribers.map fun c => runSubscriber format (heard c)) 0
    rw [List.map_map, UInt64.toNat_zero, Nat.zero_add] at htotal
    simp only [report, saturatingSub_eq hactor' hactor, saturatingSub_eq hfanout' hfanout, hrefusedCount,
      hdroppedCount]
    exact htotal.trans (sum_gaps_le h.distinct hgaps)

/-- A number that is heard, messages of another client until the queue of the subscriber is full, a number that
finds it full, and one that is heard again. -/
def oneDropped : List WorldAction :=
  [.connect "b", .receive "b" (.text (.ok (.join "r"))), .handle "b" 0, .coordinate, .resume "b" .acked,
    .record "b", .drain "b", .connect "a", .connect "c"] ++
    speak "a" (json.encode ⟨0, 5⟩) ++ [.drain "b"] ++ (List.replicate 256 (speak "c" "")).flatten ++
    speak "a" (json.encode ⟨1, 6⟩) ++ [.drain "b"] ++ speak "a" (json.encode ⟨2, 7⟩) ++
    .replicate 256 (.drain "b")
where
  speak (c : ClientId) (text : String) : List WorldAction :=
    [.receive c (.text (.ok (.sendMessageTo "r" text))), .handle c 0, .coordinate]

theorem oneDropped_run : (exec World.step (World.init {}) oneDropped).isSome = true ∧
    heardNumbers json (World.sentTo "b" (World.init {}) oneDropped) = [0, 2] ∧
      ((World.refused (World.init {}) oneDropped).countP fun x => (World.clientOf x.1).isSome) = 0 ∧
        ((World.offers (World.init {}) oneDropped).countP fun x => x.2 = .error .full) = 1 := by
  decide +kernel

/-- It is not a payload of anybody but the producer. -/
def harmless : WorldAction → Bool
  | .receive c (.text (.ok (.sendMessage text))) => c = "a" || (json.decode text).isNone
  | .receive c (.text (.ok (.sendMessageTo _ text))) => c = "a" || (json.decode text).isNone
  | _ => true

theorem setting_oneDropped : Setting json "r" "a" ["b"] [(5, true), (6, true), (7, true)] [] oneDropped where
  messages := by decide +kernel
  bounded := by decide
  joins c hc := by
    obtain rfl := List.mem_singleton.1 hc
    decide +kernel
  distinct := List.nodup_singleton _
  others c hc text h := by
    have hall : ∀ a ∈ oneDropped, harmless a = true := by decide +kernel
    rcases h with h | ⟨d, h⟩
    · simpa [harmless, hc] using hall _ (World.Numbered.mem_framesOf.1 h)
    · simpa [harmless, hc] using hall _ (World.Numbered.mem_framesOf.1 h)
  later := nofun

def firstLook : Look true {} := ⟨fun _ => [], fun _ => Server.init true {}, fun _ => rfl⟩

theorem gaps_explained_oneDropped : ∃ lastLook : Look true {},
    heardNumbers json (World.sentTo "b" (World.init {}) oneDropped) = [0, 2] ∧ lastLook.droppedCount = 1 ∧
      Explained json ["b"] (fun c => World.sentTo c (World.init {}) oneDropped)
        (report 3 [runSubscriber json (World.sentTo "b" (World.init {}) oneDropped)] firstLook.snapshot
          lastLook.snapshot) := by
  obtain ⟨hsome, hheard, hrefused, hdropped⟩ := oneDropped_run
  obtain ⟨w, hw⟩ := Option.isSome_iff_exists.1 hsome
  have hrun : Server.Run true {} (oneDropped.map .world) { Server.init true {} with world := w } :=
    Server.exec_world hw (by decide +kernel)
  have hall := Server.worldActions_world hrun
  let lastLook : Look true {} := ⟨fun _ => oneDropped.map .world, fun _ => _, fun _ => hrun⟩
  have hrefused' : lastLook.refusedCount = 0 := by
    unfold Look.refusedCount Look.refused
    rw [hall]
    exact hrefused
  have hdropped' : lastLook.droppedCount = 1 := by
    unfold Look.droppedCount Look.offers
    rw [hall]
    exact hdropped
  refine ⟨lastLook, hheard, hdropped', ?_⟩
  refine gaps_explained json "r" "a" ["b"] [(5, true), (6, true), (7, true)] true {} firstLook lastLook
    [] (oneDropped.map .world) (fun _ => List.prefix_refl _) (fun _ => List.prefix_refl _) ?_
    (fun c => World.sentTo c (World.init {}) oneDropped) (fun c _ => ?_) ?_ ?_
  · rw [List.nil_append, hall]
    exact setting_oneDropped
  · rw [List.nil_append, hall]
  · rw [hrefused']
    decide
  · rw [hdropped']
    decide

end LoadTest
end MiniGraph
