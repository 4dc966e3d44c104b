import ExositeCoap.Exosite.Routing
import ExositeCoap.Lib.Trace

/-!
# Retransmissions

A request is not kept but built anew for each retransmission, and then given the message
id, the token and the token length that the op remembers.  Message id and token are
remembered when the request first goes out, the token length is not: it stays zero as
`exo_op_init` left it, so the token is cut out of every retransmission.
-/

namespace ExositeCoap.Exosite

open Lib Wire Coap

/-- No op remembers a token length. -/
def Untokened (sys : Sys) : Prop :=
  ∀ {slot : Nat} {op : ExoOp}, sys.ops[slot]? = some op → op.tkl = 0

/-- An entry about a retransmission: the request went out before with a token, and now
it has none. -/
def Differs (entry : Event) (older : List Event) : Prop :=
  ∀ slot request datagram ok, entry = .sent (.request slot false request) datagram ok →
    ∃ first, firstRequest slot older = some first ∧ tokenLength first = 2 ∧
      tokenLength datagram = 0

section Transmissions

variable {env : SlotEnv} {sys : Sys} {op : ExoOp} {request : Request} {datagram : List UInt8}

theorem Transmits.tokenLength_first (transmits : Transmits env sys op request datagram true) :
    tokenLength datagram = 2 := by
  cases transmits with
  | first _ built bytes =>
      obtain ⟨floor, message, simulates, builtFor⟩ := exoBuildRequest_spec built
      rw [simulates.datagram_eq bytes, tokenLength_encode simulates.encodable, builtFor.token]

theorem Transmits.tokenLength_again (transmits : Transmits env sys op request datagram false)
    (untokened : op.tkl = 0) : tokenLength datagram = 0 := by
  cases transmits with
  | again _ _ built setMid setToken bytes =>
      obtain ⟨floor, message, simulates, -⟩ := exoBuildRequest_spec built
      have patched := simulates.patched setMid setToken (by rw [untokened]; exact Nat.zero_le _)
      rw [patched.datagram_eq bytes, tokenLength_encode patched.encodable, leBytes_length,
        untokened]
      rfl

end Transmissions

section Steps

variable {sys after : Sys}

theorem Untokened.setOp (untokened : Untokened sys) {i : Nat} {changed : ExoOp}
    (new : changed.tkl = 0) : Untokened (sys.setOp i changed) := by
  intro slot op atSlot
  obtain ⟨-, rfl⟩ | ⟨-, old⟩ := of_getElem?_setOp atSlot
  · exact new
  · exact untokened old

/-- Nothing but `exo_op_init` sets the field. -/
theorem OpChange.tkl {slot : Nat} {op next : ExoOp} (change : OpChange slot op next)
    (untokened : op.tkl = 0) : next.tkl = 0 := by
  cases change with
  | released => rfl
  | _ => exact untokened

theorem SysStep.untokened (step : SysStep sys after) (untokened : Untokened sys) :
    Untokened after := by
  cases step with
  | lib _ step =>
      intro slot next isNext
      obtain ⟨op, atSlot, rfl | change⟩ := step.op_origin isNext
      · exact untokened atSlot
      · exact change.tkl (untokened atSlot)
  | user step =>
      cases step with
      | @queued _ op type aliasPtr valuePtr valueMax atSlot =>
          have kept : (op.queue type aliasPtr valuePtr valueMax).tkl = 0 :=
            @untokened _ op atSlot
          exact @Untokened.setOp sys untokened _ _ kept
      | opInit => exact untokened.setOp rfl
      | @opDone _ op atSlot =>
          have done : (exoOpDone op).tkl = 0 := by
            unfold exoOpDone
            split_ifs
            · exact @untokened _ op atSlot
            · rfl
          exact @Untokened.setOp sys untokened _ _ done
      | _ => exact untokened

theorem untokened_of_reached {count : Nat} {heap : Mem}
    (reached : SysSteps (powerOn count heap) sys) : Untokened sys := by
  refine @SysSteps.invariant Untokened _ _ SysStep.untokened reached ?_
  intro slot op atSlot
  rw [List.eq_of_mem_replicate (List.mem_of_getElem? atSlot)]
  rfl

/-- What the log of a run says about transmissions. -/
structure Repeats (log : List Event) : Prop where
  tokens : ∀ {slot datagram}, firstRequest slot log = some datagram → tokenLength datagram = 2
  differ : EachEntry Differs log

/-- Entries about other things. -/
theorem Repeats.cons {log : List Event} {event : Event} (repeats : Repeats log)
    (other : ∀ slot first request datagram ok,
      event ≠ .sent (.request slot first request) datagram ok) : Repeats (event :: log) where
  tokens := by
    intro slot datagram isFirst
    rw [firstRequest] at isFirst
    · exact repeats.tokens isFirst
    · exact fun i request datagram => other i true request datagram true
  differ := repeats.differ.cons fun slot request datagram ok same =>
    absurd same (other slot false request datagram ok)

theorem Repeats.append {log events : List Event} (repeats : Repeats log)
    (others : ∀ event ∈ events, ∀ slot first request datagram ok,
      event ≠ .sent (.request slot first request) datagram ok) : Repeats (events ++ log) := by
  induction events with
  | nil => exact repeats
  | cons event rest ih =>
      exact (ih fun other member => others other (List.mem_cons_of_mem _ member)).cons
        (others event List.mem_cons_self)

/-- A request that is sent again is pending, so it has been sent before. -/
theorem Transmits.firstRequest_eq {env : SlotEnv} {slot : Nat} {op : ExoOp} {request : Request}
    {datagram : List UInt8} (transmits : Transmits env sys op request datagram false)
    (atSlot : sys.ops[slot]? = some op) (typed : AllTyped sys) (numbered : Numbered sys) :
    ∃ first, firstRequest slot sys.log = some first := by
  cases transmits with
  | again waits type =>
      have pending : op.state = .pending := by
        rcases waits with subscribed | pending
        · have isSubscribe := (typed atSlot).subscribed (by simp [subscribed])
          simp [SentAgain, isSubscribe] at type
        · exact pending
      obtain ⟨first, isFirst, -⟩ := numbered.request slot op.mid ⟨op, atSlot, pending, rfl⟩
      exact ⟨first, isFirst⟩

theorem Logs.repeats {events : List Event} (logs : Logs sys events) (repeats : Repeats sys.log)
    (untokened : Untokened sys) (typed : AllTyped sys) (numbered : Numbered sys) :
    Repeats (events ++ sys.log) := by
  cases logs with
  | @requested env slot op request datagram first ok atSlot transmits =>
      have built : Repeats (.built slot request :: sys.log) := repeats.cons nofun
      cases first with
      | true =>
          refine ⟨?_, built.differ.cons nofun⟩
          intro other bytes isFirst
          cases ok with
          | true =>
              change (if slot = other then some datagram else firstRequest other sys.log) = _
                at isFirst
              split_ifs at isFirst
              · cases isFirst
                exact transmits.tokenLength_first
              · exact repeats.tokens isFirst
          | false => exact repeats.tokens isFirst
      | false =>
          refine ⟨fun isFirst => repeats.tokens isFirst, built.differ.cons ?_⟩
          intro other again bytes sendOk same
          cases same
          obtain ⟨first, isFirst⟩ := transmits.firstRequest_eq atSlot typed numbered
          exact ⟨first, isFirst, repeats.tokens isFirst,
            transmits.tokenLength_again (untokened atSlot)⟩
  | _ => exact repeats.append (by simp)

theorem reached_repeats {count : Nat} {heap : Mem} (reached : SysSteps (powerOn count heap) sys) :
    Repeats sys.log := by
  induction reached with
  | refl => exact ⟨nofun, .nil⟩
  | tail before step ih =>
      cases step with
      | lib _ step =>
          obtain ⟨events, logs, grown⟩ := step.logs
          rw [grown]
          exact logs.repeats ih (untokened_of_reached before) (allTyped_of_reached before).1
            (SysSteps.invariant SysStep.numbered before (numbered_powerOn count heap))
      | user step =>
          cases step with
          | initialised => exact ih.cons nofun
          | queued => exact ih.cons nofun
          | opDone => exact ih.cons nofun
          | _ => exact ih

/-- In every run, no retransmission repeats the request that first went out: that had a
token of two bytes, and the retransmission has none. -/
theorem run_repeats_differ {count : Nat} {heap : Mem} {calls : List UserCall}
    (ran : run (powerOn count heap) calls = .ok after) {newer older : List Event} {slot : Nat}
    {request : Request} {datagram : List UInt8} {ok : Bool}
    (resent : after.log = newer ++ .sent (.request slot false request) datagram ok :: older) :
    ∃ first, firstRequest slot older = some first ∧ datagram ≠ first ∧
      tokenLength first = 2 ∧ tokenLength datagram = 0 := by
  obtain ⟨first, isFirst, hadToken, hasNone⟩ :=
    (reached_repeats (run_steps ran)).differ newer _ older resent slot request datagram ok rfl
  refine ⟨first, isFirst, ?_, hadToken, hasNone⟩
  rintro rfl
  omega

end Steps

/-- `exo_operate` after the first timeout. -/
def lateOperate : UserCall :=
  .operate ⟨10, [], 5000000, fun _ => ⟨quietBuffer [], 0x3344, true, 5000000, 0⟩⟩

/-- A read that is sent and, without an answer, sent again. -/
def repeatedRead : List UserCall := [quietInit, .read 1 1 3 8, quietOperate [], lateOperate]

/-- What is read. -/
def repeatedRequest : Request := ⟨.read, [0x61], [], List.replicate 40 0x30 ++ [0]⟩

/-- The options of the request. -/
def repeatedOptions : List UInt8 :=
  [0xB2, 0x31, 0x61, 0x01, 0x61, 0x4D, 0x1B] ++ List.replicate 40 0x30

/-- Alias and CIK are the same in both transmissions, but the second has no token. -/
theorem not_repeats_read : ∃ after newer older first again,
    run (powerOn 2 quietHeap) repeatedRead = .ok after ∧
      after.log = newer ++ .sent (.request 1 false repeatedRequest) again true :: older ∧
      Event.sent (.request 1 true repeatedRequest) first true ∈ older ∧
        firstRequest 1 older = some first ∧ again ≠ first := by
  have computed : (run (powerOn 2 quietHeap) repeatedRead).map
      (fun after => (after.log.head?, after.log.tail[3]?, firstRequest 1 after.log.tail)) =
        .ok (some (.sent (.request 1 false repeatedRequest)
            ([0x40, 0x01, 0, 8] ++ repeatedOptions) true),
          some (.sent (.request 1 true repeatedRequest)
            ([0x42, 0x01, 0, 8, 0x11, 0x22] ++ repeatedOptions) true),
          some ([0x42, 0x01, 0, 8, 0x11, 0x22] ++ repeatedOptions)) := by decide +kernel
  obtain ⟨after, ran, values⟩ := Exec.map_eq_ok.mp computed
  simp only [Prod.mk.injEq] at values
  obtain ⟨newest, sentBefore, isFirst⟩ := values
  have split := List.eq_cons_of_mem_head? newest
  exact ⟨after, [], after.log.tail, _, _, ran, split, List.mem_of_getElem? sentBefore, isFirst,
    by decide⟩

theorem run_repeats_differ_read : ∃ after newer older again,
    run (powerOn 2 quietHeap) repeatedRead = .ok after ∧
      after.log = newer ++ .sent (.request 1 false repeatedRequest) again true :: older ∧
        ∃ first, firstRequest 1 older = some first ∧ again ≠ first ∧
          tokenLength first = 2 ∧ tokenLength again = 0 := by
  have computed : (run (powerOn 2 quietHeap) repeatedRead).map (fun after => after.log.head?) =
      .ok (some (.sent (.request 1 false repeatedRequest)
        ([0x40, 0x01, 0, 8] ++ repeatedOptions) true)) := by decide +kernel
  obtain ⟨after, ran, newest⟩ := Exec.map_eq_ok.mp computed
  have split := List.eq_cons_of_mem_head? newest
  exact ⟨after, [], after.log.tail, _, ran, split, @run_repeats_differ _ _ _ _ ran [] _ _ _ _ _ split⟩

end ExositeCoap.Exosite
