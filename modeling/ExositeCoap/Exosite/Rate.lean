import ExositeCoap.Exosite.Arrivals

/-!
# How much is sent

However many datagrams arrive, a call of `exo_operate` hands at most one datagram for each slot
to the platform, and at most one reset: the receive loop ends with it.  So nobody can make a
device send more than it is called (`run_rate`).
-/

namespace ExositeCoap.Exosite

open Lib Wire Coap

/-- The slot that a datagram is sent for; a reset is sent for none. -/
def Cause.source : Cause → Option Nat
  | .request slot _ _ | .ack slot => some slot
  | .rst _ _ => none

/-- A datagram is handed to the platform for this slot, or as a reset. -/
def Event.isFrom (source : Option Nat) : Event → Bool
  | .sent cause _ _ => source = cause.source
  | _ => false

/-- How many datagrams there were so far. -/
def sends (source : Option Nat) (sys : Sys) : Nat := sys.log.countP (Event.isFrom source)

section Rate

variable {source : Option Nat} {sys after : Sys}

theorem sends_record (sys : Sys) (event : Event) :
    sends source (sys.record event) = sends source sys + if event.isFrom source then 1 else 0 :=
  List.countP_cons

theorem sends_record_other (sys : Sys) {event : Event} (other : event.isFrom source = false) :
    sends source (sys.record event) = sends source sys := by
  simp [sends_record, other]

/-- Entries of the scan are about impossible ops. -/
theorem TracesSkipped.sends_eq {events : List Event} (traces : TracesSkipped sys events) :
    sends source (sys.logged events) = sends source sys := by
  have none : events.countP (Event.isFrom source) = 0 := by
    refine List.countP_eq_zero.mpr fun event member => ?_
    obtain ⟨slot, op, rfl, -⟩ := traces event member
    exact Bool.false_ne_true
  rw [sends, Sys.logged, List.countP_append, none, Nat.zero_add]
  rfl

theorem Reaction.sends_eq {rx : Received} {i : Nat} {op : ExoOp}
    (reaction : Reaction rx sys i op after) : sends source after = sends source sys := by
  cases reaction with
  | activated => exact sends_record_other _ rfl
  | _ => rfl

/-- A datagram makes the library send a reset at most, and then the loop ends. -/
theorem exoHandleDatagram_sends {rx : Received} {goOn : Bool}
    (ran : exoHandleDatagram rx sys = .ok (goOn, after)) :
    sends source after ≤ sends source sys + if source = none ∧ goOn = false then 1 else 0 := by
  cases exoHandleDatagram_cases ran with
  | invalid => exact Nat.le_add_right _ _
  | taken _ traces _ _ round =>
      rw [sends_record_other _ rfl, (reaction_of_round round).2.sends_eq, traces.sends_eq]
      exact Nat.le_add_right _ _
  | reset _ traces =>
      rw [sends_record, sends_record_other _ rfl, traces.sends_eq]
      cases source <;> simp [Event.isFrom, Cause.source]
  | dropped _ traces =>
      rw [sends_record_other _ rfl, traces.sends_eq]
      exact Nat.le_add_right _ _

theorem exoProcessWaitingDatagrams_sends {datagrams : List Received}
    (ran : exoProcessWaitingDatagrams sys datagrams = .ok after) :
    sends source after ≤ sends source sys + if source = none then 1 else 0 := by
  induction datagrams generalizing sys with
  | nil =>
      cases ran
      exact Nat.le_add_right _ _
  | cons rx rest ih =>
      obtain ⟨⟨goOn, next⟩, handled, ran⟩ := Exec.bind_eq_ok.mp ran
      have first := @exoHandleDatagram_sends source _ _ _ _ handled
      cases goOn with
      | true =>
          have later := ih ran
          simp only [Bool.true_eq_false, and_false, if_false] at first
          omega
      | false =>
          cases ran
          simpa only [and_true] using first

/-- A slot sends for itself, once. -/
theorem SlotStep.sends_le {env : SlotEnv} {i : Nat} {op : ExoOp}
    (step : SlotStep env sys i op after) :
    sends source after ≤ sends source sys + if source = some i then 1 else 0 := by
  have own (before : Sys) {event : Event} (isOwn : event.isFrom source = decide (source = some i)) :
      sends source (before.record event) ≤
        sends source before + if source = some i then 1 else 0 := by
    rw [sends_record, isOwn]
    simp only [decide_eq_true_eq, Nat.le_refl]
  cases step with
  | unexpectedNew => exact (sends_record_other _ rfl).trans_le (Nat.le_add_right _ _)
  | unexpectedWait => exact (sends_record_other _ rfl).trans_le (Nat.le_add_right _ _)
  | sent => exact own _ rfl
  | unsent => exact own _ rfl
  | resent => exact own _ rfl
  | unresent => exact own _ rfl
  | acked => exact own _ rfl
  | unacked => exact own _ rfl
  | _ => exact Nat.le_add_right _ _

/-- What the slots from `i` on may still send. -/
def allowance (source : Option Nat) (i : Nat) : Nat :=
  match source with
  | none => 0
  | some slot => if i ≤ slot then 1 else 0

theorem allowance_succ (source : Option Nat) (i : Nat) :
    (if source = some i then 1 else 0) + allowance source (i + 1) ≤ allowance source i := by
  cases source with
  | none => simp [allowance]
  | some slot =>
      simp only [allowance, Option.some.injEq]
      split_ifs <;> omega

theorem exoActiveLoop_sends {now : UInt64} {envs : Nat → SlotEnv} {left i : Nat}
    (ran : exoActiveLoop now envs sys left i = .ok after) :
    sends source after ≤ sends source sys + allowance source i := by
  induction left generalizing sys i with
  | zero =>
      cases ran
      exact Nat.le_add_right _ _
  | succ left ih =>
      rw [exoActiveLoop] at ran
      cases atSlot : sys.ops[i]? with
      | none =>
          rw [atSlot] at ran
          cases ran
      | some op =>
          rw [atSlot] at ran
          obtain ⟨next, processed, ran⟩ := Exec.bind_eq_ok.mp ran
          have here := @SlotStep.sends_le source _ _ _ _ _ (exoProcessOp_cases processed)
          have later := ih ran
          have room := allowance_succ source i
          omega

theorem exoOperate_sends {env : OperateEnv} {state : ExoState}
    (ran : exoOperate env sys = .ok (state, after)) :
    sends source after ≤ sends source sys + 1 := by
  obtain ⟨-, rfl⟩ | ⟨-, ready, received, isReady, waiting, active⟩ := exoOperate_parts ran
  · exact Nat.le_succ _
  · have same : sends source ready = sends source sys := by
      obtain rfl | ⟨first, -, rfl⟩ := exoReady_cases isReady <;> rfl
    have replied := @exoProcessWaitingDatagrams_sends source _ _ _ waiting
    have sent := @exoActiveLoop_sends source _ _ _ _ _ _ active
    cases source with
    | none =>
        simp only [allowance, if_true] at replied sent
        omega
    | some slot =>
        simp only [allowance, reduceCtorEq, if_false, Nat.zero_le, if_true] at replied sent
        omega

theorem call_sends {action : UserCall} (ran : call sys action = .ok after) :
    sends source after ≤ sends source sys + (action.operation sys).length := by
  cases action with
  | init env vendor model serial =>
      cases ran
      unfold exoInit
      dsimp only
      split_ifs
      · exact Nat.le_refl _
      · exact Nat.le_refl _
      · exact Nat.le_refl _
      · exact (sends_record_other _ rfl).le
  | memory =>
      cases ran
      exact Nat.le_refl _
  | operate env =>
      obtain ⟨⟨state, result⟩, operated, ran⟩ := Exec.bind_eq_ok.mp ran
      cases ran
      exact exoOperate_sends operated
  | opInit =>
      obtain ⟨op, -, ran⟩ := Exec.bind_eq_ok.mp ran
      cases ran
      exact Nat.le_refl _
  | _ =>
      obtain ⟨op, -, ran⟩ := Exec.bind_eq_ok.mp ran
      cases ran
      exact (sends_record_other _ rfl).le

/-- For every slot, and as resets, at most as many datagrams go out as `exo_operate` is called,
whatever arrives. -/
theorem run_rate {count : Nat} {heap : Mem} {calls : List UserCall}
    (ran : run (powerOn count heap) calls = .ok after) (source : Option Nat) :
    after.log.countP (Event.isFrom source) ≤ (operations (powerOn count heap) calls).length := by
  have grows : ∀ {sys : Sys}, run sys calls = .ok after →
      sends source after ≤ sends source sys + (operations sys calls).length := by
    clear ran
    intro sys ran
    induction calls generalizing sys with
    | nil =>
        cases ran
        exact Nat.le_refl _
    | cons first rest ih =>
        obtain ⟨next, called, ran⟩ := Exec.bind_eq_ok.mp ran
        have here := @call_sends source _ _ _ called
        have later := ih ran
        rw [operations, called, List.length_append]
        dsimp only
        omega
  exact (grows ran).trans_eq (Nat.zero_add _)

end Rate

/-- Two confirmable messages that nobody waits for come at once, and one is answered. -/
theorem run_rate_flood : ∃ after,
    run (powerOn 1 quietHeap)
      [quietInit, quietOperate [[0x40, 1, 0, 5], [0x40, 1, 0, 6]]] = .ok after ∧
    after.log.countP (Event.isFrom none) = 1 ∧
    after.log.countP (Event.isFrom none) ≤ (operations (powerOn 1 quietHeap)
      [quietInit, quietOperate [[0x40, 1, 0, 5], [0x40, 1, 0, 6]]]).length := by
  have computed : (run (powerOn 1 quietHeap)
      [quietInit, quietOperate [[0x40, 1, 0, 5], [0x40, 1, 0, 6]]]).map (fun after =>
        after.log.countP (Event.isFrom none)) = .ok 1 := by decide +kernel
  obtain ⟨after, ran, resets⟩ := Exec.map_eq_ok.mp computed
  exact ⟨after, ran, resets, run_rate ran none⟩

end ExositeCoap.Exosite
