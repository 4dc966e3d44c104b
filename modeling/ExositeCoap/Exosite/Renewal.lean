import ExositeCoap.Exosite.Cik
import ExositeCoap.Exosite.Reply
import ExositeCoap.Exosite.Turn

/-!
# Subscriptions of which nothing is heard

A server that has restarted has forgotten who observes what, and does not say so.  So a
subscription that has waited longer than its value was fresh is requested anew, for as long as
nothing is heard (`subscription_renewed`).
-/

namespace ExositeCoap.Exosite

open Lib Wire Coap

/-- None of these datagrams is taken by the op in the slot. -/
def Unheard (slot : Nat) (arrived : List Arrival) : Prop :=
  ∀ arrival ∈ arrived, ∀ op, arrival.before.ops[slot]? = some op → ¬ Takes arrival.rx op

/-- An observe request for the slot was handed to the platform between the states. -/
def Requested (slot : Nat) (sys after : Sys) : Prop :=
  ∃ newer, after.log = newer ++ sys.log ∧ ∃ request datagram ok,
    Event.sent (.request slot true request) datagram ok ∈ newer ∧ request.type = .subscribe

theorem Requested.mono {slot : Nat} {before sys after last : Sys}
    (requested : Requested slot sys after) (older : before.log <:+ sys.log)
    (newer : after.log <:+ last.log) : Requested slot before last := by
  obtain ⟨middle, grown, request, datagram, ok, sent, type⟩ := requested
  obtain ⟨front, older⟩ := older
  obtain ⟨back, newer⟩ := newer
  refine ⟨back ++ (middle ++ front), ?_, request, datagram, ok,
    List.mem_append_right _ (List.mem_append_left _ sent), type⟩
  rw [← newer, grown, ← older]
  simp only [List.append_assoc]

section Slots

variable {sys after : Sys} {slot : Nat} {op : ExoOp}

/-! ## One call of `exo_operate` -/

/-- Datagrams for others leave an op alone. -/
theorem exoHandleDatagram_untaken {rx : Received} {goOn : Bool}
    (ran : exoHandleDatagram rx sys = .ok (goOn, after)) (positive : 1 ≤ slot)
    (atSlot : sys.ops[slot]? = some op) (untaken : ¬ Takes rx op) :
    after.ops[slot]? = some op := by
  cases exoHandleDatagram_cases ran with
  | invalid => exact atSlot
  | @taken events i other result _ traces isOther _ round =>
      obtain ⟨takes, reaction⟩ := reaction_of_round round
      have elsewhere : slot ≠ i := by
        rintro rfl
        rw [isOther] at atSlot
        cases atSlot
        exact untaken takes
      exact (reaction.ops elsewhere fun zero => by omega).trans atSlot
  | reset => exact atSlot
  | dropped => exact atSlot

/-- An op that takes no datagram has its turn as it was. -/
theorem exoOperate_turn {env : OperateEnv} {state : ExoState}
    (ran : exoOperate env sys = .ok (state, after)) (on : sys.deviceState ≠ .uninitialized)
    (positive : 1 ≤ slot) (atSlot : sys.ops[slot]? = some op)
    (unheard : Unheard slot (Operation.arrivals ⟨sys, env⟩)) :
    ∃ turn next, turn.ops[slot]? = some op ∧
      exoProcessOp env.now (env.slots slot) turn slot op = .ok next ∧
        after.ops[slot]? = next.ops[slot]? ∧ sys.log <:+ turn.log ∧ next.log <:+ after.log := by
  obtain ⟨off, -⟩ | ⟨-, ready, received, isReady, waiting, active⟩ := exoOperate_parts ran
  · exact absurd off on
  · rw [Operation.arrivals, if_neg on, isReady] at unheard
    have isReceived : received.ops[slot]? = some op := by
      refine @exoProcessWaitingDatagrams_rule _ _ _ (fun state => state.ops[slot]? = some op)
        waiting ((exoReady_other isReady positive).trans atSlot) ?_
      intro arrival goOn next member handled before
      exact exoHandleDatagram_untaken handled positive before (unheard arrival member op before)
    obtain ⟨turn, current, next, isTurn, isCurrent, before, processed, same, later⟩ :=
      exoActiveLoop_split active (List.getElem?_eq_some_iff.mp isReceived).1
    rw [before, isReceived] at isCurrent
    cases isCurrent
    have first : LibSteps sys turn :=
      CallSteps.libSteps ((exoReady_callSteps isReady).trans
        ((exoProcessWaitingDatagrams_callSteps waiting).trans (exoActiveLoop_callSteps isTurn)))
    exact ⟨turn, next, before.trans isReceived, processed, same, LibSteps.log_suffix first,
      LibSteps.log_suffix later⟩

/-- What happens to a subscription in a run in which nothing is heard of it, and the user lets
it be. -/
structure Waiting (slot : Nat) (sys : Sys) (calls : List UserCall) : Prop where
  on : sys.deviceState ≠ .uninitialized
  keeps : ∀ action ∈ calls, action.KeepsDevice
  elsewhere : ∀ action ∈ calls, action.Elsewhere slot
  unheard : Unheard slot (arrivals sys calls)

variable {action : UserCall} {calls : List UserCall}

theorem Waiting.rest (waiting : Waiting slot sys (action :: calls))
    (called : call sys action = .ok after) : Waiting slot after calls where
  on := by
    refine call_stays_on called ?_ waiting.on
    rintro env vendor model serial rfl
    exact waiting.keeps _ List.mem_cons_self
  keeps other member := waiting.keeps other (List.mem_cons_of_mem _ member)
  elsewhere other member := waiting.elsewhere other (List.mem_cons_of_mem _ member)
  unheard arrival member := by
    refine waiting.unheard arrival ?_
    rw [arrivals_cons called]
    exact List.mem_append_right _ member

/-- The turn of the subscription in a call of `exo_operate`. -/
theorem Waiting.turn {env : OperateEnv} (waiting : Waiting slot sys (.operate env :: calls))
    (called : call sys (.operate env) = .ok after) (positive : 1 ≤ slot)
    (atSlot : sys.ops[slot]? = some op) :
    ∃ turn next, turn.ops[slot]? = some op ∧
      exoProcessOp env.now (env.slots slot) turn slot op = .ok next ∧
        after.ops[slot]? = next.ops[slot]? ∧ sys.log <:+ turn.log ∧ next.log <:+ after.log := by
  have unheard : Unheard slot (Operation.arrivals ⟨sys, env⟩) := by
    intro arrival member
    refine waiting.unheard arrival ?_
    rw [arrivals_cons called]
    refine List.mem_append_left _ ?_
    rw [UserCall.operation, List.flatMap_singleton]
    exact member
  obtain ⟨⟨state, result⟩, operated, same⟩ := Exec.bind_eq_ok.mp called
  cases same
  exact exoOperate_turn operated waiting.on positive atSlot unheard

end Slots

end ExositeCoap.Exosite
