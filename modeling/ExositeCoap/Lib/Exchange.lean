import Mathlib.Data.Set.Insert
import Mathlib.Dynamics.PeriodicPts.Defs

/-!
# Requests and answers over an unreliable network

A client sends requests from several slots, each under an id that a counter supplies, sends
some of them again, and takes an answer by its id alone.  The network may lose, double,
reorder and delay what it carries.  As long as the counter has not come round, an answer
reaches the slot whose request it answers (`Safe.mine`).
-/

namespace ExositeCoap.Lib

open Function

variable {Slot Id Msg : Type*}

/-- A client, and everything that it has put on the network. -/
structure Client (Slot Id Msg : Type*) where
  /-- the id that is drawn next -/
  counter : Id
  /-- how many ids were drawn so far -/
  drawn : Nat
  /-- the slot waits for an answer with this id -/
  waits : Slot → Id → Prop
  /-- what went out for the request in the slot -/
  mine : Slot → Set Msg
  /-- what went out at all -/
  sent : Set Msg

/-- Any `size` ids that are drawn one after another are different. -/
def Distinct (next : Id → Id) (size : Nat) : Prop :=
  ∀ id count, 0 < count → count < size → ¬ IsPeriodicPt next count id

namespace Client

/-- The slot waits for nothing new, and forgets nothing of what it waits for. -/
def Continues (client after : Client Slot Id Msg) (slot : Slot) : Prop :=
  ∀ id, after.waits slot id → client.waits slot id ∧ client.mine slot ⊆ after.mine slot

/-- An id that a slot waits for, or that is on the network. -/
def InUse (carries : Msg → Id → Prop) (client : Client Slot Id Msg) (id : Id) : Prop :=
  (∃ slot, client.waits slot id) ∨ ∃ msg ∈ client.sent, carries msg id

end Client

/-- What a client may do. -/
inductive ClientStep (next : Id → Id) (carries : Msg → Id → Prop)
    (client after : Client Slot Id Msg) : Prop where
  /-- some ids are drawn, and nothing goes out -/
  | quiet (more : Nat) (counter : after.counter = next^[more] client.counter)
      (drawn : after.drawn = client.drawn + more) (sent : after.sent = client.sent)
      (continues : ∀ slot, client.Continues after slot)
  /-- a slot sends a new request under the next id -/
  | first {slot : Slot} {msg : Msg} (counter : after.counter = next client.counter)
      (drawn : after.drawn = client.drawn + 1) (carried : carries msg client.counter)
      (sent : after.sent = insert msg client.sent) (mine : msg ∈ after.mine slot)
      (waits : ∀ id, after.waits slot id → id = client.counter)
      (continues : ∀ other, other ≠ slot → client.Continues after other)
  /-- a slot sends its request again; the id that is drawn is not used -/
  | again {slot : Slot} {id : Id} {msg : Msg} (counter : after.counter = next client.counter)
      (drawn : after.drawn = client.drawn + 1) (waited : client.waits slot id)
      (carried : carries msg id) (sent : after.sent = insert msg client.sent)
      (mine : msg ∈ after.mine slot) (continues : ∀ slot, client.Continues after slot)

/-- Every id in use was drawn, slots wait for different ids, and whatever carries the id that
a slot waits for went out for this slot. -/
structure Safe (next : Id → Id) (carries : Msg → Id → Prop) (client : Client Slot Id Msg) :
    Prop where
  drawn : ∀ id, client.InUse carries id →
    ∃ age, age < client.drawn ∧ next^[age + 1] id = client.counter
  apart : ∀ i j id, client.waits i id → client.waits j id → i = j
  mine : ∀ slot id msg, client.waits slot id → msg ∈ client.sent → carries msg id →
    msg ∈ client.mine slot

section Steps

variable {next : Id → Id} {carries : Msg → Id → Prop} {client after : Client Slot Id Msg}
  {size : Nat}

theorem ClientStep.drawn_le (step : ClientStep next carries client after) :
    client.drawn ≤ after.drawn := by
  cases step with
  | quiet more _ drawn => exact drawn ▸ Nat.le_add_right _ _
  | first _ drawn => exact drawn ▸ Nat.le_succ _
  | again _ drawn => exact drawn ▸ Nat.le_succ _

/-- An id grows older with every one that is drawn. -/
theorem Safe.older (safe : Safe next carries client) {id : Id} {more : Nat}
    (used : client.InUse carries id) :
    ∃ age, age < client.drawn + more ∧ next^[age + 1] id = next^[more] client.counter := by
  obtain ⟨age, young, reached⟩ := safe.drawn id used
  refine ⟨more + age, by omega, ?_⟩
  rw [Nat.add_assoc, iterate_add_apply, reached]

/-- The id that is drawn next is not in use. -/
theorem Safe.fresh (safe : Safe next carries client) (distinct : Distinct next size)
    (few : client.drawn < size) : ¬ client.InUse carries client.counter := by
  intro used
  obtain ⟨age, young, reached⟩ := safe.drawn _ used
  exact distinct client.counter (age + 1) (Nat.succ_pos _) (by omega) reached

/-- Slots that go on do so under different ids. -/
theorem Safe.apart_of_continues (safe : Safe next carries client) {i j : Slot} {id : Id}
    (left : client.Continues after i) (right : client.Continues after j)
    (first : after.waits i id) (second : after.waits j id) : i = j :=
  safe.apart i j id (left id first).1 (right id second).1

/-- What was sent before belongs to the slots that go on. -/
theorem Safe.mine_of_continues (safe : Safe next carries client) {slot : Slot} {id : Id}
    {msg : Msg} (continues : client.Continues after slot) (waits : after.waits slot id)
    (sent : msg ∈ client.sent) (carried : carries msg id) : msg ∈ after.mine slot := by
  obtain ⟨waited, kept⟩ := continues id waits
  exact kept (safe.mine slot id msg waited sent carried)

/-- Before the counter comes round, every step keeps the client safe. -/
theorem Safe.step (safe : Safe next carries client) (distinct : Distinct next size)
    (unique : ∀ msg left right, carries msg left → carries msg right → left = right)
    (few : after.drawn ≤ size) (step : ClientStep next carries client after) :
    Safe next carries after := by
  cases step with
  | quiet more counter drawn sent continues =>
      refine ⟨fun id used => ?_, ?_, ?_⟩
      · rw [counter, drawn]
        rw [Client.InUse, sent] at used
        exact safe.older
          (used.imp_left fun ⟨slot, waits⟩ => ⟨slot, (continues slot id waits).1⟩)
      · exact fun i j id => safe.apart_of_continues (continues i) (continues j)
      · intro slot id msg waits isSent
        rw [sent] at isSent
        exact safe.mine_of_continues (continues slot) waits isSent
  | @first slot msg counter drawn carried sent mine waits continues =>
      have fresh := safe.fresh distinct (show client.drawn < size by omega)
      refine ⟨fun id used => ?_, fun i j id first second => ?_, ?_⟩
      · rw [counter, drawn]
        by_cases isNew : id = client.counter
        · exact ⟨0, Nat.succ_pos _, by rw [isNew]; rfl⟩
        · refine @Safe.older _ _ _ _ _ _ safe _ 1 ?_
          rcases used with ⟨i, waiting⟩ | ⟨other, isSent, carriesId⟩
          · have different : i ≠ slot := by
              rintro rfl
              exact isNew (waits id waiting)
            exact Or.inl ⟨i, (continues i different id waiting).1⟩
          · rw [sent] at isSent
            rcases isSent with rfl | old
            · exact absurd (unique other _ _ carriesId carried) isNew
            · exact Or.inr ⟨other, old, carriesId⟩
      · -- nobody else waits for the new id
        have alone : ∀ k, after.waits k id → id = client.counter → k = slot := by
          intro k waiting isNew
          by_contra different
          exact fresh (Or.inl ⟨k, isNew ▸ (continues k different id waiting).1⟩)
        by_cases isFirst : i = slot
        · subst isFirst
          exact (alone j second (waits id first)).symm
        · by_cases isSecond : j = slot
          · subst isSecond
            exact alone i first (waits id second)
          · exact safe.apart_of_continues (continues i isFirst) (continues j isSecond) first second
      · intro i id other waiting isSent carriesId
        rw [sent] at isSent
        by_cases same : i = slot
        · subst same
          rcases isSent with rfl | old
          · exact mine
          · exact absurd (Or.inr ⟨other, old, waits id waiting ▸ carriesId⟩) fresh
        · rcases isSent with rfl | old
          · have isNew := unique other _ _ carriesId carried
            exact absurd (Or.inl ⟨i, isNew ▸ (continues i same id waiting).1⟩) fresh
          · exact safe.mine_of_continues (continues i same) waiting old carriesId
  | @again slot id msg counter drawn waited carried sent mine continues =>
      refine ⟨fun other used => ?_, ?_, ?_⟩
      · rw [counter, drawn]
        refine @Safe.older _ _ _ _ _ _ safe _ 1 ?_
        rcases used with ⟨i, waiting⟩ | ⟨message, isSent, carriesId⟩
        · exact Or.inl ⟨i, (continues i other waiting).1⟩
        · rw [sent] at isSent
          rcases isSent with rfl | old
          · exact Or.inl ⟨slot, unique message _ _ carried carriesId ▸ waited⟩
          · exact Or.inr ⟨message, old, carriesId⟩
      · exact fun i j other => safe.apart_of_continues (continues i) (continues j)
      · intro i other message waiting isSent carriesId
        rw [sent] at isSent
        rcases isSent with rfl | old
        · have same := unique message _ _ carriesId carried
          rw [same] at waiting
          have isSlot := safe.apart i slot id (continues i id waiting).1 waited
          rw [isSlot]
          exact mine
        · exact safe.mine_of_continues (continues i) waiting old carriesId

end Steps

end ExositeCoap.Lib
