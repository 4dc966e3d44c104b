import Mathlib.Data.List.Basic

/-!
# Traces

A trace lists what has happened, newest entry first.  What holds of each entry may
depend on the entries before it.
-/

namespace ExositeCoap.Lib

variable {α : Type} {holds : α → List α → Prop} {trace : List α}

/-- `holds` is true of every entry and the older part of the trace. -/
def EachEntry (holds : α → List α → Prop) (trace : List α) : Prop :=
  ∀ newer entry older, trace = newer ++ entry :: older → holds entry older

theorem EachEntry.nil : EachEntry holds [] := by
  intro newer entry older split
  simp at split

theorem EachEntry.cons {entry : α} (each : EachEntry holds trace) (newest : holds entry trace) :
    EachEntry holds (entry :: trace) := by
  intro newer other older split
  cases newer with
  | nil =>
      cases split
      exact newest
  | cons head rest =>
      injection split with _ split
      exact each rest other older split

/-- Several new entries, of which nothing is asked. -/
theorem EachEntry.append {entries : List α} (each : EachEntry holds trace)
    (trivially : ∀ entry ∈ entries, ∀ older, holds entry older) :
    EachEntry holds (entries ++ trace) := by
  induction entries with
  | nil => exact each
  | cons entry rest ih =>
      exact (ih fun other member => trivially other (List.mem_cons_of_mem _ member)).cons
        (trivially entry List.mem_cons_self _)

end ExositeCoap.Lib
