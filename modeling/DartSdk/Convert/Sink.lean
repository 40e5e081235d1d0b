import Mathlib.Tactic.Common

namespace DartSdk.Convert.Sink
variable {B : Type}

inductive Event (B : Type)
  | add (data : List B)
  | close
deriving DecidableEq

def addSlice (data : List B) (isLast : Bool) : List (Event B) :=
  if isLast then [.add data, .close] else [.add data]

def Event.data : Event B → List B
  | .add data => data
  | .close => []

def contents (events : List (Event B)) : List B := events.flatMap Event.data

def ClosedOnce (events : List (Event B)) : Prop :=
  ∃ before, events = before ++ [.close] ∧ .close ∉ before

section
variable {events events' : List (Event B)}

lemma contents_append (events events' : List (Event B)) :
    contents (events ++ events') = contents events ++ contents events' :=
  List.flatMap_append

lemma contents_addSlice (data : List B) (isLast : Bool) : contents (addSlice data isLast) = data := by
  cases isLast <;> simp [contents, addSlice, Event.data]

lemma contents_close : contents [(.close : Event B)] = [] := rfl

lemma closedOnce_append (h : ClosedOnce events') (hc : .close ∉ events) : ClosedOnce (events ++ events') := by
  obtain ⟨before, rfl, hb⟩ := h
  refine ⟨events ++ before, by rw [List.append_assoc], ?_⟩
  rw [List.mem_append, not_or]
  exact ⟨hc, hb⟩

lemma closedOnce_close : ClosedOnce [(.close : Event B)] := ⟨[], rfl, List.not_mem_nil⟩

lemma closedOnce_addSlice (data : List B) : ClosedOnce (addSlice data true) := ⟨[.add data], rfl, by simp⟩

lemma close_notMem_addSlice (data : List B) : .close ∉ addSlice data false := by simp [addSlice]

lemma not_closedOnce_of_notMem (h : .close ∉ events) : ¬ClosedOnce events := by
  rintro ⟨before, rfl, -⟩
  exact h (by simp)

lemma not_closedOnce_twice (h : ClosedOnce events) : ¬ClosedOnce (events' ++ events ++ [.close]) := by
  rintro ⟨before, heq, hb⟩
  rw [← List.append_inj_left' heq rfl] at hb
  obtain ⟨before', rfl, -⟩ := h
  simp at hb

end
end DartSdk.Convert.Sink
