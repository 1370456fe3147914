/-
# What is remembered is a part of the history

A tracker sees one label at a time and forgets at once what does not fit. What it holds is none the
less a function of its whole history: the labels accepted since it was last cleared, each once, the
latest first, as many as fit. A label that is forgotten stands behind `capacity` others, and one that
comes to the front later moves these back at most; so the list may be cut off now or when it is looked
at.

Key definitions: `RecencyTracker.Operation`, `RecencyTracker.run`, `RecencyTracker.accepted`,
`RecencyTracker.remembered`.
Key theorems: `take_erase_take`, `RecencyTracker.record_take`, `RecencyTracker.run_eq_remembered`,
`RecencyTracker.run_refines_history`.
-/
import Mathlib.Data.List.Induction
import Mathlib.Data.List.Nodup
import Typeahead.CommandLine.Run

namespace Typeahead

/-! ### Lists without repetition -/

section

variable {α : Type} [BEq α]

/-- Behind the cut of a list nothing matters to what is in front of it once an element is taken out. -/
theorem take_erase_take (a : α) : ∀ (l : List α) (n : Nat), ((l.take (n + 1)).erase a).take n = (l.erase a).take n
  | [], _ => rfl
  | b :: l, n => by
    rw [List.take_succ_cons, List.erase_cons, List.erase_cons]
    split
    · rw [List.take_take, Nat.min_self]
    · cases n with
      | zero => rfl
      | succ n => rw [List.take_succ_cons, List.take_succ_cons, take_erase_take a l n]

theorem length_others_lt (a : α) (l : List α) : (l.filter fun b => !b == a).length < (a :: l).length :=
  Nat.lt_succ_of_le (List.length_filter_le _ _)

variable [LawfulBEq α]

theorem nodup_eraseDups : ∀ l : List α, l.eraseDups.Nodup
  | [] => List.nodup_nil
  | a :: l => by
    rw [List.eraseDups_cons, List.nodup_cons]
    exact ⟨by simp [List.mem_eraseDups], nodup_eraseDups _⟩
termination_by l => l.length
decreasing_by exact length_others_lt a l

/-- Of the elements that are kept each is kept once. -/
theorem eraseDups_filter (p : α → Bool) : ∀ l : List α, (l.filter p).eraseDups = l.eraseDups.filter p
  | [] => rfl
  | a :: l => by
    have ih := eraseDups_filter p (l.filter fun b => !b == a)
    rw [List.filter_filter] at ih
    rw [List.eraseDups_cons, List.filter_cons, List.filter_cons, ← ih]
    cases hp : p a with
    | true =>
      rw [if_pos rfl, if_pos rfl, List.eraseDups_cons, List.filter_filter]
      simp only [Bool.and_comm]
    | false =>
      -- `a` is not among those that are kept anyway
      have hother : ∀ b ∈ l, p b = (p b && !b == a) := by
        intro b _
        by_cases hb : b = a
        · simp [hb, hp]
        · simp [hb]
      rw [if_neg Bool.false_ne_true, if_neg Bool.false_ne_true, List.filter_congr hother]
termination_by l => l.length
decreasing_by exact length_others_lt a l

/-- An element that comes to the front is taken out where it was. -/
theorem eraseDups_cons_erase (a : α) (l : List α) : (a :: l).eraseDups = a :: l.eraseDups.erase a := by
  rw [List.eraseDups_cons, eraseDups_filter, (nodup_eraseDups l).erase_eq_filter]
  rfl

end

namespace RecencyTracker

/-- What happens to a tracker. -/
inductive Operation where
  | record (label : String)
  | clear
  deriving DecidableEq, Repr

/-- A tracker after an operation. -/
def step (tracker : RecencyTracker) : Operation → RecencyTracker
  | .record label => tracker.record label
  | .clear => tracker.clear

/-- A new tracker after some operations. -/
def run (capacity : Nat) (history : List Operation) : RecencyTracker := history.foldl step (empty capacity)

/-- The labels recorded since the last clearing, in the order of the operations, the latest first. -/
def recordedSince : (latestFirst : List Operation) → List String
  | .record label :: before => label :: recordedSince before
  | _ => []

/-- The labels that a history accepts, the latest first, as often as they were recorded: the empty
label is none. -/
def accepted (history : List Operation) : List String := (recordedSince history.reverse).filter (· ≠ "")

/-- The labels that a tracker is to remember of a history: each that was accepted, where it was accepted
last, as many as fit. -/
def remembered (capacity : Nat) (history : List Operation) : List String :=
  (accepted history).eraseDups.take capacity

theorem accepted_clear (history : List Operation) : accepted (history ++ [.clear]) = [] := by
  simp [accepted, recordedSince]

theorem accepted_record (history : List Operation) (label : String) :
    accepted (history ++ [.record label]) = if label = "" then accepted history else label :: accepted history := by
  by_cases h : label = "" <;> simp [accepted, recordedSince, h]

/-- **A step** on labels that are cut off is the step on the labels that are not, cut off behind it. -/
theorem record_take (capacity : Nat) (all : List String) {label : String} (h : label ≠ "") :
    record ⟨capacity, all.take capacity⟩ label = ⟨capacity, (label :: all.erase label).take capacity⟩ := by
  have hne : label.isEmpty = false := by simpa using h
  simp only [record, hne, Bool.false_eq_true, ↓reduceIte, mk.injEq, true_and]
  cases capacity with
  | zero => rfl
  | succ n => rw [List.take_succ_cons, List.take_succ_cons, take_erase_take]

/-- **A run**: whatever happens to a tracker, it holds what it is to remember. -/
theorem run_eq_remembered (capacity : Nat) (history : List Operation) :
    run capacity history = ⟨capacity, remembered capacity history⟩ := by
  induction history using List.reverseRecOn with
  | nil => simp [run, remembered, accepted, recordedSince, empty]
  | append_singleton history operation ih =>
    rw [run, List.foldl_append, ← run, ih, List.foldl_cons, List.foldl_nil]
    cases operation with
    | clear => simp [step, clear, remembered, accepted_clear]
    | record label =>
      by_cases hempty : label = ""
      · rw [remembered, remembered, accepted_record, if_pos hempty, step, hempty]
        rfl
      · have hnext : remembered capacity (history ++ [.record label]) =
            (label :: (accepted history).eraseDups.erase label).take capacity := by
          rw [remembered, accepted_record, if_neg hempty, eraseDups_cons_erase]
        rw [hnext, step, remembered, record_take capacity _ hempty]

theorem recordedSince_map_record : ∀ labels : List String, recordedSince (labels.map .record) = labels
  | [] => rfl
  | label :: labels => congrArg (label :: ·) (recordedSince_map_record labels)

/-- The labels of the command line, which come with the most recent first, are remembered in that order. -/
theorem ofRecent_eq (capacity : Nat) (labels : List String) :
    ofRecent capacity labels = ⟨capacity, (labels.filter (· ≠ "")).eraseDups.take capacity⟩ := by
  have hrun : ofRecent capacity labels = run capacity (labels.map .record).reverse := by
    rw [ofRecent, run, ← List.map_reverse, List.foldl_map]
    rfl
  rw [hrun, run_eq_remembered, remembered, accepted, List.reverse_reverse, recordedSince_map_record]

/-- The rank of a label is its place among distinct labels. -/
theorem rank?_eq_some_iff {tracker : RecencyTracker} (h : tracker.labels.Nodup) (label : String) (i : Nat) :
    tracker.rank? label = some i ↔ tracker.labels[i]? = some label := by
  rw [rank?, List.findIdx?_eq_some_iff_getElem, List.getElem?_eq_some_iff]
  constructor
  · rintro ⟨hi, hlabel, -⟩
    exact ⟨hi, by simpa using hlabel⟩
  · rintro ⟨hi, rfl⟩
    refine ⟨hi, by simp, fun j hj heq => Nat.ne_of_lt hj ?_⟩
    exact (h.getElem_inj_iff).1 (by simpa using heq)

/-- **A tracker refines its history.** After any operations it holds the labels recorded since the last
clearing that are not empty, each once, the one recorded last first, the first `capacity` of them; and
the rank of a label is its place among these. -/
theorem run_refines_history (capacity : Nat) (history : List Operation) :
    (run capacity history).labels = (accepted history).eraseDups.take capacity ∧
      ∀ label i, (run capacity history).rank? label = some i ↔
        ((accepted history).eraseDups.take capacity)[i]? = some label := by
  have hlabels : (run capacity history).labels = (accepted history).eraseDups.take capacity := by
    rw [run_eq_remembered, remembered]
  refine ⟨hlabels, fun label i => ?_⟩
  rw [← hlabels]
  refine rank?_eq_some_iff ?_ label i
  rw [hlabels]
  exact (nodup_eraseDups _).take

/-- A label that was forgotten comes back, and one that is recorded again moves to the front. -/
example : (run 2 [.record "a", .clear, .record "b", .record "c", .record "", .record "d", .record "c",
    .record "b"]).labels = ["b", "c"] := by decide

end RecencyTracker
end Typeahead
