import Mathlib.Data.List.DropRight

/-!
# Histories

A history is the list of what has happened so far, the newest entry last.
Marked entries cut it into periods: `upTo` is the history up to the last mark,
`since` is what came after it.  Some entries carry a time; `markTime` is the time
at which the last mark is taken to have happened, that of the last timed entry up
to it or, if there is none, of the first one after it.
-/

namespace SmartBFT.Foundation

variable {α τ : Type} (mark : α → Bool) (time : α → Option τ)

def since (log : List α) : List α := log.rtakeWhile fun x => !mark x

def upTo (log : List α) : List α := log.rdropWhile fun x => !mark x

def markTime (log : List α) : Option τ :=
  ((upTo mark log).filterMap time).getLast?.or ((since mark log).filterMap time).head?

variable {mark} {time} {log : List α} {x : α}

theorem since_concat :
    since mark (log ++ [x]) = if mark x then [] else since mark log ++ [x] := by
  cases h : mark x <;> simp [since, h]

theorem upTo_concat :
    upTo mark (log ++ [x]) = if mark x then log ++ [x] else upTo mark log := by
  cases h : mark x <;> simp [upTo, h]

theorem getLast?_filterMap_concat :
    ((log ++ [x]).filterMap time).getLast? = (time x).or (log.filterMap time).getLast? := by
  cases h : time x <;> simp [h]

/-- A mark takes the last time so far; an entry between marks gives one only if there is none. -/
theorem markTime_concat :
    markTime mark time (log ++ [x]) =
      if mark x then (time x).or (log.filterMap time).getLast?
      else (markTime mark time log).or (time x) := by
  simp only [markTime, upTo_concat, since_concat]
  split
  · simp only [getLast?_filterMap_concat, List.filterMap_nil, List.head?_nil, Option.or_none]
  · simp only [List.filterMap_append, List.head?_append, Option.or_assoc]
    cases h : time x <;> simp [h]

end SmartBFT.Foundation
