/-!
# Text

Shell source, values and replies are `Text`: lists of characters, so that every operation on
them is a recursion a proof can follow. `cutAt?` finds the first occurrence of a mark in a list
of any kind and loses nothing of the list (`eq_of_cutAt?`), `splitOn` cuts at a character, `lines`
cuts a body into lines.
-/

set_option autoImplicit false

namespace ShellFold

/-- A sequence of Unicode scalar values. -/
abbrev Text := List Char

section Cut

variable {α : Type} [DecidableEq α]

/-- Cuts a list at the first occurrence of `mark`: what precedes it and what follows it. -/
def cutAt? (mark : List α) : List α → Option (List α × List α)
  | [] => if mark = [] then some ([], []) else none
  | a :: rest =>
    if mark <+: a :: rest then some ([], (a :: rest).drop mark.length)
    else (cutAt? mark rest).map fun (before, after) => (a :: before, after)

/-- A cut loses nothing: the list is what precedes the mark, the mark, and what follows it. -/
theorem eq_of_cutAt? {mark list before after : List α}
    (h : cutAt? mark list = some (before, after)) : list = before ++ mark ++ after := by
  induction list generalizing before after with
  | nil =>
    simp only [cutAt?] at h
    split at h <;> simp_all
  | cons a rest ih =>
    simp only [cutAt?] at h
    split at h
    · next hp =>
      obtain ⟨t, ht⟩ := hp
      simp only [Option.some.injEq, Prod.mk.injEq] at h
      obtain ⟨rfl, rfl⟩ := h
      rw [← ht]
      simp
    · obtain ⟨⟨b, t⟩, hc, he⟩ := Option.map_eq_some_iff.1 h
      simp only [Prod.mk.injEq] at he
      obtain ⟨rfl, rfl⟩ := he
      simp [ih hc]

end Cut

namespace Text

/-- The parts of a text between the occurrences of `mark`, empty parts included. -/
def splitOn (mark : Char) : Text → List Text
  | [] => [[]]
  | c :: rest =>
    if c = mark then [] :: splitOn mark rest
    else
      match splitOn mark rest with
      | [] => [[c]]
      | part :: parts => (c :: part) :: parts

/-- Splitting always yields at least one part. -/
theorem splitOn_ne_nil (mark : Char) (s : Text) : splitOn mark s ≠ [] := by
  cases s with
  | nil => simp [splitOn]
  | cons c rest =>
    simp only [splitOn]
    split
    · simp
    · split <;> simp

/-- Drops one carriage return at the end of a line. -/
def dropReturn (line : Text) : Text :=
  if line.getLast? = some '\r' then line.dropLast else line

/-- The lines still to come when `line` has been read of the current one. -/
def linesFrom (line : Text) : Text → List Text
  | [] => if line = [] then [] else [line]
  | c :: rest =>
    if c = '\n' then dropReturn line :: linesFrom [] rest else linesFrom (line ++ [c]) rest

/-- The lines of a text: each ends at a newline, which takes one carriage return before it along,
or at the end of the text. -/
def lines (s : Text) : List Text := linesFrom [] s

/-- The text with every carriage return that a newline follows left out. -/
def joinReturns : Text → Text
  | '\r' :: '\n' :: rest => '\n' :: joinReturns rest
  | c :: rest => c :: joinReturns rest
  | [] => []

/-- Cuts a text at the first `mark`: what precedes it and what follows it. -/
def splitOnce? (mark : Char) : Text → Option (Text × Text)
  | [] => none
  | c :: rest =>
    if c = mark then some ([], rest)
    else (splitOnce? mark rest).map fun (before, after) => (c :: before, after)

/-- A cut at the first mark loses nothing, and what precedes the mark is free of it. -/
theorem eq_of_splitOnce? {mark : Char} {s before after : Text}
    (h : splitOnce? mark s = some (before, after)) :
    s = before ++ mark :: after ∧ mark ∉ before := by
  induction s generalizing before after with
  | nil => simp [splitOnce?] at h
  | cons c rest ih =>
    simp only [splitOnce?] at h
    split at h
    · next hc =>
      simp only [Option.some.injEq, Prod.mk.injEq] at h
      obtain ⟨rfl, rfl⟩ := h
      simp [hc]
    · next hc =>
      obtain ⟨⟨b, t⟩, hs, he⟩ := Option.map_eq_some_iff.1 h
      simp only [Prod.mk.injEq] at he
      obtain ⟨rfl, rfl⟩ := he
      obtain ⟨rfl, hb⟩ := ih hs
      exact ⟨rfl, by simp [Ne.symm hc, hb]⟩

theorem splitOnce?_append {mark : Char} {run : Text} (h : mark ∉ run) (rest : Text) :
    splitOnce? mark (run ++ mark :: rest) = some (run, rest) := by
  induction run with
  | nil => simp [splitOnce?]
  | cons c run ih =>
    rw [List.mem_cons, not_or] at h
    simp [splitOnce?, Ne.symm h.1, ih h.2]

theorem splitOnce?_eq_none {mark : Char} {s : Text} (h : mark ∉ s) : splitOnce? mark s = none := by
  induction s with
  | nil => rfl
  | cons c s ih =>
    rw [List.mem_cons, not_or] at h
    simp [splitOnce?, Ne.symm h.1, ih h.2]

/-- What follows the first mark is shorter than the text. -/
theorem length_of_splitOnce? {mark : Char} {s before after : Text}
    (h : splitOnce? mark s = some (before, after)) : after.length < s.length := by
  obtain ⟨rfl, -⟩ := eq_of_splitOnce? h
  simp only [List.length_append, List.length_cons]
  omega

end Text

end ShellFold
