import Mathlib.Data.List.Basic
import Mathlib.Tactic.SplitIfs

/-! The command line that a child is started with on Windows: the arguments, quoted where they have to be, in one
string, and the arguments that the child's runtime makes of it. -/

namespace LspCpp

/-- The characters that `escapeArg` looks for. -/
def escapedChars : List Char := [' ', '\t', '\n', '\x0b', '\\', '"']

/-- The loop of `escapeArg`, which has counted this many backslashes before the rest. -/
def escapeRest : Nat → List Char → List Char
  | backslashes, [] => List.replicate (backslashes * 2) '\\'
  | backslashes, c :: rest =>
      if c = '\\' then escapeRest (backslashes + 1) rest
      else if c = '"' then List.replicate (backslashes * 2 + 1) '\\' ++ c :: escapeRest 0 rest
      else List.replicate backslashes '\\' ++ c :: escapeRest 0 rest

def escapeArg (arg : List Char) : List Char :=
  if arg.any (· ∈ escapedChars) then '"' :: (escapeRest 0 arg ++ ['"']) else arg

/-- The loop of `Impl` over the arguments. -/
def escapeArgs (args : List (List Char)) : List Char := args.flatMap fun arg => ' ' :: escapeArg arg

/-- The `command` of `Impl`. -/
def commandLine (executable : List Char) (args : List (List Char)) : List Char :=
  escapeArg executable ++ escapeArgs args

/-- The backslashes before anything but a quote are backslashes. -/
def withBackslashes (argument : Option (List Char)) (backslashes : Nat) : Option (List Char) :=
  if backslashes = 0 then argument else some (argument.getD [] ++ List.replicate backslashes '\\')

/-- Where a quote stands: after one that has just ended a quoted part, it may be the second of two. -/
inductive Quoting where
  | outside
  | inside
  | ended
  deriving DecidableEq, Repr

/-- The documented rules for arguments: blanks outside quotes end one; before a quote two backslashes are one, and a
backslash left over makes the quote a character. With some runtimes (`doubled`) two quotes inside quotes are a character
as well. -/
def splitArgs (doubled : Bool) : Quoting → Nat → Option (List Char) → List Char → List (List Char)
  | _, backslashes, argument, [] => (withBackslashes argument backslashes).toList
  | quoting, backslashes, argument, c :: rest =>
      let still := if quoting = .inside then Quoting.inside else .outside
      if c = '\\' then splitArgs doubled still (backslashes + 1) argument rest
      else if c = '"' then
        let argument := argument.getD [] ++ List.replicate (backslashes / 2) '\\'
        if backslashes % 2 = 1 then splitArgs doubled still 0 (some (argument ++ [c])) rest
        else
          match quoting with
          | .inside => splitArgs doubled .ended 0 (some argument) rest
          | .outside => splitArgs doubled .inside 0 (some argument) rest
          | .ended => splitArgs doubled .inside 0 (some (if doubled then argument ++ [c] else argument)) rest
      else if still = .outside ∧ (c = ' ' ∨ c = '\t') then
        (withBackslashes argument backslashes).toList ++ splitArgs doubled .outside 0 none rest
      else splitArgs doubled still 0 (some (argument.getD [] ++ List.replicate backslashes '\\' ++ [c])) rest

/-- The program's name goes to the next quote or, without one, to the next blank; a backslash in it is one. -/
def splitProgram : List Char → List Char × List Char
  | '"' :: rest => (rest.takeWhile (· ≠ '"'), (rest.dropWhile (· ≠ '"')).tail)
  | line => (line.takeWhile fun c => c ≠ ' ' ∧ c ≠ '\t', line.dropWhile fun c => c ≠ ' ' ∧ c ≠ '\t')

/-- The program's name and the arguments. -/
def splitCommandLine (doubled : Bool) (line : List Char) : List Char × List (List Char) :=
  ((splitProgram line).1, splitArgs doubled .outside 0 none (splitProgram line).2)

theorem splitArgs_backslashes (doubled : Bool) (n backslashes : Nat) (argument : Option (List Char))
    (rest : List Char) :
    splitArgs doubled .inside backslashes argument (List.replicate n '\\' ++ rest) =
      splitArgs doubled .inside (backslashes + n) argument rest := by
  induction n generalizing backslashes with
  | zero => rfl
  | succ n ih =>
      rw [List.replicate_succ, List.cons_append, splitArgs]
      simp only [if_true]
      rw [ih, Nat.add_right_comm, Nat.add_assoc]

example : splitArgs false .inside 0 none ['\\', 'a'] = [['\\', 'a']] := by
  rw [splitArgs]
  rfl

/-- A quoted part is read as the characters that were escaped, with the backslashes that had been counted. -/
theorem splitArgs_escapeRest (doubled : Bool) (arg : List Char) (backslashes : Nat) (before tail : List Char) :
    splitArgs doubled .inside 0 (some before) (escapeRest backslashes arg ++ '"' :: tail) =
      splitArgs doubled .ended 0 (some (before ++ List.replicate backslashes '\\' ++ arg)) tail := by
  induction arg generalizing backslashes before with
  | nil =>
      rw [escapeRest, splitArgs_backslashes, splitArgs]
      simp
  | cons c rest ih =>
      rw [escapeRest]
      by_cases hbackslash : c = '\\'
      · rw [if_pos hbackslash, ih, hbackslash, List.replicate_succ', List.append_assoc, List.append_assoc,
          List.append_assoc, List.singleton_append]
      rw [if_neg hbackslash]
      by_cases hquote : c = '"'
      · rw [if_pos hquote, List.append_assoc, splitArgs_backslashes, List.cons_append, splitArgs, hquote]
        have hhalf : (0 + (backslashes * 2 + 1)) / 2 = backslashes := by omega
        have hodd : (0 + (backslashes * 2 + 1)) % 2 = 1 := by omega
        simp only [hhalf, hodd, if_true, Option.getD_some]
        rw [if_neg (by decide), ih]
        simp
      · rw [if_neg hquote, List.append_assoc, splitArgs_backslashes, List.cons_append, splitArgs]
        simp only [hbackslash, hquote, if_false, if_true, Option.getD_some, Nat.zero_add]
        rw [if_neg (by simp), ih]
        simp

/-- An argument of other characters is read as it is. -/
theorem splitArgs_plain (doubled : Bool) {arg : List Char} (h : arg.any (· ∈ escapedChars) = false)
    (before tail : List Char) :
    splitArgs doubled .outside 0 (some before) (arg ++ tail) =
      splitArgs doubled .outside 0 (some (before ++ arg)) tail := by
  induction arg generalizing before with
  | nil => simp
  | cons c rest ih =>
      rw [List.any_cons, Bool.or_eq_false_iff] at h
      have hc : c ∉ escapedChars := by simpa using h.1
      simp only [escapedChars, List.mem_cons, List.not_mem_nil, or_false, not_or] at hc
      obtain ⟨hspace, htab, -, -, hbackslash, hquote⟩ := hc
      rw [List.cons_append, splitArgs]
      simp only [hbackslash, hquote, hspace, htab, or_self, and_false, if_false, List.replicate_zero, List.append_nil,
        Option.getD_some]
      rw [if_neg (by decide), ih h.2]
      simp

theorem splitArgs_first (doubled : Bool) {c : Char} (hc : c ∉ escapedChars) (rest : List Char) :
    splitArgs doubled .outside 0 none (c :: rest) = splitArgs doubled .outside 0 (some [c]) rest := by
  simp only [escapedChars, List.mem_cons, List.not_mem_nil, or_false, not_or] at hc
  obtain ⟨hspace, htab, -, -, hbackslash, hquote⟩ := hc
  rw [splitArgs]
  simp [hbackslash, hquote, hspace, htab]

theorem splitArgs_ended (doubled : Bool) (argument : Option (List Char)) (args : List (List Char)) :
    splitArgs doubled .ended 0 argument (escapeArgs args) =
      splitArgs doubled .outside 0 argument (escapeArgs args) := by
  cases args with
  | nil => rfl
  | cons arg args =>
      rw [escapeArgs, List.flatMap_cons, List.cons_append, splitArgs, splitArgs]
      simp

/-- An argument is read back, whichever follow; but nothing is read of an empty one. -/
theorem splitArgs_escapeArg (doubled : Bool) (arg : List Char) (args : List (List Char)) :
    splitArgs doubled .outside 0 none (escapeArg arg ++ escapeArgs args) =
      splitArgs doubled .outside 0 (if arg = [] then none else some arg) (escapeArgs args) := by
  unfold escapeArg
  split_ifs with hquoted hnil hnil
  · simp [hnil] at hquoted
  · calc splitArgs doubled .outside 0 none ('"' :: (escapeRest 0 arg ++ ['"']) ++ escapeArgs args)
      _ = splitArgs doubled .inside 0 (some []) (escapeRest 0 arg ++ '"' :: escapeArgs args) := by
        rw [List.cons_append, splitArgs, List.append_assoc]
        rfl
      _ = splitArgs doubled .ended 0 (some arg) (escapeArgs args) := by
        rw [splitArgs_escapeRest]
        rfl
      _ = splitArgs doubled .outside 0 (some arg) (escapeArgs args) := splitArgs_ended doubled (some arg) args
  · rw [hnil, List.nil_append]
  · obtain ⟨c, others, rfl⟩ := List.exists_cons_of_ne_nil hnil
    rw [Bool.not_eq_true, List.any_cons, Bool.or_eq_false_iff] at hquoted
    rw [List.cons_append, splitArgs_first doubled (by simpa using hquoted.1), splitArgs_plain doubled hquoted.2]
    rfl

theorem splitArgs_escapeArgs (doubled : Bool) (argument : Option (List Char)) (args : List (List Char)) :
    splitArgs doubled .outside 0 argument (escapeArgs args) = argument.toList ++ args.filter (· ≠ []) := by
  induction args generalizing argument with
  | nil =>
      show (withBackslashes argument 0).toList = _
      simp [withBackslashes]
  | cons arg args ih =>
      calc splitArgs doubled .outside 0 argument (escapeArgs (arg :: args))
        _ = argument.toList ++ splitArgs doubled .outside 0 none (escapeArg arg ++ escapeArgs args) := by
          rw [escapeArgs, List.flatMap_cons, List.cons_append, splitArgs]
          simp [withBackslashes, escapeArgs]
        _ = argument.toList ++ ((if arg = [] then none else some arg).toList ++ args.filter (· ≠ [])) := by
          rw [splitArgs_escapeArg, ih]
        _ = argument.toList ++ (arg :: args).filter (· ≠ []) := by
          by_cases harg : arg = [] <;> simp [harg]

/-- A file name, without quotes and with something behind its last backslash, needs no backslashes added. -/
theorem escapeRest_fileName {name : List Char} (hquote : '"' ∉ name) (hlast : name.getLast? ≠ some '\\')
    {backslashes : Nat} (hname : name = [] → backslashes = 0) :
    escapeRest backslashes name = List.replicate backslashes '\\' ++ name := by
  induction name generalizing backslashes with
  | nil => simp [escapeRest, hname rfl]
  | cons c rest ih =>
      rw [List.mem_cons, not_or] at hquote
      have hlast' : rest.getLast? ≠ some '\\' := by
        cases rest with
        | nil => simp
        | cons next others => rwa [List.getLast?_cons_cons] at hlast
      rw [escapeRest]
      by_cases hbackslash : c = '\\'
      · have hrest : rest ≠ [] := by
          rintro rfl
          exact hlast (by rw [hbackslash]; rfl)
        rw [if_pos hbackslash, ih hquote.2 hlast' fun hnil => absurd hnil hrest, List.replicate_succ', hbackslash,
          List.append_assoc, List.singleton_append]
      · rw [if_neg hbackslash, if_neg (Ne.symm hquote.1), ih hquote.2 hlast' fun _ => rfl]
        rfl

theorem splitProgram_unquoted {line : List Char} (h : line.head? ≠ some '"') :
    splitProgram line =
      (line.takeWhile fun c => c ≠ ' ' ∧ c ≠ '\t', line.dropWhile fun c => c ≠ ' ' ∧ c ≠ '\t') := by
  unfold splitProgram
  split
  · simp at h
  · rfl

/-- The name of the executable is read back as well. -/
theorem splitProgram_escapeArg {name : List Char} (hquote : '"' ∉ name) (hlast : name.getLast? ≠ some '\\')
    (args : List (List Char)) :
    splitProgram (escapeArg name ++ escapeArgs args) = (name, escapeArgs args) := by
  unfold escapeArg
  split_ifs with hquoted
  · rw [escapeRest_fileName hquote hlast fun _ => rfl]
    have hall : ∀ c ∈ name, decide (c ≠ '"') = true := by
      intro c hc
      apply decide_eq_true
      rintro rfl
      exact hquote hc
    show (List.takeWhile _ (name ++ ['"'] ++ escapeArgs args),
      (List.dropWhile _ (name ++ ['"'] ++ escapeArgs args)).tail) = _
    rw [List.append_assoc, List.takeWhile_append_of_pos hall, List.dropWhile_append_of_pos hall]
    simp
  · have hall : ∀ c ∈ name, decide (c ≠ ' ' ∧ c ≠ '\t') = true := by
      intro c hc
      apply decide_eq_true
      have hplain : c ∉ escapedChars := fun hmem => hquoted (List.any_eq_true.mpr ⟨c, hc, decide_eq_true hmem⟩)
      simp only [escapedChars, List.mem_cons, not_or] at hplain
      exact ⟨hplain.1, hplain.2.1⟩
    have hhead : (name ++ escapeArgs args).head? ≠ some '"' := by
      cases name with
      | nil => cases args <;> simp [escapeArgs]
      | cons c rest =>
          rintro heq
          cases heq
          exact hquote (List.mem_cons_self ..)
    rw [splitProgram_unquoted hhead, List.takeWhile_append_of_pos hall, List.dropWhile_append_of_pos hall]
    cases args <;> simp [escapeArgs]

/-- What the child is given: the executable, and each of the arguments that is not empty, in their order and with their
characters. An empty one is lost. -/
theorem commandLine_splits (doubled : Bool) {executable : List Char} (hquote : '"' ∉ executable)
    (hlast : executable.getLast? ≠ some '\\') (args : List (List Char)) :
    splitCommandLine doubled (commandLine executable args) = (executable, args.filter (· ≠ [])) := by
  unfold splitCommandLine commandLine
  rw [splitProgram_escapeArg hquote hlast, splitArgs_escapeArgs]
  rfl

/-- An argument with a blank, one with a quote and backslashes, and an empty one. -/
theorem commandLine_splits_quoted :
    splitCommandLine true (commandLine ['x'] [['a', ' ', '\\'], [], ['\\', '"']]) =
      (['x'], [['a', ' ', '\\'], ['\\', '"']]) :=
  commandLine_splits true (by decide) (by decide) [['a', ' ', '\\'], [], ['\\', '"']]

end LspCpp
