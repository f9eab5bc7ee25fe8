import SocialGaming.EventLoop
import SocialGaming.Library.MachineInt

/-!
# How a game is played

The event loop plays a game to its end exactly when the console gives enough input for all the tasks
that wait. Then every task has had its turn, in the order of the queue, and no more lines have been
read than were needed.

## Design

What the loop is for is stated apart from it, as a relation of tasks, the lines that are read and
the lines that are printed. A game that is being played may be waiting, so that the relation is
extended to states, and each round is shown to be the beginning of what is related to its state.

## Main definitions

* `Answered`, `Plays` — how tasks are played
* `Process.owed` — the inputs that are still needed
* `Process.Advances` — a beginning of a game

## Main results

* `round_cases` — what a round does
* `eventLoop_plays` — the loop ends a game if and only if there is enough input
-/

namespace SocialGaming

namespace EventLoop

/-! ### Games -/

/-- The line is understood as an input. -/
def isInput (line : List Char) : Bool := (parseInput line).isSome

/-- So many inputs are asked for until they are given. -/
inductive Answered : ℕ → List (List Char) → List Line → Prop
  | done : Answered 0 [] []
  | input {n : ℕ} {line : List Char} {read : List (List Char)} {out : List Line}
      (hline : isInput line) (h : Answered n read out) :
      Answered (n + 1) (line :: read) (.enterInput :: out)
  | malformed {n : ℕ} {line : List Char} {read : List (List Char)} {out : List Line}
      (hblank : line ≠ []) (hline : isInput line = false) (h : Answered (n + 1) read out) :
      Answered (n + 1) (line :: read) (.enterInput :: .malformedMessage :: out)
  | blank {n : ℕ} {read : List (List Char)} {out : List Line} (h : Answered (n + 1) read out) :
      Answered (n + 1) ([] :: read) (.enterInput :: out)

/-- The tasks are played, when a task that waits needs so many inputs. -/
inductive Plays (needed : ℕ) : List Task → List (List Char) → List Line → Prop
  | ended : Plays needed [] [] [.gameEnd]
  | ran {task : Task} {tasks : List Task} {read : List (List Char)} {out : List Line}
      (htask : task.type.isServerMsg = false) (h : Plays needed tasks read out) :
      Plays needed (task :: tasks) read (.poppingTask task.id :: .ranTask task.id :: out)
  | told {task : Task} {tasks : List Task} {read : List (List Char)} {out : List Line}
      (htask : task.type.isServerMsg) (hwait : task.type ≠ .serverMsgWait)
      (h : Plays needed tasks read out) :
      Plays needed (task :: tasks) read (.poppingTask task.id :: out)
  | waited {task : Task} {tasks : List Task} {read read' : List (List Char)} {out out' : List Line}
      (hwait : task.type = .serverMsgWait) (hanswered : Answered needed read out)
      (h : Plays needed tasks read' out') :
      Plays needed (task :: tasks) (read ++ read') (.poppingTask task.id :: (out ++ out'))

/-- How many of the lines are inputs. -/
def inputs (lines : List (List Char)) : ℕ := lines.countP isInput

/-- How many of the tasks wait. -/
def waits (tasks : List Task) : ℕ := tasks.countP fun task => task.type = .serverMsgWait

/-- The tasks whose turn is printed. -/
def poppedIds (out : List Line) : List Int32 :=
  out.filterMap fun line => match line with
    | .poppingTask id => some id
    | _ => none

/-- The tasks that are printed to have run. -/
def ranIds (out : List Line) : List Int32 :=
  out.filterMap fun line => match line with
    | .ranTask id => some id
    | _ => none

namespace Answered

variable {n : ℕ} {read lines : List (List Char)} {out : List Line}

/-- Nothing else is printed than for inputs. -/
theorem out_quiet (h : Answered n read out) : poppedIds out = [] ∧ ranIds out = [] := by
  induction h with
  | done => exact ⟨rfl, rfl⟩
  | input _ _ ih => exact ih
  | malformed _ _ _ ih => exact ih
  | blank _ ih => exact ih

theorem inputs_eq (h : Answered n read out) : inputs read = n := by
  induction h with
  | done => rfl
  | input hline h ih => rw [inputs, List.countP_cons_of_pos hline, ← inputs, ih]
  | malformed hblank hline h ih =>
    rw [inputs, List.countP_cons_of_neg (by simpa using hline), ← inputs, ih]
  | blank h ih =>
    have hline : ¬ isInput [] := by decide
    rw [inputs, List.countP_cons_of_neg hline, ← inputs, ih]

/-- The last of the lines is needed. -/
theorem inputs_lt (h : Answered n read out) {begun rest : List (List Char)}
    (hbegun : read = begun ++ rest) (hrest : rest ≠ []) : inputs begun < n := by
  induction h generalizing begun with
  | done => exact absurd (List.append_eq_nil_iff.mp hbegun.symm).2 hrest
  | input hline h ih =>
    cases begun with
    | nil => exact Nat.succ_pos _
    | cons first begun =>
      obtain ⟨rfl, htail⟩ := List.cons.inj hbegun
      have hlt := ih htail
      rw [inputs, List.countP_cons_of_pos hline, ← inputs]
      omega
  | malformed hblank hline h ih =>
    cases begun with
    | nil => exact Nat.succ_pos _
    | cons first begun =>
      obtain ⟨rfl, htail⟩ := List.cons.inj hbegun
      rw [inputs, List.countP_cons_of_neg (by simpa using hline), ← inputs]
      exact ih htail
  | blank h ih =>
    cases begun with
    | nil => exact Nat.succ_pos _
    | cons first begun =>
      obtain ⟨rfl, htail⟩ := List.cons.inj hbegun
      have hline : ¬ isInput [] := by decide
      rw [inputs, List.countP_cons_of_neg hline, ← inputs]
      exact ih htail

/-- Enough inputs are found when there are as many. -/
theorem exists_of_le (h : n ≤ inputs lines) :
    ∃ read rest out, lines = read ++ rest ∧ Answered n read out := by
  induction lines generalizing n with
  | nil =>
    obtain rfl : n = 0 := Nat.le_zero.mp h
    exact ⟨[], [], [], rfl, done⟩
  | cons line lines ih =>
    cases n with
    | zero => exact ⟨[], line :: lines, [], rfl, done⟩
    | succ n =>
      by_cases hline : isInput line
      · rw [inputs, List.countP_cons_of_pos hline] at h
        obtain ⟨read, rest, out, rfl, hanswered⟩ := ih (Nat.le_of_succ_le_succ h)
        exact ⟨line :: read, rest, _, rfl, hanswered.input hline⟩
      · rw [inputs, List.countP_cons_of_neg hline] at h
        obtain ⟨read, rest, out, rfl, hanswered⟩ := ih h
        by_cases hblank : line = []
        · exact ⟨line :: read, rest, _, rfl, hblank ▸ hanswered.blank⟩
        · exact ⟨line :: read, rest, _, rfl, hanswered.malformed hblank (by simpa using hline)⟩

end Answered

namespace Plays

variable {needed : ℕ} {tasks : List Task} {read lines : List (List Char)} {out : List Line}

/-- Every task has its turn, in order, and those that are no messages run. -/
theorem out_tasks (h : Plays needed tasks read out) : poppedIds out = tasks.map Task.id ∧
    ranIds out = (tasks.filter fun task => !task.type.isServerMsg).map Task.id := by
  induction h with
  | ended => exact ⟨rfl, rfl⟩
  | @ran task tasks read out htask h ih =>
    rw [List.filter_cons_of_pos (by rw [htask]; rfl)]
    exact ⟨congrArg (task.id :: ·) ih.1, congrArg (task.id :: ·) ih.2⟩
  | @told task tasks read out htask hwait h ih =>
    rw [List.filter_cons_of_neg (by rw [htask]; decide)]
    exact ⟨congrArg (task.id :: ·) ih.1, ih.2⟩
  | @waited task tasks read read' out out' hwait hanswered h ih =>
    obtain ⟨hpopped, hran⟩ := hanswered.out_quiet
    have hpoppeds : poppedIds (out ++ out') = poppedIds out' := by
      rw [poppedIds, List.filterMap_append, ← poppedIds, hpopped, List.nil_append, ← poppedIds]
    have hrans : ranIds (out ++ out') = ranIds out' := by
      rw [ranIds, List.filterMap_append, ← ranIds, hran, List.nil_append, ← ranIds]
    rw [List.filter_cons_of_neg (by rw [hwait]; decide)]
    exact ⟨congrArg (task.id :: ·) (hpoppeds.trans ih.1), hrans.trans ih.2⟩

theorem waits_cons_of_ne {task : Task} (hwait : task.type ≠ .serverMsgWait) :
    waits (task :: tasks) = waits tasks := List.countP_cons_of_neg (by simpa using hwait)

theorem waits_cons_of_eq {task : Task} (hwait : task.type = .serverMsgWait) :
    waits (task :: tasks) = waits tasks + 1 := List.countP_cons_of_pos (by simpa using hwait)

theorem ne_wait_of_isServerMsg {task : Task} (htask : task.type.isServerMsg = false) :
    task.type ≠ .serverMsgWait := by
  intro hwait
  rw [hwait] at htask
  cases htask

/-- The inputs that are read are those that the tasks need. -/
theorem inputs_eq (h : Plays needed tasks read out) : inputs read = needed * waits tasks := by
  induction h with
  | ended => rfl
  | ran htask h ih => rw [ih, waits_cons_of_ne (ne_wait_of_isServerMsg htask)]
  | told htask hwait h ih => rw [ih, waits_cons_of_ne hwait]
  | waited hwait hanswered h ih =>
    rw [inputs, List.countP_append, ← inputs, ← inputs, ih, hanswered.inputs_eq,
      waits_cons_of_eq hwait, Nat.mul_succ, Nat.add_comm]

/-- No line is read that is not needed. -/
theorem inputs_lt (h : Plays needed tasks read out) {begun rest : List (List Char)}
    (hbegun : read = begun ++ rest) (hrest : rest ≠ []) :
    inputs begun < needed * waits tasks := by
  induction h generalizing begun with
  | ended => exact absurd (List.append_eq_nil_iff.mp hbegun.symm).2 hrest
  | ran htask h ih =>
    rw [waits_cons_of_ne (ne_wait_of_isServerMsg htask)]
    exact ih hbegun
  | told htask hwait h ih =>
    rw [waits_cons_of_ne hwait]
    exact ih hbegun
  | @waited task tasks read read' out out' hwait hanswered h ih =>
    rw [waits_cons_of_eq hwait, Nat.mul_succ]
    obtain ⟨more, hbegun', hread'⟩ | ⟨more, hread, hrest'⟩ := List.append_eq_append_iff.mp hbegun
    · -- all answers to the first task are there, and something of what comes later is not
      have hlater := ih hread'
      rw [hbegun', inputs, List.countP_append, ← inputs, ← inputs, hanswered.inputs_eq]
      omega
    · by_cases hmore : more = []
      · rw [hmore, List.append_nil] at hread
        rw [hmore] at hrest'
        have hread' : read' = [] ++ rest := hrest'.symm
        have hlater := ih hread'
        have hnone : inputs ([] : List (List Char)) = 0 := rfl
        rw [← hread, hanswered.inputs_eq]
        omega
      · have hfirst := hanswered.inputs_lt hread hmore
        omega

/-- There is a game when there is enough input for it. -/
theorem exists_of_le (h : needed * waits tasks ≤ inputs lines) :
    ∃ read rest out, lines = read ++ rest ∧ Plays needed tasks read out := by
  induction tasks generalizing lines with
  | nil => exact ⟨[], lines, _, rfl, ended⟩
  | cons task tasks ih =>
    by_cases hwait : task.type = .serverMsgWait
    · rw [waits_cons_of_eq hwait, Nat.mul_succ] at h
      have hfirst : needed ≤ inputs lines := by omega
      obtain ⟨read, rest, out, rfl, hanswered⟩ := Answered.exists_of_le hfirst
      rw [inputs, List.countP_append, ← inputs, ← inputs, hanswered.inputs_eq] at h
      have hlater : needed * waits tasks ≤ inputs rest := by omega
      obtain ⟨read', rest', out', rfl, hplays⟩ := ih hlater
      exact ⟨read ++ read', rest', _, (List.append_assoc _ _ _).symm,
        hplays.waited hwait hanswered⟩
    · rw [waits_cons_of_ne hwait] at h
      obtain ⟨read, rest, out, rfl, hplays⟩ := ih h
      cases htask : task.type.isServerMsg with
      | true => exact ⟨read, rest, _, rfl, hplays.told htask hwait⟩
      | false => exact ⟨read, rest, _, rfl, hplays.ran htask⟩

end Plays

/-! ### Games that are being played -/

namespace Process

variable (s : Process)

/-- The tasks whose turn is still to come. -/
def tasks : List Task := s.manager.game.taskQ

/-- The inputs that a task that waits needs. -/
def needed : ℕ := s.manager.neededInputCount.toInt.toNat

/-- The inputs that the last task still needs. -/
def awaited : ℕ :=
  if s.manager.isInactive then s.needed - s.manager.inputCount.toInt.toNat else 0

/-- The inputs that are still needed. -/
def owed : ℕ := s.awaited + s.needed * waits s.tasks

/-- The count of the inputs is below what is needed. -/
structure Kept : Prop where
  nonneg : 0 ≤ s.manager.inputCount.toInt
  lt : s.manager.inputCount.toInt < s.manager.neededInputCount.toInt
  active : s.manager.isInactive = false → s.manager.inputCount = 0

/-- The rest of a game. -/
def PlaysOn (read : List (List Char)) (out : List Line) : Prop :=
  ∃ begun begunOut rest restOut, read = begun ++ rest ∧ out = begunOut ++ restOut ∧
    Answered s.awaited begun begunOut ∧ Plays s.needed s.tasks rest restOut

/-- The lines have been read, and these printed, and what plays on in the one state was the end of
what plays on in the other. -/
structure Advances (s s' : Process) (read : List (List Char)) (out : List Line) : Prop where
  lines : s.stdin = read ++ s'.stdin
  printed : s'.stdout = s.stdout ++ out
  owes : inputs read + s'.owed = s.owed
  plays : ∀ read' out', s'.PlaysOn read' out' → s.PlaysOn (read ++ read') (out ++ out')
  size : s'.tasks.length ≤ s.tasks.length
  kept : s'.Kept

variable {s}

theorem Advances.refl (h : s.Kept) : s.Advances s [] [] where
  lines := rfl
  printed := (List.append_nil _).symm
  owes := Nat.zero_add _
  plays _ _ hplays := hplays
  size := le_rfl
  kept := h

theorem Advances.trans {s' s'' : Process} {read read' : List (List Char)} {out out' : List Line}
    (h : s.Advances s' read out) (h' : s'.Advances s'' read' out') :
    s.Advances s'' (read ++ read') (out ++ out') where
  lines := by rw [h.lines, h'.lines, List.append_assoc]
  printed := by rw [h'.printed, h.printed, List.append_assoc]
  owes := by
    have howes := h.owes
    have howes' := h'.owes
    rw [inputs, List.countP_append, ← inputs, ← inputs]
    omega
  plays read'' out'' hplays := by
    rw [List.append_assoc, List.append_assoc]
    exact h.plays _ _ (h'.plays _ _ hplays)
  size := h'.size.trans h.size
  kept := h'.kept

/-- Nobody is waited for. -/
theorem awaited_of_active (h : s.manager.isInactive = false) : s.awaited = 0 := by
  rw [awaited, h]
  rfl

/-- Somebody is. -/
theorem awaited_of_inactive (h : s.manager.isInactive = true) :
    s.awaited = s.needed - s.manager.inputCount.toInt.toNat := by
  rw [awaited, h]
  rfl

/-- The rest of a game in which nobody is waited for. -/
theorem playsOn_of_active (h : s.manager.isInactive = false) {read : List (List Char)}
    {out : List Line} : s.PlaysOn read out ↔ Plays s.needed s.tasks read out := by
  rw [PlaysOn, awaited_of_active h]
  constructor
  · rintro ⟨begun, begunOut, rest, restOut, rfl, rfl, hanswered, hplays⟩
    cases hanswered
    exact hplays
  · intro hplays
    exact ⟨[], [], read, out, rfl, rfl, Answered.done, hplays⟩

end Process

/-! ### What the functions do -/

/-- The next task has its turn. -/
def Process.pop (task : Task) (rest : List Task) (s : Process) : Process :=
  { s with
    manager := { s.manager with game := { taskQ := rest } }
    stdout := s.stdout ++ [.poppingTask task.id] }

theorem getTask_nil {s : Process} (h : s.tasks = []) : getTask.run s = .ok none s := by
  obtain ⟨⟨⟨taskQ⟩, inputCount, neededInputCount, isInactive⟩, stdin, stdout⟩ := s
  obtain rfl : taskQ = [] := h
  rfl

theorem getTask_cons {s : Process} {task : Task} {rest : List Task} (h : s.tasks = task :: rest) :
    getTask.run s = .ok (some task) (s.pop task rest) := by
  obtain ⟨⟨⟨taskQ⟩, inputCount, neededInputCount, isInactive⟩, stdin, stdout⟩ := s
  obtain rfl : taskQ = task :: rest := h
  rfl

/-- A line is printed. -/
def Process.say (line : Line) (s : Process) : Process := { s with stdout := s.stdout ++ [line] }

/-- The game is put where it waits, or where it does not. -/
def Process.setInactive (isInactive : Bool) (s : Process) : Process :=
  { s with manager := { s.manager with isInactive } }

section

variable {s : Process} {task : Task} {rest : List Task} (i : ℕ)

theorem processTasks_nil (h : s.tasks = []) :
    (processTasks (i + 1)).run s = .ok { exit := true } (s.say .gameEnd) := by
  rw [processTasks, EStateM.run_bind, getTask_nil h]
  rfl

theorem processTasks_ran (h : s.tasks = task :: rest) (htask : task.type.isServerMsg = false) :
    (processTasks (i + 1)).run s
      = (processTasks i).run ((s.pop task rest).say (.ranTask task.id)) := by
  rw [processTasks, EStateM.run_bind, getTask_cons h]
  show (if task.type.isServerMsg then _ else _ : Loop Processed).run _ = _
  rw [htask]
  rfl

theorem processTasks_told (h : s.tasks = task :: rest) (htask : task.type.isServerMsg)
    (hwait : task.type ≠ .serverMsgWait) :
    (processTasks (i + 1)).run s = (processTasks i).run (s.pop task rest) := by
  rw [processTasks, EStateM.run_bind, getTask_cons h]
  show (if task.type.isServerMsg then _ else _ : Loop Processed).run _ = _
  rw [if_pos htask, if_neg hwait]

theorem processTasks_waited (h : s.tasks = task :: rest) (hwait : task.type = .serverMsgWait) :
    (processTasks (i + 1)).run s
      = .ok { dontPushActive := true } ((s.pop task rest).setInactive true) := by
  rw [processTasks, EStateM.run_bind, getTask_cons h]
  show (if task.type.isServerMsg then _ else _ : Loop Processed).run _ = _
  rw [hwait]
  rfl

end

/-! ### What a turn advances -/

section

variable {s : Process} {task : Task} {rest : List Task}

/-- A task runs. -/
theorem advances_ran (hk : s.Kept) (hactive : s.manager.isInactive = false)
    (h : s.tasks = task :: rest) (htask : task.type.isServerMsg = false) :
    s.Advances ((s.pop task rest).say (.ranTask task.id)) []
      [.poppingTask task.id, .ranTask task.id] where
  lines := rfl
  printed := List.append_assoc _ _ _
  owes := by
    have hwaits : waits s.tasks = waits rest := by
      rw [h, Plays.waits_cons_of_ne (Plays.ne_wait_of_isServerMsg htask)]
    rw [Process.owed, Process.owed, hwaits]
    exact Nat.zero_add _
  plays read out hplays := by
    have hactive' : ((s.pop task rest).say (.ranTask task.id)).manager.isInactive = false := hactive
    rw [Process.playsOn_of_active hactive'] at hplays
    rw [Process.playsOn_of_active hactive, h]
    exact hplays.ran htask
  size := by
    rw [h]
    exact Nat.le_succ _
  kept := ⟨hk.nonneg, hk.lt, hk.active⟩

/-- A message is sent. -/
theorem advances_told (hk : s.Kept) (hactive : s.manager.isInactive = false)
    (h : s.tasks = task :: rest) (htask : task.type.isServerMsg)
    (hwait : task.type ≠ .serverMsgWait) :
    s.Advances (s.pop task rest) [] [.poppingTask task.id] where
  lines := rfl
  printed := rfl
  owes := by
    have hwaits : waits s.tasks = waits rest := by rw [h, Plays.waits_cons_of_ne hwait]
    rw [Process.owed, Process.owed, hwaits]
    exact Nat.zero_add _
  plays read out hplays := by
    have hactive' : (s.pop task rest).manager.isInactive = false := hactive
    rw [Process.playsOn_of_active hactive'] at hplays
    rw [Process.playsOn_of_active hactive, h]
    exact hplays.told htask hwait
  size := by
    rw [h]
    exact Nat.le_succ _
  kept := ⟨hk.nonneg, hk.lt, hk.active⟩

/-- The game waits. -/
theorem advances_waited (hk : s.Kept) (hactive : s.manager.isInactive = false)
    (h : s.tasks = task :: rest) (hwait : task.type = .serverMsgWait) :
    s.Advances ((s.pop task rest).setInactive true) [] [.poppingTask task.id] := by
  have hawaited : ((s.pop task rest).setInactive true).awaited = s.needed := by
    have hzero : s.manager.inputCount = 0 := hk.active hactive
    rw [Process.awaited_of_inactive rfl]
    show s.needed - s.manager.inputCount.toInt.toNat = s.needed
    rw [hzero]
    exact Nat.sub_zero _
  refine ⟨rfl, rfl, ?_, ?_, ?_, ⟨hk.nonneg, hk.lt, fun hfalse => nomatch hfalse⟩⟩
  · have hwaits : waits s.tasks = waits rest + 1 := by rw [h, Plays.waits_cons_of_eq hwait]
    rw [Process.owed, Process.owed, hawaited, Process.awaited_of_active hactive, hwaits,
      Nat.mul_succ]
    show 0 + (s.needed + s.needed * waits rest) = _
    omega
  · rintro read out ⟨begun, begunOut, later, laterOut, rfl, rfl, hanswered, hplays⟩
    rw [hawaited] at hanswered
    rw [Process.playsOn_of_active hactive, h]
    show Plays s.needed (task :: rest) (begun ++ later) (_ :: (begunOut ++ laterOut))
    exact hplays.waited hwait hanswered
  · rw [h]
    exact Nat.le_succ _

end

/-- **What the tasks of a round do**: the game ends, or it has advanced, possibly to where it
waits. -/
theorem processTasks_cases (n : ℕ) {s : Process} (hk : s.Kept)
    (hactive : s.manager.isInactive = false) :
    (∃ s' out, (processTasks n).run s = .ok { exit := true } s' ∧ s'.stdin = s.stdin ∧
      s'.stdout = s.stdout ++ out ∧ s'.manager.isInactive = false ∧
      Plays s.needed s.tasks [] out) ∨
    ∃ s' out, (processTasks n).run s = .ok { dontPushActive := s'.manager.isInactive } s' ∧
      s.Advances s' [] out ∧ (0 < n → s'.tasks.length < s.tasks.length) := by
  induction n generalizing s with
  | zero =>
    refine Or.inr ⟨s, [], ?_, Process.Advances.refl hk, fun hpos => absurd hpos (lt_irrefl _)⟩
    rw [hactive]
    rfl
  | succ i ih =>
    cases h : s.tasks with
    | nil =>
      exact Or.inl ⟨_, [.gameEnd], processTasks_nil i h, rfl, rfl, hactive, Plays.ended⟩
    | cons task rest =>
      have hlength : ∀ {s' : Process}, s'.tasks.length ≤ rest.length →
          s'.tasks.length < (task :: rest).length := fun hle => Nat.lt_succ_of_le hle
      by_cases hwait : task.type = .serverMsgWait
      · refine Or.inr ⟨_, _, processTasks_waited i h hwait, advances_waited hk hactive h hwait,
          fun _ => hlength le_rfl⟩
      · cases htask : task.type.isServerMsg with
        | false =>
          have hadvances := advances_ran hk hactive h htask
          rw [processTasks_ran i h htask]
          obtain ⟨s', out, hrun, hstdin, hstdout, hactive', hplays⟩ | ⟨s', out, hrun, hrest, -⟩ :=
            ih hadvances.kept hactive
          · have hran : Plays s.needed (task :: rest) []
                ([.poppingTask task.id, .ranTask task.id] ++ out) := Plays.ran htask hplays
            refine Or.inl ⟨s', _, hrun, hstdin, ?_, hactive', hran⟩
            rw [hstdout, hadvances.printed, List.append_assoc]
          · exact Or.inr ⟨s', _, hrun, hadvances.trans hrest, fun _ => hlength hrest.size⟩
        | true =>
          have hadvances := advances_told hk hactive h htask hwait
          rw [processTasks_told i h htask hwait]
          obtain ⟨s', out, hrun, hstdin, hstdout, hactive', hplays⟩ | ⟨s', out, hrun, hrest, -⟩ :=
            ih hadvances.kept hactive
          · have htold : Plays s.needed (task :: rest) [] ([.poppingTask task.id] ++ out) :=
              Plays.told htask hwait hplays
            refine Or.inl ⟨s', _, hrun, hstdin, ?_, hactive', htold⟩
            rw [hstdout, hadvances.printed, List.append_assoc]
          · exact Or.inr ⟨s', _, hrun, hadvances.trans hrest, fun _ => hlength hrest.size⟩

/-! ### What an input advances -/

/-- An input is counted. -/
def GameInstanceManager.count (m : GameInstanceManager) : GameInstanceManager :=
  if m.neededInputCount ≤ m.inputCount + 1 then { m with isInactive := false, inputCount := 0 }
  else { m with inputCount := m.inputCount + 1 }

theorem playerInput_run (id : Int32) (key input : List Char) (m : GameInstanceManager) :
    (playerInput id key input).run m =
      if m.inputCount = Int32.maxValue then .error (.undefined .signedOverflow) m
      else .ok () m.count := by
  rw [playerInput, EStateM.run_bind, EStateM.run_get]
  by_cases hmax : m.inputCount = Int32.maxValue
  · simp [hmax]
  · by_cases hle : m.neededInputCount ≤ m.inputCount + 1
    · simp [hmax, hle, GameInstanceManager.count, GameInstance.setPlayerVar]
    · simp [hmax, hle, GameInstanceManager.count, GameInstance.setPlayerVar]

/-- A line is asked for and read. -/
def Process.readLine (rest : List (List Char)) (s : Process) : Process :=
  { s with stdin := rest, stdout := s.stdout ++ [.enterInput] }

/-- The manager has counted. -/
def Process.count (s : Process) : Process := { s with manager := s.manager.count }

section

variable {s : Process} {line : List Char} {rest : List (List Char)}

/-- The count is below the end of its type. -/
theorem Process.Kept.inputCount_ne (hk : s.Kept) : s.manager.inputCount ≠ Int32.maxValue := by
  intro heq
  have hlt := hk.lt
  have hle : s.manager.neededInputCount.toInt ≤ Int32.maxValue.toInt :=
    s.manager.neededInputCount.toInt_le
  rw [heq] at hlt
  omega

/-- One input less is waited for. -/
theorem Process.Kept.count (hk : s.Kept) (hinactive : s.manager.isInactive = true) :
    s.count.Kept ∧ s.count.awaited + 1 = s.awaited ∧ s.count.needed = s.needed ∧
      s.count.tasks = s.tasks := by
  have hsucc := toInt_add_one hk.inputCount_ne
  have hnonneg := hk.nonneg
  have hlt := hk.lt
  have hzero : (0 : Int32).toInt = 0 := rfl
  by_cases hle : s.manager.neededInputCount ≤ s.manager.inputCount + 1
  · have hcount : s.count = { s with
        manager := { s.manager with isInactive := false, inputCount := 0 } } := by
      rw [Process.count, GameInstanceManager.count, if_pos hle]
    have hle' := Int32.le_iff_toInt_le.mp hle
    rw [hcount]
    refine ⟨⟨Int.le_of_eq hzero.symm, ?_, fun _ => rfl⟩, ?_, rfl, rfl⟩
    · show (0 : Int32).toInt < s.manager.neededInputCount.toInt
      omega
    · rw [awaited_of_active rfl, awaited_of_inactive hinactive, needed]
      omega
  · have hcount : s.count = { s with
        manager := { s.manager with inputCount := s.manager.inputCount + 1 } } := by
      rw [Process.count, GameInstanceManager.count, if_neg hle]
    have hlt' : (s.manager.inputCount + 1).toInt < s.manager.neededInputCount.toInt :=
      Int.not_le.mp fun hle' => hle (Int32.le_iff_toInt_le.mpr hle')
    have hinactive' : s.count.manager.isInactive = true := by
      rw [hcount]
      exact hinactive
    have hawaited : s.count.awaited + 1 = s.awaited := by
      rw [awaited_of_inactive hinactive', awaited_of_inactive hinactive, hcount]
      show s.needed - (s.manager.inputCount + 1).toInt.toNat + 1 = _
      rw [needed, hsucc]
      omega
    refine ⟨⟨?_, ?_, fun hfalse => ?_⟩, hawaited, ?_, ?_⟩
    · rw [hcount]
      show 0 ≤ (s.manager.inputCount + 1).toInt
      omega
    · rw [hcount]
      exact hlt'
    · rw [hinactive'] at hfalse
      cases hfalse
    · rw [hcount]
      rfl
    · rw [hcount]
      rfl

theorem Process.Kept.awaited_pos (hk : s.Kept) (hinactive : s.manager.isInactive = true) :
    0 < s.awaited := by
  have hcount := (hk.count hinactive).2.1
  omega

/-- An empty line is read. -/
theorem advances_blank (hk : s.Kept) (hinactive : s.manager.isInactive = true)
    (h : s.stdin = [] :: rest) : s.Advances (s.readLine rest) [[]] [.enterInput] where
  lines := h
  printed := rfl
  owes := by
    have hnone : inputs [[]] = 0 := by decide
    rw [hnone, Nat.zero_add]
    rfl
  plays read out hplays := by
    obtain ⟨begun, begunOut, later, laterOut, rfl, rfl, hanswered, hplays⟩ := hplays
    have hawaited : (s.readLine rest).awaited = s.awaited := rfl
    obtain ⟨n, hn⟩ := Nat.exists_eq_add_of_lt (hk.awaited_pos hinactive)
    rw [hawaited, hn, Nat.zero_add] at hanswered
    refine ⟨[] :: begun, .enterInput :: begunOut, later, laterOut, rfl, rfl, ?_, hplays⟩
    rw [hn, Nat.zero_add]
    exact hanswered.blank
  size := le_rfl
  kept := ⟨hk.nonneg, hk.lt, hk.active⟩

/-- A line is read that is no input. -/
theorem advances_malformed (hk : s.Kept) (hinactive : s.manager.isInactive = true)
    (h : s.stdin = line :: rest) (hblank : line ≠ []) (hline : isInput line = false) :
    s.Advances ((s.readLine rest).say .malformedMessage) [line]
      [.enterInput, .malformedMessage] where
  lines := h
  printed := List.append_assoc _ _ _
  owes := by
    have hnone : inputs [line] = 0 := List.countP_eq_zero.mpr (by simpa using hline)
    rw [hnone, Nat.zero_add]
    rfl
  plays read out hplays := by
    obtain ⟨begun, begunOut, later, laterOut, rfl, rfl, hanswered, hplays⟩ := hplays
    have hawaited : ((s.readLine rest).say .malformedMessage).awaited = s.awaited := rfl
    obtain ⟨n, hn⟩ := Nat.exists_eq_add_of_lt (hk.awaited_pos hinactive)
    rw [hawaited, hn, Nat.zero_add] at hanswered
    refine ⟨line :: begun, .enterInput :: .malformedMessage :: begunOut, later, laterOut, rfl, rfl,
      ?_, hplays⟩
    rw [hn, Nat.zero_add]
    exact hanswered.malformed hblank hline
  size := le_rfl
  kept := ⟨hk.nonneg, hk.lt, hk.active⟩

/-- An input is read. -/
theorem advances_input (hk : s.Kept) (hinactive : s.manager.isInactive = true)
    (h : s.stdin = line :: rest) (hline : isInput line) :
    s.Advances (s.readLine rest).count [line] [.enterInput] := by
  have hread : (s.readLine rest).Kept := ⟨hk.nonneg, hk.lt, hk.active⟩
  obtain ⟨hkept, hawaited, hneeded, htasks⟩ := hread.count hinactive
  have hawaited' : (s.readLine rest).count.awaited + 1 = s.awaited := hawaited
  refine ⟨h, rfl, ?_, ?_, le_of_eq (congrArg List.length htasks), hkept⟩
  · have hone : inputs [line] = 1 := by rw [inputs, List.countP_cons_of_pos hline]; rfl
    rw [hone, Process.owed, Process.owed, hneeded, htasks, ← hawaited']
    show 1 + (_ + s.needed * waits s.tasks) = _
    omega
  · rintro read out ⟨begun, begunOut, later, laterOut, rfl, rfl, hanswered, hplays⟩
    rw [hneeded, htasks] at hplays
    refine ⟨line :: begun, .enterInput :: begunOut, later, laterOut, rfl, rfl, ?_, hplays⟩
    rw [← hawaited']
    exact hanswered.input hline

end

/-! ### Rounds -/

/-- A line is asked for, and another one if it is empty. -/
theorem getInput_cons (s : Process) (line : List Char) (rest : List (List Char)) :
    (getInput (line :: rest)).run s =
      (if line = [] then getInput rest else pure line).run (s.readLine rest) := rfl

theorem handleInput_of_isInput {s : Process} (hk : s.Kept) {line : List Char}
    (hline : isInput line) : (handleInput line).run s = .ok () s.count := by
  obtain ⟨⟨id, key, value⟩, hparse⟩ := Option.isSome_iff_exists.mp hline
  rw [handleInput, hparse]
  show (onManager (playerInput id key value)).run s = _
  rw [onManager, Prog.run_zoom, playerInput_run, if_neg hk.inputCount_ne]
  rfl

theorem handleInput_of_malformed {s : Process} {line : List Char} (hline : isInput line = false) :
    (handleInput line).run s = .ok () (s.say .malformedMessage) := by
  have hparse : parseInput line = none := by simpa [isInput] using hline
  rw [handleInput, hparse]
  rfl

/-- **What is read in a round**: lines up to one that is not empty, or all of them. -/
theorem getInput_cases (lines : List (List Char)) {s : Process} (hk : s.Kept)
    (hinactive : s.manager.isInactive = true) (h : s.stdin = lines) :
    (∃ s' read out, (getInput lines >>= handleInput).run s = .ok () s' ∧ s.Advances s' read out ∧
      read ≠ []) ∨
    ∃ s', (getInput lines >>= handleInput).run s = .error .diverged s' ∧ s'.stdin = [] ∧
      inputs lines = 0 := by
  induction lines generalizing s with
  | nil => exact Or.inr ⟨s.say .enterInput, rfl, h, rfl⟩
  | cons line rest ih =>
    by_cases hblank : line = []
    · have hblanks : s.stdin = [] :: rest := hblank ▸ h
      have hadvances := advances_blank hk hinactive hblanks
      have hrun : (getInput (line :: rest) >>= handleInput).run s
          = (getInput rest >>= handleInput).run (s.readLine rest) := by
        rw [EStateM.run_bind, getInput_cons, if_pos hblank, ← EStateM.run_bind]
      have hnone : inputs (line :: rest) = inputs rest := by
        rw [hblank, inputs, List.countP_cons_of_neg (by decide), ← inputs]
      rw [hrun, hnone]
      obtain ⟨s', read, out, hok, hrest, -⟩ | hdiverged := ih hadvances.kept hinactive rfl
      · exact Or.inl ⟨s', _, _, hok, hadvances.trans hrest, List.cons_ne_nil _ _⟩
      · exact Or.inr hdiverged
    · have hrun : (getInput (line :: rest) >>= handleInput).run s
          = (handleInput line).run (s.readLine rest) := by
        rw [EStateM.run_bind, getInput_cons, if_neg hblank]
        rfl
      rw [hrun]
      cases hline : isInput line with
      | true =>
        have hadvances := advances_input hk hinactive h hline
        have hread : (s.readLine rest).Kept := ⟨hk.nonneg, hk.lt, hk.active⟩
        exact Or.inl ⟨_, _, _, handleInput_of_isInput hread hline, hadvances,
          List.cons_ne_nil _ _⟩
      | false =>
        exact Or.inl ⟨_, _, _, handleInput_of_malformed hline,
          advances_malformed hk hinactive h hblank hline, List.cons_ne_nil _ _⟩

/-- The tasks and the lines that are left. -/
def Process.size (s : Process) : ℕ := s.tasks.length + s.stdin.length

theorem Process.Advances.size_le {s s' : Process} {read : List (List Char)} {out : List Line}
    (h : s.Advances s' read out) : s'.size + read.length ≤ s.size := by
  have htasks := h.size
  have hlines := congrArg List.length h.lines
  rw [List.length_append] at hlines
  rw [Process.size, Process.size]
  omega

/-- What the first part of a round leaves to the second. -/
theorem processGame_of_inactive (n : ℕ) {s : Process} (h : s.manager.isInactive = true) :
    (processGame n).run s = .ok false s := by
  rw [processGame, EStateM.run_bind, EStateM.run_get]
  show (if s.manager.isInactive = true then _ else _ : Loop Bool).run s = _
  rw [if_pos h]
  rfl

theorem processGame_of_active (n : ℕ) {s s' : Process} {processed : Processed}
    (h : s.manager.isInactive = false) (hrun : (processTasks n).run s = .ok processed s') :
    (processGame n).run s = .ok processed.exit
      (if processed.dontPushActive then s' else s'.setInactive false) := by
  rw [processGame, EStateM.run_bind, EStateM.run_get]
  show (if s.manager.isInactive = true then _ else _ : Loop Bool).run s = _
  rw [h, if_neg Bool.false_ne_true, EStateM.run_bind, hrun]
  cases hpush : processed.dontPushActive with
  | true => simp [hpush]
  | false =>
    simp only [hpush, Bool.false_eq_true, if_false]
    rfl

theorem round_of_processGame (n : ℕ) {s s' : Process} {exit : Bool}
    (hrun : (processGame n).run s = .ok exit s') : (round n).run s =
      (if s'.manager.isInactive && !exit then
        getInput s'.stdin >>= handleInput >>= fun _ => pure exit else pure exit).run s' := by
  rw [round, EStateM.run_bind, hrun]
  show (if s'.manager.isInactive && !exit then _ else _ : Loop Bool).run s' = _
  split
  · rw [bind_assoc]
    rfl
  · rfl

/-- **What a round does**, when some task may be processed: the game is over, it has advanced, or
there is not enough input. -/
theorem round_cases {n : ℕ} (hn : 0 < n) {s : Process} (hk : s.Kept) :
    (∃ s' out, (round n).run s = .ok true s' ∧ s'.stdin = s.stdin ∧ s'.stdout = s.stdout ++ out ∧
      s.PlaysOn [] out) ∨
    (∃ s' read out, (round n).run s = .ok false s' ∧ s.Advances s' read out ∧ s'.size < s.size) ∨
    ∃ s', (round n).run s = .error .diverged s' ∧ s'.stdin = [] ∧ inputs s.stdin < s.owed := by
  -- the second part of a round, after a first one that leaves the game where it waits
  have hsecond : ∀ {t : Process} {out : List Line}, (processGame n).run s = .ok false t →
      s.Advances t [] out → t.manager.isInactive = true →
      (∃ s' read out, (round n).run s = .ok false s' ∧ s.Advances s' read out ∧
        s'.size < s.size) ∨
      ∃ s', (round n).run s = .error .diverged s' ∧ s'.stdin = [] ∧ inputs s.stdin < s.owed := by
    intro t out hrun hadvances hinactive
    have hround : (round n).run s
        = (getInput t.stdin >>= handleInput >>= fun _ => pure false).run t := by
      rw [round_of_processGame n hrun, hinactive]
      rfl
    rw [hround, EStateM.run_bind]
    obtain ⟨s', read, out', hok, hrest, hread⟩ | ⟨s', hdiverged, hstdin, hnone⟩ :=
      getInput_cases t.stdin hadvances.kept hinactive rfl
    · have htotal := hadvances.trans hrest
      have hsize := htotal.size_le
      have hpos : 0 < read.length := List.length_pos_of_ne_nil hread
      rw [List.nil_append] at hsize
      refine Or.inl ⟨s', _, _, ?_, htotal, by omega⟩
      rw [hok]
      exact EStateM.run_pure false s'
    · refine Or.inr ⟨s', ?_, hstdin, ?_⟩
      · rw [hdiverged]
      · have howes := hadvances.owes
        have hpos := hadvances.kept.awaited_pos hinactive
        have hlines : s.stdin = t.stdin := hadvances.lines
        have hle : t.awaited ≤ t.owed := Nat.le_add_right _ _
        have hzero : inputs ([] : List (List Char)) = 0 := rfl
        rw [hlines, hnone]
        omega
  cases hactive : s.manager.isInactive with
  | true =>
    exact Or.inr (hsecond (processGame_of_inactive n hactive) (Process.Advances.refl hk) hactive)
  | false =>
    obtain ⟨s', out, hrun, hstdin, hstdout, hactive', hplays⟩ | ⟨s', out, hrun, hadvances, hsize⟩ :=
      processTasks_cases n hk hactive
    · have hgame := processGame_of_active n hactive hrun
      refine Or.inl ⟨s'.setInactive false, out, ?_, hstdin, hstdout,
        (Process.playsOn_of_active hactive).mpr hplays⟩
      rw [round_of_processGame n hgame]
      rfl
    · have hgame := processGame_of_active n hactive hrun
      cases hactive' : s'.manager.isInactive with
      | true =>
        rw [hactive'] at hgame
        exact Or.inr (hsecond hgame hadvances hactive')
      | false =>
        have hsame : s'.setInactive false = s' := by rw [Process.setInactive, ← hactive']
        rw [hactive', if_neg Bool.false_ne_true, hsame] at hgame
        have hlines := congrArg List.length hadvances.lines
        rw [List.nil_append] at hlines
        have hless : s'.size < s.size := by
          have htasks := hsize hn
          rw [Process.size, Process.size]
          omega
        refine Or.inr (Or.inl ⟨s', [], out, ?_, hadvances, hless⟩)
        rw [round_of_processGame n hgame, hactive']
        rfl

/-! ### The loop -/

/-- **What the loop does**: it plays the game to its end, or it waits for input that does not come,
or it needs more rounds. -/
theorem eventLoop_cases {n : ℕ} (hn : 0 < n) (rounds : ℕ) {s : Process} (hk : s.Kept) :
    (∃ s' read out, (eventLoop n rounds).run s = .ok true s' ∧ s.stdin = read ++ s'.stdin ∧
      s'.stdout = s.stdout ++ out ∧ s.PlaysOn read out) ∨
    (∃ s', (eventLoop n rounds).run s = .error .diverged s' ∧ s'.stdin = [] ∧
      inputs s.stdin < s.owed) ∨
    (∃ s', (eventLoop n rounds).run s = .ok false s') ∧ rounds ≤ s.size := by
  induction rounds generalizing s with
  | zero => exact Or.inr (Or.inr ⟨⟨s, rfl⟩, Nat.zero_le _⟩)
  | succ rounds ih =>
    obtain ⟨s', out, hrun, hstdin, hstdout, hplays⟩ | ⟨t, read, out, hrun, hadvances, hsize⟩ |
      ⟨s', hrun, hstdin, hless⟩ := round_cases hn hk
    · have hloop : (eventLoop n (rounds + 1)).run s = .ok true s' := by
        rw [eventLoop, EStateM.run_bind, hrun]
        exact EStateM.run_pure true s'
      exact Or.inl ⟨s', [], out, hloop, hstdin.symm, hstdout, hplays⟩
    · have hloop : (eventLoop n (rounds + 1)).run s = (eventLoop n rounds).run t := by
        rw [eventLoop, EStateM.run_bind, hrun]
        exact congrArg (fun x : Loop Bool => x.run t) (if_neg Bool.false_ne_true)
      rw [hloop]
      obtain ⟨s', read', out', hok, hstdin, hstdout, hplays⟩ | ⟨s', hdiverged, hstdin, hless⟩ |
        ⟨hmore, hle⟩ := ih hadvances.kept
      · refine Or.inl ⟨s', read ++ read', out ++ out', hok, ?_, ?_, hadvances.plays _ _ hplays⟩
        · rw [hadvances.lines, hstdin, List.append_assoc]
        · rw [hstdout, hadvances.printed, List.append_assoc]
      · have howes := hadvances.owes
        refine Or.inr (Or.inl ⟨s', hdiverged, hstdin, ?_⟩)
        rw [hadvances.lines, inputs, List.countP_append, ← inputs, ← inputs]
        omega
      · exact Or.inr (Or.inr ⟨hmore, by omega⟩)
    · have hloop : (eventLoop n (rounds + 1)).run s = .error .diverged s' := by
        rw [eventLoop, EStateM.run_bind, hrun]
      exact Or.inr (Or.inl ⟨s', hloop, hstdin, hless⟩)

/-- The process is kept when it is started. -/
theorem kept_new (taskQ : List Task) (stdin : List (List Char)) :
    (Process.new taskQ stdin).Kept where
  nonneg := Int.le_refl 0
  lt := by
    show (0 : Int32).toInt < (5 : Int32).toInt
    decide
  active _ := rfl

/-- **How a game is played.** When there are enough inputs for the tasks that wait, the loop ends:
every task has had its turn in the order of the queue, those that are no messages to the server have
run, and no line has been read that was not needed. Otherwise the loop waits forever for input,
with all lines read. -/
theorem eventLoop_plays {n : ℕ} (hn : 0 < n) (taskQ : List Task) (stdin : List (List Char))
    {rounds : ℕ} (hrounds : taskQ.length + stdin.length < rounds) :
    if 5 * waits taskQ ≤ inputs stdin then
      ∃ s' read, (eventLoop n rounds).run (Process.new taskQ stdin) = .ok true s' ∧
        stdin = read ++ s'.stdin ∧ Plays 5 taskQ read s'.stdout ∧
        poppedIds s'.stdout = taskQ.map Task.id ∧
        ranIds s'.stdout = (taskQ.filter fun task => !task.type.isServerMsg).map Task.id ∧
        inputs read = 5 * waits taskQ ∧
        ∀ begun rest, read = begun ++ rest → rest ≠ [] → inputs begun < 5 * waits taskQ
    else ∃ s', (eventLoop n rounds).run (Process.new taskQ stdin) = .error .diverged s' ∧
      s'.stdin = [] := by
  have howed : (Process.new taskQ stdin).owed = 5 * waits taskQ := Nat.zero_add _
  obtain ⟨s', read, out, hok, hstdin, hstdout, hplays⟩ | ⟨s', hdiverged, hstdin, hless⟩ |
    ⟨-, hle⟩ := eventLoop_cases hn rounds (kept_new taskQ stdin)
  · rw [Process.playsOn_of_active rfl] at hplays
    have hplayed : Plays 5 taskQ read out := hplays
    have hread := hplayed.inputs_eq
    have hlines : stdin = read ++ s'.stdin := hstdin
    have hprinted : s'.stdout = out := hstdout
    have henough : 5 * waits taskQ ≤ inputs stdin := by
      rw [hlines, inputs, List.countP_append, ← inputs, hread]
      exact Nat.le_add_right _ _
    rw [if_pos henough]
    refine ⟨s', read, hok, hlines, ?_, ?_, ?_, hread, fun begun rest hbegun hrest =>
      hplayed.inputs_lt hbegun hrest⟩
    · rw [hprinted]
      exact hplayed
    · rw [hprinted, hplayed.out_tasks.1]
    · rw [hprinted, hplayed.out_tasks.2]
  · have hfew : inputs stdin < 5 * waits taskQ := howed ▸ hless
    rw [if_neg (Nat.not_le.mpr hfew)]
    exact ⟨s', hdiverged, hstdin⟩
  · exact absurd hrounds (Nat.not_lt.mpr hle)

/-- The game of the program is played when there are five inputs, and not before. -/
theorem eventLoop_plays_new : ∃ s', (main 23).run (Process.new GameInstance.new.taskQ
    (List.replicate 5 "player:2 key:a value:b".toList)) = .ok true s' := by
  have hplays := eventLoop_plays Nat.one_pos GameInstance.new.taskQ
    (List.replicate 5 "player:2 key:a value:b".toList) (show 22 < 23 by decide)
  have henough : 5 * waits GameInstance.new.taskQ
      ≤ inputs (List.replicate 5 "player:2 key:a value:b".toList) := by decide +kernel
  rw [if_pos henough] at hplays
  obtain ⟨s', read, hok, -⟩ := hplays
  exact ⟨s', hok⟩

end EventLoop

end SocialGaming
