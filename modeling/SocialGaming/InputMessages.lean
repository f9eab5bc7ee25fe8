import SocialGaming.Library.Collections
import SocialGaming.Library.Decimal
import SocialGaming.TaskFactoryChecks

/-!
# What an input task sends

An `InputTask` sends its prompt and its type, and with them a range or a list of choices, in one map
from strings to strings. The choices are stored under their numbers, so that they can be read back:
the numerals are apart from the other keys and from one another. A range is stored as two numerals,
but the task has no other mark of a missing range than `-1` in one of the two, and a range that
starts or ends there is not sent.

## Main definitions

* `elementsOf` — the elements of a list that have a type
* `RunnableTask.Queues` — a run queues a message
* `readChoices` — reading the choices back
* `CarriesChoices` — what the message is made of

## Main results

* `InputFactory.range_sent_iff` — when the range is sent
* `InputFactory.choices_readable` — the choices are read back
-/

namespace SocialGaming

open Std (ExtTreeMap)

variable {ι : Type}

/-! ### Making an input task -/

/-- The elements of a list that have the type that is wanted. -/
def elementsOf {α : Type} (getIf : VarType → Option α) (h : Heap) (vec : List VarPtr) : List α :=
  vec.filterMap fun item => item.bind fun p => getIf (h.value p)

theorem copyVec_eq_ok {α : Type} {getIf : VarType → Option α} {h : Heap} {vec : List VarPtr}
    {copied : List α} (hcopy : copyVec getIf h vec = .ok copied) :
    copied = elementsOf getIf h vec := by
  induction vec generalizing copied with
  | nil => exact (Except.ok.inj hcopy).symm
  | cons item vec ih =>
    rcases item with _ | p
    · cases hcopy
    · rw [copyVec] at hcopy
      obtain ⟨rest, hrest, hcopy⟩ := Prog.bind_eq_ok.mp hcopy
      obtain rfl := ih hrest
      rw [← Except.ok.inj hcopy, elementsOf, elementsOf, List.filterMap_cons, Option.bind_some]
      cases getIf (h.value p) with
      | none => rfl
      | some a => rfl

/-- What is known of arguments that are accepted. -/
theorem InputFactory.create_eq_ok {playerHandler : PartPtr} {a b c : VarAddr} {rest : List VarAddr}
    {h : Heap} {task : RunnableTask}
    (hcreate : InputFactory.create playerHandler ((a :: b :: c :: rest).map some) h = .ok task) :
    ∃ players prompt type, h.value a = .list players ∧ h.value b = .string prompt ∧
      h.value c = .string type ∧
      InputFactory.make .part ((a :: b :: c :: rest).map some) players prompt type h
        = .ok task := by
  cases playerHandler with
  | null => cases hcreate
  | part =>
    rcases checkPreconditions_cases 3 5 "Expected between 3 and 5 Variable arguments"
      ((a :: b :: c :: rest).map some) with ⟨⟨msg, herr⟩, -⟩ | ⟨hok, -⟩
    · rw [InputFactory.create, checkPreconditionsHandler, if_neg (by decide), herr] at hcreate
      cases hcreate
    · rw [InputFactory.create_checked hok] at hcreate
      rcases ha : (h.value a).list? with _ | players
      · rw [ha] at hcreate
        cases hcreate
      rcases hb : (h.value b).string? with _ | prompt
      · rw [ha, hb] at hcreate
        cases hcreate
      rcases hc : (h.value c).string? with _ | type
      · rw [ha, hb, hc] at hcreate
        cases hcreate
      rw [ha, hb, hc] at hcreate
      exact ⟨players, prompt, type, VarType.list?_eq_some.mp ha, VarType.string?_eq_some.mp hb,
        VarType.string?_eq_some.mp hc, hcreate⟩

/-! ### Running an input task -/

/-- The run returns and queues a single message, of which this is true. -/
def RunnableTask.Queues (task : RunnableTask) (lib : TaskLib) (game : GameInstance ι)
    (P : GameMsg → Prop) : Prop :=
  ∃ game' msg, (task.run lib).run game = .ok () game' ∧
    game'.playerHandler.getAllMsgs = game.playerHandler.getAllMsgs ++ [msg] ∧ P msg

theorem toList_foldl_ids (playerList : List Int32) (ids : String) :
    (playerList.foldl (fun curr id => curr ++ "," ++ stdToString id) ids).toList
      = ids.toList ++ playerList.flatMap fun id => ',' :: (stdToString id).toList := by
  induction playerList generalizing ids with
  | nil => simp
  | cons id playerList ih => simp [ih]

theorem playerIds_cons (id : Int32) (playerList : List Int32) :
    playerIds (id :: playerList) = .ok (String.ofList ((stdToString id).toList ++
      playerList.flatMap fun id => ',' :: (stdToString id).toList)) := by
  rw [playerIds, toList_foldl_ids]
  rfl

theorem playerIds_eq_ok_iff {playerList : List Int32} :
    (∃ ids, playerIds playerList = .ok ids) ↔ playerList ≠ [] := by
  cases playerList with
  | nil => exact iff_of_false (fun ⟨ids, h⟩ => nomatch h) (not_not.mpr rfl)
  | cons id playerList => exact iff_of_true ⟨_, playerIds_cons id playerList⟩ (List.cons_ne_nil _ _)

section

variable {task : InputTask} {lib : TaskLib} {game : GameInstance ι}

theorem InputTask.run_eq (hpart : task.playerHandler = .part) {ids : String}
    (hids : playerIds task.playerList = .ok ids) :
    task.run.run game = .ok () { game with
      playerHandler := game.playerHandler.queueMessage ids task.msg } := by
  rw [InputTask.run, hids, hpart]
  rfl

/-- A run that returns queues the message of the task. -/
theorem InputTask.queues_iff (hpart : task.playerHandler = .part) {P : GameMsg → Prop} :
    (RunnableTask.input task).Queues lib game P ↔
      ∃ ids, playerIds task.playerList = .ok ids ∧ P ⟨ids, task.msg⟩ := by
  constructor
  · rintro ⟨game', msg, hrun, hmsgs, hP⟩
    rcases hids : playerIds task.playerList with f | ids
    · rw [RunnableTask.run, InputTask.run, hids] at hrun
      cases hrun
    · rw [RunnableTask.run, InputTask.run_eq hpart hids] at hrun
      obtain rfl := (EStateM.Result.ok.inj hrun).2
      obtain rfl : (⟨ids, task.msg⟩ : GameMsg) = msg :=
        List.singleton_inj.mp (List.append_cancel_left hmsgs)
      exact ⟨ids, rfl, hP⟩
  · rintro ⟨ids, hids, hP⟩
    exact ⟨_, _, InputTask.run_eq hpart hids, rfl, hP⟩

end

/-! ### The range -/

theorem InputTask.setRange_eq_iff {msg : GameMsgType} (hmsg : "rangeStart" ∉ msg)
    (start stop : Int32) :
    ((setRange msg start stop)["rangeStart"]? = some (stdToString start) ∧
      (setRange msg start stop)["rangeEnd"]? = some (stdToString stop)) ↔
      start ≠ -1 ∧ stop ≠ -1 := by
  rw [setRange]
  by_cases hnone : start = -1 ∨ stop = -1
  · rw [if_pos hnone, ExtTreeMap.getElem?_eq_none hmsg]
    refine iff_of_false (fun h => nomatch h.1) ?_
    rwa [← not_or, not_not]
  · rw [if_neg hnone]
    refine iff_of_true ⟨?_, ExtTreeMap.getElem?_insert_self⟩ (not_or.mp hnone)
    rw [getElem?_insert_of_ne _ (by decide), ExtTreeMap.getElem?_insert_self]

/-- The task made of five arguments. -/
theorem InputFactory.create_range {playerHandler : PartPtr} {a b c d e : VarAddr} {h : Heap}
    {task : RunnableTask}
    (hcreate : InputFactory.create playerHandler ([a, b, c, d, e].map some) h = .ok task)
    {players : List VarPtr} (ha : h.value a = .list players) {start stop : Int32}
    (hd : h.value d = .int start) (he : h.value e = .int stop) :
    ∃ prompt type, task = .input
      { playerList := elementsOf VarType.int? h players, prompt, type, playerHandler := .part,
        rangeStart := start, rangeEnd := stop } := by
  obtain ⟨players', prompt, type, ha', -, -, hmake⟩ := InputFactory.create_eq_ok hcreate
  obtain rfl := VarType.list.inj (ha.symm.trans ha')
  rw [List.map_cons, List.map_cons, List.map_cons, List.map_cons, List.map_cons, List.map_nil,
    InputFactory.make_range, VarType.int?_eq_some.mpr hd, VarType.int?_eq_some.mpr he] at hmake
  obtain ⟨input, hinput, hmake⟩ := Prog.bind_eq_ok.mp hmake
  obtain ⟨playerList, hcopy, hinput⟩ := Prog.bind_eq_ok.mp hinput
  obtain rfl := copyVec_eq_ok hcopy
  obtain rfl := Except.ok.inj hinput
  exact ⟨prompt, type, (Except.ok.inj hmake).symm⟩

/-- **The range.** Take any call with five arguments that is accepted, with at least one int among
the players. A run of the task queues a message that carries the range exactly if neither of its two
ends is `-1`. -/
theorem InputFactory.range_sent_iff {playerHandler : PartPtr} {a b c d e : VarAddr} {h : Heap}
    {task : RunnableTask}
    (hcreate : InputFactory.create playerHandler [some a, some b, some c, some d, some e] h
      = .ok task)
    {players : List VarPtr} (ha : h.value a = .list players)
    (hints : elementsOf VarType.int? h players ≠ []) {start stop : Int32}
    (hd : h.value d = .int start) (he : h.value e = .int stop) (lib : TaskLib)
    (game : GameInstance ι) :
    (task.Queues lib game fun msg => msg.message["rangeStart"]? = some (stdToString start) ∧
      msg.message["rangeEnd"]? = some (stdToString stop)) ↔ start ≠ -1 ∧ stop ≠ -1 := by
  obtain ⟨prompt, type, rfl⟩ := InputFactory.create_range hcreate ha hd he
  obtain ⟨ids, hids⟩ := playerIds_eq_ok_iff.mpr hints
  rw [InputTask.queues_iff rfl]
  have hmsg : "rangeStart" ∉ (ExtTreeMap.insert ∅ "prompt" prompt : GameMsgType).insert "type"
      type := by
    simp [ExtTreeMap.mem_insert]
  rw [← InputTask.setRange_eq_iff hmsg start stop]
  constructor
  · rintro ⟨_, -, hsent⟩
    exact hsent
  · intro hsent
    exact ⟨ids, hids, hsent⟩

/-- Arguments for a range: the variables 0 to 4, the first one a list of the int 1. -/
def rangeHeap (start stop : Int32) : Heap :=
  { cells := [.list [some 5], .string "how many", .string "range", .int start, .int stop, .int 1],
    vars := [0, 1, 2, 3, 4, 5] }

/-- A range from 1 to 10. -/
theorem InputFactory.range_sent_iff_one_ten :
    ∃ task, InputFactory.create .part [some 0, some 1, some 2, some 3, some 4] (rangeHeap 1 10)
        = .ok task ∧
      ∀ (lib : TaskLib) (game : GameInstance Unit), task.Queues lib game fun msg =>
        msg.message["rangeStart"]? = some "1" ∧ msg.message["rangeEnd"]? = some "10" := by
  have hints : elementsOf VarType.int? (rangeHeap 1 10) [some 5] ≠ [] := by decide
  have hends : (1 : Int32) ≠ -1 ∧ (10 : Int32) ≠ -1 := by decide
  obtain ⟨task, hcreate⟩ : ∃ task, InputFactory.create .part
      [some 0, some 1, some 2, some 3, some 4] (rangeHeap 1 10) = .ok task := ⟨_, rfl⟩
  exact ⟨task, hcreate, fun lib game =>
    (InputFactory.range_sent_iff hcreate rfl hints rfl rfl lib game).mpr hends⟩

/-- A range from -1 to 5. -/
theorem InputFactory.range_lost :
    ∃ task, InputFactory.create .part [some 0, some 1, some 2, some 3, some 4] (rangeHeap (-1) 5)
        = .ok task ∧
      elementsOf VarType.int? (rangeHeap (-1) 5) [some 5] ≠ [] ∧
      ∀ (lib : TaskLib) (game : GameInstance Unit),
        (task.Queues lib game fun msg =>
          msg.message["rangeStart"]? = none ∧ msg.message["rangeEnd"]? = none) ∧
        ¬ task.Queues lib game fun msg =>
          msg.message["rangeStart"]? = some "-1" ∧ msg.message["rangeEnd"]? = some "5" := by
  refine ⟨_, rfl, by decide, fun lib game => ⟨?_, ?_⟩⟩
  · exact (InputTask.queues_iff rfl).mpr ⟨"1", by decide, by decide, by decide⟩
  · rw [InputTask.queues_iff rfl]
    rintro ⟨ids, -, hstart, -⟩
    replace hstart : (InputTask.msg _)["rangeStart"]? = some "-1" := hstart
    exact absurd hstart (by decide)

/-! ### The choices -/

section

variable {key : ℕ → String} {msg : GameMsgType}

theorem numbered_of_ne {k : String} (strings : List String) (i : ℕ)
    (hk : ∀ j, j < strings.length → key (i + j) ≠ k) :
    (numbered key i strings msg)[k]? = msg[k]? := by
  induction strings generalizing i msg with
  | nil => rfl
  | cons s strings ih =>
    have hrest : ∀ j, j < strings.length → key (i + 1 + j) ≠ k := by
      intro j hj
      rw [Nat.add_right_comm]
      exact hk (j + 1) (Nat.succ_lt_succ hj)
    have hhead : key i ≠ k := hk 0 (Nat.succ_pos _)
    rw [numbered, ih (i + 1) hrest, getElem?_insert_of_ne _ hhead]

/-- Under different keys, each string is found. -/
theorem numbered_getElem? (hkey : Function.Injective key) (strings : List String) (i : ℕ) {j : ℕ}
    (hj : j < strings.length) : (numbered key i strings msg)[key (i + j)]? = strings[j]? := by
  induction strings generalizing i j msg with
  | nil => exact absurd hj (Nat.not_lt_zero j)
  | cons s strings ih =>
    rw [numbered]
    cases j with
    | zero =>
      have hother : ∀ j, j < strings.length → key (i + 1 + j) ≠ key (i + 0) := by
        intro j _ heq
        have hsame := hkey heq
        omega
      rw [numbered_of_ne strings (i + 1) hother]
      exact ExtTreeMap.getElem?_insert_self
    | succ j =>
      rw [← Nat.add_assoc, Nat.add_right_comm, List.getElem?_cons_succ]
      exact ih (i + 1) (Nat.lt_of_succ_lt_succ hj)

end

/-- Reading the choices back: as many as `choiceListSize` says, from the keys `0`, `1`, …. -/
def readChoices (msg : GameMsgType) : List String :=
  (List.range (readNat ((msg["choiceListSize"]?).getD ""))).map fun i =>
    (msg[toString i]?).getD ""

/-- A message of a prompt, a type and choices. Every key with a digit in it is the number of a
choice. -/
structure CarriesChoices (prompt type : String) (choices : List String) (msg : GameMsgType) :
    Prop where
  prompt_eq : msg["prompt"]? = some prompt
  type_eq : msg["type"]? = some type
  size_eq : msg["choiceListSize"]? = some (toString choices.length)
  choice_eq : ∀ i, i < choices.length → msg[toString i]? = choices[i]?
  numeric_key : ∀ k ∈ msg, (∃ c ∈ k.toList, c.isDigit) → ∃ i < choices.length, k = toString i

/-- So the choices are read back. -/
theorem CarriesChoices.readChoices_eq {prompt type : String} {choices : List String}
    {msg : GameMsgType} (h : CarriesChoices prompt type choices msg) :
    readChoices msg = choices := by
  rw [readChoices, h.size_eq, Option.getD_some, readNat_toString]
  refine List.ext_getElem (by simp) fun i hi hi' => ?_
  rw [List.getElem_map, List.getElem_range, h.choice_eq i hi', List.getElem?_eq_getElem hi',
    Option.getD_some]

/-- The task made of four arguments. -/
theorem InputFactory.create_choices {playerHandler : PartPtr} {a b c d : VarAddr} {h : Heap}
    {task : RunnableTask}
    (hcreate : InputFactory.create playerHandler ([a, b, c, d].map some) h = .ok task)
    {prompt type : String} (hb : h.value b = .string prompt) (hc : h.value c = .string type)
    {choices : List VarPtr} (hd : h.value d = .list choices) :
    ∃ players, h.value a = .list players ∧ task = .input
      { playerList := elementsOf VarType.int? h players, prompt, type, playerHandler := .part,
        choices := elementsOf VarType.string? h choices } := by
  obtain ⟨players, prompt', type', ha, hb', hc', hmake⟩ := InputFactory.create_eq_ok hcreate
  obtain rfl := VarType.string.inj (hb.symm.trans hb')
  obtain rfl := VarType.string.inj (hc.symm.trans hc')
  rw [List.map_cons, List.map_cons, List.map_cons, List.map_cons, List.map_nil,
    InputFactory.make_choices, VarType.list?_eq_some.mpr hd] at hmake
  obtain ⟨input, hinput, hmake⟩ := Prog.bind_eq_ok.mp hmake
  obtain ⟨playerList, hcopy, hinput⟩ := Prog.bind_eq_ok.mp hinput
  obtain ⟨strings, hstrings, hinput⟩ := Prog.bind_eq_ok.mp hinput
  obtain rfl := copyVec_eq_ok hcopy
  obtain rfl := copyVec_eq_ok hstrings
  obtain rfl := Except.ok.inj hinput
  exact ⟨players, ha, (Except.ok.inj hmake).symm⟩

/-- What the message has besides the choices. -/
def fixedEntries (prompt type : String) (count : ℕ) : GameMsgType :=
  ((ExtTreeMap.insert ∅ "prompt" prompt).insert "type" type).insert "choiceListSize"
    (toString count)

theorem mem_fixedEntries {prompt type k : String} {count : ℕ}
    (h : k ∈ fixedEntries prompt type count) : k ∈ ["prompt", "type", "choiceListSize"] := by
  rw [fixedEntries, ExtTreeMap.mem_insert, ExtTreeMap.mem_insert, ExtTreeMap.mem_insert] at h
  simp only [Std.LawfulEqCmp.compare_eq_iff_eq, ExtTreeMap.not_mem_empty, or_false] at h
  simpa [eq_comm, or_comm, or_left_comm] using h

/-- No fixed key has a digit in it. -/
theorem not_isDigit_of_fixed {k : String} (h : k ∈ ["prompt", "type", "choiceListSize"]) :
    ∀ c ∈ k.toList, ¬ c.isDigit := by
  have hall : ∀ k ∈ ["prompt", "type", "choiceListSize"], k.toList.all (fun c => !c.isDigit) := by
    decide
  intro c hc
  simpa using List.all_eq_true.mp (hall k h) c hc

theorem toString_nat_ne_fixed {k : String} (h : k ∈ ["prompt", "type", "choiceListSize"])
    (n : ℕ) : toString n ≠ k := by
  have hne : ∀ k ∈ ["prompt", "type", "choiceListSize"], k.toList ≠ [] := by decide
  obtain ⟨c, hc⟩ := List.exists_mem_of_ne_nil _ (hne k h)
  exact toString_nat_ne hc (not_isDigit_of_fixed h c hc)

/-- The message of a task with choices and no range. -/
theorem InputTask.carriesChoices {prompt type : String} {choices : List String}
    (hchoices : choices ≠ []) (playerList : List Int32) (playerHandler : PartPtr) :
    CarriesChoices prompt type choices
      (InputTask.msg { playerList, prompt, type, playerHandler, choices }) := by
  have hmsg : InputTask.msg { playerList, prompt, type, playerHandler, choices }
      = numbered toString 0 choices (fixedEntries prompt type choices.length) := by
    have hpos : ¬ choices.length ≤ 0 := Nat.not_le_of_lt (List.length_pos_of_ne_nil hchoices)
    rw [InputTask.msg, InputTask.setChoices, if_neg hpos, InputTask.setRange,
      if_pos (Or.inl rfl), fixedEntries]
  have hfixed : ∀ k ∈ ["prompt", "type", "choiceListSize"],
      (InputTask.msg { playerList, prompt, type, playerHandler, choices })[k]?
        = (fixedEntries prompt type choices.length)[k]? := by
    intro k hk
    rw [hmsg, numbered_of_ne choices 0 fun j _ => toString_nat_ne_fixed hk _]
  constructor
  · rw [hfixed "prompt" (by decide), fixedEntries, getElem?_insert_of_ne _ (by decide),
      getElem?_insert_of_ne _ (by decide), ExtTreeMap.getElem?_insert_self]
  · rw [hfixed "type" (by decide), fixedEntries, getElem?_insert_of_ne _ (by decide),
      ExtTreeMap.getElem?_insert_self]
  · rw [hfixed "choiceListSize" (by decide), fixedEntries, ExtTreeMap.getElem?_insert_self]
  · intro i hi
    rw [hmsg, ← numbered_getElem? toString_nat_injective choices 0 hi, Nat.zero_add]
  · intro k hk hdigit
    by_contra hno
    have hother : ∀ j, j < choices.length → toString (0 + j) ≠ k := by
      intro j hj heq
      rw [Nat.zero_add] at heq
      exact hno ⟨j, hj, heq.symm⟩
    rw [hmsg, ExtTreeMap.mem_iff_isSome_getElem?, numbered_of_ne choices 0 hother,
      ← ExtTreeMap.mem_iff_isSome_getElem?] at hk
    obtain ⟨c, hc, hd⟩ := hdigit
    exact not_isDigit_of_fixed (mem_fixedEntries hk) c hc hd

/-- **The choices.** Take any call with four arguments that is accepted, with at least one string
among the choices. Every run of the task that returns queues one message, and it carries the prompt,
the type and the strings, in their order, so that they are read back; and with at least one int
among the players every run returns. -/
theorem InputFactory.choices_readable {playerHandler : PartPtr} {a b c d : VarAddr} {h : Heap}
    {task : RunnableTask}
    (hcreate : InputFactory.create playerHandler [some a, some b, some c, some d] h = .ok task)
    {prompt type : String} (hb : h.value b = .string prompt) (hc : h.value c = .string type)
    {choices : List VarPtr} (hd : h.value d = .list choices)
    (hstrings : elementsOf VarType.string? h choices ≠ []) (lib : TaskLib) (game : GameInstance ι) :
    (∀ game', (task.run lib).run game = .ok () game' → task.Queues lib game fun msg =>
      CarriesChoices prompt type (elementsOf VarType.string? h choices) msg.message ∧
        readChoices msg.message = elementsOf VarType.string? h choices) ∧
    ∀ players, h.value a = .list players → elementsOf VarType.int? h players ≠ [] →
      ∃ game', (task.run lib).run game = .ok () game' := by
  obtain ⟨players, ha, rfl⟩ := InputFactory.create_choices hcreate hb hc hd
  have hcarries : CarriesChoices prompt type (elementsOf VarType.string? h choices)
      (InputTask.msg _) :=
    InputTask.carriesChoices hstrings (elementsOf VarType.int? h players) .part
  constructor
  · intro game' hrun
    rw [InputTask.queues_iff rfl]
    rcases hids : playerIds (elementsOf VarType.int? h players) with f | ids
    · rw [RunnableTask.run, InputTask.run, hids] at hrun
      cases hrun
    · exact ⟨ids, rfl, hcarries, hcarries.readChoices_eq⟩
  · intro players' ha' hints
    obtain rfl := VarType.list.inj (ha.symm.trans ha')
    obtain ⟨ids, hids⟩ := playerIds_eq_ok_iff.mpr hints
    exact ⟨_, InputTask.run_eq rfl hids⟩

/-- Arguments for choices: the variables 0 to 3, the last one a list of two strings and an int. -/
def choicesHeap : Heap :=
  { cells := [.list [some 4], .string "which", .string "choice", .list [some 5, some 4, some 6],
      .int 1, .string "left", .string "right"],
    vars := [0, 1, 2, 3, 4, 5, 6] }

/-- Two strings with an int between them. -/
theorem InputFactory.choices_readable_two :
    ∃ task, InputFactory.create .part [some 0, some 1, some 2, some 3] choicesHeap = .ok task ∧
      ∀ (lib : TaskLib) (game : GameInstance Unit), ∃ game',
        (task.run lib).run game = .ok () game' ∧ task.Queues lib game fun msg =>
          CarriesChoices "which" "choice" ["left", "right"] msg.message ∧
            readChoices msg.message = ["left", "right"] := by
  have hstrings : elementsOf VarType.string? choicesHeap [some 5, some 4, some 6] ≠ [] := by decide
  have hints : elementsOf VarType.int? choicesHeap [some 4] ≠ [] := by decide
  obtain ⟨task, hcreate⟩ : ∃ task, InputFactory.create .part
      [some 0, some 1, some 2, some 3] choicesHeap = .ok task := ⟨_, rfl⟩
  refine ⟨task, hcreate, fun lib game => ?_⟩
  obtain ⟨hqueues, hreturns⟩ :=
    InputFactory.choices_readable hcreate rfl rfl rfl hstrings lib game
  obtain ⟨game', hrun⟩ := hreturns _ rfl hints
  exact ⟨game', hrun, hqueues game' hrun⟩

end SocialGaming
