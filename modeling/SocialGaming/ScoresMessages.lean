import SocialGaming.Library.Selection
import SocialGaming.InputMessages

/-!
# What a scores task sends

A `ScoresTask` is made with a list of names and a list of scores. Of the names only the strings are
kept, and numbered in their order; of the scores all are kept, and numbered by their position. What
is sent under one number is from one position of both lists only as long as every element of the
list of names so far has been a string.

## Main definitions

* `elementAt` — number and position of an element that has a type
* `ReportsScores` — what is sent under a number is from one position of both lists

## Main results

* `ScoresFactory.reports_iff` — when a message does that
-/

namespace SocialGaming

open Std (ExtTreeMap)
open VariableUtils (printVar)

variable {ι : Type}

/-! ### The message -/

/-- The element at position `j` has the type that is wanted, and `i` elements before it do. -/
def elementAt {α : Type} (getIf : VarType → Option α) (h : Heap) (vec : List VarPtr) (i j : ℕ)
    (a : α) : Prop :=
  SelectedAt (fun item : VarPtr => item.bind fun p => getIf (h.value p)) vec i j a

theorem elementAt_string_iff {h : Heap} {vec : List VarPtr} {i j : ℕ} {s : String} :
    elementAt VarType.string? h vec i j s ↔ (∃ p, vec[j]? = some (some p) ∧ h.value p = .string s) ∧
      (elementsOf VarType.string? h (vec.take j)).length = i := by
  constructor
  · rintro ⟨hj, hi⟩
    obtain ⟨item, hitem, hj⟩ := Option.bind_eq_some_iff.mp hj
    obtain ⟨p, rfl, hp⟩ := Option.bind_eq_some_iff.mp hj
    exact ⟨⟨p, hitem, VarType.string?_eq_some.mp hp⟩, hi⟩
  · rintro ⟨⟨p, hitem, hp⟩, hi⟩
    exact ⟨by rw [hitem]; exact VarType.string?_eq_some.mpr hp, hi⟩

/-- The message has a count, and for each number below it a name, which is the string of that number
in the list of names, and a score, which is the text of the element at its position in the list of
scores. The names were read when the task was made, and the scores when it was run. -/
def ReportsScores (made : Heap) (names : List VarPtr) (text : VarPtr → Except (Fault Exn) String)
    (scores : List VarPtr) (msg : GameMsgType) : Prop :=
  ∃ count, msg["count"]? = some (toString count) ∧ ∀ i < count, ∃ j name item score,
    elementAt VarType.string? made names i j name ∧
      msg["name" ++ toString i]? = some name ∧
      scores[j]? = some item ∧ text item = .ok score ∧
      msg["score" ++ toString i]? = some score

/-- What is sent besides names and scores. -/
def scoresHead (attrName : String) (count : ℕ) : GameMsgType :=
  ((ExtTreeMap.insert ∅ "type" "scores").insert "attr" attrName).insert "count" (toString count)

/-- The message for names and the texts of scores. -/
def scoresMsg (attrName : String) (names texts : List String) : GameMsgType :=
  numbered (fun i => "score" ++ toString i) 0 texts
    (numbered (fun i => "name" ++ toString i) 0 names (scoresHead attrName names.length))

theorem numberedKey_injective (word : String) :
    Function.Injective fun i : ℕ => word ++ toString i := by
  intro i j heq
  have hlists := congrArg String.toList heq
  simp only [String.toList_append, List.append_cancel_left_eq] at hlists
  exact toString_nat_injective (String.toList_injective hlists)

/-- The two kinds of keys, and the others, start with different letters. -/
theorem score_ne {i : ℕ} {key : String} (hkey : key.toList.head? ≠ some 's') :
    "score" ++ toString i ≠ key := by
  rintro rfl
  simp at hkey

theorem name_ne {i : ℕ} {key : String} (hkey : key.toList.head? ≠ some 'n') :
    "name" ++ toString i ≠ key := by
  rintro rfl
  simp at hkey

section

variable (attrName : String) (names texts : List String)

theorem scoresMsg_count :
    (scoresMsg attrName names texts)["count"]? = some (toString names.length) := by
  rw [scoresMsg, numbered_of_ne texts 0 fun j _ => score_ne (by decide),
    numbered_of_ne names 0 fun j _ => name_ne (by decide), scoresHead]
  exact ExtTreeMap.getElem?_insert_self

theorem scoresMsg_name {i : ℕ} (hi : i < names.length) :
    (scoresMsg attrName names texts)["name" ++ toString i]? = names[i]? := by
  rw [scoresMsg, numbered_of_ne texts 0 fun j _ => score_ne (by simp),
    ← numbered_getElem? (numberedKey_injective "name") names 0 hi, Nat.zero_add]

theorem scoresMsg_score (i : ℕ) :
    (scoresMsg attrName names texts)["score" ++ toString i]? = texts[i]? := by
  rw [scoresMsg]
  by_cases hi : i < texts.length
  · rw [← numbered_getElem? (numberedKey_injective "score") texts 0 hi, Nat.zero_add]
  · have hother : ∀ j, j < texts.length → "score" ++ toString (0 + j) ≠ "score" ++ toString i := by
      intro j hj heq
      have hsame := numberedKey_injective "score" heq
      omega
    have hhead : ∀ key : String, key.toList.head? ≠ some 's' → key ≠ "score" ++ toString i :=
      fun key hkey => (score_ne hkey).symm
    rw [numbered_of_ne texts 0 hother, numbered_of_ne names 0 fun j _ => name_ne (by simp),
      List.getElem?_eq_none (not_lt.mp hi), scoresHead,
      getElem?_insert_of_ne _ (hhead "count" (by decide)),
      getElem?_insert_of_ne _ (hhead "attr" (by decide)),
      getElem?_insert_of_ne _ (hhead "type" (by decide))]
    rfl

end

/-- What the message for the strings among the names and the texts of the scores reports. -/
theorem reportsScores_iff {made : Heap} {names scores : List VarPtr}
    {text : VarPtr → Except (Fault Exn) String} {texts : List String}
    (htexts : scores.mapM text = .ok texts) (attrName : String) :
    ReportsScores made names text scores
      (scoresMsg attrName (elementsOf VarType.string? made names) texts) ↔
    ∀ i j name, elementAt VarType.string? made names i j name → ∃ item item',
      scores[j]? = some item ∧ scores[i]? = some item' ∧ text item = text item' := by
  constructor
  · rintro ⟨count, hcount, hall⟩ i j name hat
    rw [scoresMsg_count, Option.some_inj] at hcount
    obtain rfl := toString_nat_injective hcount
    obtain ⟨hi, -⟩ := List.getElem?_eq_some_iff.mp hat.getElem?
    obtain ⟨j', _, item, score, hat', -, hitem, htext, hscore⟩ := hall i hi
    obtain rfl := hat.position_unique hat'
    rw [scoresMsg_score] at hscore
    obtain ⟨item', hitem', htext'⟩ := (Prog.getElem?_of_mapM_eq_ok htexts).mp hscore
    exact ⟨item, item', hitem, hitem', by rw [htext, htext']⟩
  · intro hstep
    refine ⟨_, scoresMsg_count _ _ _, fun i hi => ?_⟩
    have hname : (elementsOf VarType.string? made names)[i]? = some _ :=
      List.getElem?_eq_getElem hi
    obtain ⟨j, hat⟩ := exists_selectedAt_iff.mp hname
    obtain ⟨item, item', hitem, hitem', hsame⟩ := hstep i j _ hat
    obtain ⟨score, htext⟩ := Prog.forall_of_mapM_eq_ok htexts item' (List.mem_of_getElem? hitem')
    refine ⟨j, _, item, score, hat, ?_, hitem, hsame.trans htext, ?_⟩
    · rw [scoresMsg_name _ _ _ hi, hname]
    · rw [scoresMsg_score]
      exact (Prog.getElem?_of_mapM_eq_ok htexts).mpr ⟨item', hitem', htext⟩

/-! ### Making and running a scores task -/

/-- The task made of four arguments. -/
theorem ScoresFactory.create_eq_ok {playerHandler : PartPtr} {o n s a : VarAddr} {h : Heap}
    {task : RunnableTask}
    (hcreate : ScoresFactory.create playerHandler [some o, some n, some s, some a] h = .ok task)
    {names scores : List VarPtr} (hn : h.value n = .list names) (hs : h.value s = .list scores) :
    ∃ ownerId attrName, task = .scores
      { playerHandler := .part, playerNames := elementsOf VarType.string? h names,
        playerScores := scores, attrName, ownerId } := by
  obtain ⟨checked, hcheck, -⟩ := Prog.bind_eq_ok.mp hcreate
  obtain rfl := eq_part_of_checkPreconditionsHandler hcheck
  rw [ScoresFactory.create_checked, VarType.list?_eq_some.mpr hn, VarType.list?_eq_some.mpr hs]
    at hcreate
  rcases ho : (h.value o).int? with _ | ownerId
  · simp [ho] at hcreate
  rcases ha : (h.value a).string? with _ | attrName
  · simp [ho, ha] at hcreate
  rw [ho, ha] at hcreate
  obtain ⟨scoresTask, hnew, hcreate⟩ := Prog.bind_eq_ok.mp hcreate
  obtain ⟨playerNames, hcopy, hnew⟩ := Prog.bind_eq_ok.mp hnew
  obtain rfl := copyVec_eq_ok hcopy
  obtain rfl := Except.ok.inj hnew
  exact ⟨ownerId, attrName, (Except.ok.inj hcreate).symm⟩

/-- A run that returns has printed the scores, and queues one message. -/
theorem ScoresTask.queues_iff {task : ScoresTask} (hpart : task.playerHandler = .part)
    {lib : TaskLib} {game game' : GameInstance ι}
    (hrun : (RunnableTask.run lib (.scores task)).run game = .ok () game') :
    ∃ texts, task.playerScores.mapM (printVar lib.address game.envMgr.heap lib.stack "")
        = .ok texts ∧
      ∀ P : GameMsgType → Prop,
        ((RunnableTask.scores task).Queues lib game fun msg => P msg.message) ↔
          P (scoresMsg task.attrName task.playerNames texts) := by
  have heq : (RunnableTask.run lib (.scores task)).run game = EStateM.run (do
      let msg ← Prog.ofExcept (ScoresTask.addScores lib game.envMgr.heap 0 task.playerScores
        (numbered (fun curr => "name" ++ toString curr) 0 task.playerNames
          (scoresHead task.attrName task.playerNames.length)))
      PartPtr.queueMessage .part (stdToString task.ownerId) msg) game := by
    rw [← hpart]
    rfl
  rw [EStateM.run_bind, ScoresTask.addScores_eq] at heq
  rcases htexts : task.playerScores.mapM (printVar lib.address game.envMgr.heap lib.stack "")
    with f | texts
  · rw [htexts, hrun] at heq
    cases heq
  refine ⟨texts, rfl, fun P => ?_⟩
  rw [htexts] at heq
  constructor
  · rintro ⟨game'', msg, hrun', hmsgs, hP⟩
    rw [hrun'] at heq
    obtain rfl := (EStateM.Result.ok.inj heq).2
    obtain rfl := List.singleton_inj.mp (List.append_cancel_left hmsgs)
    exact hP
  · intro hP
    exact ⟨_, _, heq, rfl, hP⟩

/-- **Scores.** Take any four arguments that are accepted, and a run of the task that returns. It
queues a message in which every name below the count stands with the score of the same position if
and only if for each string in the list of names the list of scores reaches to its position, and has
an element there that is printed like the one whose position is the number of the string: like
itself, if nothing but strings comes before. -/
theorem ScoresFactory.reports_iff {playerHandler : PartPtr} {o n s a : VarAddr} {h : Heap}
    {task : RunnableTask}
    (hcreate : ScoresFactory.create playerHandler [some o, some n, some s, some a] h = .ok task)
    {names scores : List VarPtr} (hn : h.value n = .list names) (hs : h.value s = .list scores)
    {lib : TaskLib} {game game' : GameInstance ι}
    (hrun : (task.run lib).run game = .ok () game') :
    (task.Queues lib game fun msg => ReportsScores h names
      (printVar lib.address game.envMgr.heap lib.stack "") scores msg.message) ↔
    ∀ j p name, names[j]? = some (some p) → h.value p = .string name → ∃ item item',
      scores[j]? = some item ∧
      scores[(elementsOf VarType.string? h (names.take j)).length]? = some item' ∧
      printVar lib.address game.envMgr.heap lib.stack "" item
        = printVar lib.address game.envMgr.heap lib.stack "" item' := by
  obtain ⟨ownerId, attrName, rfl⟩ := ScoresFactory.create_eq_ok hcreate hn hs
  obtain ⟨texts, htexts, hqueues⟩ := ScoresTask.queues_iff rfl hrun
  rw [hqueues (ReportsScores h names (printVar lib.address game.envMgr.heap lib.stack "") scores),
    reportsScores_iff htexts attrName]
  constructor
  · intro hstep j p name hj hp
    exact hstep _ j name (elementAt_string_iff.mpr ⟨⟨p, hj, hp⟩, rfl⟩)
  · rintro hstep i j name hat
    obtain ⟨⟨p, hj, hp⟩, rfl⟩ := elementAt_string_iff.mp hat
    exact hstep j p name hj hp

/-- Arguments for scores: the variables 0 to 3, with the names in the variables 4 and 5 and the
scores in the variables 6 and 7. -/
def scoresHeap (first : VarType) : Heap :=
  { cells := [.int 1, .list [some 4, some 5], .list [some 6, some 7], .string "wins", first,
      .string "ann", .int 10, .int 20],
    vars := [0, 1, 2, 3, 4, 5, 6, 7] }

/-- A game with these variables. -/
def scoresGame (first : VarType) : GameInstance Unit :=
  (GameInstance.new "g" 0).setEnvMgr { heap := scoresHeap first }

theorem scoresGame_returns {first : VarType} {task : RunnableTask}
    (hcreate : ScoresFactory.create .part [some 0, some 1, some 2, some 3] (scoresHeap first)
      = .ok task) :
    ∃ game', (task.run (.withStack 1)).run (scoresGame first) = .ok () game' := by
  obtain ⟨ownerId, attrName, rfl⟩ := ScoresFactory.create_eq_ok hcreate rfl rfl
  exact ⟨_, rfl⟩

/-- Two names and two scores. -/
theorem ScoresFactory.reports_iff_two :
    ∃ task, ScoresFactory.create .part [some 0, some 1, some 2, some 3]
        (scoresHeap (.string "bob")) = .ok task ∧
      task.Queues (.withStack 1) (scoresGame (.string "bob")) fun msg =>
        ReportsScores (scoresHeap (.string "bob")) [some 4, some 5]
          (printVar (fun _ => "") (scoresHeap (.string "bob")) 1 "") [some 6, some 7]
          msg.message := by
  obtain ⟨task, hcreate⟩ : ∃ task, ScoresFactory.create .part [some 0, some 1, some 2, some 3]
      (scoresHeap (.string "bob")) = .ok task := ⟨_, rfl⟩
  obtain ⟨game', hrun⟩ := scoresGame_returns hcreate
  refine ⟨task, hcreate, (ScoresFactory.reports_iff hcreate rfl rfl hrun).mpr ?_⟩
  intro j p name hj hp
  rcases j with _ | _ | j
  · exact ⟨some 6, some 6, rfl, rfl, rfl⟩
  · exact ⟨some 7, some 7, rfl, rfl, rfl⟩
  · simp at hj

/-- An int comes before the name. What is sent with the name is the first score, and not the second
one, which is at the position of the name. -/
theorem ScoresFactory.reports_first :
    ∃ task, ScoresFactory.create .part [some 0, some 1, some 2, some 3] (scoresHeap (.int 1))
        = .ok task ∧
      (task.Queues (.withStack 1) (scoresGame (.int 1)) fun msg =>
        msg.message["count"]? = some "1" ∧ msg.message["name0"]? = some "ann" ∧
          msg.message["score0"]? = some "10") ∧
      ¬ task.Queues (.withStack 1) (scoresGame (.int 1)) fun msg =>
        ReportsScores (scoresHeap (.int 1)) [some 4, some 5]
          (printVar (fun _ => "") (scoresHeap (.int 1)) 1 "") [some 6, some 7] msg.message := by
  obtain ⟨task, hcreate⟩ : ∃ task, ScoresFactory.create .part [some 0, some 1, some 2, some 3]
      (scoresHeap (.int 1)) = .ok task := ⟨_, rfl⟩
  refine ⟨task, hcreate, ?_⟩
  obtain ⟨game', hrun⟩ := scoresGame_returns hcreate
  obtain ⟨ownerId, attrName, rfl⟩ := ScoresFactory.create_eq_ok hcreate rfl rfl
  have htexts : [some 6, some 7].mapM (printVar (fun _ => "") (scoresHeap (.int 1)) 1 "")
      = .ok ["10", "20"] := rfl
  obtain ⟨texts, htexts', hqueues⟩ := ScoresTask.queues_iff rfl hrun
  obtain rfl := Except.ok.inj (htexts.symm.trans htexts')
  refine ⟨(hqueues fun msg => msg["count"]? = some "1" ∧ msg["name0"]? = some "ann" ∧
    msg["score0"]? = some "10").mpr ⟨scoresMsg_count attrName ["ann"] ["10", "20"], ?_, ?_⟩,
    fun hreports => ?_⟩
  · exact scoresMsg_name attrName ["ann"] ["10", "20"] (by decide : 0 < 1)
  · exact scoresMsg_score attrName ["ann"] ["10", "20"] 0
  · have hstep := (reportsScores_iff htexts attrName).mp
      ((hqueues (ReportsScores _ _ _ _)).mp hreports)
    obtain ⟨item, item', hitem, hitem', hsame⟩ := hstep 0 1 "ann" ⟨rfl, rfl⟩
    obtain rfl := Option.some.inj hitem
    obtain rfl := Option.some.inj hitem'
    revert hsame
    decide

end SocialGaming
