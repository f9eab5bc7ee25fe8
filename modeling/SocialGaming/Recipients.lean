import SocialGaming.Library.Separated
import SocialGaming.InputMessages

/-!
# To whom a task sends

A `MessageTask` and an `InputTask` are made for a list of players, of which the ints are kept, and
their messages are addressed by one string: the numerals of the ints with commas between them. No
numeral has a comma in it, so the string determines the ints. It is made by putting a comma before
each numeral and then removing the first comma, which is there only if there is an int.

## Main definitions

* `TaskFactory.Sends` — the factories of tasks that send to a list of players
* `RunnableTask.SendsTo` — such a task, with the ints it sends to

## Main results

* `recipients_determined` — the string determines the recipients
* `sends_iff` — when sending is well defined
-/

namespace SocialGaming

variable {ι : Type}

/-! ### Addresses -/

theorem stdToString_injective : Function.Injective stdToString :=
  fun _ _ heq => Int32.toInt_inj.mp (toString_int_injective heq)

theorem comma_not_mem_stdToString (id : Int32) : ',' ∉ (stdToString id).toList := by
  intro hmem
  rcases isDigit_of_mem_toString_int hmem with hsign | hdigit
  · cases hsign
  · cases hdigit

/-- The address with its first comma. -/
theorem playerIds_eq_ok {playerList : List Int32} {ids : String}
    (hids : playerIds playerList = .ok ids) :
    ',' :: ids.toList = playerList.flatMap fun id => ',' :: (stdToString id).toList := by
  cases playerList with
  | nil => cases hids
  | cons id playerList =>
    rw [playerIds_cons] at hids
    rw [← Except.ok.inj hids, String.toList_ofList, List.flatMap_cons, List.cons_append]

/-- Different ints have different addresses. -/
theorem playerIds_injective {playerList playerList' : List Int32} {ids : String}
    (hids : playerIds playerList = .ok ids) (hids' : playerIds playerList' = .ok ids) :
    playerList = playerList' := by
  have hword : Function.Injective fun id => (stdToString id).toList :=
    fun _ _ heq => stdToString_injective (String.toList_injective heq)
  refine separated_injective hword comma_not_mem_stdToString ?_
  show (playerList.flatMap fun id => ',' :: (stdToString id).toList)
    = playerList'.flatMap fun id => ',' :: (stdToString id).toList
  rw [← playerIds_eq_ok hids, ← playerIds_eq_ok hids']

/-- An address is the numerals with commas between them. -/
theorem playerIds_eq_intercalate {playerList : List Int32} (hne : playerList ≠ []) :
    playerIds playerList = .ok (String.intercalate "," (playerList.map stdToString)) := by
  have hlist : ∀ (id : Int32) (rest : List Int32),
      (String.intercalate "," ((id :: rest).map stdToString)).toList
        = (stdToString id).toList ++ rest.flatMap fun id => ',' :: (stdToString id).toList := by
    intro id rest
    induction rest generalizing id with
    | nil => simp
    | cons id' rest ih =>
      rw [List.map_cons, List.map_cons, String.intercalate_cons_cons, String.toList_append,
        String.toList_append, ← List.map_cons, ih, List.flatMap_cons, List.append_assoc]
      rfl
  obtain ⟨id, rest, rfl⟩ := List.exists_cons_of_ne_nil hne
  rw [playerIds_cons, ← hlist, String.ofList_toList]

/-! ### Tasks that send to a list of players -/

/-- The factories of tasks that send to a list of players. -/
def TaskFactory.Sends : TaskFactory → Prop
  | input _ => True
  | message _ => True
  | _ => False

/-- A task with a player handler that sends to these players. -/
inductive RunnableTask.SendsTo (playerList : List Int32) : RunnableTask → Prop
  | input {task : InputTask} (hpart : task.playerHandler = .part)
      (hlist : task.playerList = playerList) : SendsTo playerList (.input task)
  | message {task : MessageTask} (hpart : task.playerHandler = .part)
      (hlist : task.playerList = playerList) : SendsTo playerList (.message task)

theorem MessageTask.run_eq {task : MessageTask} {game : GameInstance ι}
    (hpart : task.playerHandler = .part) {ids : String}
    (hids : playerIds task.playerList = .ok ids) : ∃ msg, task.run.run game = .ok () { game with
      playerHandler := game.playerHandler.queueMessage ids msg } := by
  rw [MessageTask.run, hids, hpart]
  exact ⟨_, rfl⟩

theorem MessageTask.run_error {task : MessageTask} {game : GameInstance ι} {f : Fault Exn}
    (hids : playerIds task.playerList = .error f) : task.run.run game = .error f game := by
  rw [MessageTask.run, hids]
  rfl

theorem InputTask.run_error {task : InputTask} {game : GameInstance ι} {f : Fault Exn}
    (hids : playerIds task.playerList = .error f) : task.run.run game = .error f game := by
  rw [InputTask.run, hids]
  rfl

section

variable {playerList : List Int32} {task : RunnableTask}

theorem RunnableTask.SendsTo.run_eq (hsends : task.SendsTo playerList) {ids : String}
    (hids : playerIds playerList = .ok ids) (lib : TaskLib) (game : GameInstance ι) :
    ∃ msg, (task.run lib).run game = .ok () { game with
      playerHandler := game.playerHandler.queueMessage ids msg } := by
  cases hsends with
  | input hpart hlist => exact ⟨_, InputTask.run_eq hpart (hlist ▸ hids)⟩
  | message hpart hlist => exact MessageTask.run_eq hpart (hlist ▸ hids)

theorem RunnableTask.SendsTo.run_error (hsends : task.SendsTo playerList) {f : Fault Exn}
    (hids : playerIds playerList = .error f) (lib : TaskLib) (game : GameInstance ι) :
    (task.run lib).run game = .error f game := by
  cases hsends with
  | input hpart hlist => exact InputTask.run_error (hlist ▸ hids)
  | message hpart hlist => exact MessageTask.run_error (hlist ▸ hids)

/-- The message that is queued has the address of the players. -/
theorem RunnableTask.SendsTo.queues_iff (hsends : task.SendsTo playerList) {lib : TaskLib}
    {game : GameInstance ι} (P : String → Prop) :
    (task.Queues lib game fun msg => P msg.playerIds) ↔
      ∃ ids, playerIds playerList = .ok ids ∧ P ids := by
  constructor
  · rintro ⟨game', msg, hrun, hmsgs, hP⟩
    rcases hids : playerIds playerList with f | ids
    · rw [hsends.run_error hids] at hrun
      cases hrun
    · obtain ⟨msg', hrun'⟩ := hsends.run_eq hids lib game
      rw [hrun'] at hrun
      obtain rfl := (EStateM.Result.ok.inj hrun).2
      obtain rfl : (⟨ids, msg'⟩ : GameMsg) = msg :=
        List.singleton_inj.mp (List.append_cancel_left hmsgs)
      exact ⟨ids, rfl, hP⟩
  · rintro ⟨ids, hids, hP⟩
    obtain ⟨msg, hrun⟩ := hsends.run_eq hids lib game
    exact ⟨_, ⟨ids, msg⟩, hrun, rfl, hP⟩

end

/-! ### Making them -/

theorem copyVec_int_eq_ok {τ : Type} {h : Heap} {players : List VarPtr} {new : List Int32 → τ}
    {task : τ} (hnew : (do return new (← copyVec VarType.int? h players)) = Except.ok task) :
    task = new (elementsOf VarType.int? h players) := by
  obtain ⟨playerList, hcopy, hnew⟩ := Prog.bind_eq_ok.mp hnew
  rw [← copyVec_eq_ok hcopy]
  exact (Except.ok.inj hnew).symm

/-- Whatever follows the first three arguments, the task is for the ints among the players. -/
theorem InputFactory.sendsTo_of_make {playerHandler : PartPtr} {vars players : List VarPtr}
    {prompt type : String} {h : Heap} {task : RunnableTask} (hpart : playerHandler = .part)
    (hmake : InputFactory.make playerHandler vars players prompt type h = .ok task) :
    task.SendsTo (elementsOf VarType.int? h players) := by
  rw [InputFactory.make] at hmake
  by_cases hfour : vars.length = 4
  · rw [if_pos hfour] at hmake
    obtain ⟨d, -, hmake⟩ := Prog.bind_eq_ok.mp hmake
    rcases hd : (h.value d).list? with _ | choices
    · simp [hd] at hmake
    · rw [hd] at hmake
      obtain ⟨input, hinput, hmake⟩ := Prog.bind_eq_ok.mp hmake
      obtain ⟨playerList, hcopy, hinput⟩ := Prog.bind_eq_ok.mp hinput
      obtain ⟨strings, -, hinput⟩ := Prog.bind_eq_ok.mp hinput
      obtain rfl := Except.ok.inj hinput
      obtain rfl := Except.ok.inj hmake
      exact .input hpart (copyVec_eq_ok hcopy)
  rw [if_neg hfour] at hmake
  by_cases hfive : vars.length = 5
  · rw [if_pos hfive] at hmake
    obtain ⟨d, -, hmake⟩ := Prog.bind_eq_ok.mp hmake
    rcases hd : (h.value d).int? with _ | start
    · simp [hd] at hmake
    rw [hd] at hmake
    obtain ⟨e, -, hmake⟩ := Prog.bind_eq_ok.mp hmake
    rcases he : (h.value e).int? with _ | stop
    · simp [he] at hmake
    · rw [he] at hmake
      obtain ⟨input, hinput, hmake⟩ := Prog.bind_eq_ok.mp hmake
      obtain rfl := copyVec_int_eq_ok hinput
      obtain rfl := Except.ok.inj hmake
      exact .input hpart rfl
  · rw [if_neg hfive] at hmake
    obtain ⟨input, hinput, hmake⟩ := Prog.bind_eq_ok.mp hmake
    obtain rfl := copyVec_int_eq_ok hinput
    obtain rfl := Except.ok.inj hmake
    exact .input hpart rfl

section

variable {playerHandler : PartPtr} {p : VarAddr} {rest players : List VarPtr} {h : Heap}
  {task : RunnableTask}

theorem InputFactory.sendsTo_of_create (hp : h.value p = .list players)
    (hcreate : InputFactory.create playerHandler (some p :: rest) h = .ok task) :
    task.SendsTo (elementsOf VarType.int? h players) := by
  obtain ⟨checked, hcheck, hcreate⟩ := Prog.bind_eq_ok.mp hcreate
  obtain ⟨a, ha, hcreate⟩ := Prog.bind_eq_ok.mp hcreate
  obtain ⟨b, -, hcreate⟩ := Prog.bind_eq_ok.mp hcreate
  obtain ⟨c, -, hcreate⟩ := Prog.bind_eq_ok.mp hcreate
  obtain rfl : p = a := Except.ok.inj ha
  rw [VarType.list?_eq_some.mpr hp] at hcreate
  rcases hb : (h.value b).string? with _ | prompt
  · simp [hb] at hcreate
  rcases hc : (h.value c).string? with _ | type
  · simp [hb, hc] at hcreate
  rw [hb, hc] at hcreate
  exact InputFactory.sendsTo_of_make (eq_part_of_checkPreconditionsHandler hcheck) hcreate

theorem MessageFactory.sendsTo_of_create (hp : h.value p = .list players)
    (hcreate : MessageFactory.create playerHandler (some p :: rest) h = .ok task) :
    task.SendsTo (elementsOf VarType.int? h players) := by
  obtain ⟨checked, hcheck, hcreate⟩ := Prog.bind_eq_ok.mp hcreate
  obtain ⟨a, ha, hcreate⟩ := Prog.bind_eq_ok.mp hcreate
  obtain ⟨b, -, hcreate⟩ := Prog.bind_eq_ok.mp hcreate
  obtain rfl : p = a := Except.ok.inj ha
  rw [VarType.list?_eq_some.mpr hp] at hcreate
  rcases hb : (h.value b).string? with _ | text
  · simp [hb] at hcreate
  rw [hb] at hcreate
  obtain ⟨message, hmessage, hcreate⟩ := Prog.bind_eq_ok.mp hcreate
  obtain rfl := copyVec_int_eq_ok hmessage
  obtain rfl := Except.ok.inj hcreate
  exact .message (eq_part_of_checkPreconditionsHandler hcheck) rfl

/-- An accepted call makes a task for the ints of the list. -/
theorem TaskFactory.Sends.sendsTo {factory : TaskFactory} (hsends : factory.Sends)
    (hp : h.value p = .list players) (hcreate : factory.create (some p :: rest) h = .ok task) :
    task.SendsTo (elementsOf VarType.int? h players) := by
  cases factory with
  | input playerHandler => exact InputFactory.sendsTo_of_create hp hcreate
  | message playerHandler => exact MessageFactory.sendsTo_of_create hp hcreate
  | _ => exact absurd hsends not_false

end

/-! ### What is sent to whom -/

/-- **Recipients.** Take two calls that are accepted, of factories of tasks that send to a list of
players, and let runs of the tasks queue messages with one address. The ints of the one list, with
their order, are those of the other; the lists need have nothing else in common. -/
theorem recipients_determined {factory factory' : TaskFactory} (hsends : factory.Sends)
    (hsends' : factory'.Sends) {p p' : VarAddr} {rest rest' players players' : List VarPtr}
    {h h' : Heap} {task task' : RunnableTask} (hp : h.value p = .list players)
    (hcreate : factory.create (some p :: rest) h = .ok task) (hp' : h'.value p' = .list players')
    (hcreate' : factory'.create (some p' :: rest') h' = .ok task')
    {lib lib' : TaskLib} {game game' : GameInstance ι} {ids : String}
    (hqueues : task.Queues lib game fun msg => msg.playerIds = ids)
    (hqueues' : task'.Queues lib' game' fun msg => msg.playerIds = ids) :
    elementsOf VarType.int? h players = elementsOf VarType.int? h' players' := by
  obtain ⟨ids₁, hids, heq⟩ := ((hsends.sendsTo hp hcreate).queues_iff (· = ids)).mp hqueues
  obtain ⟨ids₂, hids', heq'⟩ := ((hsends'.sendsTo hp' hcreate').queues_iff (· = ids)).mp hqueues'
  rw [heq] at hids
  rw [heq'] at hids'
  exact playerIds_injective hids hids'

/-- Arguments for a message: the first variable is a list of a string and two ints, the second the
text, and the fifth a list of the same two ints. -/
def messageHeap : Heap :=
  { cells := [.list [some 1, some 2, some 3], .string "hello", .int 5, .int (-7),
      .list [some 2, some 3]],
    vars := [0, 1, 2, 3, 4] }

theorem messageHeap_ids : playerIds [5, -7] = .ok "5,-7" := by decide

/-- A message and a message for input. -/
theorem recipients_determined_two :
    ∃ task task', MessageFactory.create .part [some 0, some 1] messageHeap = .ok task ∧
      InputFactory.create .part [some 4, some 1, some 1] messageHeap = .ok task' ∧
      (∀ (lib : TaskLib) (game : GameInstance Unit),
        (task.Queues lib game fun msg => msg.playerIds = "5,-7") ∧
        task'.Queues lib game fun msg => msg.playerIds = "5,-7") ∧
      elementsOf VarType.int? messageHeap [some 1, some 2, some 3]
        = elementsOf VarType.int? messageHeap [some 2, some 3] := by
  obtain ⟨task, hcreate⟩ : ∃ task, MessageFactory.create .part [some 0, some 1] messageHeap
    = .ok task := ⟨_, rfl⟩
  obtain ⟨task', hcreate'⟩ : ∃ task, InputFactory.create .part [some 4, some 1, some 1] messageHeap
    = .ok task := ⟨_, rfl⟩
  have hmessage : TaskFactory.Sends (.message .part) := trivial
  have hinput : TaskFactory.Sends (.input .part) := trivial
  have hp : messageHeap.value 0 = .list [some 1, some 2, some 3] := rfl
  have hp' : messageHeap.value 4 = .list [some 2, some 3] := rfl
  have hsends : task.SendsTo [5, -7] := hmessage.sendsTo hp hcreate
  have hsends' : task'.SendsTo [5, -7] := hinput.sendsTo hp' hcreate'
  have hqueues : ∀ (lib : TaskLib) (game : GameInstance Unit),
      (task.Queues lib game fun msg => msg.playerIds = "5,-7") ∧
        task'.Queues lib game fun msg => msg.playerIds = "5,-7" := fun lib game =>
    ⟨(hsends.queues_iff (· = "5,-7")).mpr ⟨_, messageHeap_ids, rfl⟩,
      (hsends'.queues_iff (· = "5,-7")).mpr ⟨_, messageHeap_ids, rfl⟩⟩
  refine ⟨task, task', hcreate, hcreate', hqueues, ?_⟩
  have hone := hqueues (.withStack 0) (GameInstance.new "g" 0)
  exact recipients_determined hmessage hinput hp hcreate hp' hcreate' hone.1 hone.2

theorem elementsOf_int_ne_nil_iff {h : Heap} {players : List VarPtr} :
    elementsOf VarType.int? h players ≠ [] ↔ ∃ q n, some q ∈ players ∧ h.value q = .int n := by
  have hmem : ∀ n, n ∈ elementsOf VarType.int? h players ↔
      ∃ q, some q ∈ players ∧ h.value q = .int n := by
    intro n
    rw [elementsOf, List.mem_filterMap]
    simp only [Option.bind_eq_some_iff, VarType.int?_eq_some]
    constructor
    · rintro ⟨_, hq, q, rfl, hvalue⟩
      exact ⟨q, hq, hvalue⟩
    · rintro ⟨q, hq, hvalue⟩
      exact ⟨some q, hq, q, rfl, hvalue⟩
  constructor
  · intro hne
    obtain ⟨n, hn⟩ := List.exists_mem_of_ne_nil _ hne
    obtain ⟨q, hq, hvalue⟩ := (hmem n).mp hn
    exact ⟨q, n, hq, hvalue⟩
  · rintro ⟨q, n, hq, hvalue⟩
    exact List.ne_nil_of_mem ((hmem n).mpr ⟨q, hq, hvalue⟩)

/-- **Sending.** Take any call that is accepted, of a factory of tasks that send to a list of
players. A run of the task queues exactly one message, addressed to the ints of the list with commas
between them, if and only if there is an int in the list. -/
theorem sends_iff {factory : TaskFactory} (hsends : factory.Sends) {p : VarAddr}
    {rest players : List VarPtr} {h : Heap} {task : RunnableTask} (hp : h.value p = .list players)
    (hcreate : factory.create (some p :: rest) h = .ok task) (lib : TaskLib)
    (game : GameInstance ι) :
    (task.Queues lib game fun msg => msg.playerIds
      = String.intercalate "," ((elementsOf VarType.int? h players).map stdToString)) ↔
    ∃ q n, some q ∈ players ∧ h.value q = .int n := by
  rw [(hsends.sendsTo hp hcreate).queues_iff (· = String.intercalate "," _),
    ← elementsOf_int_ne_nil_iff]
  constructor
  · rintro ⟨ids, hids, -⟩
    exact playerIds_eq_ok_iff.mp ⟨ids, hids⟩
  · intro hints
    exact ⟨_, playerIds_eq_intercalate hints, rfl⟩

/-- Two ints behind a string. -/
theorem sends_iff_two :
    ∃ task, MessageFactory.create .part [some 0, some 1] messageHeap = .ok task ∧
      ∀ (lib : TaskLib) (game : GameInstance Unit), task.Queues lib game fun msg =>
        msg.playerIds = String.intercalate ","
          ((elementsOf VarType.int? messageHeap [some 1, some 2, some 3]).map stdToString) := by
  obtain ⟨task, hcreate⟩ : ∃ task, MessageFactory.create .part [some 0, some 1] messageHeap
    = .ok task := ⟨_, rfl⟩
  have hmessage : TaskFactory.Sends (.message .part) := trivial
  have hp : messageHeap.value 0 = .list [some 1, some 2, some 3] := rfl
  refine ⟨task, hcreate, fun lib game => ?_⟩
  exact (sends_iff hmessage hp hcreate lib game).mpr ⟨2, 5, by simp, rfl⟩

/-- Variables: an empty list, a text, and a list of the text. -/
def emptyListHeap : Heap :=
  { cells := [.list [], .string "hello", .list [some 1]], vars := [0, 1, 2] }

/-- Sending to an empty list, and asking a list without ints for input, erases the first character
of an empty string. -/
theorem sends_to_nobody :
    (∃ task, MessageFactory.create .part [some 0, some 1] emptyListHeap = .ok task ∧
      ∀ (lib : TaskLib) (game : GameInstance Unit),
        (task.run lib).run game = .error (.undefined .pastEnd) game ∧
          ¬ task.Queues lib game fun msg => msg.playerIds = "") ∧
    ∃ task, InputFactory.create .part [some 2, some 1, some 1] emptyListHeap = .ok task ∧
      ∀ (lib : TaskLib) (game : GameInstance Unit),
        (task.run lib).run game = .error (.undefined .pastEnd) game ∧
          ¬ task.Queues lib game fun msg => msg.playerIds = "" := by
  have hnone : ∀ task : RunnableTask, task.SendsTo [] →
      ∀ (lib : TaskLib) (game : GameInstance Unit),
        (task.run lib).run game = .error (.undefined .pastEnd) game ∧
          ¬ task.Queues lib game fun msg => msg.playerIds = "" := by
    intro task hsends lib game
    refine ⟨hsends.run_error rfl lib game, fun hqueues => ?_⟩
    obtain ⟨ids, hids, -⟩ := (hsends.queues_iff (· = "")).mp hqueues
    exact playerIds_eq_ok_iff.mp ⟨ids, hids⟩ rfl
  exact ⟨⟨_, rfl, hnone _ (.message rfl rfl)⟩, ⟨_, rfl, hnone _ (.input rfl rfl)⟩⟩

end SocialGaming
