import SocialGaming.Library.Depth
import SocialGaming.TaskFactory

/-!
# What the factories check

A factory should not make a task that cannot run on the arguments it was made from. Some check the
number of arguments and leave it at that, and none looks into the lists it is given, where an
element may be null.

## Main definitions

* `Printable`, `PrintsNull` — what `printValue` can print, and what makes it dereference a null
  pointer
* `RunnableTask.Runs` — a run has no fault that the arguments are to blame for
* `TaskFactory.Rejects` — the factory throws, or makes a task that runs
* `TaskFactory.Fits` — the condition on the arguments under which it does

## Main results

* `printValue_error`, `PrintsNull.printValue` — when printing dereferences a null pointer
* `rejects_iff` — the condition is exact, for each of the factories
-/

namespace SocialGaming

open Filter (atTop)
open VariableUtils (printValue printVar)

variable {ι : Type} {address : Option StrAddr → String} {h : Heap}

/-! ### Printing -/

/-- A value that is not a list, or a list of pointers to values of which this is true. -/
inductive Printable (h : Heap) : VarType → Prop
  | other {v : VarType} (hv : ∀ l, v ≠ .list l) : Printable h v
  | list {l : List VarPtr} (hnull : none ∉ l) (hl : ∀ p, some p ∈ l → Printable h (h.value p)) :
      Printable h (.list l)

/-- A list in which, after elements that are printed, comes a null pointer or a value of which this
is true. -/
inductive PrintsNull (h : Heap) : VarType → Prop
  | here {done rest : List VarPtr} (hd : Printable h (.list done)) :
      PrintsNull h (.list (done ++ none :: rest))
  | inside {done rest : List VarPtr} {p : VarAddr} (hd : Printable h (.list done))
      (hp : PrintsNull h (h.value p)) : PrintsNull h (.list (done ++ some p :: rest))

theorem printValue_list (stack : ℕ) (l : List VarPtr) (delim : String) :
    printValue address h (stack + 1) (.list l) delim
      = (fun texts => String.join texts ++ delim) <$> l.mapM (printVar address h stack ", ") := by
  show (do
    let texts ← l.mapM (printVar address h stack ", ")
    return String.join texts ++ delim) = _
  rw [map_eq_pure_bind]

theorem printValue_of_not_list {v : VarType} (hv : ∀ l, v ≠ .list l) (stack : ℕ) (delim : String) :
    ∃ text, printValue address h (stack + 1) v delim = .ok text := by
  cases v with
  | list l => exact absurd rfl (hv l)
  | int n => exact ⟨_, rfl⟩
  | string s => exact ⟨_, rfl⟩
  | bool b => exact ⟨_, rfl⟩
  | map m => exact ⟨_, rfl⟩
  | varMap m => exact ⟨_, rfl⟩
  | pointer p => exact ⟨_, rfl⟩
  | none => exact ⟨_, rfl⟩

theorem printable_list_iff {l : List VarPtr} : Printable h (.list l) ↔
    ∀ item ∈ l, ∃ p, item = some p ∧ Printable h (h.value p) := by
  constructor
  · intro hl item hitem
    cases hl with
    | other hv => exact absurd rfl (hv l)
    | list hnull hl =>
      rcases item with _ | p
      · exact absurd hitem hnull
      · exact ⟨p, rfl, hl p hitem⟩
  · intro hl
    refine Printable.list (fun hnull => ?_) fun p hp => ?_
    · obtain ⟨p, hp, -⟩ := hl none hnull
      cases hp
    · obtain ⟨q, hq, hprint⟩ := hl (some p) hp
      obtain rfl := Option.some.inj hq
      exact hprint

/-- What has been printed could be. -/
theorem printable_of_printValue {stack : ℕ} {v : VarType} {delim text : String}
    (hv : printValue address h stack v delim = .ok text) : Printable h v := by
  induction stack generalizing v delim text with
  | zero => cases hv
  | succ stack ih =>
    by_cases hlist : ∃ l, v = .list l
    · obtain ⟨l, rfl⟩ := hlist
      rw [printValue_list] at hv
      rcases htexts : l.mapM (printVar address h stack ", ") with f | texts
      · rw [htexts] at hv
        cases hv
      · refine printable_list_iff.mpr fun item hitem => ?_
        obtain ⟨text', hitem'⟩ := Prog.forall_of_mapM_eq_ok htexts item hitem
        rcases item with _ | p
        · cases hitem'
        · exact ⟨p, rfl, ih hitem'⟩
    · exact Printable.other fun l hl => hlist ⟨l, hl⟩

/-- Why printing the elements of a list fails. -/
theorem mapM_printVar_error {stack : ℕ} {l : List VarPtr} {delim : String} {f : Fault Exn}
    (hp : ∀ p, printValue address h stack (h.value p) delim = .error f →
      f = .diverged ∨ f = .undefined .nullDeref ∧ PrintsNull h (h.value p))
    (hl : l.mapM (printVar address h stack delim) = .error f) :
    f = .diverged ∨ f = .undefined .nullDeref ∧ PrintsNull h (.list l) := by
  obtain ⟨done, item, rest, rfl, hdone, hitem⟩ := Prog.mapM_eq_error.mp hl
  have hd : Printable h (.list done) := printable_list_iff.mpr fun x hx => by
    obtain ⟨text, htext⟩ := hdone x hx
    rcases x with _ | p
    · cases htext
    · exact ⟨p, rfl, printable_of_printValue htext⟩
  rcases item with _ | p
  · exact Or.inr ⟨(Except.error.inj hitem).symm, PrintsNull.here hd⟩
  · rcases hp p hitem with hdiverged | ⟨hnull, hprints⟩
    · exact Or.inl hdiverged
    · exact Or.inr ⟨hnull, PrintsNull.inside hd hprints⟩

/-- Why printing fails. -/
theorem printValue_error {stack : ℕ} {v : VarType} {delim : String} {f : Fault Exn}
    (hv : printValue address h stack v delim = .error f) :
    f = .diverged ∨ f = .undefined .nullDeref ∧ PrintsNull h v := by
  induction stack generalizing v delim with
  | zero => exact Or.inl (Except.error.inj hv).symm
  | succ stack ih =>
    by_cases hlist : ∃ l, v = .list l
    · obtain ⟨l, rfl⟩ := hlist
      rw [printValue_list] at hv
      exact mapM_printVar_error (fun _ hp => ih hp) (Prog.map_eq_error.mp hv)
    · obtain ⟨text, htext⟩ : ∃ text, printValue address h (stack + 1) v delim = .ok text :=
        printValue_of_not_list (fun l hl => hlist ⟨l, hl⟩) stack delim
      rw [hv] at htext
      cases htext

/-- The elements of a list can be printed if each of them can. -/
theorem eventually_printVar {l : List VarPtr} (hnull : none ∉ l)
    (hl : ∀ p, some p ∈ l → ∀ᶠ stack in atTop, ∀ delim, ∃ text,
      printValue address h stack (h.value p) delim = .ok text) :
    ∀ᶠ stack in atTop, ∀ delim, ∀ item ∈ l, ∃ text,
      printVar address h stack delim item = .ok text := by
  refine (eventually_forall_some hl).mono fun stack hstack delim item hitem => ?_
  obtain ⟨p, rfl⟩ := Option.ne_none_iff_exists'.mp (ne_of_mem_of_not_mem hitem hnull)
  exact hstack p hitem delim

/-- What can be printed is, if the stack is large enough. -/
theorem Printable.printValue (address : Option StrAddr → String) {v : VarType}
    (hv : Printable h v) :
    ∀ᶠ stack in atTop, ∀ delim, ∃ text, printValue address h stack v delim = .ok text := by
  induction hv with
  | other hv => exact eventually_succ (Filter.Eventually.of_forall (printValue_of_not_list hv))
  | @list l hnull _ ih =>
    refine eventually_succ ((eventually_printVar hnull ih).mono fun stack hstack delim => ?_)
    obtain ⟨texts, htexts⟩ := Prog.exists_mapM_eq_ok (hstack ", ")
    rw [printValue_list, htexts]
    exact ⟨_, rfl⟩

theorem Printable.mapM_printVar {l : List VarPtr} (hl : Printable h (.list l))
    (address : Option StrAddr → String) :
    ∀ᶠ stack in atTop, ∀ delim, ∀ item ∈ l, ∃ text,
      printVar address h stack delim item = .ok text := by
  cases hl with
  | other hv => exact absurd rfl (hv l)
  | list hnull hl => exact eventually_printVar hnull fun p hp => (hl p hp).printValue address

/-- Elements that can be printed, and then one at which printing comes to a null pointer. -/
theorem Printable.mapM_printVar_append {done rest : List VarPtr} {item : VarPtr}
    (hd : Printable h (.list done))
    (hitem : ∀ᶠ stack in atTop, ∀ delim,
      printVar address h stack delim item = .error (.undefined .nullDeref)) :
    ∀ᶠ stack in atTop, ∀ delim, (done ++ item :: rest).mapM (printVar address h stack delim)
      = .error (.undefined .nullDeref) := by
  refine ((hd.mapM_printVar address).and hitem).mono ?_
  rintro stack ⟨hdone, hitem⟩ delim
  exact Prog.mapM_eq_error.mpr ⟨done, item, rest, rfl, hdone delim, hitem delim⟩

theorem printValue_list_error {l : List VarPtr} {f : Fault Exn}
    (hl : ∀ᶠ stack in atTop, ∀ delim, l.mapM (printVar address h stack delim) = .error f) :
    ∀ᶠ stack in atTop, ∀ delim, printValue address h stack (.list l) delim = .error f := by
  refine eventually_succ (hl.mono fun stack hstack delim => ?_)
  rw [printValue_list, Prog.map_eq_error]
  exact hstack ", "

/-- Printing comes to a null pointer, if the stack is large enough. -/
theorem PrintsNull.printValue (address : Option StrAddr → String) {v : VarType}
    (hv : PrintsNull h v) : ∀ᶠ stack in atTop, ∀ delim,
      printValue address h stack v delim = .error (.undefined .nullDeref) := by
  induction hv with
  | here hd =>
    exact printValue_list_error
      (hd.mapM_printVar_append (Filter.Eventually.of_forall fun _ _ => rfl))
  | inside hd _ ih =>
    exact printValue_list_error (hd.mapM_printVar_append ih)

/-- The same for the elements of a list, one by one. -/
theorem PrintsNull.mapM_printVar (address : Option StrAddr → String) {l : List VarPtr}
    (hl : PrintsNull h (.list l)) : ∀ᶠ stack in atTop, ∀ delim,
      l.mapM (printVar address h stack delim) = .error (.undefined .nullDeref) := by
  cases hl with
  | here hd => exact hd.mapM_printVar_append (Filter.Eventually.of_forall fun _ _ => rfl)
  | inside hd hp => exact hd.mapM_printVar_append (hp.printValue address)

/-! ### Runs -/

/-- The fault is a type error, or a null pointer is dereferenced. -/
def Fault.IsOfArguments : Fault Exn → Prop
  | .thrown (.badVariableArg _) => True
  | .thrown .badVariantAccess => True
  | .undefined .nullDeref => True
  | _ => False

/-- The call has no such fault. -/
def NoFault {σ α : Type} (r : EStateM.Result (Fault Exn) σ α) : Prop :=
  ∀ f s, r = .error f s → ¬ f.IsOfArguments

/-- Running the task has none, whatever the library and the machine do. -/
def RunnableTask.Runs (task : RunnableTask) (game : GameInstance ι) : Prop :=
  ∀ lib, NoFault ((task.run lib).run game)

/-- What has been created is a `BadVariableArgException`, or a task that runs. -/
def Rejecting (created : Except (Fault Exn) RunnableTask) (game : GameInstance ι) : Prop :=
  (∃ msg, created = .error (.thrown (.badVariableArg msg))) ∨
    ∃ task, created = .ok task ∧ task.Runs game

/-- The factory throws a `BadVariableArgException`, or makes a task that runs. -/
def TaskFactory.Rejects (factory : TaskFactory) (vars : List VarPtr)
    (game : GameInstance ι) : Prop :=
  Rejecting (factory.create vars game.envMgr.heap) game

section

variable {game : GameInstance ι}

theorem noFault_ok {σ α : Type} (a : α) (s : σ) : NoFault (.ok a s) := nofun

theorem noFault_error {σ α : Type} {f : Fault Exn} {s : σ} :
    NoFault (.error f s : EStateM.Result (Fault Exn) σ α) ↔ ¬ f.IsOfArguments := by
  constructor
  · exact fun h => h f s rfl
  · rintro h _ _ ⟨⟩
    exact h

@[simp] theorem rejecting_throw (msg : String) :
    Rejecting (.error (.thrown (.badVariableArg msg))) game :=
  Or.inl ⟨msg, rfl⟩

@[simp] theorem not_rejecting_undefined (u : Undefined) :
    ¬ Rejecting (.error (.undefined u)) game := by
  rintro (⟨msg, h⟩ | ⟨task, h, -⟩)
  · cases h
  · cases h

@[simp] theorem rejecting_ok {task : RunnableTask} :
    Rejecting (.ok task) game ↔ task.Runs game := by
  constructor
  · rintro (⟨msg, h⟩ | ⟨task', h, hruns⟩)
    · cases h
    · obtain rfl := Except.ok.inj h
      exact hruns
  · exact fun h => Or.inr ⟨task, rfl, h⟩

/-! ### Tasks on lists -/

theorem onStorage_run {a : CellAddr} {f : VarType → Heap → Except (Fault Exn) (VarType × Heap)} :
    (onStorage a f).run game = match f (game.envMgr.heap.cell a) game.envMgr.heap with
      | .ok (v, heap) => .ok () (game.setEnvMgr { game.envMgr with heap := heap.write a v })
      | .error e => .error e (game.setEnvMgr game.envMgr) := by
  rcases h : f (game.envMgr.heap.cell a) game.envMgr.heap with e | ⟨v, heap⟩
  · simp [onStorage, Prog.run_zoom, h]
  · simp [onStorage, Prog.run_zoom, h]

/-- An operation on lists. -/
theorem noFault_onStorage_iff {a : CellAddr} {op : VarType → Except (Fault Exn) VarType}
    (hlist : ∀ l, ∃ v, op (.list l) = .ok v)
    (hother : ∀ v, (∀ l, v ≠ .list l) → ∃ msg, op v = .error (.thrown (.badVariableArg msg))) :
    NoFault ((onStorage a fun v h => return (← op v, h)).run game) ↔
      ∃ l, game.envMgr.heap.cell a = .list l := by
  rw [onStorage_run]
  by_cases h : ∃ l, game.envMgr.heap.cell a = .list l
  · refine iff_of_true ?_ h
    obtain ⟨l, hl⟩ := h
    obtain ⟨v, hv⟩ := hlist l
    rw [hl, hv]
    exact noFault_ok _ _
  · refine iff_of_false ?_ h
    obtain ⟨msg, hmsg⟩ := hother _ fun l hl => h ⟨l, hl⟩
    rw [hmsg]
    exact fun hno => hno _ _ rfl trivial

/-- A library. -/
def TaskLib.withStack (stack : ℕ) : TaskLib := ⟨id, List.Perm.refl, fun _ => "", stack⟩

/-- A task that applies an operation to its list. -/
theorem runs_iff_of_onStorage {task : RunnableTask} {a : CellAddr}
    {op : TaskLib → VarType → Except (Fault Exn) VarType}
    (hrun : ∀ lib, (task.run lib : Call (GameInstance ι) Unit)
      = onStorage a fun v h => return (← op lib v, h))
    (hlist : ∀ lib l, ∃ v, op lib (.list l) = .ok v)
    (hother : ∀ lib v, (∀ l, v ≠ .list l) →
      ∃ msg, op lib v = .error (.thrown (.badVariableArg msg))) :
    task.Runs game ↔ ∃ l, game.envMgr.heap.cell a = .list l := by
  have hop : ∀ lib, NoFault ((task.run lib).run game) ↔
      ∃ l, game.envMgr.heap.cell a = .list l := by
    intro lib
    rw [hrun]
    exact noFault_onStorage_iff (hlist lib) (hother lib)
  exact ⟨fun h => (hop (.withStack 0)).mp (h _), fun h lib => (hop lib).mpr h⟩

theorem ListObjUtils.reverse_of_not_list {v : VarType} (hv : ∀ l, v ≠ .list l) :
    ∃ msg, ListObjUtils.reverse v = .error (.thrown (.badVariableArg msg)) := by
  cases v with
  | list l => exact absurd rfl (hv l)
  | _ => exact ⟨_, rfl⟩

theorem ListObjUtils.shuffle_of_not_list (lib : TaskLib) {v : VarType} (hv : ∀ l, v ≠ .list l) :
    ∃ msg, ListObjUtils.shuffle lib v = .error (.thrown (.badVariableArg msg)) := by
  cases v with
  | list l => exact absurd rfl (hv l)
  | _ => exact ⟨_, rfl⟩

theorem ReverseTask.runs_iff {p : VarAddr} :
    (RunnableTask.reverse (.new p game.envMgr.heap)).Runs game ↔
      ∃ l, game.envMgr.heap.value p = .list l :=
  runs_iff_of_onStorage (fun _ => rfl) (fun _ _ => ⟨_, rfl⟩)
    fun _ _ => ListObjUtils.reverse_of_not_list

theorem ShuffleTask.runs_iff {p : VarAddr} :
    (RunnableTask.shuffle (.new p game.envMgr.heap)).Runs game ↔
      ∃ l, game.envMgr.heap.value p = .list l :=
  runs_iff_of_onStorage (fun _ => rfl) (fun _ _ => ⟨_, rfl⟩)
    fun lib _ => ListObjUtils.shuffle_of_not_list lib

/-- A copy of the element is put at the end of the list. -/
theorem ExtendTask.run_push {a : CellAddr} {l : List VarPtr}
    (hl : game.envMgr.heap.cell a = .list l) (p : VarAddr) :
    (onStorage a fun v h => ListObjUtils.pushBack v (h.value p) h).run game
      = .ok () (game.setEnvMgr { game.envMgr with
          heap := (game.envMgr.heap.makeVariable (game.envMgr.heap.value p)).2.write a
            (.list (l ++ [some game.envMgr.heap.vars.length])) }) := by
  rw [onStorage_run, hl]
  rfl

theorem ExtendTask.run_cons (a : CellAddr) (p : VarAddr) (elems : List VarPtr) :
    (ExtendTask.run ⟨some a, some p :: elems⟩ : Call (GameInstance ι) Unit) = (do
      onStorage a fun v h => ListObjUtils.pushBack v (h.value p) h
      ExtendTask.run ⟨some a, elems⟩) :=
  rfl

/-- A null element stops the loop, and nothing else does. -/
theorem ExtendTask.run_cases (elems : List VarPtr) {a : CellAddr} {l : List VarPtr}
    (hl : game.envMgr.heap.cell a = .list l) :
    (none ∉ elems ∧ ∃ game', (ExtendTask.run ⟨some a, elems⟩).run game = .ok () game') ∨
      (none ∈ elems ∧ ∃ game',
        (ExtendTask.run ⟨some a, elems⟩).run game = .error (.undefined .nullDeref) game') := by
  induction elems generalizing game l with
  | nil => exact Or.inl ⟨List.not_mem_nil, game, rfl⟩
  | cons item elems ih =>
    rcases item with _ | p
    · exact Or.inr ⟨List.mem_cons_self, game, rfl⟩
    have hext := game.envMgr.heap.extends_makeVariable (game.envMgr.heap.value p)
    have hlt := Heap.lt_length_of_cell_eq_list (hext.cell_eq_list hl)
    have hl' := Heap.cell_write_self hlt (.list (l ++ [some game.envMgr.heap.vars.length]))
    have hrest : (ExtendTask.run ⟨some a, some p :: elems⟩).run game
        = (ExtendTask.run ⟨some a, elems⟩).run (game.setEnvMgr { game.envMgr with
            heap := (game.envMgr.heap.makeVariable (game.envMgr.heap.value p)).2.write a
              (.list (l ++ [some game.envMgr.heap.vars.length])) }) := by
      rw [ExtendTask.run_cons, EStateM.run_bind, ExtendTask.run_push hl]
    have hmem : none ∈ some p :: elems ↔ none ∈ elems := by
      rw [List.mem_cons, or_iff_right (by simp)]
    rw [hrest, hmem]
    exact ih hl'

theorem ExtendTask.runs_iff {p : VarAddr} {l elems : List VarPtr}
    (hl : game.envMgr.heap.value p = .list l) :
    (RunnableTask.extend (.new p elems game.envMgr.heap)).Runs game ↔ none ∉ elems := by
  rcases ExtendTask.run_cases elems hl with ⟨hno, game', hrun⟩ | ⟨hnull, game', hrun⟩
  · refine iff_of_true (fun lib => ?_) hno
    show NoFault ((ExtendTask.run ⟨some _, elems⟩).run game)
    rw [hrun]
    exact noFault_ok _ _
  · refine iff_of_false (fun hruns => ?_) (not_not.mpr hnull)
    have hfault : NoFault ((ExtendTask.run ⟨some _, elems⟩).run game) := hruns (.withStack 0)
    rw [hrun] at hfault
    exact hfault _ _ rfl trivial

/-! ### Tasks that send messages -/

/-- Without players there is no first comma. -/
theorem playerIds_error {playerList : List Int32} {f : Fault Exn}
    (h : playerIds playerList = .error f) : f = .undefined .pastEnd := by
  rw [playerIds] at h
  split at h
  · exact (Except.error.inj h).symm
  · cases h

/-- Sending to players. -/
theorem noFault_send (playerList : List Int32) (msg : GameMsgType) :
    NoFault (EStateM.run (do
      let ids ← Prog.ofExcept (playerIds playerList)
      PartPtr.queueMessage .part ids msg) game) := by
  rw [EStateM.run_bind]
  rcases h : playerIds playerList with f | ids
  · obtain rfl := playerIds_error h
    exact noFault_error.mpr not_false
  · exact noFault_ok _ _

theorem InputTask.runs {task : InputTask} (h : task.playerHandler = .part) :
    (RunnableTask.input task).Runs game := by
  intro lib
  rw [RunnableTask.run, InputTask.run, h]
  exact noFault_send _ _

theorem MessageTask.runs {task : MessageTask} (h : task.playerHandler = .part) :
    (RunnableTask.message task).Runs game := by
  intro lib
  rw [RunnableTask.run, MessageTask.run, h]
  exact noFault_send _ _

theorem ScoresTask.addScores_eq (lib : TaskLib) (h : Heap) (curr : ℕ) (scores : List VarPtr)
    (msg : GameMsgType) :
    ScoresTask.addScores lib h curr scores msg
      = (fun texts => numbered (fun i => "score" ++ toString i) curr texts msg) <$>
          scores.mapM (printVar lib.address h lib.stack "") := by
  induction scores generalizing curr msg with
  | nil => rfl
  | cons score scores ih =>
    rw [ScoresTask.addScores, List.mapM_cons]
    rcases printVar lib.address h lib.stack "" score with f | text
    · rfl
    · show ScoresTask.addScores lib h (curr + 1) scores _ = _
      rw [ih]
      rcases scores.mapM (printVar lib.address h lib.stack "") with f | texts
      · rfl
      · rfl

theorem ScoresTask.runs_iff {task : ScoresTask} (h : task.playerHandler = .part) :
    (RunnableTask.scores task).Runs game ↔
      ¬ PrintsNull game.envMgr.heap (.list task.playerScores) := by
  have hrun : ∀ lib, ∃ msg, (RunnableTask.run lib (.scores task)).run game = EStateM.run (do
      let msg ← Prog.ofExcept (ScoresTask.addScores lib game.envMgr.heap 0 task.playerScores msg)
      PartPtr.queueMessage .part (stdToString task.ownerId) msg) game := by
    intro lib
    rw [← h]
    exact ⟨_, rfl⟩
  constructor
  · intro hruns hnull
    obtain ⟨n, hn⟩ := (hnull.mapM_printVar (TaskLib.withStack 0).address).exists
    obtain ⟨msg, hmsg⟩ := hrun (.withStack n)
    have hprint : task.playerScores.mapM (printVar (TaskLib.withStack n).address game.envMgr.heap
        (TaskLib.withStack n).stack "") = .error (.undefined .nullDeref) := hn ""
    have hfault := hruns (.withStack n)
    rw [hmsg, EStateM.run_bind, ScoresTask.addScores_eq, Prog.map_eq_error.mpr hprint] at hfault
    exact hfault _ _ rfl trivial
  · intro hnot lib
    obtain ⟨msg, hmsg⟩ := hrun lib
    rw [hmsg, EStateM.run_bind, ScoresTask.addScores_eq]
    rcases htexts : task.playerScores.mapM (printVar lib.address game.envMgr.heap lib.stack "")
      with f | texts
    · rcases mapM_printVar_error (fun p hp => printValue_error hp) htexts with rfl | ⟨rfl, hnull⟩
      · exact noFault_error.mpr not_false
      · exact absurd hnull hnot
    · exact noFault_ok _ _

theorem NameView.read_of_cell {view : NameView} {h : Heap}
    (hcell : h.cell view.storage = .string view.text) : view.read h = .ok view.text :=
  if_pos hcell

/-- The name is there, and is bound. -/
theorem AssignmentTask.run_eq {task : AssignmentTask} (h : task.mgr = .part)
    (hname : game.envMgr.heap.cell task.name.storage = .string task.name.text) :
    task.run.run game
      = .ok () (game.setEnvMgr (game.envMgr.assign task.name.text (.pointer task.val))) := by
  rw [AssignmentTask.run, h]
  show EStateM.run (Prog.zoom _ _ _) game = _
  have hread := NameView.read_of_cell hname
  rw [Prog.run_zoom, EStateM.run_bind, EStateM.run_get]
  dsimp only
  rw [hread, EStateM.run_bind, Prog.run_ofExcept_ok]
  dsimp only
  rw [setVariable_run]

/-- The name is not there any more. -/
theorem AssignmentTask.run_undefined {task : AssignmentTask} (h : task.mgr = .part)
    (hname : game.envMgr.heap.cell task.name.storage ≠ .string task.name.text) :
    task.run.run game = .error (.undefined .dangling) game := by
  have hread : task.name.read game.envMgr.heap = .error (.undefined .dangling) := if_neg hname
  rw [AssignmentTask.run, h]
  show EStateM.run (Prog.zoom _ _ _) game = _
  rw [Prog.run_zoom, EStateM.run_bind, EStateM.run_get]
  dsimp only
  rw [hread, EStateM.run_bind, Prog.run_ofExcept_error]
  rfl

theorem AssignmentTask.runs {task : AssignmentTask} (h : task.mgr = .part)
    (hname : game.envMgr.heap.cell task.name.storage = .string task.name.text) :
    (RunnableTask.assignment task).Runs game := by
  intro lib
  show NoFault (task.run.run game)
  rw [AssignmentTask.run_eq h hname]
  exact noFault_ok _ _

end

/-! ### What is checked -/

theorem VarType.list?_eq_some {v : VarType} {l : List VarPtr} : v.list? = some l ↔ v = .list l := by
  cases v <;> simp [VarType.list?]

theorem VarType.string?_eq_some {v : VarType} {s : String} :
    v.string? = some s ↔ v = .string s := by
  cases v <;> simp [VarType.string?]

theorem VarType.int?_eq_some {v : VarType} {n : Int32} : v.int? = some n ↔ v = .int n := by
  cases v <;> simp [VarType.int?]

theorem exists_eq_map_some {α : Type} {l : List (Option α)} (h : none ∉ l) :
    ∃ ps : List α, l = ps.map some := by
  induction l with
  | nil => exact ⟨[], rfl⟩
  | cons item l ih =>
    rw [List.mem_cons, not_or] at h
    obtain ⟨p, rfl⟩ := Option.ne_none_iff_exists'.mp (Ne.symm h.1)
    obtain ⟨ps, rfl⟩ := ih h.2
    exact ⟨p :: ps, rfl⟩

/-- Either the arguments are refused, or there are as many as there should be and none is null. -/
theorem checkPreconditions_cases (lo hi : ℕ) (sizeErrorMsg : String) (vars : List VarPtr) :
    ((∃ msg, checkPreconditions lo hi sizeErrorMsg vars = .error (.thrown (.badVariableArg msg))) ∧
      ∀ ps : List VarAddr, vars = ps.map some → ps.length < lo ∨ hi < ps.length) ∨
    checkPreconditions lo hi sizeErrorMsg vars = .ok true ∧
      ∃ ps : List VarAddr, vars = ps.map some ∧ lo ≤ ps.length ∧ ps.length ≤ hi := by
  rw [checkPreconditions]
  split
  · rename_i hsize
    refine Or.inl ⟨⟨_, rfl⟩, ?_⟩
    rintro ps rfl
    rwa [List.length_map] at hsize
  rename_i hsize
  rw [not_or, not_lt, not_lt] at hsize
  split
  · rename_i hnull
    refine Or.inl ⟨⟨_, rfl⟩, ?_⟩
    rintro ps rfl
    simp at hnull
  · rename_i hnull
    have hno : none ∉ vars := fun hmem => by
      rw [not_not, List.all_eq_true] at hnull
      exact Bool.false_ne_true (hnull none hmem)
    obtain ⟨ps, rfl⟩ := exists_eq_map_some hno
    rw [List.length_map] at hsize
    exact Or.inr ⟨rfl, ps, rfl, hsize⟩

/-- A pointer to the player handler is checked. -/
theorem eq_part_of_checkPreconditionsHandler {lo hi : ℕ} {sizeErrorMsg : String}
    {vars : List VarPtr} {playerHandler : PartPtr} {checked : Bool}
    (hcheck : checkPreconditionsHandler lo hi sizeErrorMsg vars playerHandler = .ok checked) :
    playerHandler = .part := by
  rcases playerHandler with _ | _
  · simp [checkPreconditionsHandler] at hcheck
  · rfl

/-- Copying dereferences a null element, whatever it copies. -/
theorem copyVec_cases {α : Type} (getIf : VarType → Option α) (h : Heap) (vec : List VarPtr) :
    (none ∉ vec ∧ ∃ copied, copyVec getIf h vec = .ok copied) ∨
      (none ∈ vec ∧ copyVec getIf h vec = .error (.undefined .nullDeref)) := by
  induction vec with
  | nil => exact Or.inl ⟨List.not_mem_nil, [], rfl⟩
  | cons item vec ih =>
    rcases item with _ | p
    · exact Or.inr ⟨List.mem_cons_self, rfl⟩
    have hmem : none ∈ some p :: vec ↔ none ∈ vec := by
      rw [List.mem_cons, or_iff_right (by simp)]
    rw [hmem, copyVec]
    rcases ih with ⟨hno, copied, hcopied⟩ | ⟨hnull, hcopied⟩
    · exact Or.inl ⟨hno, _, by rw [hcopied]; rfl⟩
    · exact Or.inr ⟨hnull, by rw [hcopied]; rfl⟩

/-! ### The factories -/

section

variable {vars : List VarPtr} {game : GameInstance ι}

/-- A factory that takes one argument and checks how many there are. -/
theorem rejecting_single (create : List VarPtr → Heap → Except (Fault Exn) RunnableTask)
    {mk : VarAddr → RunnableTask}
    (hsize : ∀ vars, vars.length ≠ 1 →
      ∃ msg, create vars game.envMgr.heap = .error (.thrown (.badVariableArg msg)))
    (hnull : create [none] game.envMgr.heap = .error (.undefined .nullDeref))
    (hmk : ∀ p, create [some p] game.envMgr.heap = .ok (mk p))
    (hruns : ∀ p, (mk p).Runs game ↔ ∃ l, game.envMgr.heap.value p = .list l) :
    Rejecting (create vars game.envMgr.heap) game ↔
      (vars.length = 1 → ∃ p l, vars = [some p] ∧ game.envMgr.heap.value p = .list l) := by
  by_cases hlen : vars.length = 1
  · obtain ⟨item, rfl⟩ := List.length_eq_one_iff.mp hlen
    rcases item with _ | p
    · rw [hnull]
      exact iff_of_false (not_rejecting_undefined _) (by simp)
    · rw [hmk, rejecting_ok, hruns]
      simp
  · obtain ⟨msg, hmsg⟩ := hsize vars hlen
    rw [hmsg]
    exact iff_of_true (rejecting_throw msg) fun h => absurd h hlen

/-- Only the number of the arguments is checked. -/
theorem ReverseFactory.rejecting_iff :
    Rejecting (ReverseFactory.create vars game.envMgr.heap) game ↔
    (vars.length = 1 → ∃ p l, vars = [some p] ∧ game.envMgr.heap.value p = .list l) :=
  rejecting_single ReverseFactory.create (fun _ hlen => ⟨_, if_pos hlen⟩) rfl (fun _ => rfl)
    fun _ => ReverseTask.runs_iff

theorem ShuffleFactory.rejecting_iff :
    Rejecting (ShuffleFactory.create vars game.envMgr.heap) game ↔
    (vars.length = 1 → ∃ p l, vars = [some p] ∧ game.envMgr.heap.value p = .list l) :=
  rejecting_single ShuffleFactory.create (fun _ hlen => ⟨_, if_pos hlen⟩) rfl (fun _ => rfl)
    fun _ => ShuffleTask.runs_iff

/-- A factory that starts with `checkPreconditions`: what is left is the case that the arguments are
as many as there should be and not null. -/
theorem rejecting_checked {lo hi : ℕ} {sizeErrorMsg : String}
    {rest : Bool → Except (Fault Exn) RunnableTask} {P : Prop}
    (hrefused : (∀ ps : List VarAddr, vars = ps.map some → ps.length < lo ∨ hi < ps.length) → P)
    (hchecked : ∀ ps : List VarAddr, vars = ps.map some → lo ≤ ps.length → ps.length ≤ hi →
      checkPreconditions lo hi sizeErrorMsg vars = .ok true →
      (Rejecting (checkPreconditions lo hi sizeErrorMsg vars >>= rest) game ↔ P)) :
    Rejecting (checkPreconditions lo hi sizeErrorMsg vars >>= rest) game ↔ P := by
  rcases checkPreconditions_cases lo hi sizeErrorMsg vars with
    ⟨⟨msg, hmsg⟩, hno⟩ | ⟨hok, ps, hps, hlo, hhi⟩
  · rw [hmsg]
    exact iff_of_true (rejecting_throw msg) (hrefused hno)
  · exact hchecked ps hps hlo hhi hok

/-- A task that is made by copying a list, in which no element may be null. -/
theorem rejecting_copy {α τ : Type} {getIf : VarType → Option α} {vec : List VarPtr} {h : Heap}
    {new : List α → τ} {mk : τ → RunnableTask} {Q : Prop}
    (hruns : ∀ copied, (mk (new copied)).Runs game ↔ Q) :
    Rejecting ((do return new (← copyVec getIf h vec)) >>= fun task => return mk task) game ↔
      none ∉ vec ∧ Q := by
  rcases copyVec_cases getIf h vec with ⟨hno, copied, hcopied⟩ | ⟨hnull, hcopied⟩
  · rw [hcopied, and_iff_right hno]
    exact Iff.trans rejecting_ok (hruns copied)
  · rw [hcopied]
    exact iff_of_false (not_rejecting_undefined _) fun h => h.1 hnull

/-- One that is made by copying two, and runs. -/
theorem rejecting_copy₂ {α β τ : Type} {getIf : VarType → Option α} {getIf' : VarType → Option β}
    {vec vec' : List VarPtr} {h : Heap} {new : List α → List β → τ} {mk : τ → RunnableTask}
    (hruns : ∀ copied copied', (mk (new copied copied')).Runs game) :
    Rejecting ((do return new (← copyVec getIf h vec) (← copyVec getIf' h vec')) >>= fun task =>
      return mk task) game ↔ none ∉ vec ∧ none ∉ vec' := by
  rcases copyVec_cases getIf h vec with ⟨hno, copied, hcopied⟩ | ⟨hnull, hcopied⟩
  · rw [and_iff_right hno]
    rcases copyVec_cases getIf' h vec' with ⟨hno', copied', hcopied'⟩ | ⟨hnull', hcopied'⟩
    · rw [hcopied, hcopied']
      exact iff_of_true (rejecting_ok.mpr (hruns copied copied')) hno'
    · rw [hcopied, hcopied']
      exact iff_of_false (not_rejecting_undefined _) fun h => h hnull'
  · rw [hcopied]
    exact iff_of_false (not_rejecting_undefined _) fun h => h.1 hnull

theorem ExtendFactory.create_checked (p q : VarAddr) (h : Heap) :
    ExtendFactory.create [some p, some q] h = match (h.value p).list?, (h.value q).list? with
      | some _, some elems => .ok (.extend (.new p elems h))
      | _, _ => .error (.thrown (.badVariableArg "Expected two listObjs")) := rfl

/-- The elements of the second list are not checked. -/
theorem ExtendFactory.rejecting_iff : Rejecting (ExtendFactory.create vars game.envMgr.heap) game ↔
    ∀ p q l elems, vars = [some p, some q] → game.envMgr.heap.value p = .list l →
      game.envMgr.heap.value q = .list elems → none ∉ elems := by
  refine rejecting_checked ?_ ?_
  · rintro hno p q l elems rfl
    exact absurd (hno [p, q] rfl) (by simp)
  rintro ps rfl hlo hhi -
  obtain ⟨p, q, rfl⟩ := List.length_eq_two.mp (le_antisymm hhi hlo)
  have hargs : (∀ p' q' l elems, [p, q].map some = [some p', some q'] →
      game.envMgr.heap.value p' = .list l → game.envMgr.heap.value q' = .list elems →
        none ∉ elems) ↔
      ∀ l elems, (game.envMgr.heap.value p).list? = some l →
        (game.envMgr.heap.value q).list? = some elems → none ∉ elems := by
    simp only [VarType.list?_eq_some]
    constructor
    · exact fun h l elems => h p q l elems rfl
    · rintro h _ _ l elems ⟨⟩
      exact h l elems
  rw [hargs]
  show Rejecting (ExtendFactory.create [some p, some q] game.envMgr.heap) game ↔ _
  rw [ExtendFactory.create_checked]
  rcases hp : (game.envMgr.heap.value p).list? with _ | l
  · exact iff_of_true (rejecting_throw _) nofun
  rcases hq : (game.envMgr.heap.value q).list? with _ | elems
  · exact iff_of_true (rejecting_throw _) nofun
  rw [rejecting_ok, ExtendTask.runs_iff (VarType.list?_eq_some.mp hp)]
  simp

theorem MessageFactory.create_checked (p q : VarAddr) (h : Heap) :
    MessageFactory.create .part [some p, some q] h
      = match (h.value p).list?, (h.value q).string? with
      | some list, some text => do return .message (← MessageTask.new .part list text h)
      | _, _ => .error (.thrown (.badVariableArg "Expected two listObjs")) := rfl

/-- The elements of the list are not checked. -/
theorem MessageFactory.rejecting_iff {playerHandler : PartPtr} :
    Rejecting (MessageFactory.create playerHandler vars game.envMgr.heap) game ↔
      (playerHandler = .part → ∀ p q players text, vars = [some p, some q] →
        game.envMgr.heap.value p = .list players → game.envMgr.heap.value q = .string text →
          none ∉ players) := by
  rcases playerHandler with _ | _
  · exact iff_of_true (rejecting_throw _) nofun
  refine rejecting_checked ?_ ?_
  · rintro hno - p q players text rfl
    exact absurd (hno [p, q] rfl) (by simp)
  rintro ps rfl hlo hhi -
  obtain ⟨p, q, rfl⟩ := List.length_eq_two.mp (le_antisymm hhi hlo)
  have hargs : (PartPtr.part = .part → ∀ p' q' players text,
      [p, q].map some = [some p', some q'] → game.envMgr.heap.value p' = .list players →
        game.envMgr.heap.value q' = .string text → none ∉ players) ↔
      ∀ players text, (game.envMgr.heap.value p).list? = some players →
        (game.envMgr.heap.value q).string? = some text → none ∉ players := by
    simp only [VarType.list?_eq_some, VarType.string?_eq_some]
    constructor
    · exact fun h players text => h trivial p q players text rfl
    · rintro h - _ _ players text ⟨⟩
      exact h players text
  rw [hargs]
  show Rejecting (MessageFactory.create .part [some p, some q] game.envMgr.heap) game ↔ _
  rw [MessageFactory.create_checked]
  rcases hp : (game.envMgr.heap.value p).list? with _ | players
  · exact iff_of_true (rejecting_throw _) nofun
  rcases hq : (game.envMgr.heap.value q).string? with _ | text
  · exact iff_of_true (rejecting_throw _) nofun
  refine Iff.trans (rejecting_copy (Q := True) fun _ => ?_) ?_
  · exact iff_of_true (MessageTask.runs rfl) trivial
  · simp

theorem exists_of_length_eq_four {α : Type} {l : List α} (h : l.length = 4) :
    ∃ a b c d, l = [a, b, c, d] := by
  obtain ⟨a, l, rfl⟩ := List.exists_cons_of_length_eq_add_one h
  obtain ⟨b, c, d, rfl⟩ := List.length_eq_three.mp (Nat.succ.inj h)
  exact ⟨a, b, c, d, rfl⟩

theorem exists_of_three_le_length {α : Type} {l : List α} (h : 3 ≤ l.length) :
    ∃ a b c rest, l = a :: b :: c :: rest := by
  rcases l with _ | ⟨a, _ | ⟨b, _ | ⟨c, rest⟩⟩⟩
  · simp at h
  · simp at h
  · simp at h
  · exact ⟨a, b, c, rest, rfl⟩

theorem ScoresFactory.create_checked (o n s a : VarAddr) (h : Heap) :
    ScoresFactory.create .part [some o, some n, some s, some a] h
      = match (h.value o).int?, (h.value n).list?, (h.value s).list?, (h.value a).string? with
      | some ownerId, some nameList, some scoreList, some attrName => do
        return .scores (← ScoresTask.new .part ownerId nameList scoreList attrName h)
      | _, _, _, _ =>
        .error (.thrown (.badVariableArg "Expected listObj, listObj, int, string")) := rfl

/-- The elements of the lists are not checked. -/
theorem ScoresFactory.rejecting_iff {playerHandler : PartPtr} :
    Rejecting (ScoresFactory.create playerHandler vars game.envMgr.heap) game ↔
      (playerHandler = .part → ∀ o n s a ownerId names scores attr,
        vars = [some o, some n, some s, some a] → game.envMgr.heap.value o = .int ownerId →
          game.envMgr.heap.value n = .list names → game.envMgr.heap.value s = .list scores →
            game.envMgr.heap.value a = .string attr →
              none ∉ names ∧ ¬ PrintsNull game.envMgr.heap (.list scores)) := by
  rcases playerHandler with _ | _
  · exact iff_of_true (rejecting_throw _) nofun
  refine rejecting_checked ?_ ?_
  · rintro hno - o n s a ownerId names scores attr rfl
    exact absurd (hno [o, n, s, a] rfl) (by simp)
  rintro ps rfl hlo hhi -
  obtain ⟨o, n, s, a, rfl⟩ := exists_of_length_eq_four (le_antisymm hhi hlo)
  have hargs : (PartPtr.part = .part → ∀ o' n' s' a' ownerId names scores attr,
      [o, n, s, a].map some = [some o', some n', some s', some a'] →
        game.envMgr.heap.value o' = .int ownerId → game.envMgr.heap.value n' = .list names →
          game.envMgr.heap.value s' = .list scores → game.envMgr.heap.value a' = .string attr →
            none ∉ names ∧ ¬ PrintsNull game.envMgr.heap (.list scores)) ↔
      ∀ ownerId names scores attr, (game.envMgr.heap.value o).int? = some ownerId →
        (game.envMgr.heap.value n).list? = some names →
          (game.envMgr.heap.value s).list? = some scores →
            (game.envMgr.heap.value a).string? = some attr →
              none ∉ names ∧ ¬ PrintsNull game.envMgr.heap (.list scores) := by
    simp only [VarType.list?_eq_some, VarType.string?_eq_some, VarType.int?_eq_some]
    constructor
    · exact fun h ownerId names scores attr => h trivial o n s a ownerId names scores attr rfl
    · rintro h - _ _ _ _ ownerId names scores attr ⟨⟩
      exact h ownerId names scores attr
  rw [hargs]
  show Rejecting (ScoresFactory.create .part [some o, some n, some s, some a]
    game.envMgr.heap) game ↔ _
  rw [ScoresFactory.create_checked]
  rcases ho : (game.envMgr.heap.value o).int? with _ | ownerId
  · exact iff_of_true (rejecting_throw _) nofun
  rcases hn : (game.envMgr.heap.value n).list? with _ | names
  · exact iff_of_true (rejecting_throw _) nofun
  rcases hs : (game.envMgr.heap.value s).list? with _ | scores
  · exact iff_of_true (rejecting_throw _) nofun
  rcases ha : (game.envMgr.heap.value a).string? with _ | attr
  · exact iff_of_true (rejecting_throw _) nofun
  refine Iff.trans (rejecting_copy (Q := ¬ PrintsNull game.envMgr.heap (.list scores))
    fun _ => ?_) ?_
  · exact ScoresTask.runs_iff rfl
  constructor
  · rintro h _ _ _ _ ⟨⟩ ⟨⟩ ⟨⟩ ⟨⟩
    exact h
  · exact fun h => h ownerId names scores attr rfl rfl rfl rfl

/-- The condition on the players and on what follows the first three arguments. -/
def InputFactory.Fits (h : Heap) (players : List VarPtr) : List VarPtr → Prop
  | [] => none ∉ players
  | [some d] => ∀ choices, h.value d = .list choices → none ∉ players ∧ none ∉ choices
  | [some s, some e] => ∀ m n, h.value s = .int m → h.value e = .int n → none ∉ players
  | _ => True

theorem InputFactory.make_choices (a b c d : VarAddr) (players : List VarPtr)
    (prompt type : String) (h : Heap) :
    InputFactory.make .part [some a, some b, some c, some d] players prompt type h
      = match (h.value d).list? with
      | some choices => do
        return .input (← InputTask.newChoices players prompt type .part choices h)
      | _ => .error (.thrown (.badVariableArg "Expected listObj, str, str, listObj")) := by
  have hlen : [some a, some b, some c, some d].length = 4 := rfl
  rw [InputFactory.make, if_pos hlen]
  rfl

theorem InputFactory.make_range (a b c d e : VarAddr) (players : List VarPtr)
    (prompt type : String) (h : Heap) :
    InputFactory.make .part [some a, some b, some c, some d, some e] players prompt type h
      = match (h.value d).int? with
      | some start => match (h.value e).int? with
        | some stop => do
          return .input (← InputTask.newRange players prompt type .part start stop h)
        | _ => .error (.thrown (.badVariableArg "Expected listObj, str, str, listObj"))
      | _ => .error (.thrown (.badVariableArg "Expected listObj, str, str, listObj")) := by
  have hlen : [some a, some b, some c, some d, some e].length = 5 := rfl
  rw [InputFactory.make, if_neg (by simp), if_pos hlen]
  rfl

theorem InputFactory.rejecting_make {a b c : VarAddr} {rest : List VarAddr}
    (hrest : rest.length ≤ 2) (players : List VarPtr) (prompt type : String) :
    Rejecting (InputFactory.make .part ((a :: b :: c :: rest).map some) players prompt type
      game.envMgr.heap) game ↔ InputFactory.Fits game.envMgr.heap players (rest.map some) := by
  rcases rest with _ | ⟨d, _ | ⟨e, _ | ⟨x, rest⟩⟩⟩
  · refine Iff.trans (rejecting_copy (Q := True) fun _ => ?_) (iff_of_eq (and_true _))
    exact iff_of_true (InputTask.runs rfl) trivial
  · show Rejecting (InputFactory.make .part [some a, some b, some c, some d] players prompt type
      game.envMgr.heap) game ↔
      ∀ choices, game.envMgr.heap.value d = .list choices → none ∉ players ∧ none ∉ choices
    rw [InputFactory.make_choices]
    simp only [← VarType.list?_eq_some]
    rcases hd : (game.envMgr.heap.value d).list? with _ | choices
    · exact iff_of_true (rejecting_throw _) nofun
    refine Iff.trans (rejecting_copy₂ fun _ _ => ?_) ?_
    · exact InputTask.runs rfl
    · simp
  · show Rejecting (InputFactory.make .part [some a, some b, some c, some d, some e] players prompt
      type game.envMgr.heap) game ↔
      ∀ m n, game.envMgr.heap.value d = .int m → game.envMgr.heap.value e = .int n →
        none ∉ players
    rw [InputFactory.make_range]
    simp only [← VarType.int?_eq_some]
    rcases hd : (game.envMgr.heap.value d).int? with _ | start
    · exact iff_of_true (rejecting_throw _) nofun
    rcases he : (game.envMgr.heap.value e).int? with _ | stop
    · exact iff_of_true (rejecting_throw _) nofun
    refine Iff.trans (rejecting_copy (Q := True) fun _ => ?_) ?_
    · exact iff_of_true (InputTask.runs rfl) trivial
    · simp
  · simp at hrest

theorem InputFactory.create_checked {a b c : VarAddr} {rest : List VarAddr} {h : Heap}
    (hok : checkPreconditions 3 5 "Expected between 3 and 5 Variable arguments"
      ((a :: b :: c :: rest).map some) = .ok true) :
    InputFactory.create .part ((a :: b :: c :: rest).map some) h
      = match (h.value a).list?, (h.value b).string?, (h.value c).string? with
      | some playerList, some prompt, some type =>
        InputFactory.make .part ((a :: b :: c :: rest).map some) playerList prompt type h
      | _, _, _ => .error (.thrown (.badVariableArg "Expected listObj, str, str")) := by
  rw [InputFactory.create, checkPreconditionsHandler, if_neg (by decide), hok]
  rfl

/-- The elements of the lists are not checked. -/
theorem InputFactory.rejecting_iff {playerHandler : PartPtr} :
    Rejecting (InputFactory.create playerHandler vars game.envMgr.heap) game ↔
      (playerHandler = .part → ∀ a b c rest players prompt type,
        vars = some a :: some b :: some c :: rest → game.envMgr.heap.value a = .list players →
          game.envMgr.heap.value b = .string prompt → game.envMgr.heap.value c = .string type →
            InputFactory.Fits game.envMgr.heap players rest) := by
  rcases playerHandler with _ | _
  · exact iff_of_true (rejecting_throw _) nofun
  refine rejecting_checked ?_ ?_
  · -- too many arguments, or a null one
    rintro hno - a b c rest players prompt type rfl - - -
    rw [InputFactory.Fits.eq_def]
    split
    · exact absurd (hno [a, b, c] rfl) (by simp)
    · rename_i d
      exact absurd (hno [a, b, c, d] rfl) (by simp)
    · rename_i d e
      exact absurd (hno [a, b, c, d, e] rfl) (by simp)
    · trivial
  rintro ps rfl hlo hhi hok
  obtain ⟨a, b, c, rest, rfl⟩ := exists_of_three_le_length hlo
  have hargs : (PartPtr.part = .part → ∀ a' b' c' rest' players prompt type,
      (a :: b :: c :: rest).map some = some a' :: some b' :: some c' :: rest' →
        game.envMgr.heap.value a' = .list players → game.envMgr.heap.value b' = .string prompt →
          game.envMgr.heap.value c' = .string type →
            InputFactory.Fits game.envMgr.heap players rest') ↔
      ∀ players prompt type, (game.envMgr.heap.value a).list? = some players →
        (game.envMgr.heap.value b).string? = some prompt →
          (game.envMgr.heap.value c).string? = some type →
            InputFactory.Fits game.envMgr.heap players (rest.map some) := by
    simp only [VarType.list?_eq_some, VarType.string?_eq_some]
    constructor
    · exact fun h players prompt type => h trivial a b c _ players prompt type rfl
    · rintro h - _ _ _ _ players prompt type ⟨⟩
      exact h players prompt type
  rw [hargs]
  show Rejecting (InputFactory.create .part ((a :: b :: c :: rest).map some) game.envMgr.heap)
    game ↔ _
  rw [InputFactory.create_checked hok]
  rcases ha : (game.envMgr.heap.value a).list? with _ | players
  · exact iff_of_true (rejecting_throw _) nofun
  rcases hb : (game.envMgr.heap.value b).string? with _ | prompt
  · exact iff_of_true (rejecting_throw _) nofun
  rcases hc : (game.envMgr.heap.value c).string? with _ | type
  · exact iff_of_true (rejecting_throw _) nofun
  have hlen : rest.length ≤ 2 := by
    simp only [List.length_cons] at hhi
    omega
  refine (InputFactory.rejecting_make hlen players prompt type).trans ?_
  constructor
  · rintro h _ _ _ ⟨⟩ ⟨⟩ ⟨⟩
    exact h
  · exact fun h => h players prompt type rfl rfl rfl

theorem AssignmentFactory.create_checked (p q : VarAddr) (h : Heap) :
    AssignmentFactory.create .part [some p, some q] h = match (h.value p).string? with
      | some name => .ok (.assignment
          { mgr := .part, name := { storage := h.storage p, text := name }, val := some q })
      | none => .error (.thrown (.badVariableArg "Expected string, Variable")) := rfl

/-- There is no list to look into. -/
theorem AssignmentFactory.rejecting (envMgr : PartPtr) :
    Rejecting (AssignmentFactory.create envMgr vars game.envMgr.heap) game := by
  rcases envMgr with _ | _
  · exact rejecting_throw _
  refine (rejecting_checked (P := True) (fun _ => trivial) ?_).mpr trivial
  rintro ps rfl hlo hhi -
  obtain ⟨p, q, rfl⟩ := List.length_eq_two.mp (le_antisymm hhi hlo)
  refine iff_of_true ?_ trivial
  show Rejecting (AssignmentFactory.create .part [some p, some q] game.envMgr.heap) game
  rw [AssignmentFactory.create_checked]
  rcases hp : (game.envMgr.heap.value p).string? with _ | name
  · exact rejecting_throw _
  · exact rejecting_ok.mpr (AssignmentTask.runs rfl (VarType.string?_eq_some.mp hp))

/-- The condition on the arguments. With one argument, it is a list; and no list of players, names
or choices, and no list whose elements are put at the end of another or printed, has a null element.
-/
def TaskFactory.Fits (h : Heap) (vars : List VarPtr) : TaskFactory → Prop
  | reverse => vars.length = 1 → ∃ p l, vars = [some p] ∧ h.value p = .list l
  | shuffle => vars.length = 1 → ∃ p l, vars = [some p] ∧ h.value p = .list l
  | extend => ∀ p q l elems, vars = [some p, some q] → h.value p = .list l →
      h.value q = .list elems → none ∉ elems
  | input playerHandler => playerHandler = .part → ∀ a b c rest players prompt type,
      vars = some a :: some b :: some c :: rest → h.value a = .list players →
        h.value b = .string prompt → h.value c = .string type → InputFactory.Fits h players rest
  | message playerHandler => playerHandler = .part → ∀ p q players text, vars = [some p, some q] →
      h.value p = .list players → h.value q = .string text → none ∉ players
  | scores playerHandler => playerHandler = .part → ∀ o n s a ownerId names scores attr,
      vars = [some o, some n, some s, some a] → h.value o = .int ownerId → h.value n = .list names →
        h.value s = .list scores → h.value a = .string attr →
          none ∉ names ∧ ¬ PrintsNull h (.list scores)
  | assignment _ => True

/-- **Factories reject what their tasks cannot run only if the arguments fit.** For each factory and
all arguments, the factory throws a `BadVariableArgException` or makes a task whose run, on the
arguments as they were, has no type error and dereferences no null pointer, if and only if the
arguments meet the condition. -/
theorem rejects_iff (factory : TaskFactory) (vars : List VarPtr) (game : GameInstance ι) :
    factory.Rejects vars game ↔ factory.Fits game.envMgr.heap vars := by
  cases factory with
  | reverse => exact ReverseFactory.rejecting_iff
  | shuffle => exact ShuffleFactory.rejecting_iff
  | extend => exact ExtendFactory.rejecting_iff
  | input playerHandler => exact InputFactory.rejecting_iff
  | message playerHandler => exact MessageFactory.rejecting_iff
  | scores playerHandler => exact ScoresFactory.rejecting_iff
  | assignment envMgr => exact iff_of_true (AssignmentFactory.rejecting envMgr) trivial

/-- The reverse factory dereferences a null argument, and makes a task of an int. -/
theorem reverse_not_rejected :
    (¬ TaskFactory.reverse.Rejects [none] (GameInstance.new "g" 0 : GameInstance Unit)) ∧
    (¬ TaskFactory.reverse.Rejects [some 0] ((GameInstance.new "g" 0).setEnvMgr
      ({ heap := (Heap.makeVariable {} (.int 1)).2 } : Env Unit))) := by
  refine ⟨not_rejecting_undefined .nullDeref, fun hrejects => ?_⟩
  obtain ⟨msg, hthrow⟩ | ⟨task, htask, hruns⟩ := hrejects
  · cases hthrow
  · obtain rfl := Except.ok.inj htask
    exact hruns (.withStack 0) _ _ rfl trivial

end

end SocialGaming
