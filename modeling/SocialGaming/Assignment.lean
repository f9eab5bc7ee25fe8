import SocialGaming.InPlace
import SocialGaming.ListAccess
import SocialGaming.LoopExecution
import SocialGaming.TaskFactoryChecks

/-!
# Assignment

An assignment binds the name to the `Variable` itself and not to a copy. What is done in place
through the name is then done to the `Variable`, and every name that is bound to it has the new
value, while a name that is bound to a `Variable` with another storage keeps its own.

A loop works in place too: it takes its elements out of the list it goes over. While it does so it
binds its loop variable, so nothing is said here of that name.

## Design

The task holds a pointer to the `Variable` and a view of the name. It may be run long after it was
made, in any later state of the game, as long as the string that the view was made of is there.

A list that is given a `Variable` under an index becomes a second owner of it. What that does to
others is a matter of their lifetimes, so this one overload is no operation in place here.

## Main definitions

* `Variable.InPlace` — an operation in place on what a `Variable` holds
* `UseStep` — such an operation, or a call of the environment for a loop over the `Variable`
* `Env.Shares` — what is kept, whatever steps have been taken

## Main results

* `InUse.step` — the invariant of the steps
* `AssignmentFactory.shares`
* `AssignmentTask.run_dangling` — why the string of the name has to be there
-/

namespace SocialGaming

open Relation (ReflTransGen)
open Std (ExtTreeMap)
open ScopeStack (column)

/-! ### Operations in place -/

namespace ListObjUtils

variable {vec vec' : List VarPtr} {h h' : Heap} {val indx var var' : VarType}

theorem extends_of_insertRun {a : CellAddr} {i : Int32}
    (hrun : insertRun vec h a i = .ok () (var', h')) : h.Extends h' := by
  rcases hins : insertHelper vec a i h with f | ⟨vec', h₁⟩
  · rw [insertRun_error hins] at hrun
    cases hrun
  · rw [insertRun_ok hins] at hrun
    obtain ⟨-, rfl⟩ := Prod.mk.inj (EStateM.Result.ok.inj hrun).2
    rw [insertHelper_eq] at hins
    split at hins
    · cases hins
    split at hins
    · cases hins
    split at hins
    · cases hins
    obtain ⟨-, rfl⟩ := Prod.mk.inj (Except.ok.inj hins)
    exact h.extends_copyVariable a

/-- What is no list is left alone, and so is a list with an index that is no int. -/
theorem insertAt_run_other (hother : ∀ vec i, var = .list vec → indx ≠ .int i) :
    (∀ val, (insertAt val indx).run (var, h) = .ok () (var, h)) ∧
      ∀ p, (insertAtVariable p indx).run (var, h) = .ok () (var, h) := by
  cases var with
  | list vec =>
    cases indx with
    | int i => exact absurd rfl (hother vec i rfl)
    | _ => exact ⟨fun _ => rfl, fun _ => rfl⟩
  | _ => exact ⟨fun _ => rfl, fun _ => rfl⟩

/-- Either overload makes new objects, and changes none. -/
theorem extends_of_insertAt (hrun : (insertAt val indx).run (var, h) = .ok () (var', h')) :
    h.Extends h' := by
  by_cases hlist : ∃ vec i, var = .list vec ∧ indx = .int i
  · obtain ⟨vec, i, rfl, rfl⟩ := hlist
    exact (h.extends_makeVariable val).trans (extends_of_insertRun hrun)
  · rw [(insertAt_run_other fun vec i hvar hindx => hlist ⟨vec, i, hvar, hindx⟩).1] at hrun
    obtain ⟨-, rfl⟩ := Prod.mk.inj (EStateM.Result.ok.inj hrun).2
    exact Heap.Extends.refl h

theorem extends_of_insertAtVariable {p : VarAddr}
    (hrun : (insertAtVariable p indx).run (var, h) = .ok () (var', h')) : h.Extends h' := by
  by_cases hlist : ∃ vec i, var = .list vec ∧ indx = .int i
  · obtain ⟨vec, i, rfl, rfl⟩ := hlist
    exact extends_of_insertRun hrun
  · rw [(insertAt_run_other fun vec i hvar hindx => hlist ⟨vec, i, hvar, hindx⟩).2] at hrun
    obtain ⟨-, rfl⟩ := Prod.mk.inj (EStateM.Result.ok.inj hrun).2
    exact Heap.Extends.refl h

end ListObjUtils

namespace Variable

variable {p : VarAddr} {h h' : Heap}

/-- `ListObjUtils::insert_at` on `getRef()`: the result of a run on the contents and the store. -/
def inserted (p : VarAddr) (h : Heap) :
    EStateM.Result (Fault Exn) (VarType × Heap) Unit → Except (Fault Exn) Heap
  | .ok () (v, h') => .ok (h'.write (h.storage p) v)
  | .error f _ => .error f

/-- With a value. -/
def insertAt (p : VarAddr) (val indx : VarType) (h : Heap) : Except (Fault Exn) Heap :=
  inserted p h ((ListObjUtils.insertAt val indx).run (h.value p, h))

/-- With a `Variable`. -/
def insertAtVariable (p : VarAddr) (val : VarAddr) (indx : VarType) (h : Heap) :
    Except (Fault Exn) Heap :=
  inserted p h ((ListObjUtils.insertAtVariable val indx).run (h.value p, h))

theorem changesOnly_of_inserted {r : EStateM.Result (Fault Exn) (VarType × Heap) Unit}
    (hr : ∀ v u, r = .ok () (v, u) → h.Extends u) (hs : inserted p h r = .ok h') :
    Heap.ChangesOnly (h.storage p) h h' := by
  rcases r with ⟨⟨⟩, v, u⟩ | ⟨f, s⟩
  · rw [← Except.ok.inj hs]
    exact (hr v u rfl).changesOnly_write _ _
  · cases hs

/-- An operation in place on what `p` holds has returned. -/
inductive InPlace (p : VarAddr) (h h' : Heap) : Prop
  | set {val : VarType} (hs : set p val h = .ok h')
  | setKeyed {val val2 : VarType} (hs : setKeyed p val val2 h = .ok h')
  | setKeyedVariable {val : VarType} {val2 : VarAddr} (hlist : ∀ l, h.value p ≠ .list l)
      (hs : setKeyedVariable p val val2 h = .ok h')
  | pushBack {val : VarType} (hs : pushBack p val h = .ok h')
  | insertAt {val indx : VarType} (hs : insertAt p val indx h = .ok h')
  | insertAtVariable {val : VarAddr} {indx : VarType} (hs : insertAtVariable p val indx h = .ok h')
  | removeAt {val : VarType} (hs : removeAt p val h = .ok h')

theorem InPlace.changesOnly (hs : InPlace p h h') : Heap.ChangesOnly (h.storage p) h h' := by
  rcases hs with hs | hs | ⟨-, hs⟩ | hs | hs | hs | hs
  · exact (SetTo.value hs).changesOnly
  · exact (SetTo.keyed hs).changesOnly
  · exact (SetTo.keyedVariable hs).changesOnly
  · exact pushBack_changesOnly hs
  · exact changesOnly_of_inserted (fun _ _ => ListObjUtils.extends_of_insertAt) hs
  · exact changesOnly_of_inserted (fun _ _ => ListObjUtils.extends_of_insertAtVariable) hs
  · exact removeAt_changesOnly hs

end Variable

/-! ### Steps -/

variable {ι : Type}

/-- The value of a name. -/
def Env.valueOf (s : Env ι) (y : String) : Option VarType := (s.getVariable y).map s.heap.value

section Steps

variable [DecidableEq ι] (nodes : ι → RuleNode ι)

/-- `v` is used: by an operation in place, or by a call for a loop over `v`. The loop is one that
has been entered since the stack had depth `d`, and its loop variable is none of the names of which
something is said. -/
inductive UseStep (v : VarAddr) (kept : Set String) (d : ℕ) : Env ι → Env ι → Prop
  | inPlace {s : Env ι} {h' : Heap} (h : Variable.InPlace v s.heap h') :
      UseStep v kept d s { s with heap := h' }
  | enterLoop {s s' : Env ι} {n : ι} {loopVar y : String} {child : Option ι}
      (hloop : IsLoop nodes n loopVar y child) (hy : s.getVariable y = some v)
      (hvar : loopVar ∉ kept) (hnew : s.frontBelongsTo (some n) = false)
      (h : Prog.after? ((enterScope nodes (some n)).run s) = some s') : UseStep v kept d s s'
  | nextRound {s s' : Env ι} {n : Option ι} (hd : d < s.depth) (hfront : s.frontBelongsTo n)
      (h : Prog.after? ((enterScope nodes n).run s) = some s') : UseStep v kept d s s'
  | exitLoop {s s' : Env ι} {force : Bool} {now : ℤ} (hd : d < s.depth)
      (h : Prog.after? ((exitScope nodes force now).run s) = some s') : UseStep v kept d s s'

end Steps

/-- What is kept from `env` on: the names are bound to what they were. One that is bound to `v` has
the value of `v`, and what another storage holds has not changed. -/
structure Env.Shares (v : VarAddr) (kept : Set String) (env s : Env ι) : Prop where
  bound : ∀ y ∈ kept, s.getVariable y = env.getVariable y
  same : ∀ y ∈ kept, env.getVariable y = some v → s.valueOf y = some (s.heap.value v)
  others : ∀ y ∈ kept, ∀ q u, env.getVariable y = some q → env.heap.Holds q u →
    env.heap.storage q ≠ env.heap.storage v → s.valueOf y = some u

/-! ### The invariant -/

/-- The control flow of a loop over the storage, whose loop variable is none of the names. -/
def LoopsOver (a : CellAddr) (kept : Set String) (c : Option (ControlFlow ι)) : Prop :=
  ∃ ctrl, c = some ctrl ∧ ctrl.range = some a ∧ ctrl.loopVarName ∉ kept

/-- Above the scopes of `env` there are only scopes of loops over the storage, which bind none of
the names, and of the storages of `env` no other has changed. -/
structure InUse (env : Env ι) (a : CellAddr) (kept : Set String) (s : Env ι) : Prop where
  scopes : ∃ flows, s.scopes.map Scope.ctrlFlow = flows ++ env.scopes.map Scope.ctrlFlow ∧
    (∀ c ∈ flows, LoopsOver a kept c) ∧
    ∀ y ∈ kept, column y s.bindings = List.replicate flows.length none ++ column y env.bindings
  heap : Heap.ChangesOnly a env.heap s.heap

namespace InUse

variable {env s s' : Env ι} {a : CellAddr} {kept : Set String}

theorem refl (env : Env ι) (a : CellAddr) (kept : Set String) : InUse env a kept env :=
  ⟨⟨[], rfl, by simp, by simp⟩, Heap.changesOnly_refl a env.heap⟩

theorem getVariable_eq (h : InUse env a kept s) {y : String} (hy : y ∈ kept) :
    s.getVariable y = env.getVariable y := by
  obtain ⟨flows, -, -, hcolumn⟩ := h.scopes
  rw [Env.getVariable_eq_lookup, Env.getVariable_eq_lookup,
    ScopeStack.lookup_eq_of_column (hcolumn y hy)]

theorem depth_le (h : InUse env a kept s) : env.depth ≤ s.depth := by
  obtain ⟨flows, hflows, -⟩ := h.scopes
  have hlen := congrArg List.length hflows
  rw [List.length_map, List.length_append, List.length_map] at hlen
  exact (Nat.le_add_left _ _).trans_eq hlen.symm

/-- Above `env`, the front scope is that of a loop. -/
theorem exists_cons (h : InUse env a kept s) (hd : env.depth < s.depth) :
    ∃ scope rest, s.scopes = scope :: rest ∧ LoopsOver a kept scope.ctrlFlow ∧
      InUse env a kept { s with scopes := rest } ∧ ∀ y ∈ kept, scope.frame y = none := by
  obtain ⟨flows, hflows, hover, hcolumn⟩ := h.scopes
  have hlen := congrArg List.length hflows
  rw [List.length_map, List.length_append, List.length_map] at hlen
  rcases flows with _ | ⟨c, flows⟩
  · rw [List.length_nil, Nat.zero_add] at hlen
    exact absurd hlen hd.ne'
  rcases hs : s.scopes with _ | ⟨scope, rest⟩
  · simp [hs] at hflows
  rw [hs, List.map_cons, List.cons_append] at hflows
  obtain ⟨rfl, hrest⟩ := List.cons.inj hflows
  have hsplit : ∀ y ∈ kept, scope.frame y = none ∧ column y (rest.map Scope.frame)
      = List.replicate flows.length none ++ column y env.bindings := by
    intro y hy
    have := hcolumn y hy
    rw [Env.bindings, hs, List.length_cons, List.replicate_succ, List.cons_append] at this
    exact List.cons.inj this
  exact ⟨scope, rest, rfl, hover _ (by simp),
    ⟨⟨flows, hrest, fun c hc => hover c (by simp [hc]), fun y hy => (hsplit y hy).2⟩, h.heap⟩,
    fun y hy => (hsplit y hy).1⟩

/-- A scope of a loop in front. -/
theorem cons {scope : Scope ι} {rest : List (Scope ι)}
    (h : InUse env a kept { s with scopes := rest }) (hflow : LoopsOver a kept scope.ctrlFlow)
    (hframe : ∀ y ∈ kept, scope.frame y = none) :
    InUse env a kept { s with scopes := scope :: rest } := by
  obtain ⟨flows, hflows, hover, hcolumn⟩ := h.scopes
  refine ⟨⟨scope.ctrlFlow :: flows, congrArg _ hflows, ?_, fun y hy => ?_⟩, h.heap⟩
  · intro c hc
    rcases List.mem_cons.mp hc with rfl | hc
    · exact hflow
    · exact hover c hc
  · show scope.frame y :: column y (rest.map Scope.frame) = _
    rw [hframe y hy, List.length_cons, List.replicate_succ, List.cons_append]
    exact congrArg _ (hcolumn y hy)

/-- The names are where they were, and so are the scopes. -/
theorem of_same (h : InUse env a kept s) (hsame : SameScopes s'.scopes s.scopes)
    (hcolumn : ∀ y ∈ kept, column y s'.bindings = column y s.bindings)
    (hheap : Heap.ChangesOnly a s.heap s'.heap) : InUse env a kept s' := by
  obtain ⟨flows, hflows, hover, hcolumn'⟩ := h.scopes
  have hctrl : s'.scopes.map Scope.ctrlFlow = s.scopes.map Scope.ctrlFlow := by
    have := congrArg (List.map Scope.ctrlFlow) hsame
    rwa [List.map_map, List.map_map] at this
  refine ⟨⟨flows, hctrl.trans hflows, hover, fun y hy => ?_⟩, h.heap.trans hheap⟩
  rw [hcolumn y hy, hcolumn' y hy]

theorem inPlace {h' : Heap} (h : InUse env a kept s) (hheap : Heap.ChangesOnly a s.heap h') :
    InUse env a kept { s with heap := h' } :=
  h.of_same (SameScopes.refl _) (fun _ _ => rfl) hheap

theorem setTimers (h : InUse env a kept s) (timers : ExtTreeMap ℤ (Timer ι) compare) :
    InUse env a kept { s with timers } :=
  h.of_same (SameScopes.refl _) (fun _ _ => rfl) (Heap.changesOnly_refl a s.heap)

/-- The loop in front takes an element out of the storage and binds its variable. -/
theorem takeElement (h : InUse env a kept s) (hd : env.depth < s.depth) {loopVar : String}
    (hvar : loopVar ∉ kept) (v : VarType) (rest : List VarPtr) :
    InUse env a kept (s.takeElement loopVar a v rest) := by
  set bound := s.assign loopVar (.value v) with hbound
  have hsame : SameScopes bound.scopes s.scopes := s.sameScopes_assign loopVar _
  have hcolumn : ∀ y ∈ kept, column y bound.bindings = column y s.bindings := by
    intro y hy
    have hne : y ≠ loopVar := by
      rintro rfl
      exact hvar hy
    rw [hbound, Env.bindings_assign, ScopeStack.column_assign_of_ne hne]
  have hheap := (s.extends_assign loopVar (.value v)).changesOnly_write a (.list rest)
  have hmid : InUse env a kept { bound with heap := bound.heap.write a (.list rest) } :=
    h.of_same hsame hcolumn hheap
  have hdepth : env.depth < bound.depth := hd.trans_eq hsame.length_eq.symm
  obtain ⟨scope, below, hscopes, ⟨ctrl, hctrl, hrange, hloop⟩, hrest, hframe⟩ :=
    hmid.exists_cons hdepth
  rw [Env.takeElement, ← hbound]
  replace hscopes : bound.scopes = scope :: below := hscopes
  rw [hscopes, List.modifyHead_cons]
  exact hrest.cons ⟨{ ctrl with exiting := rest.length == 0 }, by simp [Scope.setExiting, hctrl],
    hrange, hloop⟩ hframe

variable {nodes : ι → RuleNode ι}

theorem updateLoop (h : InUse env a kept s) (hd : env.depth < s.depth) {ctrl : ControlFlow ι}
    (hctrl : LoopsOver a kept (some ctrl))
    (hs : Prog.after? ((updateLoop nodes ctrl).run s) = some s') : InUse env a kept s' := by
  obtain ⟨_, ⟨⟩, hrange, hvar⟩ := hctrl
  have hkeep : Prog.Respects (fun s s' => InUse env a kept s → InUse env a kept s')
      (SocialGaming.updateLoop nodes ctrl) s := by
    have : Std.Refl fun s s' : Env ι => InUse env a kept s → InUse env a kept s' := ⟨fun _ h => h⟩
    refine updateLoop_respects nodes fun range p rest hr _ h => ?_
    obtain rfl := Option.some_inj.mp (hr.symm.trans hrange)
    exact h.takeElement hd hvar _ rest
  exact hkeep s' hs h

/-- Above `env`, a scope is left, or the loop goes on. -/
theorem exitScope (h : InUse env a kept s) (hd : env.depth < s.depth) {force : Bool} {now : ℤ}
    (hs : Prog.after? ((exitScope nodes force now).run s) = some s') : InUse env a kept s' := by
  obtain ⟨scope, rest, hscopes, hflow, hrest, hframe⟩ := h.exists_cons hd
  rcases after_exitScope nodes hs with ⟨hnil, -⟩ | ⟨scope', rest', hscopes', scopes', rfl, hcase⟩
  · rw [hnil] at hscopes
    cases hscopes
  rw [hscopes] at hscopes'
  obtain ⟨rfl, rfl⟩ := List.cons.inj hscopes'
  rcases hcase with ⟨-, rfl⟩ | ⟨ctrl, -, ⟨-, -, rfl⟩ | ⟨-, -, rfl⟩⟩
  · exact (hrest.cons hflow hframe).setTimers _
  · have hclear : InUse env a kept { s with scopes := { scope with vars := ∅ } :: rest } :=
      hrest.cons hflow fun y _ => congrFun (Scope.frame_empty scope) y
    exact hclear.setTimers _
  · exact hrest.setTimers _

variable [DecidableEq ι]

/-- A loop over a `Variable` with the storage is entered. -/
theorem enterLoop (h : InUse env a kept s) {n : ι} {loopVar y : String} {child : Option ι}
    {v : VarAddr} (hloop : IsLoop nodes n loopVar y child) (hy : s.getVariable y = some v)
    (hvar : loopVar ∉ kept) (hnew : s.frontBelongsTo (some n) = false)
    (hv : s.heap.storage v = a)
    (hs : Prog.after? ((enterScope nodes (some n)).run s) = some s') : InUse env a kept s' := by
  rw [enterScope_new nodes hnew] at hs
  by_cases hlist : ∃ l, s.heap.value v = .list l
  · obtain ⟨l, hl⟩ := hlist
    have hscope := hloop.new_eq_ok hy hl
    rw [hv] at hscope
    have hctrl : LoopsOver a kept (some (loopFlow n loopVar a)) := ⟨_, rfl, rfl, hvar⟩
    rw [enterNew_loop nodes hscope rfl (hloop.getNext a) hloop.type] at hs
    have hpush : InUse env a kept (s.push (loopScope nodes n loopVar a)) :=
      h.cons hctrl fun y _ => congrFun (Scope.frame_empty (loopScope nodes n loopVar a)) y
    refine hpush.updateLoop ?_ hctrl hs
    have hle := h.depth_le
    simp only [Env.push, Env.depth, List.length_cons] at hle ⊢
    omega
  · rw [hloop.enterNew_not_list hy fun l hl => hlist ⟨l, hl⟩] at hs
    cases hs

/-- **One step.** -/
theorem step {v : VarAddr} {w : VarType} (hv : env.heap.Holds v w)
    (h : InUse env (env.heap.storage v) kept s) (hs : UseStep nodes v kept env.depth s s') :
    InUse env (env.heap.storage v) kept s' := by
  have hstorage : s.heap.storage v = env.heap.storage v := hv.storage_eq h.heap.vars
  rcases hs with hs | ⟨hloop, hy, hvar, hnew, hs⟩ | ⟨hd, hfront, hs⟩ | ⟨hd, hs⟩
  · exact h.inPlace (hstorage ▸ hs.changesOnly)
  · exact h.enterLoop hloop hy hvar hnew hstorage hs
  · rcases enterScope_cases nodes _ s with ⟨ctrl, hctrl, -, hrun⟩ | ⟨hnot, -⟩
    · obtain ⟨scope, rest, hscopes, hflow, -⟩ := h.exists_cons hd
      rw [Env.frontCtrlFlow, hscopes] at hctrl
      replace hctrl : scope.ctrlFlow = some ctrl := hctrl
      rw [hrun] at hs
      exact h.updateLoop hd (hctrl ▸ hflow) hs
    · rw [hnot] at hfront
      cases hfront
  · exact h.exitScope hd hs

/-- A run. -/
theorem run {v : VarAddr} {w : VarType} (hv : env.heap.Holds v w)
    (h : ReflTransGen (UseStep nodes v kept env.depth) env s) :
    InUse env (env.heap.storage v) kept s := by
  induction h with
  | refl => exact refl env _ kept
  | tail _ hstep ih => exact ih.step hv hstep

omit [DecidableEq ι] in
/-- What the invariant says of values. -/
theorem values {v : VarAddr} (h : InUse env (env.heap.storage v) kept s) :
    env.Shares v kept s where
  bound := fun y hy => h.getVariable_eq hy
  same := by
    intro y hy hbound
    rw [Env.valueOf, h.getVariable_eq hy, hbound]
    rfl
  others := by
    intro y hy q u hbound hq hne
    rw [Env.valueOf, h.getVariable_eq hy, hbound, Option.map_some,
      (hq.of_changesOnly h.heap hne).value_eq]

end InUse

/-! ### The task -/

/-- What the task does to the environment, if the string it has a view of is there. -/
theorem AssignmentTask.run_assign {a : CellAddr} {x : String} {game : GameInstance ι}
    (hname : game.envMgr.heap.cell a = .string x) (v : VarAddr) (lib : TaskLib) :
    ((RunnableTask.assignment
      { mgr := .part, name := { storage := a, text := x }, val := some v }).run lib).run game
      = .ok () (game.setEnvMgr (game.envMgr.assign x (.pointer (some v)))) := by
  rw [RunnableTask.run]
  exact AssignmentTask.run_eq rfl hname

/-- If the string is another by then, what is read through the view need not be there. -/
theorem AssignmentTask.run_dangling {a : CellAddr} {x : String} {game : GameInstance ι}
    (hname : game.envMgr.heap.cell a ≠ .string x) (v : VarAddr) (lib : TaskLib) :
    ((RunnableTask.assignment
      { mgr := .part, name := { storage := a, text := x }, val := some v }).run lib).run game
      = .error (.undefined .dangling) game := by
  rw [RunnableTask.run]
  exact AssignmentTask.run_undefined rfl hname

/-- **Assignment.** Take a name and a `Variable`, and make the task. Take any later state of the
game in which the string that was the name is where it was, and the `Variable` is in the store. A
run of the task binds the name to the `Variable` and changes nothing else. However the `Variable` is
then used in place, through whichever name, each name that was bound to it still is and has its
value, and each name that was bound to a `Variable` with another storage has the value it had. -/
theorem AssignmentFactory.shares [DecidableEq ι] (nodes : ι → RuleNode ι) {h : Heap}
    {p v : VarAddr} {x : String} (hp : h.value p = .string x) :
    ∃ task, AssignmentFactory.create .part [some p, some v] h = .ok task ∧
      ∀ (game : GameInstance ι) (w : VarType), game.envMgr.scopes ≠ [] →
        game.envMgr.heap.cell (h.storage p) = .string x → game.envMgr.heap.Holds v w →
        ∀ lib, ∃ env, (task.run lib).run game = .ok () (game.setEnvMgr env) ∧
          env.heap = game.envMgr.heap ∧ env.getVariable x = some v ∧
          (∀ y, y ≠ x → env.getVariable y = game.envMgr.getVariable y) ∧
          ∀ kept s, ReflTransGen (UseStep nodes v kept env.depth) env s →
            env.Shares v kept s := by
  refine ⟨.assignment
    { mgr := .part, name := { storage := h.storage p, text := x }, val := some v }, ?_, ?_⟩
  · rw [AssignmentFactory.create_checked, hp]
    rfl
  · intro game w hgame hname hv lib
    have hheap := Env.heap_assign hgame x (.pointer (some v))
    refine ⟨game.envMgr.assign x (.pointer (some v)), AssignmentTask.run_assign hname v lib, hheap,
      Env.getVariable_assign_self hgame x _, fun y hy => Env.getVariable_assign_of_ne hgame hy _,
      ?_⟩
    intro kept s hrun
    have hv' : (game.envMgr.assign x (.pointer (some v))).heap.Holds v w := hheap ▸ hv
    exact (InUse.run hv' hrun).values

/-- A name, and a list of one element. -/
def nameAndListHeap : Heap :=
  { cells := [.string "x", .list [some 2], .int 7], vars := [0, 1, 2] }

/-- A game with these variables. -/
def nameAndListGame : GameInstance Unit :=
  (GameInstance.new "g" 0).setEnvMgr { heap := nameAndListHeap }

/-- The same later, when the element of the list has been set. -/
def laterGame : GameInstance Unit :=
  (GameInstance.new "g" 0).setEnvMgr
    { heap := { cells := [.string "x", .list [some 2], .int 8], vars := [0, 1, 2] } }

/-- A list gets a name. -/
theorem AssignmentFactory.shares_list :
    ∃ task, AssignmentFactory.create .part [some 0, some 1] nameAndListHeap = .ok task ∧
      ∀ lib, ∃ env, (task.run lib).run laterGame = .ok () (laterGame.setEnvMgr env) ∧
        env.heap = laterGame.envMgr.heap ∧ env.getVariable "x" = some 1 ∧
        (∀ y, y ≠ "x" → env.getVariable y = laterGame.envMgr.getVariable y) ∧
        ∀ kept s, ReflTransGen (UseStep matchNode 1 kept env.depth) env s →
          env.Shares 1 kept s := by
  obtain ⟨task, hcreate, hrun⟩ :=
    AssignmentFactory.shares matchNode (h := nameAndListHeap) (p := 0) (v := 1) (x := "x") rfl
  have hgame : laterGame.envMgr.scopes ≠ [] := List.cons_ne_nil _ _
  exact ⟨task, hcreate, hrun laterGame (.list [some 2]) hgame rfl ⟨1, rfl, rfl⟩⟩

/-- An element is put at the end of the list through the name, and the `Variable` has it. -/
theorem AssignmentFactory.list_grows :
    ∃ task, AssignmentFactory.create .part [some 0, some 1] nameAndListHeap = .ok task ∧
      ∀ lib, ∃ env, (task.run lib).run nameAndListGame = .ok () (nameAndListGame.setEnvMgr env) ∧
        env.getVariable "x" = some 1 ∧ env.heap.value 1 = .list [some 2] ∧
        ∃ h', Variable.pushBack 1 (.int 9) env.heap = .ok h' ∧
          h'.value 1 = .list [some 2, some 3] := by
  have hgame : nameAndListGame.envMgr.scopes ≠ [] := List.cons_ne_nil _ _
  refine ⟨.assignment { mgr := .part, name := { storage := 0, text := "x" }, val := some 1 }, rfl,
    fun lib => ?_⟩
  exact ⟨_, AssignmentTask.run_assign rfl 1 lib, Env.getVariable_assign_self hgame "x" _, rfl, _,
    rfl, rfl⟩

end SocialGaming
