import SocialGaming.EnvironmentCalls

/-!
# Runs of the environment

The states a client can bring an environment to. A client calls the operations, in any order and
at any clock reading, goes on after an exception, and changes the values of `Variable`s between the
calls in any way that keeps their types, as everything in the `var` library does.

## Main definitions

* `Op`, `Step`, `Reachable`
* `OwnerMove` — what a call can do to the nodes the scopes belong to
* `Env.Based` — every scope has a control flow, except the bottom one

## Main results

* `Step.grows_or_shrinks` — no operation both enters a scope and leaves one
* `Step.movesOwners`, `Reachable.owners_invariant` — the owners of the scopes along runs
* `Reachable.based` — the bottom scope is never left
* `Reachable.uniquelyBound` — each name is bound in at most one scope
* `Step.heapEvolves` — no step changes where a `Variable` is stored, or the type of a storage
-/

namespace SocialGaming

open Relation (ReflTransGen)

variable {ι : Type}

/-- A call of a client. -/
inductive Op (ι : Type) where
  | setVariable (name : String) (arg : SetArg)
  | enterScopeTimed (node : Option ι) (timer : Timer ι)
  | enterScope (node : Option ι)
  | exitScope (force : Bool)
  | updateTimers

section

variable [DecidableEq ι] (nodes : ι → RuleNode ι)

/-- The call, at a clock reading. -/
def Op.call (now : ℤ) : Op ι → Call (Env ι) Unit
  | .setVariable name arg => SocialGaming.setVariable name arg
  | .enterScopeTimed node timer => SocialGaming.enterScopeTimed nodes node timer now
  | .enterScope node => (fun _ => ()) <$> SocialGaming.enterScope nodes node
  | .exitScope force => (fun _ => ()) <$> SocialGaming.exitScope nodes force now
  | .updateTimers => (fun _ => ()) <$> SocialGaming.updateTimers nodes now

/-- One step of a client: a call that returns or throws, or a change of values. -/
inductive Step : Env ι → Env ι → Prop
  | op (o : Op ι) (now : ℤ) {s s' : Env ι}
      (h : Prog.after? ((o.call nodes now).run s) = some s') : Step s s'
  | client {s : Env ι} {heap : Heap} (h : s.heap.Evolves heap) : Step s { s with heap }

/-- The states that can be reached from a new `EnvironmentManager`. -/
def Reachable (s : Env ι) : Prop := ReflTransGen (Step nodes) {} s

variable {nodes}

/-- **Invariants.** What a new environment satisfies and every step keeps holds of every reachable
state. -/
theorem Reachable.invariant {P : Env ι → Prop} {s : Env ι} (h : Reachable nodes s) (h0 : P {})
    (hstep : ∀ s s', Step nodes s s' → P s → P s') : P s := by
  induction h with
  | refl => exact h0
  | tail _ hs ih => exact hstep _ _ hs ih

/-- What a caller can go on from after a call, operation by operation. A relation that every
operation respects, and every change of values, holds across each step. -/
theorem Step.respects {R : Env ι → Env ι → Prop} {s s' : Env ι} (h : Step nodes s s')
    (hset : ∀ name arg, R s (s.assign name arg))
    (htimed : ∀ node timer now, Prog.Respects R (enterScopeTimed nodes node timer now) s)
    (henter : ∀ node, Prog.Respects R (enterScope nodes node) s)
    (hexit : ∀ force now, Prog.Respects R (exitScope nodes force now) s)
    (hsweep : ∀ now, Prog.Respects R (updateTimers nodes now) s)
    (hclient : ∀ heap, s.heap.Evolves heap → R s { s with heap }) : R s s' := by
  rcases h with ⟨o, now, h⟩ | h
  · rcases o with ⟨name, arg⟩ | ⟨node, timer⟩ | node | force | _
    · exact Prog.respects_ok (setVariable_run name arg s) (hset name arg) s' h
    · exact htimed node timer now s' h
    · exact henter node s' (by rwa [Op.call, Prog.after?_run_map] at h)
    · exact hexit force now s' (by rwa [Op.call, Prog.after?_run_map] at h)
    · exact hsweep now s' (by rwa [Op.call, Prog.after?_run_map] at h)
  · exact hclient _ h

/-- **No operation both enters a scope and leaves one.** -/
theorem Step.grows_or_shrinks {s s' : Env ι} (h : Step nodes s s') :
    s.Grows s' ∨ s.Shrinks s' := by
  refine h.respects (R := fun s s' => s.Grows s' ∨ s.Shrinks s') ?_ ?_ ?_ ?_ ?_ ?_
  · exact fun name arg => Or.inl (s.grows_assign name arg)
  · exact fun node timer now t ht => Or.inl (enterScopeTimed_grows nodes node timer now s t ht)
  · exact fun node t ht => Or.inl (enterScope_grows nodes node s t ht)
  · exact fun force now t ht => Or.inr (exitScope_shrinks nodes force now s t ht)
  · exact fun now t ht => Or.inr (updateTimers_shrinks nodes now s t ht)
  · exact fun heap _ => Or.inl ReflTransGen.refl

/-! ### Unique binding -/

theorem Step.uniquelyBound {s s' : Env ι} (h : Step nodes s s')
    (hu : ScopeStack.UniquelyBound s.bindings) : ScopeStack.UniquelyBound s'.bindings := by
  rcases h.grows_or_shrinks with hg | hs
  · exact ScopeStack.uniquelyBound_of_grows hg hu
  · exact ScopeStack.uniquelyBound_of_shrinks hs hu

theorem Reachable.uniquelyBound {s : Env ι} (h : Reachable nodes s) :
    ScopeStack.UniquelyBound s.bindings :=
  h.invariant (List.pairwise_singleton _ _) fun _ _ => Step.uniquelyBound

end

/-! ### The owners of the scopes -/

/-- The node a scope belongs to, if it has a control flow. -/
def Scope.owner (scope : Scope ι) : Option (Option ι) := scope.ctrlFlow.map ControlFlow.node

/-- The nodes the scopes belong to. -/
def owners (scopes : List (Scope ι)) : List (Option (Option ι)) := scopes.map Scope.owner

theorem SameScopes.owners_eq {a b : List (Scope ι)} (h : SameScopes a b) : owners a = owners b := by
  have hmap : ∀ l : List (Scope ι),
      (l.map fun scope => { scope with vars := ∅ }).map Scope.owner = owners l := by
    intro l
    rw [List.map_map]
    rfl
  rw [← hmap a, ← hmap b, h]

theorem owners_modifyHead_setExiting (b : Bool) (scopes : List (Scope ι)) :
    owners (scopes.modifyHead (Scope.setExiting b)) = owners scopes := by
  cases scopes with
  | nil => rfl
  | cons scope rest =>
    have howner : (scope.setExiting b).owner = scope.owner := by
      rw [Scope.owner, Scope.setExiting, Option.map_map]
      rfl
    rw [List.modifyHead_cons, owners, List.map_cons, howner]
    rfl

variable (nodes : ι → RuleNode ι)

/-- What a call can do to the owners: a scope whose control flow could be made is entered, or one
that belongs to a node is left. -/
inductive OwnerMove : List (Option (Option ι)) → List (Option (Option ι)) → Prop
  | enter {node : Option ι} {s : Env ι} {ctrl : ControlFlow ι}
      (h : ControlFlow.new nodes node s = .ok ctrl) (os : List (Option (Option ι))) :
      OwnerMove os (some ctrl.node :: os)
  | leave (n : ι) (os : List (Option (Option ι))) : OwnerMove (some (some n) :: os) os

/-- The owners of `s'` come from those of `s` by such moves. -/
def Env.MovesOwners (s s' : Env ι) : Prop :=
  ReflTransGen (OwnerMove nodes) (owners s.scopes) (owners s'.scopes)

instance : Std.Refl (Env.MovesOwners nodes) := ⟨fun _ => ReflTransGen.refl⟩
instance : IsTrans (Env ι) (Env.MovesOwners nodes) := ⟨fun _ _ _ => ReflTransGen.trans⟩

variable {nodes}

theorem Env.movesOwners_of_eq {s s' : Env ι} (h : owners s'.scopes = owners s.scopes) :
    s.MovesOwners nodes s' := by
  rw [Env.MovesOwners, h]

theorem Env.movesOwners_assign (s : Env ι) (name : String) (arg : SetArg) :
    s.MovesOwners nodes (s.assign name arg) :=
  Env.movesOwners_of_eq (s.sameScopes_assign name arg).owners_eq

theorem Env.movesOwners_push (s : Env ι) {node : Option ι} {t : Env ι} {scope : Scope ι}
    (h : Scope.new nodes node t = .ok scope) (timerId : ℤ) :
    s.MovesOwners nodes (s.push { scope with timerId }) := by
  obtain ⟨-, -, ctrl, hctrl, hc⟩ := Scope.new_eq_ok nodes h
  have howner : ({ scope with timerId } : Scope ι).owner = some ctrl.node := by
    rw [Scope.owner, hc]
    rfl
  show ReflTransGen (OwnerMove nodes) (owners s.scopes)
    (({ scope with timerId } : Scope ι).owner :: owners s.scopes)
  rw [howner]
  exact ReflTransGen.single (OwnerMove.enter hctrl _)

theorem updateLoop_movesOwners (ctrl : ControlFlow ι) (s : Env ι) :
    Prog.Respects (Env.MovesOwners nodes) (updateLoop nodes ctrl) s :=
  updateLoop_respects nodes fun _ _ _ _ _ =>
    IsTrans.trans _ _ _ (s.movesOwners_assign _ _)
      (Env.movesOwners_of_eq (owners_modifyHead_setExiting _ _))

theorem enterScopeTimed_movesOwners (node : Option ι) (timer : Timer ι) (now : ℤ) (s : Env ι) :
    Prog.Respects (Env.MovesOwners nodes) (enterScopeTimed nodes node timer now) s := by
  rcases h : Scope.new nodes node s with f | scope
  · exact Prog.respects_error (enterScopeTimed_error nodes h)
  · refine Prog.respects_ok (enterScopeTimed_run nodes h) ?_
    split
    · exact IsTrans.trans _ _ _ (s.movesOwners_assign _ _) (Env.movesOwners_push _ h timer.id)
    · exact s.movesOwners_push h timer.id

theorem exitScope_movesOwners (force : Bool) (now : ℤ) (s : Env ι) :
    Prog.Respects (Env.MovesOwners nodes) (exitScope nodes force now) s := by
  intro s' h
  rcases after_exitScope nodes h with ⟨-, rfl⟩ | ⟨scope, rest, hs, scopes', rfl, hcase⟩
  · exact ReflTransGen.refl
  rcases hcase with ⟨-, rfl⟩ | ⟨ctrl, hc, ⟨-, -, rfl⟩ | ⟨-, hn, rfl⟩⟩
  · exact Env.movesOwners_of_eq (by rw [hs])
  · exact Env.movesOwners_of_eq (by rw [hs]; rfl)
  · obtain ⟨n, hn⟩ := Option.isSome_iff_exists.mp hn
    have howner : scope.owner = some (some n) := by
      rw [Scope.owner, hc, Option.map_some, hn]
    rw [Env.MovesOwners, hs, owners, List.map_cons, howner]
    exact ReflTransGen.single (OwnerMove.leave n _)

variable [DecidableEq ι]

/-- **What a step can do to the owners of the scopes.** -/
theorem Step.movesOwners {s s' : Env ι} (h : Step nodes s s') : s.MovesOwners nodes s' := by
  refine h.respects ?_ ?_ ?_ ?_ ?_ ?_
  · exact s.movesOwners_assign
  · exact fun node timer now => enterScopeTimed_movesOwners node timer now s
  · exact fun node => enterScope_respects nodes (fun scope hscope =>
      s.movesOwners_push hscope scope.timerId) updateLoop_movesOwners
  · exact fun force now => exitScope_movesOwners force now s
  · exact fun now => updateTimers_respects nodes ReflTransGen.refl Env.movesOwners_assign
      (exitScope_movesOwners true now)
  · exact fun heap _ => ReflTransGen.refl

/-- What holds of the owners in a new environment and is kept by the moves holds in every reachable
state. -/
theorem Reachable.owners_invariant {P : List (Option (Option ι)) → Prop} {s : Env ι}
    (h : Reachable nodes s) (h0 : P [none])
    (hmove : ∀ os os', OwnerMove nodes os os' → P os → P os') : P (owners s.scopes) := by
  refine h.invariant (P := fun s => P (owners s.scopes)) h0 fun s s' hstep hs => ?_
  have hrun : ∀ os', ReflTransGen (OwnerMove nodes) (owners s.scopes) os' → P os' := by
    intro os' hmoves
    induction hmoves with
    | refl => exact hs
    | tail _ hlast ih => exact hmove _ _ hlast ih
  exact hrun _ hstep.movesOwners

/-! ### The bottom scope -/

/-- Every scope has a control flow, except the bottom one. -/
def Env.Based (s : Env ι) : Prop :=
  ∃ n, (owners s.scopes).map Option.isSome = List.replicate n true ++ [false]

omit [DecidableEq ι] in
theorem Env.Based.ne_nil {s : Env ι} (h : s.Based) : s.scopes ≠ [] := by
  obtain ⟨n, hn⟩ := h
  intro hnil
  rw [hnil] at hn
  simp [owners] at hn

omit [DecidableEq ι] in
/-- The front scope is the bottom one, without a control flow, or neither. -/
theorem Env.Based.cons_cases {s : Env ι} (h : s.Based) {front : Scope ι} {rest : List (Scope ι)}
    (hs : s.scopes = front :: rest) :
    (front.ctrlFlow = none ∧ rest = []) ∨ (front.ctrlFlow.isSome ∧ rest ≠ []) := by
  obtain ⟨n, hn⟩ := h
  rw [hs, owners, List.map_cons, List.map_cons, Scope.owner, Option.isSome_map] at hn
  cases n with
  | zero =>
    obtain ⟨hnone, hrest⟩ := List.cons.inj hn
    exact Or.inl ⟨by simpa using hnone, by simpa using hrest⟩
  | succ n =>
    rw [List.replicate_succ, List.cons_append] at hn
    obtain ⟨hsome, hrest⟩ := List.cons.inj hn
    refine Or.inr ⟨hsome, ?_⟩
    rintro rfl
    simp at hrest

omit [DecidableEq ι] in
/-- A scope without a control flow has none below it. -/
theorem Env.Based.eq_nil {s : Env ι} (h : s.Based) {front : Scope ι} {rest : List (Scope ι)}
    (hs : s.scopes = front :: rest) (hc : front.ctrlFlow = none) : rest = [] := by
  rcases h.cons_cases hs with ⟨-, hnil⟩ | ⟨hsome, -⟩
  · exact hnil
  · rw [hc] at hsome
    cases hsome

omit [DecidableEq ι] in
/-- What is left when a scope above the bottom one is left. -/
theorem Env.Based.tail {s t : Env ι} (h : s.Based) {front : Scope ι}
    (hs : s.scopes = front :: t.scopes) (ht : t.scopes ≠ []) : t.Based := by
  obtain ⟨n, hn⟩ := h
  rw [hs, owners, List.map_cons, List.map_cons] at hn
  cases n with
  | zero => exact absurd (by simpa using (List.cons.inj hn).2) ht
  | succ n =>
    rw [List.replicate_succ, List.cons_append] at hn
    exact ⟨n, (List.cons.inj hn).2⟩

/-- **The bottom scope is never left.** -/
theorem Reachable.based {s : Env ι} (h : Reachable nodes s) : s.Based := by
  refine h.owners_invariant (P := fun os => ∃ n, os.map Option.isSome
    = List.replicate n true ++ [false]) ⟨0, rfl⟩ ?_
  rintro os os' hmove ⟨n, hn⟩
  cases hmove with
  | enter _ _ => exact ⟨n + 1, by rw [List.map_cons, hn]; rfl⟩
  | leave _ _ =>
    -- the scope that is left has a control flow, so it is not the bottom one
    cases n with
    | zero => simp at hn
    | succ n =>
      rw [List.map_cons, List.replicate_succ, List.cons_append] at hn
      exact ⟨n, (List.cons.inj hn).2⟩

/-! ### The store -/

/-- The store of `s'` comes from that of `s` by changes that keep every type. -/
def Env.HeapEvolves (s s' : Env ι) : Prop := s.heap.Evolves s'.heap

instance : Std.Refl (Env.HeapEvolves (ι := ι)) := ⟨fun s => Heap.Evolves.refl s.heap⟩
instance : IsTrans (Env ι) Env.HeapEvolves := ⟨fun _ _ _ => Heap.Evolves.trans⟩

omit [DecidableEq ι] in
theorem Env.heapEvolves_assign (s : Env ι) (name : String) (arg : SetArg) :
    s.HeapEvolves (s.assign name arg) :=
  (s.extends_assign name arg).evolves

omit [DecidableEq ι] in
theorem updateLoop_heapEvolves (ctrl : ControlFlow ι) (s : Env ι) :
    Prog.Respects Env.HeapEvolves (updateLoop nodes ctrl) s :=
  updateLoop_respects nodes fun range p rest _ hl => by
    have hext := s.extends_assign ctrl.loopVarName (.value (s.heap.value p))
    exact hext.evolves_write (by rw [hl]; rfl)

omit [DecidableEq ι] in
theorem exitScope_heapEvolves (force : Bool) (now : ℤ) (s : Env ι) :
    Prog.Respects Env.HeapEvolves (exitScope nodes force now) s := by
  intro s' h
  rcases after_exitScope nodes h with ⟨-, rfl⟩ | ⟨_, _, _, _, rfl, -⟩
  · exact Heap.Evolves.refl _
  · exact Heap.Evolves.refl _

omit [DecidableEq ι] in
theorem enterScopeTimed_heapEvolves (node : Option ι) (timer : Timer ι) (now : ℤ) (s : Env ι) :
    Prog.Respects Env.HeapEvolves (enterScopeTimed nodes node timer now) s := by
  rcases h : Scope.new nodes node s with f | scope
  · exact Prog.respects_error (enterScopeTimed_error nodes h)
  · refine Prog.respects_ok (enterScopeTimed_run nodes h) ?_
    split
    · exact s.heapEvolves_assign _ _
    · exact Heap.Evolves.refl _

/-- **No step changes the storage of a `Variable`, or the type of what a storage holds.** -/
theorem Step.heapEvolves {s s' : Env ι} (h : Step nodes s s') : s.HeapEvolves s' := by
  refine h.respects ?_ ?_ ?_ ?_ ?_ ?_
  · exact s.heapEvolves_assign
  · exact fun node timer now => enterScopeTimed_heapEvolves node timer now s
  · exact fun node => enterScope_respects nodes (fun _ _ => Heap.Evolves.refl _)
      updateLoop_heapEvolves
  · exact fun force now => exitScope_heapEvolves force now s
  · exact fun now => updateTimers_respects nodes (Heap.Evolves.refl _) Env.heapEvolves_assign
      (exitScope_heapEvolves true now)
  · exact fun heap hheap => hheap

end SocialGaming
