import SocialGaming.LoopConsumption

/-!
# When a loop ends

`updateLoop` sets the `exiting` flag only when it takes an element, and decides it before the body
runs. A body that removes the last elements of the list while the flag is not set leaves a loop that
has nothing to take, does not look at its flag again, and is never left.

## Main definitions

* `drive` — a client that alternates `exitScope`, `enterScope` and a body
* `ShrinkingBody` — a body that may remove elements of the list, and adds none

## Main results

* `drive_cases` — what the client has come to, after any number of turns
* `loop_terminates_iff` — the loop is left if and only if no body removes all that is left
-/

namespace SocialGaming

open Relation (ReflTransGen)

variable {ι : Type} [DecidableEq ι]

/-- A body that leaves of the list what it has not removed, in the same order. -/
structure ShrinkingBody (nodes : ι → RuleNode ι) (node : ι) (range : CellAddr) (t u : Env ι) :
    Prop where
  body : Body nodes node t u
  shrinks : ∀ l, t.heap.cell range = .list l →
    ∃ l', u.heap.cell range = .list l' ∧ l'.Sublist l

/-- What a client that drives a loop has come to. -/
inductive LoopStatus (ι : Type) where
  /-- It has entered the loop node again, and runs the body next. -/
  | entered (t : Env ι)
  /-- The loop's scope has been left, and this is the next node. -/
  | left (next : Option ι) (t : Env ι)
  | faulted

section

variable (nodes : ι → RuleNode ι) (node : ι)

/-- One `exitScope`, and the `enterScope` after it if the loop's scope is still there. -/
def turn (now : ℤ) (t : Env ι) : LoopStatus ι :=
  match (exitScope nodes false now).run t with
  | .ok (_, next) t' =>
    if t'.depth < t.depth then .left next t'
    else
      match (enterScope nodes (some node)).run t' with
      | .ok _ t₁ => .entered t₁
      | .error _ _ => .faulted
  | .error _ _ => .faulted

/-- The client after a number of turns, when the `k`-th body takes it from `t` to `body k t`. -/
def drive (body : ℕ → Env ι → Env ι) (clock : ℕ → ℤ) (s : Env ι) : ℕ → LoopStatus ι
  | 0 => turn nodes node (clock 0) s
  | k + 1 =>
    match drive body clock s k with
    | .entered t => turn nodes node (clock (k + 1)) (body k t)
    | status => status

end

variable {nodes : ι → RuleNode ι} {node : ι} {front : Scope ι} {below : List (Scope ι)}
  {ctrl : ControlFlow ι} {range : CellAddr} {exiting : Bool} {w : VarAddr} {ws : List VarAddr}
  {c : ChildNode ι} {s t u : Env ι}

/-- The loop of `node`, whose scope `front` ranges over the list at `range`. -/
structure LoopFront (nodes : ι → RuleNode ι) (node : ι) (front : Scope ι) (range : CellAddr) :
    Prop where
  type : (nodes node).type.isLoop
  child : ∃ c, (nodes node).getChildWithKey ["true"] = .ok c
  ctrlFlow : ∃ ctrl, front.ctrlFlow = some ctrl ∧ ctrl.node = some node ∧ ctrl.range = some range

/-! ### One turn -/

/-- The flag is set: the loop is left. -/
theorem turn_done (hfront : LoopFront nodes node front range)
    (h : InLoop front below range true ws t) (now : ℤ) :
    ∃ t', turn nodes node now t = .left (nodes node).nextNode t' := by
  obtain ⟨ctrl, hc, hn, -⟩ := hfront.ctrlFlow
  obtain ⟨blk, t', hout, hsame, -⟩ := h.exitScope_done nodes hc hn now
  have hlt : t'.depth < t.depth := by
    rw [h.depth_eq, Env.depth, hsame.length_eq]
    omega
  exact ⟨t', by rw [turn, hout]; exact if_pos hlt⟩

/-- The flag is not set: the loop node is entered again. -/
theorem turn_again (hfront : LoopFront nodes node front range)
    (h : InLoop front below range false ws t) (now : ℤ) :
    ∃ t', InLoop front below range false ws t' ∧
      turn nodes node now t = match (enterScope nodes (some node)).run t' with
        | .ok _ t₁ => .entered t₁
        | .error _ _ => .faulted := by
  obtain ⟨ctrl, hc, hn, -⟩ := hfront.ctrlFlow
  obtain ⟨blk, t', hout, hin, -⟩ := h.exitScope_again nodes hc hn now
  have hnlt : ¬ t'.depth < t.depth := by
    rw [h.depth_eq, hin.depth_eq]
    omega
  exact ⟨t', hin, by rw [turn, hout]; exact if_neg hnlt⟩

/-- There is an element to take, and the flag is set if it is the last. -/
theorem turn_cons (hfront : LoopFront nodes node front range)
    (h : InLoop front below range false (w :: ws) t) (now : ℤ) :
    ∃ t₁, turn nodes node now t = .entered t₁ ∧ InLoop front below range ws.isEmpty ws t₁ := by
  obtain ⟨t', hin, hturn⟩ := turn_again hfront h now
  obtain ⟨ctrl, hc, hn, hr⟩ := hfront.ctrlFlow
  obtain ⟨c, hchild⟩ := hfront.child
  have henter := hin.enterScope_cons hc hn hr (getNext_eq_ok hfront.type hchild hn)
  exact ⟨_, by rw [hturn, henter], hin.takeElement _ _⟩

/-- There is nothing to take, and the flag stays as it is. -/
theorem turn_nil (hfront : LoopFront nodes node front range)
    (h : InLoop front below range false [] t) (now : ℤ) :
    ∃ t₁, turn nodes node now t = .entered t₁ ∧ InLoop front below range false [] t₁ := by
  obtain ⟨t', hin, hturn⟩ := turn_again hfront h now
  obtain ⟨ctrl, hc, hn, hr⟩ := hfront.ctrlFlow
  obtain ⟨c, hchild⟩ := hfront.child
  have henter := hin.enterScope_nil hc hn hr (getNext_eq_ok hfront.type hchild hn)
  exact ⟨t', by rw [hturn, henter], hin⟩

/-- A shrinking body leaves some of the list. -/
theorem ShrinkingBody.inLoop (hfront : LoopFront nodes node front range)
    (hbody : ShrinkingBody nodes node range t u) (h : InLoop front below range exiting ws t) :
    ∃ ws', InLoop front below range exiting ws' u ∧ ws'.Sublist ws := by
  obtain ⟨ctrl, hc, hn, -⟩ := hfront.ctrlFlow
  obtain ⟨l', hl', hsub⟩ := hbody.shrinks _ h.list
  obtain ⟨ws', hws', rfl⟩ := List.sublist_map_iff.mp hsub
  exact ⟨ws', (h.body hc hn hbody.body hl').1, hws'⟩

/-! ### Any number of turns -/

section Drive

variable {body : ℕ → Env ι → Env ι} {clock : ℕ → ℤ}

/-- **What a turn can do**: leave the loop, or take the front of the list, if there is one. -/
theorem turn_cases (hfront : LoopFront nodes node front range)
    (h : InLoop front below range exiting ws t) (now : ℤ) :
    (∃ t', turn nodes node now t = .left (nodes node).nextNode t') ∨
    exiting = false ∧ ∃ t₁ e, turn nodes node now t = .entered t₁ ∧
      InLoop front below range e ws.tail t₁ ∧ (ws.tail ≠ [] → e = false) ∧
      (ws ≠ [] → e = ws.tail.isEmpty) := by
  cases exiting with
  | true => exact Or.inl (turn_done hfront h now)
  | false =>
    refine Or.inr ⟨rfl, ?_⟩
    cases ws with
    | nil =>
      obtain ⟨t₁, hturn, hin⟩ := turn_nil hfront h now
      exact ⟨t₁, false, hturn, hin, fun _ => rfl, fun hne => absurd rfl hne⟩
    | cons w ws =>
      obtain ⟨t₁, hturn, hin⟩ := turn_cons hfront h now
      refine ⟨t₁, _, hturn, hin, fun hne => ?_, fun _ => rfl⟩
      exact List.isEmpty_eq_false_iff.mpr hne

/-- What a turn that goes on has done. -/
theorem turn_entered (hfront : LoopFront nodes node front range)
    (h : InLoop front below range exiting ws t) {now : ℤ}
    (hturn : turn nodes node now t = .entered u) :
    exiting = false ∧ ∃ e, InLoop front below range e ws.tail u ∧
      (ws.tail ≠ [] → e = false) ∧ (ws ≠ [] → e = ws.tail.isEmpty) := by
  rcases turn_cases hfront h now with ⟨t', h'⟩ | ⟨he, t₁, e, h', hin, hflag⟩
  · rw [h'] at hturn
    cases hturn
  · rw [h', LoopStatus.entered.injEq] at hturn
    exact ⟨he, e, hturn ▸ hin, hflag⟩

theorem drive_succ {k : ℕ} (h : drive nodes node body clock s k = .entered t) :
    drive nodes node body clock s (k + 1) = turn nodes node (clock (k + 1)) (body k t) := by
  rw [drive, h]

/-- **What the client has come to.** It has left the loop, or it has entered the node again, with
the flag not set if there are elements left. -/
theorem drive_cases (hfront : LoopFront nodes node front range)
    (hs : InLoop front below range exiting ws s)
    (hbody : ∀ k t, drive nodes node body clock s k = .entered t →
      ShrinkingBody nodes node range t (body k t)) (k : ℕ) :
    (∃ t, drive nodes node body clock s k = .left (nodes node).nextNode t) ∨
    ∃ t e ws', drive nodes node body clock s k = .entered t ∧ InLoop front below range e ws' t ∧
      (ws' ≠ [] → e = false) := by
  induction k with
  | zero =>
    rcases turn_cases hfront hs (clock 0) with ⟨t, h⟩ | ⟨-, t, e, h, hin, hflag, -⟩
    · exact Or.inl ⟨t, h⟩
    · exact Or.inr ⟨t, e, _, h, hin, hflag⟩
  | succ k ih =>
    rcases ih with ⟨t, h⟩ | ⟨t, e, ws', h, hin, -⟩
    · exact Or.inl ⟨t, by rw [drive, h]⟩
    · obtain ⟨ws'', hin', -⟩ := (hbody k t h).inLoop hfront hin
      rcases turn_cases hfront hin' (clock (k + 1)) with
        ⟨t', h'⟩ | ⟨-, t', e', h', hin₁, hflag, -⟩
      · exact Or.inl ⟨t', (drive_succ h).trans h'⟩
      · exact Or.inr ⟨t', e', _, (drive_succ h).trans h', hin₁, hflag⟩

/-- A client that has entered the node again is in the loop. -/
theorem inLoop_of_drive (hfront : LoopFront nodes node front range)
    (hs : InLoop front below range exiting ws s)
    (hbody : ∀ k t, drive nodes node body clock s k = .entered t →
      ShrinkingBody nodes node range t (body k t)) {k : ℕ}
    (h : drive nodes node body clock s k = .entered t) :
    ∃ e ws', InLoop front below range e ws' t ∧ (ws' ≠ [] → e = false) := by
  rcases drive_cases hfront hs hbody k with ⟨t', h'⟩ | ⟨t', e, ws', h', hin, hflag⟩
  · rw [h'] at h
    cases h
  · rw [h', LoopStatus.entered.injEq] at h
    exact ⟨e, ws', h ▸ hin, hflag⟩

/-- A client that has left the loop has left it. -/
theorem drive_left {k : ℕ} {next : Option ι}
    (h : drive nodes node body clock s k = .left next t) (j : ℕ) :
    drive nodes node body clock s (k + j) = .left next t := by
  induction j with
  | zero => exact h
  | succ j ih => rw [← Nat.add_assoc, drive, ih]

/-- Nothing to take and the flag not set: so it stays. -/
theorem drive_stuck (hfront : LoopFront nodes node front range)
    (hbody : ∀ k t, drive nodes node body clock s k = .entered t →
      ShrinkingBody nodes node range t (body k t)) {k : ℕ}
    (h : ∃ t, drive nodes node body clock s k = .entered t ∧ InLoop front below range false [] t)
    (j : ℕ) :
    ∃ t, drive nodes node body clock s (k + j) = .entered t ∧
      InLoop front below range false [] t := by
  induction j with
  | zero => exact h
  | succ j ih =>
    obtain ⟨t, hdrive, hin⟩ := ih
    obtain ⟨ws', hin', hsub⟩ := (hbody _ t hdrive).inLoop hfront hin
    obtain rfl := List.sublist_nil.mp hsub
    obtain ⟨t₁, hturn, hin₁⟩ := turn_nil hfront hin' (clock (k + j + 1))
    exact ⟨t₁, (drive_succ hdrive).trans hturn, hin₁⟩

/-- A client that is stuck never leaves. -/
theorem not_left_of_stuck (hfront : LoopFront nodes node front range)
    (hbody : ∀ k t, drive nodes node body clock s k = .entered t →
      ShrinkingBody nodes node range t (body k t)) {k : ℕ}
    (h : ∃ t, drive nodes node body clock s k = .entered t ∧ InLoop front below range false [] t)
    (m : ℕ) (next : Option ι) (t : Env ι) : drive nodes node body clock s m ≠ .left next t := by
  intro hleft
  have hleft' := drive_left hleft k
  obtain ⟨t', hdrive, -⟩ := drive_stuck hfront hbody h m
  rw [Nat.add_comm, hdrive] at hleft'
  cases hleft'

/-- If no body removes all that is left then each turn takes an element, and the flag is set when
it was the last. -/
theorem drive_measured (hfront : LoopFront nodes node front range)
    (hs : InLoop front below range exiting ws s)
    (hbody : ∀ k t, drive nodes node body clock s k = .entered t →
      ShrinkingBody nodes node range t (body k t))
    (hstart : exiting = true ∨ ws ≠ [])
    (hkeep : ∀ k t, drive nodes node body clock s k = .entered t →
      t.heap.cell range ≠ .list [] → (body k t).heap.cell range ≠ .list [])
    {k : ℕ} (h : drive nodes node body clock s k = .entered t) :
    ∃ ws', InLoop front below range ws'.isEmpty ws' t ∧ ws'.length + k < ws.length := by
  induction k generalizing t with
  | zero =>
    obtain ⟨he, e, hin, -, hflag⟩ := turn_entered hfront hs h
    have hne : ws ≠ [] := hstart.resolve_left (by simp [he])
    have hlen := List.length_pos_iff.mpr hne
    exact ⟨ws.tail, hflag hne ▸ hin, by rw [List.length_tail]; omega⟩
  | succ k ih =>
    rcases drive_cases hfront hs hbody k with ⟨t₀, h₀⟩ | ⟨t₀, -, -, h₀, -, -⟩
    · rw [drive, h₀] at h
      cases h
    obtain ⟨ws₀, hin₀, hlen₀⟩ := ih h₀
    obtain ⟨ws₁, hin₁, hsub⟩ := (hbody k t₀ h₀).inLoop hfront hin₀
    obtain ⟨he, e, hin, -, hflag⟩ := turn_entered hfront hin₁ ((drive_succ h₀).symm.trans h)
    -- the flag was not set, so the body was entered with elements left, and has left some
    have hne₀ : t₀.heap.cell range ≠ .list [] := by
      rw [hin₀.list]
      simpa using he
    have hne : ws₁ ≠ [] := by
      rintro rfl
      exact hkeep k t₀ h₀ hne₀ hin₁.list
    have hlen := List.length_pos_iff.mpr hne
    have hle := hsub.length_le
    exact ⟨ws₁.tail, hflag hne ▸ hin, by rw [List.length_tail]; omega⟩

/-- **When a loop ends.** Take any state with the loop's scope in front, and any bodies that remove
elements of the list and add none. The loop is left after finitely many turns, and its flag is set
whenever it goes on with an empty list, if and only if it does not start with an empty list and the
flag not set, and no body that is entered with elements left removes them all. -/
theorem loop_terminates_iff (hfront : LoopFront nodes node front range)
    (hs : InLoop front below range exiting ws s)
    (hbody : ∀ k t, drive nodes node body clock s k = .entered t →
      ShrinkingBody nodes node range t (body k t)) :
    ((∃ k t, drive nodes node body clock s k = .left (nodes node).nextNode t) ∧
      ∀ k t, drive nodes node body clock s k = .entered t → t.heap.cell range = .list [] →
        t.frontCtrlFlow.map ControlFlow.exiting = some true) ↔
    ((exiting = true ∨ ws ≠ []) ∧
      ∀ k t, drive nodes node body clock s k = .entered t → t.heap.cell range ≠ .list [] →
        (body k t).heap.cell range ≠ .list []) := by
  constructor
  · rintro ⟨⟨m, u, hleft⟩, -⟩
    constructor
    · by_contra hcon
      push Not at hcon
      obtain ⟨he, rfl⟩ := hcon
      obtain rfl : exiting = false := by simpa using he
      exact not_left_of_stuck hfront hbody (k := 0) (turn_nil hfront hs (clock 0)) m _ u hleft
    · intro k t h hne hempty
      obtain ⟨e, ws', hin, hflag⟩ := inLoop_of_drive hfront hs hbody h
      obtain rfl : e = false := by
        refine hflag fun hnil => hne ?_
        rw [hin.list, hnil]
        rfl
      obtain ⟨ctrl, hc, hn, -⟩ := hfront.ctrlFlow
      have hlist : (body k t).heap.cell range = .list (([] : List VarAddr).map some) := hempty
      have hin' : InLoop front below range false [] (body k t) :=
        (hin.body hc hn (hbody k t h).body hlist).1
      obtain ⟨t₁, hturn, hin₁⟩ := turn_nil hfront hin' (clock (k + 1))
      exact not_left_of_stuck hfront hbody ⟨t₁, (drive_succ h).trans hturn, hin₁⟩ m _ u hleft
  · rintro ⟨hstart, hkeep⟩
    constructor
    · rcases drive_cases hfront hs hbody ws.length with ⟨t, h⟩ | ⟨t, -, -, h, -, -⟩
      · exact ⟨_, t, h⟩
      · obtain ⟨ws', -, hlen⟩ := drive_measured hfront hs hbody hstart hkeep h
        omega
    · intro k t h hempty
      obtain ⟨ws', hin, -⟩ := drive_measured hfront hs hbody hstart hkeep h
      obtain rfl : ws' = [] := by
        have hlist := hin.list.symm.trans hempty
        simpa using hlist
      obtain ⟨ctrl, hc, -⟩ := hfront.ctrlFlow
      rw [hin.frontCtrlFlow hc]
      rfl

end Drive

/-! ### A loop over two elements -/

/-- The loop over `1, 2` has been entered, and has taken the `1`. -/
def enteredEnv : Env Unit :=
  (listEnv.push (loopScope forNode () "x" 2)).takeElement "x" 2 (.int 1) [some 1]

/-- Its body has removed the `2`. -/
def emptiedEnv : Env Unit := { enteredEnv with heap := enteredEnv.heap.write 2 (.list []) }

theorem loopFront_forNode : LoopFront forNode () (loopScope forNode () "x" 2) 2 :=
  ⟨rfl, ⟨_, rfl⟩, _, rfl, rfl, rfl⟩

theorem inLoop_enteredEnv :
    InLoop (loopScope forNode () "x" 2) listEnv.scopes 2 false [1] enteredEnv :=
  ⟨rfl, by decide⟩

theorem inLoop_emptiedEnv :
    InLoop (loopScope forNode () "x" 2) listEnv.scopes 2 false [] emptiedEnv :=
  ⟨rfl, by decide⟩

/-- The body that does nothing. -/
theorem ShrinkingBody.refl (nodes : ι → RuleNode ι) (node : ι) (range : CellAddr) (t : Env ι) :
    ShrinkingBody nodes node range t t :=
  ⟨⟨ReflTransGen.refl, rfl⟩, fun l hl => ⟨l, hl, List.Sublist.refl l⟩⟩

/-- With empty bodies, the loop that has the `2` left ends. -/
theorem loop_terminates_iff_entered :
    ∃ k t, drive forNode () (fun _ t => t) (fun _ => 0) enteredEnv k = .left none t :=
  ((loop_terminates_iff loopFront_forNode inLoop_enteredEnv
    fun _ t _ => ShrinkingBody.refl forNode () 2 t).mpr ⟨Or.inr (by decide), fun _ _ _ h => h⟩).1

theorem reachable_emptiedEnv : Reachable forNode emptiedEnv := by
  have henter : Step forNode listEnv enteredEnv := Step.op (.enterScope (some ())) 0 rfl
  have hremove : Variable.removeAt 2 (.int 0) enteredEnv.heap = .ok emptiedEnv.heap := by decide
  exact (reachable_listEnv.tail henter).tail
    (Step.client (Variable.removeAt_evolves hremove))

/-- The body of the first round over `1, 2` removes the `2`, and the loop goes on for ever. -/
theorem loop_terminates_fails :
    Reachable forNode emptiedEnv ∧ emptiedEnv.frontBelongsTo (some ()) = true ∧
      (∀ t, ShrinkingBody forNode () 2 t t) ∧
      ∀ k next t, drive forNode () (fun _ t => t) (fun _ => 0) emptiedEnv k ≠ .left next t :=
  ⟨reachable_emptiedEnv, rfl, ShrinkingBody.refl forNode () 2,
    not_left_of_stuck loopFront_forNode (fun _ t _ => ShrinkingBody.refl forNode () 2 t) (k := 0)
      (turn_nil loopFront_forNode inLoop_emptiedEnv 0)⟩

end SocialGaming
