import SocialGaming.GameInstance
import SocialGaming.LoopLocality
import SocialGaming.Library.Runs

/-!
# The players of a game

The list of the players is a variable like any other. It is bound in the scope that is in front when
the first player joins, and is gone when this scope is left; a loop whose variable is `player` binds
the name to an element of its own list; and a loop over the list empties it.

## Main definitions

* `Roster` — a game, and the players who have joined
* `RosterStep` — a player joins, or a scope is entered or left
* `Loses` — the steps after which `player` is not the list of the players
* `LimitEnforced` — the list is never longer than the limit, and not touched when it is as long

## Main results

* `players_kept` — the list is that of the players as long as no step loses it
* `limitEnforced_iff` — the limit is enforced on a sequence of calls that does not reach it
-/

namespace SocialGaming

variable {ι : Type}

/-! ### What happens to the list of the players -/

namespace Env

variable {s s' : Env ι} {players : List (Int32 × String)}

theorem HoldsPlayers.of_extends (h : s.HoldsPlayers players)
    (hget : s'.getVariable "player" = s.getVariable "player") (hext : s.heap.Extends s'.heap) :
    s'.HoldsPlayers players := by
  obtain ⟨l, ⟨p, hp, hl⟩, hrecords⟩ := h
  exact ⟨l, ⟨p, hget.trans hp, hl.of_extends hext⟩, hrecords.of_keepsRecords hext.keepsRecords⟩

theorem PlayerList.scopes_ne_nil {l : List VarPtr} (h : s.PlayerList l) : s.scopes ≠ [] := by
  obtain ⟨p, hp, -⟩ := h
  intro hnil
  rw [getVariable_eq_lookup, bindings, hnil] at hp
  cases hp

/-- A scope that binds nothing hides nothing. -/
theorem getVariable_push {scope : Scope ι} (h : scope.vars = ∅) (x : String) :
    (s.push scope).getVariable x = s.getVariable x := by
  have hframe : scope.frame x = none := by
    simp [Scope.frame, h]
  rw [getVariable_eq_lookup, getVariable_eq_lookup, push, bindings, List.map_cons,
    ScopeStack.lookup_cons, hframe, Option.none_or]
  rfl

theorem getVariable_takeElement_eq (x : String) (range : CellAddr) (v : VarType)
    (rest : List VarPtr) (y : String) :
    (s.takeElement x range v rest).getVariable y = (s.assign x (.value v)).getVariable y := by
  rw [getVariable_eq_lookup, bindings_takeElement, ← getVariable_eq_lookup]

/-- **An element is taken.** If the loop variable is `player` then the list is what the element is,
and otherwise it must not be the list the element is taken from. -/
theorem HoldsPlayers.takeElement (h : s.HoldsPlayers players) {x : String} {range : CellAddr}
    {q : VarAddr} {rest : List VarPtr} (hrange : s.heap.cell range = .list (some q :: rest))
    (hself : x = "player" → ∃ l, s.heap.value q = .list l ∧ s.heap.AreRecords l players)
    (hother : x ≠ "player" → ∀ p, s.getVariable "player" = some p → s.heap.storage p ≠ range) :
    (s.takeElement x range (s.heap.value q) rest).HoldsPlayers players := by
  obtain ⟨l, hlist, hrecords⟩ := h
  have hs := hlist.scopes_ne_nil
  have hext := s.extends_assign x (.value (s.heap.value q))
  have hwrite : (s.assign x (.value (s.heap.value q))).heap.KeepsRecords
      (s.takeElement x range (s.heap.value q) rest).heap :=
    Heap.keepsRecords_write (hext.cell_eq_list hrange) _
  have hkeep := hext.keepsRecords.trans hwrite
  by_cases hx : x = "player"
  · obtain ⟨l', hq, hrecords'⟩ := hself hx
    subst hx
    refine ⟨l', ⟨(s.heap.makeVariable (s.heap.value q)).1, ?_, ?_⟩, hrecords'.of_keepsRecords hkeep⟩
    · rw [getVariable_takeElement_eq, getVariable_assign_self hs]
      rfl
    · -- the new `Variable` has a storage of its own, and the list is another
      have hnew : (s.assign "player" (.value (s.heap.value q))).heap.Holds
          (s.heap.makeVariable (s.heap.value q)).1 (.list l') := by
        rw [heap_assign hs, ← hq]
        exact s.heap.holds_makeVariable _
      refine hnew.write_of_ne ?_ _
      have hlt := Heap.lt_length_of_cell_eq_list hrange
      rw [heap_assign hs]
      show (s.heap.makeVariable (s.heap.value q)).2.storage (s.heap.makeVariable (s.heap.value q)).1
        ≠ range
      have hstorage : (s.heap.makeVariable (s.heap.value q)).2.storage
          (s.heap.makeVariable (s.heap.value q)).1 = s.heap.cells.length := by
        simp [Heap.makeVariable, Heap.storage]
      rw [hstorage]
      exact hlt.ne'
  · obtain ⟨p, hp, hl⟩ := hlist
    refine ⟨l, ⟨p, ?_, ?_⟩, hrecords.of_keepsRecords hkeep⟩
    · rw [getVariable_takeElement_eq, getVariable_assign_of_ne hs (Ne.symm hx), hp]
    · refine (hl.of_extends hext).write_of_ne ?_ _
      rw [hext.evolves.storage_eq hl.lt_length]
      exact hother hx p hp

/-- Names are bound to the same `Variable`s, and these hold what they did. -/
def SameView (s s' : Env ι) : Prop := (∀ x, s'.getVariable x = s.getVariable x) ∧ s'.heap = s.heap

theorem SameView.refl (s : Env ι) : s.SameView s := ⟨fun _ => rfl, rfl⟩

theorem sameView_push {scope : Scope ι} (h : scope.vars = ∅) : s.SameView (s.push scope) :=
  ⟨getVariable_push h, rfl⟩

theorem HoldsPlayers.of_sameView (h : s.HoldsPlayers players) (hv : s.SameView s') :
    s'.HoldsPlayers players :=
  h.of_extends (hv.1 _) (hv.2 ▸ Heap.Extends.refl _)

/-- A scope is left, or emptied, that does not bind the name. -/
theorem getVariable_of_exitScope {nodes : ι → RuleNode ι} {force : Bool} {now : ℤ} {x : String}
    (h : Prog.after? ((exitScope nodes force now).run s) = some s')
    (hx : ∀ front rest, s.scopes = front :: rest → front.ctrlFlow.isSome → front.hasVar x = false) :
    s'.getVariable x = s.getVariable x ∧ s'.heap = s.heap := by
  rcases after_exitScope nodes h with ⟨-, rfl⟩ | ⟨scope, rest, hs, scopes', rfl, hcase⟩
  · exact ⟨rfl, rfl⟩
  refine ⟨?_, rfl⟩
  rw [getVariable_eq_lookup, getVariable_eq_lookup, bindings, bindings, hs, List.map_cons,
    ScopeStack.lookup_cons]
  rcases hcase with ⟨-, rfl⟩ | ⟨ctrl, hc, hcase⟩
  · rw [List.map_cons, ScopeStack.lookup_cons]
  have hframe : scope.frame x = none := by
    have hvar := hx scope rest hs (by rw [hc, Option.isSome_some])
    rw [Scope.hasVar_eq] at hvar
    simpa using hvar
  rcases hcase with ⟨-, -, rfl⟩ | ⟨-, -, rfl⟩
  · rw [List.map_cons, ScopeStack.lookup_cons, Scope.frame_empty, hframe]
  · rw [hframe, Option.none_or]

section

variable [DecidableEq ι] {nodes : ι → RuleNode ι} {node : Option ι}

/-- The control flow with which entering the node calls `updateLoop`. -/
def Updates (nodes : ι → RuleNode ι) (node : Option ι) (s : Env ι) (ctrl : ControlFlow ι) : Prop :=
  if s.frontBelongsTo node then s.frontCtrlFlow = some ctrl
  else ∃ n, node = some n ∧ (nodes n).type.isLoop ∧ ControlFlow.new nodes node s = .ok ctrl

/-- Entering the node takes the element `q` off the range, for the variable `x`. -/
def Takes (nodes : ι → RuleNode ι) (node : Option ι) (s : Env ι) (x : String) (range : CellAddr)
    (q : VarAddr) (rest : List VarPtr) : Prop :=
  ∃ ctrl, Updates nodes node s ctrl ∧ ctrl.loopVarName = x ∧ ctrl.range = some range ∧
    s.heap.cell range = .list (some q :: rest)

/-- It takes an element, or nothing can be seen of it. -/
def TakesOrKeeps (nodes : ι → RuleNode ι) (node : Option ι) (s s' : Env ι) : Prop :=
  s.SameView s' ∨ ∃ x range q rest, Takes nodes node s x range q rest ∧
    ∃ t : Env ι, s.SameView t ∧ s' = t.takeElement x range (t.heap.value q) rest

theorem frontCtrlFlow_of_frontBelongsTo (h : s.frontBelongsTo node = true) :
    ∃ ctrl, s.frontCtrlFlow = some ctrl ∧ ctrl.node = node := by
  rw [frontBelongsTo] at h
  rcases hf : s.frontCtrlFlow with _ | ctrl
  · rw [hf] at h
    cases h
  · rw [hf] at h
    exact ⟨ctrl, rfl, by simpa using h⟩

theorem Updates.after_updateLoop {ctrl : ControlFlow ι} {t : Env ι}
    (hctrl : Updates nodes node s ctrl) (ht : s.SameView t)
    (h : Prog.after? ((updateLoop nodes ctrl).run t) = some s') :
    TakesOrKeeps nodes node s s' := by
  rcases updateLoop_cases nodes ctrl t with ⟨range, q, rest, hr, hl, hrun⟩ | hrun | ⟨f, hrun⟩
  · rw [hrun] at h
    refine Or.inr ⟨_, range, q, rest, ⟨ctrl, hctrl, rfl, hr, ?_⟩, t, ht, after_ofExcept h⟩
    rw [← ht.2, hl]
  · rw [hrun] at h
    obtain rfl := after_ofExcept h
    exact Or.inl ht
  · obtain rfl : t = s' := Prog.respects_error (R := Eq) hrun s' h
    exact Or.inl ht

/-- **What entering a node can do.** -/
theorem after_enterScope (h : Prog.after? ((enterScope nodes node).run s) = some s') :
    TakesOrKeeps nodes node s s' := by
  rcases hfront : s.frontBelongsTo node with _ | _
  · rw [enterScope_new nodes hfront] at h
    rcases hnew : Scope.new nodes node s with f | scope
    · obtain rfl : s = s' := Prog.respects_error (R := Eq) (enterNew_error nodes hnew) s' h
      exact Or.inl (SameView.refl s)
    obtain ⟨hvars, -, ctrl, hctrl, hscope⟩ := Scope.new_eq_ok nodes hnew
    rcases hnext : ctrl.getNext nodes with f | next
    · obtain rfl : s = s' :=
        Prog.respects_error (R := Eq) (enterNew_error_getNext nodes hnew hscope hnext) s' h
      exact Or.inl (SameView.refl s)
    by_cases hloop : ∃ n, node = some n ∧ (nodes n).type.isLoop
    · obtain ⟨n, rfl, hn⟩ := hloop
      rw [enterNew_loop nodes hnew hscope hnext hn] at h
      have hupdates : Updates nodes (some n) s ctrl := by
        rw [Updates, hfront]
        exact ⟨n, rfl, hn, hctrl⟩
      exact hupdates.after_updateLoop (sameView_push hvars) h
    · have hother : ∀ n, node = some n → (nodes n).type.isLoop = false :=
        fun n hn => by simpa using fun hl => hloop ⟨n, hn, hl⟩
      rw [enterNew_other nodes hnew hscope hnext hother, Prog.after?_ok, Option.some_inj] at h
      exact Or.inl (h ▸ sameView_push hvars)
  · obtain ⟨ctrl, hf, hn⟩ := frontCtrlFlow_of_frontBelongsTo hfront
    rw [enterScope_again nodes hf hn] at h
    have hupdates : Updates nodes node s ctrl := by
      rw [Updates, hfront]
      exact hf
    exact hupdates.after_updateLoop (SameView.refl s) h

end

end Env

/-! ### Players who join -/

/-- A game, and the players whose calls it has accepted. -/
structure Roster (ι : Type) where
  game : GameInstance ι
  joined : List (Int32 × String) := []

/-- What happens to a game. -/
inductive RosterEvent (ι : Type) where
  | join (playerId : Int32) (username : String)
  | enter (node : Option ι)
  | enterTimed (node : Option ι) (timer : Timer ι)
  | exit (force : Bool)

/-- `player` is bound to a list, and not to one without elements. -/
def Env.PlayerTaken (s : Env ι) : Prop :=
  ∃ p, s.getVariable "player" = some p ∧ ∀ v, s.heap.Holds p v → ∃ l, v = .list l ∧ l ≠ []

/-- If a player has joined, `player` is the list of those who have. -/
def Roster.Kept (r : Roster ι) : Prop := r.joined ≠ [] → r.game.envMgr.HoldsPlayers r.joined

section

variable [DecidableEq ι] (nodes : ι → RuleNode ι)

/-- A call on the game, or on its environment, that returns or throws. A player is accepted if the
call returns and the limit has not been reached. -/
inductive RosterStep : Roster ι → RosterEvent ι → Roster ι → Prop
  | join {game game' : GameInstance ι} {joined : List (Int32 × String)} {playerId : Int32}
      {username : String}
      (h : (GameInstance.addPlayerToGame playerId username).run game = .ok () game') :
      RosterStep ⟨game, joined⟩ (.join playerId username)
        ⟨game', if game.currPlayerCount < game.numMaxPlayers then joined ++ [(playerId, username)]
          else joined⟩
  | refused {game game' : GameInstance ι} {joined : List (Int32 × String)} {playerId : Int32}
      {username : String} {e : Exn}
      (h : (GameInstance.addPlayerToGame playerId username).run game = .error (.thrown e) game') :
      RosterStep ⟨game, joined⟩ (.join playerId username) ⟨game', joined⟩
  | enter {game : GameInstance ι} {joined : List (Int32 × String)} {node : Option ι} {s : Env ι}
      (h : Prog.after? ((enterScope nodes node).run game.envMgr) = some s) :
      RosterStep ⟨game, joined⟩ (.enter node) ⟨game.setEnvMgr s, joined⟩
  | enterTimed {game : GameInstance ι} {joined : List (Int32 × String)} {node : Option ι}
      {timer : Timer ι} (now : ℤ) {s : Env ι}
      (h : Prog.after? ((enterScopeTimed nodes node timer now).run game.envMgr) = some s) :
      RosterStep ⟨game, joined⟩ (.enterTimed node timer) ⟨game.setEnvMgr s, joined⟩
  | exit {game : GameInstance ι} {joined : List (Int32 × String)} {force : Bool} (now : ℤ)
      {s : Env ι} (h : Prog.after? ((exitScope nodes force now).run game.envMgr) = some s) :
      RosterStep ⟨game, joined⟩ (.exit force) ⟨game.setEnvMgr s, joined⟩

/-- The list of the players gets lost: the first of them is put in a list that was there before, a
loop takes an element and binds `player` to it or takes it off the list of the players, the flag of
a timer is called `player`, or the scope that binds `player` is left. -/
def Loses (r : Roster ι) : RosterEvent ι → Prop
  | .join _ _ => r.joined = [] ∧ r.game.envMgr.PlayerTaken
  | .enter node => r.joined ≠ [] ∧ ∃ x range q rest,
      Env.Takes nodes node r.game.envMgr x range q rest ∧
        (x = "player" → ¬ ∃ l, r.game.envMgr.heap.value q = .list l ∧
          r.game.envMgr.heap.AreRecords l r.joined) ∧
        (x ≠ "player" → ∃ p, r.game.envMgr.getVariable "player" = some p ∧
          r.game.envMgr.heap.storage p = range)
  | .enterTimed node timer => r.joined ≠ [] ∧ timer.flagName = "player" ∧
      ∃ scope, Scope.new nodes node r.game.envMgr = .ok scope
  | .exit _ => r.joined ≠ [] ∧ ∃ front rest, r.game.envMgr.scopes = front :: rest ∧
      front.ctrlFlow.isSome ∧ front.hasVar "player"

variable {nodes}

omit [DecidableEq ι] in
theorem Env.exists_of_not_playerTaken {s : Env ι} (h : ¬ s.PlayerTaken) {p : VarAddr}
    (hp : s.getVariable "player" = some p) :
    ∃ v, s.heap.Holds p v ∧ ∀ l, v = .list l → l = [] := by
  by_contra hno
  refine h ⟨p, hp, fun v hv => ?_⟩
  by_contra hl
  exact hno ⟨v, hv, fun l hvl => by_contra fun hne => hl ⟨l, hvl, hne⟩⟩

omit [DecidableEq ι] in
/-- The list the first player is put in. -/
theorem GameInstance.playerList_of_addPlayerToGame {game game' : GameInstance ι} {playerId : Int32}
    {username : String} (hlt : game.currPlayerCount < game.numMaxPlayers)
    (hvars : game.playerVars = ∅) (htaken : ¬ game.envMgr.PlayerTaken)
    (h : (addPlayerToGame playerId username).run game = .ok () game') :
    game.envMgr.initPlayers.PlayerList [] := by
  rcases hp : game.envMgr.getVariable "player" with _ | p
  · obtain ⟨hmade, hnot⟩ := Env.initPlayers_new hp
    by_cases hs : game.envMgr.scopes = []
    · obtain ⟨_, hrun⟩ := addPlayerToGame_null playerId username hlt hvars (hnot hs)
      rw [h] at hrun
      cases hrun
    · exact hmade hs
  · obtain ⟨v, hv, hl⟩ := Env.exists_of_not_playerTaken htaken hp
    have hinit := Env.initPlayers_eq hp
    by_cases hlist : ∃ l, v = .list l
    · obtain ⟨l, rfl⟩ := hlist
      rw [hinit]
      exact ⟨p, hp, hl l rfl ▸ hv⟩
    · obtain ⟨_, hrun⟩ := addPlayerToGame_throws playerId username hlt hvars
        (by rw [hinit]; exact hp) (by rw [hinit]; exact hv) fun l hvl => hlist ⟨l, hvl⟩
      rw [h] at hrun
      cases hrun

omit [DecidableEq ι] in
/-- A player who joins. -/
theorem Env.HoldsPlayers.join {game game' : GameInstance ι} {players : List (Int32 × String)}
    {playerId : Int32} {username : String} (hlt : game.currPlayerCount < game.numMaxPlayers)
    (hvars : game.playerVars = ∅) (hinit : game.envMgr.initPlayers.HoldsPlayers players)
    (h : (GameInstance.addPlayerToGame playerId username).run game = .ok () game') :
    game'.envMgr.HoldsPlayers (players ++ [(playerId, username)]) := by
  obtain ⟨l, hlist, hrecords⟩ := hinit
  obtain ⟨s, q, hrun, -, hlist', hrecord, hkeep⟩ :=
    GameInstance.addPlayerToGame_joins playerId username hlt hvars hlist
  rw [h] at hrun
  obtain ⟨-, rfl⟩ := EStateM.Result.ok.inj hrun
  exact ⟨_, hlist', List.rel_append (hrecords.of_keepsRecords hkeep)
    (List.Forall₂.cons hrecord List.Forall₂.nil)⟩

omit [DecidableEq ι] in
/-- Once there are players, they are in the list that is there. -/
theorem Env.HoldsPlayers.initPlayers_eq {s : Env ι} {players : List (Int32 × String)}
    (h : s.HoldsPlayers players) : s.initPlayers = s := by
  obtain ⟨_, ⟨p, hp, -⟩, -⟩ := h
  exact Env.initPlayers_eq hp

omit [DecidableEq ι] in
/-- A scope is entered with a timer whose flag has another name. -/
theorem Env.HoldsPlayers.enterScopeTimed {s s' : Env ι} {joined : List (Int32 × String)}
    (h : s.HoldsPlayers joined) {node : Option ι} {timer : Timer ι} {now : ℤ}
    (hname : ∀ scope, Scope.new nodes node s = .ok scope → timer.flagName ≠ "player")
    (hrun : Prog.after? ((SocialGaming.enterScopeTimed nodes node timer now).run s) = some s') :
    s'.HoldsPlayers joined := by
  rcases hscope : Scope.new nodes node s with f | scope
  · obtain rfl : s = s' :=
      Prog.respects_error (R := Eq) (enterScopeTimed_error nodes hscope) s' hrun
    exact h
  rw [enterScopeTimed_run nodes hscope, Prog.after?_ok, Option.some_inj] at hrun
  subst hrun
  have hempty : ({ scope with timerId := timer.id } : Scope ι).vars = ∅ :=
    (Scope.new_eq_ok nodes hscope).1
  have hs : s.scopes ≠ [] := by
    obtain ⟨_, hlist, -⟩ := h
    exact hlist.scopes_ne_nil
  refine h.of_extends ((Env.getVariable_push hempty "player").trans ?_) ?_
  · split
    · exact Env.getVariable_assign_of_ne hs (hname scope hscope).symm _
    · rfl
  · show s.heap.Extends (ite _ _ _ : Env ι).heap
    split
    · exact s.extends_assign _ _
    · exact Heap.Extends.refl _

section

variable {game game' : GameInstance ι} {joined : List (Int32 × String)}

omit [DecidableEq ι] in
/-- A call for a player returns. -/
theorem Roster.kept_join {playerId : Int32} {username : String}
    (hrun : (GameInstance.addPlayerToGame playerId username).run game = .ok () game')
    (htaken : ¬ (joined = [] ∧ game.envMgr.PlayerTaken)) (hvars : game.playerVars = ∅)
    (hkept : Roster.Kept ⟨game, joined⟩) :
    Roster.Kept ⟨game', if game.currPlayerCount < game.numMaxPlayers
      then joined ++ [(playerId, username)] else joined⟩ := by
  by_cases hlt : game.currPlayerCount < game.numMaxPlayers
  · have hinit : game.envMgr.initPlayers.HoldsPlayers joined := by
      by_cases hnil : joined = []
      · subst hnil
        exact ⟨[], GameInstance.playerList_of_addPlayerToGame hlt hvars
          (fun htaken' => htaken ⟨rfl, htaken'⟩) hrun, List.Forall₂.nil⟩
      · rw [(hkept hnil).initPlayers_eq]
        exact hkept hnil
    intro _
    simp only [hlt, if_true]
    exact hinit.join hlt hvars hrun
  · rw [GameInstance.addPlayerToGame_full (not_lt.mp hlt)] at hrun
    obtain ⟨-, rfl⟩ := EStateM.Result.ok.inj hrun
    simpa only [hlt, if_false] using hkept

omit [DecidableEq ι] in
/-- Once there are players, a call for one does not throw. -/
theorem Env.HoldsPlayers.not_refused {playerId : Int32} {username : String} {f : Fault Exn}
    (h : game.envMgr.HoldsPlayers joined) (hvars : game.playerVars = ∅) :
    (GameInstance.addPlayerToGame playerId username).run game ≠ .error f game' := by
  intro hrun
  by_cases hlt : game.currPlayerCount < game.numMaxPlayers
  · have hinit := h.initPlayers_eq
    obtain ⟨l, hlist, -⟩ := h
    rw [← hinit] at hlist
    obtain ⟨_, _, hok, -⟩ := GameInstance.addPlayerToGame_joins playerId username hlt hvars hlist
    rw [hrun] at hok
    cases hok
  · rw [GameInstance.addPlayerToGame_full (not_lt.mp hlt)] at hrun
    cases hrun

/-- A node is entered. -/
theorem Env.HoldsPlayers.enterScope {s : Env ι} {node : Option ι}
    (h : game.envMgr.HoldsPlayers joined)
    (hrun : Prog.after? ((SocialGaming.enterScope nodes node).run game.envMgr) = some s)
    (hne : joined ≠ []) (hnot : ¬ Loses nodes ⟨game, joined⟩ (.enter node)) :
    s.HoldsPlayers joined := by
  rcases Env.after_enterScope hrun with hview | ⟨x, range, q, rest, htakes, t, hview, rfl⟩
  · exact h.of_sameView hview
  have hheap := hview.2
  obtain ⟨ctrl, hupdates, hx, hrange, hl⟩ := htakes
  refine Env.HoldsPlayers.takeElement (h.of_sameView hview) (hheap ▸ hl) ?_ ?_
  · rintro rfl
    rw [hheap]
    by_contra hq
    exact hnot ⟨hne, _, range, q, rest, ⟨ctrl, hupdates, hx, hrange, hl⟩, fun _ => hq,
      fun h => absurd rfl h⟩
  · rintro hother p hp rfl
    rw [hview.1] at hp
    refine hnot ⟨hne, x, _, q, rest, ⟨ctrl, hupdates, hx, hrange, hl⟩, fun h => absurd h hother,
      fun _ => ⟨p, hp, ?_⟩⟩
    rw [hheap]

end

/-- **One step.** -/
theorem RosterStep.kept {r r' : Roster ι} {e : RosterEvent ι} (h : RosterStep nodes r e r')
    (hnot : ¬ Loses nodes r e) (hvars : r.game.playerVars = ∅) (hkept : r.Kept) : r'.Kept := by
  cases h with
  | join hrun => exact Roster.kept_join hrun hnot hvars hkept
  | refused hrun => exact fun hne => absurd hrun ((hkept hne).not_refused hvars)
  | enter hrun => exact fun hne => (hkept hne).enterScope hrun hne hnot
  | @enterTimed game joined node timer now s hrun =>
    intro hne
    refine (hkept hne).enterScopeTimed (fun scope hscope hflag => ?_) hrun
    exact hnot ⟨hne, hflag, scope, hscope⟩
  | exit now hrun =>
    intro hne
    obtain ⟨hget, hheap⟩ := Env.getVariable_of_exitScope (x := "player") hrun
      fun front rest hs hc => by simpa using fun hx => hnot ⟨hne, front, rest, hs, hc, hx⟩
    exact (hkept hne).of_extends hget (hheap ▸ Heap.Extends.refl _)

theorem RosterStep.playerVars {r r' : Roster ι} {e : RosterEvent ι} (h : RosterStep nodes r e r') :
    r'.game.playerVars = r.game.playerVars := by
  cases h with
  | join hrun =>
    obtain ⟨s, rfl⟩ := GameInstance.addPlayerToGame_setEnvMgr (congrArg Prog.after? hrun)
    rfl
  | refused hrun =>
    obtain ⟨s, rfl⟩ := GameInstance.addPlayerToGame_setEnvMgr (congrArg Prog.after? hrun)
    rfl
  | enter _ => rfl
  | enterTimed _ _ => rfl
  | exit _ _ => rfl

/-- **Joined players stay in the game as long as no step loses them.** Start with a game with any
environment, and let players join and scopes be entered and left in any order, so that no step is
one that loses the players: then in every state, once a player has joined, `player` is bound to the
list of the records of those who have, in the order in which they have. -/
theorem players_kept (gameInstanceName : String) (gameInstanceId : Int32) (envMgr : Env ι)
    {trace : List (Roster ι × RosterEvent ι)} {r : Roster ι}
    (hrun : Run (RosterStep nodes)
      ⟨(GameInstance.new gameInstanceName gameInstanceId).setEnvMgr envMgr, []⟩ trace r)
    (hkeep : ∀ p ∈ trace, ¬ Loses nodes p.1 p.2) : r.Kept := by
  have hinv : r.game.playerVars = ∅ ∧ r.Kept := by
    refine hrun.invariant_of_forall (P := fun r => r.game.playerVars = ∅ ∧ r.Kept)
      (C := fun p => ¬ Loses nodes p.1 p.2) hkeep ⟨rfl, fun h => absurd rfl h⟩ ?_
    rintro r e r' hstep hnot ⟨hvars, hkept⟩
    exact ⟨hstep.playerVars.trans hvars, hstep.kept hnot hvars hkept⟩
  exact hinv.2

end

/-- One player joins before the node of a match is entered and one after, and the node is left. -/
theorem players_kept_match : ∃ trace, ∃ r : Roster Unit,
    Run (RosterStep matchNode) ⟨(GameInstance.new "g" 0).setEnvMgr {}, []⟩ trace r ∧
      trace.map Prod.snd = [.join 1 "a", .enter (some ()), .join 2 "b", .exit false] ∧
      r.joined = [(1, "a"), (2, "b")] ∧ r.Kept := by
  have hrun : Run (RosterStep matchNode) ⟨(GameInstance.new "g" 0).setEnvMgr {}, []⟩ _ _ :=
    (((Run.nil.snoc (e := .join 1 "a") (.join rfl)).snoc (e := .enter (some ())) (.enter rfl)).snoc
      (e := .join 2 "b") (.join rfl)).snoc (e := .exit false) (.exit 0 rfl)
  refine ⟨_, _, hrun, rfl, rfl, players_kept "g" 0 {} hrun ?_⟩
  intro p hp
  simp only [List.nil_append, List.cons_append, List.mem_cons, List.not_mem_nil, or_false] at hp
  rcases hp with rfl | rfl | rfl | rfl
  · rintro ⟨-, p, hp, -⟩
    cases hp
  · rintro ⟨-, x, range, q, rest, ⟨ctrl, hctrl, -⟩, -⟩
    obtain ⟨n, -, hloop, -⟩ : ∃ n : Unit, some () = some n ∧ (matchNode n).type.isLoop ∧ _ := hctrl
    cases hloop
  · rintro ⟨hnil, -⟩
    cases hnil
  · rintro ⟨-, front, rest, hs, -, hvar⟩
    obtain ⟨rfl, -⟩ := List.cons.inj hs
    cases hvar

/-- The node of a match is entered, a player joins, and the node is left: the list is gone. -/
theorem players_lost : ∃ trace r,
    Run (RosterStep matchNode) ⟨GameInstance.new "g" 0, []⟩ trace r ∧
      trace.map Prod.snd = [.enter (some ()), .join 1 "a", .exit false] ∧
      r.joined = [(1, "a")] ∧ r.game.envMgr.getVariable "player" = none ∧ ¬ r.Kept := by
  have hrun : Run (RosterStep matchNode) ⟨GameInstance.new "g" 0, []⟩ _ _ :=
    ((Run.nil.snoc (e := .enter (some ())) (.enter rfl)).snoc (e := .join 1 "a") (.join rfl)).snoc
      (e := .exit false) (.exit 0 rfl)
  refine ⟨_, _, hrun, rfl, rfl, rfl, fun hkept => ?_⟩
  obtain ⟨_, ⟨p, hp, -⟩, -⟩ := hkept (List.cons_ne_nil _ _)
  cases hp

/-! ### The limit -/

/-- The number of elements of the list of the players. -/
def Env.playerCount (s : Env ι) : ℕ :=
  match s.getVariable "player" with
  | some p =>
    match s.heap.value p with
    | .list l => l.length
    | _ => 0
  | none => 0

/-- One player after the other. -/
def GameInstance.addPlayers (calls : List (Int32 × String)) : Call (GameInstance ι) Unit :=
  forM calls fun player => addPlayerToGame player.1 player.2

/-- After any number of the calls the list is not longer than the limit, and when it is as long the
next call returns and leaves the environment as it is. -/
def LimitEnforced (game : GameInstance ι) (calls : List (Int32 × String)) : Prop :=
  ∀ done next, calls = done ++ next → ∃ game',
    (GameInstance.addPlayers done).run game = .ok () game' ∧
    game'.envMgr.playerCount ≤ game'.numMaxPlayers ∧
      (game'.envMgr.playerCount = game'.numMaxPlayers → ∀ call ∈ next.head?, ∃ after,
        (GameInstance.addPlayerToGame call.1 call.2).run game' = .ok () after ∧
          after.envMgr = game'.envMgr)

/-- A list of the players is there or can be made, and no player has been counted. -/
structure GameInstance.Joinable (game : GameInstance ι) (l : List VarPtr) : Prop where
  notCounted : game.currPlayerCount = 0
  limit : 0 < game.numMaxPlayers
  playerVars : game.playerVars = ∅
  list : game.envMgr.initPlayers.PlayerList l

namespace GameInstance.Joinable

variable {game : GameInstance ι} {l : List VarPtr}

/-- **One call.** Nothing counts it. -/
theorem join (h : game.Joinable l) (call : Int32 × String) :
    ∃ s q, (addPlayerToGame call.1 call.2).run game = .ok () (game.setEnvMgr s) ∧
      (game.setEnvMgr s).Joinable (l ++ [some q]) := by
  obtain ⟨s, q, hrun, -, hlist, -⟩ :=
    addPlayerToGame_joins call.1 call.2 (h.notCounted ▸ h.limit)
      h.playerVars h.list
  refine ⟨s, q, hrun, h.notCounted, h.limit, h.playerVars, ?_⟩
  obtain ⟨p, hp, hl⟩ := hlist
  show s.initPlayers.PlayerList _
  rw [Env.initPlayers_eq hp]
  exact ⟨p, hp, hl⟩

/-- **Any number of calls.** -/
theorem joinAll (h : game.Joinable l) (calls : List (Int32 × String)) :
    ∃ s l', (addPlayers calls).run game = .ok () (game.setEnvMgr s) ∧
      (game.setEnvMgr s).Joinable l' ∧ l'.length = l.length + calls.length := by
  induction calls generalizing game l with
  | nil => exact ⟨game.envMgr, l, rfl, h, rfl⟩
  | cons call calls ih =>
    obtain ⟨s, q, hrun, hnext⟩ := h.join call
    obtain ⟨t, l', hrest, hall, hlen⟩ := ih hnext
    refine ⟨t, l', ?_, hall, ?_⟩
    · rw [addPlayers, List.forM_cons, EStateM.run_bind, hrun]
      exact hrest
    · rw [hlen, List.length_append, List.length_singleton, List.length_cons]
      omega

theorem playerCount_eq (h : game.Joinable l) : game.envMgr.playerCount = l.length := by
  obtain ⟨p, hp, hl⟩ := h.list
  rcases hget : game.envMgr.getVariable "player" with _ | q
  · by_cases hs : game.envMgr.scopes = []
    · rw [(Env.initPlayers_new hget).2 hs] at hp
      cases hp
    · obtain ⟨p', hp', hl'⟩ := (Env.initPlayers_new hget).1 hs
      rw [hp', Option.some_inj] at hp
      subst hp
      have hnil := hl'.value_eq.symm.trans hl.value_eq
      rw [Env.playerCount, hget]
      cases hnil
      rfl
  · rw [Env.initPlayers_eq hget] at hp hl
    rw [Env.playerCount, hp]
    simp only [hl.value_eq]

/-- A list that is full has used up the calls. -/
theorem limitEnforced {calls : List (Int32 × String)} (h : game.Joinable l)
    (hle : l.length + calls.length ≤ game.numMaxPlayers) : LimitEnforced game calls := by
  rintro done next rfl
  rw [List.length_append] at hle
  obtain ⟨s, l', hrun, hall, hlen⟩ := h.joinAll done
  refine ⟨_, hrun, ?_, fun hfull call hcall => ?_⟩
  · rw [hall.playerCount_eq, numMaxPlayers_setEnvMgr]
    omega
  · rw [hall.playerCount_eq, numMaxPlayers_setEnvMgr] at hfull
    have hnil : next = [] := List.length_eq_zero_iff.mp (by omega)
    subst hnil
    cases hcall

/-- A list that is full grows. -/
theorem not_limitEnforced {calls : List (Int32 × String)} (h : game.Joinable l)
    (hmore : game.numMaxPlayers < l.length + calls.length) : ¬ LimitEnforced game calls := by
  intro henforced
  -- the calls that fill the list, if it is not too long already
  let room := game.numMaxPlayers - l.length
  obtain ⟨s, l', hrun, hall, hlen⟩ := h.joinAll (calls.take room)
  obtain ⟨game', hrun', hcount, hsame⟩ :=
    henforced (calls.take room) (calls.drop room) (List.take_append_drop _ _).symm
  rw [hrun] at hrun'
  obtain ⟨-, rfl⟩ := EStateM.Result.ok.inj hrun'
  rw [hall.playerCount_eq, numMaxPlayers_setEnvMgr] at hcount hsame
  have hroom : room < calls.length := by omega
  rw [List.length_take, min_eq_left hroom.le] at hlen
  obtain ⟨after, hafter, henv⟩ := hsame (by omega) (calls[room]) (by simp [hroom])
  obtain ⟨t, q, hjoined, hnext⟩ := hall.join calls[room]
  rw [hafter] at hjoined
  obtain ⟨-, rfl⟩ := EStateM.Result.ok.inj hjoined
  have hsize := hnext.playerCount_eq
  rw [henv, hall.playerCount_eq, List.length_append, List.length_singleton] at hsize
  omega

end GameInstance.Joinable

theorem GameInstance.joinable_new (gameInstanceName : String) (gameInstanceId : Int32)
    {envMgr : Env ι} {l : List VarPtr} (hl : envMgr.initPlayers.PlayerList l) :
    ((new gameInstanceName gameInstanceId).setEnvMgr envMgr).Joinable l :=
  ⟨rfl, Nat.succ_pos 5, rfl, hl⟩

/-- **The limit is enforced only on sequences of calls that do not go past it.** No call is counted,
so none is refused: a sequence of calls keeps to the limit if and only if the players who are in the
list already and those of the calls are not more than the limit together. -/
theorem limitEnforced_iff (gameInstanceName : String) (gameInstanceId : Int32) {envMgr : Env ι}
    {l : List VarPtr} (hl : envMgr.initPlayers.PlayerList l) (calls : List (Int32 × String)) :
    LimitEnforced ((GameInstance.new gameInstanceName gameInstanceId).setEnvMgr envMgr) calls ↔
      l.length + calls.length
        ≤ (GameInstance.new gameInstanceName gameInstanceId : GameInstance ι).numMaxPlayers := by
  have hjoin := GameInstance.joinable_new gameInstanceName gameInstanceId hl
  constructor
  · intro henforced
    by_contra hmore
    exact hjoin.not_limitEnforced (not_le.mp hmore) henforced
  · exact hjoin.limitEnforced

/-- The list that a new environment gets. -/
theorem Env.initPlayers_empty : ({} : Env Unit).initPlayers.PlayerList [] :=
  (Env.initPlayers_new rfl).1 (List.cons_ne_nil _ _)

/-- Two players and a new game. -/
theorem limitEnforced_two :
    LimitEnforced ((GameInstance.new "g" 0).setEnvMgr ({} : Env Unit)) [(1, "a"), (2, "b")] :=
  (limitEnforced_iff "g" 0 Env.initPlayers_empty _).mpr (by decide)

/-- Seven players join a new game, and the seventh is put in a list that has as many elements as it
may have. -/
theorem limit_passed :
    ¬ LimitEnforced (GameInstance.new "g" 0 : GameInstance Unit)
      [(1, "a"), (2, "b"), (3, "c"), (4, "d"), (5, "e"), (6, "f"), (7, "g")] :=
  (GameInstance.joinable_new "g" 0 Env.initPlayers_empty).not_limitEnforced (by decide)

end SocialGaming
