import SocialGaming.AmbassadorDelivery
import SocialGaming.ServerRounds
import SocialGaming.Library.Decimal
import SocialGaming.Library.MachineInt

/-!
# The ids that reach the event loop

The endpoints that give an id announce it to the event loop: they send a message with the id
through the queue, where answers to requests for input and for a configuration are sent too. Some
of it is not accepted, since the queue has a bound and nobody looks at what `sendMsg` returns. What
the event loop's ambassador takes from its buffer still has ids that grow, so that no two games, and
no two players, are announced under one id.

## Design

The queue is in the state of both processes, and a step of one carries over to the other what it did
to the queue. The ids are natural numbers here that fit an `int`: a counter that is at the end of
its type makes the endpoint undefined, so no such request is a step.

## Main definitions

* `GivenOut` — ids that a counter has given out, in order
* `Announces` — the messages of a type are those with such ids
* `Announcing`, `AnnouncingStep` — the game server and the event loop's ambassador
* `AnnouncesNew` — what a step of the server sends

## Main results

* `ServerStep.announcesNew`, `mainRound_onlyAnswers` — what the server sends
* `ids_announced` — the ids that the event loop gets, in every run
-/

namespace SocialGaming

open Std (ExtTreeMap)
open Ambassador Server HTTPSession

variable {σ ρ : Type}

/-! ### Ids that were given out -/

/-- The ids have been given out by a counter that starts at 1 and is at `next`, in order. -/
def GivenOut (next : ℤ) (ids : List ℤ) : Prop :=
  ids.Pairwise (· < ·) ∧ ∀ i ∈ ids, 1 ≤ i ∧ i < next

namespace GivenOut

variable {next next' : ℤ} {ids ids' : List ℤ}

theorem nil (next : ℤ) : GivenOut next [] := ⟨List.Pairwise.nil, List.forall_mem_nil _⟩

theorem mono (h : GivenOut next ids) (hle : next ≤ next') : GivenOut next' ids :=
  ⟨h.1, fun i hi => ⟨(h.2 i hi).1, by have := (h.2 i hi).2; omega⟩⟩

/-- The next one is given out. -/
theorem concat (h : GivenOut next ids) (hpos : 1 ≤ next) : GivenOut (next + 1) (ids ++ [next]) := by
  refine ⟨List.pairwise_append.mpr ⟨h.1, List.pairwise_singleton _ _, ?_⟩, fun i hi => ?_⟩
  · intro i hi j hj
    obtain rfl := List.mem_singleton.mp hj
    exact (h.2 i hi).2
  · obtain hi | hi := List.mem_append.mp hi
    · exact ⟨(h.2 i hi).1, by have := (h.2 i hi).2; omega⟩
    · obtain rfl := List.mem_singleton.mp hi
      exact ⟨hpos, by omega⟩

theorem of_sublist (h : GivenOut next ids) (hsub : ids'.Sublist ids) : GivenOut next ids' :=
  ⟨h.1.sublist hsub, fun i hi => h.2 i (hsub.subset hi)⟩

/-- No id was given out twice. -/
theorem nodup (h : GivenOut next ids) : ids.Nodup := h.1.imp fun hlt => Int.ne_of_lt hlt

end GivenOut

/-! ### Decimal texts -/

/-- The decimal digits of a number. -/
def decimalText (i : ℤ) : Bytes := ascii i.repr

/-- The characters of a numeral are bytes, and none is NUL. -/
theorem isByte_of_mem_repr {i : ℤ} {c : Char} (h : c ∈ i.repr.toList) :
    0 < c.toNat ∧ c.toNat < 256 := by
  obtain rfl | hdigit := isDigit_of_mem_toString_int h
  · decide
  · obtain ⟨hle, hle'⟩ := Char.isDigit_iff_toNat.mp hdigit
    exact ⟨Nat.lt_of_lt_of_le (by decide) hle, Nat.lt_of_le_of_lt hle' (by decide)⟩

theorem zero_not_mem_decimalText (i : ℤ) : (0 : UInt8) ∉ decimalText i := by
  intro hmem
  obtain ⟨c, hc, hzero⟩ := List.mem_map.mp hmem
  obtain ⟨hpos, hlt⟩ := isByte_of_mem_repr hc
  have hnat := congrArg UInt8.toNat hzero
  rw [UInt8.toNat_ofNat', Nat.mod_eq_of_lt hlt] at hnat
  exact absurd hnat (Nat.ne_of_gt hpos)

/-- Texts of such characters are told apart by their bytes. -/
theorem map_byte_injOn {l l' : List Char} (hl : ∀ c ∈ l, c.toNat < 256)
    (hl' : ∀ c ∈ l', c.toNat < 256)
    (h : l.map (fun c => UInt8.ofNat c.toNat) = l'.map fun c => UInt8.ofNat c.toNat) : l = l' := by
  induction l generalizing l' with
  | nil => exact (List.map_eq_nil_iff.mp h.symm).symm
  | cons c l ih =>
    cases l' with
    | nil => cases h
    | cons c' l' =>
      obtain ⟨hhead, htail⟩ := List.cons.inj h
      have hnat := congrArg UInt8.toNat hhead
      rw [UInt8.toNat_ofNat', UInt8.toNat_ofNat', Nat.mod_eq_of_lt (hl c List.mem_cons_self),
        Nat.mod_eq_of_lt (hl' c' List.mem_cons_self)] at hnat
      rw [Char.toNat_inj.mp hnat, ih (fun d hd => hl d (List.mem_cons_of_mem c hd))
        (fun d hd => hl' d (List.mem_cons_of_mem c' hd)) htail]

theorem decimalText_injective : Function.Injective decimalText := by
  intro i j h
  have hlist : i.repr.toList = j.repr.toList := map_byte_injOn
    (fun c hc => (isByte_of_mem_repr hc).2) (fun c hc => (isByte_of_mem_repr hc).2) h
  exact toString_int_injective (String.toList_injective hlist)

/-! ### Announcements -/

/-- The messages of this type have ids under this name that a counter has given out, in order. -/
def Announces (resType : MsgType) (attrName : String) (next : Int32) (messages : List Response) :
    Prop :=
  ∃ ids, GivenOut next.toInt ids ∧
    (messages.filter fun res => res.resType = resType).map (fun res => res.attrs[ascii attrName]?)
      = ids.map fun i => some (decimalText i)

namespace Announces

variable {resType : MsgType} {attrName : String} {next : Int32} {messages more : List Response}

theorem nil : Announces resType attrName next [] := ⟨[], GivenOut.nil _, rfl⟩

/-- Messages of other types announce nothing. -/
theorem append_others (h : Announces resType attrName next messages)
    (hmore : ∀ res ∈ more, res.resType ≠ resType) :
    Announces resType attrName next (messages ++ more) := by
  have hnone : more.filter (fun res => res.resType = resType) = [] :=
    List.filter_eq_nil_iff.mpr fun res hres => by simpa using hmore res hres
  rw [Announces, List.filter_append, hnone, List.append_nil]
  exact h

/-- The counter may give out an id that is not announced. -/
theorem skip (h : Announces resType attrName next messages) (hmax : next ≠ Int32.maxValue) :
    Announces resType attrName (next + 1) messages := by
  obtain ⟨ids, hids, heq⟩ := h
  refine ⟨ids, hids.mono ?_, heq⟩
  rw [toInt_add_one hmax]
  omega

/-- The next id is announced. -/
theorem give (h : Announces resType attrName next messages) (hpos : 1 ≤ next.toInt)
    (hmax : next ≠ Int32.maxValue) {res : Response} (htype : res.resType = resType)
    (hattr : res.attrs[ascii attrName]? = some (decimalText next.toInt)) :
    Announces resType attrName (next + 1) (messages ++ [res]) := by
  obtain ⟨ids, hids, heq⟩ := h
  refine ⟨ids ++ [next.toInt], ?_, ?_⟩
  · rw [toInt_add_one hmax]
    exact hids.concat hpos
  · have hone : [res].filter (fun res => res.resType = resType) = [res] := by simp [htype]
    rw [List.filter_append, List.map_append, heq, hone, List.map_append, List.map_singleton, hattr]
    rfl

/-- What holds of messages holds of a beginning of them. -/
theorem of_isPrefix (h : Announces resType attrName next (messages ++ more)) :
    Announces resType attrName next messages := by
  obtain ⟨ids, hids, heq⟩ := h
  rw [List.filter_append, List.map_append] at heq
  obtain ⟨front, back, rfl, hfront, -⟩ := List.map_eq_append_iff.mp heq.symm
  exact ⟨front, hids.of_sublist (List.sublist_append_left _ _), hfront.symm⟩

/-- No id is announced twice. -/
theorem nodup (h : Announces resType attrName next messages) :
    ((messages.filter fun res => res.resType = resType).map
      fun res => res.attrs[ascii attrName]?).Nodup := by
  obtain ⟨ids, hids, heq⟩ := h
  rw [heq]
  exact hids.nodup.map fun i j h => decimalText_injective (Option.some.inj h)

end Announces

/-! ### What the server sends -/

/-- The calls of `sendMsg` by the server, one after the other, and what they do to the queue. -/
def SendsAll (lib : ServerLib σ) : List Sent → σ → σ → Prop
  | [], q, q' => q' = q
  | e :: rest, q, q' => ∃ u, sends lib.json lib.queue true false q e u ∧ SendsAll lib rest u q'

theorem SendsAll.append {lib : ServerLib σ} {calls calls' : List Sent} {q u q' : σ}
    (h : SendsAll lib calls q u) (h' : SendsAll lib calls' u q') :
    SendsAll lib (calls ++ calls') q q' := by
  induction calls generalizing q with
  | nil =>
    obtain rfl : u = q := h
    exact h'
  | cons e rest ih =>
    obtain ⟨v, hsend, hrest⟩ := h
    exact ⟨v, hsend, ih hrest⟩

/-- What two counters do when these calls are made. -/
inductive AnnouncesNew (impl impl' : ServerImpl σ) (calls : List Sent) : Prop
  /-- Nothing is announced. -/
  | others (hcalls : ∀ e ∈ calls, e.input.resType ≠ .gameInit ∧ e.input.resType ≠ .playerJoin)
      (hgame : impl'.gameInstanceId = impl.gameInstanceId)
      (hplayer : impl'.playerId = impl.playerId)
  /-- A game is announced. -/
  | game (e : Sent) (hcalls : calls = [e]) (htype : e.input.resType = .gameInit)
      (hattr : e.input.attrs[ascii "gameInstanceId"]?
        = some (decimalText impl.gameInstanceId.toInt))
      (hmax : impl.gameInstanceId ≠ Int32.maxValue)
      (hgame : impl'.gameInstanceId = impl.gameInstanceId + 1)
      (hplayer : impl'.playerId = impl.playerId)
  /-- A player is announced. -/
  | player (e : Sent) (hcalls : calls = [e]) (htype : e.input.resType = .playerJoin)
      (hattr : e.input.attrs[ascii "playerId"]? = some (decimalText impl.playerId.toInt))
      (hmax : impl.playerId ≠ Int32.maxValue)
      (hgame : impl'.gameInstanceId = impl.gameInstanceId)
      (hplayer : impl'.playerId = impl.playerId + 1)

section

variable {γ : Type} (lib : ServerLib σ)

/-- **What sending a `Response` does**: one call of `sendMsg`, with a `Response` of the type that
has been given the attributes. -/
theorem sendResponse_sends {resType : MsgType} {attrs : List (Bytes × Bytes)} {s s' : Server γ σ}
    (h : Prog.after? ((sendResponse lib resType attrs).run s) = some s') :
    ∃ e writeQ, sends lib.json lib.queue true false s.impl.writeQ e writeQ ∧
      attrs.foldlM (fun newRes attr => newRes.setAttr attr.1.view attr.2.view)
        (({} : Response).setType resType) = .ok e.input ∧
      s' = { s with impl := { s.impl with writeQ } } := by
  obtain ⟨res, hres⟩ := setAttrs_eq_ok attrs (({} : Response).setType resType)
  have hrun : (sendResponse lib resType attrs).run s
      = (Server.sendMsg lib res >>= fun _ => pure ()).run s := by
    rw [sendResponse, EStateM.run_bind, hres]
    rfl
  rw [hrun, EStateM.run_bind, Server.sendMsg, Prog.run_zoom] at h
  rcases hsend : (Ambassador.sendMsg lib.json lib.writeQ res).run s.impl.writeQ with
    ⟨returned, writeQ⟩ | ⟨f, writeQ⟩
  · rw [hsend] at h
    exact ⟨{ input := res, returned := some returned }, writeQ, ⟨lib.stack, hsend⟩, hres,
      (Option.some.inj h).symm⟩
  · rw [hsend] at h
    cases f with
    | thrown x =>
      exact ⟨{ input := res, returned := none }, writeQ, ⟨lib.stack, x, hsend⟩, hres,
        (Option.some.inj h).symm⟩
    | undefined u => cases h
    | diverged => cases h

/-- A call of an endpoint that gives an id ends with sending the id that the counter was at. -/
theorem after_giveId (counter : ServerImpl σ → Int32)
    {setCounter : Int32 → ServerImpl σ → ServerImpl σ}
    (hset : ∀ i impl, (setCounter i impl).activeChannel = impl.activeChannel)
    {store : Connection → Int32 → ServerImpl σ → ServerImpl σ} {resType : MsgType}
    {attrName : String} {s s' : Server γ σ}
    (h : Prog.after? ((giveId lib (increment counter setCounter) store resType attrName).run s)
      = some s') : counter s.impl ≠ Int32.maxValue ∧ ∃ c input stdin,
      Prog.after? ((sendResponse lib resType
        [(ascii "val", input), (ascii attrName, Int32.digits (counter s.impl))]).run
        { s with
          stdin
          impl := store c (counter s.impl) (setCounter (counter s.impl + 1) s.impl) })
        = some s' := by
  obtain ⟨input, stdin, hword⟩ := readWord_cases s
  have hincrement := increment_run counter setCounter { s with stdin }
  have hactive' := hset (counter s.impl + 1) s.impl
  rw [giveId, EStateM.run_bind, hword] at h
  simp only [EStateM.run_bind, hincrement] at h
  by_cases hmax : counter s.impl = Int32.maxValue
  · simp [hmax] at h
  · refine ⟨hmax, ?_⟩
    simp only [hmax, if_false] at h
    cases hactive : s.impl.activeChannel with
    | none =>
      rw [hactive] at hactive'
      simp [activeConnection, hactive'] at h
    | some c =>
      rw [hactive] at hactive'
      exact ⟨c, input, stdin, by simpa [activeConnection, hactive'] using h⟩

/-- Strings are set up to their first NUL. -/
theorem setAttr_view (key val : Bytes) (res : Response) :
    res.setAttr key.view val.view = .ok { res with
      attrs := res.attrs.insert (key.takeWhile (· ≠ 0)) (val.takeWhile (· ≠ 0)) } := by
  rw [Response.setAttr, takeWhile_view, takeWhile_view]
  rfl

/-- The second of two attributes is there in the end. -/
theorem setAttrs_announcement {resType : MsgType} {input text : Bytes} {attrName : String}
    {res : Response} (hname : (ascii attrName).takeWhile (· ≠ 0) = ascii attrName)
    (htext : (0 : UInt8) ∉ text)
    (h : [(ascii "val", input), (ascii attrName, text)].foldlM
      (fun newRes attr => newRes.setAttr attr.1.view attr.2.view) (({} : Response).setType resType)
        = .ok res) : res.resType = resType ∧ res.attrs[ascii attrName]? = some text := by
  have htake : text.takeWhile (· ≠ 0) = text := by
    have hview := cString_view htext
    rw [takeWhile_view] at hview
    exact Option.some.inj hview
  rw [List.foldlM_cons, setAttr_view] at h
  have hres : [(ascii attrName, text)].foldlM
      (fun (newRes : Response) attr => newRes.setAttr attr.1.view attr.2.view)
      { resType := resType
        attrs := (∅ : ExtTreeMap Bytes Bytes compare).insert
          ((ascii "val").takeWhile (· ≠ 0)) (input.takeWhile (· ≠ 0)) } = .ok res := h
  rw [List.foldlM_cons, setAttr_view, hname, htake] at hres
  obtain rfl := Except.ok.inj hres
  exact ⟨rfl, ExtTreeMap.getElem?_insert_self⟩

/-- Messages are sent that announce nothing, and no id is given. -/
def OnlyAnswers (s s' : Server γ σ) : Prop :=
  ∃ calls, SendsAll lib calls s.impl.writeQ s'.impl.writeQ ∧
    (∀ e ∈ calls, e.input.resType ≠ .gameInit ∧ e.input.resType ≠ .playerJoin) ∧
    s'.impl.gameInstanceId = s.impl.gameInstanceId ∧ s'.impl.playerId = s.impl.playerId

namespace OnlyAnswers

variable {lib} {s t u : Server γ σ}

/-- Nothing is sent. -/
theorem quiet (hwriteQ : t.impl.writeQ = s.impl.writeQ)
    (hgame : t.impl.gameInstanceId = s.impl.gameInstanceId)
    (hplayer : t.impl.playerId = s.impl.playerId) : OnlyAnswers lib s t :=
  ⟨[], hwriteQ, List.forall_mem_nil _, hgame, hplayer⟩

theorem trans (h : OnlyAnswers lib s t) (h' : OnlyAnswers lib t u) : OnlyAnswers lib s u := by
  obtain ⟨calls, hsends, hothers, hgame, hplayer⟩ := h
  obtain ⟨calls', hsends', hothers', hgame', hplayer'⟩ := h'
  exact ⟨calls ++ calls', hsends.append hsends', List.forall_mem_append.mpr ⟨hothers, hothers'⟩,
    hgame'.trans hgame, hplayer'.trans hplayer⟩

theorem announcesNew (h : OnlyAnswers lib s t) :
    ∃ calls, SendsAll lib calls s.impl.writeQ t.impl.writeQ ∧
      AnnouncesNew s.impl t.impl calls := by
  obtain ⟨calls, hsends, hothers, hgame, hplayer⟩ := h
  exact ⟨calls, hsends, AnnouncesNew.others hothers hgame hplayer⟩

instance : Std.Refl (OnlyAnswers (γ := γ) lib) := ⟨fun _ => quiet rfl rfl rfl⟩

instance : IsTrans (Server γ σ) (OnlyAnswers lib) := ⟨fun _ _ _ => trans⟩

end OnlyAnswers

/-- An answer is no announcement: what was typed is sent. -/
theorem readWord_onlyAnswers {resType : MsgType} (hgame : resType ≠ .gameInit)
    (hplayer : resType ≠ .playerJoin) (s : Server γ σ) :
    Prog.Respects (OnlyAnswers lib)
      (do sendResponse lib resType [(ascii "val", ← readWord)]) s := by
  obtain ⟨input, stdin, hword⟩ := readWord_cases s
  have hread : Prog.Respects (OnlyAnswers lib) readWord s :=
    Prog.respects_ok hword (OnlyAnswers.quiet rfl rfl rfl)
  refine Prog.respects_bind hread fun input t _ s' h => ?_
  obtain ⟨e, writeQ, hsend, hres, rfl⟩ := sendResponse_sends lib h
  rw [List.foldlM_cons, setAttr_view] at hres
  have hinput : e.input.resType = resType := congrArg Response.resType (Except.ok.inj hres).symm
  refine ⟨[e], ⟨writeQ, hsend, rfl⟩, ?_, rfl, rfl⟩
  intro e' he'
  obtain rfl := List.mem_singleton.mp he'
  rw [hinput]
  exact ⟨hgame, hplayer⟩

/-- **What an endpoint announces.** -/
theorem endpoint_announcesNew (endpoint : RequestHandler) {s s' : Server γ σ}
    (h : Prog.after? ((endpoint.handle lib).run s) = some s') :
    ∃ calls, SendsAll lib calls s.impl.writeQ s'.impl.writeQ ∧
      AnnouncesNew s.impl s'.impl calls := by
  cases endpoint with
  | createGame =>
    have hhandle : RequestHandler.handle lib .createGame = giveId (γ := γ) lib
        (increment ServerImpl.gameInstanceId ServerImpl.setGameInstanceId)
        ServerImpl.storeGameInstanceID .gameInit "gameInstanceId" := rfl
    rw [hhandle] at h
    have hset : ∀ i (impl : ServerImpl σ),
        (impl.setGameInstanceId i).activeChannel = impl.activeChannel := fun _ _ => rfl
    obtain ⟨hmax, c, input, stdin, hafter⟩ := after_giveId lib ServerImpl.gameInstanceId hset h
    obtain ⟨e, writeQ, hsend, hres, rfl⟩ := sendResponse_sends lib hafter
    have hname : (ascii "gameInstanceId").takeWhile (· ≠ 0) = ascii "gameInstanceId" := by decide
    have hdigits : (0 : UInt8) ∉ Int32.digits s.impl.gameInstanceId := zero_not_mem_decimalText _
    obtain ⟨htype, hattr⟩ := setAttrs_announcement hname hdigits hres
    exact ⟨[e], ⟨writeQ, hsend, rfl⟩, AnnouncesNew.game e rfl htype hattr hmax rfl rfl⟩
  | joinGame =>
    have hhandle : RequestHandler.handle lib .joinGame = giveId (γ := γ) lib
        (increment ServerImpl.playerId ServerImpl.setPlayerId)
        ServerImpl.storePlayerID .playerJoin "playerId" := rfl
    rw [hhandle] at h
    have hset : ∀ i (impl : ServerImpl σ),
        (impl.setPlayerId i).activeChannel = impl.activeChannel := fun _ _ => rfl
    obtain ⟨hmax, c, input, stdin, hafter⟩ := after_giveId lib ServerImpl.playerId hset h
    obtain ⟨e, writeQ, hsend, hres, rfl⟩ := sendResponse_sends lib hafter
    have hname : (ascii "playerId").takeWhile (· ≠ 0) = ascii "playerId" := by decide
    have hdigits : (0 : UInt8) ∉ Int32.digits s.impl.playerId := zero_not_mem_decimalText _
    obtain ⟨htype, hattr⟩ := setAttrs_announcement hname hdigits hres
    exact ⟨[e], ⟨writeQ, hsend, rfl⟩, AnnouncesNew.player e rfl htype hattr hmax rfl rfl⟩
  | configureGame =>
    have hconfig : MsgType.configRes ≠ .gameInit ∧ MsgType.configRes ≠ .playerJoin := by decide
    exact (readWord_onlyAnswers lib hconfig.1 hconfig.2 s s' h).announcesNew

/-- Giving up a connection announces nothing. -/
theorem disconnect_onlyAnswers (s : GameServer σ) (c : Connection) :
    OnlyAnswers lib s (s.disconnect gameHandler c) := by
  rw [Server.disconnect]
  split
  · exact OnlyAnswers.quiet rfl rfl rfl
  · exact OnlyAnswers.quiet rfl rfl rfl

/-- **What a callback announces.** -/
theorem ServerStep.announcesNew {s s' : GameServer σ} {e : ServerEvent}
    (h : ServerStep lib s e s') (he : e.IsCallback) :
    ∃ calls, SendsAll lib calls s.impl.writeQ s'.impl.writeQ ∧
      AnnouncesNew s.impl s'.impl calls := by
  cases h with
  | accepted errorCode c hnew =>
    cases errorCode with
    | false => exact OnlyAnswers.announcesNew (OnlyAnswers.quiet rfl rfl rfl)
    | true => exact (disconnect_onlyAnswers lib s c).announcesNew
  | arrived message => exact OnlyAnswers.announcesNew (OnlyAnswers.quiet rfl rfl rfl)
  | disconnected c => exact (disconnect_onlyAnswers lib s c).announcesNew
  | processed => exact absurd he id
  | sent messages => exact absurd he id
  | requested request h =>
    obtain ⟨endpoint, -, -, hrun⟩ | ⟨-, sent, hrun⟩ :=
      handleRequest_cases lib { server := s, request }
    · rw [hrun, onServer, Prog.after?_run_zoom, Option.map_eq_some_iff] at h
      obtain ⟨t, ht, rfl⟩ := h
      exact endpoint_announcesNew lib endpoint ht
    · rw [hrun] at h
      obtain rfl := Option.some.inj h
      exact OnlyAnswers.announcesNew (OnlyAnswers.quiet rfl rfl rfl)

/-- The messages from the event loop are answered. -/
theorem processEventLoopMessages_onlyAnswers (messages : List Response) (s : Server γ σ) :
    Prog.Respects (OnlyAnswers lib) (processEventLoopMessages lib messages) s := by
  have hother : ∀ aType : MsgType, aType = .inputRes ∨ aType = .configRes →
      aType ≠ .gameInit ∧ aType ≠ .playerJoin := by
    rintro aType (rfl | rfl)
    · decide
    · decide
  have haction : ∀ (action : ActionEventLoop) (s : Server γ σ),
      Prog.Respects (OnlyAnswers lib) (action.executeEventLoopMsg lib) s := by
    intro action s
    cases action with
    | inputRequest =>
      obtain ⟨hgame, hplayer⟩ := hother .inputRes (Or.inl rfl)
      exact readWord_onlyAnswers lib hgame hplayer s
    | configRequest =>
      obtain ⟨hgame, hplayer⟩ := hother .configRes (Or.inr rfl)
      exact readWord_onlyAnswers lib hgame hplayer s
    | gameMade => exact Prog.respects_ok (EStateM.run_pure _ s) (OnlyAnswers.quiet rfl rfl rfl)
    | playerAck => exact Prog.respects_ok (EStateM.run_pure _ s) (OnlyAnswers.quiet rfl rfl rfl)
  induction messages generalizing s with
  | nil => exact Prog.respects_ok (EStateM.run_pure _ s) (OnlyAnswers.quiet rfl rfl rfl)
  | cons message rest ih =>
    rw [processEventLoopMessages]
    cases htext : message.toString lib.json with
    | none => exact Prog.respects_error (f := .thrown .json) rfl
    | some text =>
      cases htype : message.resType.action with
      | none => exact ih s
      | some action => exact Prog.respects_bind (haction action s) fun _ t _ => ih t

/-- Sending to the channels has nothing to do with the queue. -/
theorem send_onlyAnswers (s : GameServer σ) (messages : List Message) :
    OnlyAnswers lib s (s.send messages) := by
  have hone : ∀ (u : GameServer σ) message, OnlyAnswers lib u (u.sendOne message) := by
    intro u message
    rw [Server.sendOne]
    split
    · exact OnlyAnswers.quiet rfl rfl rfl
    · exact OnlyAnswers.quiet rfl rfl rfl
  induction messages generalizing s with
  | nil => exact OnlyAnswers.quiet rfl rfl rfl
  | cons message messages ih => exact (hone s message).trans (ih _)

/-- **A round only answers.** -/
theorem mainRound_onlyAnswers {lib : MainLib σ ρ} {turns : ℕ} {threw b : Bool}
    {m m' : GameMain σ ρ} (h : (mainRound lib turns threw).run m = .ok b m') :
    OnlyAnswers lib.server m.server m'.server := by
  obtain ⟨messages, reader, server, hprocess, rfl⟩ := mainRound_eq_ok h
  have hprocessed : OnlyAnswers lib.server m.server
      (processMessages m.server.receive.2 m.server.receive.1).2 := by
    obtain hsame | ⟨c, hquit⟩ := (processMessages_eq m.server.receive.2 m.server.receive.1).2
    · rw [hsame]
      exact OnlyAnswers.quiet rfl rfl rfl
    · rw [hquit]
      have hreceive : OnlyAnswers lib.server m.server m.server.receive.2 :=
        OnlyAnswers.quiet rfl rfl rfl
      exact hreceive.trans (disconnect_onlyAnswers lib.server _ c)
  have hanswers : OnlyAnswers lib.server
      (processMessages m.server.receive.2 m.server.receive.1).2 server :=
    processEventLoopMessages_onlyAnswers lib.server messages _ server (by rw [hprocess]; rfl)
  exact (hprocessed.trans hanswers).trans (send_onlyAnswers lib.server server _)

end

/-! ### The event loop -/

/-- The game server, and the ambassador of the event loop with what it has got. -/
structure Announcing (σ ρ : Type) where
  main : GameMain σ ρ
  loop : Peer σ
  got : List Response := []

namespace Announcing

/-- The queue is shared: what the server did to it is seen by the event loop. -/
def withMain (main : GameMain σ ρ) (t : Announcing σ ρ) : Announcing σ ρ :=
  { t with
    main
    loop := { t.loop with reader := { t.loop.reader with readQ := main.server.impl.writeQ } } }

/-- What the event loop did to it is seen by the server. -/
def withLoop (e : PeerEvent Sent) (loop : Peer σ) (t : Announcing σ ρ) : Announcing σ ρ where
  main := { t.main with server := { t.main.server with
    impl := { t.main.server.impl with writeQ := loop.reader.readQ } } }
  loop := loop
  got := t.got ++ (deliveredAt (t.loop, e)).toList

end Announcing

/-- What happens. -/
inductive AnnouncingEvent where
  /-- A callback of the server. -/
  | callback (e : ServerEvent)
  /-- A round of the server's main loop. -/
  | round
  /-- Something comes from the event loop. -/
  | brought
  /-- A step of the event loop's ambassador. -/
  | loop (e : PeerEvent Sent)

/-- One step. -/
inductive AnnouncingStep (lib : MainLib σ ρ) (memory : ℕ → MsgType) (stack : ℕ → UInt8) :
    Announcing σ ρ → AnnouncingEvent → Announcing σ ρ → Prop
  | callback {t : Announcing σ ρ} {e : ServerEvent} {server : GameServer σ} (he : e.IsCallback)
      (h : ServerStep lib.server t.main.server e server) :
      AnnouncingStep lib memory stack t (.callback e) (t.withMain { t.main with server })
  | round {t : Announcing σ ρ} {turns : ℕ} {threw goesOn : Bool} {main : GameMain σ ρ}
      (h : (mainRound lib turns threw).run t.main = .ok goesOn main) :
      AnnouncingStep lib memory stack t .round (t.withMain main)
  | brought {t : Announcing σ ρ} (readQ : ρ) :
      AnnouncingStep lib memory stack t .brought
        { t with main := { t.main with reader := { t.main.reader with readQ } } }
  | loop {t : Announcing σ ρ} {e : PeerEvent Sent} {loop : Peer σ}
      (h : PeerStep lib.server.json memory (msgQImpl lib.server.queue stack false true)
        (fun _ (_ : Sent) _ => False) t.loop e loop) :
      AnnouncingStep lib memory stack t (.loop e) (t.withLoop e loop)

variable {lib : MainLib σ ρ} {memory : ℕ → MsgType} {stack : ℕ → UInt8}
  {contents : σ → List Bytes}

/-- What the server sends is entered in the account of the queue. -/
theorem Accounts.sendsAll (hjson : lib.server.json.Lawful)
    (hqueue : Bounded lib.server.queue contents) (memory : ℕ → MsgType) (stack : ℕ → UInt8)
    {calls : List Sent} {history : List (Peer σ × PeerEvent Sent)} {p : Peer σ}
    {d : Delivery Response} (hd : Accounts lib.server.json contents history p d) {q : σ}
    (h : SendsAll lib.server calls p.reader.readQ q) :
    ∃ history' d', Accounts lib.server.json contents history'
        { p with reader := { p.reader with readQ := q } } d' ∧
      delivered history' = delivered history ∧
      accepted history' = accepted history ++
        (calls.filter fun e => e.returned = some 0).map Sent.input := by
  induction calls generalizing history p d with
  | nil =>
    obtain rfl : q = p.reader.readQ := h
    exact ⟨history, d, hd, rfl, (List.append_nil _).symm⟩
  | cons e rest ih =>
    obtain ⟨u, hsend, hrest⟩ := h
    have hstep : PeerStep lib.server.json memory (msgQImpl lib.server.queue stack false true)
        (sends lib.server.json lib.server.queue true false) p (.other e) _ := PeerStep.other hsend
    obtain ⟨d₁, hd₁⟩ := hstep.account hjson hqueue hd
    obtain ⟨history', d', hd', hdelivered, haccepted⟩ := ih hd₁ hrest
    refine ⟨history', d', hd', ?_, ?_⟩
    · rw [hdelivered, delivered_snoc]
      exact List.append_nil _
    · rw [haccepted, accepted_snoc, List.append_assoc]
      by_cases hzero : e.returned = some 0
      · have hone : acceptedAt (p, .other e) = some e.input := if_pos hzero
        rw [hone, List.filter_cons_of_pos (by simpa using hzero)]
        rfl
      · have hnone : acceptedAt (p, .other e) = none := if_neg hzero
        rw [hnone, List.filter_cons_of_neg (by simpa using hzero)]
        rfl

/-- What every step keeps. -/
structure Announcing.Kept (lib : MainLib σ ρ) (contents : σ → List Bytes) (t : Announcing σ ρ) :
    Prop where
  shared : t.loop.reader.readQ = t.main.server.impl.writeQ
  game_pos : 1 ≤ t.main.server.impl.gameInstanceId.toInt
  player_pos : 1 ≤ t.main.server.impl.playerId.toInt
  announced : ∃ history d, Accounts lib.server.json contents history t.loop d ∧
    delivered history = t.got ∧
    Announces .gameInit "gameInstanceId" t.main.server.impl.gameInstanceId (accepted history) ∧
    Announces .playerJoin "playerId" t.main.server.impl.playerId (accepted history)

/-- Of the calls that were accepted, the ids are announced. -/
theorem AnnouncesNew.announces {impl impl' : ServerImpl σ} {calls : List Sent}
    (h : AnnouncesNew impl impl' calls) (hgame : 1 ≤ impl.gameInstanceId.toInt)
    (hplayer : 1 ≤ impl.playerId.toInt) {messages : List Response}
    (hgames : Announces .gameInit "gameInstanceId" impl.gameInstanceId messages)
    (hplayers : Announces .playerJoin "playerId" impl.playerId messages) :
    1 ≤ impl'.gameInstanceId.toInt ∧ 1 ≤ impl'.playerId.toInt ∧
      Announces .gameInit "gameInstanceId" impl'.gameInstanceId
        (messages ++ (calls.filter fun e => e.returned = some 0).map Sent.input) ∧
      Announces .playerJoin "playerId" impl'.playerId
        (messages ++ (calls.filter fun e => e.returned = some 0).map Sent.input) := by
  have hof : ∀ (P : Response → Prop), (∀ e ∈ calls, P e.input) →
      ∀ res ∈ (calls.filter fun e => e.returned = some 0).map Sent.input, P res := by
    intro P hP res hres
    obtain ⟨e, he, rfl⟩ := List.mem_map.mp hres
    exact hP e (List.mem_filter.mp he).1
  cases h with
  | others hcalls hgame' hplayer' =>
    rw [hgame', hplayer']
    exact ⟨hgame, hplayer, hgames.append_others (hof _ fun e he => (hcalls e he).1),
      hplayers.append_others (hof _ fun e he => (hcalls e he).2)⟩
  | game e hcalls htype hattr hmax hgame' hplayer' =>
    have hnone : ∀ res ∈ (calls.filter fun e => e.returned = some 0).map Sent.input,
        res.resType ≠ .playerJoin := by
      refine hof _ fun e' he' => ?_
      rw [hcalls] at he'
      obtain rfl := List.mem_singleton.mp he'
      rw [htype]
      decide
    rw [hgame', hplayer']
    refine ⟨?_, hplayer, ?_, hplayers.append_others hnone⟩
    · rw [toInt_add_one hmax]
      omega
    · rw [hcalls]
      by_cases hzero : e.returned = some 0
      · rw [List.filter_cons_of_pos (by simpa using hzero)]
        exact hgames.give hgame hmax htype hattr
      · rw [List.filter_cons_of_neg (by simpa using hzero), List.filter_nil, List.map_nil,
          List.append_nil]
        exact hgames.skip hmax
  | player e hcalls htype hattr hmax hgame' hplayer' =>
    have hnone : ∀ res ∈ (calls.filter fun e => e.returned = some 0).map Sent.input,
        res.resType ≠ .gameInit := by
      refine hof _ fun e' he' => ?_
      rw [hcalls] at he'
      obtain rfl := List.mem_singleton.mp he'
      rw [htype]
      decide
    rw [hgame', hplayer']
    refine ⟨hgame, ?_, hgames.append_others hnone, ?_⟩
    · rw [toInt_add_one hmax]
      omega
    · rw [hcalls]
      by_cases hzero : e.returned = some 0
      · rw [List.filter_cons_of_pos (by simpa using hzero)]
        exact hplayers.give hplayer hmax htype hattr
      · rw [List.filter_cons_of_neg (by simpa using hzero), List.filter_nil, List.map_nil,
          List.append_nil]
        exact hplayers.skip hmax

/-- The server's part of a step. -/
theorem Announcing.Kept.withMain (hjson : lib.server.json.Lawful)
    (hqueue : Bounded lib.server.queue contents) {t : Announcing σ ρ} (h : t.Kept lib contents)
    {main : GameMain σ ρ} (hnew : ∃ calls, SendsAll lib.server calls t.main.server.impl.writeQ
      main.server.impl.writeQ ∧ AnnouncesNew t.main.server.impl main.server.impl calls) :
    (t.withMain main).Kept lib contents := by
  obtain ⟨calls, hsends, hnew⟩ := hnew
  obtain ⟨history, d, hd, hgot, hgames, hplayers⟩ := h.announced
  rw [← h.shared] at hsends
  obtain ⟨history', d', hd', hdelivered, haccepted⟩ :=
    hd.sendsAll hjson hqueue (fun _ => .empty) (fun _ => 0) hsends
  obtain ⟨hgame, hplayer, hgames', hplayers'⟩ :=
    hnew.announces h.game_pos h.player_pos hgames hplayers
  rw [← haccepted] at hgames' hplayers'
  exact ⟨rfl, hgame, hplayer, history', d', hd', hdelivered.trans hgot, hgames', hplayers'⟩

/-- **Every step keeps it.** -/
theorem AnnouncingStep.kept (hjson : lib.server.json.Lawful)
    (hqueue : Bounded lib.server.queue contents) {t t' : Announcing σ ρ} {e : AnnouncingEvent}
    (hstep : AnnouncingStep lib memory stack t e t') (h : t.Kept lib contents) :
    t'.Kept lib contents := by
  cases hstep with
  | callback he hserver => exact h.withMain hjson hqueue (hserver.announcesNew lib.server he)
  | round hround => exact h.withMain hjson hqueue (mainRound_onlyAnswers hround).announcesNew
  | brought readQ => exact ⟨h.shared, h.game_pos, h.player_pos, h.announced⟩
  | @loop e loop hloop =>
    obtain ⟨history, d, hd, hgot, hgames, hplayers⟩ := h.announced
    have hown : PeerStep lib.server.json memory (msgQImpl lib.server.queue stack false true)
        (sends lib.server.json lib.server.queue true false) t.loop e loop := by
      cases hloop with
      | other hfalse => exact hfalse.elim
      | call c hcall => exact PeerStep.call c hcall
      | read hcall hturn => exact PeerStep.read hcall hturn
      | returned hcall hturn hfinish => exact PeerStep.returned hcall hturn hfinish
      | closed hcall hturn hfinish => exact PeerStep.closed hcall hturn hfinish
      | threw hcall he hturn => exact PeerStep.threw hcall he hturn
    have hquiet : acceptedAt (t.loop, e) = none := by
      cases hloop with
      | other hfalse => exact hfalse.elim
      | call c hcall => rfl
      | read hcall hturn => rfl
      | returned hcall hturn hfinish => rfl
      | closed hcall hturn hfinish => rfl
      | threw hcall he hturn => rfl
    obtain ⟨d', hd'⟩ := hown.account hjson hqueue hd
    have haccepted : accepted (history ++ [(t.loop, e)]) = accepted history := by
      rw [accepted_snoc, hquiet]
      exact List.append_nil _
    refine ⟨rfl, h.game_pos, h.player_pos, history ++ [(t.loop, e)], d', hd', ?_, ?_, ?_⟩
    · rw [delivered_snoc, hgot]
      rfl
    · rw [haccepted]
      exact hgames
    · rw [haccepted]
      exact hplayers

/-- The game server and the event loop when both have been started. -/
def newAnnouncing (httpMessage : Bytes) (writeQ : σ) (stdin : List Bytes) (reader : Reader ρ) :
    Announcing σ ρ where
  main := { server := newGameServer httpMessage writeQ stdin, reader }
  loop := { reader := { readQ := writeQ } }

/-- **The ids that the event loop gets.** In every run, of the messages for new games that the event
loop's ambassador has taken from its buffer, the ids are numbers from 1 up to the server's counter,
and grow from one message to the next; so no two games have one id, and no two players either. -/
theorem ids_announced (hjson : lib.server.json.Lawful) (hqueue : Bounded lib.server.queue contents)
    {httpMessage : Bytes} {writeQ : σ} {stdin : List Bytes} {reader : Reader ρ}
    (hempty : contents writeQ = []) {trace : List (Announcing σ ρ × AnnouncingEvent)}
    {t : Announcing σ ρ} (h : Run (AnnouncingStep lib memory stack)
      (newAnnouncing httpMessage writeQ stdin reader) trace t) :
    (Announces .gameInit "gameInstanceId" t.main.server.impl.gameInstanceId t.got ∧
      ((t.got.filter fun res => res.resType = .gameInit).map
        fun res => res.attrs[ascii "gameInstanceId"]?).Nodup) ∧
    Announces .playerJoin "playerId" t.main.server.impl.playerId t.got ∧
      ((t.got.filter fun res => res.resType = .playerJoin).map
        fun res => res.attrs[ascii "playerId"]?).Nodup := by
  have hkept : t.Kept lib contents := by
    refine h.invariant (P := fun u => u.Kept lib contents) ?_ fun _ _ _ hstep hkept =>
      hstep.kept hjson hqueue hkept
    -- both counters start at 1
    have hone : (1 : ℤ) ≤ (1 : Int32).toInt := by decide
    refine ⟨rfl, hone, hone, [], {}, ⟨rfl, rfl, rfl, ?_⟩, rfl, Announces.nil, Announces.nil⟩
    show List.Forall₂ _ [] (contents writeQ)
    rw [hempty]
    exact List.Forall₂.nil
  obtain ⟨history, d, hd, hgot, hgames, hplayers⟩ := hkept.announced
  have hbegins := d.delivered_prefix
  rw [hd.accepted_eq, hd.delivered_eq, hgot] at hbegins
  obtain ⟨rest, hrest⟩ := hbegins
  rw [← hrest] at hgames hplayers
  exact ⟨⟨hgames.of_isPrefix, hgames.of_isPrefix.nodup⟩, hplayers.of_isPrefix,
    hplayers.of_isPrefix.nodup⟩

/-! ### A game that is announced -/

/-- The attributes of the message for the first game, when the console says nothing. -/
def announcementAttrs : ExtTreeMap Bytes Bytes compare :=
  .ofList [(ascii "gameInstanceId", ascii "1"), (ascii "val", [])]

/-- That message. -/
def announcement : Response := { resType := .gameInit, attrs := announcementAttrs }

/-- Its text. -/
def announcementText : Bytes :=
  ascii "\x7b\"attrs\":\x7b\"gameInstanceId\":\"1\",\"val\":\"\"\x7d,\"resType\":5\x7d"

/-- The JSON library on it. -/
def announcementJson : JsonLib where
  parse text :=
    if text = announcementText ∨ text = announcementText ++ [0] then some announcement.toJson
    else none
  dump j := (Response.ofJson j).bind fun res =>
    if res.resType = .gameInit ∧ res.attrs.toList = announcementAttrs.toList then
      some announcementText
    else none

theorem announcementJson_dump (res : Response) : announcementJson.dump res.toJson =
    if res.resType = .gameInit ∧ res.attrs.toList = announcementAttrs.toList then
      some announcementText
    else none := by
  show (Response.ofJson res.toJson).bind _ = _
  rw [Response.ofJson_toJson, Option.bind_some]

theorem nul_not_mem_announcementText : (0 : UInt8) ∉ announcementText := by decide

theorem announcementJson_lawful : announcementJson.Lawful where
  parse_dump res text h := by
    rw [announcementJson_dump] at h
    split_ifs at h with hres
    have hjson : res.toJson = announcement.toJson := by
      rw [Response.toJson, Response.toJson, hres.1, hres.2]
      rfl
    rw [hjson, ← Option.some.inj h]
    have hparse : ∀ text, text = announcementText →
        announcementJson.parse text = some announcement.toJson := fun text htext =>
      if_pos (Or.inl htext)
    exact hparse _ rfl
  nul_not_mem_dump res text h := by
    rw [announcementJson_dump] at h
    split_ifs at h
    exact Option.some.inj h ▸ nul_not_mem_announcementText
  parse_nul text h := by
    have hshort : text ++ [0] ≠ announcementText := by
      intro heq
      have hmem : (0 : UInt8) ∈ announcementText := heq ▸ List.mem_append_right _ List.mem_cons_self
      exact nul_not_mem_announcementText hmem
    have hlong : text ≠ announcementText ++ [0] := by
      rintro rfl
      exact h (List.mem_append_right _ List.mem_cons_self)
    simp [announcementJson, hshort, hlong]

/-- The game server with that library, and nothing from the event loop. -/
def announcementLib : MainLib (List Bytes) Unit where
  server := {
    json := announcementJson
    queue := listQueue
    stack := fun _ => 0
    versionString := [] }
  memory _ := .empty
  readQ := { read := throw (.thrown .queueClosed), write := fun _ => pure 0 }

/-- The bytes of the message. -/
def announcementMessage : Bytes := announcementText ++ [0]

/-- The object that is made when the message is read. -/
def announced : Received :=
  { address := 0, response := .ofString announcementJson .empty (Bytes.view announcementMessage) }

theorem announced_response : announced.response = announcement := by
  have htext : announcement.toString announcementJson = some announcementText := by
    rw [Response.toString, announcementJson_dump]
    exact if_pos ⟨rfl, rfl⟩
  exact Encodes.ofString announcementJson_lawful ⟨announcementText, htext, rfl⟩ .empty

/-- **A game is announced**: a connection is made and asks for a game, and the event loop gets a
message. -/
theorem ids_announced_first : ∃ trace t, Run (AnnouncingStep announcementLib (fun _ => .empty)
      fun _ => 0) (newAnnouncing [] [] [] { readQ := () }) trace t ∧
    t.got = [announcement] ∧
    Announces .gameInit "gameInstanceId" t.main.server.impl.gameInstanceId t.got := by
  have hnil : Run (AnnouncingStep announcementLib (fun _ => .empty) fun _ => 0)
    (newAnnouncing [] [] [] { readQ := () }) [] _ := Run.nil
  have haccepted : ServerEvent.IsCallback (.accepted false 1) := by simp [ServerEvent.IsCallback]
  have hrequested : ServerEvent.IsCallback
    (.requested { method := .get, target := ascii "/create-game" }) := by
    simp [ServerEvent.IsCallback]
  have hsent := (hnil.snoc (.callback haccepted (ServerStep.accepted false 1 (by decide)))).snoc
    (.callback hrequested (ServerStep.requested _ rfl))
  have hgot := ((hsent.snoc (.loop (PeerStep.call .getOneMsg rfl))).snoc
    (.loop (PeerStep.read rfl rfl))).snoc
    (.loop (e := .returned (.one announced)) (PeerStep.returned rfl rfl rfl))
  exact ⟨_, _, hgot, congrArg (fun res => [res]) announced_response,
    (ids_announced announcementJson_lawful (boundedQueue_isFifo _ _) rfl hgot).1.1⟩

end SocialGaming
