import SocialGaming.Ambassador

/-!
# What a reading ambassador does

The equations of one turn of the loop and of what comes after it, all that a step of the reader's
process can do, and the connection between the steps and the calls: a call with nothing in between
takes the steps of the process, and gives what it gives.

## Main definitions

* `Reader.push` — the state after a message has been read

## Main results

* `turn_run` — one turn of the loop
* `ReadCall.run_steps` — a call with nothing in between
-/

namespace SocialGaming

open Ambassador

section

variable {σ : Type} (lib : JsonLib) (memory : ℕ → MsgType) (readQ : MsgQ σ)

/-! ### The equations -/

/-- The state after the message `content` has been read, which leaves the queue as `q`. -/
def Reader.push (r : Reader σ) (q : σ) (content : Bytes) : Reader σ where
  readQ := q
  readContentQ := r.readContentQ ++
    [{ address := r.made, response := .ofString lib (memory r.made) (Bytes.view content) }]
  made := r.made + 1

/-- **One turn of the loop.** -/
theorem turn_run (r : Reader σ) : (getAllMsg.turn lib memory readQ).run r =
    match readQ.read.run r.readQ with
    | .ok content q =>
      if content = [] then .ok false { r with readQ := q }
      else .ok true (r.push lib memory q content)
    | .error e q => .error e { r with readQ := q } := by
  have hread : (Ambassador.read readQ).run r = match readQ.read.run r.readQ with
      | .ok content q => .ok content { r with readQ := q }
      | .error e q => .error e { r with readQ := q } := rfl
  rw [getAllMsg.turn, EStateM.run_bind, hread]
  cases readQ.read.run r.readQ with
  | error e q => rfl
  | ok content q =>
    by_cases hnil : content = []
    · simp [hnil]
    · simp [hnil, makeShared, Reader.push]

variable {lib memory readQ}

/-- A turn reads a message, finds that there is none, or throws. -/
theorem readTurn_cases (lib : JsonLib) (memory : ℕ → MsgType) (readQ : MsgQ σ) (r : Reader σ) :
    (∃ content q, readQ.read.run r.readQ = .ok content q ∧ content ≠ [] ∧
      (getAllMsg.turn lib memory readQ).run r = .ok true (r.push lib memory q content)) ∨
    (∃ q, readQ.read.run r.readQ = .ok [] q ∧
      (getAllMsg.turn lib memory readQ).run r = .ok false { r with readQ := q }) ∨
    ∃ e q, readQ.read.run r.readQ = .error e q ∧
      (getAllMsg.turn lib memory readQ).run r = .error e { r with readQ := q } := by
  rw [turn_run]
  cases readQ.read.run r.readQ with
  | error e q => exact Or.inr (Or.inr ⟨e, q, rfl, rfl⟩)
  | ok content q =>
    by_cases hnil : content = []
    · subst hnil
      exact Or.inr (Or.inl ⟨q, rfl, rfl⟩)
    · exact Or.inl ⟨content, q, rfl, hnil, if_neg hnil⟩

theorem turn_eq_true {r r' : Reader σ} (h : (getAllMsg.turn lib memory readQ).run r = .ok true r') :
    ∃ content q, readQ.read.run r.readQ = .ok content q ∧ content ≠ [] ∧
      r' = r.push lib memory q content := by
  rcases readTurn_cases lib memory readQ r with
    ⟨content, q, hread, hnil, hrun⟩ | ⟨q, -, hrun⟩ | ⟨e, q, -, hrun⟩
  · obtain ⟨-, rfl⟩ := EStateM.Result.ok.inj (hrun.symm.trans h)
    exact ⟨content, q, hread, hnil, rfl⟩
  · cases hrun.symm.trans h
  · cases hrun.symm.trans h

theorem turn_eq_false {r r' : Reader σ}
    (h : (getAllMsg.turn lib memory readQ).run r = .ok false r') :
    ∃ q, readQ.read.run r.readQ = .ok [] q ∧ r' = { r with readQ := q } := by
  rcases readTurn_cases lib memory readQ r with
    ⟨content, q, -, -, hrun⟩ | ⟨q, hread, hrun⟩ | ⟨e, q, -, hrun⟩
  · cases hrun.symm.trans h
  · obtain ⟨-, rfl⟩ := EStateM.Result.ok.inj (hrun.symm.trans h)
    exact ⟨q, hread, rfl⟩
  · cases hrun.symm.trans h

theorem turn_eq_error {r r' : Reader σ} {e : Fault AmbassadorExn}
    (h : (getAllMsg.turn lib memory readQ).run r = .error e r') :
    ∃ q, readQ.read.run r.readQ = .error e q ∧ r' = { r with readQ := q } := by
  rcases readTurn_cases lib memory readQ r with
    ⟨content, q, -, -, hrun⟩ | ⟨q, -, hrun⟩ | ⟨e', q, hread, hrun⟩
  · cases hrun.symm.trans h
  · cases hrun.symm.trans h
  · obtain ⟨rfl, rfl⟩ := EStateM.Result.error.inj (hrun.symm.trans h)
    exact ⟨q, hread, rfl⟩

/-- `getAllMsg` returns the buffer, and leaves it as it is. -/
theorem finish_getAllMsg (r : Reader σ) :
    ReadCall.getAllMsg.finish.run r = .ok (.all r.readContentQ) r := rfl

/-- `getOneMsg` on an empty buffer returns a new `Response`. -/
theorem finish_getOneMsg_nil {r : Reader σ} (h : r.readContentQ = []) :
    ReadCall.getOneMsg.finish.run r
      = .ok (.one { address := r.made, response := {} }) { r with made := r.made + 1 } := by
  simp [ReadCall.finish, getOneMsg.takeFront, h, makeShared]

/-- Otherwise it takes the first message out of the buffer. -/
theorem finish_getOneMsg_cons {r : Reader σ} {message : Received} {rest : List Received}
    (h : r.readContentQ = message :: rest) :
    ReadCall.getOneMsg.finish.run r
      = .ok (.one message) { r with readContentQ := rest } := by
  simp [ReadCall.finish, getOneMsg.takeFront, h]

/-! ### Calls with nothing in between -/

variable {ε : Type} {other : σ → ε → σ → Prop}

/-- The loop takes steps that read, and ends with a turn that finds nothing to read or throws. -/
theorem loop_steps {rounds : ℕ} {c : ReadCall} {r : Reader σ} {t : List (Peer σ × PeerEvent ε)}
    {s₀ : Peer σ}
    (h : Run (PeerStep lib memory readQ other) s₀ t { reader := r, call := some c }) :
    (∃ u, (getAllMsg.loop lib memory readQ rounds).run r = .error .diverged u) ∨
    ∃ t' u, Run (PeerStep lib memory readQ other) s₀ t' { reader := u, call := some c } ∧
      ((∃ v, (getAllMsg.turn lib memory readQ).run u = .ok false v ∧
          (getAllMsg.loop lib memory readQ rounds).run r = .ok () v) ∨
        ∃ e v, (getAllMsg.turn lib memory readQ).run u = .error e v ∧
          (getAllMsg.loop lib memory readQ rounds).run r = .error e v) := by
  induction rounds generalizing r t with
  | zero => exact Or.inl ⟨r, rfl⟩
  | succ rounds ih =>
    rw [getAllMsg.loop, EStateM.run_bind]
    cases hturn : (getAllMsg.turn lib memory readQ).run r with
    | error e u => exact Or.inr ⟨t, r, h, Or.inr ⟨e, u, hturn, rfl⟩⟩
    | ok more u =>
      cases more with
      | false => exact Or.inr ⟨t, r, h, Or.inl ⟨u, hturn, rfl⟩⟩
      | true => exact ih (h.snoc (PeerStep.read rfl hturn))

/-- `getAllMsg` and what comes after it: what its loop does, then what its handler does. -/
theorem getAllMsg_bind_run {α : Type} (f : List Received → Prog AmbassadorExn (Reader σ) α)
    (rounds : ℕ) (r : Reader σ) :
    (Ambassador.getAllMsg lib memory readQ rounds >>= f).run r =
      match (getAllMsg.loop lib memory readQ rounds).run r with
      | .ok () u => (f u.readContentQ).run u
      | .error (.thrown .queueClosed) u =>
        (getAllMsg.handler >>= fun _ => do f (← get).readContentQ).run u
      | .error e u => .error e u := by
  rw [EStateM.run_bind, Ambassador.getAllMsg, EStateM.run_bind, Prog.run_tryCatch]
  cases (getAllMsg.loop lib memory readQ rounds).run r with
  | ok _ u => rfl
  | error e u =>
    cases e with
    | thrown e => cases e <;> rfl
    | undefined _ => rfl
    | diverged => rfl

/-- What a call does is what its loop does, then what its handler does, then its end. -/
theorem ReadCall.run_eq (c : ReadCall) (rounds : ℕ) (r : Reader σ) :
    (c.run lib memory readQ rounds).run r =
      match (getAllMsg.loop lib memory readQ rounds).run r with
      | .ok () u => c.finish.run u
      | .error (.thrown .queueClosed) u => (getAllMsg.handler >>= fun _ => c.finish).run u
      | .error e u => .error e u := by
  cases c with
  | getAllMsg => exact getAllMsg_bind_run _ rounds r
  | getOneMsg =>
    rw [ReadCall.run, Ambassador.getOneMsg, bind_assoc]
    exact getAllMsg_bind_run _ rounds r

/-- **A call with nothing in between** takes the steps of the reader's process, from the state
before the call to the state after it, and the last of them returns what the call returns. -/
theorem ReadCall.run_steps {c : ReadCall} {rounds : ℕ} {r r' : Reader σ} {result : ReadResult}
    (h : (c.run lib memory readQ rounds).run r = .ok result r') :
    ∃ t p e, Run (PeerStep lib memory readQ other) { reader := r } (t ++ [(p, e)])
        { reader := r' } ∧ (e = .returned result ∨ e = .closed result) := by
  rw [ReadCall.run_eq] at h
  have hcall : Run (PeerStep lib memory readQ other) { reader := r }
      ([] ++ [({ reader := r }, .call c)]) { reader := r, call := some c } :=
    Run.nil.snoc (PeerStep.call c rfl)
  rcases loop_steps hcall with ⟨u, hloop⟩ | ⟨t, u, hrun, hend⟩
  · rw [hloop] at h
    cases h
  rcases hend with ⟨v, hturn, hloop⟩ | ⟨e, v, hturn, hloop⟩
  · rw [hloop] at h
    exact ⟨t, _, _, hrun.snoc (PeerStep.returned rfl hturn h), Or.inl rfl⟩
  · rw [hloop] at h
    cases e with
    | thrown e =>
      cases e with
      | queueClosed => exact ⟨t, _, _, hrun.snoc (PeerStep.closed rfl hturn h), Or.inr rfl⟩
      | json => cases h
      | interprocess => cases h
    | undefined _ => cases h
    | diverged => cases h

end

end SocialGaming
