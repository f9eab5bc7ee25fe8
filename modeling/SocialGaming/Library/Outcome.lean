import Mathlib.Data.Nat.Notation
import Mathlib.Logic.Relation
import Mathlib.Order.Defs.Unbundled

/-!
# Calls that return, throw, or have no defined behaviour

A C++ member function acts on an object and ends in one of three ways: it returns, it throws and
the caller may catch, or it does something the language gives no meaning to. `Prog` is the state
monad with these endings. The state at a throw is kept, because a caller that catches goes on from
it; the state at undefined behaviour means nothing, so `after?` forgets it.

## Main definitions

* `Fault` — why a call did not return
* `Prog` — a call on a state, and `Prog.after?` — the state a caller can go on from
* `Prog.zoom` — a call on a part of the state
* `Prog.Respects` — a call relates the state before to the state after
* `Prog.Fails` — a call returns on no state

## Main results

* `Prog.run_bind_eq_ok` — a sequence returns when both of its parts do
* `Prog.mapM_eq_error` — where a loop over a list fails
* `Prog.respects_bind`, `Prog.respects_foldlM` — calls that respect a preorder compose
* `Prog.fails_bind`, `Prog.fails_foldlM` — a call fails when a part of it does
-/

namespace SocialGaming

universe u

/-- Behaviour the language leaves undefined. -/
inductive Undefined where
  /-- A null pointer is dereferenced. -/
  | nullDeref
  /-- An iterator or an index leaves the range it belongs to. -/
  | pastEnd
  /-- A signed operation leaves the range of its type. -/
  | signedOverflow
  /-- What a reference or a view refers to is not there any more. -/
  | dangling
  /-- What is deleted is not there any more, or was not made with `new`. -/
  | badDelete
  deriving DecidableEq, Repr

/-- Why a call did not return. -/
inductive Fault (ε : Type u) where
  | thrown (e : ε)
  | undefined (u : Undefined)
  | diverged
  deriving DecidableEq, Repr

/-- A call on a state of type `σ`, throwing exceptions of type `ε`. -/
abbrev Prog (ε σ α : Type u) : Type u := EStateM (Fault ε) σ α

namespace Prog

variable {ε σ α β : Type u}

/-- The state a caller can go on from: none after undefined behaviour or a call that never
ends. -/
def after? : EStateM.Result (Fault ε) σ α → Option σ
  | .ok _ s => some s
  | .error (.thrown _) s => some s
  | .error _ _ => none

@[simp] theorem after?_ok (a : α) (s : σ) :
    after? (.ok a s : EStateM.Result (Fault ε) σ α) = some s := rfl

@[simp] theorem after?_thrown (e : ε) (s : σ) :
    after? (.error (.thrown e) s : EStateM.Result (Fault ε) σ α) = some s := rfl

@[simp] theorem after?_undefined (u : Undefined) (s : σ) :
    after? (.error (.undefined u) s : EStateM.Result (Fault ε) σ α) = none := rfl

@[simp] theorem after?_diverged (s : σ) :
    after? (.error .diverged s : EStateM.Result (Fault ε) σ α) = none := rfl

/-- The state in which a call ends, however it does. -/
def ends : EStateM.Result (Fault ε) σ α → σ
  | .ok _ s => s
  | .error _ s => s

/-- A caller goes on from the state in which the call ends. -/
theorem ends_of_after? {r : EStateM.Result (Fault ε) σ α} {s : σ} (h : after? r = some s) :
    ends r = s := by
  rcases r with ⟨a, t⟩ | ⟨_ | _ | _, t⟩
  · exact Option.some.inj h
  · exact Option.some.inj h
  · cases h
  · cases h

/-- `EStateM.run_throw` at any result type. -/
@[simp] theorem run_throw (f : Fault ε) (s : σ) :
    EStateM.run (throw f : Prog ε σ α) s = .error f s := rfl

@[simp] theorem run_map (f : α → β) (x : Prog ε σ α) (s : σ) :
    EStateM.run (f <$> x) s = match x.run s with
      | .ok a t => .ok (f a) t
      | .error e t => .error e t := by
  rw [map_eq_pure_bind, EStateM.run_bind]
  rcases x.run s with ⟨a, t⟩ | ⟨e, t⟩ <;> rfl

/-- The state a caller goes on from does not depend on what is done with the result. -/
@[simp] theorem after?_run_map (f : α → β) (x : Prog ε σ α) (s : σ) :
    after? ((f <$> x).run s) = after? (x.run s) := by
  rw [run_map]
  rcases x.run s with ⟨a, t⟩ | ⟨_ | _ | _, t⟩ <;> rfl

/-- A handler goes on from the state at the throw. -/
theorem run_tryCatch (x : Prog ε σ α) (handle : Fault ε → Prog ε σ α) (s : σ) :
    EStateM.run (tryCatch x handle) s = match x.run s with
      | .ok a t => .ok a t
      | .error e t => (handle e).run t := by
  show EStateM.tryCatch x handle s = _
  delta EStateM.tryCatch EStateM.run
  cases x s with
  | ok a t => rfl
  | error e t => rfl

/-- A computation that does not touch the state. -/
def ofExcept : Except (Fault ε) α → Prog ε σ α
  | .ok a => pure a
  | .error f => throw f

theorem ofExcept_ok (a : α) : (ofExcept (.ok a) : Prog ε σ α) = pure a := rfl

@[simp] theorem run_ofExcept_ok (a : α) (s : σ) :
    EStateM.run (ofExcept (.ok a) : Prog ε σ α) s = .ok a s := rfl

@[simp] theorem run_ofExcept_error (f : Fault ε) (s : σ) :
    EStateM.run (ofExcept (.error f) : Prog ε σ α) s = .error f s := rfl

/-- A call on a part of the state. -/
def zoom {τ : Type u} (part : τ → σ) (update : σ → τ → τ) (x : Prog ε σ α) : Prog ε τ α := fun t =>
  match x.run (part t) with
  | .ok a s => .ok a (update s t)
  | .error f s => .error f (update s t)

theorem run_zoom {τ : Type u} (part : τ → σ) (update : σ → τ → τ) (x : Prog ε σ α) (t : τ) :
    EStateM.run (zoom part update x) t = match x.run (part t) with
      | .ok a s => .ok a (update s t)
      | .error f s => .error f (update s t) := rfl

theorem after?_run_zoom {τ : Type u} (part : τ → σ) (update : σ → τ → τ) (x : Prog ε σ α) (t : τ) :
    after? ((zoom part update x).run t)
      = (after? (x.run (part t))).map fun s => update s t := by
  rw [run_zoom]
  cases x.run (part t) with
  | ok a s => rfl
  | error f s =>
    cases f with
    | thrown e => rfl
    | undefined u => rfl
    | diverged => rfl

/-- A sequence of computations returns when both do. -/
theorem bind_eq_ok {x : Except ε α} {f : α → Except ε β} {b : β} :
    x >>= f = .ok b ↔ ∃ a, x = .ok a ∧ f a = .ok b := by
  rcases x with e | a
  · simp [bind, Except.bind]
  · simp [bind, Except.bind]

theorem map_eq_error {x : Except ε α} {f : α → β} {e : ε} :
    f <$> x = .error e ↔ x = .error e := by
  rcases x with e' | a
  · exact ⟨fun h => congrArg Except.error (Except.error.inj h),
      fun h => congrArg Except.error (Except.error.inj h)⟩
  · exact ⟨nofun, nofun⟩

/-- The same for calls on a state. -/
theorem run_bind_eq_ok {x : Prog ε σ α} {f : α → Prog ε σ β} {s t : σ} {b : β} :
    (x >>= f).run s = .ok b t ↔ ∃ a u, x.run s = .ok a u ∧ (f a).run u = .ok b t := by
  rw [EStateM.run_bind]
  rcases x.run s with ⟨a, u⟩ | ⟨e, u⟩
  · constructor
    · intro h
      exact ⟨a, u, rfl, h⟩
    · rintro ⟨a', u', hx, h⟩
      obtain ⟨rfl, rfl⟩ := EStateM.Result.ok.inj hx
      exact h
  · simp

theorem run_ofExcept_eq_ok {x : Except (Fault ε) α} {s t : σ} {a : α} :
    EStateM.run (ofExcept x : Prog ε σ α) s = .ok a t ↔ x = .ok a ∧ s = t := by
  rcases x with e | b
  · simp
  · simp

/-! ### Loops over a list -/

section Loops

variable {ε α β : Type} {f : α → Except ε β} {a : α} {l : List α}

/-- A loop that returns has returned on every element. -/
theorem mapM_cons_eq_ok {out : List β} :
    (a :: l).mapM f = .ok out ↔ ∃ b bs, f a = .ok b ∧ l.mapM f = .ok bs ∧ out = b :: bs := by
  rw [List.mapM_cons]
  simp only [bind_eq_ok]
  constructor
  · rintro ⟨b, hb, bs, hbs, hout⟩
    exact ⟨b, bs, hb, hbs, (Except.ok.inj hout).symm⟩
  · rintro ⟨b, bs, hb, hbs, rfl⟩
    exact ⟨b, hb, bs, hbs, rfl⟩

theorem exists_mapM_eq_ok (h : ∀ a ∈ l, ∃ b, f a = .ok b) : ∃ out, l.mapM f = .ok out := by
  induction l with
  | nil => exact ⟨[], rfl⟩
  | cons a l ih =>
    obtain ⟨b, hb⟩ := h a List.mem_cons_self
    obtain ⟨bs, hbs⟩ := ih fun a' ha' => h a' (List.mem_cons_of_mem _ ha')
    exact ⟨b :: bs, mapM_cons_eq_ok.mpr ⟨b, bs, hb, hbs, rfl⟩⟩

theorem forall_of_mapM_eq_ok {out : List β} (h : l.mapM f = .ok out) :
    ∀ a ∈ l, ∃ b, f a = .ok b := by
  induction l generalizing out with
  | nil => simp
  | cons a l ih =>
    obtain ⟨b, bs, hb, hbs, -⟩ := mapM_cons_eq_ok.mp h
    intro a' ha'
    rcases List.mem_cons.mp ha' with rfl | ha'
    · exact ⟨b, hb⟩
    · exact ih hbs a' ha'

/-- What a loop that returns has made of the elements. -/
theorem getElem?_of_mapM_eq_ok {out : List β} (h : l.mapM f = .ok out) {i : ℕ} {b : β} :
    out[i]? = some b ↔ ∃ a, l[i]? = some a ∧ f a = .ok b := by
  induction l generalizing out i with
  | nil =>
    obtain rfl := Except.ok.inj h
    simp
  | cons a l ih =>
    obtain ⟨b', bs, hb', hbs, rfl⟩ := mapM_cons_eq_ok.mp h
    rcases i with _ | i
    · simp [hb']
    · simpa using ih hbs

/-- A loop that fails has failed on one element, after it returned on those before. -/
theorem mapM_eq_error {e : ε} : l.mapM f = .error e ↔
    ∃ done a rest, l = done ++ a :: rest ∧ (∀ x ∈ done, ∃ b, f x = .ok b) ∧ f a = .error e := by
  induction l with
  | nil => simp [pure, Except.pure]
  | cons a l ih =>
    rw [List.mapM_cons]
    rcases ha : f a with e' | b
    · constructor
      · intro h
        obtain rfl := Except.error.inj h
        exact ⟨[], a, l, rfl, by simp, ha⟩
      · rintro ⟨done, x, rest, hl, hdone, hx⟩
        rcases done with _ | ⟨y, done⟩
        · obtain ⟨rfl, -⟩ := List.cons.inj hl
          rw [ha] at hx
          obtain rfl := Except.error.inj hx
          rfl
        · obtain ⟨rfl, -⟩ := List.cons.inj hl
          obtain ⟨b, hb⟩ := hdone a List.mem_cons_self
          rw [ha] at hb
          cases hb
    · have hrest : (do let bs ← l.mapM f; return b :: bs) = Except.error e ↔
          l.mapM f = .error e := by
        rcases l.mapM f with e' | bs
        · rfl
        · simp [bind, Except.bind, pure, Except.pure]
      show (do let bs ← l.mapM f; return b :: bs) = Except.error e ↔ _
      rw [hrest, ih]
      constructor
      · rintro ⟨done, x, rest, rfl, hdone, hx⟩
        exact ⟨a :: done, x, rest, rfl, List.forall_mem_cons.mpr ⟨⟨b, ha⟩, hdone⟩, hx⟩
      · rintro ⟨done, x, rest, hl, hdone, hx⟩
        rcases done with _ | ⟨y, done⟩
        · obtain ⟨rfl, -⟩ := List.cons.inj hl
          rw [ha] at hx
          cases hx
        · obtain ⟨rfl, rfl⟩ := List.cons.inj hl
          exact ⟨done, x, rest, rfl, (List.forall_mem_cons.mp hdone).2, hx⟩

end Loops

/-! ### Calls that respect a relation -/

/-- `R` holds between `s` and any state a caller of `x` on `s` can go on from. -/
def Respects (R : σ → σ → Prop) (x : Prog ε σ α) (s : σ) : Prop :=
  ∀ s', after? (x.run s) = some s' → R s s'

variable {R : σ → σ → Prop} {s : σ}

theorem respects_ok {x : Prog ε σ α} {a : α} {t : σ} (h : x.run s = .ok a t) (hR : R s t) :
    Respects R x s := by
  intro s' hs'
  rw [h, after?_ok, Option.some_inj] at hs'
  exact hs' ▸ hR

/-- A call that faults without touching the state respects every reflexive relation. -/
theorem respects_error [Std.Refl R] {x : Prog ε σ α} {f : Fault ε} (h : x.run s = .error f s) :
    Respects R x s := by
  intro s' hs'
  rw [h] at hs'
  rcases f with e | _ | _
  · obtain rfl : s = s' := by simpa using hs'
    exact Std.Refl.refl s
  · simp at hs'
  · simp at hs'

theorem respects_ofExcept [Std.Refl R] (x : Except (Fault ε) α) :
    Respects R (ofExcept x : Prog ε σ α) s := by
  cases x with
  | ok a => exact respects_ok (run_ofExcept_ok a s) (Std.Refl.refl s)
  | error f => exact respects_error (run_ofExcept_error f s)

/-- **Composition.** A call that respects a preorder, followed by one that respects it from every
state the first returns in. -/
theorem respects_bind [IsTrans σ R] {x : Prog ε σ α} {f : α → Prog ε σ β} (hx : Respects R x s)
    (hf : ∀ a t, x.run s = .ok a t → Respects R (f a) t) : Respects R (x >>= f) s := by
  intro s' h
  rw [EStateM.run_bind] at h
  cases hr : x.run s with
  | ok a t =>
    rw [hr] at h
    exact IsTrans.trans s t s' (hx t (by rw [hr]; rfl)) (hf a t hr s' h)
  | error e t =>
    rw [hr] at h
    rcases e with e | _ | _
    · obtain rfl : t = s' := by simpa using h
      exact hx t (by rw [hr]; rfl)
    · simp at h
    · simp at h

/-- A loop over a list whose body respects a preorder respects it. -/
theorem respects_foldlM [Std.Refl R] [IsTrans σ R] {f : β → α → Prog ε σ β} {l : List α}
    (hf : ∀ b, ∀ a ∈ l, ∀ s, Respects R (f b a) s) (b : β) :
    Respects R (l.foldlM f b) s := by
  induction l generalizing b s with
  | nil => exact respects_ok (EStateM.run_pure b s) (Std.Refl.refl s)
  | cons a l ih =>
    rw [List.foldlM_cons]
    exact respects_bind (hf b a List.mem_cons_self s) fun b' t _ =>
      ih (fun c x hx => hf c x (List.mem_cons_of_mem a hx)) b'

/-! ### Calls that fail -/

/-- The call returns on no state. -/
def Fails (x : Prog ε σ α) : Prop := ∀ s, ∃ f t, x.run s = .error f t

theorem Fails.ne_ok {x : Prog ε σ α} (h : Fails x) {s t : σ} {a : α} : x.run s ≠ .ok a t := by
  obtain ⟨f, u, hrun⟩ := h s
  rw [hrun]
  exact nofun

theorem fails_throw (f : Fault ε) : Fails (throw f : Prog ε σ α) := fun s => ⟨f, s, run_throw f s⟩

theorem fails_ofExcept {x : Except (Fault ε) α} {f : Fault ε} (h : x = .error f) :
    Fails (ofExcept x : Prog ε σ α) := by
  subst h
  exact fails_throw f

theorem Fails.bind {x : Prog ε σ α} (h : Fails x) (f : α → Prog ε σ β) : Fails (x >>= f) := by
  intro s
  obtain ⟨e, t, hrun⟩ := h s
  exact ⟨e, t, by rw [EStateM.run_bind, hrun]⟩

/-- A sequence fails when its second part does, whatever the first returned. -/
theorem fails_bind (x : Prog ε σ α) {f : α → Prog ε σ β} (h : ∀ a, Fails (f a)) :
    Fails (x >>= f) := by
  intro s
  rw [EStateM.run_bind]
  cases x.run s with
  | ok a t => exact h a t
  | error e t => exact ⟨e, t, rfl⟩

theorem Fails.map {x : Prog ε σ α} (h : Fails x) (f : α → β) : Fails (f <$> x) := by
  rw [map_eq_pure_bind]
  exact h.bind _

/-- A loop over a list fails when its body does on one element. -/
theorem fails_foldlM {f : β → α → Prog ε σ β} {l : List α} {a : α} (ha : a ∈ l)
    (h : ∀ b, Fails (f b a)) (b : β) : Fails (l.foldlM f b) := by
  induction l generalizing b with
  | nil => cases ha
  | cons a' l ih =>
    rw [List.foldlM_cons]
    rcases List.mem_cons.mp ha with rfl | ha
    · exact (h b).bind _
    · exact fails_bind _ fun c => ih ha c

theorem fails_forM {f : α → Prog ε σ PUnit} {l : List α} {a : α} (ha : a ∈ l) (h : Fails (f a)) :
    Fails (l.forM f) := by
  induction l with
  | nil => cases ha
  | cons a' l ih =>
    show Fails (f a' >>= fun _ => l.forM f)
    rcases List.mem_cons.mp ha with rfl | ha
    · exact h.bind _
    · exact fails_bind _ fun _ => ih ha

end Prog

end SocialGaming
