import SocialGaming.NestedValues
import SocialGaming.SetupGameSetting
import Mathlib.Data.Option.NAry

/-!
# What the settings parser makes of an expression

An expression has contents: a tree of maps and lists with numbers, strings and expressions of other
kinds at the leaves. An entry of a map that is followed by one with the same key is not part of
them, but it is parsed. The parser makes a value with these contents in new storages, except that it
puts 0 in the place of an expression of another kind.

## Main definitions

* `HasContent` — the contents of an expression, if every number in it is an int
* `Atom.read` — what the parser makes of a leaf
* `Content.IsLiteral` — there are no expressions of another kind

## Main results

* `recursiveExpressionParser_reads` — what the parser makes of an expression
* `settings_literal_read` — a literal is read as the value that mirrors it
-/

namespace SocialGaming

open Std (ExtTreeMap LawfulEqCmp)
open Settings (node makeVar setValue pushBack)

/-! ### Contents of an expression -/

/-- The kinds of expression the parser knows. -/
def literalKinds : List String := ["value_map", "list_literal", "quoted_string", "number"]

mutual

/-- The contents of an expression node, or none if a number in it is no int. Under a key is what the
last entry with this key has. -/
inductive HasContent : SyntaxNode → Option Content → Prop
  | number {n c : SyntaxNode} (hc : n.getNamedChild 0 = some c) (ht : c.type = "number") :
      HasContent n ((stoi c.sourceRange).map fun k => .leaf (.int k))
  | string {n c : SyntaxNode} (hc : n.getNamedChild 0 = some c) (ht : c.type = "quoted_string") :
      HasContent n (some (.leaf (.string c.text)))
  | other {n c : SyntaxNode} (hc : n.getNamedChild 0 = some c) (ht : c.type ∉ literalKinds) :
      HasContent n (some (.leaf (.other c.type n.text)))
  | emptyList {n c : SyntaxNode} (hc : n.getNamedChild 0 = some c) (ht : c.type = "list_literal")
      (he : c.getChildByFieldName "elements" = none) : HasContent n (some (.list []))
  | list {n c r : SyntaxNode} {ts : Option (List Content)} (hc : n.getNamedChild 0 = some c)
      (ht : c.type = "list_literal") (he : c.getChildByFieldName "elements" = some r)
      (hl : HaveContents r.namedChildren ts) : HasContent n (ts.map .list)
  | map {n c : SyntaxNode} {es : Option (List (String × Content))}
      (hc : n.getNamedChild 0 = some c) (ht : c.type = "value_map")
      (hm : HaveEntries c.namedChildren es) :
      HasContent n (es.map fun es => .map fun k => es.reverse.lookup k)

/-- The contents of the elements of a list. -/
inductive HaveContents : List SyntaxNode → Option (List Content) → Prop
  | nil : HaveContents [] (some [])
  | cons {n : SyntaxNode} {ns : List SyntaxNode} {t : Option Content} {ts : Option (List Content)}
      (h : HasContent n t) (hl : HaveContents ns ts) :
      HaveContents (n :: ns) (Option.map₂ List.cons t ts)

/-- The keys and the contents of the entries of a map. -/
inductive HaveEntries : List SyntaxNode → Option (List (String × Content)) → Prop
  | nil : HaveEntries [] (some [])
  | cons {n kn vn : SyntaxNode} {ns : List SyntaxNode} {t : Option Content}
      {es : Option (List (String × Content))} (hkey : n.getChildByFieldName "key" = some kn)
      (hval : n.getChildByFieldName "value" = some vn) (h : HasContent vn t)
      (hl : HaveEntries ns es) :
      HaveEntries (n :: ns) (Option.map₂ (fun t es => (kn.text, t) :: es) t es)

end

/-- What the parser makes of a leaf. -/
def Atom.read : Atom → Atom
  | .other _ _ => .int 0
  | a => a

@[simp] theorem Atom.read_int (n : Int32) : (Atom.int n).read = .int n := rfl

@[simp] theorem Atom.read_string (s : String) : (Atom.string s).read = .string s := rfl

@[simp] theorem Atom.read_other (kind text : String) : (Atom.other kind text).read = .int 0 := rfl

/-- The leaf is not an expression of another kind. -/
def Atom.IsLiteral : Atom → Prop
  | .other _ _ => False
  | _ => True

/-- All leaves are. -/
def Content.IsLiteral (t : Content) : Prop := ∀ a, Nested.IsLeaf a t → a.IsLiteral

/-! ### Values that are put together -/

section

variable {h h' : Heap} {p : VarAddr} {v : VarType} {t : Content}

theorem shows_nil : Shows h (.list []) (.list []) := .list rfl nofun nofun

theorem shows_empty : Shows h (.map fun _ => none) (.varMap ∅) :=
  .map (fun k => by simp) (fun k a hk => by simp at hk) (fun k p v t hk => by simp at hk)

/-- An element is put at the end. -/
theorem Shows.append {l : List VarPtr} {ts : List Content} (hl : Shows h (.list ts) (.list l))
    (hext : h.Extends h') (hp : h'.Holds p v) (hv : Shows h' t v) :
    Shows h' (.list (ts ++ [t])) (.list (l ++ [some p])) := by
  obtain - | - | - | ⟨hlen, hlive, hl⟩ := hl.of_extends hext
  refine .list (by simp [hlen]) (fun a ha => ?_) fun i q w u hq hw hu => ?_
  · rcases List.mem_append.mp ha with ha | ha
    · exact hlive a ha
    · obtain rfl := List.mem_singleton.mp ha
      exact hp.live
  · rcases lt_or_ge i l.length with hi | hi
    · rw [List.getElem?_append_left hi] at hq
      rw [List.getElem?_append_left (hlen ▸ hi)] at hu
      exact hl i q w u hq hw hu
    · rw [List.getElem?_append_right hi] at hq
      rw [List.getElem?_append_right (hlen ▸ hi), ← hlen] at hu
      obtain ⟨hi, hq⟩ := List.getElem?_eq_some_iff.mp hq
      obtain ⟨_, hu⟩ := List.getElem?_eq_some_iff.mp hu
      obtain rfl : p = q := by simpa using hq
      obtain rfl : t = u := by simpa using hu
      obtain rfl := hp.unique hw
      exact hv

/-- A key is given a value. -/
theorem Shows.insert {m : VarMapType} {f : String → Option Content}
    (hm : Shows h (.map f) (.varMap m)) (hext : h.Extends h') (hp : h'.Holds p v)
    (hv : Shows h' t v) (key : String) :
    Shows h' (.map (Function.update f key (some t))) (.varMap (m.insert key (some p))) := by
  have hget : ∀ k : String, (m.insert key (some p))[k]?
      = if k = key then some (some p) else m[k]? := by
    intro k
    rw [ExtTreeMap.getElem?_insert]
    simp only [LawfulEqCmp.compare_eq_iff_eq, eq_comm (a := k) (b := key)]
  obtain - | - | - | - | ⟨hkeys, hlive, hm⟩ := hm.of_extends hext
  refine .map (fun k => ?_) (fun k a ha => ?_) fun k q w u hq hw hu => ?_
  · rw [ExtTreeMap.mem_insert, LawfulEqCmp.compare_eq_iff_eq, hkeys k, Function.update_apply]
    by_cases hk : k = key
    · simp [hk]
    · simp [hk, Ne.symm hk]
  · rw [hget] at ha
    split at ha
    · obtain rfl := Option.some.inj ha
      exact hp.live
    · exact hlive k a ha
  · rw [hget] at hq
    rw [Function.update_apply] at hu
    split at hq
    · rename_i hk
      rw [if_pos hk] at hu
      obtain rfl := Option.some.inj (Option.some.inj hq)
      obtain rfl := Option.some.inj hu
      obtain rfl := hp.unique hw
      exact hv
    · rename_i hk
      rw [if_neg hk] at hu
      exact hm k q w u hq hw hu

theorem child_append {l : List VarPtr} {s : Selector} {q : VarAddr}
    (hq : (VarType.list (l ++ [some p])).child s = some q) :
    s = .index l.length ∧ q = p ∨ (VarType.list l).child s = some q := by
  cases s with
  | key k => cases hq
  | index i =>
    rw [VarType.child] at hq
    rcases lt_trichotomy i l.length with hi | rfl | hi
    · rw [List.getElem?_append_left hi] at hq
      exact Or.inr hq
    · simp at hq
      exact Or.inl ⟨rfl, hq.symm⟩
    · rw [List.getElem?_eq_none (by rw [List.length_append]; exact hi)] at hq
      cases hq

theorem child_insert {m : VarMapType} {key : String} {s : Selector} {q : VarAddr}
    (hq : (VarType.varMap (m.insert key (some p))).child s = some q) :
    s = .key key ∧ q = p ∨ (VarType.varMap m).child s = some q := by
  cases s with
  | index i => cases hq
  | key k =>
    rw [VarType.child, ExtTreeMap.getElem?_insert] at hq
    split at hq
    · rename_i hk
      obtain rfl := LawfulEqCmp.eq_of_compare hk
      exact Or.inl ⟨rfl, (Option.some.inj hq).symm⟩
    · exact Or.inr hq

/-- The last entry with a key counts. -/
theorem lookup_append {α : Type} (es : List (String × α)) (key : String) (a : α) :
    (fun k => (es ++ [(key, a)]).reverse.lookup k)
      = Function.update (fun k => es.reverse.lookup k) key (some a) := by
  funext k
  rw [List.reverse_append, List.reverse_singleton, List.singleton_append, List.lookup_cons,
    Function.update_apply]
  by_cases hk : k = key
  · simp [hk]
  · simp [hk, beq_false_of_ne hk]

theorem lookup_append_map {α β : Type} (g : α → β) (es : List (String × α)) (key : String) (a : α) :
    (fun k => ((es ++ [(key, a)]).reverse.lookup k).map g)
      = Function.update (fun k => (es.reverse.lookup k).map g) key (some (g a)) := by
  have hupdate := congrArg (fun f k => Option.map g (f k)) (lookup_append es key a)
  refine hupdate.trans (funext fun k => ?_)
  rw [Function.update_apply, Function.update_apply]
  split
  · rfl
  · rfl

theorem ownsEntries_of_child {lo : ℕ} (hv : ∀ s, v.child s = none) : h.OwnsEntries lo v :=
  ⟨fun s p hp => absurd hp (by simp [hv s]), fun s _ p _ _ _ _ _ hp => absurd hp (by simp [hv s])⟩

end

/-! ### What the parser makes -/

/-- The ending of a call of the parser on an expression with these contents. -/
inductive ReadsAs (h : Heap) :
    Option Content → EStateM.Result (Fault SettingsExn) Heap VarAddr → Prop
  | throws (h' : Heap) : ReadsAs h none (.error (.thrown (.text "stoi")) h')
  | value {t : Content} {p : VarAddr} {h' : Heap} {v : VarType} (hext : h.Extends h')
      (hp : h'.Holds p v) (hv : Shows h' (t.mapLeaves Atom.read) v)
      (hown : h'.Owns h.cells.length p) : ReadsAs h (some t) (.ok p h')

/-- The ending of a loop that puts a value with these contents together. -/
inductive Collects (h : Heap) (lo : ℕ) :
    Option Content → EStateM.Result (Fault SettingsExn) Heap VarType → Prop
  | throws (h' : Heap) : Collects h lo none (.error (.thrown (.text "stoi")) h')
  | value {t : Content} {v : VarType} {h' : Heap} (hext : h.Extends h')
      (hv : Shows h' (t.mapLeaves Atom.read) v) (hown : h'.OwnsEntries lo v) :
      Collects h lo (some t) (.ok v h')

section

variable {h h' : Heap} {lo : ℕ} {v : VarType} {t : Content}

theorem Collects.of_extends {o : Option Content}
    {r : EStateM.Result (Fault SettingsExn) Heap VarType} (hr : Collects h' lo o r)
    (hext : h.Extends h') : Collects h lo o r := by
  cases hr with
  | throws h'' => exact .throws h''
  | value hext' hv hown => exact .value (hext.trans hext') hv hown

/-- A value is given a storage. -/
theorem readsAs_makeVar (hext : h.Extends h') (hv : Shows h' (t.mapLeaves Atom.read) v)
    (hown : h'.OwnsEntries h.cells.length v) : ReadsAs h (some t) ((makeVar v).run h') := by
  have hext' := h'.extends_makeVariable v
  exact .value (hext.trans hext') (h'.holds_makeVariable v) (hv.of_extends hext')
    (Heap.owns_makeVariable hown hext.cells.length_le)

end

section

open recursiveExpressionParser (go)

variable {n c : SyntaxNode} {depth : ℕ}

theorem go_succ (hc : n.getNamedChild 0 = some c) : go (depth + 1) n =
    (if c.type = "value_map" then do makeVar (.varMap (← valueMapParserWith (go depth) n))
    else if c.type = "list_literal" then
      match c.getChildByFieldName "elements" with
      | none => makeVar (.list [])
      | some elementsRoot => do
        let listLiteral ← elementsRoot.namedChildren.foldlM (listElement (go depth)) (.list [])
        makeVar (.list (← Prog.ofExcept listLiteral.getList))
    else if c.type = "quoted_string" then makeVar (.string c.text)
    else if c.type = "number" then do makeVar (.int (← Prog.ofExcept (parseInt c)))
    else makeVar (.int 0)) := by
  rw [go, hc]
  rfl

theorem valueMapParserWith_eq (hc : n.getNamedChild 0 = some c)
    (parse : SyntaxNode → Settings VarAddr) : valueMapParserWith parse n = (do
      let map ← c.namedChildren.foldlM (valueMapEntry parse) (.varMap ∅)
      Prog.ofExcept map.getVarMap) := by
  rw [valueMapParserWith, hc]
  rfl

theorem valueMapEntry_eq {kn vn : SyntaxNode} (hkey : n.getChildByFieldName "key" = some kn)
    (hval : n.getChildByFieldName "value" = some vn) (parse : SyntaxNode → Settings VarAddr)
    (map : VarType) :
    valueMapEntry parse map n = (do setValue map kn.text (← parse vn)) := by
  rw [valueMapEntry, hkey, hval]
  rfl

end

/-- A sequence of calls, the first of which throws. -/
theorem run_bind_of_error {α β : Type} {x : Settings α} {f : α → Settings β} {h h' : Heap}
    {e : Fault SettingsExn} (hx : x.run h = .error e h') : (x >>= f).run h = .error e h' := by
  rw [EStateM.run_bind, hx]

theorem run_bind_of_ok {α β : Type} {x : Settings α} {f : α → Settings β} {h h' : Heap} {a : α}
    (hx : x.run h = .ok a h') : (x >>= f).run h = (f a).run h' := by
  rw [EStateM.run_bind, hx]

/-- A turn of a loop reads an expression first. It throws where this does, and otherwise goes on
with what was read. -/
theorem ReadsAs.collects {x : Settings VarAddr} {h : Heap} {lo : ℕ} {o o' : Option Content}
    (hx : ReadsAs h o (x.run h)) (hnone : o = none → o' = none) {turn : VarAddr → Settings VarType}
    {rest : VarType → Settings VarType}
    (hrest : ∀ t p h' v, o = some t → h.Extends h' → h'.Holds p v →
      Shows h' (t.mapLeaves Atom.read) v → h'.Owns h.cells.length p →
        Collects h' lo o' ((turn p >>= rest).run h')) :
    Collects h lo o' (((x >>= turn) >>= rest).run h) := by
  rcases hr : x.run h with ⟨p, h'⟩ | ⟨e, h'⟩
  · rw [hr] at hx
    obtain - | @⟨t, _, _, v, hext, hp, hv, hown⟩ := hx
    rw [EStateM.run_bind, run_bind_of_ok hr, ← EStateM.run_bind]
    exact (hrest t p h' v rfl hext hp hv hown).of_extends hext
  · rw [hr] at hx
    cases hx
    rw [hnone rfl, run_bind_of_error (run_bind_of_error hr)]
    exact .throws h'

section

variable {parse : SyntaxNode → Settings VarAddr}

/-- The loop over the elements of a list. -/
theorem foldlM_listElement {ns : List SyntaxNode} {ts : Option (List Content)}
    (hparse : ∀ n ∈ ns, ∀ o, HasContent n o → ∀ h, ReadsAs h o ((parse n).run h))
    (hns : HaveContents ns ts) (h : Heap) (lo : ℕ) (hlo : lo ≤ h.cells.length) (l : List VarPtr)
    (done : List Content) (hl : Shows h (.list (done.map (Nested.mapLeaves Atom.read))) (.list l))
    (hown : h.OwnsEntries lo (.list l)) :
    Collects h lo (ts.map fun ts => .list (done ++ ts))
      ((ns.foldlM (listElement parse) (.list l)).run h) := by
  induction ns generalizing ts h l done with
  | nil =>
    cases hns
    refine .value (Heap.Extends.refl h) ?_ hown
    show Shows h (Nested.mapLeaves Atom.read (.list (done ++ []))) (.list l)
    rw [List.append_nil, Nested.mapLeaves_list]
    exact hl
  | cons n ns ih =>
    obtain - | @⟨_, _, t, ts, hn, hns⟩ := hns
    rw [List.foldlM_cons]
    refine (hparse n List.mem_cons_self t hn h).collects (by rintro rfl; rfl) ?_
    rintro t p h' v rfl hext hp hv hp'
    have hext' := h'.extends_makeVariable v
    have hstep : (do pushBack (.list l) ((← get).value p)).run h'
        = .ok (.list (l ++ [some (h'.makeVariable v).1])) (h'.makeVariable v).2 := by
      rw [← hp.value_eq]
      rfl
    rw [run_bind_of_ok hstep]
    have hdone := hl.append (hext.trans hext') (h'.holds_makeVariable v) (hv.of_extends hext')
    rw [← List.map_singleton, ← List.map_append] at hdone
    have howns : (h'.makeVariable v).2.Owns h.cells.length (h'.makeVariable v).1 :=
      Heap.owns_makeVariable (hp.value_eq ▸ hp'.ownsEntries) hext.cells.length_le
    have hrest := ih (fun n' hn' => hparse n' (List.mem_cons_of_mem n hn')) hns _
      (hlo.trans (hext.trans hext').cells.length_le) _ _ hdone
      (hown.insert hlo (hext.trans hext') howns fun s q => child_append)
    have heq : (Option.map₂ List.cons (some t) ts).map (fun ts => Nested.list (done ++ ts))
        = ts.map fun ts => .list (done ++ [t] ++ ts) := by
      cases ts <;> simp
    rw [heq]
    exact hrest.of_extends hext'

/-- The loop over the entries of a map. -/
theorem foldlM_valueMapEntry {ns : List SyntaxNode} {es : Option (List (String × Content))}
    (hparse : ∀ n ∈ ns, ∀ vn, n.getChildByFieldName "value" = some vn →
      ∀ o, HasContent vn o → ∀ h, ReadsAs h o ((parse vn).run h))
    (hns : HaveEntries ns es) (h : Heap) (lo : ℕ) (hlo : lo ≤ h.cells.length) (m : VarMapType)
    (done : List (String × Content))
    (hm : Shows h (.map fun k => (done.reverse.lookup k).map (Nested.mapLeaves Atom.read))
      (.varMap m)) (hown : h.OwnsEntries lo (.varMap m)) :
    Collects h lo (es.map fun es => .map fun k => (done ++ es).reverse.lookup k)
      ((ns.foldlM (valueMapEntry parse) (.varMap m)).run h) := by
  induction ns generalizing es h m done with
  | nil =>
    cases hns
    refine .value (Heap.Extends.refl h) ?_ hown
    show Shows h (Nested.mapLeaves Atom.read (.map fun k => (done ++ []).reverse.lookup k))
      (.varMap m)
    rw [List.append_nil, Nested.mapLeaves_map]
    exact hm
  | cons n ns ih =>
    obtain - | @⟨_, kn, vn, _, t, es, hkey, hval, hn, hns⟩ := hns
    rw [List.foldlM_cons, valueMapEntry_eq hkey hval]
    refine (hparse n List.mem_cons_self vn hval t hn h).collects (by rintro rfl; rfl) ?_
    rintro t p h' v rfl hext hp hv hp'
    have hext' := h'.extends_copyVariable (h'.storage p)
    have hstep : (setValue (.varMap m) kn.text p).run h'
        = .ok (.varMap (m.insert kn.text (some (h'.copyVariable (h'.storage p)).1)))
          (h'.copyVariable (h'.storage p)).2 := rfl
    rw [run_bind_of_ok hstep]
    have hdone := hm.insert (hext.trans hext') (hp.copyVariable) (hv.of_extends hext') kn.text
    rw [← lookup_append_map] at hdone
    have hrest := ih (fun n' hn' => hparse n' (List.mem_cons_of_mem n hn')) hns _
      (hlo.trans (hext.trans hext').cells.length_le) _ _ hdone
      (hown.insert hlo (hext.trans hext') hp'.copyVariable fun s q => child_insert)
    have heq : (Option.map₂ (fun t es => (kn.text, t) :: es) (some t) es).map
          (fun es => Nested.map fun k => (done ++ es).reverse.lookup k)
        = es.map fun es => .map fun k => (done ++ [(kn.text, t)] ++ es).reverse.lookup k := by
      cases es <;> simp
    rw [heq]
    exact hrest.of_extends hext'

/-- The end of a loop: the value is given a storage. -/
theorem Collects.readsAs {o : Option Content} {r : EStateM.Result (Fault SettingsExn) Heap VarType}
    {h : Heap} {x : Settings VarType} (hx : x.run h = r) (hr : Collects h h.cells.length o r)
    {f : VarType → Settings VarAddr}
    (hf : ∀ t v h', o = some t → Shows h' (t.mapLeaves Atom.read) v → f v = makeVar v) :
    ReadsAs h o ((x >>= f).run h) := by
  cases hr with
  | throws h' =>
    rw [run_bind_of_error hx]
    exact .throws h'
  | @value t v h' hext hv hown =>
    rw [run_bind_of_ok hx, hf t v h' rfl hv]
    exact readsAs_makeVar hext hv hown

end

theorem Shows.exists_eq_list {h : Heap} {ts : List Content} {v : VarType}
    (hv : Shows h (.list ts) v) : ∃ l, v = .list l := by
  cases hv with
  | list => exact ⟨_, rfl⟩

theorem Shows.exists_eq_varMap {h : Heap} {f : String → Option Content} {v : VarType}
    (hv : Shows h (.map f) v) : ∃ m, v = .varMap m := by
  cases hv with
  | map => exact ⟨_, rfl⟩

/-- **What the parser makes of an expression.** It is a value with the contents of the expression in
new storages, but for the leaves it does not know, or a throw if there are no contents. The
induction is on the depth, which is enough for what is below a node if it is for the node. -/
theorem recursiveExpressionParser_go_reads {n : SyntaxNode} {o : Option Content}
    (hn : HasContent n o) (depth : ℕ) (hdepth : n.height ≤ depth) (h : Heap) :
    ReadsAs h o ((recursiveExpressionParser.go depth n).run h) := by
  induction depth generalizing n o h with
  | zero =>
    obtain ⟨_, _, _, _, children⟩ := n
    rw [SyntaxNode.height] at hdepth
    cases hdepth
  | succ depth ih =>
    cases hn with
    | @number _ c hc ht =>
      rw [go_succ hc, if_neg (by simp [ht]), if_neg (by simp [ht]), if_neg (by simp [ht]),
        if_pos ht, parseInt]
      rcases stoi c.sourceRange with _ | k
      · exact .throws h
      · exact readsAs_makeVar (Heap.Extends.refl h) (by simpa using Shows.int k)
          (ownsEntries_of_child fun s => rfl)
    | @string _ c hc ht =>
      rw [go_succ hc, if_neg (by simp [ht]), if_neg (by simp [ht]), if_pos ht]
      exact readsAs_makeVar (Heap.Extends.refl h) (by simpa using Shows.string c.text)
        (ownsEntries_of_child fun s => rfl)
    | @other _ c hc ht =>
      simp only [literalKinds, List.mem_cons, List.not_mem_nil, or_false, not_or] at ht
      obtain ⟨hmap, hlist, hstring, hnumber⟩ := ht
      rw [go_succ hc, if_neg hmap, if_neg hlist, if_neg hstring, if_neg hnumber]
      exact readsAs_makeVar (Heap.Extends.refl h) (by simpa using Shows.int 0)
        (ownsEntries_of_child fun s => rfl)
    | @emptyList _ c hc ht he =>
      rw [go_succ hc, if_neg (by simp [ht]), if_pos ht, he]
      exact readsAs_makeVar (Heap.Extends.refl h) (by simpa using shows_nil)
        (ownsEntries_of_child fun s => by cases s <;> rfl)
    | @list _ c r ts hc ht he hl =>
      have hchildren : ∀ child ∈ r.namedChildren, child.height ≤ depth := by
        intro child hchild
        have h₁ := SyntaxNode.height_lt_of_mem_namedChildren hchild
        have h₂ := SyntaxNode.height_lt_of_getChildByFieldName he
        have h₃ := SyntaxNode.height_lt_of_getNamedChild hc
        omega
      rw [go_succ hc, if_neg (by simp [ht]), if_pos ht, he]
      have hcollects := foldlM_listElement
        (fun child hchild o ho => ih ho (hchildren child hchild)) hl h _ le_rfl [] [] shows_nil
        (ownsEntries_of_child fun s => by cases s <;> rfl)
      refine Collects.readsAs rfl hcollects fun t v h' ho hv => ?_
      obtain ⟨ts, -, rfl⟩ := Option.map_eq_some_iff.mp ho
      rw [Nested.mapLeaves_list] at hv
      obtain ⟨l, rfl⟩ := hv.exists_eq_list
      rfl
    | @map _ c es hc ht hm =>
      have hchildren : ∀ child ∈ c.namedChildren, ∀ vn,
          child.getChildByFieldName "value" = some vn → vn.height ≤ depth := by
        intro child hchild vn hval
        have h₁ := SyntaxNode.height_lt_of_getChildByFieldName hval
        have h₂ := SyntaxNode.height_lt_of_mem_namedChildren hchild
        have h₃ := SyntaxNode.height_lt_of_getNamedChild hc
        omega
      rw [go_succ hc, if_pos ht, valueMapParserWith_eq hc, bind_assoc]
      have hcollects := foldlM_valueMapEntry
        (fun child hchild vn hval o ho => ih ho (hchildren child hchild vn hval)) hm h _ le_rfl ∅ []
        shows_empty (ownsEntries_of_child fun s => by cases s <;> simp [VarType.child])
      refine Collects.readsAs rfl hcollects fun t v h' ho hv => ?_
      obtain ⟨es, -, rfl⟩ := Option.map_eq_some_iff.mp ho
      rw [Nested.mapLeaves_map] at hv
      obtain ⟨m, rfl⟩ := hv.exists_eq_varMap
      rfl

/-- The same of a call of the parser. -/
theorem recursiveExpressionParser_reads {n : SyntaxNode} {o : Option Content}
    (hn : HasContent n o) (h : Heap) : ReadsAs h o ((recursiveExpressionParser n).run h) :=
  recursiveExpressionParser_go_reads hn n.height le_rfl h

/-! ### Writing literals down -/

/-- An expression node. -/
def exprNode (type : String) (text : List Char) (children : List SyntaxNode) : SyntaxNode :=
  .mk "expression" text none true [.mk type text none true children]

/-- The node under another field. -/
def SyntaxNode.withField (field : String) : SyntaxNode → SyntaxNode
  | .mk type text _ _ children => .mk type text (some field) true children

/-- An entry of a map. -/
def entryNode (key : String) (value : SyntaxNode) : SyntaxNode :=
  .mk "map_entry" [] none true [leafNode key "key", value.withField "value"]

/-- The node of a list with these elements. -/
def listNode (elements : List SyntaxNode) : SyntaxNode :=
  exprNode "list_literal" [] [.mk "expression_list" [] (some "elements") true
    (elements.map (SyntaxNode.withField "element"))]

theorem HasContent.withField {n : SyntaxNode} {o : Option Content} (hn : HasContent n o)
    (field : String) : HasContent (n.withField field) o := by
  obtain ⟨type, text, field', named, children⟩ := n
  cases hn with
  | number hc ht => exact .number hc ht
  | string hc ht => exact .string hc ht
  | @other _ c hc ht => exact .other (n := .mk type text (some field) true children) hc ht
  | emptyList hc ht he => exact .emptyList hc ht he
  | list hc ht he hl => exact .list hc ht he hl
  | map hc ht hm => exact .map hc ht hm

theorem hasContent_number (text : List Char) :
    HasContent (exprNode "number" text []) ((stoi text).map fun k => .leaf (.int k)) :=
  .number (n := exprNode "number" text []) (c := .mk "number" text none true []) rfl rfl

theorem hasContent_string (text : List Char) :
    HasContent (exprNode "quoted_string" text []) (some (.leaf (.string (String.ofList text)))) :=
  .string (n := exprNode "quoted_string" text []) (c := .mk "quoted_string" text none true []) rfl
    rfl

theorem hasContent_other {kind : String} (hkind : kind ∉ literalKinds) (text : List Char) :
    HasContent (exprNode kind text []) (some (.leaf (.other kind (String.ofList text)))) :=
  .other (n := exprNode kind text []) rfl hkind

theorem SyntaxNode.namedChildren_map_withField {type : String} {text : List Char}
    {field : Option String} {named : Bool} (f : String) (nodes : List SyntaxNode) :
    (SyntaxNode.mk type text field named (nodes.map (SyntaxNode.withField f))).namedChildren
      = nodes.map (SyntaxNode.withField f) := by
  refine List.filter_eq_self.mpr fun node hnode => ?_
  obtain ⟨⟨_, _, _, _, _⟩, -, rfl⟩ := List.mem_map.mp hnode
  rfl

theorem HaveContents.withField {ns : List SyntaxNode} {ts : Option (List Content)}
    (hns : HaveContents ns ts) (field : String) :
    HaveContents (ns.map (SyntaxNode.withField field)) ts := by
  induction ns generalizing ts with
  | nil => exact hns
  | cons n ns ih =>
    obtain - | ⟨hn, hns⟩ := hns
    exact .cons (hn.withField field) (ih hns)

theorem hasContent_list {ns : List SyntaxNode} {ts : Option (List Content)}
    (hns : HaveContents ns ts) : HasContent (listNode ns) (ts.map .list) := by
  refine .list (n := listNode ns) rfl rfl rfl ?_
  rw [SyntaxNode.namedChildren_map_withField]
  exact hns.withField "element"

theorem HaveEntries.cons_entryNode {n : SyntaxNode} {ns : List SyntaxNode} {t : Option Content}
    {es : Option (List (String × Content))} (key : String) (hn : HasContent n t)
    (hns : HaveEntries ns es) :
    HaveEntries (entryNode key n :: ns) (Option.map₂ (fun t es => (key, t) :: es) t es) := by
  obtain ⟨type, text, field, named, children⟩ := n
  have hkey : (leafNode key "key").text = key := String.ofList_toList
  have hcons := HaveEntries.cons (n := entryNode key (.mk type text field named children)) rfl rfl
    (hn.withField "value") hns
  rwa [hkey] at hcons

/-- The node of a map with these entries. -/
def mapNode (entries : List SyntaxNode) : SyntaxNode := exprNode "value_map" [] entries

theorem hasContent_map {ns : List SyntaxNode} {es : Option (List (String × Content))}
    (hns : HaveEntries ns es) (hnamed : ∀ n ∈ ns, n.named = true) :
    HasContent (mapNode ns) (es.map fun es => .map fun k => es.reverse.lookup k) := by
  refine .map (n := mapNode ns) rfl rfl ?_
  have hfilter : (SyntaxNode.mk "value_map" [] none true ns).namedChildren = ns :=
    List.filter_eq_self.mpr hnamed
  rw [hfilter]
  exact hns

/-! ### Literals -/

theorem Atom.IsLiteral.read_eq {a : Atom} (ha : a.IsLiteral) : a.read = a := by
  cases a with
  | other kind text => cases ha
  | _ => rfl

/-- A literal is read as it is. -/
theorem Content.IsLiteral.mapLeaves_read {t : Content} (ht : t.IsLiteral) :
    t.mapLeaves Atom.read = t :=
  Nested.mapLeaves_eq_self_iff.mpr fun a ha => (ht a ha).read_eq

/-- **Settings literals are read faithfully.** A literal built from maps, lists, quoted strings and
numbers that fit an int, nested to any depth, is read as a value that has its contents: the elements
of a list in order, and under each key of a map what the last entry with it has. Of the `Variable`s
in the value no two share a storage, so setting one leaves what another has as it was. -/
theorem settings_literal_read (n : SyntaxNode) (t : Content) (hn : HasContent n (some t))
    (ht : t.IsLiteral) (h : Heap) :
    ∃ p h' v, (recursiveExpressionParser n).run h = .ok p h' ∧ h.Extends h' ∧ h'.Holds p v ∧
      Shows h' t v ∧
      ∀ path path' q q', h'.entryAt p path = some q → h'.entryAt p path' = some q' →
        path ≠ path' → h'.storage q ≠ h'.storage q' ∧
          ∀ w u, Variable.set q w h' = .ok u → u.value q' = h'.value q' := by
  have hreads := recursiveExpressionParser_reads hn h
  rcases hr : (recursiveExpressionParser n).run h with ⟨p, h'⟩ | ⟨e, h'⟩
  · rw [hr] at hreads
    obtain - | @⟨_, _, _, v, hext, hp, hv, hown⟩ := hreads
    rw [ht.mapLeaves_read] at hv
    refine ⟨p, h', v, rfl, hext, hp, hv, fun path path' q q' hq hq' hne => ⟨fun heq => ?_, ?_⟩⟩
    · exact hne (hown.inj path path' q q' hq hq' heq)
    · intro w u hu
      obtain ⟨w', -, hu⟩ := Prog.bind_eq_ok.mp hu
      obtain rfl := Except.ok.inj hu
      exact hown.value_write hq hq' hne w'
  · rw [hr] at hreads
    cases hreads

/-- A map with a list in it, in which the entry under `a` is given twice. -/
def twiceNode : SyntaxNode :=
  mapNode [entryNode "a" (exprNode "number" ['1'] []),
    entryNode "a" (listNode [exprNode "number" ['2'] [], exprNode "quoted_string" ['"', '"'] []])]

/-- What it has. -/
def twiceContent : Content :=
  .map fun k => [("a", Nested.list [.leaf (.int 2), .leaf (.string "\"\"")]),
    ("a", .leaf (.int 1))].lookup k

theorem settings_literal_read_twice :
    ∃ p h' v, (recursiveExpressionParser twiceNode).run {} = .ok p h' ∧ h'.Holds p v ∧
      Shows h' twiceContent v := by
  have hlist := hasContent_list (.cons (hasContent_number ['2'])
    (.cons (hasContent_string ['"', '"']) .nil))
  have hcontent : HasContent twiceNode (some twiceContent) :=
    hasContent_map (.cons_entryNode "a" (hasContent_number ['1'])
      (.cons_entryNode "a" hlist .nil)) (by simp [entryNode, SyntaxNode.named])
  have hliteral : twiceContent.IsLiteral := by
    rintro a (_ | _ | @⟨_, k, t, ht, ha⟩)
    by_cases hk : k = "a"
    · subst hk
      obtain rfl := Option.some.inj ht
      obtain - | @⟨_, u, hu, ha⟩ := ha
      rcases List.mem_pair.mp hu with rfl | rfl
      · cases ha
        trivial
      · cases ha
        trivial
    · simp [List.lookup_cons, beq_false_of_ne hk] at ht
  obtain ⟨p, h', v, hr, -, hp, hv, -⟩ :=
    settings_literal_read twiceNode twiceContent hcontent hliteral {}
  exact ⟨p, h', v, hr, hp, hv⟩

end SocialGaming
